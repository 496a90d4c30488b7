import NestClient.Text.Blank
import NestClient.Text.Hump

/-! Names of client classes and of their files. -/

namespace NestClient

/-- A run of blanks and underscores becomes one hyphen. -/
def hyphenate : Text → Text
  | [] => []
  | c :: rest =>
    if isBlank c || c = '_' then
      if rest.head?.any (fun d => isBlank d || d = '_') then hyphenate rest
      else '-' :: hyphenate rest
    else c :: hyphenate rest

/-- Lower-case words joined by hyphens: `ApiTeamService` becomes `api-team-service`. -/
def kebabCase (name : Text) : Text := Text.lower (hyphenate (Text.markHumps '-' name))

/-- The client class of a controller class: `TeamController` becomes `ApiTeamService`. -/
def clientClassName (controller : Text) : Text :=
  let stem :=
    match Text.dropTail? "Controller".toList controller with
    | some stem => if stem.isEmpty then controller else stem
    | none => controller
  "Api".toList ++ stem ++ "Service".toList

/-- The file of a client class: `ApiTeamService` becomes `api-team.service.ts`. -/
def clientFileName (className : Text) : Text :=
  let stem := kebabCase className
  let named :=
    match Text.dropTail? "-service".toList stem with
    | some before => before ++ ".service".toList
    | none => stem
  named ++ ".ts".toList

end NestClient
