import NestClient.Text.Blank

/-! Routes: fragments separated by slashes. -/

namespace NestClient.Route

/-- Every run of slashes becomes a single one. -/
def collapse : Text → Text
  | [] => []
  | c :: rest =>
    if c = '/' && rest.head? = some '/' then collapse rest else c :: collapse rest

def trimSlashes (t : Text) : Text := Text.trimBy (· = '/') t

/-- One route of several fragments, without repeated slashes or slashes at the ends. Blanks around a
fragment do not count. -/
def join (parts : List Text) : Text :=
  let kept := (parts.map Text.trim).filter fun part => !part.isEmpty
  trimSlashes (collapse (Text.join ['/'] kept))

/-- What stands between the slashes of a route, where there is anything. -/
def segments (route : Text) : List Text :=
  (Text.split '/' route).filter fun segment => !segment.isEmpty

/-- The route below `lead`, where it begins with all of it. -/
def dropPrefix (route lead : Text) : Text :=
  let lead := trimSlashes lead
  let below :=
    if !lead.isEmpty && (route = lead || (lead ++ ['/']).isPrefixOf route) then
      route.drop lead.length
    else route
  trimSlashes below

end NestClient.Route
