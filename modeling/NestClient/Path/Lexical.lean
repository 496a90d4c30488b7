import NestClient.Text.Basic

/-! Arithmetic on written paths that never looks at a file: `..` takes away the name before it. -/

namespace NestClient.Path

/-- One step of normalizing: the names so far, last first, and the next one. -/
def pushName (rooted : Bool) (stack : List Text) (name : Text) : List Text :=
  if name.isEmpty || name = ['.'] then stack
  else if name ≠ ['.', '.'] then name :: stack
  else
    match stack with
    | [] => if rooted then [] else [name]
    | top :: below => if top = ['.', '.'] then name :: stack else below

/-- The names of a path once every `..` that follows a name has taken it away. -/
def normalNames (rooted : Bool) (names : List Text) : List Text :=
  (names.foldl (pushName rooted) []).reverse

/-- The slashes kept at the start: two if there are exactly two, else one. -/
def leadingSlashes (t : Text) : Text :=
  match (t.takeWhile (· = '/')).length with
  | 0 => []
  | 2 => ['/', '/']
  | _ => ['/']

/-- The shortest way to write a path, as far as its text can tell. -/
def normalize (t : Text) : Text :=
  let lead := leadingSlashes t
  let written := lead ++ Text.join ['/'] (normalNames (!lead.isEmpty) (Text.split '/' t))
  if written.isEmpty then ['.'] else written

/-- The directory part: what precedes the last slash, without the slashes at its end unless it has
nothing else. -/
def directory (t : Text) : Text :=
  let head := (t.reverse.dropWhile (· ≠ '/')).reverse
  if head.all (· = '/') then head else Text.trimEndBy (· = '/') head

/-- `t` as seen from the directory `base`. -/
def under (base t : Text) : Text :=
  if t.head? = some '/' then t
  else if base.isEmpty || base.getLast? = some '/' then base ++ t
  else base ++ '/' :: t

/-- The names from the root, where a path that is not anchored begins at the root too. -/
def namesFromRoot (t : Text) : List Text :=
  (Text.split '/' (normalize (under ['/'] t))).filter fun name => !name.isEmpty

/-- The names that two lists begin with in common are dropped from both. -/
def dropCommon : List Text → List Text → List Text × List Text
  | a :: s, b :: t => if a = b then dropCommon s t else (a :: s, b :: t)
  | s, t => (s, t)

/-- The way from the directory `start` to `target`; an empty target leads nowhere. -/
def relative? (target start : Text) : Option Text :=
  if target.isEmpty then none
  else
    let (up, down) := dropCommon (namesFromRoot start) (namesFromRoot target)
    let steps := up.map (fun _ => ['.', '.']) ++ down
    some (if steps.isEmpty then ['.'] else Text.join ['/'] steps)

end NestClient.Path
