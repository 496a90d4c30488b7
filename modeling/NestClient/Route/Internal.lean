import NestClient.Route.Basic
import NestClient.Text.Hump
import NestClient.Text.Template

/-! Parts of a route that the client's base class supplies: placeholders and constants named for an
internal key. -/

namespace NestClient.Route

/-- The content of a hole names an internal key, in either spelling. -/
def namesInternal (keys : List Text) (inner : Text) : Bool :=
  keys.contains (lastName inner) || (keys.map Text.constantCase).contains (lastName inner)

/-- A placeholder of an internal key, or the bare `:` that is left of one. -/
def isInternalSegment (keys : List Text) (segment : Text) : Bool :=
  match segment with
  | ':' :: key => key.isEmpty || keys.contains key
  | _ => false

/-- The route without its internal segments and holes. -/
def dropInternal (route : Text) (keys : List Text) : Text :=
  let filled := Template.fill (fun inner => if namesInternal keys inner then some [] else none) route
  join ((Text.split '/' filled).filter fun segment => !isInternalSegment keys segment)

end NestClient.Route
