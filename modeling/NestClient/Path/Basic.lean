import NestClient.Text.Basic

/-! Paths as an anchor and the names under it. Reading a path drops empty names and `.`; `..` stays,
since what it leads to depends on the links in between. -/

namespace NestClient

/-- Where a path begins. -/
inductive Anchor where
  /-- At the directory of whoever uses the path. -/
  | here
  /-- At the root. -/
  | root
  /-- At the alternative root written with exactly two slashes. -/
  | doubleRoot
  deriving DecidableEq, Repr

def Anchor.text : Anchor → Text
  | here => []
  | root => ['/']
  | doubleRoot => ['/', '/']

def Anchor.ofText (t : Text) : Anchor :=
  match (t.takeWhile (· = '/')).length with
  | 0 => here
  | 2 => doubleRoot
  | _ => root

structure Path where
  anchor : Anchor
  names : List Text
  deriving DecidableEq, Repr

namespace Path

/-- The names of a written path: what stands between slashes, save nothing and `.`. -/
def namesOf (t : Text) : List Text :=
  (Text.split '/' t).filter fun name => !name.isEmpty && name ≠ ['.']

def ofText (t : Text) : Path := ⟨.ofText t, namesOf t⟩

/-- The path as written; a path without any part is `.`. -/
def text (p : Path) : Text :=
  if p.anchor = .here && p.names.isEmpty then ['.']
  else p.anchor.text ++ Text.join ['/'] p.names

/-- All parts of the path, the anchor being the first of an anchored one. -/
def parts (p : Path) : List Text :=
  if p.anchor = .here then p.names else p.anchor.text :: p.names

def name (p : Path) : Text := p.names.getLastD []

def parent (p : Path) : Path := { p with names := p.names.dropLast }

/-- `q` as seen from `p`: an anchored `q` stands for itself. -/
def append (p q : Path) : Path :=
  if q.anchor = .here then { p with names := p.names ++ q.names } else q

/-- What is left of `p` below `base`. -/
def relativeTo? (p base : Path) : Option Path :=
  match base.anchor, p.anchor with
  | .here, .here => (base.names.isPrefixOf? p.names).map (⟨.here, ·⟩)
  | .here, _ => none
  | _, _ =>
    if base.anchor = p.anchor then (base.names.isPrefixOf? p.names).map (⟨.here, ·⟩) else none

/-- A directory of the path has one of the given names. -/
def underIgnored (p : Path) (ignores : List Text) : Bool :=
  p.parts.dropLast.any ignores.contains

end Path

end NestClient
