import NestClient.Path.Basic

/-! Patterns for paths: names in which `*`, `?` and sets of characters stand for others, and `**` for
any number of directories. -/

namespace NestClient

/-! ## Names -/

/-- What one place of a name pattern admits. -/
inductive NamePart where
  | anyText
  | anyChar
  | char (c : Char)
  /-- A character within, or outside of, one of the ranges. -/
  | set (outside : Bool) (ranges : List (Char × Char))
  deriving DecidableEq, Repr

namespace NamePart

/-- The ranges that the inside of a set lists; a `-` between two characters spans a range. -/
def ranges : Text → List (Char × Char)
  | low :: '-' :: high :: rest => (low, high) :: ranges rest
  | c :: rest => (c, c) :: ranges rest
  | [] => []

/-- The character fits a place that is no `*`. -/
def admits (p : NamePart) (c : Char) : Bool :=
  match p with
  | anyText | anyChar => true
  | char d => c = d
  | set outside ranges => (ranges.any fun (low, high) => low ≤ c && c ≤ high) != outside

/-- The inside of a set after its `[`, and what follows it. A `]` right at the start, or right after
the `!`, is a member. -/
def splitSet (t : Text) : Option (Text × Text) :=
  let lead := if t.head? = some '!' then 1 else 0
  let lead := if t[lead]? = some ']' then lead + 1 else lead
  let inside := (t.drop lead).takeWhile (· ≠ ']')
  match t.drop (lead + inside.length) with
  | [] => none
  | _ :: rest => some (t.take (lead + inside.length), rest)

/-- The set whose inside is given. -/
def ofInside (inside : Text) : NamePart :=
  match inside with
  | '!' :: members => set true (ranges members)
  | members => set false (ranges members)

/-- The parts of a name pattern; the bound is on their number. -/
def partsUpTo : Nat → Text → List NamePart
  | 0, _ => []
  | _ + 1, [] => []
  | bound + 1, c :: rest =>
    if c = '*' then anyText :: partsUpTo bound rest
    else if c = '?' then anyChar :: partsUpTo bound rest
    else if c = '[' then
      match splitSet rest with
      | some (inside, after) => ofInside inside :: partsUpTo bound after
      | none => char c :: partsUpTo bound rest
    else char c :: partsUpTo bound rest

def parts (t : Text) : List NamePart := partsUpTo t.length t

/-- Some end of a name passes a test. -/
def anyTail (fits : Text → Bool) : Text → Bool
  | [] => fits []
  | c :: rest => fits (c :: rest) || anyTail fits rest

def matchName : List NamePart → Text → Bool
  | [], name => name.isEmpty
  | .anyText :: more, name => anyTail (matchName more) name
  | p :: more, name =>
    match name with
    | [] => false
    | c :: rest => p.admits c && matchName more rest

end NamePart

/-! ## Paths -/

/-- What one name of a path pattern stands for. -/
inductive PatternStep where
  /-- `**`: any number of directories, one below the other. -/
  | anyDepth
  /-- `..`: the directory above. -/
  | up
  | exactly (name : Text)
  | like (parts : List NamePart)
  deriving DecidableEq, Repr

/-- A pattern for paths. One that ends in a slash is for directories only. -/
structure PathPattern where
  steps : List PatternStep
  directoriesOnly : Bool := false
  deriving DecidableEq, Repr

/-- Why a text is no pattern. -/
inductive PatternProblem where
  | empty
  | anchored
  /-- No name is left of the pattern. -/
  | noName
  /-- No name precedes the slash at the end. -/
  | bareSlash
  /-- `**` as a part of a name. -/
  | mixedDepth
  deriving DecidableEq, Repr

def PatternProblem.message : PatternProblem → Text
  | empty => "Unacceptable pattern: ''".toList
  | anchored => "Non-relative patterns are unsupported".toList
  | noName => "The pattern names nothing".toList
  | bareSlash => "The pattern names nothing before its slash".toList
  | mixedDepth => "Invalid pattern: '**' can only be an entire path component".toList

def PatternStep.ofName (name : Text) : Except PatternProblem PatternStep :=
  if name = "**".toList then .ok .anyDepth
  else if name = "..".toList then .ok .up
  else if Text.occurs "**".toList name then .error .mixedDepth
  else if name.any fun c => c = '*' || c = '?' || c = '[' then .ok (.like (NamePart.parts name))
  else .ok (.exactly name)

def PathPattern.ofText (t : Text) : Except PatternProblem PathPattern :=
  let names := Path.namesOf t
  let endsInSlash := t.getLast? = some '/'
  if t.isEmpty then .error .empty
  else if t.head? = some '/' then .error .anchored
  else if names.isEmpty then .error (if endsInSlash then .bareSlash else .noName)
  else (⟨·, endsInSlash⟩) <$> names.mapM PatternStep.ofName

end NestClient
