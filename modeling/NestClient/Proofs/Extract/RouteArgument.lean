import NestClient.Extract.Controller
import NestClient.Proofs.Text.Holes
import NestClient.TypeScript.Reader

/-! What the argument of a decorator makes of the constants it refers to, and of the two places in which
a path can stand.

* `settled_argument_iff`: constants are put in once, so their values may bring in holes of known constants.
* `routeArgument_object_iff`: a path as a property of an object is a template, even where it is written as
  a string, and never a reference. -/

namespace NestClient

/-! ## Constants in arguments -/

/-- The values of the known constants that a template or a reference names. -/
def Argument.namedValues (a : Argument) (known : Constants) : List Text :=
  match a.kind with
  | .template => Template.namedValues known (a.value.getD [])
  | .identifier | .member => (known.get? (lastName a.text)).toList
  | .string | .object | .other _ => []

/-- The argument is a template or the name of something. -/
def Argument.Refers (a : Argument) : Prop :=
  a.kind = .template ∨ a.kind = .identifier ∨ a.kind = .member

/-- Nothing that is put into a template makes up a hole with what stands beside it. -/
structure Argument.Separate (a : Argument) (known : Constants) : Prop where
  dollar : ¬Template.dollarOpening <:+: a.value.getD []
  whole : ∀ v ∈ a.namedValues known, Template.Whole v

/-- The constants with the prefix of all routes among them. -/
def withPrefix (cs : Constants) (prefixConstant apiPrefix : Text) : Constants :=
  cs ++ [(prefixConstant, apiPrefix)]

namespace Argument

variable {a : Argument} {known cs : Constants} {d : Decorator} {prefixConstant apiPrefix t : Text}

theorem settled_toList_iff {v? : Option Text} :
    Template.Settled known (v?.getD []) ↔ ∀ v ∈ v?.toList, Template.Settled known v := by
  cases v? with
  | none => exact iff_of_true (Template.settled_of_holes_eq_nil rfl) (by simp)
  | some v => simp

theorem settled_routeArgument_iff (ha : d.arguments.head? = some a) (hrefers : a.Refers)
    (hseparate : a.kind = .template → a.Separate (withPrefix cs prefixConstant apiPrefix)) :
    Template.Settled (withPrefix cs prefixConstant apiPrefix)
        (routeArgument (some d) apiPrefix prefixConstant cs)
      ↔ ∀ v ∈ a.namedValues (withPrefix cs prefixConstant apiPrefix),
          Template.Settled (withPrefix cs prefixConstant apiPrefix) v := by
  simp only [routeArgument, Option.bind_some, ha]
  rcases hrefers with hkind | hkind | hkind
  · obtain ⟨hdollar, hwhole⟩ := hseparate hkind
    simp only [namedValues, hkind] at hwhole ⊢
    exact Template.settled_fillConstants_iff hdollar hwhole
  all_goals
    simp only [namedValues, staticText, hkind]
    exact settled_toList_iff

/-- A template is refused where filling it leaves holes, a reference is not. -/
theorem settled_staticText_iff (hrefers : a.Refers) (ht : a.staticText cs = some t) :
    Template.Settled cs t ↔ a.kind = .template ∨ ∀ v ∈ a.namedValues cs, Template.Settled cs v := by
  rcases hrefers with hkind | hkind | hkind
  · simp only [staticText, hkind] at ht
    split at ht
    next hholes =>
      obtain rfl := Option.some.inj ht
      exact iff_of_true (Template.settled_of_holes_eq_nil (List.isEmpty_iff.1 hholes)) (.inl hkind)
    next => exact absurd ht (by simp)
  all_goals
    simp only [staticText, hkind] at ht
    simp only [namedValues, hkind, ht]
    simp

end Argument

/-- A known constant is left as a hole in the text of a template or a reference exactly if it was brought
in by the value of another one: constants are put in once, and what they bring in is not looked at again.
Only where a template has to come out without holes is it refused instead. -/
theorem settled_argument_iff {d : Decorator} {a : Argument} (ha : d.arguments.head? = some a)
    (hrefers : a.Refers) (prefixConstant apiPrefix : Text) (cs : Constants)
    (hseparate : a.kind = .template → a.Separate (withPrefix cs prefixConstant apiPrefix)) :
    (Template.Settled (withPrefix cs prefixConstant apiPrefix)
        (routeArgument (some d) apiPrefix prefixConstant cs)
      ↔ ∀ v ∈ a.namedValues (withPrefix cs prefixConstant apiPrefix),
          Template.Settled (withPrefix cs prefixConstant apiPrefix) v) ∧
    ∀ t, a.staticText cs = some t →
      (Template.Settled cs t ↔ a.kind = .template ∨ ∀ v ∈ a.namedValues cs, Template.Settled cs v) :=
  ⟨Argument.settled_routeArgument_iff ha hrefers hseparate, fun _ => Argument.settled_staticText_iff hrefers⟩

/-- Two constants, one of which is put together from the other. -/
def nestedConstants : Constants := [("B".toList, "b".toList), ("A".toList, "$\x7bB\x7d/x".toList)]

theorem settled_argument_nested :
    let a : Argument := { kind := .template, value := some "$\x7bA\x7d/y".toList }
    let d : Decorator := { name := "Controller".toList, arguments := [a] }
    ¬Template.Settled (withPrefix nestedConstants "API_PREFIX".toList "api".toList)
        (routeArgument (some d) "api".toList "API_PREFIX".toList nestedConstants) ∧
      routeArgument (some d) "api".toList "API_PREFIX".toList nestedConstants = "$\x7bB\x7d/x/y".toList := by
  intro a d
  have hseparate : a.Separate (withPrefix nestedConstants "API_PREFIX".toList "api".toList) :=
    ⟨by decide, by
      have hvalues : a.namedValues (withPrefix nestedConstants "API_PREFIX".toList "api".toList)
          = ["$\x7bB\x7d/x".toList] := by decide
      rw [hvalues]
      exact List.forall_mem_singleton.2 ⟨by decide, by decide⟩⟩
  have hiff := (settled_argument_iff (d := d) (a := a) rfl (.inl rfl) "API_PREFIX".toList "api".toList
    nestedConstants fun _ => hseparate).1
  exact ⟨fun h => absurd (hiff.1 h) (by decide), by decide⟩

/-! ## Paths -/

namespace TypeScript

/-- An expression for a path, as the source writes it: a literal with its quotes, or the name of a
constant. -/
inductive PathExpr where
  | string (raw : Text)
  | template (raw : Text)
  | name (source : Text)
  | member (source : Text)

namespace PathExpr

def node : PathExpr → ArgumentNode
  | string raw => ⟨raw, .string raw⟩
  | template raw => ⟨raw, .template raw⟩
  | name source => ⟨source, .plain .identifier⟩
  | member source => ⟨source, .plain .member⟩

/-- It makes no difference to the path whether it is filled like a template, and whether it is a
reference. -/
def Indifferent (known : Constants) : PathExpr → Prop
  | string raw => Template.fillConstants known (unquote raw) = unquote raw
  | template _ => True
  | name source | member source => (known.get? (lastName source)).getD [] = []

end PathExpr

/-- The members of an object literal by their keys without quotes. -/
def unquotedMembers (pairs : List (Text × Expr)) : List (Text × Expr) :=
  pairs.map fun (key, value) => (unquote key, value)

theorem property_read {o : ArgumentNode} {pairs : List (Text × Expr)} (ho : o.expr = .object pairs)
    {key : Text} {e : Expr} (h : (unquotedMembers pairs).lookup key = some e) :
    o.read.property key = e.literal? := by
  have hlookup : ∀ members : List (Text × Expr),
      (members.map fun (key, value) => (key, value.literal?)).lookup key
        = (members.lookup key).map Expr.literal? := by
    intro members
    induction members with
    | nil => rfl
    | cons member more ih =>
      obtain ⟨name, value⟩ := member
      by_cases hname : (key == name) = true
      · simp [List.lookup_cons, hname]
      · simp [List.lookup_cons, hname, ih]
  have hproperties : o.read.properties
      = (unquotedMembers pairs).map fun (key, value) => (key, value.literal?) := by
    simp [ArgumentNode.read, ho, unquotedMembers]
  rw [Argument.property, hproperties, hlookup, h]
  rfl

/-- The route that the path of an object gives: always a template, and nothing where it is a name. -/
theorem routeArgument_object {d : Decorator} {o : ArgumentNode} {pairs : List (Text × Expr)} {e : Expr}
    (hd : d.arguments.head? = some o.read) (ho : o.expr = .object pairs)
    (hpath : (unquotedMembers pairs).lookup "path".toList = some e) (apiPrefix prefixConstant : Text)
    (cs : Constants) : routeArgument (some d) apiPrefix prefixConstant cs
      = Template.fillConstants (withPrefix cs prefixConstant apiPrefix) (e.literal?.getD []) := by
  have hkind : o.read.kind = .object := by simp [ArgumentNode.read, ho]
  simp only [routeArgument, Option.bind_some, hd, hkind, property_read ho hpath]
  rfl

/-- The route that the path itself gives. -/
theorem routeArgument_node {d : Decorator} {e : PathExpr} (hd : d.arguments.head? = some e.node.read)
    (apiPrefix prefixConstant : Text) (cs : Constants) :
    routeArgument (some d) apiPrefix prefixConstant cs = match e with
      | .string raw => unquote raw
      | .template raw => Template.fillConstants (withPrefix cs prefixConstant apiPrefix) (unquote raw)
      | .name source | .member source =>
        ((withPrefix cs prefixConstant apiPrefix).get? (lastName source)).getD [] := by
  simp only [routeArgument, Option.bind_some, hd]
  cases e <;> rfl

/-- A path gives the same route as a property of an object and on its own if it is a template literal, if
it is a string that filling leaves as it is, such as one that names no known constant, or if it is a
reference to a constant without text or to none. In no other case it does. -/
theorem routeArgument_object_iff {d d' : Decorator} {o : ArgumentNode} {pairs : List (Text × Expr)}
    {e : PathExpr} (hd : d.arguments.head? = some o.read) (ho : o.expr = .object pairs)
    (hpath : (unquotedMembers pairs).lookup "path".toList = some e.node.expr)
    (hd' : d'.arguments.head? = some e.node.read) (apiPrefix prefixConstant : Text) (cs : Constants) :
    (routeArgument (some d) apiPrefix prefixConstant cs = routeArgument (some d') apiPrefix prefixConstant cs
      ↔ e.Indifferent (withPrefix cs prefixConstant apiPrefix)) ∧
    ∀ raw, e = .string raw →
      Template.Settled (withPrefix cs prefixConstant apiPrefix) (unquote raw) →
      routeArgument (some d) apiPrefix prefixConstant cs
        = routeArgument (some d') apiPrefix prefixConstant cs := by
  have hiff : routeArgument (some d) apiPrefix prefixConstant cs
      = routeArgument (some d') apiPrefix prefixConstant cs
      ↔ e.Indifferent (withPrefix cs prefixConstant apiPrefix) := by
    rw [routeArgument_object hd ho hpath, routeArgument_node hd']
    cases e with
    | string raw => exact Iff.rfl
    | template raw => exact iff_of_true rfl trivial
    | name source => exact eq_comm
    | member source => exact eq_comm
  refine ⟨hiff, fun raw heq hsettled => hiff.2 ?_⟩
  subst heq
  exact hsettled.fillConstants_eq

/-- `@Controller({ path: ROUTE })` has no path where `@Controller(ROUTE)` has one. -/
theorem routeArgument_object_reference :
    let o : ArgumentNode :=
      ⟨"{ path: ROUTE }".toList, .object [("path".toList, .plain .identifier)]⟩
    let cs : Constants := [("ROUTE".toList, "teams".toList)]
    let d : Decorator := ⟨"Controller".toList, [o.read]⟩
    let d' : Decorator := ⟨"Controller".toList, [(PathExpr.name "ROUTE".toList).node.read]⟩
    routeArgument (some d) [] "API_PREFIX".toList cs ≠ routeArgument (some d') [] "API_PREFIX".toList cs := by
  intro o cs d d' heq
  have hobject : d.arguments.head? = some o.read := rfl
  have halone : d'.arguments.head? = some (PathExpr.name "ROUTE".toList).node.read := rfl
  have hiff := (routeArgument_object_iff hobject rfl rfl halone [] "API_PREFIX".toList cs).1
  have hempty : ((withPrefix cs "API_PREFIX".toList []).get? (lastName "ROUTE".toList)).getD [] = [] :=
    hiff.1 heq
  exact absurd hempty (by decide)

end TypeScript

end NestClient
