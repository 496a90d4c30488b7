import NestClient.Proofs.Client.MethodCode
import NestClient.Proofs.Client.Url
import NestClient.Proofs.Extract.Parameters

/-! Which declarations the identifiers of a client method refer to. The parameters of the method and the
names that its body declares share one scope; so a parameter named as one of these, or as a name that
the body takes from outside, is mistaken for it.

* `WellScoped`: nothing is declared twice in one scope, and every use refers to what it is meant for.
* `wellScoped_iff`: the names of parameters for which this holds.
* `wellScoped_extract`: the same for the endpoints of a controller. -/

namespace NestClient.Client

/-! ## Scopes -/

/-- The names that a scope declares, the innermost ones first. -/
abbrev Scope := List (Text × Origin)

/-- What a use of the name refers to. -/
def Scope.origin (scope : Scope) (name : Text) : Origin := (scope.lookup name).getD .outer

def Fragment.declared? : Fragment → Option (Text × Origin)
  | declare name origin => some (name, origin)
  | _ => none

def declaredIn (code : List Fragment) : Scope := code.filterMap Fragment.declared?

def Statement.declared : Statement → Scope
  | line code => declaredIn code
  | function head _ _ _ _ => declaredIn head

/-- The scope that the parameters of a method share with the names declared in its body. -/
def methodScope (code : List Statement) : Scope := code.flatMap Statement.declared

/-- An identifier that is used refers to the declaration that it is meant for. -/
def Fragment.Resolves (scope : Scope) : Fragment → Prop
  | use name origin => scope.origin name = origin
  | _ => True

def Resolves (scope : Scope) (code : List Fragment) : Prop := ∀ f ∈ code, f.Resolves scope

def Statement.Resolves (scope : Scope) : Statement → Prop
  | line code => Client.Resolves scope code
  | function head names _ inner _ => Client.Resolves scope head ∧ names.Nodup ∧
    ∀ code ∈ inner, Client.Resolves (names.map (·, .entry) ++ scope) code

/-- Nothing is declared twice in one scope, and every identifier refers to the declaration that it is
meant for. -/
structure WellScoped (code : List Statement) : Prop where
  nodup : ((methodScope code).map (·.1)).Nodup
  resolves : ∀ s ∈ code, s.Resolves (methodScope code)

variable {scope : Scope}

theorem origin_map_append (names : List Text) (o : Origin) (scope : Scope) (n : Text) :
    Scope.origin (names.map (·, o) ++ scope) n = if n ∈ names then o else scope.origin n := by
  induction names with
  | nil => rfl
  | cons name names ih =>
    rw [List.map_cons, List.cons_append, Scope.origin, List.lookup_cons]
    by_cases hn : n = name
    · simp [hn]
    · have hne : (n == name) = false := by simpa using hn
      rw [hne]
      change Scope.origin (names.map (·, o) ++ scope) n = _
      rw [ih]
      simp [hn]

@[simp] theorem resolves_nil : Resolves scope [] ↔ True := by simp [Resolves]

@[simp] theorem resolves_cons {f : Fragment} {code : List Fragment} :
    Resolves scope (f :: code) ↔ f.Resolves scope ∧ Resolves scope code := List.forall_mem_cons

@[simp] theorem resolves_append {code more : List Fragment} :
    Resolves scope (code ++ more) ↔ Resolves scope code ∧ Resolves scope more :=
  List.forall_mem_append

@[simp] theorem resolves_plain {t : Text} : (Fragment.plain t).Resolves scope ↔ True := Iff.rfl

@[simp] theorem resolves_declare {name : Text} {o : Origin} :
    (Fragment.declare name o).Resolves scope ↔ True := Iff.rfl

@[simp] theorem resolves_use {name : Text} {o : Origin} :
    (Fragment.use name o).Resolves scope ↔ scope.origin name = o := Iff.rfl

@[simp] theorem resolves_line {code : List Fragment} :
    (Statement.line code).Resolves scope ↔ Client.Resolves scope code := Iff.rfl

@[simp] theorem declared_line (code : List Fragment) :
    (Statement.line code).declared = declaredIn code := rfl

@[simp] theorem declaredIn_nil : declaredIn [] = [] := rfl

@[simp] theorem declaredIn_plain (t : Text) (code : List Fragment) :
    declaredIn (.plain t :: code) = declaredIn code := rfl

@[simp] theorem declaredIn_declare (name : Text) (o : Origin) (code : List Fragment) :
    declaredIn (.declare name o :: code) = (name, o) :: declaredIn code := rfl

@[simp] theorem declaredIn_use (name : Text) (o : Origin) (code : List Fragment) :
    declaredIn (.use name o :: code) = declaredIn code := rfl

@[simp] theorem declaredIn_append (code more : List Fragment) :
    declaredIn (code ++ more) = declaredIn code ++ declaredIn more := List.filterMap_append

theorem resolves_joinCode (sep : Text) (parts : List (List Fragment)) :
    Resolves scope (joinCode sep parts) ↔ ∀ part ∈ parts, Resolves scope part := by
  induction parts with
  | nil => simp [joinCode, List.intercalate]
  | cons first more ih =>
    cases more with
    | nil => simp [joinCode_singleton]
    | cons second more => rw [joinCode_cons_cons, resolves_append, resolves_cons, ih]; simp

theorem declaredIn_joinCode (sep : Text) (parts : List (List Fragment)) :
    declaredIn (joinCode sep parts) = parts.flatMap declaredIn := by
  induction parts with
  | nil => rfl
  | cons first more ih =>
    cases more with
    | nil => simp [joinCode_singleton]
    | cons second more =>
      rw [joinCode_cons_cons, declaredIn_append, declaredIn_plain, ih]
      rfl

/-! ## The parts of a method -/

theorem declaredIn_parameterCode (ps : List Parameter) :
    (parameterCode ps).flatMap declaredIn = ps.map fun p => (p.name, .parameter) := by
  induction ps with
  | nil => rfl
  | cons p later ih => simp [parameterCode, ih]

theorem resolves_parameterCode (ps : List Parameter) :
    ∀ part ∈ parameterCode ps, Resolves scope part := by
  induction ps with
  | nil => simp [parameterCode]
  | cons p later ih => simpa [parameterCode] using ih

theorem mem_interpolateCodeUpTo {table : List (Text × Text)} {bound : Nat} {atStart : Bool} {t : Text}
    {f : Fragment} (h : f ∈ interpolateCodeUpTo table bound atStart t) :
    (∃ t, f = .plain t) ∨ ∃ key name, (key, name) ∈ table ∧ f = .use name .parameter := by
  induction bound generalizing atStart t with
  | zero => exact .inl ⟨t, by simpa [interpolateCodeUpTo] using h⟩
  | succ bound ih =>
    cases t with
    | nil => simp [interpolateCodeUpTo] at h
    | cons c rest =>
      rw [interpolateCodeUpTo] at h
      split at h
      next key name after hfound =>
        have hmem : (key, name) ∈ table := by
          split at hfound
          · exact (placeholder?_eq_some hfound).1
          · simp at hfound
        simp only [List.mem_append, List.mem_cons, List.not_mem_nil, or_false] at h
        rcases h with (rfl | rfl | rfl) | h
        · exact .inl ⟨_, rfl⟩
        · exact .inr ⟨key, name, hmem, rfl⟩
        · exact .inl ⟨_, rfl⟩
        · exact ih h
      next =>
        rcases List.mem_cons.1 h with rfl | h
        · exact .inl ⟨_, rfl⟩
        · exact ih h

theorem mem_urlCode {e : Endpoint} {f : Fragment} (h : f ∈ urlCode e) :
    (∃ t, f = .plain t) ∨ ∃ p ∈ e.withRole .path, f = .use p.name .parameter := by
  have hpath : ∀ f ∈ pathCode e,
      (∃ t, f = .plain t) ∨ ∃ p ∈ e.withRole .path, f = .use p.name .parameter := by
    intro f hf
    rcases mem_interpolateCodeUpTo hf with hplain | ⟨key, name, hmem, rfl⟩
    · exact .inl hplain
    · obtain ⟨-, p, hlast, rfl⟩ := mem_pathNames.1 (Text.mem_sortBy.1 hmem)
      exact .inr ⟨p, (mem_of_lastKeyed? hlast).1, rfl⟩
  simp only [urlCode, List.mem_cons, List.mem_append, List.not_mem_nil, or_false] at h
  rcases h with rfl | h | rfl
  · exact .inl ⟨_, rfl⟩
  · split at h
    · simp at h
    · rcases List.mem_cons.1 h with rfl | h
      · exact .inl ⟨_, rfl⟩
      · exact hpath f h
  · exact .inl ⟨_, rfl⟩

theorem declaredIn_urlCode (e : Endpoint) : declaredIn (urlCode e) = [] := by
  rw [declaredIn, List.filterMap_eq_nil_iff]
  intro f hf
  rcases mem_urlCode hf with ⟨t, rfl⟩ | ⟨p, -, rfl⟩ <;> rfl

theorem resolves_presenceCode {indent name : Text} {o : Origin} :
    Resolves scope (presenceCode indent name o) ↔
      scope.origin name = o ∧ scope.origin "undefined".toList = .outer := by
  simp only [presenceCode, resolves_cons, resolves_nil, resolves_plain, resolves_use, true_and, and_true]
  exact ⟨fun h => ⟨h.1, h.2.1⟩, fun h => ⟨h.1, h.2, h.1⟩⟩

theorem resolves_setCode {indent value : Text} {key : Fragment} {o : Origin} :
    Resolves scope (setCode indent key value o) ↔ scope.origin "params".toList = .body ∧
      key.Resolves scope ∧ scope.origin "String".toList = .outer ∧ scope.origin value = o := by
  simp only [setCode, resolves_cons, resolves_nil, resolves_plain, resolves_use, true_and, and_true]
  exact ⟨And.right, fun h => ⟨h.1, h⟩⟩

/-- A query parameter without a key is spread: its entries are set one by one. -/
def isSpread (key : Option Text) : Bool := (key.getD []).isEmpty

/-- A query parameter is used in its condition and for its value. One that is spread is gone over by its
entries, whose names are used inside of that function only. -/
theorem resolves_queryCode (q : QueryEntry) : (∀ s ∈ queryCode q, s.Resolves scope) ↔
    scope.origin q.name = .parameter ∧ scope.origin "undefined".toList = .outer ∧
      scope.origin "params".toList = .body ∧ scope.origin "String".toList = .outer ∧
      (isSpread q.key = true → scope.origin "Object".toList = .outer) := by
  have hinner := origin_map_append entryNames .entry scope
  have hentries : "key".toList ∈ entryNames ∧ "value".toList ∈ entryNames := by decide
  have hothers : "undefined".toList ∉ entryNames ∧ "params".toList ∉ entryNames ∧
      "String".toList ∉ entryNames := by decide
  have hnodup : entryNames.Nodup := by decide
  unfold queryCode
  rcases hkey : q.key with _ | _ | ⟨c, key⟩ <;>
    simp only [List.cons_append, List.nil_append, List.forall_mem_cons, List.not_mem_nil,
      false_implies, implies_true, and_true, true_and, Statement.Resolves, resolves_presenceCode,
      resolves_setCode, resolves_cons, resolves_nil, resolves_plain, resolves_use, hinner, hentries,
      hothers, hnodup, if_true, if_false] <;>
    grind [isSpread]

theorem resolves_bodyCode {p : Parameter} :
    Resolves scope (bodyCode p) ↔ scope.origin p.name = .parameter := by
  unfold bodyCode
  cases p.key <;> simp

theorem resolves_optionsCode {e : Endpoint} : (∀ part ∈ optionsCode e, Resolves scope part) ↔
    (e.verb.takesBody = false → ∀ p ∈ e.bodyParameter, scope.origin p.name = .parameter) ∧
      (e.withRole .query ≠ [] → scope.origin "params".toList = .body) := by
  unfold optionsCode
  cases e.verb.takesBody <;> rcases e.bodyParameter with _ | p <;> rcases e.withRole .query with _ | _ <;>
    simp [resolves_bodyCode, -String.reduceToList, and_comm]

/-- The call uses the URL, the body and, where there is a query, the collection made of it. -/
theorem resolves_argumentsCode {e : Endpoint} :
    Resolves scope (joinCode ", ".toList (argumentsCode e)) ↔ scope.origin "url".toList = .body ∧
      (∀ p ∈ e.bodyParameter, scope.origin p.name = .parameter) ∧
      (e.withRole .query ≠ [] → scope.origin "params".toList = .body) := by
  have hoptions : (∀ part ∈ (if (optionsCode e).isEmpty then []
        else [.plain "\x7b ".toList :: (joinCode ", ".toList (optionsCode e) ++ [.plain " \x7d".toList])]),
      Resolves scope part) ↔ ∀ part ∈ optionsCode e, Resolves scope part := by
    cases optionsCode e with
    | nil => exact Iff.rfl
    | cons first more =>
      rw [List.isEmpty_cons, if_neg Bool.false_ne_true, List.forall_mem_singleton, resolves_cons,
        resolves_append, resolves_joinCode]
      simp [-String.reduceToList]
  have hbody : (∀ part ∈ (if e.verb.takesBody then [bodyArgument e.bodyParameter] else []),
      Resolves scope part) ↔
      (e.verb.takesBody = true → ∀ p ∈ e.bodyParameter, scope.origin p.name = .parameter) := by
    cases e.verb.takesBody <;> rcases e.bodyParameter with _ | p <;>
      simp [bodyArgument, resolves_bodyCode, -String.reduceToList]
  rw [resolves_joinCode]
  unfold argumentsCode
  dsimp only
  rw [List.forall_mem_cons, List.forall_mem_append, hoptions, hbody, resolves_optionsCode]
  cases e.verb.takesBody <;> simp [-String.reduceToList]

/-! ## The whole method -/

/-- The names of the parameters of an endpoint's method. -/
def parameterNames (e : Endpoint) : List Text := e.clientParameters.map (·.name)

/-- The names that the body of the method declares. -/
def bodyNames (e : Endpoint) : List Text :=
  "url".toList :: if (e.withRole .query).isEmpty then [] else ["params".toList]

/-- The names that the body takes from outside of the method. -/
def outerNames (e : Endpoint) : List Text :=
  if (e.withRole .query).isEmpty then []
  else ["HttpParams".toList, "undefined".toList, "String".toList]
    ++ if (e.withRole .query).any (fun p => isSpread p.key) then ["Object".toList] else []

theorem declared_queryCode (q : QueryEntry) : (queryCode q).flatMap Statement.declared = [] := by
  unfold queryCode
  rcases q.key with _ | _ | ⟨c, key⟩ <;> rfl

theorem declaredIn_argumentsCode (e : Endpoint) :
    declaredIn (joinCode ", ".toList (argumentsCode e)) = [] := by
  have hbody : ∀ p, declaredIn (bodyCode p) = [] := by
    intro p
    unfold bodyCode
    cases p.key <;> rfl
  unfold argumentsCode optionsCode
  cases e.verb.takesBody <;> rcases e.bodyParameter with _ | p <;> rcases e.withRole .query with _ | _ <;>
    simp [declaredIn_joinCode, bodyArgument, hbody, -String.reduceToList]

theorem methodScope_methodCode (e : Endpoint) : methodScope (methodCode e)
    = (parameterNames e).map (·, Origin.parameter) ++ ((bodyNames e).map (·, Origin.body) ++ []) := by
  have hquery : ∀ query : List QueryEntry, (query.flatMap queryCode).flatMap Statement.declared = [] := by
    intro query
    rw [List.flatMap_assoc, List.flatMap_eq_nil_iff]
    exact fun q _ => declared_queryCode q
  have hsignature : declaredIn (joinCode ", ".toList (parameterCode e.clientParameters))
      = e.clientParameters.map fun p => (p.name, .parameter) := by
    rw [declaredIn_joinCode, declaredIn_parameterCode]
  unfold methodScope methodCode bodyNames parameterNames
  dsimp only
  rw [List.isEmpty_map, List.map_map]
  split <;>
    simp only [List.flatMap_append, List.flatMap_cons, List.flatMap_nil, declared_line, declaredIn_nil,
      declaredIn_plain, declaredIn_declare, declaredIn_use, declaredIn_append, hsignature, hquery,
      declaredIn_urlCode, declaredIn_argumentsCode, List.append_nil, List.append_assoc] <;> rfl

theorem origin_methodScope (e : Endpoint) (n : Text) : (methodScope (methodCode e)).origin n
    = if n ∈ parameterNames e then .parameter else if n ∈ bodyNames e then .body else .outer := by
  rw [methodScope_methodCode, origin_map_append, origin_map_append]
  rfl

theorem resolves_methodCode (e : Endpoint) : (∀ s ∈ methodCode e, s.Resolves scope) ↔
    Resolves scope (urlCode e) ∧ Resolves scope (joinCode ", ".toList (argumentsCode e)) ∧
      (e.withRole .query ≠ [] → scope.origin "HttpParams".toList = .outer ∧
        ∀ p ∈ e.withRole .query, ∀ s ∈ queryCode ⟨p.name, p.key⟩, s.Resolves scope) := by
  have hsignature : Resolves scope (joinCode ", ".toList (parameterCode e.clientParameters)) :=
    (resolves_joinCode ", ".toList _).2 (resolves_parameterCode e.clientParameters)
  have hquery : (∀ s ∈ (e.withRole .query).flatMap (fun p => queryCode ⟨p.name, p.key⟩), s.Resolves scope)
      ↔ ∀ p ∈ e.withRole .query, ∀ s ∈ queryCode ⟨p.name, p.key⟩, s.Resolves scope := by
    simp only [List.mem_flatMap, forall_exists_index, and_imp]
    exact ⟨fun h p hp s hs => h s p hp hs, fun h s p hp hs => h p hp s hs⟩
  unfold methodCode
  dsimp only
  rw [List.isEmpty_map, List.flatMap_map]
  split
  next hempty =>
    rw [List.isEmpty_iff] at hempty
    simp only [List.append_nil, List.forall_mem_append, List.forall_mem_cons, List.not_mem_nil,
      false_implies, implies_true, and_true, true_and, resolves_line, resolves_cons, resolves_nil,
      resolves_append, resolves_plain, resolves_declare, hsignature, hempty, ne_eq, not_true_eq_false]
  next hsome =>
    rw [List.isEmpty_iff] at hsome
    simp only [List.forall_mem_append, List.forall_mem_cons, List.not_mem_nil, List.cons_append,
      false_implies, implies_true, and_true, true_and, resolves_line, resolves_cons, resolves_nil,
      resolves_append, resolves_plain, resolves_declare, resolves_use, hsignature, hsome, hquery, ne_eq,
      not_false_eq_true, forall_const]
    exact and_congr_right fun _ => and_comm

/-! ## Hygiene -/

theorem mem_parameterNames {e : Endpoint} {p : Parameter} {role : Role} (h : p ∈ e.withRole role)
    (hrole : role ≠ .ignored) : p.name ∈ parameterNames e := by
  rw [Endpoint.mem_withRole] at h
  exact List.mem_map_of_mem (List.mem_filter.2 ⟨h.1, by simpa [h.2] using hrole⟩)

theorem mem_bodyNames {e : Endpoint} {n : Text} (h : n ∈ bodyNames e) :
    n = "url".toList ∨ n = "params".toList := by
  unfold bodyNames at h
  split at h <;> simp only [List.mem_cons, List.not_mem_nil, or_false] at h
  · exact .inl h
  · exact h

theorem url_mem_bodyNames (e : Endpoint) : "url".toList ∈ bodyNames e := List.mem_cons_self

theorem params_mem_bodyNames {e : Endpoint} (h : e.withRole .query ≠ []) :
    "params".toList ∈ bodyNames e := by
  rw [bodyNames, if_neg (by simpa using h)]
  simp

theorem origin_of_mem_outerNames {e : Endpoint} (h : ∀ s ∈ methodCode e, s.Resolves scope) {n : Text}
    (hn : n ∈ outerNames e) : scope.origin n = .outer := by
  obtain ⟨-, -, hquery⟩ := (resolves_methodCode e).1 h
  unfold outerNames at hn
  split at hn
  · simp at hn
  next hsome =>
  rw [List.isEmpty_iff] at hsome
  obtain ⟨hcollection, hentries⟩ := hquery hsome
  have huse := fun p hp => (resolves_queryCode _).1 (hentries p hp)
  obtain ⟨first, hfirst⟩ := List.exists_mem_of_ne_nil _ hsome
  obtain ⟨-, hundefined, -, hstring, -⟩ := huse first hfirst
  rcases List.mem_append.1 hn with hn | hn
  · simp only [List.mem_cons, List.not_mem_nil, or_false] at hn
    rcases hn with rfl | rfl | rfl
    · exact hcollection
    · exact hundefined
    · exact hstring
  · split at hn
    next hspread =>
      obtain ⟨p, hp, hkey⟩ := List.any_eq_true.1 hspread
      rw [List.mem_singleton] at hn
      rw [hn]
      exact (huse p hp).2.2.2.2 hkey
    next => simp at hn

theorem object_mem_outerNames {e : Endpoint} {p : Parameter} (hp : p ∈ e.withRole .query)
    (hkey : isSpread p.key = true) : "Object".toList ∈ outerNames e := by
  rw [outerNames, if_neg (by simpa using List.ne_nil_of_mem hp),
    if_pos (List.any_eq_true.2 ⟨p, hp, hkey⟩)]
  simp

/-- Parameters that share no name with the body, nor with what it takes from outside, leave every use its
meaning. -/
theorem resolves_of_free {e : Endpoint}
    (hfree : ∀ n ∈ bodyNames e ++ outerNames e, n ∉ parameterNames e) :
    ∀ s ∈ methodCode e, s.Resolves (methodScope (methodCode e)) := by
  have hparameter : ∀ (role : Role) {p : Parameter}, role ≠ .ignored → p ∈ e.withRole role →
      (methodScope (methodCode e)).origin p.name = .parameter := by
    intro role p hrole hp
    rw [origin_methodScope, if_pos (mem_parameterNames hp hrole)]
  have hdeclared : ∀ n ∈ bodyNames e, (methodScope (methodCode e)).origin n = .body := by
    intro n hn
    rw [origin_methodScope, if_neg (hfree n (List.mem_append_left _ hn)), if_pos hn]
  have houter : ∀ n ∈ outerNames e, n ≠ "url".toList → n ≠ "params".toList →
      (methodScope (methodCode e)).origin n = .outer := by
    intro n hn hurl hparams
    have hnot : n ∉ bodyNames e := fun hmem => (mem_bodyNames hmem).elim hurl hparams
    rw [origin_methodScope, if_neg (hfree n (List.mem_append_right _ hn)), if_neg hnot]
  refine (resolves_methodCode e).2 ⟨?_, ?_, ?_⟩
  · intro f hf
    rcases mem_urlCode hf with ⟨t, rfl⟩ | ⟨p, hp, rfl⟩
    · trivial
    · exact hparameter _ (by decide) hp
  · refine resolves_argumentsCode.2 ⟨hdeclared _ (url_mem_bodyNames e), fun p hp => ?_, fun hsome => ?_⟩
    · exact hparameter .body (by decide) (List.mem_of_mem_head? hp)
    · exact hdeclared _ (params_mem_bodyNames hsome)
  · intro hsome
    have hmem : ∀ n ∈ ["HttpParams".toList, "undefined".toList, "String".toList], n ∈ outerNames e := by
      intro n hn
      rw [outerNames, if_neg (by simpa using hsome)]
      exact List.mem_append_left _ hn
    refine ⟨houter _ (hmem _ (by simp)) (by decide) (by decide), fun p hp => ?_⟩
    refine (resolves_queryCode _).2 ⟨hparameter _ (by decide) hp, ?_, ?_, ?_, fun hkey => ?_⟩
    · exact houter _ (hmem _ (by simp)) (by decide) (by decide)
    · exact hdeclared _ (params_mem_bodyNames hsome)
    · exact houter _ (hmem _ (by simp)) (by decide) (by decide)
    · exact houter _ (object_mem_outerNames hp hkey) (by decide) (by decide)

/-- The code of an endpoint's method is well-scoped exactly if its parameters have names of their own:
different ones, none that the body declares and none that it takes from outside. -/
theorem wellScoped_iff (e : Endpoint) : WellScoped (methodCode e) ↔
    (parameterNames e).Nodup ∧ ∀ n ∈ bodyNames e ++ outerNames e, n ∉ parameterNames e := by
  have hscope : (methodScope (methodCode e)).map (·.1) = parameterNames e ++ bodyNames e := by
    rw [methodScope_methodCode]
    simp [Function.comp_def]
  constructor
  · rintro ⟨hnodup, hresolves⟩
    rw [hscope, List.nodup_append] at hnodup
    obtain ⟨hnames, -, hdisjoint⟩ := hnodup
    refine ⟨hnames, fun n hn hparameter => ?_⟩
    rcases List.mem_append.1 hn with hn | hn
    · exact hdisjoint n hparameter n hn rfl
    · have horigin := origin_of_mem_outerNames hresolves hn
      rw [origin_methodScope, if_pos hparameter] at horigin
      exact absurd horigin (by decide)
  · rintro ⟨hnames, hfree⟩
    refine ⟨?_, resolves_of_free hfree⟩
    rw [hscope, List.nodup_append]
    refine ⟨hnames, ?_, fun n hn m hm hnm => hfree m (List.mem_append_left _ hm) (hnm ▸ hn)⟩
    unfold bodyNames
    split <;> decide

/-- The method that is printed for an endpoint of a controller declares `url`, and `params` if there is a
query, next to the parameters that are not ignored. It is well-scoped exactly if these have names of
their own; nothing keeps a controller from using the others. -/
theorem wellScoped_extract {x : Extractor} {c : Controller} {e : Endpoint} (he : e ∈ x.extract c) :
    ∃ m ∈ c.declaration.methods, ∃ d verb, m.verb? = some (d, verb) ∧ e = x.endpoint c m d verb ∧
      let names := ((x.boundParameters c m verb).filter (·.role ≠ .ignored)).map (·.declaration.name)
      (methodCode e).flatMap Statement.lines = codeLines (Method.ofEndpoint e) ∧
      methodScope (methodCode e) = names.map (·, Origin.parameter) ++ (bodyNames e).map (·, Origin.body) ∧
      (WellScoped (methodCode e) ↔ names.Nodup ∧ ∀ n ∈ bodyNames e ++ outerNames e, n ∉ names) := by
  obtain ⟨m, hm, d, verb, hverb, rfl⟩ := (x.mem_extract c).1 he
  have hnames := x.names_endpoint c m d verb
  refine ⟨m, hm, d, verb, hverb, rfl, lines_methodCode _, ?_, ?_⟩
  · rw [methodScope_methodCode, List.append_nil, parameterNames, hnames]
  · rw [wellScoped_iff, parameterNames, hnames]

/-- `@Get(':url') one(@Param('url') url: string)` declares `url` twice. -/
theorem wellScoped_extract_url :
    let p : ParameterDecl := {
      name := "url".toList
      decorators := [{ name := "Param".toList, arguments := [{ kind := .string, value := some "url".toList }] }]
      type := "string".toList }
    let d : Decorator := { name := "Get".toList, arguments := [{ kind := .string, value := some ":url".toList }] }
    let m : MethodDecl := { name := "one".toList, decorators := [d], parameters := [p] }
    let c : Controller := {
      group := { name := "AController".toList, basePath := "a".toList, sourceFile := "a.ts".toList }
      declaration := { name := "AController".toList, methods := [m] }
      source := { path := "a.ts".toList } }
    let x : Extractor := { config := {}, apiPrefix := [] }
    x.endpoint c m d .get ∈ x.extract c ∧ ¬WellScoped (methodCode (x.endpoint c m d .get)) := by
  intro p d m c x
  have he : x.endpoint c m d .get ∈ x.extract c :=
    (x.mem_extract c).2 ⟨m, by simp [c], d, .get, by decide, rfl⟩
  refine ⟨he, fun hscoped => ?_⟩
  obtain ⟨m', hm', d', verb, hverb, -, -, -, hiff⟩ := wellScoped_extract he
  obtain rfl : m' = m := by simpa [c] using hm'
  have hget : m.verb? = some (d, .get) := by decide
  obtain ⟨rfl, rfl⟩ : d' = d ∧ verb = .get := by simpa using hverb.symm.trans hget
  exact (hiff.1 hscoped).2 "url".toList (List.mem_append_left _ (url_mem_bodyNames _)) (by decide)

end NestClient.Client
