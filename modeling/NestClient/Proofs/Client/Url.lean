import Mathlib.Data.List.Induction
import Mathlib.Tactic.SplitIfs
import NestClient.Client.Url
import NestClient.Proofs.Text.Sort
import NestClient.Proofs.TypeScript.TemplateLiteral

/-! The URL of a request says what the route says. Read as a template literal, it is the base URL and
then the route, with the name of a path parameter in the place of each placeholder that is a whole
segment.

* `mem_pathNames`: the table of keys holds the last parameter of each key.
* `Reads`: what one stretch of the template literal says of one stretch of the route, with a lemma for
  each step of the interpolation.
* `urlExpression_reads`: the whole literal. -/

namespace NestClient

open TypeScript (LiteralPart readParts? readTemplateLiteral? isIdentifier isDottedName)

/-! ## Parameters by key and by name -/

/-- The last of some parameters that is bound to a key. -/
def lastKeyed? (ps : List Parameter) (key : Text) : Option Parameter :=
  ps.reverse.find? (·.key = some key)

namespace Endpoint

/-- What a part of a URL is in the route: a hole is the placeholder of the path parameter it names. -/
def routeText (e : Endpoint) : LiteralPart → Text
  | .char c => [c]
  | .hole name =>
    match (e.parameters.filter (·.role = .path)).find? (·.name = name) with
    | some p => ':' :: p.key.getD []
    | none => []

end Endpoint

namespace Client

/-- A key that a route can hold as one segment, in which nothing has to be escaped. -/
structure PlainKey (key : Text) : Prop where
  ne_nil : key ≠ []
  slash : '/' ∉ key
  backslash : '\\' ∉ key
  backtick : '\x60' ∉ key
  hole : Text.occurs ['$', '{'] key = false

instance (key : Text) : Decidable (PlainKey key) :=
  decidable_of_iff (key ≠ [] ∧ '/' ∉ key ∧ '\\' ∉ key ∧ '\x60' ∉ key
      ∧ Text.occurs ['$', '{'] key = false)
    ⟨fun ⟨hn, hs, hb, ht, hh⟩ => ⟨hn, hs, hb, ht, hh⟩,
      fun h => ⟨h.ne_nil, h.slash, h.backslash, h.backtick, h.hole⟩⟩

/-- The end of a segment: the end of the route or a slash. -/
def EndsSegment (after : Text) : Prop := ∀ c, after.head? = some c → c = '/'

/-! ## The table of keys -/

theorem lastKeyed?_append (ps : List Parameter) (p : Parameter) (key : Text) :
    lastKeyed? (ps ++ [p]) key = if p.key = some key then some p else lastKeyed? ps key := by
  by_cases h : p.key = some key <;> simp [lastKeyed?, h]

theorem mem_enterKey {table : List (Text × Text)} {p : Parameter} {key name : Text}
    (hk : key ≠ []) :
    (key, name) ∈ enterKey table p ↔
      if p.key = some key then name = p.name else (key, name) ∈ table := by
  unfold enterKey
  split
  · next h => simp [h]
  · next h => simp [h, hk.symm]
  · next k hne hpk =>
    have hkey : p.key = some key ↔ k = key := by rw [hpk]; simp
    simp only [hkey]
    by_cases hin : table.any (fun entry => decide (entry.1 = k)) = true
    · rw [if_pos hin, List.mem_map]
      by_cases hkk : k = key
      · subst hkk
        rw [if_pos rfl]
        obtain ⟨entry, he, hek⟩ := List.any_eq_true.1 hin
        rw [decide_eq_true_eq] at hek
        constructor
        · rintro ⟨entry', -, h⟩
          split_ifs at h with hc
          · simp only [Prod.mk.injEq, true_and] at h
            exact h.symm
          · rw [h] at hc
            exact absurd rfl hc
        · rintro rfl
          exact ⟨entry, he, by rw [if_pos hek]⟩
      · rw [if_neg hkk]
        constructor
        · rintro ⟨entry, he, h⟩
          split_ifs at h with hc
          · simp only [Prod.mk.injEq] at h
            exact absurd h.1 hkk
          · rwa [← h]
        · intro hm
          exact ⟨(key, name), hm, if_neg fun h => hkk h.symm⟩
    · rw [if_neg hin, List.mem_append, List.mem_singleton, Prod.mk.injEq]
      by_cases hkk : k = key
      · subst hkk
        rw [if_pos rfl]
        have hno : (k, name) ∉ table := fun hm =>
          hin (List.any_eq_true.2 ⟨(k, name), hm, by simp⟩)
        simp [hno]
      · have hkk' : key ≠ k := fun h => hkk h.symm
        simp [hkk, hkk']

theorem enterKey_keys_nodup {table : List (Text × Text)} (p : Parameter)
    (h : (table.map (·.1)).Nodup) : ((enterKey table p).map (·.1)).Nodup := by
  unfold enterKey
  split
  · exact h
  · exact h
  · next k _ _ =>
    by_cases hin : table.any (fun entry => decide (entry.1 = k)) = true
    · have hkeys : (table.map fun entry => if entry.1 = k then (k, p.name) else entry).map (·.1)
          = table.map (·.1) := by
        rw [List.map_map]
        apply List.map_congr_left
        intro entry _
        by_cases he : entry.1 = k <;> simp [he]
      rw [if_pos hin, hkeys]
      exact h
    · rw [if_neg hin, List.map_append, List.nodup_append]
      refine ⟨h, by simp, ?_⟩
      intro a ha b hb
      simp only [List.map_cons, List.map_nil, List.mem_singleton] at hb
      subst hb
      rintro rfl
      obtain ⟨entry, he, hek⟩ := List.mem_map.1 ha
      exact hin (List.any_eq_true.2 ⟨entry, he, by simp [hek]⟩)

theorem mem_foldl_enterKey (ps : List Parameter) {key name : Text} (hk : key ≠ []) :
    (key, name) ∈ ps.foldl enterKey [] ↔ ∃ p, lastKeyed? ps key = some p ∧ p.name = name := by
  induction ps using List.reverseRecOn with
  | nil => simp [lastKeyed?]
  | append_singleton ps p ih =>
    rw [List.foldl_append, List.foldl_cons, List.foldl_nil, mem_enterKey hk, lastKeyed?_append]
    by_cases hp : p.key = some key
    · simp [hp, eq_comm]
    · rw [if_neg hp, if_neg hp, ih]

theorem foldl_enterKey_keys_nodup (ps : List Parameter) :
    ((ps.foldl enterKey []).map (·.1)).Nodup := by
  induction ps using List.reverseRecOn with
  | nil => simp
  | append_singleton ps p ih =>
    rw [List.foldl_append, List.foldl_cons, List.foldl_nil]
    exact enterKey_keys_nodup p ih

theorem enterKey_ne_nil {table : List (Text × Text)} {p : Parameter}
    (h : ∀ entry ∈ table, entry.1 ≠ []) : ∀ entry ∈ enterKey table p, entry.1 ≠ [] := by
  intro entry hm
  unfold enterKey at hm
  split at hm
  · exact h entry hm
  · exact h entry hm
  · next k hne _ =>
    have hk : k ≠ [] := fun e => hne e
    split at hm
    · obtain ⟨old, ho, rfl⟩ := List.mem_map.1 hm
      split_ifs
      · exact hk
      · exact h old ho
    · rcases List.mem_append.1 hm with hm | hm
      · exact h entry hm
      · rw [List.mem_singleton.1 hm]
        exact hk

theorem mem_pathNames {e : Endpoint} {key name : Text} :
    (key, name) ∈ pathNames e ↔
      key ≠ [] ∧ ∃ p, lastKeyed? (e.withRole .path) key = some p ∧ p.name = name := by
  constructor
  · intro h
    have hk : key ≠ [] := by
      have hall : ∀ ps : List Parameter, ∀ entry ∈ ps.foldl enterKey [], entry.1 ≠ [] := by
        intro ps
        induction ps using List.reverseRecOn with
        | nil => simp
        | append_singleton ps p ih =>
          rw [List.foldl_append, List.foldl_cons, List.foldl_nil]
          exact enterKey_ne_nil ih
      exact hall _ _ h
    exact ⟨hk, (mem_foldl_enterKey _ hk).1 h⟩
  · rintro ⟨hk, h⟩
    exact (mem_foldl_enterKey _ hk).2 h

theorem mem_of_lastKeyed? {ps : List Parameter} {key : Text} {p : Parameter}
    (h : lastKeyed? ps key = some p) : p ∈ ps ∧ p.key = some key := by
  have hp := List.find?_some h
  have hm := List.mem_of_find?_eq_some h
  exact ⟨List.mem_reverse.1 hm, by simpa using hp⟩

/-! ## Placeholders -/

theorem placeholder?_eq_some {table : List (Text × Text)} {t key name after : Text}
    (h : placeholder? table t = some (key, name, after)) :
    (key, name) ∈ table ∧ t = ':' :: (key ++ after) := by
  unfold placeholder? at h
  split at h
  · next rest =>
    obtain ⟨⟨k, n⟩, hm, hf⟩ := List.exists_of_findSome?_eq_some h
    simp only at hf
    split at hf
    · next after' hl =>
      split_ifs at hf
      simp only [Option.some.injEq, Prod.mk.injEq] at hf
      obtain ⟨rfl, rfl, rfl⟩ := hf
      exact ⟨hm, by rw [Text.dropLead?_eq_some_iff.1 hl]⟩
    · simp at hf
  · simp at h

theorem endsPlaceholder_of_endsSegment {after : Text} (h : EndsSegment after) :
    endsPlaceholder after.head? = true := by
  cases after with
  | nil => rfl
  | cons c rest =>
    have hc : c = '/' := h c rfl
    subst hc
    rfl

/-- Of the keys that a segment begins with, its own key is the longest. -/
theorem eq_of_lead_of_length_le {key other after : Text} (ho : '/' ∉ other)
    (ha : EndsSegment after) (hl : key.length ≤ other.length) {rest : Text}
    (h : key ++ after = other ++ rest) : other = key := by
  obtain ⟨more, hmore⟩ : ∃ more, other = key ++ more :=
    (List.prefix_of_prefix_length_le (List.prefix_append key after)
      ⟨rest, h.symm⟩ hl).imp fun _ e => e.symm
  cases more with
  | nil => rw [hmore, List.append_nil]
  | cons c more =>
    have hafter : after = c :: more ++ rest := by
      rw [hmore, List.append_assoc] at h
      exact List.append_cancel_left h
    have hc : c = '/' := ha c (by rw [hafter]; rfl)
    exact absurd (by rw [hmore, hc]; simp) ho

theorem pairwise_longestFirst (table : List (Text × Text)) :
    (longestFirst table).Pairwise fun a b => b.1.length ≤ a.1.length := by
  have hsorted : (Text.sortBy (fun a b => decide (b.1.length ≤ a.1.length)) table).Pairwise
      fun a b => decide (b.1.length ≤ a.1.length) = true :=
    Text.pairwise_sortBy (fun a b c hab hbc => by simp only [decide_eq_true_eq] at *; omega)
      (fun a b => by simp only [Bool.or_eq_true, decide_eq_true_eq]; omega) table
  exact hsorted.imp of_decide_eq_true

theorem placeholder?_longestFirst {table : List (Text × Text)} {key name after : Text}
    (hnodup : (table.map (·.1)).Nodup) (hslash : ∀ entry ∈ table, '/' ∉ entry.1)
    (hmem : (key, name) ∈ table) (ha : EndsSegment after) :
    placeholder? (longestFirst table) (':' :: (key ++ after)) = some (key, name, after) := by
  have hsorted := pairwise_longestFirst table
  have hperm : (longestFirst table).Perm table := Text.sortBy_perm _
  obtain ⟨before, later, hsplit⟩ := List.append_of_mem (hperm.mem_iff.2 hmem)
  have hkeys : ((longestFirst table).map (·.1)).Nodup := (hperm.map _).nodup_iff.2 hnodup
  rw [placeholder?, hsplit]
  refine List.findSome?_eq_some_iff.2 ⟨before, (key, name), later, rfl, ?_, ?_⟩
  · have hl : Text.dropLead? key (key ++ after) = some after := Text.dropLead?_eq_some_iff.2 rfl
    simp [hl, endsPlaceholder_of_endsSegment ha]
  · intro entry he
    have hlen : key.length ≤ entry.1.length := by
      rw [hsplit, List.pairwise_append] at hsorted
      exact hsorted.2.2 entry he (key, name) (by simp)
    have hne : entry.1 ≠ key := by
      rw [hsplit, List.map_append, List.nodup_append] at hkeys
      exact hkeys.2.2 entry.1 (List.mem_map_of_mem he) key (by simp)
    have hs : '/' ∉ entry.1 := by
      apply hslash entry
      apply hperm.mem_iff.1
      rw [hsplit]
      exact List.mem_append_left _ he
    have hnone : Text.dropLead? entry.1 (key ++ after) = none := by
      rw [Option.eq_none_iff_forall_ne_some]
      intro rest hr
      exact hne (eq_of_lead_of_length_le hs ha hlen (Text.dropLead?_eq_some_iff.1 hr))
    simp [hnone]

/-! ## Escaping -/

theorem escapeTemplate_cons_self {c : Char} {rest : Text} (hb : c ≠ '\\') (ht : c ≠ '\x60')
    (hd : ¬(c = '$' ∧ rest.head? = some '{')) :
    escapeTemplate (c :: rest) = c :: escapeTemplate rest := by
  have hd' : (decide (c = '$') && decide (rest.head? = some '{')) = false := by
    rw [Bool.and_eq_false_iff, decide_eq_false_iff_not, decide_eq_false_iff_not]
    exact Classical.not_and_iff_not_or_not.1 hd
  rw [escapeTemplate]
  simp [hb, ht, hd']

theorem escapeTemplate_cons_escaped {c : Char} {rest : Text}
    (h : c = '\\' ∨ c = '\x60' ∨ (c = '$' ∧ rest.head? = some '{')) :
    escapeTemplate (c :: rest) = '\\' :: c :: escapeTemplate rest := by
  rw [escapeTemplate]
  rcases h with rfl | rfl | ⟨rfl, h⟩
  · rfl
  · rfl
  · simp [h]

/-- A stretch of escaped text without a backslash has not been escaped. -/
theorem eq_append_of_escapeTemplate {route plain after : Text} (hp : '\\' ∉ plain)
    (h : escapeTemplate route = plain ++ after) :
    ∃ rest, route = plain ++ rest ∧ after = escapeTemplate rest := by
  induction plain generalizing route with
  | nil => exact ⟨route, rfl, h.symm⟩
  | cons d plain ih =>
    have hd : d ≠ '\\' := fun e => hp (by simp [e])
    cases route with
    | nil => simp [escapeTemplate] at h
    | cons c rest =>
      by_cases hc : c = '\\' ∨ c = '\x60' ∨ (c = '$' ∧ rest.head? = some '{')
      · rw [escapeTemplate_cons_escaped hc, List.cons_append, List.cons.injEq] at h
        exact absurd h.1.symm hd
      · push Not at hc
        rw [escapeTemplate_cons_self hc.1 hc.2.1 (fun e => hc.2.2 e.1 e.2), List.cons_append,
          List.cons.injEq] at h
        obtain ⟨more, hmore, hafter⟩ := ih (fun hm => hp (List.mem_cons_of_mem d hm)) h.2
        exact ⟨more, by rw [hmore, h.1]; rfl, hafter⟩

theorem escapeTemplate_append_plain {key after : Text} (hb : '\\' ∉ key) (ht : '\x60' ∉ key)
    (hh : Text.occurs ['$', '{'] key = false) (ha : EndsSegment after) :
    escapeTemplate (key ++ after) = key ++ escapeTemplate after := by
  induction key with
  | nil => rfl
  | cons c key ih =>
    simp only [Text.occurs, Bool.or_eq_false_iff] at hh
    have hd : ¬(c = '$' ∧ (key ++ after).head? = some '{') := by
      rintro ⟨rfl, h⟩
      cases key with
      | nil =>
        have := ha '{' h
        simp at this
      | cons d key =>
        simp only [List.cons_append, List.head?_cons, Option.some.injEq] at h
        subst h
        simp at hh
    rw [List.cons_append, escapeTemplate_cons_self (fun e => hb (by simp [e]))
      (fun e => ht (by simp [e])) hd,
      ih (fun hm => hb (List.mem_cons_of_mem c hm)) (fun hm => ht (List.mem_cons_of_mem c hm)) hh.2]
    rfl

theorem EndsSegment.escapeTemplate {after : Text} (h : EndsSegment after) :
    EndsSegment (escapeTemplate after) := by
  cases after with
  | nil => exact h
  | cons c rest =>
    have hc : c = '/' := h c rfl
    subst hc
    rw [escapeTemplate_cons_self (by decide) (by decide) (by simp)]
    intro d hd
    simpa using hd.symm

/-! ## Reading the interpolated route -/

/-- A table of placeholders that names the path parameters of an endpoint by their keys. -/
structure Names (e : Endpoint) (table : List (Text × Text)) : Prop where
  plain : ∀ entry ∈ table, PlainKey entry.1
  identifier : ∀ entry ∈ table, isIdentifier entry.2 = true
  text : ∀ entry ∈ table, e.routeText (.hole entry.2) = ':' :: entry.1
  parameter : ∀ entry ∈ table, ∃ p ∈ e.withRole .path, p.name = entry.2
  finds : ∀ key p after, lastKeyed? (e.withRole .path) key = some p → EndsSegment after →
    placeholder? table (':' :: (key ++ after)) = some (key, p.name, after)
  keys : ∀ key p, lastKeyed? (e.withRole .path) key = some p → PlainKey key

/-- Some text out of the URL reads as parts that say what a stretch of the route does. A placeholder
that is a whole segment is a hole with the name of the last parameter of its key. -/
structure Reads (e : Endpoint) (atStart : Bool) (route out : Text) (parts : List LiteralPart) :
    Prop where
  reads : readParts? (out ++ ['\x60']) = some parts
  holes : ∀ name, LiteralPart.hole name ∈ parts → ∃ p ∈ e.withRole .path, p.name = name
  text : parts.flatMap e.routeText = route
  placeholders : ∀ before key after p, route = before ++ ':' :: (key ++ after) →
    (before = [] → atStart = true) → (∀ c, before.getLast? = some c → c = '/') →
    EndsSegment after → lastKeyed? (e.withRole .path) key = some p →
    ∃ front back, parts = front ++ .hole p.name :: back ∧
      front.flatMap e.routeText = before ∧ back.flatMap e.routeText = after

variable {e : Endpoint} {table : List (Text × Text)} {atStart : Bool} {rest out : Text}
  {parts : List LiteralPart}

theorem Reads.nil : Reads e atStart [] [] [] where
  reads := TypeScript.readParts?_end
  holes := by simp
  text := rfl
  placeholders := by
    intro before key after p h
    simp at h

/-- One character of the route, in which no placeholder begins. -/
theorem Reads.char {c : Char} (written : Text) (h : Reads e (c = '/') rest out parts)
    (hread : readParts? (written ++ out ++ ['\x60'])
      = (readParts? (out ++ ['\x60'])).map (.char c :: ·))
    (hnone : atStart = true → ∀ key after p, c :: rest = ':' :: (key ++ after) →
      EndsSegment after → lastKeyed? (e.withRole .path) key ≠ some p) :
    Reads e atStart (c :: rest) (written ++ out) (.char c :: parts) where
  reads := by rw [hread, h.reads]; rfl
  holes := by
    intro name hm
    exact h.holes name (by simpa using hm)
  text := by rw [List.flatMap_cons, h.text]; rfl
  placeholders := by
    intro before key after p hroute hstart hslash hafter hp
    cases before with
    | nil => exact absurd hp (hnone (hstart rfl) key after p hroute hafter)
    | cons d before =>
      simp only [List.cons_append, List.cons.injEq] at hroute
      obtain ⟨rfl, hroute⟩ := hroute
      have hstart' : before = [] → decide (c = '/') = true := by
        rintro rfl
        simpa using hslash c rfl
      have hslash' : ∀ x, before.getLast? = some x → x = '/' := by
        intro x hx
        refine hslash x ?_
        rw [List.getLast?_cons, hx]
        rfl
      obtain ⟨front, back, hparts, hfront, hback⟩ :=
        h.placeholders before key after p hroute hstart' hslash' hafter hp
      refine ⟨.char c :: front, back, by rw [hparts]; rfl, ?_, hback⟩
      rw [List.flatMap_cons, hfront]
      rfl

/-- What ends with a slash, at the start of a text, goes past a part without slashes. -/
theorem exists_of_append_slash {key before after : Text} (hkey : '/' ∉ key)
    (hlast : before.getLast? = some '/') (h : key ++ rest = before ++ after) :
    ∃ m, m.getLast? = some '/' ∧ before = key ++ m ∧ rest = m ++ after := by
  have hmem : '/' ∈ before := List.mem_of_getLast? hlast
  rcases List.append_eq_append_iff.1 h with ⟨m, hbefore, hrest⟩ | ⟨m, hk, -⟩
  · refine ⟨m, ?_, hbefore, hrest⟩
    rw [hbefore, List.getLast?_append] at hlast
    cases hm : m.getLast? with
    | none =>
      rw [List.getLast?_eq_none_iff.1 hm, List.append_nil] at hbefore
      exact absurd (hbefore ▸ hmem) hkey
    | some c =>
      rw [hm] at hlast
      exact hlast
  · exact absurd (by rw [hk]; exact List.mem_append_left _ hmem) hkey

/-- A placeholder of the table, with what follows it. -/
theorem Reads.hole {key name : Text} (ht : Names e table) (hm : (key, name) ∈ table)
    (h : Reads e false rest out parts)
    (hfirst : ∀ key' after p, key ++ rest = key' ++ after → EndsSegment after →
      lastKeyed? (e.withRole .path) key' = some p → key = key' ∧ name = p.name) :
    Reads e atStart (':' :: (key ++ rest)) (interpolation name ++ out) (.hole name :: parts) where
  reads := by
    have hi : isIdentifier name = true := ht.identifier _ hm
    have hc : '}' ∉ name := TypeScript.not_mem_identifier hi (by decide)
    have hwritten : interpolation name ++ out ++ ['\x60']
        = '$' :: '{' :: name ++ '}' :: (out ++ ['\x60']) := by
      simp [interpolation]
    rw [hwritten, TypeScript.readParts?_hole (TypeScript.isDottedName_of_isIdentifier hi) hc,
      h.reads]
    rfl
  holes := by
    intro other ho
    rcases List.mem_cons.1 ho with ho | ho
    · simp only [LiteralPart.hole.injEq] at ho
      subst ho
      exact ht.parameter _ hm
    · exact h.holes other ho
  text := by rw [List.flatMap_cons, h.text, ht.text _ hm]; rfl
  placeholders := by
    intro before key' after p hroute _ hslash hafter hp
    cases before with
    | nil =>
      simp only [List.nil_append, List.cons.injEq, true_and] at hroute
      obtain ⟨rfl, rfl⟩ := hfirst key' after p hroute hafter hp
      exact ⟨[], parts, rfl, rfl, h.text.trans (List.append_cancel_left hroute)⟩
    | cons d before =>
      simp only [List.cons_append, List.cons.injEq] at hroute
      obtain ⟨rfl, hroute⟩ := hroute
      -- a segment that begins later begins behind the whole placeholder, which holds no slash
      have hlast : before.getLast? = some '/' := by
        cases hb : before.getLast? with
        | none =>
          have hcolon := hslash ':' (by rw [List.getLast?_cons, hb]; rfl)
          simp at hcolon
        | some x =>
          have hx := hslash x (by rw [List.getLast?_cons, hb]; rfl)
          rw [hx]
      obtain ⟨m, hm', rfl, hrest⟩ := exists_of_append_slash (ht.plain _ hm).slash hlast hroute
      have hne : m = [] → false = true := by
        rintro rfl
        cases hm'
      have hend : ∀ c, m.getLast? = some c → c = '/' := fun c hc =>
        (Option.some.inj (hm'.symm.trans hc)).symm
      obtain ⟨front, back, hparts, hfront, hback⟩ :=
        h.placeholders m key' after p hrest hne hend hafter hp
      refine ⟨.hole name :: front, back, by rw [hparts]; rfl, ?_, hback⟩
      rw [List.flatMap_cons, hfront, ht.text _ hm]
      rfl

theorem interpolateUpTo_nil (bound : Nat) : interpolateUpTo table bound atStart [] = [] := by
  cases bound <;> rfl

theorem interpolateUpTo_escaped (bound : Nat) {c : Char} (hc : c ≠ '/') (t : Text) :
    interpolateUpTo table (bound + 2) atStart ('\\' :: c :: t)
      = '\\' :: c :: interpolateUpTo table bound false t := by
  have hnone : (if atStart = true then placeholder? table ('\\' :: c :: t) else none) = none := by
    cases atStart <;> rfl
  rw [interpolateUpTo, hnone, interpolateUpTo]
  simp [hc]

theorem head?_interpolateUpTo (table : List (Text × Text)) (bound : Nat) (t : Text) :
    (interpolateUpTo table bound false t).head? = t.head? := by
  cases bound with
  | zero => rfl
  | succ bound => cases t <;> rfl

theorem head?_of_escapeTemplate {t : Text} (h : (escapeTemplate t).head? = some '{') :
    t.head? = some '{' := by
  cases t with
  | nil => simp [escapeTemplate] at h
  | cons c rest =>
    rw [escapeTemplate] at h
    split at h
    · simp at h
    · simpa using h

theorem Reads.plain_char (ht : Names e table) {bound : Nat} {c : Char} (hr : c ≠ '\r')
    (hb : c ≠ '\\') (hk : c ≠ '\x60') (hd : ¬(c = '$' ∧ rest.head? = some '{'))
    (hnone : atStart = true → placeholder? table (c :: escapeTemplate rest) = none)
    (h : Reads e (c = '/') rest
      (interpolateUpTo table bound (c = '/') (escapeTemplate rest)) parts) :
    Reads e atStart (c :: rest)
      (c :: interpolateUpTo table bound (c = '/') (escapeTemplate rest)) (.char c :: parts) := by
  refine Reads.char [c] h ?_ ?_
  · refine TypeScript.readParts?_char hk hb hr ?_
    rintro ⟨rfl, hbrace⟩
    refine hd ⟨rfl, head?_of_escapeTemplate ?_⟩
    rw [← head?_interpolateUpTo table bound]
    have hfalse : decide ('$' = '/') = false := by decide
    rw [hfalse] at hbrace
    cases hout : interpolateUpTo table bound false (escapeTemplate rest) with
    | nil => simp [hout] at hbrace
    | cons d out => simpa [hout] using hbrace
  · intro hstart key after p hroute hafter hp
    simp only [List.cons.injEq] at hroute
    obtain ⟨rfl, rfl⟩ := hroute
    have hplain := ht.keys key p hp
    have hfound := ht.finds key p _ hp hafter.escapeTemplate
    rw [← escapeTemplate_append_plain hplain.backslash hplain.backtick hplain.hole hafter,
      hnone hstart] at hfound
    simp at hfound

theorem Reads.escaped_char {bound : Nat} {c : Char} (hc : c = '\\' ∨ c = '\x60' ∨ c = '$')
    (h : Reads e false rest (interpolateUpTo table bound false (escapeTemplate rest)) parts) :
    Reads e atStart (c :: rest)
      (interpolateUpTo table (bound + 2) atStart ('\\' :: c :: escapeTemplate rest))
      (.char c :: parts) := by
  have hslash : c ≠ '/' := by rcases hc with rfl | rfl | rfl <;> decide
  have hcolon : c ≠ ':' := by rcases hc with rfl | rfl | rfl <;> decide
  rw [interpolateUpTo_escaped bound hslash]
  refine Reads.char ['\\', c] ?_ (TypeScript.readParts?_escape hc _) ?_
  · rwa [decide_eq_false hslash]
  · intro _ key after p hroute
    simp only [List.cons.injEq] at hroute
    exact absurd hroute.1 hcolon

theorem Reads.placeholder (ht : Names e table) {key name after : Text} (hm : (key, name) ∈ table)
    (hfound : placeholder? table (':' :: escapeTemplate (key ++ rest)) = some (key, name, after))
    (h : Reads e false rest out parts) :
    Reads e atStart (':' :: (key ++ rest)) (interpolation name ++ out) (.hole name :: parts) := by
  refine Reads.hole ht hm h ?_
  intro key' after' p hsame hafter hp
  have hplain := ht.keys key' p hp
  have hfound' := ht.finds key' p _ hp hafter.escapeTemplate
  rw [← escapeTemplate_append_plain hplain.backslash hplain.backtick hplain.hole hafter, ← hsame,
    hfound] at hfound'
  simp only [Option.some.injEq, Prod.mk.injEq] at hfound'
  exact ⟨hfound'.1, hfound'.2.1⟩

/-- The interpolated route reads as the route. -/
theorem interpolateUpTo_reads (ht : Names e table) (bound : Nat) :
    ∀ (route : Text) (atStart : Bool), '\r' ∉ route → (escapeTemplate route).length ≤ bound →
      ∃ parts, Reads e atStart route (interpolateUpTo table bound atStart (escapeTemplate route))
        parts := by
  induction bound using Nat.strongRecOn with
  | ind bound ih =>
    intro route atStart hr hlen
    cases route with
    | nil =>
      refine ⟨[], ?_⟩
      rw [escapeTemplate, interpolateUpTo_nil]
      exact Reads.nil
    | cons c rest =>
      have hrest : '\r' ∉ rest := fun hm => hr (List.mem_cons_of_mem c hm)
      have hcr : c ≠ '\r' := fun hcr => hr (by simp [hcr])
      by_cases hc : c = '\\' ∨ c = '\x60' ∨ (c = '$' ∧ rest.head? = some '{')
      · rw [escapeTemplate_cons_escaped hc] at hlen ⊢
        simp only [List.length_cons] at hlen
        obtain ⟨n, rfl⟩ : ∃ n, bound = n + 2 := ⟨bound - 2, by omega⟩
        have hself : c = '\\' ∨ c = '\x60' ∨ c = '$' :=
          hc.imp_right fun h => h.imp_right And.left
        obtain ⟨parts, h⟩ := ih n (by omega) rest false hrest (by omega)
        exact ⟨.char c :: parts, Reads.escaped_char hself h⟩
      · push Not at hc
        have hd : ¬(c = '$' ∧ rest.head? = some '{') := fun h => hc.2.2 h.1 h.2
        rw [escapeTemplate_cons_self hc.1 hc.2.1 hd] at hlen ⊢
        simp only [List.length_cons] at hlen
        obtain ⟨n, rfl⟩ : ∃ n, bound = n + 1 := ⟨bound - 1, by omega⟩
        rw [interpolateUpTo]
        split
        · next key name after hfound =>
          split_ifs at hfound with hstart
          obtain ⟨hm, hroute⟩ := placeholder?_eq_some hfound
          simp only [List.cons.injEq] at hroute
          obtain ⟨rfl, hescaped⟩ := hroute
          have hplain := ht.plain _ hm
          obtain ⟨more, rfl, rfl⟩ := eq_append_of_escapeTemplate hplain.backslash hescaped
          have hmore : '\r' ∉ more := fun hx => hrest (List.mem_append_right _ hx)
          have hlen' : (escapeTemplate more).length ≤ n := by
            rw [hescaped, List.length_append] at hlen
            omega
          have hlast : decide (key.getLast? = some '/') = false := by
            rw [decide_eq_false_iff_not]
            exact fun h => hplain.slash (List.mem_of_getLast? h)
          obtain ⟨parts, h⟩ := ih n (by omega) more false hmore hlen'
          rw [hlast]
          exact ⟨.hole name :: parts, Reads.placeholder ht hm hfound h⟩
        · next hfound =>
          obtain ⟨parts, h⟩ := ih n (by omega) rest (c = '/') hrest (by omega)
          refine ⟨.char c :: parts, Reads.plain_char ht hcr hc.1 hc.2.1 hd ?_ h⟩
          intro hstart
          rwa [if_pos hstart] at hfound

/-! ## The whole literal -/

theorem find?_name_eq {ps : List Parameter} (hnodup : (ps.map (·.name)).Nodup) {p : Parameter}
    (hp : p ∈ ps) : ps.find? (·.name = p.name) = some p := by
  induction ps with
  | nil => simp at hp
  | cons q ps ih =>
    rw [List.map_cons, List.nodup_cons] at hnodup
    rcases List.mem_cons.1 hp with rfl | hp
    · simp
    · have hne : q.name ≠ p.name := fun h => hnodup.1 (h ▸ List.mem_map_of_mem hp)
      rw [List.find?_cons_of_neg (by simpa using hne), ih hnodup.2 hp]

theorem names_pathNames (hnames : (e.parameters.map (·.name)).Nodup)
    (hident : ∀ p ∈ e.parameters, isIdentifier p.name = true)
    (hkeys : ∀ p ∈ e.withRole .path, ∀ key ∈ p.key, PlainKey key) :
    Names e (longestFirst (pathNames e)) := by
  have hmem : ∀ entry, entry ∈ longestFirst (pathNames e) → ∃ p ∈ e.withRole .path,
      p.key = some entry.1 ∧ p.name = entry.2 := by
    intro entry hm
    obtain ⟨-, p, hp, hname⟩ := mem_pathNames.1 (Text.mem_sortBy.1 hm)
    obtain ⟨hpm, hkey⟩ := mem_of_lastKeyed? hp
    exact ⟨p, hpm, hkey, hname⟩
  have hnodup : ((e.withRole .path).map (·.name)).Nodup :=
    hnames.sublist (List.filter_sublist.map _)
  exact {
    plain := fun entry hm => by
      obtain ⟨p, hp, hkey, -⟩ := hmem entry hm
      exact hkeys p hp _ hkey
    identifier := fun entry hm => by
      obtain ⟨p, hp, -, hname⟩ := hmem entry hm
      rw [← hname]
      exact hident p (List.mem_filter.1 hp).1
    text := fun entry hm => by
      obtain ⟨p, hp, hkey, hname⟩ := hmem entry hm
      have hfind : (e.parameters.filter (·.role = .path)).find? (·.name = p.name) = some p :=
        find?_name_eq hnodup hp
      rw [Endpoint.routeText, ← hname, hfind]
      change ':' :: p.key.getD [] = ':' :: entry.1
      rw [hkey, Option.getD_some]
    parameter := fun entry hm => by
      obtain ⟨p, hp, -, hname⟩ := hmem entry hm
      exact ⟨p, hp, hname⟩
    finds := fun key p after hp hafter => by
      obtain ⟨hpm, hkey⟩ := mem_of_lastKeyed? hp
      refine placeholder?_longestFirst (foldl_enterKey_keys_nodup _) ?_ ?_ hafter
      · intro entry hm
        obtain ⟨q, hq, hqk, -⟩ := hmem entry (Text.mem_sortBy.2 hm)
        exact (hkeys q hq _ hqk).slash
      · exact mem_pathNames.2 ⟨(hkeys p hpm _ hkey).ne_nil, p, hp, rfl⟩
    keys := fun key p hp => by
      obtain ⟨hpm, hkey⟩ := mem_of_lastKeyed? hp
      exact hkeys p hpm _ hkey }

theorem urlExpression_eq (e : Endpoint) :
    urlExpression e = "\x60$\x7bthis.BASE_URL\x7d".toList
      ++ (if interpolate (longestFirst (pathNames e)) (escapeTemplate e.route) = [] then ['\x60']
        else '/' :: (interpolate (longestFirst (pathNames e)) (escapeTemplate e.route)
          ++ ['\x60'])) := by
  unfold urlExpression
  generalize interpolate (longestFirst (pathNames e)) (escapeTemplate e.route) = path
  generalize "\x60$\x7bthis.BASE_URL\x7d".toList = lead
  cases path <;> simp

theorem readTemplateLiteral?_base (t : Text) :
    readTemplateLiteral? ("\x60$\x7bthis.BASE_URL\x7d".toList ++ t)
      = (readParts? t).map (.hole "this.BASE_URL".toList :: ·) := by
  have hname : isDottedName "this.BASE_URL".toList = true := by decide +kernel
  have hclose : '}' ∉ "this.BASE_URL".toList := by decide
  exact TypeScript.readParts?_hole hname hclose t

/-- The parts of a URL behind its base URL say what a route does: the holes name path parameters, and
with the placeholders put back the text is the route after a slash. Where a placeholder is a whole
segment, so that a slash or nothing stands on either side of it, the last parameter of its key is in its
place. -/
structure SaysRoute (e : Endpoint) (parts : List LiteralPart) : Prop where
  holes : ∀ name, LiteralPart.hole name ∈ parts → ∃ p ∈ e.parameters, p.role = .path ∧ p.name = name
  text : parts.flatMap e.routeText = if e.route = [] then [] else '/' :: e.route
  segments : ∀ before key after p, e.route = before ++ ':' :: (key ++ after) →
    (∀ c, before.getLast? = some c → c = '/') → (∀ c, after.head? = some c → c = '/') →
    lastKeyed? (e.parameters.filter (·.role = .path)) key = some p →
    ∃ front back, parts = .char '/' :: (front ++ .hole p.name :: back) ∧
      front.flatMap e.routeText = before ∧ back.flatMap e.routeText = after

/-- The URL of a request is one template literal, which says what the route does after its first hole,
the base URL. -/
theorem urlExpression_reads (e : Endpoint) (hnames : (e.parameters.map (·.name)).Nodup)
    (hident : ∀ p ∈ e.parameters, isIdentifier p.name = true) (hroute : '\r' ∉ e.route)
    (hkeys : ∀ p ∈ e.parameters, p.role = .path → ∀ key ∈ p.key, PlainKey key) :
    ∃ parts, readTemplateLiteral? (urlExpression e) = some (.hole "this.BASE_URL".toList :: parts) ∧
      SaysRoute e parts := by
  have htable : Names e (longestFirst (pathNames e)) := names_pathNames hnames hident fun p hp =>
    hkeys p (Endpoint.mem_withRole.1 hp).1 (Endpoint.mem_withRole.1 hp).2
  obtain ⟨parts, h⟩ : ∃ parts, Reads e true e.route
      (interpolate (longestFirst (pathNames e)) (escapeTemplate e.route)) parts :=
    interpolateUpTo_reads htable _ e.route true hroute (Nat.le_refl _)
  cases hout : interpolate (longestFirst (pathNames e)) (escapeTemplate e.route) with
  | nil =>
    have hparts : parts = [] := by
      have hr := h.reads
      rw [hout, List.nil_append, TypeScript.readParts?_end] at hr
      exact (Option.some.inj hr).symm
    have hempty : e.route = [] := by rw [← h.text, hparts]; rfl
    refine ⟨[], ?_, by simp, by rw [hempty]; rfl, ?_⟩
    · rw [urlExpression_eq, hout, if_pos rfl, readTemplateLiteral?_base, TypeScript.readParts?_end]
      rfl
    · intro before key after p hsplit
      rw [hempty] at hsplit
      simp at hsplit
  | cons d out =>
    have hne : e.route ≠ [] := by
      intro hempty
      rw [hempty] at hout
      simp [interpolate, interpolateUpTo, escapeTemplate] at hout
    refine ⟨.char '/' :: parts, ?_, ?_, ?_, ?_⟩
    · rw [urlExpression_eq, hout, if_neg (by simp), readTemplateLiteral?_base,
        TypeScript.readParts?_char (by decide) (by decide) (by decide) (by simp), ← hout, h.reads]
      rfl
    · intro name hm
      obtain ⟨p, hp, hname⟩ := h.holes name (by simpa using hm)
      rw [Endpoint.mem_withRole] at hp
      exact ⟨p, hp.1, hp.2, hname⟩
    · rw [if_neg hne, List.flatMap_cons, h.text]
      rfl
    · intro before key after p hsplit hbefore hafter hp
      obtain ⟨front, back, hparts, hfront, hback⟩ :=
        h.placeholders before key after p hsplit (fun _ => rfl) hbefore hafter hp
      exact ⟨front, back, by rw [hparts], hfront, hback⟩

/-- Keys of which one extends the other, and a route with all that has to be escaped. -/
def memberEndpoint : Endpoint :=
  { methodName := "member".toList
    verb := .get
    route := "teams/:id/:id-x/$\x7ba\x7d\\\x60/:idle".toList
    parameters := [
      { name := "id".toList, type := .any, role := .path, key := some "id".toList },
      { name := "inner".toList, type := .any, role := .path, key := some "id-x".toList }]
    returnType := .any }

theorem memberEndpoint_plain :
    ∀ p ∈ memberEndpoint.parameters, p.role = .path → ∀ key ∈ p.key, PlainKey key := by decide

theorem urlExpression_reads_member :
    (∀ p ∈ memberEndpoint.parameters, p.role = .path → ∀ key ∈ p.key, PlainKey key) ∧
    ∃ parts, readTemplateLiteral? (urlExpression memberEndpoint)
        = some (.hole "this.BASE_URL".toList :: parts) ∧ SaysRoute memberEndpoint parts :=
  ⟨memberEndpoint_plain, urlExpression_reads memberEndpoint (by decide) (by decide +kernel) (by decide)
    memberEndpoint_plain⟩

example : urlExpression memberEndpoint
    = "\x60$\x7bthis.BASE_URL\x7d/teams/$\x7bid\x7d/$\x7binner\x7d/\\$\x7ba\x7d\\\\\\\x60/:idle\x60".toList := by
  decide +kernel

end Client

end NestClient
