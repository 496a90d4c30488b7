import NestClient.Proofs.TypeText.ModuleReference

/-! Which symbols a resolved type imports. A text is cut at its references from left to right; the client
type shows their symbols, and those that are available are imported as they come first.

* `references_of_replaces`: the references that are collected are those that are replaced.
* `resolve_imports_exact`: what is resolved to `any`, and otherwise the client type with its imports. -/

namespace NestClient.TypeText

variable {t replaced written module symbol : Text} {refs : List Reference}

/-! ## References and what replaces them -/

/-- The references of a text from left to right, each as long as its symbol goes on, and the text with
the symbols in their places. -/
inductive Replaces : Text → List Reference → Text → Prop where
  | nil : Replaces [] [] []
  | char {c : Char} {rest shown : Text} {refs : List Reference}
      (plain : ∀ written module symbol, IsReference written module symbol → ¬written <+: c :: rest)
      (behind : Replaces rest refs shown) : Replaces (c :: rest) refs (c :: shown)
  | reference {written module symbol after shown : Text} {refs : List Reference}
      (reads : IsReference written module symbol) (ends : EndsName after)
      (behind : Replaces after refs shown) :
      Replaces (written ++ after) (⟨module, symbol, written⟩ :: refs) (symbol ++ shown)

/-- Where a reference begins, one is read: with a symbol that may be longer. -/
theorem readReference?_of_prefix (h : IsReference written module symbol) (hin : written <+: t) :
    readReference? t ≠ none := by
  obtain ⟨more, rfl⟩ := hin
  obtain ⟨before, opening, closing, after, rfl, hbefore, hopen, hne, hmodule, hclose, hafter, hname⟩ := h
  have hlonger : Text.isName (symbol ++ more.takeWhile isNameChar) = true :=
    Text.isName_append hname fun d hd => List.mem_takeWhile_imp hd
  have hends : EndsName (more.dropWhile isNameChar) := fun c hc => Text.head?_dropWhile hc
  have hread := readReference?_append ⟨before, opening, closing, after, rfl, hbefore, hopen, hne, hmodule,
    hclose, hafter, hlonger⟩ hends
  have hwhole : "import(".toList ++ (before ++ opening :: (module ++ closing ::
        (after ++ (").".toList ++ (symbol ++ more.takeWhile isNameChar)))))
        ++ more.dropWhile isNameChar
      = "import(".toList ++ (before ++ opening :: (module ++ closing ::
        (after ++ (").".toList ++ symbol)))) ++ more := by
    simp only [List.append_assoc, List.cons_append, List.takeWhile_append_dropWhile]
  rw [hwhole] at hread
  rw [hread]
  simp

theorem references_eq_nil_of_not_infix
    (h : ∀ written module symbol, IsReference written module symbol → ¬written <:+: t) :
    references t = [] := by
  induction t with
  | nil => rfl
  | cons c rest ih =>
    have hread : readReference? (c :: rest) = none := by
      rw [Option.eq_none_iff_forall_ne_some]
      rintro ⟨module, symbol, after⟩ hread
      obtain ⟨written, hw, ht, -⟩ := readReference?_eq_some_iff.1 hread
      exact h written module symbol hw (ht ▸ (List.prefix_append _ _).isInfix)
    rw [references, pieces_char hread]
    exact ih fun written module symbol hw hin =>
      h written module symbol hw (hin.trans (List.suffix_cons c rest).isInfix)

theorem exists_replaces (t : Text) : ∃ refs replaced, Replaces t refs replaced := by
  induction hn : t.length using Nat.strongRecOn generalizing t with
  | ind n ih =>
    cases t with
    | nil => exact ⟨[], [], .nil⟩
    | cons c rest =>
      cases hread : readReference? (c :: rest) with
      | none =>
        obtain ⟨refs, shown, hrest⟩ := ih rest.length (by simp at hn; omega) rest rfl
        refine ⟨refs, c :: shown, .char (fun written module symbol hw hin => ?_) hrest⟩
        exact readReference?_of_prefix hw hin hread
      | some found =>
        obtain ⟨module, symbol, after⟩ := found
        have hlt := length_lt_of_readReference? hread
        obtain ⟨written, hw, ht, hafter⟩ := readReference?_eq_some_iff.1 hread
        obtain ⟨refs, shown, hrest⟩ := ih after.length (by omega) after rfl
        rw [ht]
        exact ⟨_, _, Replaces.reference hw hafter hrest⟩

/-- What is collected and what is replaced are the same references. -/
theorem references_of_replaces (h : Replaces t refs replaced) :
    references t = refs ∧ ∀ r : Resolver, (∀ ref ∈ refs, r.isShared ref.module = true) →
      r.shown t = replaced := by
  induction h with
  | nil => exact ⟨rfl, fun _ _ => rfl⟩
  | @char c rest shown refs hplain hrest ih =>
    have hread : readReference? (c :: rest) = none := by
      rw [Option.eq_none_iff_forall_ne_some]
      rintro ⟨module, symbol, after⟩ hread
      obtain ⟨written, hw, ht, -⟩ := readReference?_eq_some_iff.1 hread
      exact hplain written module symbol hw (ht ▸ List.prefix_append _ _)
    refine ⟨?_, fun r hshared => ?_⟩
    · rw [references, pieces_char hread]
      exact ih.1
    · rw [Resolver.shown, pieces_char hread]
      exact congrArg (c :: ·) (ih.2 r hshared)
  | @reference written module symbol after shown refs hreads hends hrest ih =>
    refine ⟨?_, fun r hshared => ?_⟩
    · rw [references, pieces_read hreads hends]
      exact congrArg (⟨module, symbol, written⟩ :: ·) ih.1
    · obtain ⟨hfirst, hmore⟩ := List.forall_mem_cons.1 hshared
      have hsymbol : r.showPiece (.reference ⟨module, symbol, written⟩) = symbol := if_pos hfirst
      rw [Resolver.shown, pieces_read hreads hends, List.flatMap_cons, hsymbol]
      exact congrArg (symbol ++ ·) (ih.2 r hmore)

/-! ## The resolved type -/

namespace Resolver

/-- References to shared types only, none of which is left beside their symbols, are what is imported. -/
theorem resolveValue_of_all_shared (r : Resolver) (hne : references t ≠ [])
    (hshared : ∀ ref ∈ references t, r.isShared ref.module = true) (hleft : references (r.shown t) = [])
    (available : List Text) : r.resolveValue t available =
      ⟨r.shown t, (Text.distinct ((references t).map (·.symbol))).filter available.contains⟩ := by
  have hall : (references t).filter (fun ref => r.isShared ref.module) = references t :=
    List.filter_eq_self.2 hshared
  have hsome : (!(references t).isEmpty) = true := by simpa using hne
  have hnone : (!(references ((pieces t).flatMap r.showPiece)).isEmpty) = false := by
    rw [Bool.not_eq_false', List.isEmpty_iff]
    exact hleft
  unfold resolveValue
  dsimp only
  rw [hall, if_pos hsome, hnone, if_neg (by decide)]
  rfl

theorem nodup_imports_withSymbol (expression : Text) (found : Option Text) (available : List Text) :
    (withSymbol expression found available).imports.Nodup := by
  cases found with
  | none => exact List.nodup_nil
  | some name =>
    rw [withSymbol]
    dsimp only
    split
    · exact (List.nodup_cons.2 ⟨List.not_mem_nil, List.nodup_nil⟩)
    · exact List.nodup_nil

theorem nodup_imports (r : Resolver) (t : Text) (available : List Text) :
    (r.resolve t available).imports.Nodup := by
  have hlocal : ∀ t, (r.resolveLocal t available).imports.Nodup := by
    intro t
    unfold resolveLocal
    split
    · exact nodup_imports_withSymbol _ _ _
    · split
      · exact nodup_imports_withSymbol _ _ _
      · split <;> exact List.nodup_nil
  unfold resolve resolveValue
  dsimp only
  split
  · exact List.nodup_nil
  · split
    · split
      · exact List.nodup_nil
      · exact (Text.nodup_distinct _).filter _
    · split
      · exact List.nodup_nil
      · exact hlocal _

/-- The references of a text, once its deferred wrappers are off and its arrays have brackets, decide what
it is resolved to. One to a module that is not shared leaves nothing but `any`. Where all are shared and
their symbols make up no reference, the client type is the text with the symbols in their places, and it
imports those that are available, each once and in the order in which they come first. Nothing else is
ever imported than what is available, and nothing twice. -/
theorem resolve_imports_exact (r : Resolver) (t : Text) (available : List Text) :
    (∃ refs replaced, Replaces (rewritten t) refs replaced) ∧
    (∀ refs replaced, Replaces (rewritten t) refs replaced →
      ((∃ ref ∈ refs, r.isShared ref.module = false) → r.resolve t available = ⟨"any".toList, []⟩) ∧
      (refs ≠ [] → (∀ ref ∈ refs, r.isShared ref.module = true) →
        (∀ written module symbol, IsReference written module symbol → ¬written <:+: replaced) →
        (r.resolve t available).expression = replaced ∧
        (∀ symbol, symbol ∈ (r.resolve t available).imports ↔
          symbol ∈ refs.map (·.symbol) ∧ symbol ∈ available) ∧
        (r.resolve t available).imports.Pairwise fun a b =>
          (refs.map (·.symbol)).idxOf a < (refs.map (·.symbol)).idxOf b)) ∧
    (r.resolve t available).imports.Nodup ∧ (r.resolve t available).imports ⊆ available := by
  refine ⟨exists_replaces _, fun refs replaced hcut => ?_, r.nodup_imports t available,
    fun symbol h => (r.of_mem_imports h).1⟩
  obtain ⟨rfl, hshown⟩ := references_of_replaces hcut
  refine ⟨(r.resolve_module_references t available).2.1, fun hne hshared hleft => ?_⟩
  have hwhole := hshown r hshared
  have htext : Text.trim t ≠ [] := by
    intro hblank
    rw [rewritten_of_trim hblank] at hne
    exact hne rfl
  have hresolve : r.resolve t available = ⟨replaced,
      (Text.distinct ((references (rewritten t)).map (·.symbol))).filter available.contains⟩ := by
    have hnone : references (r.shown (rewritten t)) = [] := by
      rw [hwhole]
      exact references_eq_nil_of_not_infix hleft
    rw [r.resolve_eq htext]
    exact hwhole ▸ r.resolveValue_of_all_shared hne hshared hnone available
  rw [hresolve]
  refine ⟨rfl, fun symbol => ?_, (Text.pairwise_distinct _).filter _⟩
  rw [List.mem_filter, Text.mem_distinct, List.contains_iff_mem]

theorem resolve_imports_exact_mixed :
    let r : Resolver := { isShared := (· == "@shared".toList) }
    let t := "Promise<Array<import(\"@shared\").B> | import('@shared').A | import(\"@shared\").B>".toList
    let foreign := "import(\"@shared\").A | import(\"fs\").Stats".toList
    let available := ["A".toList, "B".toList, "C".toList]
    (∃ refs, Replaces (rewritten t) refs "B[] | A | B".toList ∧ refs.map (·.symbol) = ["B".toList,
        "A".toList, "B".toList] ∧ ∀ ref ∈ refs, r.isShared ref.module = true) ∧
    (r.resolve t available).expression = "B[] | A | B".toList ∧
    (∀ symbol, symbol ∈ (r.resolve t available).imports ↔
      symbol ∈ ["B".toList, "A".toList, "B".toList] ∧ symbol ∈ available) ∧
    r.resolve foreign available = ⟨"any".toList, []⟩ := by
  intro r t foreign available
  obtain ⟨⟨refs, replaced, hcut⟩, hexact, -⟩ := r.resolve_imports_exact t available
  obtain ⟨hrefs, hshown⟩ := references_of_replaces hcut
  have hwritten : rewritten t
      = "import(\"@shared\").B[] | import('@shared').A | import(\"@shared\").B".toList := by
    decide +kernel
  have hsymbols : refs.map (·.symbol) = ["B".toList, "A".toList, "B".toList] := by
    rw [← hrefs, hwritten]
    decide
  have hshared : ∀ ref ∈ refs, r.isShared ref.module = true := by
    rw [← hrefs, hwritten]
    decide
  have hreplaced : replaced = "B[] | A | B".toList := by
    rw [← hshown r hshared, hwritten]
    decide
  have hne : refs ≠ [] := by
    rintro rfl
    exact absurd hsymbols (by decide)
  subst hreplaced
  obtain ⟨hexpression, himports, -⟩ := (hexact refs _ hcut).2 hne hshared fun written module symbol hw hin => by
    obtain ⟨before, opening, closing, after, rfl, -⟩ := hw
    have hopen : ¬"import(".toList <:+: "B[] | A | B".toList := by decide
    exact hopen ((List.prefix_append _ _).isInfix.trans hin)
  refine ⟨⟨refs, hcut, hsymbols, hshared⟩, hexpression, fun symbol => ?_, ?_⟩
  · rw [himports, hsymbols]
  · obtain ⟨⟨refs', replaced', hcut'⟩, hexact', -⟩ := r.resolve_imports_exact foreign available
    refine (hexact' refs' replaced' hcut').1 ?_
    have hforeign : rewritten foreign = foreign := by decide +kernel
    rw [← (references_of_replaces hcut').1, hforeign]
    exact ⟨⟨"fs".toList, "Stats".toList, "import(\"fs\").Stats".toList⟩, by decide, by decide⟩

end Resolver

end NestClient.TypeText
