import NestClient.Proofs.Text.Distinct
import NestClient.Proofs.TypeText.Stands

/-! What becomes of a reference to a shared type when the text it stands in is resolved: its symbol
stands in the client type, unless that is `any`, and it is imported exactly if it is available. -/

namespace NestClient.TypeText

open TypeScript (reference)

/-- The symbol stands in the text, and no name goes on behind it. -/
def Shows (symbol t : Text) : Prop := ∃ before after, t = before ++ (symbol ++ after) ∧ EndsName after

variable {module symbol : Text}

namespace Resolver

/-! ## Shown pieces -/

def shown (r : Resolver) (t : Text) : Text := (pieces t).flatMap r.showPiece

theorem shown_cons_of_ne (r : Resolver) {c : Char} (hc : c ≠ 'i') (rest : Text) :
    r.shown (c :: rest) = c :: r.shown rest := by
  rw [shown, pieces_char (readReference?_cons_of_ne hc rest)]
  rfl

theorem endsName_shown (r : Resolver) {t : Text} (h : EndsName t) : EndsName (r.shown t) := by
  cases t with
  | nil =>
    rintro c ⟨⟩
  | cons c rest =>
    have hc : isNameChar c = false := h c rfl
    have hne : c ≠ 'i' := by
      rintro rfl
      exact absurd hc (by decide)
    rw [r.shown_cons_of_ne hne]
    rintro d ⟨⟩
    exact hc

/-- Where a name begins, a name is shown: that of a symbol, or the written text of a reference. -/
theorem head?_shown (r : Resolver) {c : Char} (hc : isNameStart c = true) (rest : Text) :
    ∃ d, (r.shown (c :: rest)).head? = some d ∧ isNameStart d = true := by
  cases hread : readReference? (c :: rest) with
  | none => exact ⟨c, by rw [shown, pieces_char hread]; rfl, hc⟩
  | some found =>
    obtain ⟨found, name, after⟩ := found
    obtain ⟨written, hw, ht, hafter⟩ := readReference?_eq_some_iff.1 hread
    rw [ht, shown, pieces_read hw hafter, List.flatMap_cons, showPiece]
    dsimp only
    obtain ⟨more, hmore⟩ := hw.exists_cons
    split
    · obtain ⟨_, _, _, _, -, -, -, -, -, -, -, hname⟩ := hw
      obtain ⟨first, more, rfl, hfirst, -⟩ := Text.isName_iff.1 hname
      exact ⟨first, rfl, hfirst⟩
    · exact ⟨'i', by rw [hmore]; rfl, by decide⟩

/-- No reference begins in front of a quote with no parenthesis in between. -/
theorem readReference?_of_not_mem {front : Text} (h : '(' ∉ front) (rest : Text) :
    readReference? (front ++ '"' :: rest) = none := by
  rw [Option.eq_none_iff_forall_ne_some]
  rintro ⟨found, name, after⟩ hread
  obtain ⟨written, hw, ht, -⟩ := readReference?_eq_some_iff.1 hread
  obtain ⟨blanks, opening, closing, blanks', rfl, -⟩ := hw
  have hquote : '"' ∉ "import(".toList := by decide
  rw [List.append_assoc, ← List.nil_append ("import(".toList ++ _)] at ht
  rcases Text.cons_append_cases hquote ht.symm with ⟨between, -, hfront⟩ | ⟨_, hnil, -⟩
  · refine h ?_
    rw [hfront]
    simp
  · simp at hnil

theorem shown_append_quote (r : Resolver) {front : Text} (h : '(' ∉ front) (rest : Text) :
    r.shown (front ++ '"' :: rest) = front ++ '"' :: r.shown rest := by
  induction front with
  | nil => exact r.shown_cons_of_ne (by decide) rest
  | cons c front ih =>
    have hnone := readReference?_of_not_mem h rest
    rw [List.cons_append] at hnone ⊢
    rw [shown, pieces_char hnone, List.flatMap_cons]
    exact congrArg (c :: ·) (ih fun hm => h (List.mem_cons_of_mem c hm))

/-- A reference without its first word is shown as it is written up to its symbol. -/
theorem shown_behindImport (r : Resolver) (hm : PlainModule module) (t : Text) :
    r.shown (behindImport module t) = behindImport module (r.shown t) := by
  have hopen : '(' ∉ module := fun h => hm.plain _ h (by decide)
  rw [behindImport, r.shown_cons_of_ne (by decide), r.shown_cons_of_ne (by decide),
    r.shown_append_quote hopen, r.shown_cons_of_ne (by decide), r.shown_cons_of_ne (by decide)]
  rfl

/-! ## The resolved type -/

theorem readReference?_ne_none (hm : PlainModule module) {t : Text} {c : Char}
    (hhead : t.head? = some c) (hc : isNameStart c = true) :
    readReference? ("import".toList ++ behindImport module t) ≠ none := by
  obtain ⟨rest, rfl⟩ : ∃ rest, t = c :: rest := by
    cases t with
    | nil => simp at hhead
    | cons d rest =>
      obtain rfl : d = c := Option.some.inj hhead
      exact ⟨rest, rfl⟩
  have hname : Text.isName ((c :: rest).takeWhile isNameChar) = true := by
    rw [List.takeWhile_cons_of_pos (isNameChar_of_isNameStart hc)]
    exact Text.isName_iff.2 ⟨c, _, rfl, hc, fun d hd => List.mem_takeWhile_imp hd⟩
  have hends : EndsName ((c :: rest).dropWhile isNameChar) := fun d hd => Text.head?_dropWhile hd
  have hread := readReference?_append (isReference_reference hm hname) hends
  have hwhole : reference module ((c :: rest).takeWhile isNameChar)
      ++ (c :: rest).dropWhile isNameChar = "import".toList ++ behindImport module (c :: rest) := by
    rw [reference_eq, List.append_assoc]
    congr 1
    simp only [behindImport, List.cons_append, List.append_assoc, List.takeWhile_append_dropWhile]
  rw [hwhole] at hread
  rw [hread]
  simp

/-- A text in which a symbol takes the first word of a reference is not resolved. -/
theorem resolveValue_eq_any (r : Resolver) (hm : PlainModule module)
    (hs : Text.isName symbol = true) {t after : Text} {front : List Piece} {ref : Reference}
    {lead lead' : Text} (hsymbol : ref.symbol = lead ++ "import".toList)
    (hwritten : ref.written = lead' ++ "import".toList)
    (ht : pieces t = front ++ .reference ref :: pieces (behindImport module symbol ++ after))
    (available : List Text) : r.resolveValue t available = .any := by
  have hrefs : references t ≠ [] := by
    rw [references, ht]
    simp [Piece.reference?]
  have hexpression : references ((pieces t).flatMap r.showPiece) ≠ [] := by
    intro hnone
    obtain ⟨first, rest, rfl, hfirst, -⟩ := Text.isName_iff.1 hs
    obtain ⟨d, hd, hstart⟩ := r.head?_shown hfirst (rest ++ after)
    have hbehind : behindImport module (first :: rest) ++ after
        = behindImport module (first :: (rest ++ after)) := by
      simp only [behindImport, List.cons_append, List.append_assoc]
    obtain ⟨word, hword⟩ : ∃ word, r.showPiece (.reference ref) = word ++ "import".toList := by
      rw [showPiece]
      split
      · exact ⟨lead, hsymbol⟩
      · exact ⟨lead', hwritten⟩
    have hshown : (pieces t).flatMap r.showPiece = front.flatMap r.showPiece ++ word
        ++ ("import".toList ++ behindImport module (r.shown (first :: (rest ++ after)))) := by
      have hrest := r.shown_behindImport hm (first :: (rest ++ after))
      rw [shown] at hrest
      rw [ht, hbehind, List.flatMap_append, List.flatMap_cons, hword, hrest]
      simp only [List.append_assoc]
    refine readReference?_ne_none hm hd hstart ?_
    refine readReference?_of_references hnone ?_
    rw [hshown]
    exact List.suffix_append _ _
  unfold resolveValue
  dsimp only
  split
  · rw [if_pos (by simpa using hexpression)]
  · rw [if_pos (by simp [hrefs])]

theorem resolveValue_stands (r : Resolver) (hm : PlainModule module)
    (hs : Text.isName symbol = true) (hshared : r.isShared module = true) {t : Text}
    (h : Stands module symbol t) (available : List Text)
    (hany : r.resolveValue t available ≠ .any) :
    Shows symbol (r.resolveValue t available).expression ∧
      (symbol ∈ (r.resolveValue t available).imports ↔ symbol ∈ available) := by
  obtain ⟨before, after, rfl, hafter⟩ := h
  rcases pieces_reference hm hs hafter.name before with
    ⟨front, ht⟩ | ⟨front, ref, lead, lead', hsymbol, hwritten, ht⟩
  · generalize before ++ (reference module symbol ++ after) = t at ht hany ⊢
    have hmem : (⟨module, symbol, reference module symbol⟩ : Reference)
        ∈ (references t).filter fun ref => r.isShared ref.module := by
      rw [List.mem_filter, references, ht]
      exact ⟨by simp [Piece.reference?], hshared⟩
    unfold resolveValue at hany ⊢
    dsimp only at hany ⊢
    have hsome : (!((references t).filter fun ref => r.isShared ref.module).isEmpty) = true := by
      rw [Bool.not_eq_true', List.isEmpty_eq_false_iff]
      exact List.ne_nil_of_mem hmem
    rw [if_pos hsome] at hany ⊢
    split at hany
    · exact absurd rfl hany
    next hnone =>
    rw [if_neg hnone]
    refine ⟨⟨front.flatMap r.showPiece, r.shown after, ?_, r.endsName_shown hafter.name⟩, ?_⟩
    · dsimp only
      rw [ht, List.flatMap_append, List.flatMap_cons, showPiece]
      dsimp only
      rw [if_pos hshared]
      rfl
    · dsimp only
      rw [List.mem_filter, Text.mem_distinct, List.contains_iff_mem]
      constructor
      · exact fun h => h.2
      · exact fun h => ⟨List.mem_map.2 ⟨_, hmem, rfl⟩, h⟩
  · exact absurd (r.resolveValue_eq_any hm hs hsymbol hwritten ht available) hany

/-- The symbol of a shared reference is shown in the client type, and it is imported if it is
available. -/
theorem resolve_stands (r : Resolver) (hm : PlainModule module) (hs : Text.isName symbol = true)
    (hshared : r.isShared module = true) {t : Text} (h : Stands module symbol t)
    (available : List Text) (hany : r.resolve t available ≠ .any) :
    Shows symbol (r.resolve t available).expression ∧
      (symbol ∈ (r.resolve t available).imports ↔ symbol ∈ available) := by
  have htrim := h.trim hs
  have hne : (Text.trim t).isEmpty = false := by
    obtain ⟨before, after, ht, -⟩ := htrim
    rw [ht, List.isEmpty_eq_false_iff]
    simp [reference_ne_nil]
  unfold resolve at hany ⊢
  dsimp only at hany ⊢
  rw [hne, if_neg (by decide)] at hany ⊢
  exact r.resolveValue_stands hm hs hshared ((htrim.undefer hm hs).bracketArrays hm hs) available hany

/-! ## Imported symbols -/

theorem isName_of_dtoSymbol {r : Resolver} {t name : Text} (h : r.dtoSymbol t = some name) :
    Text.isName name = true := by
  unfold dtoSymbol at h
  dsimp only at h
  split at h
  next hname =>
    simp only [Bool.and_eq_true] at hname
    rw [← Option.some.inj h]
    exact hname.1.1
  next => simp at h

theorem isName_of_mem_references {t : Text} {ref : Reference} (h : ref ∈ references t) :
    Text.isName ref.symbol = true := by
  obtain ⟨piece, hpiece, href⟩ := List.mem_filterMap.1 h
  cases piece with
  | char c => simp [Piece.reference?] at href
  | reference found =>
    obtain rfl : found = ref := Option.some.inj href
    obtain ⟨_, _, hread⟩ := exists_read_of_mem_pieces hpiece
    obtain ⟨_, hw, -⟩ := readReference?_eq_some_iff.1 hread
    obtain ⟨_, _, _, _, -, -, -, -, -, -, -, hname⟩ := hw
    exact hname

theorem mem_imports_withSymbol {t : Text} {found : Option Text} {available : List Text}
    (h : symbol ∈ (withSymbol t found available).imports) :
    found = some symbol ∧ symbol ∈ available := by
  cases found with
  | none => simp [withSymbol] at h
  | some name =>
    rw [withSymbol] at h
    dsimp only at h
    split at h
    next hname =>
      rw [List.mem_singleton] at h
      rw [h]
      exact ⟨rfl, List.contains_iff_mem.1 hname⟩
    next => simp at h

theorem of_mem_imports (r : Resolver) {t : Text} {available : List Text}
    (h : symbol ∈ (r.resolve t available).imports) :
    symbol ∈ available ∧ Text.isName symbol = true := by
  have hlocal : ∀ t : Text, symbol ∈ (r.resolveLocal t available).imports →
      symbol ∈ available ∧ Text.isName symbol = true := by
    intro t h
    unfold resolveLocal at h
    split at h
    · obtain ⟨hfound, havailable⟩ := mem_imports_withSymbol h
      exact ⟨havailable, isName_of_dtoSymbol hfound⟩
    · split at h
      next hdto =>
        obtain ⟨hfound, havailable⟩ := mem_imports_withSymbol h
        rw [Option.some.inj hfound] at hdto
        exact ⟨havailable, isName_of_dtoSymbol hdto⟩
      next => split at h <;> simp [ResolvedType.any] at h
  unfold resolve resolveValue at h
  dsimp only at h
  split at h
  · simp [ResolvedType.any] at h
  · split at h
    · split at h
      · simp [ResolvedType.any] at h
      · obtain ⟨hsymbol, havailable⟩ := List.mem_filter.1 h
        obtain ⟨ref, href, rfl⟩ := List.mem_map.1 (Text.mem_distinct.1 hsymbol)
        exact ⟨List.contains_iff_mem.1 havailable,
          isName_of_mem_references (List.mem_filter.1 href).1⟩
    · split at h
      · simp [ResolvedType.any] at h
      · exact hlocal _ h

end Resolver

end NestClient.TypeText
