import Mathlib.Data.List.Forall2
import NestClient.Proofs.TypeText.Members

/-! Cutting a text at a separator is stable: its parts are cut no further, and once they are joined they
are found again.

* `EndsPiece`: what stands before one of the separators with which pieces are joined.
* `cutOutside_cut`: the text is its pieces with just those separators between them that stand outside of
  all brackets of the whole text, whether its brackets match or not.
* `splitTopLevel_stable`: so the parts make up the text again, blanks apart. -/

namespace NestClient.TypeText

variable {sep : Char} {piece front rest t : Text} {more pieces : List Text}

/-! ## Where pieces end -/

/-- The joined pieces up to one that is not the last. -/
def EndsPiece (sep : Char) (pieces : List Text) (front : Text) : Prop :=
  ∃ before after, pieces = before ++ after ∧ before ≠ [] ∧ after ≠ [] ∧ front = Text.join [sep] before

theorem endsPiece_cons_iff : EndsPiece sep (piece :: more) front ↔
    more ≠ [] ∧ (front = piece ∨ ∃ between, front = piece ++ sep :: between ∧ EndsPiece sep more between) := by
  constructor
  · rintro ⟨_ | ⟨first, before⟩, after, hpieces, hbefore, hafter, rfl⟩
    · exact absurd rfl hbefore
    · obtain ⟨rfl, rfl⟩ := List.cons.inj hpieces
      refine ⟨fun hnil => hafter (List.append_eq_nil_iff.1 hnil).2, ?_⟩
      cases before with
      | nil => exact .inl (Text.join_singleton _ _)
      | cons second before =>
        exact .inr ⟨_, Text.join_cons_cons _ _ _ _, second :: before, after, rfl, List.cons_ne_nil _ _,
          hafter, rfl⟩
  · rintro ⟨hmore, rfl | ⟨between, rfl, before, after, rfl, hbefore, hafter, rfl⟩⟩
    · exact ⟨[front], more, rfl, List.cons_ne_nil _ _, hmore, (Text.join_singleton _ _).symm⟩
    · refine ⟨piece :: before, after, rfl, List.cons_ne_nil _ _, hafter, ?_⟩
      obtain ⟨second, before, rfl⟩ := List.exists_cons_of_ne_nil hbefore
      rw [Text.join_cons_cons]
      rfl

/-- The text is made up of the pieces, and its separators outside of all brackets are those between
them. -/
structure CutOutside (sep : Char) (t : Text) (pieces : List Text) : Prop where
  whole : t = Text.join [sep] pieces
  places : ∀ front rest, t = front ++ sep :: rest →
    (bracketDepth none front = 0 ↔ EndsPiece sep pieces front)

theorem bracketDepth_append_separator (hsep : sep ∈ "|&,".toList) (hfront : bracketDepth none front = 0)
    (t : Text) : bracketDepth none (front ++ sep :: t) = bracketDepth none t := by
  rw [bracketDepth_append, hfront, bracketDepth, bracketWeight_separator hsep,
    bracketDepth_of_ne (ne_of_separator hsep).1, Int.zero_add, Int.zero_add]

theorem cutOutside_singleton (h : ¬StandsOpen sep t) : CutOutside sep t [t] where
  whole := (Text.join_singleton _ _).symm
  places := by
    intro front rest heq
    constructor
    · intro hdepth
      exact absurd ⟨front, rest, heq, hdepth⟩ h
    · intro hends
      exact absurd rfl (endsPiece_cons_iff.1 hends).1

/-- A piece that ends at the first separator outside of all brackets is put before the others. -/
theorem CutOutside.cons (hsep : sep ∈ "|&,".toList) (h : CutOutside sep rest pieces) (hne : pieces ≠ [])
    (hfront : ¬StandsOpen sep front) (hdepth : bracketDepth none front = 0) :
    CutOutside sep (front ++ sep :: rest) (front :: pieces) where
  whole := by
    obtain ⟨first, more, rfl⟩ := List.exists_cons_of_ne_nil hne
    rw [h.whole, Text.join_cons_cons]
    rfl
  places := by
    intro lead behind heq
    rw [endsPiece_cons_iff, and_iff_right hne]
    -- the separator ends the first piece, stands behind it or inside of it
    rcases List.append_eq_append_iff.1 heq with
      ⟨_ | ⟨c, between⟩, rfl, hbetween⟩ | ⟨_ | ⟨c, between⟩, rfl, hbetween⟩
    · simp [hdepth]
    · obtain ⟨rfl, rfl⟩ := List.cons.inj hbetween
      rw [bracketDepth_append_separator hsep hdepth, h.places between behind rfl]
      simp
    · rw [List.append_nil] at hdepth
      simp [hdepth]
    · obtain ⟨rfl, rfl⟩ := List.cons.inj hbetween
      refine iff_of_false (fun hlead => hfront ⟨lead, between, rfl, hlead⟩) ?_
      rintro (heq | ⟨more, heq, -⟩) <;> simp at heq

theorem cutOutside_cut (hsep : sep ∈ "|&,".toList) (t : Text) :
    CutOutside sep t (cut (· = sep) none 0 t) := by
  induction t using cut_induction sep with
  | whole t h =>
    rw [cut_of_not_standsOpen hsep h]
    exact cutOutside_singleton h
  | first front rest hfront hdepth ih =>
    rw [cut_append_cons hsep hfront hdepth]
    exact ih.cons hsep (cut_ne_nil _ _ _ _) hfront hdepth

/-! ## Parts of a text -/

/-- A piece of a text is the part with blanks around it. -/
def Padded (piece part : Text) : Prop :=
  ∃ lead tail, Blanks lead ∧ Blanks tail ∧ piece = lead ++ (part ++ tail)

theorem padded_trim (piece : Text) : Padded piece (Text.trim piece) := by
  obtain ⟨lead, tail, hpiece, hlead, htail⟩ := Text.exists_trim piece
  exact ⟨lead, tail, hlead, htail, hpiece⟩

theorem Members.splitTopLevel_eq_singleton (hsep : sep ∈ "|&,".toList) (h : Members sep pieces)
    (hpiece : piece ∈ pieces) : splitTopLevel sep piece = [piece] :=
  (splitTopLevel_eq_singleton_iff hsep (h.trimmed piece hpiece)).2 (h.whole piece hpiece)

/-- The parts of a text are cut no further. Joined, with blanks around the separator or without, they are
found again. And they make up the text, which has blanks only at its ends and beside the separators that
stand outside of all its brackets. -/
theorem splitTopLevel_stable (hsep : sep ∈ "|&,".toList) (t : Text) :
    (∀ part ∈ splitTopLevel sep t, splitTopLevel sep part = [part]) ∧
      (∀ lead tail, Blanks lead → Blanks tail →
        splitTopLevel sep (Text.join (lead ++ sep :: tail) (splitTopLevel sep t)) = splitTopLevel sep t) ∧
      ∃ pieces, CutOutside sep t pieces ∧ List.Forall₂ Padded pieces (splitTopLevel sep t) := by
  have hmembers := members_splitTopLevel hsep t
  refine ⟨fun part hpart => hmembers.splitTopLevel_eq_singleton hsep hpart, ?_, ?_⟩
  · intro lead tail hlead htail
    exact hmembers.splitTopLevel_join hsep hlead htail (ne_nil_splitTopLevel sep t)
  · refine ⟨cut (· = sep) none 0 t, cutOutside_cut hsep t, ?_⟩
    rw [splitTopLevel, splitTopLevelBy, List.forall₂_map_right_iff]
    exact List.forall₂_same.2 fun piece _ => padded_trim piece

/-- An arrow, a bracket that is closed but never opened, and behind it separators that do not count. -/
def unbalancedUnion : Text := " =>|(A | B<C => D>) |\tE> | F|".toList

theorem splitTopLevel_stable_unbalanced :
    '|' ∈ "|&,".toList ∧
      splitTopLevel '|' unbalancedUnion = ["=>".toList, "(A | B<C => D>)".toList, "E> | F|".toList] ∧
      (∀ part ∈ splitTopLevel '|' unbalancedUnion, splitTopLevel '|' part = [part]) ∧
      splitTopLevel '|' "=> | (A | B<C => D>) | E> | F|".toList = splitTopLevel '|' unbalancedUnion ∧
      ∃ pieces, CutOutside '|' unbalancedUnion pieces ∧
        List.Forall₂ Padded pieces (splitTopLevel '|' unbalancedUnion) := by
  have hbar : '|' ∈ "|&,".toList := by decide
  have hparts : splitTopLevel '|' unbalancedUnion
      = ["=>".toList, "(A | B<C => D>)".toList, "E> | F|".toList] := by decide +kernel
  have hblank : Blanks [' '] := List.forall_mem_singleton.2 (by decide)
  obtain ⟨hagain, hjoined, hwhole⟩ := splitTopLevel_stable hbar unbalancedUnion
  have hspaced := hjoined [' '] [' '] hblank hblank
  conv_lhs at hspaced => rw [hparts]
  exact ⟨hbar, hparts, hagain, hspaced, hwhole⟩

end NestClient.TypeText
