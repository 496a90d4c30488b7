import NestClient.TypeScript.Lexer

/-! Names as the source writes them. They are made of name characters and of characters given by their
code; nothing that ends a name or divides a path stands in them. -/

namespace NestClient.TypeScript

/-- Can stand in a name as written: a name character, or a part of the code of one. -/
def isWrittenChar (c : Char) : Bool :=
  isWordChar c || Lexer.isHexDigit c || ['\\', 'u', '{', '}'].contains c

namespace Lexer

theorem isWrittenChar_of_mem_hexDigits {t : Text} {bound : Nat} {c : Char}
    (h : c ∈ t.take (hexDigits bound t)) : isWrittenChar c = true := by
  have hrun : t.take (hexDigits bound t) = (t.take bound).takeWhile isHexDigit := by
    obtain ⟨rest, hrest⟩ := List.takeWhile_prefix isHexDigit (l := t.take bound)
    have hall : t = (t.take bound).takeWhile isHexDigit ++ (rest ++ t.drop bound) := by
      rw [← List.append_assoc, hrest, List.take_append_drop]
    rw [hexDigits]
    exact (congrArg _ hall).trans List.take_left
  rw [hrun] at h
  have hhex : isHexDigit c = true := List.all_eq_true.1 List.all_takeWhile c h
  rw [isWrittenChar, hhex, Bool.or_true]
  rfl

theorem isWrittenChar_of_mem_code {t : Text} {n : Nat} (hn : codeLength t = some n) {c : Char}
    (h : c ∈ t.take n) : isWrittenChar c = true := by
  unfold codeLength at hn
  split at hn
  next rest =>
    dsimp only at hn
    split at hn
    next hclose =>
      rw [Bool.and_eq_true, decide_eq_true_eq, decide_eq_true_eq] at hclose
      obtain rfl := Option.some.inj hn
      obtain ⟨hlt, hget⟩ := List.getElem?_eq_some_iff.1 hclose.2
      rw [List.take_succ_cons, List.take_succ_eq_append_getElem hlt, hget] at h
      rcases List.mem_cons.1 h with rfl | h
      · decide
      · rcases List.mem_append.1 h with h | h
        · exact isWrittenChar_of_mem_hexDigits h
        · obtain rfl := List.mem_singleton.1 h
          decide
    next => simp at hn
  next =>
    split at hn
    next hfour =>
      obtain rfl := Option.some.inj hn
      rw [← hfour] at h
      exact isWrittenChar_of_mem_hexDigits h
    next => simp at hn

theorem wordLength_eq (read : Nat) (t : Text) :
    ∃ n, wordLength read t = read + n ∧ ∀ c ∈ t.take n, isWrittenChar c = true := by
  fun_induction wordLength read t with
  | case1 read => exact ⟨0, rfl, by simp⟩
  | case2 read c rest hword ih =>
    obtain ⟨n, hn, hchars⟩ := ih
    refine ⟨n + 1, by omega, fun b hb => ?_⟩
    rw [List.take_succ_cons, List.mem_cons] at hb
    rcases hb with rfl | hb
    · rw [Bool.and_eq_true] at hword
      rw [isWrittenChar, hword.1]
      rfl
    · exact hchars b hb
  | case3 read code n hcode hcond ih =>
    obtain ⟨m, hm, hchars⟩ := ih
    refine ⟨2 + n + m, by omega, fun b hb => ?_⟩
    rw [Nat.add_assoc, Nat.add_comm 2, List.take_succ_cons, List.take_succ_cons, List.take_add] at hb
    rcases List.mem_cons.1 hb with rfl | hb
    · decide
    · rcases List.mem_cons.1 hb with rfl | hb
      · decide
      · rcases List.mem_append.1 hb with hb | hb
        · exact isWrittenChar_of_mem_code hcode hb
        · exact hchars b hb
  | _ => exact ⟨0, rfl, by simp⟩

end Lexer

/-- A name that a declaration gives, as written. -/
structure Name where
  text : Text
  written : ∀ c ∈ text, isWrittenChar c = true
  deriving DecidableEq, Repr

namespace Name

/-- The name at the start of a text. -/
def atStart (t : Text) : Name where
  text := t.take (Lexer.wordLength 0 t)
  written := by
    obtain ⟨n, hn, hchars⟩ := Lexer.wordLength_eq 0 t
    rw [hn, Nat.zero_add]
    exact hchars

/-- A name is no path. -/
theorem slash (n : Name) : '/' ∉ n.text := fun h => absurd (n.written '/' h) (by decide)

end Name

end NestClient.TypeScript
