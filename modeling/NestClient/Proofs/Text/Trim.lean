import Mathlib.Data.List.TakeWhile
import NestClient.Proofs.Text.Affix

/-! Runs of characters at the ends of a text. Trimming: what it takes away, and which texts it leaves as
they are. -/

namespace NestClient

/-! ## Runs of characters -/

theorem takeWhile_append_stop {p : Char → Bool} {run rest : Text} (hrun : ∀ c ∈ run, p c = true)
    (hrest : ∀ c, rest.head? = some c → p c = false) : (run ++ rest).takeWhile p = run := by
  have hstop : rest.takeWhile p = [] := by
    cases rest with
    | nil => rfl
    | cons c rest => rw [List.takeWhile_cons_of_neg (by simp [hrest c rfl])]
  rw [List.takeWhile_append_of_pos hrun, hstop, List.append_nil]

namespace Text

theorem dropWhile_eq_self {p : Char → Bool} {t : Text} (h : ∀ c, t.head? = some c → p c = false) :
    t.dropWhile p = t := by
  cases t with
  | nil => rfl
  | cons c rest => exact List.dropWhile_cons_of_neg (by simp [h c rfl])

end Text

theorem dropWhile_append_stop {p : Char → Bool} {run rest : Text} (hrun : ∀ c ∈ run, p c = true)
    (hrest : ∀ c, rest.head? = some c → p c = false) : (run ++ rest).dropWhile p = rest := by
  rw [List.dropWhile_append_of_pos hrun, Text.dropWhile_eq_self hrest]

/-- A text has one longest run of a class in front. -/
theorem append_stop_inj {p : Char → Bool} {run run' rest rest' : Text} (hrun : ∀ c ∈ run, p c = true)
    (hrun' : ∀ c ∈ run', p c = true) (hrest : ∀ c, rest.head? = some c → p c = false)
    (hrest' : ∀ c, rest'.head? = some c → p c = false) (h : run ++ rest = run' ++ rest') :
    run = run' ∧ rest = rest' := by
  have htake := congrArg (List.takeWhile p) h
  have hdrop := congrArg (List.dropWhile p) h
  rw [takeWhile_append_stop hrun hrest, takeWhile_append_stop hrun' hrest'] at htake
  rw [dropWhile_append_stop hrun hrest, dropWhile_append_stop hrun' hrest'] at hdrop
  exact ⟨htake, hdrop⟩

namespace Text

/-! ## Trimming -/

structure Trimmed (t : Text) : Prop where
  head : ∀ c, t.head? = some c → isBlank c = false
  last : ∀ c, t.getLast? = some c → isBlank c = false

theorem trimmed_of_not_blank {t : Text} (h : ∀ c ∈ t, isBlank c = false) : Trimmed t :=
  ⟨fun _ hc => h _ (List.mem_of_mem_head? hc), fun _ hc => h _ (List.mem_of_getLast? hc)⟩

variable {p : Char → Bool}

theorem head?_dropWhile {t : Text} {c : Char} (h : (t.dropWhile p).head? = some c) : p c = false := by
  have hnot := List.head?_dropWhile_not p t
  rw [h] at hnot
  simpa using hnot

theorem head?_trimBy {t : Text} {c : Char} (h : (trimBy p t).head? = some c) : p c = false := by
  -- what is left of the text without its first characters begins with the same one
  have hsuffix := List.dropWhile_suffix (l := (t.dropWhile p).reverse) p
  rw [← List.reverse_prefix, List.reverse_reverse] at hsuffix
  obtain ⟨tail, htail⟩ := hsuffix
  change ((t.dropWhile p).reverse.dropWhile p).reverse.head? = some c at h
  apply head?_dropWhile (t := t)
  rw [← htail, List.head?_append, h]
  rfl

theorem getLast?_trimBy {t : Text} {c : Char} (h : (trimBy p t).getLast? = some c) : p c = false := by
  rw [trimBy, List.getLast?_reverse] at h
  exact head?_dropWhile h

theorem trimmed_trim (t : Text) : Trimmed (trim t) :=
  ⟨fun _ hc => head?_trimBy hc, fun _ hc => getLast?_trimBy hc⟩

/-- Trimming takes nothing from a text that has no character of the class at its ends. -/
theorem trimBy_eq_self {t : Text} (hhead : ∀ c, t.head? = some c → p c = false)
    (hlast : ∀ c, t.getLast? = some c → p c = false) : trimBy p t = t := by
  have hreverse : t.reverse.dropWhile p = t.reverse :=
    dropWhile_eq_self fun c hc => hlast c (by rwa [List.head?_reverse] at hc)
  rw [trimBy, dropWhile_eq_self hhead, hreverse, List.reverse_reverse]

theorem Trimmed.trim_eq {t : Text} (h : Trimmed t) : trim t = t := trimBy_eq_self h.head h.last

/-- Trimming takes nothing but characters of its class. -/
theorem exists_trimBy (p : Char → Bool) (t : Text) : ∃ lead tail, t = lead ++ (trimBy p t ++ tail) ∧
    (∀ c ∈ lead, p c = true) ∧ ∀ c ∈ tail, p c = true := by
  have hfront := List.takeWhile_append_dropWhile (p := p) (l := t)
  have hback := List.takeWhile_append_dropWhile (p := p) (l := (t.dropWhile p).reverse)
  refine ⟨t.takeWhile p, ((t.dropWhile p).reverse.takeWhile p).reverse, ?_, ?_, ?_⟩
  · rw [trimBy, ← List.reverse_append, hback, List.reverse_reverse, hfront]
  · exact fun c hc => List.mem_takeWhile_imp hc
  · intro c hc
    rw [List.mem_reverse] at hc
    exact List.mem_takeWhile_imp hc

theorem exists_trim (t : Text) : ∃ lead tail, t = lead ++ (trim t ++ tail) ∧
    (∀ c ∈ lead, isBlank c = true) ∧ ∀ c ∈ tail, isBlank c = true :=
  exists_trimBy isBlank t

theorem mem_of_mem_trim {t : Text} {c : Char} (h : c ∈ trim t) : c ∈ t := by
  obtain ⟨lead, tail, ht, -⟩ := exists_trim t
  rw [ht]
  exact List.mem_append_right lead (List.mem_append_left tail h)

theorem length_trim_le (t : Text) : (trim t).length ≤ t.length := by
  obtain ⟨lead, tail, ht, -⟩ := exists_trim t
  have hlen := congrArg List.length ht
  rw [List.length_append, List.length_append] at hlen
  omega

theorem trim_concat_blank {c : Char} (hc : isBlank c = true) (t : Text) : trim (t ++ [c]) = trim t := by
  rw [trim, trim, trimBy, trimBy, List.dropWhile_append]
  split
  next hempty =>
    rw [List.isEmpty_iff.1 hempty, List.dropWhile_cons_of_pos hc]
    rfl
  next => rw [List.reverse_concat, List.dropWhile_cons_of_pos hc]

theorem count_trim {c : Char} (hc : isBlank c = false) (t : Text) : (trim t).count c = t.count c := by
  obtain ⟨lead, tail, ht, hlead, htail⟩ := exists_trim t
  have hnone : ∀ blanks : Text, (∀ d ∈ blanks, isBlank d = true) → blanks.count c = 0 := by
    intro blanks hblanks
    refine List.count_eq_zero.2 fun hmem => ?_
    rw [hblanks c hmem] at hc
    cases hc
  have hcount := congrArg (List.count c) ht
  rw [List.count_append, List.count_append, hnone lead hlead, hnone tail htail] at hcount
  omega

end Text

end NestClient
