import NestClient.Text.Utf8

/-! A text is read back from its bytes, and a place in the bytes that lies between two characters is a
place in the text. -/

namespace NestClient.Utf8

/-! ## Bytes of one character -/

-- the library states this bound as `UInt8.size`, which `omega` does not open
theorem toNat_ofNat {n : Nat} (h : n < 256) : (UInt8.ofNat n).toNat = n := UInt8.toNat_ofNat_of_lt' h

/-- A byte goes on with a character in the last 64 numbers before 192. -/
theorem isContinuation_iff {b : UInt8} :
    isContinuation b = true ↔ 128 ≤ b.toNat ∧ b.toNat < 192 := by
  rw [isContinuation, Bool.and_eq_true, decide_eq_true_eq, decide_eq_true_eq, UInt8.le_iff_toNat_le,
    UInt8.lt_iff_toNat_lt]
  rfl

theorem fitsSecond_iff {first second : UInt8} :
    fitsSecond first second = true ↔ isContinuation second = true ∧
      (first.toNat = 224 → 160 ≤ second.toNat) ∧ (first.toNat = 237 → second.toNat < 160) ∧
      (first.toNat = 240 → 144 ≤ second.toNat) ∧ (first.toNat = 244 → second.toNat < 144) := by
  simp only [fitsSecond, Bool.and_eq_true, Bool.or_eq_true, bne_iff_ne, decide_eq_true_eq, and_assoc,
    UInt8.le_iff_toNat_le, UInt8.lt_iff_toNat_lt, ne_eq, ← UInt8.toNat_inj, ← Decidable.imp_iff_not_or]
  rfl

theorem lead_one {b : UInt8} (h : b.toNat < 128) (rest : List UInt8) :
    lead b rest = .char (Char.ofNat b.toNat) 1 := by
  unfold lead
  exact if_pos (UInt8.lt_iff_toNat_lt.2 h)

theorem lead_two {b c : UInt8} (hb : 194 ≤ b.toNat) (hb' : b.toNat < 224) (hc : isContinuation c = true)
    (rest : List UInt8) :
    lead b (c :: rest) = .char (Char.ofNat (bits 32 b * 64 + bits 64 c)) 2 := by
  simp only [lead, UInt8.lt_iff_toNat_lt, UInt8.reduceToNat]
  rw [if_neg (by omega), if_neg (by omega), if_pos hb', if_pos hc]

theorem lead_three {b c d : UInt8} (hb : 224 ≤ b.toNat) (hb' : b.toNat < 240)
    (hc : fitsSecond b c = true) (hd : isContinuation d = true) (rest : List UInt8) :
    lead b (c :: d :: rest)
      = .char (Char.ofNat ((bits 16 b * 64 + bits 64 c) * 64 + bits 64 d)) 3 := by
  simp only [lead, UInt8.lt_iff_toNat_lt, UInt8.reduceToNat, hc, Bool.not_true, Bool.false_eq_true, if_false]
  rw [if_neg (by omega), if_neg (by omega), if_neg (by omega), if_pos hb', if_pos hd]

theorem lead_four {b c d e : UInt8} (hb : 240 ≤ b.toNat) (hb' : b.toNat < 245)
    (hc : fitsSecond b c = true) (hd : isContinuation d = true) (he : isContinuation e = true)
    (rest : List UInt8) :
    lead b (c :: d :: e :: rest)
      = .char (Char.ofNat (((bits 8 b * 64 + bits 64 c) * 64 + bits 64 d) * 64 + bits 64 e)) 4 := by
  simp only [lead, UInt8.lt_iff_toNat_lt, UInt8.reduceToNat, hc, hd, Bool.not_true, Bool.false_eq_true,
    if_false]
  rw [if_neg (by omega), if_neg (by omega), if_neg (by omega), if_neg (by omega), if_pos hb', if_pos he]

/-- The numbers of characters leave out those of surrogates and end at the last code point. -/
theorem toNat_cases (c : Char) : c.toNat < 55296 ∨ 57343 < c.toNat ∧ c.toNat < 1114112 := c.valid

theorem isContinuation_tail (m : Nat) : isContinuation (UInt8.ofNat (128 + m % 64)) = true := by
  have hlt : m % 64 < 64 := Nat.mod_lt _ (by decide)
  rw [isContinuation_iff, toNat_ofNat (by omega)]
  omega

theorem bits_tail (m : Nat) : bits 64 (UInt8.ofNat (128 + m % 64)) = m % 64 := by
  have hlt : m % 64 < 64 := Nat.mod_lt _ (by decide)
  rw [bits, toNat_ofNat (by omega), Nat.add_mod, Nat.mod_mod, Nat.zero_add, Nat.mod_mod]

theorem bits_head {modulus base m : Nat} (hm : m < modulus) (hbase : base % modulus = 0)
    (h : base + m < 256) : bits modulus (UInt8.ofNat (base + m)) = m := by
  rw [bits, toNat_ofNat h, Nat.add_mod, hbase, Nat.zero_add, Nat.mod_mod, Nat.mod_eq_of_lt hm]

/-- The bytes of a character begin with what is read as that character. -/
theorem lead_encodeChar (c : Char) :
    ∃ b tail, encodeChar c = b :: tail ∧
      ∀ rest, lead b (tail ++ rest) = .char c (tail.length + 1) := by
  have hc := toNat_cases c
  have hself : Char.ofNat c.toNat = c := Char.ofNat_toNat c
  unfold encodeChar
  dsimp only
  split
  next h1 =>
    refine ⟨_, _, rfl, fun rest => ?_⟩
    have hb : (UInt8.ofNat c.toNat).toNat = c.toNat := toNat_ofNat (by omega)
    rw [lead_one (by omega), hb, hself]
    rfl
  next h1 =>
  split
  next h2 =>
    refine ⟨_, _, rfl, fun rest => ?_⟩
    have hdiv : c.toNat / 64 < 32 := by omega
    have hb : (UInt8.ofNat (192 + c.toNat / 64)).toNat = 192 + c.toNat / 64 := toNat_ofNat (by omega)
    have hn : c.toNat / 64 * 64 + c.toNat % 64 = c.toNat := by omega
    rw [List.singleton_append, lead_two (by omega) (by omega) (isContinuation_tail _),
      bits_head hdiv rfl (by omega), bits_tail, hn, hself]
    rfl
  next h2 =>
  split
  next h3 =>
    refine ⟨_, _, rfl, fun rest => ?_⟩
    have hdiv : c.toNat / 4096 < 16 := by omega
    have hb : (UInt8.ofNat (224 + c.toNat / 4096)).toNat = 224 + c.toNat / 4096 :=
      toNat_ofNat (by omega)
    have hsecond : (UInt8.ofNat (128 + c.toNat / 64 % 64)).toNat = 128 + c.toNat / 64 % 64 :=
      toNat_ofNat (by omega)
    have hfits : fitsSecond (UInt8.ofNat (224 + c.toNat / 4096))
        (UInt8.ofNat (128 + c.toNat / 64 % 64)) = true := by
      rw [fitsSecond_iff, hb, hsecond]
      exact ⟨isContinuation_tail _, by omega, by omega, by omega, by omega⟩
    have hn : (c.toNat / 4096 * 64 + c.toNat / 64 % 64) * 64 + c.toNat % 64 = c.toNat := by omega
    rw [List.cons_append, List.singleton_append,
      lead_three (by omega) (by omega) hfits (isContinuation_tail _), bits_head hdiv rfl (by omega),
      bits_tail, bits_tail, hn, hself]
    rfl
  next h3 =>
    refine ⟨_, _, rfl, fun rest => ?_⟩
    have hdiv : c.toNat / 262144 < 8 := by omega
    have hb : (UInt8.ofNat (240 + c.toNat / 262144)).toNat = 240 + c.toNat / 262144 :=
      toNat_ofNat (by omega)
    have hsecond : (UInt8.ofNat (128 + c.toNat / 4096 % 64)).toNat = 128 + c.toNat / 4096 % 64 :=
      toNat_ofNat (by omega)
    have hfits : fitsSecond (UInt8.ofNat (240 + c.toNat / 262144))
        (UInt8.ofNat (128 + c.toNat / 4096 % 64)) = true := by
      rw [fitsSecond_iff, hb, hsecond]
      exact ⟨isContinuation_tail _, by omega, by omega, by omega, by omega⟩
    have hn : ((c.toNat / 262144 * 64 + c.toNat / 4096 % 64) * 64 + c.toNat / 64 % 64) * 64
        + c.toNat % 64 = c.toNat := by omega
    rw [List.cons_append, List.cons_append, List.singleton_append,
      lead_four (by omega) (by omega) hfits (isContinuation_tail _) (isContinuation_tail _),
      bits_head hdiv rfl (by omega), bits_tail, bits_tail, bits_tail, hn, hself]
    rfl

/-! ## Bytes of a text -/

theorem decodeFrom_skip (position : Nat) (tail rest : List UInt8) :
    decodeFrom position tail.length (tail ++ rest) = decodeFrom (position + tail.length) 0 rest := by
  induction tail generalizing position with
  | nil => rfl
  | cons b tail ih =>
    rw [List.cons_append, List.length_cons, decodeFrom, ih, Nat.add_assoc, Nat.add_comm 1]

theorem decodeFrom_encode (position : Nat) (t : Text) :
    decodeFrom position 0 (encode t) = .ok t := by
  induction t generalizing position with
  | nil => rfl
  | cons c t ih =>
    obtain ⟨b, tail, hbytes, hlead⟩ := lead_encodeChar c
    rw [encode, List.flatMap_cons, hbytes, List.cons_append, decodeFrom, hlead]
    dsimp only
    rw [Nat.add_sub_cancel, decodeFrom_skip]
    exact congrArg ((c :: ·) <$> ·) (ih _)

theorem decode_encode (t : Text) : decode (encode t) = .ok t := decodeFrom_encode 0 t

example : encode "é€😀".toList
    = [195, 169, 226, 130, 172, 240, 159, 152, 128] := by decide

/-! ## Places in a text -/

theorem encode_append (s t : Text) : encode (s ++ t) = encode s ++ encode t := List.flatMap_append

/-- How many bytes a text takes. -/
def size (t : Text) : Nat := (encode t).length

theorem size_append (s t : Text) : size (s ++ t) = size s + size t := by
  rw [size, encode_append, List.length_append]
  rfl

theorem take_size (t : Text) (bytes : List UInt8) : (encode t ++ bytes).take (size t) = encode t :=
  List.take_left

theorem drop_size (t : Text) (bytes : List UInt8) : (encode t ++ bytes).drop (size t) = bytes :=
  List.drop_left

theorem size_pos {t : Text} (h : t ≠ []) : 0 < size t := by
  obtain ⟨c, rest, rfl⟩ := List.exists_cons_of_ne_nil h
  obtain ⟨b, tail, hbytes, -⟩ := lead_encodeChar c
  rw [size, encode, List.flatMap_cons, hbytes, List.cons_append]
  exact Nat.succ_pos _

end NestClient.Utf8
