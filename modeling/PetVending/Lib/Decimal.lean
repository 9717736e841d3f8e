import PetVending.Lib.Strtok

/-!
# Numbers in C strings: `%d` and `atoi`

`dec z` (`%d`) is the decimal text of `z`. `atoi w t` is `(int)strtol(t, NULL, 10)` on a platform whose `long` has `w`
bits: white space, a sign, digits, clamped to `long` and cut to `int`. Reading a number that was written gives the
number, as an `int` (`atoi_dec`). `intOf t` is the number that `t` writes, of any size (`atoi_intOf`).
-/

namespace CStr

/-- `isspace` -/
def isSpace (c : Byte) : Bool := c = 32 || 9 ≤ c && c ≤ 13

/-- `isdigit` -/
def isDigit (c : Byte) : Bool := 48 ≤ c && c ≤ 57

/-- The value of a digit string. -/
def ofDigits (t : List Byte) : Nat := t.foldl (fun a c => 10 * a + (c.toNat - 48)) 0

/-- A number clamped to a `long` of `w` bits, and the low 32 bits of that as an `int`. -/
def toInt (w : Nat) (z : Int) : Int :=
  (max (-2 ^ (w - 1)) (min (2 ^ (w - 1) - 1) z) + 2 ^ 31) % 2 ^ 32 - 2 ^ 31

theorem toInt_zero (w : Nat) : toInt w 0 = 0 := by
  have h : (0 : Int) < 2 ^ (w - 1) := Int.pow_pos (by decide)
  unfold toInt
  rw [min_eq_right (by omega), max_eq_right (by omega)]
  decide

/-- `atoi` -/
def atoi (w : Nat) (t : List Byte) : Int :=
  match t.dropWhile isSpace with
  | 45 :: t => toInt w (-(ofDigits (t.takeWhile isDigit) : Int))
  | 43 :: t => toInt w (ofDigits (t.takeWhile isDigit))
  | t => toInt w (ofDigits (t.takeWhile isDigit))

/-! ## Digits -/

/-- The digits of a number, as bytes. -/
def digits (n : Nat) : List Byte := (Nat.toDigits 10 n).map Char.toUInt8

/-- A digit and its byte have the same code. -/
theorem toNat_toUInt8 {c : Char} (h : c.isDigit = true) : c.toUInt8.toNat = c.toNat := by
  have h9 : c.toNat ≤ 57 := (Char.isDigit_iff_toNat.1 h).2
  show c.val.toUInt8.toNat = c.val.toNat
  rw [UInt32.toNat_toUInt8]
  exact Nat.mod_eq_of_lt (Nat.lt_of_le_of_lt h9 (by decide))

theorem isDigit_of_mem_digits {n : Nat} {b : Byte} (h : b ∈ digits n) : isDigit b = true := by
  obtain ⟨c, hc, rfl⟩ := List.mem_map.1 h
  have hd := Nat.isDigit_of_mem_toDigits (by omega) (by omega) hc
  have ht := toNat_toUInt8 hd
  have hr := Char.isDigit_iff_toNat.1 hd
  simp only [isDigit, UInt8.le_iff_toNat_le, ht, Bool.and_eq_true, decide_eq_true_eq]
  exact hr

theorem digits_ne_nil (n : Nat) : digits n ≠ [] := by
  simp [digits, Nat.toDigits_ne_nil]

theorem ofDigits_digits (n : Nat) : ofDigits (digits n) = n := by
  have h := Nat.ofDigitChars_ten_toDigits (n := n)
  rw [Nat.ofDigitChars_eq_foldl] at h
  rw [ofDigits, digits, List.foldl_map]
  refine Eq.trans (List.foldl_ext _ _ _ fun a c hc => ?_) h
  rw [toNat_toUInt8 (Nat.isDigit_of_mem_toDigits (by omega) (by omega) hc)]
  rfl

theorem dec_eq (z : Int) : dec z = if z < 0 then 45 :: digits z.natAbs else digits z.natAbs := rfl

theorem isSpace_of_isDigit {c : Byte} (h : isDigit c = true) : isSpace c = false ∧ c ≠ 45 ∧ c ≠ 43 := by
  have h48 : 48 ≤ c.toNat := by
    simp only [isDigit, UInt8.le_iff_toNat_le, Bool.and_eq_true, decide_eq_true_eq] at h
    exact h.1
  have hne {d : Byte} (hd : d.toNat < 48) : c ≠ d := by
    rintro rfl
    omega
  refine ⟨?_, hne (by decide), hne (by decide)⟩
  simp only [isSpace, UInt8.le_iff_toNat_le, hne (d := 32) (by decide), decide_false, Bool.false_or,
    Bool.and_eq_false_iff, decide_eq_false_iff_not, not_le]
  exact .inr (Nat.lt_of_lt_of_le (by decide) h48)

/-- A number without a sign, and what stands behind it. -/
theorem atoi_digits_append (w n : Nat) {r : List Byte} (hr : r.takeWhile isDigit = []) :
    atoi w (digits n ++ r) = toInt w n := by
  obtain ⟨b, t, ht⟩ := List.exists_cons_of_ne_nil (digits_ne_nil n)
  have hall : ∀ c ∈ b :: t, isDigit c = true := fun c hc => isDigit_of_mem_digits (ht ▸ hc)
  obtain ⟨hs, hminus, hplus⟩ := isSpace_of_isDigit (hall b (by simp))
  have hn := ofDigits_digits n
  rw [ht] at hn ⊢
  rw [atoi, List.cons_append, List.dropWhile_cons, hs]
  simp only [Bool.false_eq_true, if_false]
  split
  · rename_i h; cases h; exact absurd rfl hminus
  · rename_i h; cases h; exact absurd rfl hplus
  · rw [← List.cons_append, List.takeWhile_append_of_pos hall, hr, List.append_nil, hn]

/-- A number without a sign. -/
theorem atoi_digits (w n : Nat) : atoi w (digits n) = toInt w n := by
  have h := atoi_digits_append w n (r := []) rfl
  rwa [List.append_nil] at h

/-- A small number is the same as an `int`. -/
theorem toInt_of_lt {w n : Nat} (hw : 32 ≤ w) (hn : n < 2 ^ 31) : toInt w n = n := by
  have hpow : (2 : Int) ^ 31 ≤ 2 ^ (w - 1) := by
    exact_mod_cast Nat.pow_le_pow_right (by decide) (show 31 ≤ w - 1 by omega)
  have hz : (n : Int) < 2 ^ 31 := by exact_mod_cast hn
  unfold toInt
  rw [min_eq_right (by omega), max_eq_right (by omega)]
  omega

/-- A number is the same as an `int` iff it fits. -/
theorem toInt_eq_self_iff {w : Nat} {z : Int} (hw : 32 ≤ w) : toInt w z = z ↔ -2 ^ 31 ≤ z ∧ z < 2 ^ 31 := by
  have hpow : (2 : Int) ^ 31 ≤ 2 ^ (w - 1) := by
    exact_mod_cast Nat.pow_le_pow_right (by decide) (show 31 ≤ w - 1 by omega)
  unfold toInt
  constructor
  · intro h
    rw [← h]
    omega
  · rintro ⟨hlo, hhi⟩
    rw [min_eq_right (by omega), max_eq_right (by omega)]
    omega

/-! ## The number that a text writes -/

/-- The number that digits write. -/
def natOf (t : List Byte) : Option Nat := if t ≠ [] ∧ t.all isDigit then some (ofDigits t) else none

/-- The number that a text writes: digits, with a sign in front or without. -/
def intOf : List Byte → Option Int
  | 45 :: t => (natOf t).map fun n : Nat => -(n : Int)
  | 43 :: t => (natOf t).map fun n : Nat => (n : Int)
  | t => (natOf t).map fun n : Nat => (n : Int)

theorem natOf_some {t r : List Byte} {n : Nat} (h : natOf t = some n) (hr : r.takeWhile isDigit = []) :
    (∃ b t', t = b :: t' ∧ isDigit b = true) ∧ ofDigits ((t ++ r).takeWhile isDigit) = n := by
  obtain ⟨⟨hne, hall⟩, heq⟩ := Option.ite_none_right_eq_some.1 h
  cases heq
  rw [List.all_eq_true] at hall
  obtain ⟨b, t', rfl⟩ := List.exists_cons_of_ne_nil hne
  refine ⟨⟨b, t', rfl, hall b List.mem_cons_self⟩, ?_⟩
  rw [List.takeWhile_append_of_pos hall, hr, List.append_nil]

/-- **Reading a text that writes a number**, with something behind it that is no digit. -/
theorem atoi_intOf {w : Nat} {t r : List Byte} {z : Int} (h : intOf t = some z) (hr : r.takeWhile isDigit = []) :
    atoi w (t ++ r) = toInt w z := by
  unfold intOf at h
  split at h
  · obtain ⟨n, hn, rfl⟩ := Option.map_eq_some_iff.1 h
    have hread := (natOf_some hn hr).2
    exact congrArg (fun m : Nat => toInt w (-(m : Int))) hread
  · obtain ⟨n, hn, rfl⟩ := Option.map_eq_some_iff.1 h
    have hread := (natOf_some hn hr).2
    exact congrArg (fun m : Nat => toInt w (m : Int)) hread
  · obtain ⟨n, hn, rfl⟩ := Option.map_eq_some_iff.1 h
    obtain ⟨⟨b, t', rfl, hb⟩, hread⟩ := natOf_some hn hr
    obtain ⟨hs, hminus, hplus⟩ := isSpace_of_isDigit hb
    rw [List.cons_append] at hread ⊢
    rw [atoi, List.dropWhile_cons, hs]
    simp only [Bool.false_eq_true, if_false]
    split
    · rename_i heq; cases heq; exact absurd rfl hminus
    · rename_i heq; cases heq; exact absurd rfl hplus
    · rw [hread]

/-- **Reading a written number** gives the number as an `int`. -/
theorem atoi_dec (w : Nat) (z : Int) : atoi w (dec z) = toInt w z := by
  rw [dec_eq]
  split
  · rename_i hz
    have htake : (digits z.natAbs).takeWhile isDigit = digits z.natAbs :=
      List.takeWhile_eq_self_iff.2 fun c hc => isDigit_of_mem_digits hc
    have habs : -(z.natAbs : Int) = z := by omega
    show toInt w (-(ofDigits ((digits z.natAbs).takeWhile isDigit) : Int)) = _
    rw [htake, ofDigits_digits, habs]
  · rename_i hz
    have habs : (z.natAbs : Int) = z := by omega
    rw [atoi_digits, habs]

/-! ## The width of a number -/

theorem ofDigits_lt (t : List Byte) (h : ∀ c ∈ t, isDigit c = true) : ofDigits t < 10 ^ t.length := by
  induction t using List.reverseRecOn with
  | nil => decide
  | append_singleton t c ih =>
    have hc : c.toNat ≤ 57 := by
      have := h c (by simp)
      simp only [isDigit, UInt8.le_iff_toNat_le, Bool.and_eq_true, decide_eq_true_eq] at this
      exact this.2
    have hlt := ih fun d hd => h d (by simp [hd])
    have hval : ofDigits (t ++ [c]) = 10 * ofDigits t + (c.toNat - 48) := by simp [ofDigits]
    rw [hval, List.length_append, List.length_singleton, Nat.pow_succ]
    omega

theorem digits_length_le {n k : Nat} (hk : 0 < k) : (digits n).length ≤ k ↔ n < 10 ^ k := by
  rw [digits, List.length_map]
  exact Nat.length_toDigits_le_iff (by decide) hk

/-- A number as an `int` has at most 31 bits, and is no larger than the number. -/
theorem toInt_bounds (w : Nat) (z : Int) : -2 ^ 31 ≤ toInt w z ∧ toInt w z < 2 ^ 31 ∧
    (z.natAbs < 2 ^ 31 → (toInt w z).natAbs ≤ z.natAbs ∧ (0 ≤ z → 0 ≤ toInt w z)) := by
  have h : (0 : Int) < 2 ^ (w - 1) := Int.pow_pos (by decide)
  unfold toInt
  omega

theorem dec_length_of_lt {z : Int} {k : Nat} (hk : 0 < k) (h : z.natAbs < 10 ^ k) :
    (dec z).length ≤ k + (if z < 0 then 1 else 0) := by
  have hlen := (digits_length_le hk).2 h
  rw [dec_eq]
  split
  · rw [List.length_cons]
    omega
  · omega

/-- The width of a number of at most `k` digits in a text of length `n`, as an `int`. -/
theorem dec_toInt_length (w : Nat) {z : Int} {k n : Nat} (hz : z.natAbs < 10 ^ k) (hk : k ≤ n) (hneg : z < 0 → k < n)
    (hn : 0 < n) : (dec (toInt w z)).length ≤ n + n / 10 := by
  obtain ⟨hlo, hhi, hsmall⟩ := toInt_bounds w z
  by_cases hlt : z.natAbs < 2 ^ 31
  · obtain ⟨habs, hsign⟩ := hsmall hlt
    by_cases hk0 : k = 0
    · subst hk0
      have hz0 : z = 0 := by omega
      rw [hz0, toInt_zero]
      have : (dec 0).length = 1 := by decide
      omega
    · have hlen := dec_length_of_lt (Nat.pos_of_ne_zero hk0) (habs.trans_lt hz)
      split at hlen <;> omega
  · -- at least ten digits, and an `int` has at most ten and a sign
    have hk10 : 10 ≤ k := by
      by_contra hk9
      have := Nat.pow_le_pow_right (show 0 < 10 by decide) (show k ≤ 9 by omega)
      omega
    have hlen := dec_length_of_lt (z := toInt w z) (k := 10) (by decide) (by omega)
    split at hlen <;> omega

/-- **The width of a number that was read from a text**: at most one more than the text, which then has ten
characters. -/
theorem dec_atoi_length (w : Nat) {t : List Byte} (hne : t ≠ []) :
    (dec (atoi w t)).length ≤ t.length + t.length / 10 := by
  have hn : 0 < t.length := List.length_pos_iff.2 hne
  have hdrop : (t.dropWhile isSpace).length ≤ t.length := (List.dropWhile_suffix _).length_le
  have hdigits (l : List Byte) : ofDigits (l.takeWhile isDigit) < 10 ^ (l.takeWhile isDigit).length ∧
      (l.takeWhile isDigit).length ≤ l.length :=
    ⟨ofDigits_lt _ fun c hc => List.mem_takeWhile_imp hc, (List.takeWhile_prefix _).length_le⟩
  unfold atoi
  split
  · rename_i r h
    obtain ⟨hlt, hle⟩ := hdigits r
    rw [h, List.length_cons] at hdrop
    exact dec_toInt_length w (k := (r.takeWhile isDigit).length) (by omega) (by omega) (fun _ => by omega) hn
  · rename_i r h
    obtain ⟨hlt, hle⟩ := hdigits r
    rw [h, List.length_cons] at hdrop
    exact dec_toInt_length w (k := (r.takeWhile isDigit).length) (by omega) (by omega) (fun _ => by omega) hn
  · obtain ⟨hlt, hle⟩ := hdigits (t.dropWhile isSpace)
    exact dec_toInt_length w (k := ((t.dropWhile isSpace).takeWhile isDigit).length) (by omega) (by omega)
      (fun _ => by omega) hn

end CStr
