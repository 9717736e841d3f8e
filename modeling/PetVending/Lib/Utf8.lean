import Mathlib.Data.List.Basic
import Mathlib.Data.UInt
import Mathlib.Tactic.Common

/-!
# UTF-8 read as UTF-16, with replacement

`decode` turns bytes into UTF-16 code units the way a decoder does that never fails: a byte that starts no valid
sequence gives U+FFFD, and the bytes behind it are looked at again.

- an ASCII byte never takes part in a longer sequence, so decoding splits at it (`decode_append`, `decode_intercalate`),
  and an ASCII unit comes from an ASCII byte only (`mem_decode`);
- `decode_utf8Text`: the UTF-8 of a text is read as the text.
-/

namespace Utf8

/-! ## The decoder -/

/-- A continuation byte. -/
def isCont (b : UInt8) : Bool := 128 ≤ b.toNat && b.toNat < 192

/-- What a first byte says: how many continuation bytes follow, the least code point that needs them, and its own
bits. -/
def lead (b : UInt8) : Option (Nat × Nat × Nat) :=
  if b.toNat < 0x80 then some (0, 0, b.toNat)
  else if b.toNat ≤ 0xC1 then none
  else if b.toNat < 0xE0 then some (1, 0x80, b.toNat % 32)
  else if b.toNat < 0xF0 then some (2, 0x800, b.toNat % 16)
  else if b.toNat < 0xF5 then some (3, 0x10000, b.toNat % 8)
  else none

/-- The code point that starts with `b`, and how many of the bytes behind it belong to it. -/
def decodeHead (b : UInt8) (rest : List UInt8) : Option (Nat × Nat) :=
  match lead b with
  | none => none
  | some (k, least, top) =>
    let cs := rest.take k
    if cs.length = k ∧ cs.all isCont then
      let uc := cs.foldl (fun u c => u * 64 + c.toNat % 64) top
      -- overlong, a surrogate, or too large
      if uc < least ∨ 0xD800 ≤ uc ∧ uc < 0xE000 ∨ 0x10FFFF < uc then none else some (uc, k)
    else none

/-- A code point in UTF-16. -/
def utf16 (uc : Nat) : List UInt16 :=
  if uc < 0x10000 then [uc.toUInt16]
  else [(0xD800 + (uc - 0x10000) / 1024).toUInt16, (0xDC00 + (uc - 0x10000) % 1024).toUInt16]

/-- The units of the bytes behind the next `skip`, which belong to the code point before. -/
def decode : List UInt8 → Nat → List UInt16
  | [], _ => []
  | _ :: l, skip + 1 => decode l skip
  | b :: l, 0 =>
    match decodeHead b l with
    | some (uc, k) => utf16 uc ++ decode l k
    | none => 0xFFFD :: decode l 0

theorem utf16_ne_nil (uc : Nat) : utf16 uc ≠ [] := by
  unfold utf16
  split <;> exact List.cons_ne_nil _ _

/-- Bytes give units. -/
theorem decode_ne_nil {l : List UInt8} (h : l ≠ []) : decode l 0 ≠ [] := by
  obtain ⟨b, r, rfl⟩ := List.exists_cons_of_ne_nil h
  rw [decode]
  split
  · exact fun hnil => utf16_ne_nil _ (List.append_eq_nil_iff.1 hnil).1
  · exact List.cons_ne_nil _ _

/-! ## ASCII bytes -/

variable {a b : UInt8} {l r : List UInt8} {uc k : Nat}

theorem isCont_ascii (ha : a.toNat < 128) : isCont a = false := by
  simp [isCont]
  omega

theorem decodeHead_le (h : decodeHead b l = some (uc, k)) : k ≤ l.length := by
  unfold decodeHead at h
  split at h
  · cases h
  · dsimp only at h
    split at h
    · rename_i hc
      split at h
      · cases h
      · cases h
        have := hc.1
        rw [List.length_take] at this
        omega
    · cases h

theorem decodeHead_ascii (ha : a.toNat < 128) (l : List UInt8) : decodeHead a l = some (a.toNat, 0) := by
  rw [decodeHead, lead, if_pos ha]
  simp only [List.take_zero, List.length_nil, List.all_nil, and_self, if_true, List.foldl_nil]
  exact if_neg (by omega)

/-- Continuation bytes are not looked for behind an ASCII byte. -/
theorem decodeHead_append (ha : a.toNat < 128) (b : UInt8) (l r : List UInt8) :
    decodeHead b (l ++ a :: r) = decodeHead b l := by
  unfold decodeHead
  cases lead b with
  | none => rfl
  | some x =>
    obtain ⟨k, least, top⟩ := x
    dsimp only
    by_cases hk : k ≤ l.length
    · rw [List.take_append_of_le_length hk]
    · -- the ASCII byte is among the next `k`, or there are fewer
      rw [if_neg, if_neg]
      · rw [List.length_take]
        omega
      · rintro ⟨-, hall⟩
        have hmem : a ∈ (l ++ a :: r).take k := by
          rw [List.take_append, List.mem_append]
          refine .inr ?_
          obtain ⟨j, hj⟩ : ∃ j, k - l.length = j + 1 := ⟨k - l.length - 1, by omega⟩
          rw [hj, List.take_succ_cons]
          exact List.mem_cons_self
        have := List.all_eq_true.1 hall a hmem
        rw [isCont_ascii ha] at this
        cases this

theorem decode_ascii (ha : a.toNat < 128) (l : List UInt8) : decode (a :: l) 0 = a.toNat.toUInt16 :: decode l 0 := by
  rw [decode, decodeHead_ascii ha]
  simp only [utf16, if_pos (show a.toNat < 0x10000 by omega)]
  rfl

theorem decode_append_skip (ha : a.toNat < 128) (r : List UInt8) : ∀ (l : List UInt8) (skip : Nat), skip ≤ l.length →
    decode (l ++ a :: r) skip = decode l skip ++ a.toNat.toUInt16 :: decode r 0
  | [], 0, _ => decode_ascii ha r
  | _ :: l, skip + 1, h => decode_append_skip ha r l skip (by simpa using h)
  | b :: l, 0, _ => by
    rw [List.cons_append, decode, decode, decodeHead_append ha]
    cases hb : decodeHead b l with
    | none => simp only [decode_append_skip ha r l 0 (Nat.zero_le _), List.cons_append]
    | some x =>
      obtain ⟨uc, k⟩ := x
      simp only [decode_append_skip ha r l k (decodeHead_le hb), List.append_assoc]

/-- **Decoding splits at an ASCII byte.** -/
theorem decode_append (ha : a.toNat < 128) (l r : List UInt8) :
    decode (l ++ a :: r) 0 = decode l 0 ++ a.toNat.toUInt16 :: decode r 0 :=
  decode_append_skip ha r l 0 (Nat.zero_le _)

/-- Texts joined by an ASCII byte are decoded one by one. -/
theorem decode_intercalate (ha : a.toNat < 128) : ∀ ws : List (List UInt8),
    decode ([a].intercalate ws) 0 = [a.toNat.toUInt16].intercalate (ws.map (decode · 0))
  | [] => rfl
  | [w] => by simp
  | w :: v :: ws => by
    rw [List.intercalate_cons_cons, List.append_assoc, List.singleton_append, decode_append ha,
      decode_intercalate ha (v :: ws)]
    simp

/-! ## ASCII units -/

theorem lead_le {least top : Nat} (h : lead b = some (k, least, top)) (hb : ¬ b.toNat < 128) : 128 ≤ least := by
  unfold lead at h
  rw [if_neg hb] at h
  split at h
  · cases h
  · split at h
    · cases h; exact le_rfl
    · split at h
      · cases h; decide
      · split at h <;> cases h
        decide

/-- What is read is the ASCII byte itself, or a code point beyond ASCII. -/
theorem decodeHead_spec (h : decodeHead b l = some (uc, k)) :
    b.toNat < 128 ∧ uc = b.toNat ∨ 128 ≤ uc ∧ uc ≤ 0x10FFFF := by
  by_cases hb : b.toNat < 128
  · rw [decodeHead_ascii hb] at h
    cases h
    exact .inl ⟨hb, rfl⟩
  · refine .inr ?_
    unfold decodeHead at h
    split at h
    · cases h
    · rename_i hl
      have hleast := lead_le hl hb
      dsimp only at h
      split at h
      · split at h
        · cases h
        · rename_i hu
          cases h
          omega
      · cases h

/-- The units of a code point beyond ASCII are beyond ASCII. -/
theorem le_of_mem_utf16 {u : UInt16} (huc : 128 ≤ uc) (hle : uc ≤ 0x10FFFF) (h : u ∈ utf16 uc) : 128 ≤ u.toNat := by
  unfold utf16 at h
  split at h
  · rw [List.mem_singleton.1 h, Nat.toUInt16, UInt16.toNat_ofNat']
    omega
  · rcases List.mem_cons.1 h with rfl | h
    · rw [Nat.toUInt16, UInt16.toNat_ofNat']
      omega
    · rw [List.mem_singleton.1 h, Nat.toUInt16, UInt16.toNat_ofNat']
      omega

/-- **An ASCII unit comes from an ASCII byte.** -/
theorem mem_decode {u : UInt16} (hu : u.toNat < 128) : ∀ (l : List UInt8) (skip : Nat), u ∈ decode l skip →
    ∃ b ∈ l, b.toNat = u.toNat
  | [], _, h => by cases h
  | _ :: l, skip + 1, h => by
    obtain ⟨b, hb, he⟩ := mem_decode hu l skip h
    exact ⟨b, List.mem_cons_of_mem _ hb, he⟩
  | b :: l, 0, h => by
    rw [decode] at h
    cases hd : decodeHead b l with
    | none =>
      rw [hd] at h
      rcases List.mem_cons.1 h with rfl | h
      · exact absurd hu (by decide)
      · obtain ⟨b', hb', he⟩ := mem_decode hu l 0 h
        exact ⟨b', List.mem_cons_of_mem _ hb', he⟩
    | some x =>
      obtain ⟨uc, k⟩ := x
      rw [hd] at h
      rcases List.mem_append.1 h with h | h
      · rcases decodeHead_spec hd with ⟨hb, rfl⟩ | ⟨hge, hle⟩
        · rw [utf16, if_pos (by omega)] at h
          rw [List.mem_singleton.1 h]
          exact ⟨b, List.mem_cons_self, by rw [Nat.toUInt16, UInt16.toNat_ofNat']; omega⟩
        · exact absurd hu (not_lt.2 (le_of_mem_utf16 hge hle h))
      · obtain ⟨b', hb', he⟩ := mem_decode hu l k h
        exact ⟨b', List.mem_cons_of_mem _ hb', he⟩

/-! ## Texts -/

/-- A code point in UTF-8. -/
def encode (uc : Nat) : List UInt8 :=
  if uc < 0x80 then [uc.toUInt8]
  else if uc < 0x800 then [(0xC0 + uc / 64).toUInt8, (0x80 + uc % 64).toUInt8]
  else if uc < 0x10000 then [(0xE0 + uc / 4096).toUInt8, (0x80 + uc / 64 % 64).toUInt8, (0x80 + uc % 64).toUInt8]
  else [(0xF0 + uc / 262144).toUInt8, (0x80 + uc / 4096 % 64).toUInt8, (0x80 + uc / 64 % 64).toUInt8,
    (0x80 + uc % 64).toUInt8]

theorem toNat_toUInt8 {m : Nat} (h : m < 256) : m.toUInt8.toNat = m := by
  rw [Nat.toUInt8, UInt8.toNat_ofNat']
  omega

theorem isCont_toUInt8 (m : Nat) : isCont (0x80 + m % 64).toUInt8 = true := by
  rw [isCont, toNat_toUInt8 (by omega)]
  simp
  omega

/-- A first byte and its continuation bytes. -/
theorem decodeHead_cont (cs : List UInt8) (least top : Nat) (hl : lead b = some (cs.length, least, top))
    (hc : cs.all isCont = true) (hf : cs.foldl (fun u c => u * 64 + c.toNat % 64) top = uc) (hle : least ≤ uc)
    (huc : uc < 0xD800 ∨ 0xE000 ≤ uc ∧ uc ≤ 0x10FFFF) (r : List UInt8) :
    decodeHead b (cs ++ r) = some (uc, cs.length) := by
  simp only [decodeHead, hl, List.take_left, hc, and_self, if_true, hf]
  exact if_neg (by omega)

/-- The head of an encoded code point. -/
theorem decodeHead_encode (huc : uc < 0xD800 ∨ 0xE000 ≤ uc ∧ uc ≤ 0x10FFFF) : ∃ b cs, encode uc = b :: cs ∧
    ∀ r, decodeHead b (cs ++ r) = some (uc, cs.length) := by
  unfold encode
  split
  · rename_i h
    refine ⟨_, [], rfl, fun r => decodeHead_cont [] 0 uc ?_ rfl rfl (Nat.zero_le _) huc r⟩
    rw [lead, toNat_toUInt8 (by omega), if_pos h]
    rfl
  · split
    · refine ⟨_, _, rfl, fun r => decodeHead_cont _ 0x80 (uc / 64) ?_ ?_ ?_ (by omega) huc r⟩
      · rw [lead, toNat_toUInt8 (by omega), if_neg (by omega), if_neg (by omega), if_pos (by omega)]
        simp only [Option.some.injEq, Prod.mk.injEq, List.length_cons, List.length_nil, true_and]
        omega
      · simp only [List.all_cons, isCont_toUInt8, List.all_nil, Bool.and_self]
      · simp only [List.foldl_cons, List.foldl_nil]
        rw [toNat_toUInt8 (by omega)]
        omega
    · split
      · refine ⟨_, _, rfl, fun r => decodeHead_cont _ 0x800 (uc / 4096) ?_ ?_ ?_ (by omega) huc r⟩
        · rw [lead, toNat_toUInt8 (by omega), if_neg (by omega), if_neg (by omega), if_neg (by omega),
            if_pos (by omega)]
          simp only [Option.some.injEq, Prod.mk.injEq, List.length_cons, List.length_nil, true_and]
          omega
        · simp only [List.all_cons, isCont_toUInt8, List.all_nil, Bool.and_self]
        · simp only [List.foldl_cons, List.foldl_nil]
          rw [toNat_toUInt8 (by omega), toNat_toUInt8 (by omega)]
          omega
      · refine ⟨_, _, rfl, fun r => decodeHead_cont _ 0x10000 (uc / 262144) ?_ ?_ ?_ (by omega) huc r⟩
        · rw [lead, toNat_toUInt8 (by omega), if_neg (by omega), if_neg (by omega), if_neg (by omega),
            if_neg (by omega), if_pos (by omega)]
          simp only [Option.some.injEq, Prod.mk.injEq, List.length_cons, List.length_nil, true_and]
          omega
        · simp only [List.all_cons, isCont_toUInt8, List.all_nil, Bool.and_self]
        · simp only [List.foldl_cons, List.foldl_nil]
          rw [toNat_toUInt8 (by omega), toNat_toUInt8 (by omega), toNat_toUInt8 (by omega)]
          omega

/-- The UTF-8 of a text. -/
def utf8Text (t : List Char) : List UInt8 := t.flatMap fun c => encode c.toNat

/-- The UTF-16 of a text. -/
def utf16Text (t : List Char) : List UInt16 := t.flatMap fun c => utf16 c.toNat

theorem char_valid (c : Char) : c.toNat < 0xD800 ∨ 0xE000 ≤ c.toNat ∧ c.toNat ≤ 0x10FFFF := by
  have h := c.valid
  simp only [UInt32.isValidChar, Nat.isValidChar] at h
  show c.val.toNat < 0xD800 ∨ 0xE000 ≤ c.val.toNat ∧ c.val.toNat ≤ 0x10FFFF
  omega

theorem decode_drop : ∀ (cs r : List UInt8), decode (cs ++ r) cs.length = decode r 0
  | [], _ => rfl
  | _ :: cs, r => decode_drop cs r

/-- **The UTF-8 of a text is read as the text.** -/
theorem decode_utf8Text : ∀ t : List Char, decode (utf8Text t) 0 = utf16Text t
  | [] => rfl
  | c :: t => by
    obtain ⟨b, cs, he, hd⟩ := decodeHead_encode (char_valid c)
    rw [utf8Text, List.flatMap_cons, he, List.cons_append, decode, hd, utf16Text, List.flatMap_cons]
    simp only
    rw [decode_drop]
    exact congrArg _ (decode_utf8Text t)

end Utf8
