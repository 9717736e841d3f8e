import Mathlib.Data.Int.ModEq
import Mathlib.Data.List.Basic
import Mathlib.Logic.Function.Basic

/-!
# Rings of cells

- `window f n i k`: the `k` cells from cell `i` on, around a ring of `n` cells. A write behind the window or in front of
  it makes it longer (`window_back`, `window_front`);
- `cell`: the cells of a store of bytes; `memcpy`, `load`: a copy into the store and a read, which must lie in it. A
  copy to one cell is an update of the cells (`cell_memcpy`).
-/

namespace Ring

variable {α : Type*}

/-! ## Windows -/

/-- The `k` cells from cell `i` on, around a ring of `n` cells. -/
def window (f : Nat → α) (n : Nat) : Nat → Nat → List α
  | _, 0 => []
  | i, k + 1 => f (i % n) :: window f n (i + 1) k

variable {f : Nat → α} {n i k : Nat}

/-- Only the place in the ring matters. -/
theorem window_congr : ∀ {i j : Nat} (k : Nat), i % n = j % n → window f n i k = window f n j k
  | _, _, 0, _ => rfl
  | i, j, k + 1, h => by
    rw [window, window, h, window_congr k ((Nat.ModEq.add_right 1 h : (i + 1) % n = (j + 1) % n))]

/-- A longer window has one more cell behind it. -/
theorem window_succ : ∀ (i k : Nat), window f n i (k + 1) = window f n i k ++ [f ((i + k) % n)]
  | _, 0 => rfl
  | i, k + 1 => by
    rw [window, window_succ (i + 1) k, window, List.cons_append, Nat.add_assoc, Nat.add_comm 1 k]

/-- Writing a cell outside the window. -/
theorem window_update {j : Nat} (x : α) : ∀ {i k : Nat}, i + k ≤ j → j < i + n →
    window (Function.update f (j % n) x) n i k = window f n i k
  | _, 0, _, _ => rfl
  | i, k + 1, hk, hn => by
    have hne : i % n ≠ j % n := by
      intro h
      have hdvd := (Nat.modEq_iff_dvd' (by omega)).1 h
      have := Nat.le_of_dvd (by omega) hdvd
      omega
    rw [window, window, Function.update_of_ne hne, window_update x (by omega) (by omega)]

/-- **Writing the cell behind the window.** -/
theorem window_back (x : α) (h : k < n) :
    window (Function.update f ((i + k) % n) x) n i (k + 1) = window f n i k ++ [x] := by
  rw [window_succ, window_update x le_rfl (by omega), Function.update_self]

/-- **Writing the cell in front of the window.** -/
theorem window_front (x : α) (h : k < n) :
    window (Function.update f (i % n) x) n i (k + 1) = x :: window f n (i + 1) k := by
  rw [window, Function.update_self]
  congr 1
  -- the cell in front is also the one that is `n` cells further
  rw [← Nat.add_mod_right i n]
  exact window_update x (by omega) (by omega)

/-! ## Cells of a store -/

/-- Cell `k` of a store of cells of `size` bytes. -/
def cell (size : Nat) (mem : List α) (k : Nat) : List α := (mem.drop (k * size)).take size

/-- `memcpy` to the address `p` of the store, if the bytes lie in it. -/
def memcpy (mem : List α) (p : Int) (x : List α) : Option (List α) :=
  if 0 ≤ p ∧ p + x.length ≤ mem.length then some (mem.take p.toNat ++ x ++ mem.drop (p.toNat + x.length)) else none

/-- A read of `size` bytes from the address `p`, if they lie in the store. -/
def load (mem : List α) (p : Int) (size : Nat) : Option (List α) :=
  if 0 ≤ p ∧ p + size ≤ mem.length then some ((mem.drop p.toNat).take size) else none

/-- A read of one cell. -/
theorem load_cell {size : Nat} {mem : List α} (hmem : mem.length = n * size) (hi : i < n) :
    load mem (i * size : Nat) size = some (cell size mem i) := by
  have hin : (i + 1) * size ≤ n * size := Nat.mul_le_mul_right size hi
  rw [Nat.add_mul, Nat.one_mul] at hin
  exact if_pos ⟨by omega, by omega⟩

theorem cell_getElem? (size : Nat) (mem : List α) (k m : Nat) :
    (cell size mem k)[m]? = if m < size then mem[k * size + m]? else none := by
  rw [cell, List.getElem?_take, List.getElem?_drop]

/-- The bytes behind a copy. -/
theorem copied_getElem? {mem x : List α} {p : Nat} (h : p + x.length ≤ mem.length) (m : Nat) :
    (mem.take p ++ x ++ mem.drop (p + x.length))[m]? = if p ≤ m ∧ m < p + x.length then x[m - p]? else mem[m]? := by
  have hp : (mem.take p).length = p := by rw [List.length_take]; omega
  rw [List.append_assoc, List.getElem?_append, hp]
  by_cases h1 : m < p
  · rw [if_pos h1, if_neg (by omega), List.getElem?_take, if_pos h1]
  rw [if_neg h1, List.getElem?_append]
  by_cases h2 : m - p < x.length
  · rw [if_pos h2, if_pos (by omega)]
  · rw [if_neg h2, if_neg (by omega), List.getElem?_drop]
    congr 1
    omega

/-- **A copy to one cell.** -/
theorem cell_memcpy {size : Nat} {mem x : List α} (hx : x.length = size) (hmem : mem.length = n * size) (hi : i < n) :
    ∃ mem', memcpy mem (i * size : Nat) x = some mem' ∧ mem'.length = n * size ∧
      cell size mem' = Function.update (cell size mem) i x := by
  have hin : (i + 1) * size ≤ n * size := Nat.mul_le_mul_right size hi
  rw [Nat.add_mul, Nat.one_mul] at hin
  have hle : i * size + x.length ≤ mem.length := by omega
  refine ⟨_, if_pos ⟨by omega, by omega⟩, ?_, ?_⟩
  · simp only [List.length_append, List.length_take, List.length_drop, Int.toNat_natCast]
    omega
  · funext k
    apply List.ext_getElem?
    intro m
    rw [cell_getElem?, Int.toNat_natCast, copied_getElem? hle]
    by_cases hk : k = i
    · subst hk
      rw [Function.update_self]
      by_cases hm : m < size
      · rw [if_pos hm, if_pos (by omega), Nat.add_sub_cancel_left]
      · rw [if_neg hm, List.getElem?_eq_none (by omega)]
    · rw [Function.update_of_ne hk, cell_getElem?]
      by_cases hm : m < size
      · rw [if_pos hm, if_pos hm, if_neg]
        -- cells do not overlap
        rcases Nat.lt_or_gt_of_ne hk with h | h
        · have := Nat.mul_le_mul_right size h
          rw [Nat.succ_mul] at this
          omega
        · have := Nat.mul_le_mul_right size h
          rw [Nat.succ_mul] at this
          omega
      · rw [if_neg hm, if_neg hm]

end Ring
