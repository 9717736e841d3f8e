import Mathlib.Data.Fin.Tuple.Sort
import Mathlib.Tactic.Common

/-!
# The entry at a position of a sorted tuple

A permutation `σ` sorts a tuple `f` when `f ∘ σ` is monotone; equal entries may come in any order.

- `Ranked f r b`: at most `r` entries are smaller than `f b`, and more than `r` are at most as large;
- `ranked_of_monotone`: this holds of what stands at position `r` behind sorting;
- `sorted_at_iff`: every sorting puts `c` at position `r` iff exactly `r` entries are smaller than `f c` and no other is
  equal to it.
-/

namespace Rank

open Finset

variable {α : Type*} [LinearOrder α] {n : Nat} {f : Fin n → α} {σ : Equiv.Perm (Fin n)} {r c : Fin n}

/-- `f b` is the entry of `f` with `r` entries before it. -/
def Ranked (f : Fin n → α) (r b : Fin n) : Prop := #{j | f j < f b} ≤ r ∧ r < #{j | f j ≤ f b}

/-- `f c` has no equal, and `r` entries before it. -/
def Settled (f : Fin n → α) (r c : Fin n) : Prop := (∀ j, f j = f c → j = c) ∧ #{j | f j < f c} = r

instance (f : Fin n → α) (r b : Fin n) : Decidable (Ranked f r b) :=
  inferInstanceAs (Decidable (#{j | f j < f b} ≤ r ∧ r < #{j | f j ≤ f b}))

instance (f : Fin n → α) (r c : Fin n) : Decidable (Settled f r c) :=
  inferInstanceAs (Decidable ((∀ j, f j = f c → j = c) ∧ #{j | f j < f c} = r))

/-- Counting in another order. -/
theorem card_perm (p : Fin n → Prop) [DecidablePred p] (σ : Equiv.Perm (Fin n)) : #{i | p (σ i)} = #{j | p j} :=
  card_equiv σ (by simp)

theorem lt_card_le_iff (h : Monotone (f ∘ σ)) (a : α) : r < #{j | f j ≤ a} ↔ f (σ r) ≤ a := by
  rw [← card_perm (fun j => f j ≤ a) σ]
  exact Tuple.lt_card_le_iff_apply_le_of_monotone h

theorem lt_card_lt_iff (h : Monotone (f ∘ σ)) (a : α) : r < #{j | f j < a} ↔ f (σ r) < a := by
  rw [← card_perm (fun j => f j < a) σ]
  exact Tuple.lt_card_lt_iff_apply_lt_of_monotone h

/-- **What stands at a position** behind sorting. -/
theorem ranked_of_monotone (h : Monotone (f ∘ σ)) (r : Fin n) : Ranked f r (σ r) :=
  ⟨not_lt.1 fun hlt => lt_irrefl _ ((lt_card_lt_iff h _).1 hlt), (lt_card_le_iff h _).2 le_rfl⟩

/-- Entries that are equal may be swapped. -/
theorem comp_swap {β : Type*} {g : Fin n → β} {i j : Fin n} (h : g (σ i) = g (σ j)) :
    g ∘ (σ * Equiv.swap i j) = g ∘ σ := by
  funext k
  show g (σ (Equiv.swap i j k)) = g (σ k)
  rcases eq_or_ne k i with rfl | hi
  · rw [Equiv.swap_apply_left, h]
  · rcases eq_or_ne k j with rfl | hj
    · rw [Equiv.swap_apply_right, h]
    · rw [Equiv.swap_apply_of_ne_of_ne hi hj]

/-- **What every sorting puts at a position.** -/
theorem sorted_at_iff (f : Fin n → α) (r c : Fin n) :
    (∀ σ : Equiv.Perm (Fin n), Monotone (f ∘ σ) → σ r = c) ↔ Settled f r c := by
  constructor
  · intro h
    have hsort := Tuple.monotone_sort f
    have hc : Tuple.sort f r = c := h _ hsort
    have hone : ∀ j, f j = f c → j = c := by
      intro j hj
      -- a sorting with `j` in the place of `c`
      have htie : f (Tuple.sort f ((Tuple.sort f).symm j)) = f (Tuple.sort f r) := by
        rw [Equiv.apply_symm_apply, hc, hj]
      have hswap := h (Tuple.sort f * Equiv.swap ((Tuple.sort f).symm j) r) (by rw [comp_swap htie]; exact hsort)
      rwa [Equiv.Perm.mul_apply, Equiv.swap_apply_right, Equiv.apply_symm_apply] at hswap
    refine ⟨hone, ?_⟩
    have hranked : Ranked f r c := hc ▸ ranked_of_monotone hsort r
    have hinsert : (univ.filter fun j => f j ≤ f c) = insert c (univ.filter fun j => f j < f c) := by
      ext j
      simp only [mem_filter_univ, mem_insert]
      exact ⟨fun hj => (eq_or_lt_of_le hj).imp (hone j) id, fun hj => hj.elim (fun h => h ▸ le_rfl) le_of_lt⟩
    obtain ⟨hle, hlt⟩ := hranked
    rw [hinsert, card_insert_of_notMem (by simp)] at hlt
    omega
  · rintro ⟨hone, hcard⟩ σ hσ
    have hsub : (univ.filter fun j => f j < f c) ⊂ univ.filter fun j => f j ≤ f c := by
      refine (ssubset_iff_of_subset fun j hj => ?_).2 ⟨c, by simp, by simp⟩
      rw [mem_filter_univ] at hj ⊢
      exact hj.le
    have hle : f (σ r) ≤ f c := (lt_card_le_iff hσ _).1 (hcard ▸ card_lt_card hsub)
    have hnlt : ¬ f (σ r) < f c := fun hlt => absurd ((lt_card_lt_iff hσ _).2 hlt) (by omega)
    exact hone _ (hle.antisymm (not_lt.1 hnlt))

section Congr

variable {β : Type*} [LinearOrder β] {g : Fin n → β} (h : ∀ i j, f i < f j ↔ g i < g j)

include h

/-- The ranks are the same for entries that are ordered alike. -/
theorem ranked_congr (r b : Fin n) : Ranked f r b ↔ Ranked g r b := by
  have hle (i j : Fin n) : f i ≤ f j ↔ g i ≤ g j := by rw [← not_lt, ← not_lt, h]
  simp only [Ranked, h, hle]

theorem settled_congr (r c : Fin n) : Settled f r c ↔ Settled g r c := by
  have heq (i j : Fin n) : f i = f j ↔ g i = g j := by
    rw [le_antisymm_iff, le_antisymm_iff, ← not_lt, ← not_lt, ← not_lt, ← not_lt, h, h]
  simp only [Settled, h, heq]

end Congr

end Rank
