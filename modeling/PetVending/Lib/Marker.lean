import Mathlib.Algebra.GroupWithZero.Nat
import Mathlib.Tactic.Common

/-!
# Place markers

A text with place markers `%1` to `%99`, also written `%L1` to `%L99`. `arg s a` has `a` for every marker of the lowest
number that `s` has.

- `marker_append`: behind a text, only a digit or an `L` can change its last marker;
- **`args_eq`**: `args`, one `arg` after the other, puts every text into its place when none brings in a marker as low
  as a place.
-/

namespace Marker

/-- One or two digits at the head of a text: their number, and how many there are. -/
def number : List Char → Option (Nat × Nat)
  | d :: e :: _ =>
    if d.isDigit then
      if e.isDigit then some (10 * (d.toNat - 48) + (e.toNat - 48), 2) else some (d.toNat - 48, 1)
    else none
  | [d] => if d.isDigit then some (d.toNat - 48, 1) else none
  | [] => none

/-- The place marker at the head of a text: its number, and its length. -/
def marker : List Char → Option (Nat × Nat)
  | [] => none
  | c :: cs =>
    if c = '%' then
      if cs.head? = some 'L' then (number cs.tail).map fun r => (r.1, r.2 + 2)
      else (number cs).map fun r => (r.1, r.2 + 1)
    else none

/-- The numbers of the place markers. -/
def markers : List Char → List Nat
  | [] => []
  | c :: cs => ((marker (c :: cs)).map Prod.fst).toList ++ markers cs

/-- `a` for the markers of number `n`, behind the next `k` characters, which are left out. -/
def fill (n : Nat) (a : List Char) : Nat → List Char → List Char
  | _, [] => []
  | k + 1, _ :: cs => fill n a k cs
  | 0, c :: cs =>
    match marker (c :: cs) with
    | none => c :: fill n a 0 cs
    | some (m, len) => if m = n then a ++ fill n a (len - 1) cs else c :: fill n a 0 cs

/-- `a` for the markers of the lowest number. -/
def arg (s a : List Char) : List Char :=
  match (markers s).min? with
  | none => s
  | some n => fill n a 0 s

/-- One `arg` after the other. -/
def args (s : List Char) (as : List (List Char)) : List Char := as.foldl arg s

example : args "a%1b%L2c%1".toList ["x".toList, "y".toList] = "axbycx".toList := by decide

/-! ## A text behind another -/

/-- A text that does not begin with a digit or an `L`: no marker of a text in front of it goes on in it. -/
def Stops (s : List Char) : Prop := ∀ c ∈ s.head?, c.isDigit = false ∧ c ≠ 'L'

variable {u v a : List Char} {n : Nat}

theorem stops_nil : Stops [] := by
  intro c hc
  cases hc

theorem number_append (hv : Stops v) : number (u ++ v) = number u := by
  match u with
  | [] =>
    match v with
    | [] => rfl
    | [c] => simp [number, (hv c rfl).1]
    | c :: d :: v => simp [number, (hv c rfl).1]
  | [d] =>
    match v with
    | [] => rfl
    | c :: v => simp [number, (hv c rfl).1]
  | d :: e :: u => rfl

/-- **The marker of a text** is not changed by what stands behind it. -/
theorem marker_append (hv : Stops v) (hu : u ≠ []) : marker (u ++ v) = marker u := by
  cases u with
  | nil => exact absurd rfl hu
  | cons c u =>
    rw [List.cons_append, marker, marker]
    cases u with
    | nil =>
      have hhead : v.head? ≠ some 'L' := fun h => (hv 'L' h).2 rfl
      have hnumber : number v = none := number_append (u := []) hv
      rw [List.nil_append, if_neg hhead, hnumber]
      rfl
    | cons d u =>
      rw [number_append hv, List.cons_append, List.head?_cons, List.head?_cons, List.tail_cons, List.tail_cons,
        number_append hv]

theorem markers_append (hv : Stops v) : markers (u ++ v) = markers u ++ markers v := by
  induction u with
  | nil => rfl
  | cons c u ih =>
    rw [List.cons_append, markers, markers, ih, ← List.cons_append, marker_append hv (List.cons_ne_nil _ _),
      List.append_assoc]

/-! ## Texts without a marker -/

theorem marker_plain {c : Char} (hc : c ≠ '%') (v : List Char) : marker (c :: v) = none := if_neg hc

theorem markers_plain (hu : '%' ∉ u) : markers (u ++ v) = markers v := by
  induction u with
  | nil => rfl
  | cons c u ih =>
    obtain ⟨hc, hu⟩ := not_or.1 (fun h => hu (List.mem_cons.2 h))
    rw [List.cons_append, markers, marker_plain (Ne.symm hc), ih hu]
    rfl

/-! ## Filling a place -/

/-- The marker `%n`. -/
def place (n : Nat) : List Char := ['%', Nat.digitChar n]

/-- A text that has no marker of the number is left as it is. -/
theorem fill_none (hu : n ∉ markers u) : fill n a 0 u = u := by
  induction u with
  | nil => rfl
  | cons c u ih =>
    rw [markers, List.mem_append, not_or] at hu
    rw [fill, ih hu.2]
    cases hm : marker (c :: u) with
    | none => rfl
    | some r =>
      obtain ⟨m, len⟩ := r
      have hne : m ≠ n := by
        rintro rfl
        exact hu.1 (by simp [hm])
      exact if_neg hne

theorem stops_place (n : Nat) (v : List Char) : Stops (place n ++ v) := by
  intro c hc
  cases hc
  decide

theorem marker_place (hn : n < 10) (hv : Stops v) : marker (place n ++ v) = some (n, 2) := by
  have hall : ∀ n < 10, marker (place n) = some (n, 2) := by decide
  rw [marker_append hv (show place n ≠ [] from List.cons_ne_nil _ _)]
  exact hall n hn

theorem markers_place (hn : n < 10) (hv : Stops v) : markers (place n ++ v) = n :: markers v := by
  have hall : ∀ n < 10, markers (place n) = [n] := by decide
  rw [markers_append hv, hall n hn]
  rfl

/-- A marker in front of a text without one. -/
theorem fill_place (hn : n < 10) (hv : Stops v) (hnone : n ∉ markers v) : fill n a 0 (place n ++ v) = a ++ v := by
  have hm := marker_place hn hv
  have hdigit : Nat.digitChar n ≠ '%' := by
    have hall : ∀ n < 10, Nat.digitChar n ≠ '%' := by decide
    exact hall n hn
  rw [place, List.cons_append] at hm ⊢
  rw [fill, hm]
  simp only [if_true, List.cons_append, List.nil_append, fill, fill_none hnone]

theorem fill_append (hv : Stops v) (hu : n ∉ markers u) : fill n a 0 (u ++ v) = u ++ fill n a 0 v := by
  induction u with
  | nil => rfl
  | cons c u ih =>
    rw [markers, List.mem_append, not_or] at hu
    have hm := marker_append hv (List.cons_ne_nil c u)
    rw [List.cons_append] at hm ⊢
    rw [fill, hm, ih hu.2]
    cases hm : marker (c :: u) with
    | none => rfl
    | some r =>
      obtain ⟨m, len⟩ := r
      have hne : m ≠ n := by
        rintro rfl
        exact hu.1 (by simp [hm])
      exact if_neg hne

/-- **`arg` fills the place of the lowest number.** -/
theorem arg_place (hn : n < 10) (hv : Stops v) (hu : ∀ m ∈ markers u, n < m) (hlow : ∀ m ∈ markers v, n < m) :
    arg (u ++ (place n ++ v)) a = u ++ (a ++ v) := by
  have hstops := stops_place n v
  have hmin : (markers (u ++ (place n ++ v))).min? = some n := by
    rw [markers_append hstops, markers_place hn hv, List.min?_eq_some_iff]
    refine ⟨by simp, fun m hm => ?_⟩
    rcases List.mem_append.1 hm with hm | hm
    · exact Nat.le_of_lt (hu m hm)
    · rcases List.mem_cons.1 hm with rfl | hm
      · exact Nat.le_refl _
      · exact Nat.le_of_lt (hlow m hm)
  rw [arg, hmin]
  simp only
  rw [fill_append hstops fun h => Nat.lt_irrefl n (hu n h), fill_place hn hv fun h => Nat.lt_irrefl n (hlow n h)]

/-! ## Filling the places of a template -/

/-- `@%n`, `@%(n+1)` and so on: `k` places. -/
def placesFrom : Nat → Nat → List Char
  | _, 0 => []
  | n, k + 1 => '@' :: (place n ++ placesFrom (n + 1) k)

theorem stops_placesFrom (n k : Nat) : Stops (placesFrom n k) := by
  cases k with
  | zero => exact stops_nil
  | succ k =>
    intro c hc
    cases hc
    decide

theorem mem_markers_placesFrom : ∀ {k n m : Nat}, n + k ≤ 10 → m ∈ markers (placesFrom n k) → n ≤ m
  | 0, _, _, _, hm => by cases hm
  | k + 1, n, m, hn, hm => by
    have hat : '%' ∉ ['@'] := by decide
    rw [placesFrom, ← List.singleton_append, markers_plain hat, markers_place (by omega) (stops_placesFrom _ _)] at hm
    rcases List.mem_cons.1 hm with rfl | hm
    · exact Nat.le_refl _
    · exact Nat.le_of_succ_le (mem_markers_placesFrom (by omega) hm)

/-- **The places of a template** are filled one after the other, each with its own text, where no text brings in a
marker that is as low as one of them. -/
theorem args_eq : ∀ (as : List (List Char)) {n : Nat} {u : List Char}, n + as.length ≤ 10 →
    (∀ m ∈ markers u, n + as.length ≤ m) → (∀ a ∈ as, ∀ m ∈ markers a, n + as.length ≤ m) →
    args (u ++ placesFrom n as.length) as = u ++ as.flatMap ('@' :: ·)
  | [], _, _, _, _, _ => rfl
  | a :: as, n, u, hn, hu, has => by
    rw [List.length_cons] at hn hu has
    obtain ⟨ha, has⟩ := List.forall_mem_cons.1 has
    have hat : '%' ∉ ['@'] := by decide
    have hstop : ∀ s : List Char, Stops ('@' :: s) := by
      intro s c hc
      cases hc
      decide
    have hmarkers : markers (u ++ ['@']) = markers u := by rw [markers_append (hstop _)]; exact List.append_nil _
    have hstep : arg (u ++ placesFrom n (as.length + 1)) a = (u ++ ('@' :: a)) ++ placesFrom (n + 1) as.length := by
      have hfill := arg_place (u := u ++ ['@']) (a := a) (show n < 10 by omega) (stops_placesFrom (n + 1) as.length)
        (fun m hm => by rw [hmarkers] at hm; have := hu m hm; omega)
        (fun m hm => mem_markers_placesFrom (by omega) hm)
      simpa [placesFrom] using hfill
    have hnext : ∀ m ∈ markers (u ++ ('@' :: a)), n + 1 + as.length ≤ m := by
      intro m hm
      rw [markers_append (hstop a), ← List.singleton_append, markers_plain hat] at hm
      rcases List.mem_append.1 hm with hm | hm
      · have := hu m hm
        omega
      · have := ha m hm
        omega
    have hrest := args_eq as (n := n + 1) (by omega) hnext fun b hb m hm => by have := has b hb m hm; omega
    rw [List.length_cons, args, List.foldl_cons, hstep]
    refine hrest.trans ?_
    simp

end Marker
