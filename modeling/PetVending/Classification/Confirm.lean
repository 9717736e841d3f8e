import PetVending.Lib.Rank
import PetVending.Lib.Strtok
import Mathlib.Algebra.BigOperators.Fin
import Mathlib.Algebra.Order.BigOperators.Ring.Finset
import Mathlib.Analysis.Real.Sqrt
import Mathlib.Data.Fin.VecNotation
import Mathlib.Tactic.FinCases
import Mathlib.Tactic.NormNum

/-!
# Confirming a breed (`infer_tflite.py`)

Five predictions make up a window. The classes are ranked by the standard deviation of their probabilities over the
window, and the breed that is sent is that of the second smallest one.

- `Argsort`: what is assumed of `np.argsort`, an ascending order; equal deviations may come in any order;
- `detect`: what the loop sends for a sequence of predictions; it takes them window by window (`detect_eq`);
- **`confirmed_breed`**: the breed sent for a window has the second smallest deviation; it is that of `c` for every
  `Argsort` iff exactly one other class has a smaller deviation than `c`, and the other two have larger ones.
-/

namespace PetVending.Classification

open CStr Rank

/-! ## The ranking -/

/-- `predictions[0]`: the probabilities of the four classes. -/
abbrev Prediction := Fin 4 → ℚ

/-- `prediction_history` -/
abbrev Window := Fin 5 → Prediction

/-- `class_names` -/
def className : Fin 4 → String := ![ "CHL", "DRI", "LAB", "TER"]

def mean (w : Window) (i : Fin 4) : ℚ := (∑ t, w t i) / 5

/-- The square of `np.std(prediction_history, axis=0)`. -/
def variance (w : Window) (i : Fin 4) : ℚ := (∑ t, (w t i - mean w i) ^ 2) / 5

/-- `np.std(prediction_history, axis=0)` -/
noncomputable def std (w : Window) (i : Fin 4) : ℝ := √(variance w i)

/-- `np.argsort`: some permutation that puts the entries in ascending order. -/
structure Argsort where
  order : (Fin 4 → ℚ) → Equiv.Perm (Fin 4)
  sorted : ∀ f, Monotone (f ∘ order f)

/-- A sort that keeps the order of equal entries. -/
def argsort₀ : Argsort := ⟨Tuple.sort, Tuple.monotone_sort⟩

/-- `sorted_indices[1]`. The deviations are sorted by their squares, which gives the same orders (`std_lt_iff`). -/
def secondBreedIndex (A : Argsort) (w : Window) : Fin 4 := A.order (variance w) 1

/-- `send_stop_detection_command()` and `send_confirmed_breed(class_names[b])`: ports and bytes. -/
def sends (b : Fin 4) : List (Nat × List Byte) :=
  [(5000, bytes "STOP"), (7000, bytes "[KJD_QT]BREED@" ++ bytes (className b))]

/-! ## The loop -/

/-- `count_threshold` -/
def countThreshold : Nat := 5

/-- `prediction_history` and `prediction_count` -/
structure Infer where
  predictionHistory : Window
  predictionCount : Nat

def infer₀ : Infer := ⟨fun _ _ => 0, 0⟩

/-- A round of the loop that has come to a prediction. -/
def step (A : Argsort) (s : Infer) (p : Prediction) : Infer × Option (List (Nat × List Byte)) :=
  let t : Infer := ⟨Function.update s.predictionHistory (Fin.ofNat 5 s.predictionCount) p, s.predictionCount + 1⟩
  if countThreshold ≤ t.predictionCount then (infer₀, some (sends (secondBreedIndex A t.predictionHistory)))
  else (t, none)

/-- What the loop sends. -/
def detect (A : Argsort) : Infer → List Prediction → List (List (Nat × List Byte))
  | _, [] => []
  | s, p :: ps => (step A s p).2.toList ++ detect A (step A s p).1 ps

/-- The complete windows of a sequence of predictions. -/
def windows : List Prediction → List Window
  | a :: b :: c :: d :: e :: ps => ![a, b, c, d, e] :: windows ps
  | _ => []

/-- Five predictions are a window. -/
theorem detect_five (A : Argsort) (a b c d e : Prediction) (ps : List Prediction) :
    detect A infer₀ (a :: b :: c :: d :: e :: ps) =
      sends (secondBreedIndex A ![a, b, c, d, e]) :: detect A infer₀ ps := by
  have hwindow :
      Function.update (Function.update (Function.update (Function.update (Function.update
        infer₀.predictionHistory 0 a) 1 b) 2 c) 3 d) 4 e = ![a, b, c, d, e] := by
    funext t
    fin_cases t <;> rfl
  simp only [detect, step, infer₀]
  rw [← hwindow]
  rfl

/-- **The loop takes the predictions window by window.** -/
theorem detect_eq (A : Argsort) (ps : List Prediction) :
    detect A infer₀ ps = (windows ps).map fun w => sends (secondBreedIndex A w) := by
  induction ps using windows.induct with
  | case1 a b c d e ps ih => rw [detect_five, ih, windows, List.map_cons]
  | case2 ps h =>
    match ps, h with
    | [], _ => rfl
    | [_], _ => rfl
    | [_, _], _ => rfl
    | [_, _, _], _ => rfl
    | [_, _, _, _], _ => rfl
    | a :: b :: c :: d :: e :: ps, h => exact absurd rfl (h a b c d e ps)

/-- One window on its own. -/
theorem windows_ofFn (w : Window) : windows (List.ofFn w) = [w] := by
  have hw : ![w 0, w 1, w 2, w 3, w 4] = w := by
    funext t
    fin_cases t <;> rfl
  have hlist : List.ofFn w = [w 0, w 1, w 2, w 3, w 4] := rfl
  have hone : windows [w 0, w 1, w 2, w 3, w 4] = [![w 0, w 1, w 2, w 3, w 4]] := rfl
  rw [hlist, hone, hw]

/-! ## The breed of a window -/

theorem variance_nonneg (w : Window) (i : Fin 4) : 0 ≤ variance w i :=
  div_nonneg (Finset.sum_nonneg fun _ _ => sq_nonneg _) (by norm_num)

/-- **Deviations are ordered like their squares.** -/
theorem std_lt_iff (w : Window) (i j : Fin 4) : variance w i < variance w j ↔ std w i < std w j := by
  rw [std, std, Real.sqrt_lt_sqrt_iff (by exact_mod_cast variance_nonneg w i), Rat.cast_lt]

theorem sends_inj : ∀ b c : Fin 4, sends b = sends c → b = c := by decide

/-- **The breed that is sent** for a window has the second smallest standard deviation. It is the breed of `c`, however
equal deviations are sorted, iff exactly one other class has a smaller deviation than `c`, and no other has the same. -/
theorem confirmed_breed {ps : List Prediction} {k : Nat} {w : Window} (h : (windows ps)[k]? = some w) :
    (∀ A : Argsort, ∃ b, (detect A infer₀ ps)[k]? = some (sends b) ∧ Ranked (std w) 1 b) ∧
      ∀ c, (∀ A : Argsort, (detect A infer₀ ps)[k]? = some (sends c)) ↔ Settled (std w) 1 c := by
  have hsent (A : Argsort) : (detect A infer₀ ps)[k]? = some (sends (secondBreedIndex A w)) := by
    rw [detect_eq, List.getElem?_map, h, Option.map_some]
  refine ⟨fun A => ⟨_, hsent A, ?_⟩, fun c => ?_⟩
  · exact (ranked_congr (std_lt_iff w) 1 _).1 (ranked_of_monotone (A.sorted (variance w)) 1)
  · rw [← settled_congr (std_lt_iff w), ← sorted_at_iff]
    constructor
    · intro hall σ hσ
      -- an `argsort` that sorts these deviations by `σ`
      let A : Argsort :=
        { order := fun f => if f = variance w then σ else Tuple.sort f
          sorted := fun f => by
            split
            · rename_i hf
              rw [hf]
              exact hσ
            · exact Tuple.monotone_sort f }
      have hA : secondBreedIndex A w = σ 1 := by
        show (if variance w = variance w then σ else Tuple.sort (variance w)) 1 = σ 1
        rw [if_pos rfl]
      have heq := (hsent A).symm.trans (hall A)
      rw [hA, Option.some.injEq] at heq
      exact sends_inj _ _ heq
    · intro hall A
      rw [hsent A, secondBreedIndex, hall _ (A.sorted (variance w))]

/-- The class `c` has the highest probability, each time. -/
def Dominant (w : Window) (c : Fin 4) : Prop := ∀ t j, j ≠ c → w t j < w t c

instance (w : Window) (c : Fin 4) : Decidable (Dominant w c) :=
  inferInstanceAs (Decidable (∀ t j, j ≠ c → w t j < w t c))

/-- Five predictions for a Labrador; only the terrier's probability varies less. -/
def labWindow : Window :=
  ![![1 / 10, 2 / 10, 6 / 10, 1 / 10], ![2 / 10, 1 / 10, 6 / 10, 1 / 10], ![1 / 10, 2 / 10, 6 / 10, 1 / 10],
    ![2 / 10, 1 / 10, 6 / 10, 1 / 10], ![2 / 10, 2 / 10, 5 / 10, 1 / 10]]

theorem confirmed_lab : (detect argsort₀ infer₀ (List.ofFn labWindow))[0]? = some (sends 2) := by
  have hwindow : (windows (List.ofFn labWindow))[0]? = some labWindow := by rw [windows_ofFn]; rfl
  have hsettled : Settled (variance labWindow) 1 2 := by decide +kernel
  exact ((confirmed_breed hwindow).2 2).2 ((settled_congr (std_lt_iff labWindow) 1 2).1 hsettled) argsort₀

/-- Five predictions for a Labrador, always with the same probability. -/
def steadyWindow : Window :=
  ![![1 / 10, 1 / 10, 6 / 10, 2 / 10], ![1 / 10, 2 / 10, 6 / 10, 1 / 10], ![2 / 10, 1 / 10, 6 / 10, 1 / 10],
    ![1 / 10, 1 / 10, 6 / 10, 2 / 10], ![1 / 10, 1 / 10, 6 / 10, 2 / 10]]

/-- The steadiest class is never sent. -/
theorem steady_breed_not_sent : ¬ ∀ (A : Argsort) (ps : List Prediction) (k : Nat) (w : Window) (c : Fin 4),
    (windows ps)[k]? = some w → Dominant w c → (detect A infer₀ ps)[k]? = some (sends c) := by
  intro h
  have hsent := h argsort₀ (List.ofFn steadyWindow) 0 steadyWindow 2 (by rw [windows_ofFn]; rfl) (by decide +kernel)
  rw [detect_eq, windows_ofFn] at hsent
  have hsecond : secondBreedIndex argsort₀ steadyWindow = 2 := sends_inj _ _ (Option.some.inj hsent)
  have hranked := ranked_of_monotone (argsort₀.sorted (variance steadyWindow)) 1
  rw [← secondBreedIndex, hsecond] at hranked
  revert hranked
  decide +kernel

end PetVending.Classification
