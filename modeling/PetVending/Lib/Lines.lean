import Mathlib.Data.List.Basic
import Mathlib.Data.List.Count
import Mathlib.Tactic.Common

/-!
# Lines of a stream

A line ends with the terminator `e`, which belongs to it. What stands behind the last terminator is not a line yet.

- `lines e l`: the complete lines of `l`; there are as many as terminators (`lines_length`);
- `lines_flatten`: a stream that is made of lines and a rest without terminator has these lines.
-/

namespace Lines

variable {α : Type*} [DecidableEq α] {e : α}

/-- The complete lines, each with its terminator. -/
def lines (e : α) (l : List α) : List (List α) := (l.splitOn e).dropLast.map (· ++ [e])

/-- A line: its terminator stands at the end, and only there. -/
def IsLine (e : α) (w : List α) : Prop := ∃ u, w = u ++ [e] ∧ e ∉ u

theorem splitOn_length (e : α) (l : List α) : (l.splitOn e).length = l.count e + 1 := by
  induction l with
  | nil => rfl
  | cons c l ih =>
    rw [List.splitOn_cons_eq_if_modifyHead, List.count_cons]
    split
    · rw [List.length_cons, ih]
    · rw [List.length_modifyHead, ih, Nat.add_zero]

/-- A line for each terminator. -/
theorem lines_length (e : α) (l : List α) : (lines e l).length = l.count e := by
  rw [lines, List.length_map, List.length_dropLast, splitOn_length, Nat.add_sub_cancel]

/-- Without a terminator there is no line. -/
theorem lines_of_not_mem {l : List α} (h : e ∉ l) : lines e l = [] := by
  rw [lines, List.splitOn_eq_singleton h]
  rfl

/-- The first line, and the others. -/
theorem lines_cons {u : List α} (h : e ∉ u) (l : List α) : lines e (u ++ e :: l) = (u ++ [e]) :: lines e l := by
  rw [lines, List.splitOn_append_cons_self_of_not_mem h, List.dropLast_cons_of_ne_nil (List.splitOn_ne_nil e l)]
  rfl

/-- **The lines of a stream made of lines.** -/
theorem lines_flatten {ws : List (List α)} (hw : ∀ w ∈ ws, IsLine e w) {r : List α} (hr : e ∉ r) :
    lines e (ws.flatten ++ r) = ws := by
  induction ws with
  | nil => exact lines_of_not_mem hr
  | cons w ws ih =>
    obtain ⟨u, rfl, hu⟩ := hw w List.mem_cons_self
    rw [List.flatten_cons, List.append_assoc, List.append_assoc, List.singleton_append, lines_cons hu,
      ih fun w hw' => hw w (List.mem_cons_of_mem _ hw')]

end Lines
