import PetVending.Tracking.Stepper
import Mathlib.Data.List.Chain
import Mathlib.Logic.Function.Iterate

/-!
# The rotor of the stepper

The coils pull the rotor to the pattern that is written, so its position is known up to whole turns of the eight
patterns.

- `follow`: the rotor goes to the nearest position of a pattern; a slow enough path is followed exactly (`follow_path`);
- `Stepper.rotor`: where the patterns written so far leave the rotor, when pattern 0 of a first pass forward is position
  0 and pattern 7 is position -1. At a reversal the last pattern is written again, so a pass that changes the direction
  moves the rotor by 7 and not by 8;
- `Aligned`: what is lost at a reversal is what separates `8 * motor_steps` from the rotor behind a pass forward; every
  pass keeps it (`pass_aligned`);
- **`no_drift`**: so no run of calls loses more than one half-step, and `reset_motors` brings the rotor to 0 or -1.
-/

namespace PetVending.Tracking

/-! ## The rotor -/

/-- From `x` the rotor goes to the nearest position of pattern `k`. -/
def follow (x : Int) (k : Int) : Int := x + ((k - x + 3) % 8 - 3)

theorem follow_eq {x y : Int} (h : x - 3 ≤ y ∧ y ≤ x + 4) : follow x (y % 8) = y := by
  unfold follow
  omega

/-- **The rotor follows a path** that moves by at most three positions at a time. -/
theorem follow_path : ∀ (x : Int) (ys : List Int), (x :: ys).IsChain (fun y z => y - 3 ≤ z ∧ z ≤ y + 4) →
    (ys.map (· % 8)).foldl follow x = (x :: ys).getLast (List.cons_ne_nil _ _)
  | x, [], _ => rfl
  | x, y :: ys, h => by
    rw [List.isChain_cons_cons] at h
    rw [List.map_cons, List.foldl_cons, follow_eq h.1, List.getLast_cons_cons]
    exact follow_path y ys h.2

/-- The number of a pattern in `step_sequence`. -/
def patternIdx (p : List Nat) : Nat := stepSequence.idxOf p

/-- Two patterns are equal or neighbours in the cycle. -/
def Adjacent (p q : List Nat) : Prop :=
  patternIdx q = patternIdx p ∨ patternIdx q = (patternIdx p + 1) % 8 ∨ patternIdx p = (patternIdx q + 1) % 8

instance (p q : List Nat) : Decidable (Adjacent p q) := inferInstanceAs (Decidable (_ ∨ _))

/-- The position of the rotor, in half-steps. -/
def Stepper.rotor (s : Stepper) : Int := (s.outputs.map fun o => (patternIdx o.2 : Int)).foldl follow 0

/-- The direction of the last pass. -/
def Stepper.lastDirection (s : Stepper) : Option Direction := s.outputs.getLast?.map Prod.fst

/-! ## Passes -/

/-- One pass over the patterns, and its record. -/
def Stepper.pass (d : Direction) (s : Stepper) : Stepper :=
  ⟨s.outputs ++ d.sequence.map (d, ·), s.motorSteps + d.toInt⟩

theorem drive_append (d : Direction) : ∀ (l : List (List Nat)) (s : Stepper),
    drive d l none s = .ok { s with outputs := s.outputs ++ l.map (d, ·) }
  | [], s => by simp [drive]
  | p :: l, s => by simp [drive, drive_append d l, Stepper.output]

/-- A completed call is that many passes. -/
theorem stepMotor_pass (n : Nat) (d : Direction) (s : Stepper) :
    stepMotor n d none s = .ok ((Stepper.pass d)^[n] s) := by
  have hpasses : (Stepper.pass d)^[n] s =
      ⟨s.outputs ++ (List.replicate n d.sequence).flatten.map (d, ·), s.motorSteps + n * d.toInt⟩ := by
    induction n generalizing s with
    | zero => simp
    | succ n ih =>
      rw [Function.iterate_succ_apply, ih, Stepper.pass]
      simp only [List.replicate_succ, List.flatten_cons, List.map_append, List.append_assoc]
      congr 1
      push_cast
      ring
  rw [stepMotor, drive_append, hpasses]
  rfl

/-- The pattern a pass starts with. -/
def Direction.first : Direction → List Nat
  | .forward => [1, 0, 0, 1]
  | .reverse => [0, 0, 0, 1]

/-- The pattern a pass ends with. -/
def Direction.last : Direction → List Nat
  | .forward => [0, 0, 0, 1]
  | .reverse => [1, 0, 0, 1]

theorem pass_getLast? (s : Stepper) (d : Direction) : (s.pass d).outputs.getLast? = some (d, d.last) := by
  have hlast : (d.sequence.map (d, ·)).getLast? = some (d, d.last) := by cases d <;> rfl
  rw [Stepper.pass, List.getLast?_append, hlast, Option.some_or]

@[simp] theorem pass_lastDirection (s : Stepper) (d : Direction) : (s.pass d).lastDirection = some d := by
  rw [Stepper.lastDirection, pass_getLast?, Option.map_some]

/-! ## The half-step of a reversal -/

/-- How far the rotor is behind `8 * motor_steps`. -/
def lag (last : Option Direction) : Int := if last = some .forward then 1 else 0

/-- The patterns written so far make no jump, and the record is where the rotor is, up to the half-step of the last
pass. -/
structure Aligned (s : Stepper) : Prop where
  chain : s.outputs.IsChain fun o o' => Adjacent o.2 o'.2
  last : ∀ o ∈ s.outputs.getLast?, o.2 = o.1.last
  rotor : s.rotor = 8 * s.motorSteps - lag s.lastDirection

theorem aligned₀ : Aligned stepper₀ := ⟨by simp [stepper₀], by simp [stepper₀], rfl⟩

/-- The positions of a pass: the eight of its number, or back over the eight before them. -/
def path (d : Direction) (m : Int) : List Int :=
  match d with
  | .forward => [8 * m, 8 * m + 1, 8 * m + 2, 8 * m + 3, 8 * m + 4, 8 * m + 5, 8 * m + 6, 8 * m + 7]
  | .reverse => [8 * m - 1, 8 * m - 2, 8 * m - 3, 8 * m - 4, 8 * m - 5, 8 * m - 6, 8 * m - 7, 8 * m - 8]

theorem path_mod (d : Direction) (m : Int) :
    (path d m).map (· % 8) = d.sequence.map fun p => (patternIdx p : Int) := by
  cases d with
  | forward =>
    have hidx : (Direction.forward.sequence.map fun p => (patternIdx p : Int)) = [0, 1, 2, 3, 4, 5, 6, 7] := by decide
    rw [hidx]
    simp only [path, List.map_cons, List.map_nil, List.cons.injEq, and_true]
    omega
  | reverse =>
    have hidx : (Direction.reverse.sequence.map fun p => (patternIdx p : Int)) = [7, 6, 5, 4, 3, 2, 1, 0] := by decide
    rw [hidx]
    simp only [path, List.map_cons, List.map_nil, List.cons.injEq, and_true]
    omega

/-- What a pass does to the rotor. Where the last pass had the other direction, its last pattern is the first of this
one and the rotor stays. -/
theorem foldl_pass (d : Direction) (m : Int) (last : Option Direction) :
    (d.sequence.map fun p => (patternIdx p : Int)).foldl follow (8 * m - lag last) =
      8 * (m + d.toInt) - lag (some d) := by
  have hlag : lag last = 0 ∨ lag last = 1 := by
    unfold lag
    split
    · exact .inr rfl
    · exact .inl rfl
  rw [← path_mod d m, follow_path]
  · cases d with
    | forward =>
      show 8 * m + 7 = _
      simp only [lag, Direction.toInt, if_true]
      omega
    | reverse =>
      show 8 * m - 8 = _
      simp only [lag, Direction.toInt, reduceCtorEq, Option.some.injEq, if_false]
      omega
  · cases d <;> simp only [path, List.isChain_cons_cons, List.isChain_singleton, and_true] <;> omega

/-- **A pass keeps the alignment**, whatever the direction of the pass before it. -/
theorem pass_aligned {s : Stepper} (h : Aligned s) (d : Direction) : Aligned (s.pass d) := by
  refine ⟨?_, ?_, ?_⟩
  · refine List.isChain_append.2 ⟨h.chain, by cases d <;> decide, fun o ho o' ho' => ?_⟩
    -- the border of two passes
    have hfirst : (d.sequence.map (d, ·)).head? = some (d, d.first) := by cases d <;> rfl
    rw [hfirst, Option.mem_some_iff] at ho'
    subst ho'
    rw [h.last o ho]
    cases o.1 <;> cases d <;> decide
  · intro o ho
    rw [pass_getLast?, Option.mem_some_iff] at ho
    rw [← ho]
  · have hr := h.rotor
    rw [Stepper.rotor] at hr
    rw [pass_lastDirection, Stepper.rotor, Stepper.pass, List.map_append, List.foldl_append, List.map_map, hr]
    exact foldl_pass d s.motorSteps s.lastDirection

theorem passes_aligned (n : Nat) (d : Direction) {s : Stepper} (h : Aligned s) : Aligned ((Stepper.pass d)^[n] s) := by
  induction n generalizing s with
  | zero => exact h
  | succ n ih => exact ih (pass_aligned h d)

theorem passes_lastDirection (n : Nat) (d : Direction) (s : Stepper) :
    ((Stepper.pass d)^[n] s).lastDirection = if 0 < n then some d else s.lastDirection := by
  cases n with
  | zero => rfl
  | succ n => rw [Function.iterate_succ_apply', pass_lastDirection, if_pos n.succ_pos]

theorem passes_motorSteps (n : Nat) (d : Direction) (s : Stepper) :
    ((Stepper.pass d)^[n] s).motorSteps = s.motorSteps + n * d.toInt := by
  induction n generalizing s with
  | zero => simp
  | succ n ih =>
    rw [Function.iterate_succ_apply, ih, Stepper.pass]
    push_cast
    ring

/-! ## Runs -/

/-- The direction of the last pass of some calls: that of the last call with a step. -/
def lastPass (calls : List (Nat × Direction)) : Option Direction :=
  (calls.filter fun c => 0 < c.1).getLast?.map Prod.snd

/-- Completed calls keep the alignment. -/
theorem calls_aligned (calls : List (Nat × Direction)) : ∃ s,
    calls.foldlM (fun s c => stepMotor c.1 c.2 none s) stepper₀ = (.ok s : Except Stepper Stepper) ∧ Aligned s ∧
      s.lastDirection = lastPass calls := by
  induction calls using List.reverseRecOn with
  | nil => exact ⟨stepper₀, rfl, aligned₀, rfl⟩
  | append_singleton calls c ih =>
    obtain ⟨s, hs, ha, hl⟩ := ih
    refine ⟨(Stepper.pass c.2)^[c.1] s, ?_, passes_aligned c.1 c.2 ha, ?_⟩
    · rw [List.foldlM_append, hs]
      simp [stepMotor_pass]
      rfl
    · rw [passes_lastDirection, hl, lastPass, lastPass, List.filter_append]
      by_cases hc : 0 < c.1 <;> simp [hc]

/-- `reset_motors` drives back by passes. -/
theorem resetMotors_aligned {s : Stepper} (h : Aligned s) :
    ∃ t, resetMotors s = .ok t ∧ Aligned t ∧ t.motorSteps = 0 := by
  unfold resetMotors
  split
  · rw [stepMotor_pass]
    have ha := passes_aligned s.motorSteps.natAbs (if s.motorSteps > 0 then .reverse else .forward) h
    have hm := passes_motorSteps s.motorSteps.natAbs (if s.motorSteps > 0 then .reverse else .forward) s
    have hzero : ((Stepper.pass (if s.motorSteps > 0 then .reverse else .forward))^[s.motorSteps.natAbs] s).motorSteps =
        0 := by
      rw [hm]
      split <;> simp only [Direction.toInt] <;> omega
    refine ⟨_, rfl, ⟨ha.chain, ha.last, ?_⟩, rfl⟩
    have hr := ha.rotor
    rw [hzero] at hr
    exact hr
  · rename_i hm
    refine ⟨_, rfl, ⟨h.chain, h.last, ?_⟩, rfl⟩
    have hr := h.rotor
    rw [not_not.1 hm] at hr
    exact hr

/-- **No drift.** After any completed calls the patterns written make no jump, and the rotor is at `8 * motor_steps`
behind a reverse pass and one half-step before it behind a pass forward; `reset_motors` brings it to 0 or -1, without a
jump. -/
theorem no_drift (calls : List (Nat × Direction)) : ∃ s,
    calls.foldlM (fun s c => stepMotor c.1 c.2 none s) stepper₀ = (.ok s : Except Stepper Stepper) ∧
    (s.outputs.IsChain fun o o' => Adjacent o.2 o'.2) ∧
    (lastPass calls = some .reverse → s.rotor = 8 * s.motorSteps) ∧
    (lastPass calls = some .forward → s.rotor = 8 * s.motorSteps - 1) ∧
    ∃ t, resetMotors s = .ok t ∧ (t.outputs.IsChain fun o o' => Adjacent o.2 o'.2) ∧ t.motorSteps = 0 ∧
      (t.rotor = 0 ∨ t.rotor = -1) := by
  obtain ⟨s, hs, ha, hl⟩ := calls_aligned calls
  obtain ⟨t, ht, hta, hm⟩ := resetMotors_aligned ha
  have hr := ha.rotor
  rw [hl] at hr
  refine ⟨s, hs, ha.chain, fun h => ?_, fun h => ?_, t, ht, hta.chain, hm, ?_⟩
  · rw [hr, h]
    exact sub_zero _
  · rw [hr, h]
    rfl
  · rw [hta.rotor, hm, lag]
    split
    · exact .inr rfl
    · exact .inl rfl

end PetVending.Tracking
