import Mathlib.Algebra.Order.Ring.Int
import Mathlib.Data.Nat.Cast.Order.Ring
import Mathlib.Algebra.BigOperators.Group.List.Basic
import Mathlib.Tactic.Ring

/-!
# The stepper of the dog tracker (`0916_motor_detect.py`)

`step_motor` writes the eight coil patterns `steps` times, forward or reversed, and sleeps after each; only behind the
loop it adds `steps * direction` to the global `motor_steps`. `reset_motors`, run by the `finally` block of the program,
drives that many passes back. A `time.sleep` may raise (Ctrl-C, or an error that `run_inference` catches): then the rest
of the call, its record included, is skipped, and the run goes to `reset_motors`.

- `Stepper`: what was written to the coils so far, and the record `motor_steps`;
- `Tracked`: the record is where the stepper is, kept by every completed call (`stepMotor_tracked`);
- **`homed_iff`**: after a run the stepper is home up to one half-step iff the call that was cut, if any, was cut at its
  first sleep.

The servo has a pin and a record (`current_servo_angle`) of its own and is left out.
-/

namespace PetVending.Tracking

/-! ## The driver -/

/-- The argument `direction`: `1` or `-1`. -/
inductive Direction
  | forward
  | reverse
deriving DecidableEq

def Direction.toInt : Direction → Int
  | .forward => 1
  | .reverse => -1

/-- `step_sequence`: the levels of the pins 11, 12, 15 and 16 in the eight half-steps. -/
def stepSequence : List (List Nat) :=
  [[1, 0, 0, 1], [1, 0, 0, 0], [1, 1, 0, 0], [0, 1, 0, 0], [0, 1, 1, 0], [0, 0, 1, 0], [0, 0, 1, 1], [0, 0, 0, 1]]

/-- `step_sequence if direction == 1 else list(reversed(step_sequence))` -/
def Direction.sequence : Direction → List (List Nat)
  | .forward => stepSequence
  | .reverse => stepSequence.reverse

@[simp] theorem Direction.length_sequence (d : Direction) : d.sequence.length = 8 := by
  cases d <;> rfl

/-- The patterns written so far, each with the direction of the pass it belongs to, and the global `motor_steps`. -/
structure Stepper where
  outputs : List (Direction × List Nat)
  motorSteps : Int
deriving DecidableEq

/-- The program's start. -/
def stepper₀ : Stepper := ⟨[], 0⟩

/-- Half-steps from the start: a pattern of a forward pass counts `1`, one of a reverse pass `-1`. -/
def Stepper.position (s : Stepper) : Int := (s.outputs.map fun o => o.1.toInt).sum

/-- The `GPIO.output`s of one pattern. -/
def Stepper.output (s : Stepper) (d : Direction) (step : List Nat) : Stepper :=
  { s with outputs := s.outputs ++ [(d, step)] }

/-- The passes of a call over the patterns left: each is written, then `time.sleep` is called, which raises if `cut` is
`some 0` and returns otherwise (`cut` counts the sleeps before the one that raises). An exception leaves the state it
was raised in. -/
def drive (d : Direction) : List (List Nat) → Option Nat → Stepper → Except Stepper Stepper
  | [], _, s => .ok s
  | step :: rest, cut, s =>
    match cut with
    | some 0 => .error (s.output d step)
    | some (k + 1) => drive d rest (some k) (s.output d step)
    | none => drive d rest none (s.output d step)

/-- `step_motor(steps, direction)` -/
def stepMotor (steps : Nat) (d : Direction) (cut : Option Nat) (s : Stepper) : Except Stepper Stepper := do
  let s ← drive d (List.replicate steps d.sequence).flatten cut s
  return { s with motorSteps := s.motorSteps + steps * d.toInt }

/-- `reset_motors()` -/
def resetMotors (s : Stepper) : Except Stepper Stepper := do
  let s ← if s.motorSteps ≠ 0 then
      stepMotor s.motorSteps.natAbs (if s.motorSteps > 0 then .reverse else .forward) none s
    else pure s
  return { s with motorSteps := 0 }

/-- A last call that is cut short: the sleep that raises is one that the call makes. -/
structure Cut where
  steps : Nat
  direction : Direction
  sleep : Nat
  sleep_lt : sleep < 8 * steps

/-- The calls of `run_inference`, the last one cut short if there is a `Cut`. -/
def runInference (calls : List (Nat × Direction)) (last : Option Cut) (s : Stepper) : Except Stepper Stepper := do
  let s ← calls.foldlM (fun s c => stepMotor c.1 c.2 none s) s
  match last with
  | none => return s
  | some c => stepMotor c.steps c.direction (some c.sleep) s

/-- The main block: `try: run_inference() … finally: reset_motors()`. -/
def main (calls : List (Nat × Direction)) (last : Option Cut) : Except Stepper Stepper :=
  match runInference calls last stepper₀ with
  | .ok s => resetMotors s
  | .error s => resetMotors s

/-! ## One call -/

variable {d : Direction} {s t : Stepper}

@[simp] theorem output_position (s : Stepper) (d : Direction) (step : List Nat) :
    (s.output d step).position = s.position + d.toInt := by
  simp [Stepper.position, Stepper.output]

/-- Without an exception every pattern is written. -/
theorem drive_none (d : Direction) : ∀ (l : List (List Nat)) (s : Stepper), ∃ t, drive d l none s = .ok t ∧
    t.motorSteps = s.motorSteps ∧ t.position = s.position + l.length * d.toInt
  | [], s => ⟨s, rfl, rfl, by simp⟩
  | step :: rest, s => by
    obtain ⟨t, ht, hm, hp⟩ := drive_none d rest (s.output d step)
    refine ⟨t, ht, hm, ?_⟩
    rw [hp, output_position, List.length_cons]
    push_cast
    ring

/-- An exception at sleep `k` leaves the patterns up to that sleep written. -/
theorem drive_cut (d : Direction) : ∀ (l : List (List Nat)) (k : Nat) (s : Stepper), k < l.length →
    ∃ t, drive d l (some k) s = .error t ∧ t.motorSteps = s.motorSteps ∧
      t.position = s.position + (k + 1 : Nat) * d.toInt
  | [], _, _, h => by simp at h
  | step :: _, 0, s, _ => ⟨s.output d step, rfl, rfl, by simp⟩
  | step :: rest, k + 1, s, h => by
    obtain ⟨t, ht, hm, hp⟩ := drive_cut d rest k (s.output d step) (by simpa using h)
    refine ⟨t, ht, hm, ?_⟩
    rw [hp, output_position]
    push_cast
    ring

theorem length_passes (steps : Nat) (d : Direction) : (List.replicate steps d.sequence).flatten.length = 8 * steps := by
  rw [List.length_flatten, List.map_replicate, Direction.length_sequence, List.sum_replicate_nat,
    Nat.mul_comm]

/-- A call that runs to its end moves `8 * steps` half-steps and records `steps` passes. -/
theorem stepMotor_none (steps : Nat) (d : Direction) (s : Stepper) : ∃ t, stepMotor steps d none s = .ok t ∧
    t.motorSteps = s.motorSteps + steps * d.toInt ∧ t.position = s.position + 8 * (steps * d.toInt) := by
  obtain ⟨t, ht, hm, hp⟩ := drive_none d (List.replicate steps d.sequence).flatten s
  refine ⟨{ t with motorSteps := t.motorSteps + steps * d.toInt }, by rw [stepMotor, ht]; rfl, by rw [hm], ?_⟩
  show t.position = _
  rw [hp, length_passes]
  push_cast
  ring

/-- A call cut at sleep `k` moves `k + 1` half-steps and records nothing. -/
theorem stepMotor_cut (c : Cut) (s : Stepper) : ∃ t, stepMotor c.steps c.direction (some c.sleep) s = .error t ∧
    t.motorSteps = s.motorSteps ∧ t.position = s.position + (c.sleep + 1 : Nat) * c.direction.toInt := by
  obtain ⟨t, ht, hm, hp⟩ := drive_cut c.direction (List.replicate c.steps c.direction.sequence).flatten c.sleep s
    (by rw [length_passes]; exact c.sleep_lt)
  exact ⟨t, by rw [stepMotor, ht]; rfl, hm, hp⟩

/-- `reset_motors` drives the recorded passes back, whatever the position is. -/
theorem resetMotors_spec (s : Stepper) : ∃ t, resetMotors s = .ok t ∧ t.motorSteps = 0 ∧
    t.position = s.position - 8 * s.motorSteps := by
  unfold resetMotors
  split
  · obtain ⟨t, ht, -, hp⟩ := stepMotor_none s.motorSteps.natAbs (if s.motorSteps > 0 then .reverse else .forward) s
    refine ⟨{ t with motorSteps := 0 }, by rw [ht]; rfl, rfl, ?_⟩
    show t.position = _
    rw [hp]
    split <;> simp only [Direction.toInt] <;> omega
  · rename_i h
    exact ⟨{ s with motorSteps := 0 }, rfl, rfl, by show s.position = _; omega⟩

/-! ## Runs -/

/-- The record is where the stepper is. -/
def Tracked (s : Stepper) : Prop := s.position = 8 * s.motorSteps

theorem stepMotor_tracked (steps : Nat) (d : Direction) (hs : Tracked s) :
    ∃ t, stepMotor steps d none s = .ok t ∧ Tracked t := by
  obtain ⟨t, ht, hm, hp⟩ := stepMotor_none steps d s
  refine ⟨t, ht, ?_⟩
  unfold Tracked at *
  rw [hp, hm, hs]
  ring

theorem calls_tracked : ∀ (calls : List (Nat × Direction)) {s : Stepper}, Tracked s →
    ∃ t, calls.foldlM (fun s c => stepMotor c.1 c.2 none s) s = (.ok t : Except Stepper Stepper) ∧ Tracked t
  | [], s, hs => ⟨s, rfl, hs⟩
  | c :: calls, s, hs => by
    obtain ⟨t, ht, htr⟩ := stepMotor_tracked c.1 c.2 hs
    obtain ⟨u, hu, hur⟩ := calls_tracked calls htr
    exact ⟨u, by rw [List.foldlM_cons, ht]; exact hu, hur⟩

/-- The distance from home after the run: the half-steps of the call that was cut. -/
theorem main_position (calls : List (Nat × Direction)) (last : Option Cut) : ∃ t, main calls last = .ok t ∧
    |t.position| = match last with | none => 0 | some c => c.sleep + 1 := by
  obtain ⟨s, hs, htr⟩ := calls_tracked calls (s := stepper₀) rfl
  unfold Tracked at htr
  cases last with
  | none =>
    obtain ⟨t, ht, -, hp⟩ := resetMotors_spec s
    refine ⟨t, by rw [main, runInference, hs]; exact ht, ?_⟩
    rw [hp, htr, sub_self, abs_zero]
  | some c =>
    obtain ⟨u, hu, hm, hpu⟩ := stepMotor_cut c s
    obtain ⟨t, ht, -, hp⟩ := resetMotors_spec u
    have hrun : runInference calls (some c) stepper₀ = .error u := by rw [runInference, hs]; exact hu
    refine ⟨t, by rw [main, hrun]; exact ht, ?_⟩
    have hpos : t.position = (c.sleep + 1 : Nat) * c.direction.toInt := by rw [hp, hpu, hm, htr]; ring
    rw [hpos]
    cases c.direction with
    | forward => rw [Direction.toInt, mul_one, Nat.abs_cast, Nat.cast_succ]
    | reverse => rw [Direction.toInt, mul_neg_one, abs_neg, Nat.abs_cast, Nat.cast_succ]

/-- **Homing.** After the run and its `reset_motors` the stepper is within one half-step of its start iff the call that
was cut, if any, was cut at its first sleep. -/
theorem homed_iff (calls : List (Nat × Direction)) (last : Option Cut) :
    (∃ t, main calls last = .ok t ∧ |t.position| ≤ 1) ↔ ∀ c ∈ last, c.sleep = 0 := by
  obtain ⟨t, ht, hp⟩ := main_position calls last
  have hmain : (∃ u, main calls last = .ok u ∧ |u.position| ≤ 1) ↔ |t.position| ≤ 1 := by
    rw [ht]
    exact ⟨fun ⟨_, he, hu⟩ => by cases he; exact hu, fun h => ⟨t, rfl, h⟩⟩
  rw [hmain, hp]
  cases last with
  | none => simp
  | some c => simp only [Option.mem_def, Option.some.injEq, forall_eq']; omega

/-- Ctrl-C at the last sleep of the first pass of a call of ten passes forward: the stepper stays eight half-steps
off. -/
theorem not_homed_after_cut :
    ¬ (∃ t, main [] (some ⟨10, .forward, 7, by decide⟩) = .ok t ∧ |t.position| ≤ 1) ∧
      (main [] (some ⟨10, .forward, 7, by decide⟩)).map Stepper.position = .ok 8 := by
  have h : ∃ t, main [] (some ⟨10, .forward, 7, by decide⟩) = .ok t ∧ t.position = 8 := ⟨_, rfl, by decide⟩
  obtain ⟨t, ht, hp⟩ := h
  rw [ht]
  refine ⟨?_, congrArg Except.ok hp⟩
  rintro ⟨u, hu, hle⟩
  cases hu
  rw [hp] at hle
  exact absurd hle (by decide)

end PetVending.Tracking
