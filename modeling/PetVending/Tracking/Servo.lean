import Mathlib.Algebra.BigOperators.Group.List.Basic
import Mathlib.Algebra.Order.Field.Rat
import Mathlib.Data.List.Induction
import Mathlib.Tactic.Linarith
import Mathlib.Tactic.Ring

/-!
# The servo of the dog tracker (`0914_motor_detect.py`, `0916_motor_detect.py`)

`move_servo` clamps its target to 0..180 degrees. The older program also adds up how far the servo was to go, from the
target before it is clamped, and `reset_motors` moves the servo only if this record is not 0. The newer one looks at the
angle itself.

- `moveServo`, `resetServo`: the older program; `moveServo0916`, `resetServo0916`: the newer one, which moves alike
  (`moves_angle`);
- `moves_duties`: the duty cycles are in range;
- `moves_drift`: the record is ahead of the angle by what the targets so far were out of range;
- `reset_angle_iff`: a reset leaves the servo at 90 degrees iff the record is not 0, or it is there already;
- **`servo_homing_iff`**: the record is the way from 90 degrees after each call, and each reset leaves the servo there,
  iff all targets are in range. The newer program always resets the servo (`reset0916_angle`).

The stepper's part of `reset_motors` comes behind and touches none of this.
-/

namespace PetVending.Tracking

/-! ## The two programs -/

/-- `current_servo_angle`, `servo_angle_movement`, and the arguments of `ChangeDutyCycle` so far. -/
structure Servo where
  angle : ℚ
  movement : ℚ
  duties : List ℚ

/-- `servo_initial_angle` -/
def servoInitialAngle : ℚ := 90

def servo₀ : Servo := ⟨servoInitialAngle, 0, []⟩

/-- The target as `move_servo` clamps it. -/
def clamped (targetAngle : ℚ) : ℚ := if targetAngle < 0 then 0 else if targetAngle > 180 then 180 else targetAngle

/-- The duty cycle for an angle. -/
def duty (angle : ℚ) : ℚ := angle / 18 + 2

/-- `move_servo(target_angle)` of `0914_motor_detect.py` -/
def moveServo (s : Servo) (targetAngle : ℚ) : Servo where
  angle := clamped targetAngle
  movement := s.movement + (targetAngle - s.angle)
  duties := s.duties ++ [duty (clamped targetAngle), 0]

/-- The servo's part of `reset_motors()` of `0914_motor_detect.py` -/
def resetServo (s : Servo) : Servo :=
  if s.movement ≠ 0 then { moveServo s servoInitialAngle with movement := 0 } else s

/-- The same without a record. -/
structure Servo0916 where
  angle : ℚ
  duties : List ℚ

def servo0916₀ : Servo0916 := ⟨servoInitialAngle, []⟩

/-- `move_servo(target_angle)` of `0916_motor_detect.py` -/
def moveServo0916 (s : Servo0916) (targetAngle : ℚ) : Servo0916 where
  angle := max 0 (min 180 targetAngle)
  duties := s.duties ++ [duty (max 0 (min 180 targetAngle)), 0]

/-- The servo's part of `reset_motors()` of `0916_motor_detect.py` -/
def resetServo0916 (s : Servo0916) : Servo0916 :=
  if s.angle ≠ servoInitialAngle then moveServo0916 s servoInitialAngle else s

/-- The calls of `move_servo` from the start on. -/
def moves (targets : List ℚ) : Servo := targets.foldl moveServo servo₀

def moves0916 (targets : List ℚ) : Servo0916 := targets.foldl moveServo0916 servo0916₀

/-! ## The clamp -/

theorem clamped_eq (t : ℚ) : clamped t = max 0 (min 180 t) := by
  unfold clamped
  split
  · rename_i h
    rw [max_eq_left]
    exact (min_le_right _ _).trans h.le
  · rename_i h
    split
    · rename_i h'
      rw [min_eq_left h'.le, max_eq_right (by norm_num)]
    · rename_i h'
      rw [min_eq_right (not_lt.1 h'), max_eq_right (not_lt.1 h)]

theorem clamped_range (t : ℚ) : 0 ≤ clamped t ∧ clamped t ≤ 180 := by
  rw [clamped_eq]
  exact ⟨le_max_left _ _, max_le (by norm_num) (min_le_left _ _)⟩

theorem clamped_eq_self_iff (t : ℚ) : clamped t = t ↔ 0 ≤ t ∧ t ≤ 180 := by
  constructor
  · intro h
    rw [← h]
    exact clamped_range t
  · rintro ⟨h0, h180⟩
    rw [clamped_eq, min_eq_right h180, max_eq_right h0]

/-- Every duty cycle is 0 or one from 2 to 12. -/
theorem moves_duties (targets : List ℚ) : ∀ d ∈ (moves targets).duties, d = 0 ∨ 2 ≤ d ∧ d ≤ 12 := by
  induction targets using List.reverseRecOn with
  | nil => intro d hd; cases hd
  | append_singleton ts t ih =>
    intro d hd
    rw [moves, List.foldl_append] at hd
    rcases List.mem_append.1 hd with hd | hd
    · exact ih d hd
    · obtain ⟨h0, h180⟩ := clamped_range t
      rcases List.mem_cons.1 hd with rfl | hd
      · refine .inr ?_
        unfold duty
        constructor <;> linarith
      · exact .inl (List.mem_singleton.1 hd)

/-! ## Runs -/

/-- The programs move the servo alike. -/
theorem moves_angle (targets : List ℚ) : (moves targets).angle = (moves0916 targets).angle ∧
    (moves targets).duties = (moves0916 targets).duties := by
  induction targets using List.reverseRecOn with
  | nil => exact ⟨rfl, rfl⟩
  | append_singleton ts t ih =>
    rw [moves, moves0916, List.foldl_append, List.foldl_append]
    refine ⟨clamped_eq t, ?_⟩
    show (moves ts).duties ++ [duty (clamped t), 0] = (moves0916 ts).duties ++ [duty (max 0 (min 180 t)), 0]
    rw [ih.2, clamped_eq]

/-- **The record is ahead of the angle** by what the targets were out of range. -/
theorem moves_drift (targets : List ℚ) :
    (moves targets).movement =
      (moves targets).angle - servoInitialAngle + (targets.map fun t => t - clamped t).sum := by
  induction targets using List.reverseRecOn with
  | nil => simp [moves, servo₀]
  | append_singleton ts t ih =>
    have hmove : moves (ts ++ [t]) = moveServo (moves ts) t := by rw [moves, List.foldl_append]; rfl
    rw [hmove, List.map_append, List.sum_append, List.map_singleton, List.sum_singleton]
    simp only [moveServo, ih]
    ring

theorem clamped_initial : clamped servoInitialAngle = servoInitialAngle :=
  (clamped_eq_self_iff _).2 (by unfold servoInitialAngle; norm_num)

/-- What a reset needs. -/
theorem reset_angle_iff (s : Servo) :
    (resetServo s).angle = servoInitialAngle ↔ s.movement ≠ 0 ∨ s.angle = servoInitialAngle := by
  unfold resetServo
  split
  · rename_i h
    exact iff_of_true clamped_initial (.inl h)
  · rename_i h
    exact ⟨.inr, fun h' => h'.resolve_left h⟩

/-- The newer program always resets the servo. -/
theorem reset0916_angle (s : Servo0916) : (resetServo0916 s).angle = servoInitialAngle := by
  unfold resetServo0916
  split
  · rw [moveServo0916, ← clamped_eq, clamped_initial]
  · rename_i h
    exact not_not.1 h

/-- The record is the way from the start, and a reset leaves the servo at the start. -/
def Homes (s : Servo) : Prop := s.movement = s.angle - servoInitialAngle ∧ (resetServo s).angle = servoInitialAngle

/-- The record is right iff the targets out of range cancel. -/
theorem homes_iff (targets : List ℚ) : Homes (moves targets) ↔ (targets.map fun t => t - clamped t).sum = 0 := by
  have hdrift := moves_drift targets
  constructor
  · rintro ⟨h, -⟩
    linarith
  · intro h
    have hrec : (moves targets).movement = (moves targets).angle - servoInitialAngle := by linarith
    refine ⟨hrec, (reset_angle_iff _).2 ?_⟩
    by_cases h0 : (moves targets).movement = 0
    · right
      linarith
    · exact .inl h0

/-- **Homing of the servo.** After each call the record is the way from 90 degrees and a reset leaves the servo there,
iff all targets are from 0 to 180 degrees; the newer program's reset leaves it there after every run. -/
theorem servo_homing_iff (targets : List ℚ) :
    ((∀ k, Homes (moves (targets.take k))) ↔ ∀ t ∈ targets, 0 ≤ t ∧ t ≤ 180) ∧
      ∀ k, (resetServo0916 (moves0916 (targets.take k))).angle = servoInitialAngle := by
  refine ⟨?_, fun k => reset0916_angle _⟩
  simp only [homes_iff]
  constructor
  · intro h t ht
    obtain ⟨k, hk, rfl⟩ := List.mem_iff_getElem.1 ht
    -- one more target changes nothing
    have hsucc := h (k + 1)
    rw [List.take_succ_eq_append_getElem hk, List.map_append, List.sum_append, h k, List.map_singleton,
      List.sum_singleton, zero_add]
      at hsucc
    exact (clamped_eq_self_iff _).1 (sub_eq_zero.1 hsucc).symm
  · intro h k
    apply List.sum_eq_zero
    intro x hx
    obtain ⟨t, ht, rfl⟩ := List.mem_map.1 hx
    rw [(clamped_eq_self_iff t).2 (h t (List.mem_of_mem_take ht)), sub_self]

/-- To 270 degrees and back to 0: the record is 0, and the servo stays at 0 degrees. -/
theorem servo_stays : ¬ ∀ targets : List ℚ,
    (∀ k, (moves (targets.take k)).movement = (moves (targets.take k)).angle - 90) ∧
    (resetServo (moves targets)).angle = 90 := by
  intro h
  have hreset := (h [270, 0]).2
  revert hreset
  decide +kernel

end PetVending.Tracking
