import PetVending.Tracking.Servo
import PetVending.Tracking.Stepper
import Mathlib.Algebra.Order.Ring.Abs
import Mathlib.Data.List.MinMax
import Mathlib.Data.Sign.Basic

/-!
# The loop of the dog tracker (`0916_motor_detect.py`)

`run_inference` takes frame after frame: it looks for the dog with the greatest confidence, and turns the stepper and
the servo if the middle of its box is more than ten pixels away from the middle of the frame. The model's results are
the input here, and numbers are exact rationals: where Python and NumPy round, an angle may miss 90 degrees by a hair,
which `reset_motors` then takes for another one. As in `Stepper`, a `time.sleep` may raise; the program then goes to
`reset_motors`.

- `bestBox`: the loop over the detections; it finds the first of those of greatest confidence (`bestBox_eq`);
- `Aim`: where the frames say the motors should be; `inference_aim`: the motors are there, and the servo is never asked
  for more than it can do;
- **`home_iff`**: at the end both motors are back iff the sleep that raised, if any, is the first of a `step_motor`, or
  one of a `move_servo` that began away from 90 degrees, or none of theirs.
-/

namespace PetVending.Tracking

/-! ## Frames -/

/-- A row of `results[0].boxes.xyxy`. -/
structure Box where
  xMin : ℚ
  yMin : ℚ
  xMax : ℚ
  yMax : ℚ

/-- A detection: `int(class_ids[i])`, `confidences[i]` and `boxes[i]`. -/
structure Detection where
  classId : Int
  confidence : ℚ
  bbox : Box

/-- The model's results for a frame, and `frame.shape[1]` and `frame.shape[0]`. -/
structure Frame where
  detections : List Detection
  width : Nat
  height : Nat

/-- `DOG_CLASS_ID` -/
def dogClassId : Int := 16

/-- `CONFIDENCE_THRESHOLD` -/
def confidenceThreshold : ℚ := 1 / 10

/-- `highest_confidence` and `best_box` -/
structure Scan where
  highestConfidence : ℚ
  bestBox : Option Box

/-- A detection that counts as a dog. -/
def Detection.Dog (d : Detection) : Prop := d.classId = dogClassId ∧ confidenceThreshold < d.confidence

instance (d : Detection) : Decidable d.Dog := inferInstanceAs (Decidable (_ ∧ _))

/-- The body of the loop over the boxes. -/
def Scan.step (s : Scan) (d : Detection) : Scan :=
  if d.Dog then
    if s.highestConfidence < d.confidence then ⟨d.confidence, some d.bbox⟩ else s
  else s

/-- The box that is followed. -/
def bestBox (ds : List Detection) : Option Box := (ds.foldl Scan.step ⟨0, none⟩).bestBox

/-- `error_x` -/
def Frame.errorX (f : Frame) (b : Box) : ℚ := (f.width / 2 : Nat) - (b.xMin + b.xMax) / 2

/-- `error_y` -/
def Frame.errorY (f : Frame) (b : Box) : ℚ := (f.height / 2 : Nat) - (b.yMin + b.yMax) / 2

/-! ## The motors -/

/-- Both motors, with their records. -/
structure Tracker where
  stepper : Stepper
  servo : Servo0916

def tracker₀ : Tracker := ⟨stepper₀, servo0916₀⟩

/-- `move_servo(target_angle)`; the sleep that raises is the first or the second, if any. -/
def moveServoUntil (cut : Option Nat) (targetAngle : ℚ) (s : Servo0916) : Except Servo0916 Servo0916 :=
  let angle := max 0 (min 180 targetAngle)
  if cut = some 0 then .error { s with duties := s.duties ++ [duty angle] }
  else if cut = some 1 then .error { s with duties := s.duties ++ [duty angle, 0] }
  else .ok ⟨angle, s.duties ++ [duty angle, 0]⟩

namespace Tracker

/-- The stepper's part of a frame. -/
def turn (cut : Option Nat) (errorX : ℚ) (t : Tracker) : Except Tracker Tracker :=
  if 10 < |errorX| then
    match stepMotor 10 (if 0 < errorX then .forward else .reverse) cut t.stepper with
    | .ok s => .ok { t with stepper := s }
    | .error s => .error { t with stepper := s }
  else .ok t

/-- How often it sleeps. -/
def turnSleeps (errorX : ℚ) : Nat := if 10 < |errorX| then 80 else 0

/-- The servo's part of a frame. -/
def tilt (cut : Option Nat) (errorY : ℚ) (t : Tracker) : Except Tracker Tracker :=
  if 10 < |errorY| then
    match moveServoUntil cut (t.servo.angle - errorY / 10) t.servo with
    | .ok s => .ok { t with servo := s }
    | .error s => .error { t with servo := s }
  else .ok t

/-- One frame; `cut` counts the sleeps before the one that raises. -/
def frame (cut : Option Nat) (f : Frame) (t : Tracker) : Except Tracker Tracker :=
  match bestBox f.detections with
  | none => .ok t
  | some b => do
    let t ← t.turn cut (f.errorX b)
    t.tilt (cut.map (· - turnSleeps (f.errorX b))) (f.errorY b)

/-- `run_inference()`: complete frames, and one in which a sleep raises, or something behind its sleeps. -/
def inference (frames : List Frame) (last : Option (Frame × Nat)) (t : Tracker) : Except Tracker Tracker := do
  let t ← frames.foldlM (fun t f => t.frame none f) t
  match last with
  | none => return t
  | some (f, k) => t.frame (some k) f

/-- `reset_motors()` -/
def reset (t : Tracker) : Except Tracker Tracker :=
  let servo := resetServo0916 t.servo
  match resetMotors t.stepper with
  | .ok s => .ok ⟨s, servo⟩
  | .error s => .error ⟨s, servo⟩

/-- The main block. -/
def program (frames : List Frame) (last : Option (Frame × Nat)) : Except Tracker Tracker :=
  match inference frames last tracker₀ with
  | .ok t => t.reset
  | .error t => t.reset

end Tracker

/-- Where the duty cycles so far leave the servo, which is taken to start at 90 degrees; without a pulse it stays. -/
def Servo0916.shaft (s : Servo0916) : ℚ :=
  match s.duties.reverse.find? (· ≠ 0) with
  | some d => (d - 2) * 18
  | none => servoInitialAngle

/-! ## The dog that is followed -/

/-- The first of the dogs of greatest confidence. -/
def Frame.dog (f : Frame) : Option Detection := (f.detections.filter fun d => d.Dog).argmax (·.confidence)

/-- **The loop over the boxes** keeps the first of the dogs of greatest confidence. -/
theorem scan_eq (ds : List Detection) :
    let best := (ds.filter fun d => d.Dog).argmax (·.confidence)
    ds.foldl Scan.step ⟨0, none⟩ = ⟨(best.map (·.confidence)).getD 0, best.map (·.bbox)⟩ := by
  induction ds using List.reverseRecOn with
  | nil => rfl
  | append_singleton ds d ih =>
    simp only [List.foldl_append, List.foldl_cons, List.foldl_nil, ih, List.filter_append]
    by_cases hd : d.Dog
    · have hpos : 0 < d.confidence := lt_trans (by norm_num [confidenceThreshold]) hd.2
      have hfilter : [d].filter (fun d => d.Dog) = [d] := by simp [hd]
      rw [hfilter, List.argmax_concat, Scan.step, if_pos hd]
      cases (ds.filter fun d => d.Dog).argmax (·.confidence) with
      | none => simp [hpos]
      | some e =>
        simp only [Option.map_some, Option.getD_some]
        split <;> rfl
    · have hfilter : [d].filter (fun d => d.Dog) = [] := by simp [hd]
      rw [hfilter, List.append_nil, Scan.step, if_neg hd]

/-- The box that is followed is the dog's. -/
theorem bestBox_eq (f : Frame) : bestBox f.detections = f.dog.map (·.bbox) := by
  rw [bestBox, scan_eq]
  rfl

/-! ## Where the motors should be -/

/-- The passes of the stepper from its start, and the angle of the servo. -/
structure Aim where
  passes : Int
  angle : ℚ

def aim₀ : Aim := ⟨0, servoInitialAngle⟩

/-- The passes that an `error_x` makes. -/
def turnPasses (errorX : ℚ) : Int := if 10 < |errorX| then 10 * SignType.sign errorX else 0

/-- How a frame changes the aim: ten passes towards the dog, a tenth of a degree for each pixel, nothing for up to ten
pixels. -/
def Aim.follow (a : Aim) (f : Frame) : Aim :=
  match f.dog with
  | none => a
  | some d =>
    { passes := a.passes + turnPasses (f.errorX d.bbox)
      angle := if 10 < |f.errorY d.bbox| then clamped (a.angle - f.errorY d.bbox / 10) else a.angle }

/-- The aim behind the frames. -/
def aim (frames : List Frame) : Aim := frames.foldl Aim.follow aim₀

/-- The motors are at the aim, and their records say so. -/
structure At (a : Aim) (t : Tracker) : Prop where
  motorSteps : t.stepper.motorSteps = a.passes
  position : t.stepper.position = 8 * a.passes
  angle : t.servo.angle = a.angle
  shaft : t.servo.shaft = a.angle

/-- The servo is off, or has a duty cycle of its range. -/
def Gentle (s : Servo0916) : Prop := ∀ d ∈ s.duties, d = 0 ∨ 2 ≤ d ∧ d ≤ 12

theorem duty_range (t : ℚ) : 2 ≤ duty (clamped t) ∧ duty (clamped t) ≤ 12 := by
  obtain ⟨h0, h180⟩ := clamped_range t
  unfold duty
  constructor <;> linarith

/-- A pulse leaves the servo at its angle, also when it has ended. -/
theorem shaft_pulse (s : Servo0916) (t a : ℚ) (l : List ℚ) (hl : l = [] ∨ l = [0]) :
    ({ angle := a, duties := s.duties ++ duty (clamped t) :: l } : Servo0916).shaft = clamped t := by
  have hne : duty (clamped t) ≠ 0 := ne_of_gt (lt_of_lt_of_le (by norm_num) (duty_range t).1)
  have hshaft : (duty (clamped t) - 2) * 18 = clamped t := by
    unfold duty
    ring
  rcases hl with rfl | rfl <;> simp [Servo0916.shaft, hne, hshaft]

theorem Gentle.pulse {s : Servo0916} (h : Gentle s) (t a : ℚ) (l : List ℚ) (hl : l = [] ∨ l = [0]) :
    Gentle { angle := a, duties := s.duties ++ duty (clamped t) :: l } := by
  intro d hd
  rcases List.mem_append.1 hd with hd | hd
  · exact h d hd
  rcases List.mem_cons.1 hd with rfl | hd
  · exact .inr (duty_range t)
  · left
    rcases hl with rfl | rfl
    · cases hd
    · exact List.mem_singleton.1 hd

/-- A `step_motor` of a frame that is not interrupted. -/
theorem turn_none (t : Tracker) (e : ℚ) : ∃ u, t.turn none e = .ok u ∧ u.servo = t.servo ∧
    u.stepper.motorSteps = t.stepper.motorSteps + turnPasses e ∧
    u.stepper.position = t.stepper.position + 8 * turnPasses e := by
  unfold Tracker.turn turnPasses
  split
  · rename_i h
    obtain ⟨s, hs, hm, hp⟩ := stepMotor_none 10 (if 0 < e then .forward else .reverse) t.stepper
    have hsign : (if 0 < e then Direction.forward else .reverse).toInt = (SignType.sign e : Int) := by
      split
      · rename_i h0
        rw [sign_pos h0]
        rfl
      · rename_i h0
        have hneg : e < 0 := lt_of_le_of_ne (not_lt.1 h0) (by rintro rfl; norm_num at h)
        rw [sign_neg hneg]
        rfl
    rw [hsign] at hm hp
    exact ⟨{ t with stepper := s }, by rw [hs], rfl, hm, hp⟩
  · exact ⟨t, rfl, rfl, by simp, by simp⟩

/-- A `move_servo` of a frame that is not interrupted. -/
theorem tilt_none (t : Tracker) (e : ℚ) (hs : t.servo.shaft = t.servo.angle) (hg : Gentle t.servo) : ∃ u,
    t.tilt none e = .ok u ∧ u.stepper = t.stepper ∧ u.servo.shaft = u.servo.angle ∧ Gentle u.servo ∧
    u.servo.angle = if 10 < |e| then clamped (t.servo.angle - e / 10) else t.servo.angle := by
  unfold Tracker.tilt
  split
  · simp only [moveServoUntil, ← clamped_eq]
    refine ⟨_, rfl, rfl, ?_, ?_, rfl⟩
    · apply shaft_pulse
      exact .inr rfl
    · apply hg.pulse
      exact .inr rfl
  · exact ⟨t, rfl, rfl, hs, hg, rfl⟩

/-- **One frame.** -/
theorem frame_at {a : Aim} {t : Tracker} (h : At a t) (hg : Gentle t.servo) (f : Frame) :
    ∃ u, t.frame none f = .ok u ∧ At (a.follow f) u ∧ Gentle u.servo := by
  unfold Tracker.frame Aim.follow
  rw [bestBox_eq]
  cases f.dog with
  | none => exact ⟨t, rfl, h, hg⟩
  | some d =>
    obtain ⟨u, hu, hservo, hm, hp⟩ := turn_none t (f.errorX d.bbox)
    obtain ⟨v, hv, hstepper, hshaft, hgv, hangle⟩ :=
      tilt_none u (f.errorY d.bbox) (by rw [hservo, h.shaft, h.angle]) (hservo ▸ hg)
    rw [hservo, h.angle] at hangle
    refine ⟨v, ?_, ⟨?_, ?_, hangle, hshaft.trans hangle⟩, hgv⟩
    · rw [Option.map_some]
      simp only [hu]
      exact hv
    · rw [hstepper, hm, h.motorSteps]
    · rw [hstepper, hp, h.position, ← mul_add]

theorem at_start : At aim₀ tracker₀ := ⟨rfl, rfl, rfl, rfl⟩

theorem frames_at (frames : List Frame) : ∀ {a : Aim} {t : Tracker}, At a t → Gentle t.servo →
    ∃ u, frames.foldlM (fun t f => Tracker.frame none f t) t = (.ok u : Except Tracker Tracker) ∧
      At (frames.foldl Aim.follow a) u ∧ Gentle u.servo := by
  induction frames with
  | nil => exact fun {_ t} h hg => ⟨t, rfl, h, hg⟩
  | cons f frames ih =>
    intro a t h hg
    obtain ⟨u, hu, hat, hgu⟩ := frame_at h hg f
    obtain ⟨v, hv, hat', hgv⟩ := ih hat hgu
    refine ⟨v, ?_, hat', hgv⟩
    rw [List.foldlM_cons, hu]
    exact hv

/-- The aim of the servo is in its range. -/
theorem aim_range (frames : List Frame) : 0 ≤ (aim frames).angle ∧ (aim frames).angle ≤ 180 := by
  induction frames using List.reverseRecOn with
  | nil => exact ⟨by norm_num [aim, aim₀, servoInitialAngle], by norm_num [aim, aim₀, servoInitialAngle]⟩
  | append_singleton frames f ih =>
    rw [aim, List.foldl_append]
    show 0 ≤ ((aim frames).follow f).angle ∧ ((aim frames).follow f).angle ≤ 180
    unfold Aim.follow
    split
    · exact ih
    · dsimp only
      split
      · exact clamped_range _
      · exact ih

/-- **The motors are where the frames say**, in exact numbers. -/
theorem inference_aim (frames : List Frame) : ∃ t, Tracker.inference frames none tracker₀ = .ok t ∧ At (aim frames) t ∧
    (0 ≤ t.servo.angle ∧ t.servo.angle ≤ 180) ∧ Gentle t.servo := by
  obtain ⟨t, ht, hat, hg⟩ := frames_at frames at_start (t := tracker₀) (by intro d hd; cases hd)
  refine ⟨t, ?_, hat, by rw [hat.angle]; exact aim_range frames, hg⟩
  rw [Tracker.inference, ht]
  rfl

/-! ## Interruptions -/

/-- What the sleep that raises belongs to. -/
inductive Break
  | stepper (sleep : Nat)
  | servo
  | none

/-- Sleep `k` of a frame. -/
def Frame.breaks (f : Frame) (k : Nat) : Break :=
  match f.dog with
  | none => .none
  | some d =>
    let n := Tracker.turnSleeps (f.errorX d.bbox)
    if k < n then .stepper k
    else if 10 < |f.errorY d.bbox| ∧ k < n + 2 then .servo
    else .none

/-- What is left of an interrupted frame: the stepper is off its record, or the servo off its, or neither. -/
def Left (a : Aim) (t : Tracker) : Break → Prop
  | .stepper j => |t.stepper.position - 8 * t.stepper.motorSteps| = j + 1 ∧ t.servo.shaft = t.servo.angle
  | .servo => t.stepper.position = 8 * t.stepper.motorSteps ∧ t.servo.angle = a.angle ∧
      (a.angle = servoInitialAngle → t.servo.shaft ≠ servoInitialAngle)
  | .none => t.stepper.position = 8 * t.stepper.motorSteps ∧ t.servo.shaft = t.servo.angle

/-- A sleep behind those of a call does not cut it. -/
theorem drive_beyond (d : Direction) : ∀ (l : List (List Nat)) (k : Nat) (s : Stepper), l.length ≤ k →
    drive d l (some k) s = drive d l none s
  | [], _, _, _ => rfl
  | _ :: _, 0, _, h => absurd h (Nat.not_succ_le_zero _)
  | step :: rest, k + 1, s, h => drive_beyond d rest k (s.output d step) (Nat.le_of_succ_le_succ h)

theorem turn_beyond (t : Tracker) {e : ℚ} {k : Nat} (hk : Tracker.turnSleeps e ≤ k) :
    t.turn (some k) e = t.turn none e := by
  unfold Tracker.turn
  split
  · rename_i h
    rw [Tracker.turnSleeps, if_pos h] at hk
    have hlen (d : Direction) : (List.replicate 10 d.sequence).flatten.length ≤ k := by
      rw [length_passes]
      exact hk
    simp only [stepMotor, drive_beyond _ _ _ _ (hlen _)]
  · rfl

/-- A `step_motor` that is interrupted. -/
theorem turn_cut (t : Tracker) {e : ℚ} {k : Nat} (hk : k < Tracker.turnSleeps e) : ∃ u, t.turn (some k) e = .error u ∧
    u.servo = t.servo ∧ u.stepper.motorSteps = t.stepper.motorSteps ∧
    |u.stepper.position - t.stepper.position| = k + 1 := by
  have he : 10 < |e| := by
    by_contra h
    rw [Tracker.turnSleeps, if_neg h] at hk
    exact Nat.not_lt_zero k hk
  rw [Tracker.turnSleeps, if_pos he] at hk
  obtain ⟨s, hs, hm, hp⟩ := stepMotor_cut ⟨10, if 0 < e then .forward else .reverse, k, hk⟩ t.stepper
  refine ⟨{ t with stepper := s }, ?_, rfl, hm, ?_⟩
  · rw [Tracker.turn, if_pos he, hs]
  · rw [hp, add_sub_cancel_left, abs_mul, Nat.abs_cast, Nat.cast_succ]
    split <;> simp [Direction.toInt]

theorem tilt_beyond (t : Tracker) {e : ℚ} {k : Nat} (hk : ¬ (10 < |e| ∧ k < 2)) :
    t.tilt (some k) e = t.tilt none e := by
  unfold Tracker.tilt
  split
  · rename_i h
    have h2 : 2 ≤ k := not_lt.1 fun hlt => hk ⟨h, hlt⟩
    have h0 : some k ≠ some 0 := by simp; omega
    have h1 : some k ≠ some 1 := by simp; omega
    simp only [moveServoUntil, h0, h1, if_false, reduceCtorEq]
  · rfl

/-- A `move_servo` that is interrupted: the servo is gone already, its record is not. -/
theorem tilt_cut (t : Tracker) {e : ℚ} (he : 10 < |e|) {k : Nat} (hk : k < 2) : ∃ u, t.tilt (some k) e = .error u ∧
    u.stepper = t.stepper ∧ u.servo.angle = t.servo.angle ∧ u.servo.shaft = clamped (t.servo.angle - e / 10) := by
  unfold Tracker.tilt moveServoUntil
  rw [if_pos he, ← clamped_eq]
  match k with
  | 0 => exact ⟨_, rfl, rfl, rfl, shaft_pulse t.servo _ _ [] (.inl rfl)⟩
  | 1 => exact ⟨_, rfl, rfl, rfl, shaft_pulse t.servo _ _ [0] (.inr rfl)⟩

/-- From 90 degrees the servo always leaves. -/
theorem clamped_leaves {e : ℚ} (he : 10 < |e|) : clamped (servoInitialAngle - e / 10) ≠ servoInitialAngle := by
  have he' : 1 < e / 10 ∨ e / 10 < -1 := by
    rcases lt_abs.1 he with h | h
    · left; linarith
    · right; linarith
  unfold clamped servoInitialAngle
  rcases he' with h | h
  · split
    · norm_num
    split
    · norm_num
    · exact ne_of_lt (by linarith)
  · split
    · norm_num
    split
    · norm_num
    · exact ne_of_gt (by linarith)

/-- **An interrupted frame.** -/
theorem frame_left {a : Aim} {t : Tracker} (h : At a t) (hg : Gentle t.servo) (f : Frame) (k : Nat) :
    ∃ u, (t.frame (some k) f = .ok u ∨ t.frame (some k) f = .error u) ∧ Left a u (f.breaks k) := by
  unfold Tracker.frame Frame.breaks
  rw [bestBox_eq]
  cases f.dog with
  | none => exact ⟨t, .inl rfl, by rw [h.position, h.motorSteps], h.shaft.trans h.angle.symm⟩
  | some d =>
    dsimp only [Option.map_some]
    by_cases hk : k < Tracker.turnSleeps (f.errorX d.bbox)
    · obtain ⟨u, hu, hservo, hm, hp⟩ := turn_cut t hk
      rw [if_pos hk, hu]
      refine ⟨u, .inr rfl, ?_, ?_⟩
      · rw [hm, h.motorSteps, ← h.position]
        exact hp
      · rw [hservo, h.shaft, h.angle]
    · obtain ⟨u, hu, hservo, hm, hp⟩ := turn_none t (f.errorX d.bbox)
      have htracked : u.stepper.position = 8 * u.stepper.motorSteps := by
        rw [hp, hm, h.position, h.motorSteps, ← mul_add]
      rw [if_neg hk, turn_beyond t (not_lt.1 hk), hu]
      by_cases hy : 10 < |f.errorY d.bbox| ∧ k < Tracker.turnSleeps (f.errorX d.bbox) + 2
      · obtain ⟨v, hv, hstepper, hangle, hshaft⟩ := tilt_cut u hy.1 (Nat.sub_lt_left_of_lt_add (not_lt.1 hk) hy.2)
        rw [hservo, h.angle] at hangle hshaft
        rw [if_pos hy]
        refine ⟨v, .inr hv, hstepper ▸ htracked, hangle, fun ha => ?_⟩
        rw [hshaft, ha]
        exact clamped_leaves hy.1
      · have hbeyond : ¬ (10 < |f.errorY d.bbox| ∧ k - Tracker.turnSleeps (f.errorX d.bbox) < 2) :=
          fun hlt => hy ⟨hlt.1, by omega⟩
        obtain ⟨v, hv, hstepper, hshaft, -, -⟩ :=
          tilt_none u (f.errorY d.bbox) (by rw [hservo, h.shaft, h.angle]) (hservo ▸ hg)
        rw [if_neg hy]
        exact ⟨v, .inl ((tilt_beyond u hbeyond).trans hv), hstepper ▸ htracked, hshaft⟩

/-! ## The way back -/

/-- What `reset_motors` does, whatever it finds. -/
theorem reset_spec (t : Tracker) : ∃ u, t.reset = .ok u ∧
    u.stepper.position = t.stepper.position - 8 * t.stepper.motorSteps ∧
    u.servo.shaft = if t.servo.angle = servoInitialAngle then t.servo.shaft else servoInitialAngle := by
  obtain ⟨s, hs, -, hp⟩ := resetMotors_spec t.stepper
  refine ⟨⟨s, resetServo0916 t.servo⟩, by rw [Tracker.reset, hs], hp, ?_⟩
  unfold resetServo0916
  by_cases h : t.servo.angle = servoInitialAngle
  · rw [if_neg (not_not.2 h), if_pos h]
  · rw [if_pos h, if_neg h, moveServo0916, ← clamped_eq, shaft_pulse _ _ _ [0] (.inr rfl), clamped_initial]

/-- The stepper is within one half-step of its start, and the servo at 90 degrees. -/
def Tracker.Home (t : Tracker) : Prop := |t.stepper.position| ≤ 1 ∧ t.servo.shaft = servoInitialAngle

/-- What a break must be like for the way back to end at home. -/
def Break.Harmless (a : Aim) : Break → Prop
  | .stepper j => j = 0
  | .servo => a.angle ≠ servoInitialAngle
  | .none => True

theorem home_of_left {a : Aim} {t : Tracker} {b : Break} (h : Left a t b) :
    ∃ u, t.reset = .ok u ∧ (u.Home ↔ b.Harmless a) := by
  obtain ⟨u, hu, hp, hs⟩ := reset_spec t
  refine ⟨u, hu, ?_⟩
  unfold Tracker.Home
  rw [hp, hs]
  cases b with
  | stepper j =>
    have hservo : (if t.servo.angle = servoInitialAngle then t.servo.shaft else servoInitialAngle) =
        servoInitialAngle := by
      split
      · rename_i ha
        exact h.2.trans ha
      · rfl
    rw [h.1, Break.Harmless]
    exact ⟨fun hh => by omega, fun hj => ⟨by omega, hservo⟩⟩
  | servo =>
    obtain ⟨hpos, hangle, hleft⟩ := h
    rw [hpos, sub_self, abs_zero, hangle, Break.Harmless]
    by_cases ha : a.angle = servoInitialAngle
    · rw [if_pos ha]
      exact ⟨fun hh => absurd hh.2 (hleft ha), fun hh => absurd ha hh⟩
    · rw [if_neg ha]
      exact ⟨fun _ => ha, fun _ => ⟨zero_le_one, rfl⟩⟩
  | none =>
    rw [h.1, sub_self, abs_zero, Break.Harmless]
    refine iff_of_true ⟨zero_le_one, ?_⟩ trivial
    split
    · rename_i ha
      exact h.2.trans ha
    · rfl

/-- **Homing of the tracker.** At the end of a run, in exact numbers, both motors are back iff the break, if there is
one, is harmless. -/
theorem home_iff (frames : List Frame) (last : Option (Frame × Nat)) : ∃ t, Tracker.program frames last = .ok t ∧
    (t.Home ↔ ∀ f k, last = some (f, k) → (f.breaks k).Harmless (aim frames)) := by
  obtain ⟨t, ht, hat, hg⟩ := frames_at frames at_start (t := tracker₀) (by intro d hd; cases hd)
  unfold Tracker.program Tracker.inference
  rw [ht]
  match last with
  | none =>
    have hleft : Left (aim frames) t .none := ⟨by rw [hat.position, hat.motorSteps], hat.shaft.trans hat.angle.symm⟩
    obtain ⟨u, hu, hhome⟩ := home_of_left hleft
    exact ⟨u, hu, hhome.trans (iff_of_true trivial (by simp))⟩
  | some (f, k) =>
    obtain ⟨u, hu, hleft⟩ := frame_left hat hg f k
    obtain ⟨v, hv, hhome⟩ := home_of_left hleft
    refine ⟨v, ?_, hhome.trans ?_⟩
    · show (match t.frame (some k) f with
        | .ok t => t.reset
        | .error t => t.reset) = .ok v
      rcases hu with hu | hu <;> rw [hu] <;> exact hv
    · simp [aim]

end PetVending.Tracking
