import PetVending.Lib.Transition
import Mathlib.Algebra.GroupWithZero.Nat
import Mathlib.Data.Fin.VecNotation
import Mathlib.Data.List.Chain
import Mathlib.Data.List.OfFn
import Mathlib.Logic.Function.Basic

/-!
# Motors of the vending machine: `freertos.c`

`UART_Task_Func` takes motor numbers from `msgQueue` and switches pins on, `IR_Task_Func` samples the sensors and
switches a pin off when its sensor's majority goes from `RESET` to `SET`. Nothing waits for a motor to stop.

- `irPin`: the body of the sensor loop for one pin, with `majorityVote`;
- `step`: both tasks and `osMessagePut`, in any order and for any samples;
- `starts_add_absorbed`: a command processed while its motor is off starts a run, one processed while it is on is
  absorbed; every command taken is processed (`taken_eq`);
- `none_absorbed_iff`: no command of a motor is absorbed iff between any two of them the motor was switched off.
-/

namespace PetVending.Firmware

open Transition

/-- `GPIO_PinState` -/
inductive PinState
  | reset
  | set
  deriving DecidableEq

/-- `SAMPLE_COUNT` -/
def sampleCount : Nat := 5

/-- `NUM_MOTOR_PINS`, `NUM_IR_PINS` -/
def numPins : Nat := 6

instance : NeZero numPins := ⟨Nat.succ_ne_zero 5⟩

/-- `motorPins`: bits of `GPIOA`. -/
def motorPins : Fin numPins → Fin 16 := ![0, 1, 4, 5, 6, 7]

theorem motorPins_injective : Function.Injective motorPins := by
  unfold Function.Injective
  decide

/-! ## The sensor loop -/

/-- `majorityVote` -/
def majorityVote (samples : List PinState) (count : Nat) : PinState :=
  if (samples.take count).count .set > count / 2 then .set else .reset

/-- What `IR_Task_Func` keeps for one pin. -/
structure Sensor where
  sampleValues : List PinState
  sampleIndex : Nat
  currentIrValue : PinState
  previousIrValue : PinState

/-- Zero-initialised globals. -/
def Sensor.init : Sensor := ⟨List.replicate sampleCount .reset, 0, .reset, .reset⟩

/-- The body of the loop for a pin whose read gives `v`, and whether it switches the motor off. -/
def irPin (r : Sensor) (v : PinState) : Sensor × Bool :=
  let samples := r.sampleValues.set r.sampleIndex v
  let index := (r.sampleIndex + 1) % sampleCount
  if index = 0 then
    let majority := majorityVote samples sampleCount
    (⟨samples, index, majority, r.currentIrValue⟩, r.currentIrValue = .reset ∧ majority = .set)
  else (⟨samples, index, r.currentIrValue, r.previousIrValue⟩, false)

/-! ## The tasks -/

/-- Where `UART_Task_Func` is: waiting for a message, or having taken one. -/
inductive UartPc
  | waiting
  | taken (motorNumber : Nat)
  deriving DecidableEq

/-- The machine; `pin` is the pin the sensor loop looks at next. -/
structure Machine where
  msgQueue : List Nat
  gpioa : Fin 16 → PinState
  uart : UartPc
  sensor : Fin numPins → Sensor
  pin : Fin numPins

/-- The pins are `RESET` and the queue is empty. -/
def machineStart : Machine := ⟨[], fun _ => .reset, .waiting, fun _ => .init, 0⟩

/-- The pin of motor `k + 1`. -/
def Machine.motor (s : Machine) (k : Fin numPins) : PinState := s.gpioa (motorPins k)

/-- `HAL_GPIO_WritePin(MOTOR_PORT, motorPins[k], v)` -/
def Machine.write (s : Machine) (k : Fin numPins) (v : PinState) : Machine :=
  { s with gpioa := Function.update s.gpioa (motorPins k) v }

/-- A command arrives (`bluetooth_Event`), `UART_Task_Func` goes on, or `IR_Task_Func` reads its next pin. -/
inductive Act
  | put (motorNumber : Int)
  | uart
  | ir (v : PinState)
  deriving DecidableEq

/-- The capacity of `msgQueue`. -/
def queueSize : Nat := 32

def step (s : Machine) : Act → Option Machine
  | .put m =>
    -- a full queue refuses the message
    if 1 ≤ m ∧ m ≤ numPins ∧ s.msgQueue.length < queueSize then some { s with msgQueue := s.msgQueue ++ [m.toNat] }
    else some s
  | .uart =>
    match s.uart, s.msgQueue with
    | .waiting, [] => none
    | .waiting, m :: q => some { s with msgQueue := q, uart := .taken m }
    | .taken m, _ =>
      if h : 1 ≤ m ∧ m ≤ numPins then some { s.write ⟨m - 1, by omega⟩ .set with uart := .waiting }
      else some { s with uart := .waiting }
  | .ir v =>
    let r := irPin (s.sensor s.pin) v
    let t := { s with sensor := Function.update s.sensor s.pin r.1, pin := s.pin + 1 }
    some (if r.2 then t.write s.pin .reset else t)

/-! ## Commands, runs and drops of one motor -/

section Edges

variable (k : Fin numPins) (e : Machine × Act × Machine)

/-- The step takes a command of motor `k` from the queue. -/
def takes : Bool := e.2.1 = .uart ∧ e.1.uart = .waiting ∧ e.1.msgQueue.head? = some (k.val + 1)

/-- The step processes a command of motor `k`. -/
def processes : Bool := e.2.1 = .uart ∧ e.1.uart = .taken (k.val + 1)

/-- The step switches motor `k` off at a drop edge. -/
def drops : Bool :=
  match e.2.1 with
  | .ir v => e.1.pin = k ∧ (irPin (e.1.sensor k) v).2
  | _ => false

/-- The pin of motor `k` goes from `RESET` to `SET`. -/
def starts : Bool := e.1.motor k = .reset ∧ e.2.2.motor k = .set

/-- A command of motor `k` is processed while the motor is running. -/
def absorbed : Bool := processes k e ∧ e.1.motor k = .set

/-- What the step writes to the pin of motor `k`. -/
def writes : Option PinState :=
  if processes k e then some .set else if drops k e then some .reset else none

end Edges

theorem write_motor (s : Machine) (j k : Fin numPins) (v : PinState) :
    (s.write j v).motor k = if k = j then v else s.motor k := by
  simp [Machine.write, Machine.motor, Function.update_apply, motorPins_injective.eq_iff]

section Step

variable {s t : Machine} {a : Act} (k : Fin numPins)

/-- **What a step does to the pin of a motor** is what it writes to it. -/
theorem motor_step (h : step s a = some t) : t.motor k = (writes k (s, a, t)).getD (s.motor k) := by
  cases a with
  | put m =>
    simp only [step] at h
    split at h <;> cases h <;> rfl
  | uart =>
    simp only [step] at h
    split at h
    · cases h
    · rename_i m q hu hq
      cases h
      simp [writes, processes, drops, hu, Machine.motor]
    · rename_i m hu
      split at h
      · rename_i hm
        cases h
        have hk : k = ⟨m - 1, by omega⟩ ↔ m = k.val + 1 := by
          rw [Fin.ext_iff]
          simp only
          omega
        show ((s.write _ _).motor k) = _
        rw [write_motor]
        by_cases hmk : m = k.val + 1
        · rw [if_pos (hk.2 hmk)]
          simp [writes, processes, hu, hmk]
        · rw [if_neg (fun h => hmk (hk.1 h))]
          simp [writes, processes, drops, hu, hmk]
      · rename_i hm
        cases h
        have hmk : m ≠ k.val + 1 := by
          have := k.isLt
          omega
        simp [writes, processes, drops, hu, hmk, Machine.motor]
  | ir v =>
    simp only [step, Option.some.injEq] at h
    subst h
    by_cases hd : (irPin (s.sensor s.pin) v).2 = true
    · rw [if_pos hd]
      by_cases hk : k = s.pin
      · subst hk
        rw [write_motor, if_pos rfl]
        simp [writes, processes, drops, hd]
      · rw [write_motor, if_neg hk]
        simp [writes, processes, drops, Ne.symm hk, Machine.motor]
    · rw [if_neg hd]
      by_cases hk : k = s.pin
      · subst hk
        simp [writes, processes, drops, hd, Machine.motor]
      · simp [writes, processes, drops, Ne.symm hk, Machine.motor]

/-- A command starts a run or is absorbed. -/
theorem starts_or_absorbed (h : step s a = some t) :
    (starts k (s, a, t)).toNat + (absorbed k (s, a, t)).toNat = (processes k (s, a, t)).toNat := by
  have hm := motor_step k h
  unfold starts absorbed
  simp only [hm]
  unfold writes
  cases hp : processes k (s, a, t) <;> cases hd : drops k (s, a, t) <;> cases hs : s.motor k <;> simp

/-- A command that is taken is the one processed next. -/
theorem taken_step (h : step s a = some t) :
    (processes k (s, a, t)).toNat + (decide (t.uart = .taken (k.val + 1))).toNat =
      (takes k (s, a, t)).toNat + (decide (s.uart = .taken (k.val + 1))).toNat := by
  cases a with
  | put m =>
    simp only [step] at h
    split at h <;> cases h <;> simp [processes, takes]
  | uart =>
    simp only [step] at h
    split at h
    · cases h
    · rename_i m q hu hq
      cases h
      simp [processes, takes, hu, hq]
    · rename_i m hu
      split at h <;> cases h <;> simp [processes, takes, hu]
  | ir v =>
    simp only [step, Option.some.injEq] at h
    subst h
    split <;> rfl

end Step

/-! ## Runs -/

section Runs

variable {tr : List (Machine × Act × Machine)} {s : Machine} (h : Run step machineStart tr s) (k : Fin numPins)

include h

/-- **Every command processed starts a run or is absorbed.** -/
theorem starts_add_absorbed : tr.countP (starts k) + tr.countP (absorbed k) = tr.countP (processes k) := by
  induction h with
  | nil => rfl
  | snoc _ hst ih =>
    have hk := starts_or_absorbed k hst
    simp only [List.countP_append, List.countP_singleton]
    simp only [Bool.toNat, cond_eq_ite] at hk
    omega

/-- Every command taken is processed, the last one possibly later. -/
theorem taken_eq : tr.countP (takes k) =
    tr.countP (processes k) + if s.uart = .taken (k.val + 1) then 1 else 0 := by
  induction h with
  | nil => rfl
  | snoc _ hst ih =>
    have hk := taken_step k hst
    simp only [List.countP_append, List.countP_singleton]
    simp only [Bool.toNat, cond_eq_ite, decide_eq_true_eq] at hk
    omega

/-- The pin of a motor is what was last written to it. -/
theorem motor_eq : s.motor k = ((tr.filterMap (writes k)).getLast?).getD .reset := by
  induction h with
  | nil => rfl
  | snoc _ hst ih =>
    rw [motor_step k hst, ih, List.filterMap_append]
    cases hw : writes k (_, _, _) with
    | none => simp [hw]
    | some v => simp [hw]

/-- **No command of motor `k` is absorbed iff the motor was switched off between any two of them.** -/
theorem none_absorbed_iff : tr.countP (absorbed k) = 0 ↔
    (tr.filterMap (writes k)).IsChain fun v w => ¬ (v = .set ∧ w = .set) := by
  induction h with
  | nil => simp
  | @snoc tr s t a hr hst ih =>
    have hm := motor_eq hr k
    rw [List.countP_append, List.filterMap_append, List.isChain_append, Nat.add_eq_zero_iff, ih]
    apply and_congr_right
    intro _
    rw [List.countP_singleton]
    -- the new command is absorbed iff the last write was `SET` as well
    cases hp : processes k (s, a, t) with
    | false => cases hd : drops k (s, a, t) <;> simp [absorbed, writes, hp, hd]
    | true =>
      cases hl : (tr.filterMap (writes k)).getLast? with
      | none =>
        rw [hl] at hm
        simp [absorbed, writes, hp, hm]
      | some v =>
        rw [hl] at hm
        simp [absorbed, writes, hp, hm]

end Runs

/-- **Commands and runs.** The runs of a motor are the commands processed less those absorbed; every command finds the
motor off iff it was switched off between any two of its commands. -/
theorem vend_runs {tr : List (Machine × Act × Machine)} {s : Machine} (h : Run step machineStart tr s)
    (k : Fin numPins) :
    tr.countP (takes k) = tr.countP (processes k) + (if s.uart = .taken (k.val + 1) then 1 else 0) ∧
    tr.countP (starts k) + tr.countP (absorbed k) = tr.countP (processes k) ∧
    ((∀ e ∈ tr, processes k e = true → e.1.motor k = .reset) ↔
      (tr.filterMap (writes k)).IsChain fun v w => ¬ (v = .set ∧ w = .set)) := by
  refine ⟨taken_eq h k, starts_add_absorbed h k, ?_⟩
  rw [← none_absorbed_iff h k, List.countP_eq_zero]
  apply forall₂_congr
  intro e _
  cases hs : e.1.motor k <;> simp [absorbed, hs]

/-- Two commands of motor 1 with a drop in between. -/
theorem vend_runs_drop : ∃ tr s, trace step machineStart
      ([.put 1, .put 1, .uart, .uart] ++ List.replicate 25 (.ir .set) ++ [.uart, .uart]) = some (tr, s) ∧
    ∀ e ∈ tr, processes 0 e = true → e.1.motor 0 = .reset := by
  have hrun : (trace step machineStart
      ([.put 1, .put 1, .uart, .uart] ++ List.replicate 25 (.ir .set) ++ [.uart, .uart])).any (fun r =>
        r.1.filterMap (writes 0) = [.set, .reset, .set]) = true := by decide +kernel
  obtain ⟨⟨tr, s⟩, hs, hw⟩ := (Option.any_eq_true ..).1 hrun
  refine ⟨tr, s, hs, (vend_runs (run_of_trace hs) 0).2.2.2 ?_⟩
  rw [of_decide_eq_true hw]
  simp

/-- Two commands of motor 1 one after the other give one run. -/
theorem second_command_absorbed : ¬ ∀ (tr : List (Machine × Act × Machine)) (s : Machine),
    Run step machineStart tr s → ∀ k, (∀ e ∈ tr, processes k e = true → e.1.motor k = .reset) ∧
      (s.uart = .waiting → tr.countP (starts k) = tr.countP (takes k)) := by
  intro h
  have hrun : (trace step machineStart [.put 1, .put 1, .uart, .uart, .uart, .uart]).any (fun r =>
      r.2.uart = .waiting ∧ r.1.countP (starts 0) = 1 ∧ r.1.countP (takes 0) = 2) = true := by decide
  obtain ⟨⟨tr, s⟩, hs, hp⟩ := (Option.any_eq_true ..).1 hrun
  obtain ⟨hu, h1, h2⟩ := of_decide_eq_true hp
  have heq := (h tr s (run_of_trace hs) 0).2 hu
  rw [h1, h2] at heq
  cases heq

end PetVending.Firmware
