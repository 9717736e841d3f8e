import PetVending.Firmware.Motor
import PetVending.Firmware.Queue

/-!
# The machine on its message queue

`freertos.c` hands the numbers of the motors to its task through `osMessagePut` and `osMessageGet`, which keep them as
four bytes each in a queue of `queue.c`.

- `Board`: the machine of `freertos.c` on such a queue;
- `Refines`: the ring of the board holds the messages of the machine; every step keeps it (`Refines.step`);
- **`board_eq`**: the runs of the board are those of the machine on a list of at most 32 messages.
-/

namespace PetVending.Firmware

open CStr Transition Ring

variable {q : QueueDefinition} {r : Nat}

/-! ## Messages in four bytes -/

/-- A `uint32_t` in memory. -/
def uint32 (v : Nat) : List Byte := [v, v / 2 ^ 8, v / 2 ^ 16, v / 2 ^ 24].map UInt8.ofNat

/-- The `uint32_t` at these bytes. -/
def ofUint32 (x : List Byte) : Nat := x.foldr (fun c v => c.toNat + 256 * v) 0

theorem ofUint32_uint32 {v : Nat} (h : v < 2 ^ 32) : ofUint32 (uint32 v) = v := by
  simp only [uint32, ofUint32, List.map_cons, List.map_nil, List.foldr_cons, List.foldr_nil, UInt8.toNat_ofNat']
  omega

/-- `osMessagePut` in an interrupt: the queue, and whether it returns `osOK`. -/
def osMessagePut (q : QueueDefinition) (info : Nat) : Option (QueueDefinition × Bool) :=
  xQueueGenericSendFromISR q (uint32 info) .sendToBack

/-- `osMessageGet` in a task: the queue and the message, `none` when there is none to be had yet. -/
def osMessageGet (q : QueueDefinition) : Option (QueueDefinition × Option Nat) :=
  (xQueueReceive q).map fun r => (r.1, r.2.map ofUint32)

/-! ## The board -/

/-- The machine of `freertos.c` with `msgQueue` as `queue.c` keeps it. -/
structure Board where
  msgQueue : QueueDefinition
  gpioa : Fin 16 → PinState
  uart : UartPc
  sensor : Fin numPins → Sensor
  pin : Fin numPins

/-- `osMessageCreate(osMessageQ(msgQueue), NULL)` with the storage it gets. -/
def boardStart (storage : List Byte) : Option Board :=
  (xQueueGenericCreate queueSize 4 storage).map fun q => ⟨q, fun _ => .reset, .waiting, fun _ => .init, 0⟩

/-- `HAL_GPIO_WritePin(MOTOR_PORT, motorPins[k], v)` -/
def Board.write (b : Board) (k : Fin numPins) (v : PinState) : Board :=
  { b with gpioa := Function.update b.gpioa (motorPins k) v }

theorem motorIndex_lt {m : Nat} (h : 1 ≤ m ∧ m ≤ numPins) : m - 1 < numPins :=
  Nat.lt_of_lt_of_le (Nat.sub_one_lt_of_lt h.1) h.2

def Board.step (b : Board) : Act → Option Board
  | .put m =>
    if 1 ≤ m ∧ m ≤ numPins then (osMessagePut b.msgQueue m.toNat).map fun r => { b with msgQueue := r.1 }
    else some b
  | .uart =>
    match b.uart with
    | .waiting => (osMessageGet b.msgQueue).bind fun r => r.2.map fun m => { b with msgQueue := r.1, uart := .taken m }
    | .taken m =>
      if h : 1 ≤ m ∧ m ≤ numPins then some { b.write ⟨m - 1, motorIndex_lt h⟩ .set with uart := .waiting }
      else some { b with uart := .waiting }
  | .ir v =>
    let r := irPin (b.sensor b.pin) v
    let t := { b with sensor := Function.update b.sensor b.pin r.1, pin := b.pin + 1 }
    some (if r.2 then t.write b.pin .reset else t)

/-- The messages in the ring. -/
def QueueDefinition.messages (q : QueueDefinition) : List Nat :=
  (window (cell 4 q.storage) queueSize (q.pcReadFrom.toNat / 4 + 1) q.uxMessagesWaiting).map ofUint32

/-- The machine with the messages as a list. -/
def Board.machine (b : Board) : Machine := ⟨b.msgQueue.messages, b.gpioa, b.uart, b.sensor, b.pin⟩

/-! ## The board and the machine -/

/-- The board runs like the machine: its ring holds the messages. -/
structure Refines (b : Board) (s : Machine) : Prop where
  queue : ∃ r, Represents queueSize 4 b.msgQueue (s.msgQueue.map uint32) r
  small : ∀ m ∈ s.msgQueue, m < 2 ^ 32
  gpioa : b.gpioa = s.gpioa
  uart : b.uart = s.uart
  sensor : b.sensor = s.sensor
  pin : b.pin = s.pin

theorem map_ofUint32 {l : List Nat} (h : ∀ m ∈ l, m < 2 ^ 32) : (l.map uint32).map ofUint32 = l := by
  rw [List.map_map]
  calc l.map (ofUint32 ∘ uint32) = l.map id := List.map_congr_left fun m hm => ofUint32_uint32 (h m hm)
    _ = l := List.map_id l

/-- The machine of a board that refines one is that one. -/
theorem Refines.machine {b : Board} {s : Machine} (h : Refines b s) : b.machine = s := by
  obtain ⟨r, hq⟩ := h.queue
  have hmsg : b.msgQueue.messages = s.msgQueue := by
    have hr : b.msgQueue.pcReadFrom.toNat / 4 = r := by
      rw [hq.pcReadFrom, Int.toNat_natCast, Nat.mul_div_cancel _ (by decide)]
    have hitems := hq.items
    rw [QueueDefinition.messages, hr, hq.uxMessagesWaiting, hitems, map_ofUint32 h.small]
  obtain ⟨q, gpioa, uart, sensor, pin⟩ := s
  simp only [Board.machine, hmsg, h.gpioa, h.uart, h.sensor, h.pin]

/-- `osMessagePut` of a message of 32 bits. -/
theorem osMessagePut_represents {ms : List Nat} (h : Represents queueSize 4 q (ms.map uint32) r) (m : Nat) :
    ∃ q' ok, osMessagePut q m = some (q', ok) ∧
      Represents queueSize 4 q' ((if ms.length < queueSize then ms ++ [m] else ms).map uint32) r := by
  unfold osMessagePut xQueueGenericSendFromISR
  rw [if_neg (by simp), h.uxMessagesWaiting, h.uxLength, List.length_map]
  by_cases hlt : ms.length < queueSize
  · obtain ⟨q', hq', hh⟩ := h.back (by decide) (show (uint32 m).length = 4 from rfl) (by simpa using hlt)
    exact ⟨q', true, by simp [hlt, hq'], by simpa [hlt] using hh⟩
  · exact ⟨q, false, by simp [hlt], by simpa [hlt] using h⟩

/-- `osMessageGet` from an empty queue. -/
theorem osMessageGet_nil (h : Represents queueSize 4 q [] r) : osMessageGet q = some (q, none) := by
  have hzero : q.uxMessagesWaiting = 0 := h.uxMessagesWaiting
  simp [osMessageGet, xQueueReceive, hzero]

/-- `osMessageGet` of the first message. -/
theorem osMessageGet_cons {m : Nat} {ms : List Nat} (h : Represents queueSize 4 q ((m :: ms).map uint32) r)
    (hm : m < 2 ^ 32) :
    ∃ q', osMessageGet q = some (q', some m) ∧ Represents queueSize 4 q' (ms.map uint32) ((r + 1) % queueSize) := by
  obtain ⟨q', hq', hh⟩ := h.receive (by decide) rfl
  exact ⟨q', by simp [osMessageGet, hq', ofUint32_uint32 hm], hh⟩

/-- **One step.** The board can do what the machine can, with the same outcome. -/
theorem Refines.step {b : Board} {s : Machine} (h : Refines b s) (a : Act) :
    Option.Rel Refines (b.step a) (Firmware.step s a) := by
  obtain ⟨⟨r, hq⟩, hsmall, hg, hu, hsen, hp⟩ := h
  cases a with
  | put m =>
    simp only [Board.step, Firmware.step]
    by_cases hm : 1 ≤ m ∧ m ≤ numPins
    · obtain ⟨q', ok, hput, hh⟩ := osMessagePut_represents hq m.toNat
      rw [if_pos hm, hput]
      by_cases hlt : s.msgQueue.length < queueSize
      · rw [if_pos ⟨hm.1, hm.2, hlt⟩]
        rw [if_pos hlt] at hh
        refine .some ⟨⟨r, hh⟩, ?_, hg, hu, hsen, hp⟩
        intro k hk
        rcases List.mem_append.1 hk with hk | hk
        · exact hsmall k hk
        · have hpins : (numPins : Int) = 6 := rfl
          rw [List.mem_singleton.1 hk]
          omega
      · rw [if_neg fun hc => hlt hc.2.2]
        rw [if_neg hlt] at hh
        exact .some ⟨⟨r, hh⟩, hsmall, hg, hu, hsen, hp⟩
    · rw [if_neg hm, if_neg fun hc => hm ⟨hc.1, hc.2.1⟩]
      exact .some ⟨⟨r, hq⟩, hsmall, hg, hu, hsen, hp⟩
  | uart =>
    simp only [Board.step, Firmware.step, hu]
    cases hpc : s.uart with
    | waiting =>
      cases hms : s.msgQueue with
      | nil =>
        rw [hms] at hq
        simp only [osMessageGet_nil hq, Option.bind_some, Option.map_none]
        exact .none
      | cons m ms =>
        rw [hms] at hq hsmall
        obtain ⟨q', hget, hh⟩ := osMessageGet_cons hq (hsmall m List.mem_cons_self)
        simp only [hget, Option.bind_some, Option.map_some]
        exact .some ⟨⟨_, hh⟩, fun k hk => hsmall k (List.mem_cons_of_mem _ hk), hg, rfl, hsen, hp⟩
    | taken m =>
      dsimp only
      split
      · exact .some ⟨⟨r, hq⟩, hsmall, by simp only [Board.write, Machine.write, hg], rfl, hsen, hp⟩
      · exact .some ⟨⟨r, hq⟩, hsmall, hg, rfl, hsen, hp⟩
  | ir v =>
    simp only [Board.step, Firmware.step, hsen, hp]
    refine .some ?_
    split
    · exact ⟨⟨r, hq⟩, hsmall, by simp only [Board.write, Machine.write, hg], hu, rfl, rfl⟩
    · exact ⟨⟨r, hq⟩, hsmall, hg, hu, rfl, rfl⟩

/-- **A run.** -/
theorem Refines.exec : ∀ {as : List Act} {b : Board} {s : Machine}, Refines b s →
    (Transition.exec Board.step b as).map Board.machine = Transition.exec Firmware.step s as
  | [], _, _, h => congrArg some h.machine
  | a :: as, b, s, h => by
    have hr := h.step a
    simp only [Transition.exec]
    generalize b.step a = o at hr
    generalize Firmware.step s a = o' at hr
    cases hr with
    | none => rfl
    | some h' => exact Refines.exec h'

/-- **The board runs like the machine.** The firmware on the ring of `queue.c` has, for every storage that it may get
and every order of commands, tasks and samples, the runs of the firmware on a list of at most 32 messages. -/
theorem board_eq {storage : List Byte} (hst : storage.length = queueSize * 4) (as : List Act) :
    ((boardStart storage).bind fun b => exec Board.step b as).map Board.machine = exec step machineStart as := by
  have hn : 0 < queueSize := by decide
  have hw : queueSize * 4 < 2 ^ 32 := by decide
  have hstart := represents_reset (q := ⟨storage, 0, 0, 0, 0, queueSize, 4⟩) hn hw rfl rfl hst
  simp only [boardStart, xQueueGenericCreate, if_pos hn, Option.map_some, Option.bind_some]
  exact Refines.exec ⟨⟨_, hstart⟩, by simp [machineStart], rfl, rfl, rfl, rfl⟩

/-- Two commands arrive, and the first is processed. -/
theorem board_eq_two : ((boardStart (List.replicate (queueSize * 4) 0)).bind fun b =>
      exec Board.step b [.put 3, .put 6, .uart, .uart, .uart]).map Board.machine =
    exec step machineStart [.put 3, .put 6, .uart, .uart, .uart] :=
  board_eq List.length_replicate _

end PetVending.Firmware
