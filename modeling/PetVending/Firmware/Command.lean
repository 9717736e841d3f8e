import PetVending.Lib.Decimal
import PetVending.Firmware.Motor

/-!
# Commands over Bluetooth: `HAL_UART_RxCpltCallback` and `bluetooth_Event`

- `recvMsg`: a round of the bridge `iot_client_bluetooth.c`, from the server to Bluetooth;
- `rxCplt`: the branch for USART6. A byte goes to `btData[i]`; a line feed or carriage return ends the line and calls
  `bluetooth_Event`;
- `bluetoothEvent`: the `strtok` loop over `"[@]"`, and the branch for `MOTOR`;
- `rx_line`: a line that fits into `btData` calls `bluetooth_Event` once, with this line, whatever `btData` held;
- `splitCmd_eq`: `pArray` is the first `ARR_CNT` tokens of the line;
- `enqueued_eq`: while `msgQueue` has room, the numbers handed to `osMessagePut` are the numbers put into it, whatever
  the tasks do in between.
-/

namespace PetVending.Firmware

open CStr Transition

/-! ## The bridge -/

/-- `NAME_SIZE` -/
def nameSize : Nat := 20

/-- `BUF_SIZE` -/
def bufSize : Nat := 100

/-- A round of `recv_msg` when the bytes `bs` have arrived: what it writes to Bluetooth. -/
def recvMsg (bs : List Byte) : List Byte :=
  let read := bs.take (nameSize + bufSize)
  strAt (read ++ List.replicate (nameSize + bufSize + 1 - read.length) 0) 0

theorem recvMsg_eq {bs : List Byte} (h0 : ∀ c ∈ bs, c ≠ 0) (hfit : bs.length ≤ nameSize + bufSize) :
    recvMsg bs = bs := by
  rw [recvMsg, List.take_of_length_le hfit, Nat.succ_sub hfit, List.replicate_succ]
  exact strAt_nul _ h0

/-! ## The handlers -/

/-- `CMD_SIZE`, also the size of `btData`. -/
def cmdSize : Nat := 50

/-- `ARR_CNT` -/
def arrCnt : Nat := 5

/-- The delimiters `"[@]"`. -/
def isDelim (c : Byte) : Bool := c = 91 || c = 64 || c = 93

/-- What the handlers may do wrong: store behind `btData`, hand an unset (NULL) token to a string function, or write
behind `sendBuf`. -/
inductive CmdFault
  | rxStore
  | nullToken
  | sendStore
  deriving DecidableEq

/-- What `bluetooth_Event` does: the number it hands to `osMessagePut`, and the text it sends back. -/
structure Event where
  motorNumber : Option Nat
  reply : Option (List Byte)
  deriving DecidableEq

/-- The strings in `pArray` behind the `strtok` loop over a copy of `btData`. -/
def splitCmd (btData : List Byte) : List (Option (List Byte)) :=
  let r := strtokLoop isDelim arrCnt (strAt btData 0 ++ [0]) 0
  r.1.map (fun p => some (strAt r.2 p)) ++ List.replicate (arrCnt - r.1.length) none

/-- `"[%s]%s@%s\n"` -/
def echo (t cmd arg : List Byte) : List Byte := 91 :: t ++ 93 :: cmd ++ 64 :: arg ++ [10]

/-- The number of a motor, if there is such a motor. -/
def inRange (z : Int) : Option Nat := if 1 ≤ z ∧ z ≤ numPins then some z.toNat else none

/-- `bluetooth_Event`; `long` has 32 bits. -/
def bluetoothEvent (btData : List Byte) : Except CmdFault Event :=
  match splitCmd btData with
  | some t :: some cmd :: arg :: _ =>
    if cmd = bytes "MOTOR" then
      match arg with
      | none => .error .nullToken
      | some arg =>
        if (echo t cmd arg).length < cmdSize then .ok ⟨inRange (atoi 32 arg), some (echo t cmd arg)⟩
        else .error .sendStore
    -- " New conn", " Already log" and everything else return
    else .ok ⟨none, none⟩
  | _ => .error .nullToken

/-- `btData` and the static index `i` of the USART6 branch. -/
structure Rx where
  btData : List Byte
  i : Nat
  size : btData.length = cmdSize

/-- `btData[i] = c` -/
def Rx.store (s : Rx) (c : Byte) (i : Nat) : Rx := ⟨s.btData.set s.i c, i, by rw [List.length_set]; exact s.size⟩

/-- The USART6 branch of `HAL_UART_RxCpltCallback`: a byte arrives. -/
def rxCplt (s : Rx) (btchar : Byte) : Except CmdFault (Rx × Option Event) :=
  if s.i < cmdSize then
    if btchar = 10 ∨ btchar = 13 then
      let s := s.store 0 0
      match bluetoothEvent s.btData with
      | .ok e => .ok (s, some e)
      | .error f => .error f
    else .ok (s.store btchar (s.i + 1), none)
  else .error .rxStore

/-- The bytes of a text arrive: the events. -/
def rxBytes : Rx → List Byte → Except CmdFault (Rx × List Event)
  | s, [] => .ok (s, [])
  | s, c :: cs =>
    match rxCplt s c with
    | .error f => .error f
    | .ok (s, e) =>
      match rxBytes s cs with
      | .error f => .error f
      | .ok (s, es) => .ok (s, e.toList ++ es)

/-! ## Lines -/

/-- A byte of a line: not its end, and not NUL. -/
def LineByte (c : Byte) : Prop := c ≠ 10 ∧ c ≠ 13 ∧ c ≠ 0

theorem isDelim_zero : isDelim 0 = false := by decide

/-- **`pArray` holds the first `ARR_CNT` tokens of the line.** -/
theorem splitCmd_eq (btData : List Byte) : splitCmd btData =
    ((tokens isDelim (strAt btData 0)).take arrCnt).map some ++
      List.replicate (arrCnt - (tokens isDelim (strAt btData 0)).length) none := by
  obtain ⟨offs, b', hl, -, hm, -, -⟩ := strtokLoop_spec isDelim_zero [] arrCnt [] (strAt btData 0)
    fun c hc => (mem_strAt hc).2
  simp only [List.nil_append, List.length_nil] at hl hm
  have hlen : offs.length = min arrCnt (tokens isDelim (strAt btData 0)).length := by
    rw [← List.length_take, ← hm, List.length_map]
  rw [splitCmd]
  simp only [hl]
  rw [← hm, List.map_map, hlen]
  congr 2
  omega

/-- Behind bytes without an event. -/
theorem rxBytes_append {cs : List Byte} (ds : List Byte) : ∀ {s t : Rx}, rxBytes s cs = .ok (t, []) →
    rxBytes s (cs ++ ds) = rxBytes t ds := by
  induction cs with
  | nil => intro s t h; cases h; rfl
  | cons c cs ih =>
    intro s t h
    rw [rxBytes] at h
    split at h
    · cases h
    · rename_i s' e hc
      split at h
      · cases h
      · rename_i r es hr
        simp only [Except.ok.injEq, Prod.mk.injEq, List.append_eq_nil_iff] at h
        obtain ⟨rfl, he, rfl⟩ := h
        rw [List.cons_append, rxBytes, hc]
        simp only [ih hr, he, List.nil_append]
        cases rxBytes r ds <;> rfl

/-- The bytes of a line so far are in front of `btData`. -/
theorem rx_chars {line : List Byte} : ∀ (s : Rx), (∀ c ∈ line, LineByte c) → s.i + line.length ≤ cmdSize - 1 →
    ∃ t : Rx, rxBytes s line = .ok (t, []) ∧ t.i = s.i + line.length ∧
      t.btData.take t.i = s.btData.take s.i ++ line := by
  induction line with
  | nil => intro s _ _; exact ⟨s, rfl, rfl, by simp⟩
  | cons c line ih =>
    intro s hline hfit
    obtain ⟨h10, h13, -⟩ := hline c (by simp)
    rw [List.length_cons] at hfit
    have hlt : s.i < cmdSize := by unfold cmdSize at *; omega
    have hstep : rxCplt s c = .ok (s.store c (s.i + 1), none) := by
      rw [rxCplt, if_pos hlt, if_neg (by rintro (h | h); exacts [h10 h, h13 h])]
    obtain ⟨t, ht, hi, htake⟩ := ih (s.store c (s.i + 1)) (fun x hx => hline x (by simp [hx]))
      (by show s.i + 1 + line.length ≤ cmdSize - 1; omega)
    have hi' : t.i = s.i + (line.length + 1) := by rw [hi]; show s.i + 1 + line.length = _; omega
    refine ⟨t, ?_, hi', ?_⟩
    · rw [rxBytes, hstep]
      simp only [ht, Option.toList_none, List.nil_append]
    · have hset : (s.btData.set s.i c).take (s.i + 1) = s.btData.take s.i ++ [c] := by
        have hsz : s.i < s.btData.length := by rw [s.size]; exact hlt
        rw [List.take_succ_eq_append_getElem (by rw [List.length_set]; exact hsz), List.take_set_of_le le_rfl]
        simp
      rw [htake]
      show (s.btData.set s.i c).take (s.i + 1) ++ line = _
      rw [hset, List.append_assoc, List.singleton_append]

/-- **A line calls `bluetooth_Event` once, with the line**, from the start of `btData`. -/
theorem rx_line {line : List Byte} (s : Rx) (hi : s.i = 0) (hline : ∀ c ∈ line, LineByte c)
    (hfit : line.length ≤ cmdSize - 1) : ∃ t : Rx, t.i = 0 ∧ strAt t.btData 0 = line ∧
      rxBytes s (line ++ [10]) = (bluetoothEvent t.btData).map fun e => (t, [e]) := by
  obtain ⟨t, ht, hti, htake⟩ := rx_chars s hline (by omega)
  rw [hi] at htake
  rw [hi, Nat.zero_add] at hti
  have hlt : t.i < cmdSize := by unfold cmdSize at *; omega
  refine ⟨t.store 0 0, rfl, ?_, ?_⟩
  · show strAt (t.btData.set t.i 0) 0 = line
    rw [List.set_eq_take_append_cons_drop, if_pos (by rw [t.size]; exact hlt), htake]
    exact strAt_nul _ fun c hc => (hline c hc).2.2
  · rw [rxBytes_append [10] ht, rxBytes, rxCplt, if_pos hlt]
    cases he : bluetoothEvent (t.store 0 0).btData with
    | error f => simp [he, Except.map]
    | ok e => simp [he, Except.map, rxBytes]

/-- A command for a motor is echoed. -/
theorem bluetoothEvent_motor {btData t arg : List Byte} {rest : List (Option (List Byte))}
    (h : splitCmd btData = some t :: some (bytes "MOTOR") :: some arg :: rest)
    (hfit : (echo t (bytes "MOTOR") arg).length < cmdSize) :
    bluetoothEvent btData = .ok ⟨inRange (atoi 32 arg), some (echo t (bytes "MOTOR") arg)⟩ := by
  simp only [bluetoothEvent, h, if_true, if_pos hfit]

/-! ## The queue -/

/-- The number a step hands to `osMessagePut`. -/
def puts (e : Machine × Act × Machine) : Option Int :=
  match e.2.1 with
  | .put m => some m
  | _ => none

/-- The number a step puts into `msgQueue`. -/
def enqueued (e : Machine × Act × Machine) : Option Nat :=
  match e.2.1 with
  | .put _ => (e.2.2.msgQueue.drop e.1.msgQueue.length).head?
  | _ => none

/-- A put finds room in the queue. -/
def HasRoom (e : Machine × Act × Machine) : Prop := ∀ m, e.2.1 = .put m → e.1.msgQueue.length < queueSize

theorem enqueued_put {s t : Machine} {m : Int} (h : step s (.put m) = some t) (hroom : s.msgQueue.length < queueSize) :
    enqueued (s, .put m, t) = inRange m := by
  simp only [step, hroom, and_true] at h
  unfold inRange
  split at h <;> rename_i hm <;> cases h
  · rw [if_pos hm]
    simp [enqueued]
  · rw [if_neg hm]
    simp [enqueued]

/-- **While there is room, the queue takes the numbers in range**, in order. -/
theorem enqueued_eq {tr : List (Machine × Act × Machine)} {i s : Machine} (h : Run step i tr s)
    (hroom : ∀ e ∈ tr, HasRoom e) : tr.filterMap enqueued = (tr.filterMap puts).filterMap inRange := by
  induction h with
  | nil => rfl
  | @snoc tr s t a hr hst ih =>
    rw [List.filterMap_append, List.filterMap_append, List.filterMap_append, ih fun e he => hroom e (by simp [he])]
    congr 1
    cases a with
    | put m =>
      have he := enqueued_put hst (hroom (s, .put m, t) (by simp) m rfl)
      cases hm : inRange m <;> simp [puts, he, hm]
    | uart => rfl
    | ir v => rfl

theorem inRange_natCast (n : Nat) : inRange n = if 1 ≤ n ∧ n ≤ numPins then some n else none := by
  have h : 1 ≤ (n : Int) ∧ (n : Int) ≤ numPins ↔ 1 ≤ n ∧ n ≤ numPins := by omega
  rw [inRange, if_congr h rfl rfl, Int.toNat_natCast]

/-- A run from `i` that hands the numbers `ns` to `osMessagePut`, one after the other, and always finds room. -/
structure Serves (i : Machine) (ns : List Nat) (tr : List (Machine × Act × Machine)) (s : Machine) : Prop where
  run : Run step i tr s
  room : ∀ e ∈ tr, HasRoom e
  puts : tr.filterMap puts = ns.map fun n : Nat => (n : Int)

theorem Serves.trans {i s t : Machine} {ns ns' : List Nat} {tr tr' : List (Machine × Act × Machine)}
    (h : Serves i ns tr s) (h' : Serves s ns' tr' t) : Serves i (ns ++ ns') (tr ++ tr') t where
  run := h.run.trans h'.run
  room := List.forall_mem_append.2 ⟨h.room, h'.room⟩
  puts := by rw [List.filterMap_append, h.puts, h'.puts, List.map_append]

/-- A number is put into the empty queue, taken and processed. -/
theorem serve_one {s : Machine} {n : Nat} (hn : 1 ≤ n ∧ n ≤ numPins) (hq : s.msgQueue = []) (hu : s.uart = .waiting) :
    ∃ tr t, Serves s [n] tr t ∧ t.msgQueue = [] ∧ t.uart = .waiting := by
  let s₁ : Machine := { s with msgQueue := [n] }
  let s₂ : Machine := { s with msgQueue := [], uart := .taken n }
  let s₃ : Machine := { s₂.write ⟨n - 1, by omega⟩ .set with uart := .waiting }
  have hput : step s (.put n) = some s₁ := by
    have hrange : 1 ≤ (n : Int) ∧ (n : Int) ≤ numPins ∧ s.msgQueue.length < queueSize := by
      rw [hq]
      exact ⟨by omega, by omega, by decide⟩
    rw [step, if_pos hrange, hq]
    rfl
  have htake : step s₁ .uart = some s₂ := by simp [step, s₁, s₂, hu]
  have hwrite : step s₂ .uart = some s₃ := by simp [step, s₂, s₃, hn]
  refine ⟨[(s, .put n, s₁), (s₁, .uart, s₂), (s₂, .uart, s₃)], s₃, ⟨?_, ?_, rfl⟩, rfl, rfl⟩
  · exact ((Run.nil.snoc hput).snoc htake).snoc hwrite
  · intro e he m hm
    simp only [List.mem_cons, List.not_mem_nil, or_false] at he
    rcases he with rfl | rfl | rfl
    · rw [hq]; decide
    · cases hm
    · cases hm

/-- Numbers in range can always be served: `UART_Task_Func` may take each one before the next one comes. -/
theorem serves {ns : List Nat} (hns : ∀ n ∈ ns, 1 ≤ n ∧ n ≤ numPins) : ∀ {i : Machine}, i.msgQueue = [] →
    i.uart = .waiting → ∃ tr s, Serves i ns tr s := by
  induction ns with
  | nil => intro i _ _; exact ⟨[], i, .nil, by simp, rfl⟩
  | cons n ns ih =>
    intro i hq hu
    obtain ⟨tr, t, hone, hq', hu'⟩ := serve_one (hns n List.mem_cons_self) hq hu
    obtain ⟨tr', s, hrest⟩ := ih (fun m hm => hns m (List.mem_cons_of_mem n hm)) hq' hu'
    exact ⟨tr ++ tr', s, hone.trans hrest⟩

/-- **What a run puts into the queue.** -/
theorem Serves.enqueued {i s : Machine} {ns : List Nat} {tr : List (Machine × Act × Machine)} (h : Serves i ns tr s) :
    tr.filterMap enqueued = ns.filter fun n => 1 ≤ n ∧ n ≤ numPins := by
  rw [enqueued_eq h.run h.room, h.puts, List.filterMap_map, ← List.filterMap_eq_filter]
  apply List.filterMap_congr
  intro n _
  rw [Function.comp_apply, inRange_natCast]
  by_cases hn : 1 ≤ n ∧ n ≤ numPins <;> simp [hn, Option.guard]

end PetVending.Firmware
