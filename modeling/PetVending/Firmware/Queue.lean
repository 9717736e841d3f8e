import PetVending.Lib.Ring
import PetVending.Lib.Strtok

/-!
# The message queue: `queue.c`

FreeRTOS keeps the items of a queue in a ring of `uxLength` cells of `uxItemSize` bytes: `pcWriteTo` is the free cell
behind them, `pcReadFrom` the cell in front of them.

- `xQueueGenericCreate`, `xQueueGenericSendFromISR`, `xQueueReceive`, `xQueuePeek`, `xQueueGenericReset`: the calls,
  without the lists of waiting tasks and the lock counts. `none` is a failed assertion or an access outside the storage;
- `Fifo.call`: what the calls are for, on a list of at most `n` items;
- `Represents`: the ring holds the items of a list; every call keeps it (`call_represents`);
- **`calls_eq`**: every sequence of calls on a new queue is answered as `Fifo.call` says.
-/

namespace PetVending.Firmware

open CStr Ring

/-! ## The calls -/

/-- `queueSEND_TO_BACK`, `queueSEND_TO_FRONT`, `queueOVERWRITE` -/
inductive CopyPosition
  | sendToBack
  | sendToFront
  | overwrite
  deriving DecidableEq

/-- `QueueDefinition`: `storage` is what `pcHead` points to, the other pointers are offsets from `pcHead`. -/
structure QueueDefinition where
  storage : List Byte
  pcTail : Int
  pcWriteTo : Int
  pcReadFrom : Int
  uxMessagesWaiting : Nat
  uxLength : Nat
  uxItemSize : Nat

/-- The product of two `UBaseType_t`, which have 32 bits. -/
def mulUBase (a b : Nat) : Nat := a * b % 2 ^ 32

/-- `xQueueGenericReset` -/
def xQueueGenericReset (q : QueueDefinition) : QueueDefinition :=
  { q with
    pcTail := mulUBase q.uxLength q.uxItemSize
    uxMessagesWaiting := 0
    pcWriteTo := 0
    pcReadFrom := mulUBase (q.uxLength - 1) q.uxItemSize }

/-- `sizeof( Queue_t )` with the settings of `FreeRTOSConfig.h` -/
def sizeofQueue : Nat := 72

/-- `xQueueSizeInBytes`: the storage that `xQueueGenericCreate` asks `pvPortMalloc` for, behind a `Queue_t`. The product
is not checked: for 65536 items of 65536 bytes it is 0. -/
def xQueueSizeInBytes (uxQueueLength uxItemSize : Nat) : Nat := mulUBase uxQueueLength uxItemSize

example : xQueueSizeInBytes 65536 65536 = 0 := by decide

/-- `xQueueGenericCreate` and `prvInitialiseNewQueue`, when `pvPortMalloc` has returned the bytes `storage` behind the
`Queue_t`. -/
def xQueueGenericCreate (uxQueueLength uxItemSize : Nat) (storage : List Byte) : Option QueueDefinition :=
  if 0 < uxQueueLength then some (xQueueGenericReset ⟨storage, 0, 0, 0, 0, uxQueueLength, uxItemSize⟩) else none

/-- `prvCopyDataToQueue` -/
def prvCopyDataToQueue (q : QueueDefinition) (item : List Byte) (xPosition : CopyPosition) : Option QueueDefinition :=
  let n := q.uxMessagesWaiting
  if q.uxItemSize = 0 then some { q with uxMessagesWaiting := n + 1 }
  else if xPosition = .sendToBack then
    (memcpy q.storage q.pcWriteTo item).map fun storage =>
      let p := q.pcWriteTo + q.uxItemSize
      { q with
        storage := storage
        pcWriteTo := if p ≥ q.pcTail then 0 else p
        uxMessagesWaiting := n + 1 }
  else
    (memcpy q.storage q.pcReadFrom item).map fun storage =>
      let p := q.pcReadFrom - q.uxItemSize
      -- an item that is overwritten does not count
      let n := if xPosition = .overwrite ∧ 0 < n then n - 1 else n
      { q with
        storage := storage
        pcReadFrom := if p < 0 then q.pcTail - q.uxItemSize else p
        uxMessagesWaiting := n + 1 }

/-- `prvCopyDataFromQueue`: the queue, and the bytes in `pvBuffer`. -/
def prvCopyDataFromQueue (q : QueueDefinition) : Option (QueueDefinition × List Byte) :=
  if q.uxItemSize = 0 then some (q, [])
  else
    let p := q.pcReadFrom + q.uxItemSize
    let p := if p ≥ q.pcTail then 0 else p
    (load q.storage p q.uxItemSize).map fun x => ({ q with pcReadFrom := p }, x)

/-- `xQueueGenericSendFromISR`: the queue, and whether it returns `pdPASS`. -/
def xQueueGenericSendFromISR (q : QueueDefinition) (item : List Byte) (xCopyPosition : CopyPosition) :
    Option (QueueDefinition × Bool) :=
  -- `configASSERT`
  if xCopyPosition = .overwrite ∧ q.uxLength ≠ 1 then none
  else if q.uxMessagesWaiting < q.uxLength ∨ xCopyPosition = .overwrite then
    (prvCopyDataToQueue q item xCopyPosition).map fun q => (q, true)
  else some (q, false)

/-- `xQueueReceive` without blocking: the queue, and the item unless it returns `errQUEUE_EMPTY`. -/
def xQueueReceive (q : QueueDefinition) : Option (QueueDefinition × Option (List Byte)) :=
  if 0 < q.uxMessagesWaiting then
    (prvCopyDataFromQueue q).map fun r => ({ r.1 with uxMessagesWaiting := q.uxMessagesWaiting - 1 }, some r.2)
  else some (q, none)

/-- `xQueuePeek` without blocking. -/
def xQueuePeek (q : QueueDefinition) : Option (QueueDefinition × Option (List Byte)) :=
  if 0 < q.uxMessagesWaiting then
    (prvCopyDataFromQueue q).map fun r => ({ r.1 with pcReadFrom := q.pcReadFrom }, some r.2)
  else some (q, none)

/-- A call of the queue. -/
inductive Call
  | send (item : List Byte) (xCopyPosition : CopyPosition)
  | receive
  | peek
  | reset

/-- What a call returns. -/
inductive Answer
  | sent (pass : Bool)
  | item (x : Option (List Byte))
  | done
  deriving DecidableEq

def QueueDefinition.call (q : QueueDefinition) : Call → Option (QueueDefinition × Answer)
  | .send item p => (xQueueGenericSendFromISR q item p).map fun r => (r.1, .sent r.2)
  | .receive => (xQueueReceive q).map fun r => (r.1, .item r.2)
  | .peek => (xQueuePeek q).map fun r => (r.1, .item r.2)
  | .reset => some (xQueueGenericReset q, .done)

/-- The answers of the calls. -/
def QueueDefinition.calls (q : QueueDefinition) : List Call → Option (List Answer)
  | [] => some []
  | c :: cs => (q.call c).bind fun r => (r.1.calls cs).map (r.2 :: ·)

/-! ## What the calls are for -/

/-- A call on a list of at most `n` items. -/
def Fifo.call (n : Nat) (l : List (List Byte)) : Call → List (List Byte) × Answer
  | .send item .sendToBack => if l.length < n then (l ++ [item], .sent true) else (l, .sent false)
  | .send item .sendToFront => if l.length < n then (item :: l, .sent true) else (l, .sent false)
  | .send item .overwrite => ([item], .sent true)
  | .receive => (l.tail, .item l.head?)
  | .peek => (l, .item l.head?)
  | .reset => ([], .done)

/-- The answers of the calls. -/
def Fifo.calls (n : Nat) (l : List (List Byte)) : List Call → List Answer
  | [] => []
  | c :: cs => (Fifo.call n l c).2 :: Fifo.calls n (Fifo.call n l c).1 cs

/-- The calls that a queue of `n` items of `size` bytes admits: only a queue of one item may be overwritten. -/
def Call.Legal (n size : Nat) : Call → Prop
  | .send item p => item.length = size ∧ (p = .overwrite → n = 1)
  | _ => True

/-! ## The ring holds the list -/

/-- The queue has `n` cells of `size` bytes, and holds the items `l`, the first behind cell `r`. -/
structure Represents (n size : Nat) (q : QueueDefinition) (l : List (List Byte)) (r : Nat) : Prop where
  word : n * size < 2 ^ 32
  uxLength : q.uxLength = n
  uxItemSize : q.uxItemSize = size
  storage : q.storage.length = n * size
  pcTail : q.pcTail = (n * size : Nat)
  read_lt : r < n
  pcReadFrom : q.pcReadFrom = (r * size : Nat)
  pcWriteTo : q.pcWriteTo = ((r + 1 + l.length) % n * size : Nat)
  uxMessagesWaiting : q.uxMessagesWaiting = l.length
  fits : l.length ≤ n
  items : window (cell size q.storage) n (r + 1) l.length = l

variable {n size r : Nat} {q : QueueDefinition} {l : List (List Byte)}

/-- A pointer to a cell that is moved to the next one. -/
theorem next_cell (hs : 0 < size) (hr : r < n) :
    (if ((r * size : Nat) : Int) + size ≥ (n * size : Nat) then 0 else ((r * size : Nat) : Int) + size) =
      ((r + 1) % n * size : Nat) := by
  have hmul : (r + 1) * size = r * size + size := Nat.succ_mul r size
  by_cases h : r + 1 = n
  · rw [← h, Nat.mod_self, if_pos (by omega), Nat.zero_mul]
    rfl
  · have hlt : (r + 1 + 1) * size ≤ n * size := Nat.mul_le_mul_right size (by omega)
    rw [Nat.succ_mul] at hlt
    rw [Nat.mod_eq_of_lt (by omega), if_neg (by omega), hmul]
    rfl

/-- A pointer to a cell that is moved to the one before it. -/
theorem prev_cell (hs : 0 < size) (hr : r < n) :
    (if ((r * size : Nat) : Int) - size < 0 then ((n * size : Nat) : Int) - size else ((r * size : Nat) : Int) - size) =
      ((r + n - 1) % n * size : Nat) := by
  cases r with
  | zero =>
    obtain ⟨m, rfl⟩ : ∃ m, n = m + 1 := ⟨n - 1, by omega⟩
    have hmul : (m + 1) * size = m * size + size := Nat.succ_mul m size
    rw [if_pos (by omega), Nat.mod_eq_of_lt (by omega), show 0 + (m + 1) - 1 = m by omega]
    omega
  | succ r =>
    have hmul : (r + 1) * size = r * size + size := Nat.succ_mul r size
    rw [if_neg (by omega), show r + 1 + n - 1 = r + n by omega, Nat.add_mod_right, Nat.mod_eq_of_lt (by omega)]
    omega

/-- Below `2 ^ 32` nothing is cut off. -/
theorem mulUBase_eq {a b : Nat} (h : a * b < 2 ^ 32) : mulUBase a b = a * b := Nat.mod_eq_of_lt h

theorem represents_reset (hn : 0 < n) (hw : n * size < 2 ^ 32) (hl : q.uxLength = n) (hs : q.uxItemSize = size)
    (hst : q.storage.length = n * size) : Represents n size (xQueueGenericReset q) [] (n - 1) := by
  have hpred : (n - 1) * size < 2 ^ 32 := Nat.lt_of_le_of_lt (Nat.mul_le_mul_right size (Nat.sub_le n 1)) hw
  constructor
  case word => exact hw
  case pcTail => simp only [xQueueGenericReset, hl, hs, mulUBase_eq hw]
  case pcReadFrom => simp only [xQueueGenericReset, hl, hs, mulUBase_eq hpred]
  case pcWriteTo => simp [xQueueGenericReset, Nat.sub_add_cancel hn]
  case read_lt => omega
  all_goals simp [xQueueGenericReset, hl, hs, hst, window]

/-- **Sending to the back.** -/
theorem Represents.back (h : Represents n size q l r) (hs : 0 < size) {item : List Byte} (hi : item.length = size)
    (hlt : l.length < n) :
    ∃ q', prvCopyDataToQueue q item .sendToBack = some q' ∧ Represents n size q' (l ++ [item]) r := by
  have hw : (r + 1 + l.length) % n < n := Nat.mod_lt _ (by omega)
  obtain ⟨mem, hmem, hlen, hcell⟩ := cell_memcpy hi h.storage hw
  rw [prvCopyDataToQueue, h.uxItemSize, if_neg (by omega), if_pos rfl, h.pcWriteTo, hmem, h.pcTail]
  refine ⟨_, rfl, ?_⟩
  constructor
  case word => exact h.word
  case storage => exact hlen
  case pcWriteTo =>
    rw [List.length_append, List.length_singleton, ← Nat.add_assoc, ← Nat.mod_add_mod (r + 1 + l.length)]
    exact next_cell hs hw
  case uxMessagesWaiting => simp [h.uxMessagesWaiting]
  case fits => simpa using Nat.succ_le_of_lt hlt
  case items =>
    rw [List.length_append, List.length_singleton, hcell, window_back item hlt, h.items]
  case uxLength => exact h.uxLength
  case uxItemSize => rfl
  case pcTail => rfl
  case read_lt => exact h.read_lt
  case pcReadFrom => exact h.pcReadFrom

/-- Going back one cell and on again. -/
theorem prev_succ (hr : r < n) : ((r + n - 1) % n + 1) % n = r := by
  rw [Nat.mod_add_mod, Nat.sub_add_cancel (by omega), Nat.add_mod_right, Nat.mod_eq_of_lt hr]

/-- **Sending to the front.** -/
theorem Represents.front (h : Represents n size q l r) (hs : 0 < size) {item : List Byte} (hi : item.length = size)
    (hlt : l.length < n) :
    ∃ q', prvCopyDataToQueue q item .sendToFront = some q' ∧ Represents n size q' (item :: l) ((r + n - 1) % n) := by
  have hr := h.read_lt
  have hsucc := prev_succ hr
  obtain ⟨mem, hmem, hlen, hcell⟩ := cell_memcpy hi h.storage hr
  rw [prvCopyDataToQueue, h.uxItemSize, if_neg (by omega), if_neg (by simp), h.pcReadFrom, hmem, h.pcTail]
  refine ⟨_, rfl, ?_⟩
  constructor
  case word => exact h.word
  case storage => exact hlen
  case read_lt => exact Nat.mod_lt _ (by omega)
  case pcReadFrom => exact prev_cell hs hr
  case pcWriteTo =>
    rw [List.length_cons, ← Nat.mod_add_mod ((r + n - 1) % n + 1), hsucc, ← Nat.add_assoc, Nat.add_right_comm]
    exact h.pcWriteTo
  case uxMessagesWaiting => simp [h.uxMessagesWaiting]
  case fits => simpa using Nat.succ_le_of_lt hlt
  case items =>
    have hfront := window_front (f := cell size q.storage) (i := r) item hlt
    rw [Nat.mod_eq_of_lt hr, h.items] at hfront
    rw [List.length_cons, window_congr _ (hsucc.trans (Nat.mod_eq_of_lt hr).symm), hcell, hfront]
  case uxLength => exact h.uxLength
  case uxItemSize => rfl
  case pcTail => rfl

/-- **Overwriting the item of a queue of one.** -/
theorem Represents.overwrite (h : Represents 1 size q l r) (hs : 0 < size) {item : List Byte}
    (hi : item.length = size) :
    ∃ q', prvCopyDataToQueue q item .overwrite = some q' ∧ Represents 1 size q' [item] 0 := by
  obtain rfl : r = 0 := by have := h.read_lt; omega
  obtain ⟨mem, hmem, hlen, hcell⟩ := cell_memcpy hi h.storage Nat.one_pos
  rw [prvCopyDataToQueue, h.uxItemSize, if_neg (by omega), if_neg (by simp), h.pcReadFrom, hmem, h.pcTail]
  refine ⟨_, rfl, ?_⟩
  constructor
  case word => exact h.word
  case storage => exact hlen
  case read_lt => exact Nat.one_pos
  case pcReadFrom => exact prev_cell hs Nat.one_pos
  case pcWriteTo =>
    rw [Nat.mod_one]
    simpa [Nat.mod_one] using h.pcWriteTo
  case uxMessagesWaiting =>
    have hfits := h.fits
    have hcount := h.uxMessagesWaiting
    simp only [true_and, List.length_singleton]
    split <;> omega
  case fits => exact le_rfl
  case items =>
    simp only [window, List.length_singleton, Nat.mod_one, hcell, Function.update_self]
  case uxLength => exact h.uxLength
  case uxItemSize => rfl
  case pcTail => rfl

/-- **Reading the first item.** -/
theorem Represents.copy (h : Represents n size q l r) (hs : 0 < size) {item : List Byte} {l' : List (List Byte)}
    (hl : l = item :: l') :
    prvCopyDataFromQueue q = some ({ q with pcReadFrom := ((r + 1) % n * size : Nat) }, item) := by
  have hr := h.read_lt
  have hw : (r + 1) % n < n := Nat.mod_lt _ (by omega)
  have hcell : cell size q.storage ((r + 1) % n) = item := by
    have hitems := h.items
    rw [hl, List.length_cons, window] at hitems
    exact (List.cons.inj hitems).1
  rw [prvCopyDataFromQueue, h.uxItemSize, if_neg (by omega), h.pcReadFrom, h.pcTail]
  simp only [next_cell hs hr, load_cell h.storage hw, hcell, Option.map_some]

/-- **Receiving the first item.** -/
theorem Represents.receive (h : Represents n size q l r) (hs : 0 < size) {item : List Byte} {l' : List (List Byte)}
    (hl : l = item :: l') :
    ∃ q', xQueueReceive q = some (q', some item) ∧ Represents n size q' l' ((r + 1) % n) := by
  have hr := h.read_lt
  have hlen : l.length = l'.length + 1 := by rw [hl]; rfl
  have hpos : 0 < q.uxMessagesWaiting := by rw [h.uxMessagesWaiting, hlen]; exact Nat.succ_pos _
  rw [xQueueReceive, if_pos hpos, h.copy hs hl]
  refine ⟨_, rfl, ?_⟩
  constructor
  case word => exact h.word
  case read_lt => exact Nat.mod_lt _ (by omega)
  case pcWriteTo =>
    rw [Nat.add_assoc, Nat.mod_add_mod]
    have := h.pcWriteTo
    rwa [hlen, Nat.add_comm l'.length 1] at this
  case uxMessagesWaiting => simp [h.uxMessagesWaiting, hlen]
  case fits => have := h.fits; omega
  case items =>
    have hitems := h.items
    rw [hl, List.length_cons, window] at hitems
    have htail := (List.cons.inj hitems).2
    rwa [window_congr l'.length (j := r + 1 + 1) (Nat.mod_add_mod (r + 1) n 1)]
  case uxLength => exact h.uxLength
  case uxItemSize => exact h.uxItemSize
  case storage => exact h.storage
  case pcTail => exact h.pcTail
  case pcReadFrom => rfl

/-- **Every call keeps the ring holding the list, and returns what the call is for.** -/
theorem call_represents (h : Represents n size q l r) (hs : 0 < size) {c : Call} (hc : c.Legal n size) :
    ∃ q' r', q.call c = some (q', (Fifo.call n l c).2) ∧ Represents n size q' (Fifo.call n l c).1 r' := by
  have hr := h.read_lt
  cases c with
  | send item p =>
    obtain ⟨hi, hp⟩ := hc
    simp only [QueueDefinition.call, xQueueGenericSendFromISR, h.uxLength, h.uxMessagesWaiting]
    cases p with
    | sendToBack =>
      by_cases hlt : l.length < n
      · obtain ⟨q', hq', hh⟩ := h.back hs hi hlt
        exact ⟨q', r, by simp [hlt, hq', Fifo.call], by simpa [Fifo.call, hlt] using hh⟩
      · exact ⟨q, r, by simp [hlt, Fifo.call], by simpa [Fifo.call, hlt] using h⟩
    | sendToFront =>
      by_cases hlt : l.length < n
      · obtain ⟨q', hq', hh⟩ := h.front hs hi hlt
        exact ⟨q', _, by simp [hlt, hq', Fifo.call], by simpa [Fifo.call, hlt] using hh⟩
      · exact ⟨q, r, by simp [hlt, Fifo.call], by simpa [Fifo.call, hlt] using h⟩
    | overwrite =>
      obtain rfl := hp rfl
      obtain ⟨q', hq', hh⟩ := h.overwrite hs hi
      exact ⟨q', 0, by simp [hq', Fifo.call], hh⟩
  | receive =>
    cases l with
    | nil =>
      have hzero : q.uxMessagesWaiting = 0 := h.uxMessagesWaiting
      exact ⟨q, r, by simp [QueueDefinition.call, xQueueReceive, hzero, Fifo.call], h⟩
    | cons item l' =>
      obtain ⟨q', hq', hh⟩ := h.receive hs rfl
      exact ⟨q', _, by simp [QueueDefinition.call, hq', Fifo.call], hh⟩
  | peek =>
    cases l with
    | nil =>
      have hzero : q.uxMessagesWaiting = 0 := h.uxMessagesWaiting
      exact ⟨q, r, by simp [QueueDefinition.call, xQueuePeek, hzero, Fifo.call], h⟩
    | cons item l' =>
      have hpos : 0 < q.uxMessagesWaiting := by rw [h.uxMessagesWaiting]; exact Nat.succ_pos _
      exact ⟨q, r, by simp [QueueDefinition.call, xQueuePeek, hpos, h.copy hs rfl, Fifo.call], h⟩
  | reset => exact ⟨_, n - 1, rfl, represents_reset (by omega) h.word h.uxLength h.uxItemSize h.storage⟩

theorem calls_represents (hs : 0 < size) : ∀ {cs : List Call} {q : QueueDefinition} {l : List (List Byte)} {r : Nat},
    Represents n size q l r → (∀ c ∈ cs, c.Legal n size) → q.calls cs = some (Fifo.calls n l cs)
  | [], _, _, _, _, _ => rfl
  | c :: cs, q, l, r, h, hc => by
    obtain ⟨q', r', hq', h'⟩ := call_represents h hs (hc c List.mem_cons_self)
    have ih := calls_represents hs h' fun c hc' => hc c (List.mem_cons_of_mem _ hc')
    simp [QueueDefinition.calls, hq', ih, Fifo.calls]

/-- **A queue is a bounded list.** Every sequence of calls on a new queue whose size in bytes fits the 32 bits of
`size_t` runs inside its storage, whatever the storage held, and is answered as on a list of at most `n` items. -/
theorem calls_eq {storage : List Byte} (hn : 0 < n) (hs : 0 < size) (hw : sizeofQueue + n * size < 2 ^ 32)
    (hst : storage.length = xQueueSizeInBytes n size) {cs : List Call} (hc : ∀ c ∈ cs, c.Legal n size) :
    (xQueueGenericCreate n size storage).bind (fun q => q.calls cs) = some (Fifo.calls n [] cs) := by
  have hmul : n * size < 2 ^ 32 := Nat.lt_of_le_of_lt (Nat.le_add_left _ _) hw
  have hlen : storage.length = n * size := hst.trans (mulUBase_eq hmul)
  rw [xQueueGenericCreate, if_pos hn]
  exact calls_represents hs (represents_reset hn hmul rfl rfl hlen) hc

/-- A queue of two items of one byte: it fills, is read once around, and takes an item in front. -/
theorem calls_eq_two : (xQueueGenericCreate 2 1 [0, 0]).bind (fun q => q.calls
      [.send [1] .sendToBack, .send [2] .sendToBack, .send [3] .sendToBack, .receive, .send [4] .sendToFront, .peek]) =
    some (Fifo.calls 2 []
      [.send [1] .sendToBack, .send [2] .sendToBack, .send [3] .sendToBack, .receive, .send [4] .sendToFront, .peek]) :=
  calls_eq (by decide) (by decide) (by decide) (by decide) (by simp [Call.Legal])

end PetVending.Firmware
