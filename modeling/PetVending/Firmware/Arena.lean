import PetVending.Firmware.Heap
import Mathlib.Data.List.Pairwise

/-!
# What the allocator is for

The list of free blocks, their joining and their headers are means. The end is an arena of bytes: those that no block
holds are free, a block is taken where the first run of free bytes with room for it begins, and it keeps what is written
into it.

- `Arena.call`: the calls on the arena;
- `FreeList`: the lists that the free blocks can have; `insert_heap` puts a block back;
- `firstRoom_eq`, `block_eq`: where such a list covers the free bytes, the first room is the first fit, and what is cut
  off the block that is found is what the arena gives.
-/

namespace PetVending.Firmware

open Spans

/-! ## What the calls are for -/

/-- The end of what can be given away. -/
def Layout.stop (lay : Layout) : Nat := alignDown (lay.ucHeap + configTotalHeapSize - xHeapStructSize)

/-- The blocks that are held, and what their holders have put into them. -/
structure Arena where
  held : List Span
  cells : Nat → Option BlockLink

def arenaStart : Arena := ⟨[], fun _ => none⟩

/-- No block has the byte. -/
def Arena.Free (lay : Layout) (a : Arena) (x : Nat) : Prop := lay.pucAlignedHeap ≤ x ∧ x < lay.stop ∧ ¬ Cover a.held x

instance (lay : Layout) (a : Arena) : DecidablePred (a.Free lay) := fun _ => inferInstanceAs (Decidable (_ ∧ _ ∧ _))

/-- The `n` bytes from `x` on are free. -/
def Arena.Room (lay : Layout) (a : Arena) (n x : Nat) : Prop := ∀ i < n, a.Free lay (x + i)

instance (lay : Layout) (a : Arena) (n : Nat) : DecidablePred (a.Room lay n) :=
  fun _ => inferInstanceAs (Decidable (∀ i < n, _))

/-- The first address with room for `n` bytes. -/
def Arena.firstRoom (lay : Layout) (a : Arena) (n : Nat) : Option Nat :=
  (List.range' lay.pucAlignedHeap (lay.stop - lay.pucAlignedHeap)).find? fun x => a.Room lay n x

/-- The number of free bytes from `x` on, up to `k`. -/
def Arena.slack (lay : Layout) (a : Arena) : Nat → Nat → Nat
  | 0, _ => 0
  | k + 1, x => if a.Free lay x then a.slack lay k (x + 1) + 1 else 0

/-- The size of a block of `n` bytes, with its `BlockLink_t`. -/
def blockSize (n : Nat) : Nat := (n + 8 + 7) / 8 * 8

/-- The block of `n` bytes at `x`; up to 16 bytes that would be left free behind it come with it. -/
def Arena.block (lay : Layout) (a : Arena) (n x : Nat) : Span :=
  if a.slack lay 17 (x + n) ≤ 16 then ⟨x, n + a.slack lay 17 (x + n)⟩ else ⟨x, n⟩

/-- Nothing is known of what a block has in it. -/
def Arena.blank (a : Arena) (b : Span) (x : Nat) : Option BlockLink := if b.Has x then none else a.cells x

def Arena.malloc (lay : Layout) (a : Arena) (n : Nat) : Arena × Heap.Answer :=
  if n = 0 ∨ 2 ^ 31 ≤ n then (a, .pointer 0)
  else match a.firstRoom lay (blockSize n) with
    | none => (a, .pointer 0)
    | some x =>
      let b := a.block lay (blockSize n) x
      ({ held := b :: a.held, cells := a.blank b }, .pointer (x + 8))

/-- The place of a piece of memory in a block, behind its `BlockLink_t`. -/
def Payload (b : Span) (p : Nat) : Prop := p % 8 = 0 ∧ b.start + 8 ≤ p ∧ p < b.stop

instance (b : Span) (p : Nat) : Decidable (Payload b p) := inferInstanceAs (Decidable (_ ∧ _ ∧ _))

/-- A call. `none` where it must not be made: what is given back must be held, what is written must be in a block that
is held, and what is read must have been written. -/
def Arena.call (lay : Layout) (a : Arena) : Heap.Call → Option (Arena × Heap.Answer)
  | .malloc n => some (a.malloc lay n.toNat)
  | .free pv =>
    if pv = 0 then some (a, .done)
    else (a.held.find? (·.start + 8 = pv)).map fun b => (⟨a.held.eraseP (·.start + 8 = pv), a.blank b⟩, .done)
  | .write p v =>
    if ∃ b ∈ a.held, Payload b p then some ({ a with cells := Function.update a.cells p (some v) }, .done)
    else none
  | .read p => (a.cells p).map fun v => (a, .value v)

def Arena.calls (lay : Layout) (a : Arena) : List Heap.Call → Option (Arena × List Heap.Answer)
  | [] => some (a, [])
  | c :: cs => (a.call lay c).bind fun r => (Arena.calls lay r.1 cs).map fun t => (t.1, r.2 :: t.2)

/-! ## The heap behind it -/

theorem stop_spec (lay : Layout) : lay.stop % 8 = 0 ∧ lay.stop + 8 ≤ lay.ucHeap + configTotalHeapSize ∧
    lay.ucHeap + configTotalHeapSize < lay.stop + 16 := by
  rw [Layout.stop, alignDown_eq, xHeapStructSize_eq]
  unfold configTotalHeapSize
  omega

theorem heapMinimumBlockSize_eq : heapMinimumBlockSize = 16 := rfl

theorem blockSize_eq {n : Nat} (h0 : 0 < n) (hn : n < 2 ^ 31) : wanted n = blockSize n := by
  have hsum : sizeT (n + xHeapStructSize) = n + 8 := Nat.mod_eq_of_lt (by rw [xHeapStructSize_eq]; omega)
  rw [wanted, if_pos h0, hsum]
  simp only [and_mask]
  unfold blockSize portByteAlignment
  split
  · rw [sizeT, Nat.mod_eq_of_lt (by omega)]
    omega
  · omega

/-- A block lies on the pieces of memory. -/
structure Aligned (b : Span) : Prop where
  start : b.start % 8 = 0
  size : b.size % 8 = 0

/-- A list that the free blocks can have. -/
structure FreeList (lay : Layout) (l : List Span) : Prop where
  spaced : Spaced (lay.pucAlignedHeap - 1) l
  block : ∀ b ∈ l, b.stop ≤ lay.stop ∧ Aligned b

variable {lay : Layout} {mem : Memory} {l : List Span} {b : Span}

theorem FreeList.start_le (h : FreeList lay l) (hb : b ∈ l) : lay.pucAlignedHeap ≤ b.start ∧ b.start < lay.stop := by
  obtain ⟨hlo, hpos⟩ := h.spaced.mem hb
  have hhi := (h.block b hb).1
  unfold Span.stop at hhi
  omega

theorem FreeList.total_le (h : FreeList lay l) : total l ≤ configTotalHeapSize := by
  have hle := h.spaced.total_le fun b hb => (h.block b hb).1
  have hbase := pucAlignedHeap_spec lay
  have hstop := stop_spec lay
  have hpos := lay.ucHeap_pos
  omega

theorem FreeList.length_lt (h : FreeList lay l) : l.length < listBound := by
  have hlen := h.spaced.length_le
  have htotal := h.total_le
  unfold listBound
  omega

/-- `xStart` is elsewhere. -/
theorem Layout.ne_xStart {x : Nat} (hlo : lay.pucAlignedHeap ≤ x) (hhi : x ≤ lay.stop) : x ≠ lay.xStart := by
  have hbase := pucAlignedHeap_spec lay
  have hstop := stop_spec lay
  have hout := lay.xStart_out
  omega

theorem Layout.base_lt_stop (lay : Layout) : lay.pucAlignedHeap + 16 < lay.stop := by
  have hbase := pucAlignedHeap_spec lay
  have hstop := stop_spec lay
  unfold configTotalHeapSize at hstop
  omega

theorem Layout.stop_ne_zero (lay : Layout) : lay.stop ≠ 0 :=
  Nat.ne_of_gt (lt_of_le_of_lt (Nat.zero_le _) lay.base_lt_stop)

theorem Layout.stop_ne_xStart (lay : Layout) : lay.stop ≠ lay.xStart :=
  Layout.ne_xStart (le_of_lt (lt_of_le_of_lt (Nat.le_add_right _ _) lay.base_lt_stop)) le_rfl

/-- No block begins at `NULL`. -/
theorem FreeList.ne_zero (h : FreeList lay l) (hb : b ∈ l) : b.start ≠ 0 := by
  have hlo := (h.start_le hb).1
  have hbase := pucAlignedHeap_spec lay
  have hpos := lay.ucHeap_pos
  omega

theorem FreeList.xStart_ne (h : FreeList lay l) (hb : b ∈ l) : b.start ≠ lay.xStart := by
  obtain ⟨hlo, hhi⟩ := h.start_le hb
  exact Layout.ne_xStart hlo (le_of_lt hhi)

theorem FreeList.nodup (h : FreeList lay l) : (((⟨lay.xStart, 0⟩ : Span) :: l).map Span.start).Nodup := by
  rw [List.map_cons, List.nodup_cons]
  refine ⟨fun hmem => ?_, h.spaced.nodup⟩
  obtain ⟨b, hb, heq⟩ := List.mem_map.1 hmem
  exact h.xStart_ne hb heq

/-- A block that can be put into the list. -/
structure Fresh (lay : Layout) (l : List Span) (b : Span) : Prop where
  aligned : Aligned b
  pos : 0 < b.size
  low : lay.pucAlignedHeap ≤ b.start
  high : b.stop ≤ lay.stop
  out : ∀ x, b.Has x → ¬ Cover l x

theorem FreeList.put (h : FreeList lay l) (hb : Fresh lay l b) : FreeList lay (Spans.put b l) := by
  have hpos := (pucAlignedHeap_spec lay).2.1
  have hheap := lay.ucHeap_pos
  refine ⟨put_spaced ?_ hb.pos h.spaced hb.out, forall_put (fun c d hc hd htouch => ?_) ⟨hb.high, hb.aligned⟩ h.block⟩
  · have hlow := hb.low
    omega
  · obtain ⟨-, hc⟩ := hc
    obtain ⟨hhi, hd⟩ := hd
    unfold Span.stop at htouch hhi ⊢
    refine ⟨?_, hc.start, ?_⟩
    · simp only
      omega
    · have hcs := hc.size
      have hds := hd.size
      simp only
      omega

/-- **A block goes back to the list.** -/
theorem insert_heap (h : FreeList lay l) (hlink : Linked mem lay.stop (⟨lay.xStart, 0⟩ :: l)) (hb : Fresh lay l b)
    (hsize : (mem b.start).xBlockSize = b.size) :
    ∃ mem', prvInsertBlockIntoFreeList lay lay.stop mem b.start = some mem' ∧
      Linked mem' lay.stop (⟨lay.xStart, 0⟩ :: Spans.put b l) ∧
      ∀ x, x ≠ lay.xStart → x ≠ b.start → (∀ d ∈ l, x ≠ d.start) → mem' x = mem x := by
  have hstart : b.start < lay.stop := by
    have hhigh := hb.high
    have hpos := hb.pos
    unfold Span.stop at hhigh
    omega
  have hbl : ∀ d ∈ l, d.start ≠ b.start := by
    intro d hd heq
    exact hb.out b.start (Span.has_start hb.pos) (heq ▸ h.spaced.cover_of_mem hd)
  have hbx : b.start ≠ lay.xStart := Layout.ne_xStart hb.low (le_of_lt hstart)
  have hnodup : ((b :: (⟨lay.xStart, 0⟩ : Span) :: l).map Span.start).Nodup := by
    rw [List.map_cons, List.nodup_cons]
    refine ⟨?_, h.nodup⟩
    rw [List.map_cons, List.mem_cons, not_or, List.mem_map, not_exists]
    exact ⟨hbx, fun d hd => hbl d hd.1 hd.2⟩
  have hne : ∀ d ∈ b :: (⟨lay.xStart, 0⟩ : Span) :: l, d.start ≠ lay.stop := by
    simp only [List.forall_mem_cons]
    exact ⟨ne_of_lt hstart, Ne.symm lay.stop_ne_xStart, fun d hd => ne_of_lt (h.start_le hd).2⟩
  have hfit : total (b :: (⟨lay.xStart, 0⟩ : Span) :: l) < 2 ^ 32 := by
    have htotal := h.total_le
    have hhigh := hb.high
    have hstop := stop_spec lay
    have htop := lay.ucHeap_top
    have hlow := hb.low
    have hbase := pucAlignedHeap_spec lay
    unfold Span.stop at hhigh
    unfold configTotalHeapSize at htotal hstop htop
    simp only [total_cons]
    omega
  obtain ⟨q, hq, hlinked, hkeep⟩ := insert_linked hsize (le_of_lt hstart) l hlink hnodup hne hfit h.length_lt
  refine ⟨linkBlock mem lay.stop q b.start, ?_, ?_, fun x hx hxb hxl => hkeep x ?_⟩
  · rw [prvInsertBlockIntoFreeList, hq]
    rfl
  · have hgap : (⟨lay.xStart, 0⟩ : Span).stop ≠ b.start := Ne.symm hbx
    rw [insertFrom_eq hgap] at hlinked
    exact hlinked
  · simp only [List.forall_mem_cons]
    exact ⟨hxb, hx, hxl⟩

/-! ## Room -/

variable {a : Arena} {n x : Nat}

theorem room_iff (hcover : ∀ x, Cover l x ↔ a.Free lay x) : a.Room lay n x ↔ Run l x n :=
  forall₂_congr fun i _ => (hcover (x + i)).symm

/-- **The first room is the first fit.** -/
theorem firstRoom_eq (h : FreeList lay l) (hcover : ∀ x, Cover l x ↔ a.Free lay x) (hn : 0 < n) :
    a.firstRoom lay n = (fit n l).map Span.start := by
  rw [Arena.firstRoom]
  cases hfit : fit n l with
  | none =>
    rw [Option.map_none, List.find?_eq_none]
    intro x _
    rw [decide_eq_true_iff, room_iff hcover]
    exact (fit_none h.spaced hn).1 hfit x
  | some b =>
    obtain ⟨hrun, hleast⟩ := fit_some h.spaced hn hfit
    obtain ⟨hlo, hhi⟩ := h.start_le (List.mem_of_find?_eq_some hfit)
    rw [Option.map_some, List.find?_range'_eq_some]
    refine ⟨?_, ?_, fun x _ hx => ?_⟩
    · rw [decide_eq_true_iff, room_iff hcover]
      exact hrun
    · rw [List.mem_range'_1]
      omega
    · rw [Bool.not_eq_true', decide_eq_false_iff_not, room_iff hcover]
      exact hleast x hx

theorem slack_eq {m k : Nat} (hfree : ∀ i < m, a.Free lay (x + i)) (hle : m ≤ k) (hend : m = k ∨ ¬ a.Free lay (x + m)) :
    a.slack lay k x = m := by
  induction k generalizing m x with
  | zero => exact (Nat.le_zero.1 hle).symm
  | succ k ih =>
    rw [Arena.slack]
    cases m with
    | zero => exact if_neg (hend.resolve_left (by omega))
    | succ m =>
      have hx : a.Free lay x := hfree 0 (Nat.succ_pos m)
      rw [if_pos hx, ih (m := m)]
      · intro i hi
        have hi' := hfree (i + 1) (Nat.succ_lt_succ hi)
        rwa [← Nat.add_assoc, Nat.add_right_comm] at hi'
      · exact Nat.le_of_succ_le_succ hle
      · rw [← Nat.add_assoc, Nat.add_right_comm] at hend
        exact hend.imp_left Nat.succ.inj

/-- What is taken of the block `b` for `w` bytes. -/
def cut (w : Nat) (b : Span) : Span := if b.size - w > 16 then ⟨b.start, w⟩ else b

/-- The block that is given away. -/
theorem block_eq (h : FreeList lay l) (hcover : ∀ x, Cover l x ↔ a.Free lay x) (hb : fit n l = some b) :
    a.block lay n b.start = cut n b := by
  have hmem := List.mem_of_find?_eq_some hb
  have hn : n ≤ b.size := by simpa using List.find?_some hb
  have hin : ∀ i < b.size - n, a.Free lay (b.start + n + i) := by
    intro i hi
    rw [← hcover]
    exact ⟨b, hmem, by omega, by unfold Span.stop; omega⟩
  rw [Arena.block, cut]
  by_cases hbig : b.size - n > 16
  · have hslack : a.slack lay 17 (b.start + n) = 17 := slack_eq (fun i hi => hin i (by omega)) le_rfl (.inl rfl)
    rw [hslack, if_neg (by omega), if_pos hbig]
  · have hgap : ¬ a.Free lay (b.start + n + (b.size - n)) := by
      rw [← hcover, Nat.add_assoc, Nat.add_sub_of_le hn]
      exact h.spaced.gap hmem
    have hslack : a.slack lay 17 (b.start + n) = b.size - n := slack_eq hin (by omega) (.inr hgap)
    rw [hslack, if_pos (by omega), if_neg hbig, Nat.add_sub_of_le hn]

end PetVending.Firmware
