import PetVending.Lib.Spans
import Mathlib.Logic.Function.Basic

/-!
# The allocator: `heap_4.c`

FreeRTOS takes its queues and tasks from the array `ucHeap`. The free blocks are linked in the order of their addresses,
with their sizes in front of them; a block that is given back is joined with the free blocks it touches.

- `pvPortMalloc`, `vPortFree`, `vPortGetHeapStats`: the calls. `none` is a failed assertion, a loop that does not end,
  or an access through `NULL`;
- `Linked`: the memory has a list of blocks. `insert_linked`: `prvInsertBlockIntoFreeList` puts a block in its place;
- `search_linked`: the search of `pvPortMalloc` finds the first block that fits.
-/

namespace PetVending.Firmware

open Spans

/-! ## The calls -/

def configTotalHeapSize : Nat := 15360

def portByteAlignment : Nat := 8

def portByteAlignmentMask : Nat := 7

/-- A `size_t` -/
def sizeT (n : Nat) : Nat := n % 2 ^ 32

/-- `x & ~portBYTE_ALIGNMENT_MASK` -/
def alignDown (x : Nat) : Nat := x - (x &&& portByteAlignmentMask)

/-- The size of a `BlockLink_t`, aligned. -/
def xHeapStructSize : Nat := alignDown (8 + (portByteAlignment - 1))

def heapMinimumBlockSize : Nat := xHeapStructSize <<< 1

/-- `BlockLink_t` -/
structure BlockLink where
  pxNextFreeBlock : Nat
  xBlockSize : Nat
  deriving DecidableEq

/-- The memory, in pieces of eight bytes. -/
structure Memory where
  cell : Nat → BlockLink

instance : CoeFun Memory fun _ => Nat → BlockLink := ⟨Memory.cell⟩

def Memory.set (mem : Memory) (p : Nat) (v : BlockLink) : Memory := ⟨Function.update mem.cell p v⟩

@[simp] theorem Memory.set_self (mem : Memory) (p : Nat) (v : BlockLink) : mem.set p v p = v :=
  Function.update_self _ _ _

theorem Memory.set_of_ne {p q : Nat} (h : q ≠ p) (v : BlockLink) (mem : Memory) : mem.set p v q = mem q :=
  Function.update_of_ne h _ _

@[simp] theorem Memory.set_set (mem : Memory) (p : Nat) (v w : BlockLink) : (mem.set p v).set p w = mem.set p w :=
  congrArg Memory.mk (Function.update_idem _ _ _)

def Memory.setNext (mem : Memory) (p pxNextFreeBlock : Nat) : Memory := mem.set p ⟨pxNextFreeBlock, (mem p).xBlockSize⟩

def Memory.setSize (mem : Memory) (p xBlockSize : Nat) : Memory := mem.set p ⟨(mem p).pxNextFreeBlock, xBlockSize⟩

/-- The variables of `heap_4.c`, and the memory. -/
structure Heap where
  mem : Memory
  pxEnd : Nat
  xFreeBytesRemaining : Nat
  xMinimumEverFreeBytesRemaining : Nat
  xNumberOfSuccessfulAllocations : Nat
  xNumberOfSuccessfulFrees : Nat
  xBlockAllocatedBit : Nat

/-- Where `ucHeap` and `xStart` have been put. -/
structure Layout where
  ucHeap : Nat
  xStart : Nat
  ucHeap_pos : 0 < ucHeap
  ucHeap_top : ucHeap + configTotalHeapSize ≤ 2 ^ 32
  xStart_out : xStart + 8 ≤ ucHeap ∨ ucHeap + configTotalHeapSize ≤ xStart

/-- Before the first call the variables are zero; the memory may have anything. -/
def heapStart (lay : Layout) (mem : Memory) : Heap := ⟨mem.set lay.xStart ⟨0, 0⟩, 0, 0, 0, 0, 0, 0⟩

/-- `pucAlignedHeap` -/
def Layout.pucAlignedHeap (lay : Layout) : Nat :=
  if lay.ucHeap &&& portByteAlignmentMask ≠ 0 then alignDown (lay.ucHeap + (portByteAlignment - 1)) else lay.ucHeap

def prvHeapInit (lay : Layout) (s : Heap) : Heap :=
  let xTotalHeapSize := configTotalHeapSize - (lay.pucAlignedHeap - lay.ucHeap)
  let uxAddress := alignDown (lay.pucAlignedHeap + xTotalHeapSize - xHeapStructSize)
  let mem := s.mem.set lay.xStart ⟨lay.pucAlignedHeap, 0⟩
  let mem := mem.set uxAddress ⟨0, 0⟩
  let mem := mem.set lay.pucAlignedHeap ⟨uxAddress, uxAddress - lay.pucAlignedHeap⟩
  { s with
    mem
    pxEnd := uxAddress
    xMinimumEverFreeBytesRemaining := uxAddress - lay.pucAlignedHeap
    xFreeBytesRemaining := uxAddress - lay.pucAlignedHeap
    xBlockAllocatedBit := 1 <<< (4 * 8 - 1) }

/-- The loop of `prvInsertBlockIntoFreeList`, in `k` rounds at most. -/
def insertPosition (mem : Memory) (pxBlockToInsert : Nat) : Nat → Nat → Option Nat
  | 0, _ => none
  | k + 1, pxIterator =>
    if (mem pxIterator).pxNextFreeBlock < pxBlockToInsert then
      insertPosition mem pxBlockToInsert k (mem pxIterator).pxNextFreeBlock
    else some pxIterator

/-- A block before the free block `next`, or before `pxEnd`: the second half of what `prvInsertBlockIntoFreeList` does
behind its loop. -/
def linkNext (mem : Memory) (pxEnd pxBlockToInsert next : Nat) : Memory :=
  if pxBlockToInsert + (mem pxBlockToInsert).xBlockSize = next then
    if next ≠ pxEnd then
      (mem.setSize pxBlockToInsert (sizeT ((mem pxBlockToInsert).xBlockSize + (mem next).xBlockSize))).setNext
        pxBlockToInsert (mem next).pxNextFreeBlock
    else mem.setNext pxBlockToInsert pxEnd
  else mem.setNext pxBlockToInsert next

/-- What `prvInsertBlockIntoFreeList` does behind its loop. -/
def linkBlock (mem : Memory) (pxEnd pxIterator pxBlockToInsert : Nat) : Memory :=
  if pxIterator + (mem pxIterator).xBlockSize = pxBlockToInsert then
    let mem := mem.setSize pxIterator (sizeT ((mem pxIterator).xBlockSize + (mem pxBlockToInsert).xBlockSize))
    linkNext mem pxEnd pxIterator (mem pxIterator).pxNextFreeBlock
  else (linkNext mem pxEnd pxBlockToInsert (mem pxIterator).pxNextFreeBlock).setNext pxIterator pxBlockToInsert

/-- No list of free blocks is longer. -/
def listBound : Nat := configTotalHeapSize + 2

def prvInsertBlockIntoFreeList (lay : Layout) (pxEnd : Nat) (mem : Memory) (pxBlockToInsert : Nat) : Option Memory :=
  (insertPosition mem pxBlockToInsert listBound lay.xStart).map fun pxIterator =>
    linkBlock mem pxEnd pxIterator pxBlockToInsert

/-- The size of a block for a request: with a `BlockLink_t`, and aligned. -/
def wanted (xWantedSize : Nat) : Nat :=
  if 0 < xWantedSize then
    let n := sizeT (xWantedSize + xHeapStructSize)
    if n &&& portByteAlignmentMask ≠ 0 then sizeT (n + (portByteAlignment - (n &&& portByteAlignmentMask))) else n
  else 0

/-- The loop of `pvPortMalloc`, in `k` rounds at most: `pxPreviousBlock` and `pxBlock`. -/
def searchBlock (mem : Memory) (xWantedSize : Nat) : Nat → Nat → Nat → Option (Nat × Nat)
  | 0, _, _ => none
  | k + 1, pxPreviousBlock, pxBlock =>
    if (mem pxBlock).xBlockSize < xWantedSize ∧ (mem pxBlock).pxNextFreeBlock ≠ 0 then
      searchBlock mem xWantedSize k pxBlock (mem pxBlock).pxNextFreeBlock
    else some (pxPreviousBlock, pxBlock)

/-- `configASSERT`, of an aligned address. -/
def assertAligned (p : Nat) : Option Unit := if p &&& portByteAlignmentMask = 0 then some () else none

/-- A block behind which enough is left is split into two. -/
def splitBlock (lay : Layout) (pxEnd : Nat) (mem : Memory) (pxBlock xWantedSize : Nat) : Option Memory :=
  if (mem pxBlock).xBlockSize - xWantedSize > heapMinimumBlockSize then
    let pxNewBlockLink := pxBlock + xWantedSize
    let mem' := (mem.setSize pxNewBlockLink ((mem pxBlock).xBlockSize - xWantedSize)).setSize pxBlock xWantedSize
    (assertAligned pxNewBlockLink).bind fun _ => prvInsertBlockIntoFreeList lay pxEnd mem' pxNewBlockLink
  else some mem

/-- `pvPortMalloc` with a block that has been found. -/
def takeBlock (lay : Layout) (s : Heap) (xWantedSize pxPreviousBlock pxBlock : Nat) : Option (Heap × Nat) :=
  let pvReturn := (s.mem pxPreviousBlock).pxNextFreeBlock + xHeapStructSize
  (splitBlock lay s.pxEnd (s.mem.setNext pxPreviousBlock (s.mem pxBlock).pxNextFreeBlock) pxBlock
      xWantedSize).bind fun mem =>
    let xFreeBytesRemaining := s.xFreeBytesRemaining - (mem pxBlock).xBlockSize
    (assertAligned pvReturn).map fun _ =>
      ({ s with
        mem := (mem.setSize pxBlock ((mem pxBlock).xBlockSize ||| s.xBlockAllocatedBit)).setNext pxBlock 0
        xFreeBytesRemaining
        xMinimumEverFreeBytesRemaining := min xFreeBytesRemaining s.xMinimumEverFreeBytesRemaining
        xNumberOfSuccessfulAllocations := sizeT (s.xNumberOfSuccessfulAllocations + 1) }, pvReturn)

/-- The heap, and the pointer returned. -/
def pvPortMalloc (lay : Layout) (s : Heap) (xWantedSize : Nat) : Option (Heap × Nat) :=
  let s := if s.pxEnd = 0 then prvHeapInit lay s else s
  let n := wanted xWantedSize
  if xWantedSize &&& s.xBlockAllocatedBit = 0 ∧ 0 < n ∧ n ≤ s.xFreeBytesRemaining then
    (searchBlock s.mem n listBound lay.xStart (s.mem lay.xStart).pxNextFreeBlock).bind fun r =>
      if r.2 ≠ s.pxEnd then takeBlock lay s n r.1 r.2 else some (s, 0)
  else some (s, 0)

def vPortFree (lay : Layout) (s : Heap) (pv : Nat) : Option Heap :=
  if pv = 0 then some s
  else
    let pxLink := pv - xHeapStructSize
    let n := (s.mem pxLink).xBlockSize
    -- `configASSERT`, twice
    if n &&& s.xBlockAllocatedBit ≠ 0 ∧ (s.mem pxLink).pxNextFreeBlock = 0 then
      let n := n - (n &&& s.xBlockAllocatedBit)
      (prvInsertBlockIntoFreeList lay s.pxEnd (s.mem.setSize pxLink n) pxLink).map fun mem =>
        { s with
          mem
          xFreeBytesRemaining := sizeT (s.xFreeBytesRemaining + n)
          xNumberOfSuccessfulFrees := sizeT (s.xNumberOfSuccessfulFrees + 1) }
    else none

/-- The loop of `vPortGetHeapStats`, in `k` rounds at most, with `xBlocks`, `xMaxSize` and `xMinSize`. -/
def statsLoop (mem : Memory) (pxEnd : Nat) : Nat → Nat → Nat → Nat → Nat → Option (Nat × Nat × Nat)
  | 0, _, _, _, _ => none
  | k + 1, pxBlock, xBlocks, xMaxSize, xMinSize =>
    if pxBlock = 0 then none
    else
      let xBlocks := xBlocks + 1
      let xMaxSize := if (mem pxBlock).xBlockSize > xMaxSize then (mem pxBlock).xBlockSize else xMaxSize
      let xMinSize := if (mem pxBlock).xBlockSize < xMinSize then (mem pxBlock).xBlockSize else xMinSize
      if (mem pxBlock).pxNextFreeBlock ≠ pxEnd then
        statsLoop mem pxEnd k (mem pxBlock).pxNextFreeBlock xBlocks xMaxSize xMinSize
      else some (xBlocks, xMaxSize, xMinSize)

/-- `HeapStats_t` -/
structure HeapStats where
  xAvailableHeapSpaceInBytes : Nat
  xSizeOfLargestFreeBlockInBytes : Nat
  xSizeOfSmallestFreeBlockInBytes : Nat
  xNumberOfFreeBlocks : Nat
  xMinimumEverFreeBytesRemaining : Nat
  xNumberOfSuccessfulAllocations : Nat
  xNumberOfSuccessfulFrees : Nat

def portMaxDelay : Nat := 0xffffffff

def vPortGetHeapStats (lay : Layout) (s : Heap) : Option HeapStats :=
  let pxBlock := (s.mem lay.xStart).pxNextFreeBlock
  let found :=
    if pxBlock ≠ 0 then statsLoop s.mem s.pxEnd listBound pxBlock 0 0 portMaxDelay
    else some (0, 0, portMaxDelay)
  found.map fun r =>
    { xAvailableHeapSpaceInBytes := s.xFreeBytesRemaining
      xSizeOfLargestFreeBlockInBytes := r.2.1
      xSizeOfSmallestFreeBlockInBytes := r.2.2
      xNumberOfFreeBlocks := r.1
      xMinimumEverFreeBytesRemaining := s.xMinimumEverFreeBytesRemaining
      xNumberOfSuccessfulAllocations := s.xNumberOfSuccessfulAllocations
      xNumberOfSuccessfulFrees := s.xNumberOfSuccessfulFrees }

/-- A call, or a use that the holder of a block makes of its memory. -/
inductive Heap.Call
  | malloc (xWantedSize : UInt32)
  | free (pv : Nat)
  | write (p : Nat) (v : BlockLink)
  | read (p : Nat)

inductive Heap.Answer
  | pointer (pv : Nat)
  | value (v : BlockLink)
  | done
  deriving DecidableEq

def Heap.call (lay : Layout) (s : Heap) : Heap.Call → Option (Heap × Heap.Answer)
  | .malloc n => (pvPortMalloc lay s n.toNat).map fun r => (r.1, .pointer r.2)
  | .free pv => (vPortFree lay s pv).map fun s => (s, .done)
  | .write p v => some ({ s with mem := s.mem.set p v }, .done)
  | .read p => some (s, .value (s.mem p))

/-- The answers of the calls, and the heap behind them. -/
def Heap.calls (lay : Layout) (s : Heap) : List Heap.Call → Option (Heap × List Heap.Answer)
  | [] => some (s, [])
  | c :: cs => (s.call lay c).bind fun r => (Heap.calls lay r.1 cs).map fun t => (t.1, r.2 :: t.2)

/-- The free blocks, as they are linked from `p` on. -/
def walk (mem : Memory) (pxEnd : Nat) : Nat → Nat → List Span
  | 0, _ => []
  | k + 1, p => if p = pxEnd then [] else ⟨p, (mem p).xBlockSize⟩ :: walk mem pxEnd k (mem p).pxNextFreeBlock

def Heap.freeBlocks (lay : Layout) (s : Heap) : List Span :=
  walk s.mem s.pxEnd listBound (s.mem lay.xStart).pxNextFreeBlock

/-! ## The list of the free blocks -/

/-- Where a list of blocks begins, in front of `e`. -/
def first (e : Nat) : List Span → Nat
  | [] => e
  | b :: _ => b.start

/-- The blocks are linked one to the next, and the last one to `e`. -/
def Linked (mem : Memory) (e : Nat) : List Span → Prop
  | [] => True
  | b :: l => mem b.start = ⟨first e l, b.size⟩ ∧ Linked mem e l

variable {mem mem' : Memory} {e k : Nat} {b c : Span} {l : List Span}

theorem Linked.congr (h : Linked mem e l) (hsame : ∀ d ∈ l, mem' d.start = mem d.start) : Linked mem' e l := by
  induction l with
  | nil => trivial
  | cons d l ih =>
    obtain ⟨hd, hl⟩ := List.forall_mem_cons.1 hsame
    exact ⟨hd.trans h.1, ih h.2 hl⟩

theorem Linked.size (h : Linked mem e l) (hb : b ∈ l) : (mem b.start).xBlockSize = b.size := by
  induction l with
  | nil => cases hb
  | cons d l ih =>
    rcases List.mem_cons.1 hb with rfl | hb
    · rw [h.1]
    · exact ih h.2 hb

theorem first_join (b : Span) (l : List Span) : first e (join b l) = b.start := by
  cases l with
  | nil => rfl
  | cons d l =>
    rw [join]
    split <;> rfl

theorem first_insertFrom (b c : Span) (l : List Span) : first e (insertFrom c b l) = c.start := by
  have hplace (l : List Span) : first e (place c b l) = c.start := by
    rw [place]
    split
    · exact first_join _ l
    · rfl
  cases l with
  | nil => exact hplace []
  | cons d l =>
    rw [insertFrom]
    split
    · rfl
    · exact hplace _

/-- **A block in front of a list.** -/
theorem linkNext_linked (h : Linked mem e l) (hb : (mem b.start).xBlockSize = b.size)
    (hout : ∀ d ∈ l, d.start ≠ b.start) (he : ∀ d ∈ l, d.start ≠ e) (hfit : total (b :: l) < 2 ^ 32) :
    Linked (linkNext mem e b.start (first e l)) e (join b l) ∧
      ∀ x, x ≠ b.start → linkNext mem e b.start (first e l) x = mem x := by
  have keep (v : BlockLink) : Linked (mem.set b.start v) e l :=
    h.congr fun d hd => Memory.set_of_ne (hout d hd) _ _
  cases l with
  | nil =>
    have hlink : linkNext mem e b.start (first e []) = mem.set b.start ⟨e, b.size⟩ := by
      rw [linkNext]
      split <;> simp [first, Memory.setNext, hb]
    rw [hlink]
    exact ⟨⟨Memory.set_self _ _ _, trivial⟩, fun x hx => Memory.set_of_ne hx _ _⟩
  | cons d l =>
    by_cases htouch : b.stop = d.start
    · have hd : d.start ≠ e := he d List.mem_cons_self
      have hsize : sizeT (b.size + d.size) = b.size + d.size := by
        rw [total_cons, total_cons] at hfit
        exact Nat.mod_eq_of_lt (by omega)
      have hlink : linkNext mem e b.start (first e (d :: l)) = mem.set b.start ⟨first e l, b.size + d.size⟩ := by
        have hstop : b.start + b.size = d.start := htouch
        rw [linkNext, hb, first, if_pos hstop, if_pos hd, h.1, hsize]
        simp [Memory.setNext, Memory.setSize]
      rw [hlink, join, if_pos htouch]
      exact ⟨⟨Memory.set_self _ _ _, (keep _).2⟩, fun x hx => Memory.set_of_ne hx _ _⟩
    · have hlink : linkNext mem e b.start (first e (d :: l)) = mem.set b.start ⟨d.start, b.size⟩ := by
        have hstop : b.start + b.size ≠ d.start := htouch
        rw [linkNext, hb, first, if_neg hstop, Memory.setNext, hb]
      rw [hlink, join, if_neg htouch]
      exact ⟨⟨Memory.set_self _ _ _, keep _⟩, fun x hx => Memory.set_of_ne hx _ _⟩

/-- **A block behind `c`.** -/
theorem linkBlock_linked (h : Linked mem e (c :: l)) (hb : (mem b.start).xBlockSize = b.size)
    (hnodup : ((b :: c :: l).map Span.start).Nodup) (he : ∀ d ∈ b :: c :: l, d.start ≠ e)
    (hfit : total (b :: c :: l) < 2 ^ 32) :
    Linked (linkBlock mem e c.start b.start) e (place c b l) ∧
      ∀ x, x ≠ b.start → x ≠ c.start → linkBlock mem e c.start b.start x = mem x := by
  simp only [List.map_cons, List.nodup_cons, List.mem_cons, not_or, List.mem_map, not_exists, not_and] at hnodup
  obtain ⟨⟨hbc, hbl⟩, hcl, -⟩ := hnodup
  simp only [total_cons] at hfit
  have hel : ∀ d ∈ l, d.start ≠ e := fun d hd => he d (List.mem_cons_of_mem _ (List.mem_cons_of_mem _ hd))
  have hc : (mem c.start).xBlockSize = c.size := by rw [h.1]
  have hnext : (mem c.start).pxNextFreeBlock = first e l := by rw [h.1]
  rw [linkBlock, place, hc, hb, hnext]
  by_cases htouch : c.stop = b.start
  · have hstop : c.start + c.size = b.start := htouch
    have hsize : sizeT (c.size + b.size) = c.size + b.size := Nat.mod_eq_of_lt (by omega)
    rw [if_pos hstop, if_pos htouch, hsize]
    have hmem : mem.setSize c.start (c.size + b.size) = mem.set c.start ⟨first e l, c.size + b.size⟩ := by
      rw [Memory.setSize, hnext]
    simp only [hmem, Memory.set_self]
    have hkeep : Linked (mem.set c.start ⟨first e l, c.size + b.size⟩) e l :=
      h.2.congr fun d hd => Memory.set_of_ne (hcl d hd) _ _
    have hjoin := linkNext_linked (b := ⟨c.start, c.size + b.size⟩) hkeep (by rw [Memory.set_self]) hcl hel
      (by simp only [total_cons]; omega)
    exact ⟨hjoin.1, fun x _ hx => (hjoin.2 x hx).trans (Memory.set_of_ne hx _ _)⟩
  · have hstop : c.start + c.size ≠ b.start := htouch
    rw [if_neg hstop, if_neg htouch]
    obtain ⟨hjoin, hkeep⟩ := linkNext_linked h.2 hb hbl hel (by rw [total_cons]; omega)
    have hsize : (linkNext mem e b.start (first e l) c.start).xBlockSize = c.size := by rw [hkeep _ (Ne.symm hbc), hc]
    rw [Memory.setNext, hsize]
    refine ⟨⟨?_, hjoin.congr fun d hd => Memory.set_of_ne ?_ _ _⟩, fun x hx hxc => ?_⟩
    · rw [Memory.set_self, first_join]
    · rcases start_join hd with hd | ⟨d', hd', hd⟩
      · rw [hd]
        exact hbc
      · rw [← hd]
        exact hcl d' hd'
    · exact (Memory.set_of_ne hxc _ _).trans (hkeep x hx)

/-- **`prvInsertBlockIntoFreeList`** puts the block in its place. -/
theorem insert_linked (hb : (mem b.start).xBlockSize = b.size) (hend : b.start ≤ e) :
    ∀ (l : List Span) {c : Span} {k : Nat}, Linked mem e (c :: l) → ((b :: c :: l).map Span.start).Nodup →
      (∀ d ∈ b :: c :: l, d.start ≠ e) → total (b :: c :: l) < 2 ^ 32 → l.length < k →
      ∃ q, insertPosition mem b.start k c.start = some q ∧ Linked (linkBlock mem e q b.start) e (insertFrom c b l) ∧
      ∀ x, (∀ d ∈ b :: c :: l, x ≠ d.start) → linkBlock mem e q b.start x = mem x
  | [], c, k + 1, h, hnodup, he, hfit, _ => by
    have hstay : ¬ (mem c.start).pxNextFreeBlock < b.start := by
      rw [h.1]
      exact not_lt.2 hend
    obtain ⟨hlink, hkeep⟩ := linkBlock_linked h hb hnodup he hfit
    refine ⟨c.start, by rw [insertPosition, if_neg hstay], hlink, fun x hx => hkeep x ?_ ?_⟩
    · exact hx b (by simp)
    · exact hx c (by simp)
  | d :: l, c, k + 1, h, hnodup, he, hfit, hk => by
    have hnext : (mem c.start).pxNextFreeBlock = d.start := by rw [h.1]; rfl
    rw [insertPosition, insertFrom, hnext]
    by_cases hd : d.start < b.start
    · rw [if_pos hd, if_pos hd]
      have hsub : List.Sublist (b :: d :: l) (b :: c :: d :: l) := .cons_cons _ (.cons _ (.refl _))
      have hfit' : total (b :: d :: l) < 2 ^ 32 := by
        simp only [total_cons] at hfit ⊢
        omega
      obtain ⟨q, hq, hlink, hkeep⟩ :=
        insert_linked hb hend l h.2 (hnodup.sublist (hsub.map _)) (fun x hx => he x (hsub.subset hx)) hfit'
        (Nat.lt_of_succ_lt_succ hk)
      refine ⟨q, hq, ⟨?_, hlink⟩, fun x hx => hkeep x fun d' hd' => hx d' (hsub.subset hd')⟩
      rw [hkeep c.start, first_insertFrom, h.1]
      · rfl
      · -- `c` is none of the blocks behind it
        simp only [List.map_cons, List.nodup_cons, List.mem_cons, not_or, List.mem_map, not_exists, not_and] at hnodup
        intro d' hd'
        rcases List.mem_cons.1 hd' with rfl | hd'
        · exact Ne.symm hnodup.1.1
        · rcases List.mem_cons.1 hd' with rfl | hd'
          · exact hnodup.2.1.1
          · exact Ne.symm (hnodup.2.1.2 d' hd')
    · rw [if_neg hd, if_neg hd]
      obtain ⟨hlink, hkeep⟩ := linkBlock_linked h hb hnodup he hfit
      refine ⟨c.start, rfl, hlink, fun x hx => hkeep x ?_ ?_⟩
      · exact hx b (by simp)
      · exact hx c (by simp)

/-- **The search of `pvPortMalloc`** finds the first block that fits, or `pxEnd`; the block in front of it can be linked
to the one behind. -/
theorem search_linked {w : Nat} (hend : mem e = ⟨0, 0⟩) (he : e ≠ 0) : ∀ (l : List Span) {c : Span} {k : Nat},
    Linked mem e (c :: l) → ((c :: l).map Span.start).Nodup → (∀ d ∈ l, d.start ≠ 0) → l.length < k →
    ∃ p, p ∈ (c :: l).map Span.start ∧ match fit w l with
      | none => searchBlock mem w k c.start (first e l) = some (p, e)
      | some b => searchBlock mem w k c.start (first e l) = some (p, b.start) ∧
          (mem p).pxNextFreeBlock = b.start ∧ p ≠ b.start ∧
          Linked (mem.setNext p (mem b.start).pxNextFreeBlock) e (c :: l.eraseP (w ≤ ·.size))
  | [], c, k + 1, h, _, _, _ => by
    refine ⟨c.start, by simp, ?_⟩
    show searchBlock mem w (k + 1) c.start e = some (c.start, e)
    rw [searchBlock, hend, if_neg (by simp)]
  | d :: l, c, k + 1, h, hnodup, h0, hk => by
    obtain ⟨hc, hd, hl⟩ := h
    have hne : first e l ≠ 0 := by
      cases l with
      | nil => exact he
      | cons d' l => exact h0 d' (by simp)
    rw [List.map_cons, List.nodup_cons] at hnodup
    rw [show first e (d :: l) = d.start from rfl, searchBlock, hd]
    by_cases hfit : w ≤ d.size
    · have hfound : fit w (d :: l) = some d := List.find?_cons_of_pos (by simpa using hfit)
      have hrest : (d :: l).eraseP (w ≤ ·.size) = l := List.eraseP_cons_of_pos (by simpa using hfit)
      refine ⟨c.start, by simp, ?_⟩
      have hstop : ¬ (d.size < w ∧ first e l ≠ 0) := fun h => absurd h.1 (not_lt.2 hfit)
      rw [hfound]
      simp only [hrest, if_neg hstop, hc, true_and]
      refine ⟨rfl, fun heq => hnodup.1 (by simp [heq]), ?_, ?_⟩
      · rw [Memory.setNext, Memory.set_self, hc, hd]
      · refine hl.congr fun d' hd' => Memory.set_of_ne (fun heq => hnodup.1 ?_) _ _
        rw [← heq]
        exact List.mem_map_of_mem (List.mem_cons_of_mem _ hd')
    · have hfound : fit w (d :: l) = fit w l := List.find?_cons_of_neg (by simpa using hfit)
      have hrest : (d :: l).eraseP (w ≤ ·.size) = d :: l.eraseP (w ≤ ·.size) :=
        List.eraseP_cons_of_neg (by simpa using hfit)
      obtain ⟨p, hp, hsearch⟩ :=
        search_linked hend he l ⟨hd, hl⟩ hnodup.2 (fun d' hd' => h0 d' (List.mem_cons_of_mem _ hd'))
        (Nat.lt_of_succ_lt_succ hk)
      refine ⟨p, List.mem_cons_of_mem _ hp, ?_⟩
      rw [if_pos ⟨not_le.1 hfit, hne⟩, hfound]
      revert hsearch
      cases fit w l with
      | none => exact id
      | some b =>
        rintro ⟨hfind, hprev, hpb, hlink⟩
        refine ⟨hfind, hprev, hpb, ?_⟩
        rw [hrest]
        refine ⟨?_, hlink⟩
        rw [Memory.setNext, Memory.set_of_ne, hc]
        · rfl
        · rintro rfl
          exact hnodup.1 hp

/-! ## The layout -/

theorem and_mask (x : Nat) : x &&& portByteAlignmentMask = x % 8 := Nat.and_two_pow_sub_one_eq_mod x 3

theorem alignDown_eq (x : Nat) : alignDown x = x / 8 * 8 := by
  rw [alignDown, and_mask]
  omega

theorem xHeapStructSize_eq : xHeapStructSize = 8 := rfl

theorem pucAlignedHeap_spec (lay : Layout) : lay.pucAlignedHeap % 8 = 0 ∧ lay.ucHeap ≤ lay.pucAlignedHeap ∧
    lay.pucAlignedHeap < lay.ucHeap + 8 := by
  rw [Layout.pucAlignedHeap, and_mask, alignDown_eq]
  unfold portByteAlignment
  split <;> omega

theorem walk_linked : ∀ (l : List Span) {k : Nat}, Linked mem e l → (∀ d ∈ l, d.start ≠ e) → l.length < k →
    walk mem e k (first e l) = l
  | [], k + 1, _, _, _ => if_pos rfl
  | d :: l, k + 1, h, he, hk => by
    have hd : d.start ≠ e := he d List.mem_cons_self
    have hrest := walk_linked l h.2 (fun d' hd' => he d' (List.mem_cons_of_mem _ hd')) (Nat.lt_of_succ_lt_succ hk)
    rw [show first e (d :: l) = d.start from rfl, walk, if_neg hd, h.1]
    exact congrArg (d :: ·) hrest

theorem max_size (n m : Nat) : (if n > m then n else m) = max m n := by split <;> omega

theorem min_size (n m : Nat) : (if n < m then n else m) = min m n := by split <;> omega

/-- **The loop of `vPortGetHeapStats`**, where there is a free block. -/
theorem statsLoop_linked : ∀ (l : List Span) {d : Span} {k n mx mn : Nat}, Linked mem e (d :: l) →
    (∀ c ∈ d :: l, c.start ≠ 0 ∧ c.start ≠ e) → l.length < k → statsLoop mem e k d.start n mx mn =
      some (n + (d :: l).length, (d :: l).foldl (fun m c => max m c.size) mx,
        (d :: l).foldl (fun m c => min m c.size) mn)
  | [], d, k + 1, n, mx, mn, h, he, _ => by
    rw [statsLoop, if_neg (he d List.mem_cons_self).1]
    have hend : ¬ first e [] ≠ e := not_not.2 rfl
    simp only [h.1, max_size, min_size]
    rw [if_neg hend]
    rfl
  | c :: l, d, k + 1, n, mx, mn, h, he, hk => by
    obtain ⟨hd, hrest⟩ := List.forall_mem_cons.1 he
    have hc : first e (c :: l) ≠ e := (hrest c List.mem_cons_self).2
    rw [statsLoop, if_neg hd.1]
    simp only [h.1, max_size, min_size]
    rw [if_pos hc, show first e (c :: l) = c.start from rfl, statsLoop_linked l h.2 hrest (Nat.lt_of_succ_lt_succ hk)]
    rw [List.length_cons (a := d), Nat.add_right_comm, Nat.add_assoc]
    rfl

/-- Where there is no free block, it goes over `pxEnd`. -/
theorem statsLoop_none (he : mem e = ⟨0, 0⟩) (he0 : e ≠ 0) (n mx mn : Nat) :
    statsLoop mem e listBound e n mx mn = none := by
  have hloop (k : Nat) : statsLoop mem e (k + 2) e n mx mn = none := by
    rw [statsLoop, if_neg he0]
    simp only [he]
    rw [if_pos (Ne.symm he0), statsLoop, if_pos rfl]
  exact hloop configTotalHeapSize

end PetVending.Firmware
