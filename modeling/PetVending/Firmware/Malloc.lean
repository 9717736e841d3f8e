import PetVending.Firmware.Arena
import Mathlib.Data.Nat.Bitwise

/-!
# `pvPortMalloc` and `vPortFree` on the arena

- `Models`: the list of the heap covers the free bytes of the arena, and the blocks that are held have their headers;
- `splitBlock_linked`: the block that is found is cut, and the rest goes back to the list;
- **`malloc_models`**, **`free_models`**: the two calls keep `Models`, and give what the arena gives.
-/

namespace PetVending.Firmware

open Spans

variable {lay : Layout} {mem : Memory} {l : List Span} {b : Span} {a : Arena} {n x : Nat}

/-! ## The allocated bit -/

theorem or_allocated {n : Nat} (h : n < 2 ^ 31) : n ||| 2 ^ 31 = 2 ^ 31 + n := by
  rw [Nat.or_comm]
  exact (Nat.two_pow_add_eq_or_of_lt h 1).symm

theorem and_allocated {n : Nat} (h : n < 2 ^ 31) : n &&& 2 ^ 31 = 0 ∧ (2 ^ 31 + n) &&& 2 ^ 31 = 2 ^ 31 := by
  rw [Nat.and_two_pow, Nat.and_two_pow, Nat.testBit_two_pow_add_eq, Nat.testBit_lt_two_pow h]
  exact ⟨rfl, rfl⟩

/-- A request with the top bit is refused. -/
theorem and_allocated_iff (n : UInt32) : n.toNat &&& 2 ^ 31 = 0 ↔ n.toNat < 2 ^ 31 := by
  constructor
  · intro h
    by_contra hge
    have hlt : n.toNat - 2 ^ 31 < 2 ^ 31 := by
      have := n.toNat_lt
      omega
    have hand := (and_allocated hlt).2
    rw [Nat.add_sub_of_le (not_lt.1 hge), h] at hand
    cases hand
  · exact fun h => (and_allocated h).1

/-! ## The heap and the arena -/

/-- A block that is held, with its header. -/
structure Held (lay : Layout) (mem : Memory) (b : Span) : Prop where
  aligned : Aligned b
  pos : 0 < b.size
  low : lay.pucAlignedHeap ≤ b.start
  high : b.stop ≤ lay.stop
  header : mem b.start = ⟨0, 2 ^ 31 + b.size⟩

/-- The heap, with the free blocks `l`, is that of the arena. -/
structure Models (lay : Layout) (s : Heap) (a : Arena) (l : List Span) : Prop where
  list : FreeList lay l
  linked : Linked s.mem lay.stop (⟨lay.xStart, 0⟩ :: l)
  cover : ∀ x, Cover l x ↔ a.Free lay x
  held : ∀ b ∈ a.held, Held lay s.mem b
  apart : a.held.Pairwise Span.Apart
  cells : ∀ p v, a.cells p = some v → s.mem p = v ∧ ∃ b ∈ a.held, Payload b p
  pxEnd : s.pxEnd = lay.stop
  last : s.mem lay.stop = ⟨0, 0⟩
  bit : s.xBlockAllocatedBit = 2 ^ 31
  free : s.xFreeBytesRemaining = total l
  room : total l + total a.held = lay.stop - lay.pucAlignedHeap

variable {s : Heap} {w : Nat}

theorem Payload.has {p : Nat} (h : Payload b p) : b.Has p := ⟨le_trans (Nat.le_add_right _ _) h.2.1, h.2.2⟩

/-- What is held is not free. -/
theorem Models.not_cover (h : Models lay s a l) (hx : Cover a.held x) : ¬ Cover l x :=
  fun hl => ((h.cover x).1 hl).2.2 hx

/-- What is held lies in the heap. -/
theorem Models.inside (h : Models lay s a l) (hx : Cover a.held x) : lay.pucAlignedHeap ≤ x ∧ x < lay.stop := by
  obtain ⟨b, hb, hx⟩ := hx
  exact ⟨le_trans (h.held b hb).low hx.1, lt_of_lt_of_le hx.2 (h.held b hb).high⟩

theorem Models.ne_xStart (h : Models lay s a l) (hx : Cover a.held x) : x ≠ lay.xStart :=
  Layout.ne_xStart (h.inside hx).1 (le_of_lt (h.inside hx).2)

theorem Models.not_cover_stop (h : Models lay s a l) : ¬ Cover l lay.stop :=
  fun hc => lt_irrefl _ ((h.cover _).1 hc).2.1

theorem Models.pxNextFreeBlock (h : Models lay s a l) :
    (s.mem lay.xStart).pxNextFreeBlock = first lay.stop l := by rw [h.linked.1]

theorem Held.congr {mem' : Memory} (h : Held lay mem b) (hsame : mem' b.start = mem b.start) : Held lay mem' b :=
  { h with header := hsame.trans h.header }

theorem Held.size_le (h : Held lay mem b) : b.size ≤ configTotalHeapSize := by
  have hhigh := h.high
  have hlow := h.low
  have hbase := pucAlignedHeap_spec lay
  have hstop := stop_spec lay
  unfold Span.stop at hhigh
  omega

theorem Held.has_start (h : Held lay mem b) : b.Has b.start := Span.has_start h.pos

/-- A block that is held can be put into the list. -/
theorem Models.fresh (h : Models lay s a l) (hb : b ∈ a.held) : Fresh lay l b :=
  { aligned := (h.held b hb).aligned
    pos := (h.held b hb).pos
    low := (h.held b hb).low
    high := (h.held b hb).high
    out := fun _ hx => h.not_cover ⟨b, hb, hx⟩ }

/-- The size of what is asked for. -/
theorem blockSize_spec (n : Nat) : blockSize n % 8 = 0 ∧ n + 8 ≤ blockSize n := by
  unfold blockSize
  omega

theorem Models.pxEnd_ne (h : Models lay s a l) : s.pxEnd ≠ 0 := by
  rw [h.pxEnd]
  exact lay.stop_ne_zero

/-- `pvPortMalloc` when the request is in order. -/
theorem pvPortMalloc_eq (h : Models lay s a l) {n : UInt32} (h0 : n.toNat ≠ 0) (hn : n.toNat < 2 ^ 31) :
    pvPortMalloc lay s n.toNat =
    if blockSize n.toNat ≤ s.xFreeBytesRemaining then
      (searchBlock s.mem (blockSize n.toNat) listBound lay.xStart (s.mem lay.xStart).pxNextFreeBlock).bind fun r =>
        if r.2 ≠ s.pxEnd then takeBlock lay s (blockSize n.toNat) r.1 r.2 else some (s, 0)
    else some (s, 0) := by
  have hpos : 0 < blockSize n.toNat := by
    have := blockSize_spec n.toNat
    omega
  rw [pvPortMalloc]
  simp only [if_neg h.pxEnd_ne, blockSize_eq (Nat.pos_of_ne_zero h0) hn, h.bit, (and_allocated hn).1, hpos, true_and]

/-! ## `pvPortMalloc` -/

theorem assertAligned_eq {p : Nat} (h : p % 8 = 0) : assertAligned p = some () := by
  rw [assertAligned, and_mask, if_pos h]

theorem cut_start (w : Nat) (b : Span) : (cut w b).start = b.start := by
  rw [cut]
  split <;> rfl

theorem cut_spec (hle : w ≤ b.size) (hw8 : w % 8 = 0) (hb : Aligned b) :
    w ≤ (cut w b).size ∧ (cut w b).size % 8 = 0 := by
  rw [cut]
  split
  · exact ⟨le_rfl, hw8⟩
  · exact ⟨hle, hb.size⟩

theorem cut_le (hle : w ≤ b.size) : (cut w b).size ≤ b.size := by
  rw [cut]
  split
  · exact hle
  · exact le_rfl

theorem cut_has (hle : w ≤ b.size) (hx : (cut w b).Has x) : b.Has x := by
  rw [Span.Has, Span.stop, cut_start] at hx
  exact ⟨hx.1, lt_of_lt_of_le hx.2 (Nat.add_le_add_left (cut_le hle) _)⟩

/-- What is cut off the block that is found can go back to the list. -/
theorem FreeList.fresh_rest (h : FreeList lay l) (hw8 : w % 8 = 0) (hb : fit w l = some b) (hbig : b.size - w > 16) :
    Fresh lay (l.eraseP (w ≤ ·.size)) ⟨b.start + w, b.size - w⟩ := by
  have hmem := List.mem_of_find?_eq_some hb
  obtain ⟨hhigh, halign⟩ := h.block b hmem
  have hstart := halign.start
  have hsize := halign.size
  have hstop : Span.stop ⟨b.start + w, b.size - w⟩ = b.stop := by
    unfold Span.stop
    simp only
    omega
  exact
    { aligned := ⟨by simp only; omega, by simp only; omega⟩
      pos := by simp only; omega
      low := le_trans (h.start_le hmem).1 (Nat.le_add_right _ _)
      high := hstop ▸ hhigh
      out := by
        intro x hx hc
        have hin : b.Has x := ⟨le_trans (Nat.le_add_right _ _) hx.1, hstop ▸ hx.2⟩
        exact (((erase_cover h.spaced hb).2.1 x).1 hc).2 hin }

/-- What is linked behind an address that is changed. -/
theorem Linked.update (h : Linked mem x l) {p : Nat} (hp : ∀ d ∈ l, d.start ≠ p) (v : BlockLink) :
    Linked (mem.set p v) x l :=
  h.congr fun d hd => Memory.set_of_ne (hp d hd) _ _

/-- **The block that is found is cut**, and the rest goes back to the list. -/
theorem splitBlock_linked (h : FreeList lay l) (hw : 0 < w) (hw8 : w % 8 = 0) (hb : fit w l = some b)
    (hlink : Linked mem lay.stop (⟨lay.xStart, 0⟩ :: l.eraseP (w ≤ ·.size)))
    (hsize : (mem b.start).xBlockSize = b.size) :
    ∃ mem' l', splitBlock lay lay.stop mem b.start w = some mem' ∧ Linked mem' lay.stop (⟨lay.xStart, 0⟩ :: l') ∧
      FreeList lay l' ∧
      (∀ x, Cover l' x ↔ Cover l x ∧ ¬ (cut w b).Has x) ∧ total l' + (cut w b).size = total l ∧
      (mem' b.start).xBlockSize = (cut w b).size ∧ ∀ x, x ≠ lay.xStart → ¬ Cover l x → mem' x = mem x := by
  have hmem := List.mem_of_find?_eq_some hb
  have hle : w ≤ b.size := by simpa using List.find?_some hb
  obtain ⟨hspaced, hcover, htotal⟩ := erase_cover h.spaced hb
  have hrest : FreeList lay (l.eraseP (w ≤ ·.size)) := ⟨hspaced, fun d hd => h.block d (List.mem_of_mem_eraseP hd)⟩
  obtain ⟨hlo, hhi⟩ := h.start_le hmem
  have hbx : b.start ≠ lay.xStart := h.xStart_ne hmem
  have halign := (h.block b hmem).2
  rw [splitBlock, hsize, heapMinimumBlockSize_eq]
  by_cases hbig : b.size - w > 16
  · have hcut : cut w b = ⟨b.start, w⟩ := if_pos hbig
    have hin : ∀ x, Span.Has ⟨b.start + w, b.size - w⟩ x ↔ b.Has x ∧ ¬ Span.Has ⟨b.start, w⟩ x := by
      intro x
      simp only [Span.Has, Span.stop]
      omega
    have hnew := h.fresh_rest hw8 hb hbig
    -- the two headers that are written lie in the block
    have hout : ∀ x, b.Has x → ∀ d ∈ (⟨lay.xStart, 0⟩ : Span) :: l.eraseP (w ≤ ·.size), d.start ≠ x := by
      intro x hx d hd
      rcases List.mem_cons.1 hd with rfl | hd
      · have hhigh := (h.block b hmem).1
        exact Ne.symm (Layout.ne_xStart (le_trans hlo hx.1) (le_trans (le_of_lt hx.2) hhigh))
      · rintro rfl
        exact ((hcover _).1 (hspaced.cover_of_mem hd)).2 hx
    have hnewHas : b.Has (b.start + w) := ⟨Nat.le_add_right _ _, by unfold Span.stop; omega⟩
    have hbHas : b.Has b.start := ⟨le_rfl, by unfold Span.stop; omega⟩
    have hlink' : Linked ((mem.setSize (b.start + w) (b.size - w)).setSize b.start w) lay.stop
        (⟨lay.xStart, 0⟩ :: l.eraseP (w ≤ ·.size)) := (hlink.update (hout _ hnewHas) _).update (hout _ hbHas) _
    have hnewSize : (((mem.setSize (b.start + w) (b.size - w)).setSize b.start w) (b.start + w)).xBlockSize =
        b.size - w := by
      rw [Memory.setSize, Memory.set_of_ne (by omega), Memory.setSize, Memory.set_self]
    obtain ⟨mem', hput, hlinked, hkeep⟩ := insert_heap hrest hlink' hnew hnewSize
    have hassert : assertAligned (b.start + w) = some () := assertAligned_eq (by have := halign.start; omega)
    rw [if_pos hbig, hcut]
    refine ⟨mem', _, ?_, hlinked, hrest.put hnew, fun x => ?_, ?_, ?_, fun x hx hc => ?_⟩
    · simp only [hassert, Option.bind_some]
      exact hput
    · rw [put_cover, hcover, hin]
      have hsub : Span.Has ⟨b.start, w⟩ x → b.Has x := fun hx => cut_has hle (hcut ▸ hx)
      have hb' : b.Has x → Cover l x := fun hx => ⟨b, hmem, hx⟩
      tauto
    · rw [put_total]
      simp only
      omega
    · rw [hkeep b.start hbx (by simp only; omega) fun d hd => (hout _ hbHas d (List.mem_cons_of_mem _ hd)).symm,
        Memory.setSize, Memory.set_self]
    · have hxb (y : Nat) (hy : b.Has y) : x ≠ y := by
        rintro rfl
        exact hc ⟨b, hmem, hy⟩
      rw [hkeep x hx (hxb _ hnewHas) fun d hd => ?_, Memory.setSize, Memory.set_of_ne (hxb _ hbHas), Memory.setSize,
        Memory.set_of_ne (hxb _ hnewHas)]
      rintro rfl
      exact hc ((hcover _).1 (hspaced.cover_of_mem hd)).1
  · have hcut : cut w b = b := if_neg hbig
    rw [if_neg hbig, hcut]
    exact ⟨mem, _, rfl, hlink, hrest, hcover, htotal, hsize, fun x _ _ => rfl⟩

theorem setHeader {n : Nat} (p : Nat) (hn : n < 2 ^ 31) :
    (mem.setSize p (n ||| 2 ^ 31)).setNext p 0 = mem.set p ⟨0, 2 ^ 31 + n⟩ := by
  rw [or_allocated hn]
  simp [Memory.setNext, Memory.setSize]

theorem free_taken : Arena.Free lay ⟨b :: a.held, a.blank b⟩ x ↔ a.Free lay x ∧ ¬ b.Has x := by
  simp only [Arena.Free, cover_cons]
  tauto

/-- **A block is given away.** -/
theorem takeBlock_models (h : Models lay s a l) (hw : 0 < w) (hw8 : w % 8 = 0) (hb : fit w l = some b) {p : Nat}
    (hp : p ∈ ((⟨lay.xStart, 0⟩ : Span) :: l).map Span.start) (hprev : (s.mem p).pxNextFreeBlock = b.start)
    (hpb : p ≠ b.start) (hlink : Linked (s.mem.setNext p (s.mem b.start).pxNextFreeBlock) lay.stop
      (⟨lay.xStart, 0⟩ :: l.eraseP (w ≤ ·.size))) :
    ∃ s' l', takeBlock lay s w p b.start = some (s', b.start + 8) ∧
      Models lay s' ⟨cut w b :: a.held, a.blank (cut w b)⟩ l' := by
  have hmem := List.mem_of_find?_eq_some hb
  have hle : w ≤ b.size := by simpa using List.find?_some hb
  obtain ⟨hhigh, halign⟩ := h.list.block b hmem
  obtain ⟨hlo, hhi⟩ := h.list.start_le hmem
  obtain ⟨hcutw, hcut8⟩ := cut_spec hle hw8 halign
  have hcutle := cut_le hle
  have hsize : (s.mem.setNext p (s.mem b.start).pxNextFreeBlock b.start).xBlockSize = b.size := by
    rw [Memory.setNext, Memory.set_of_ne (Ne.symm hpb)]
    exact h.linked.2.size hmem
  obtain ⟨mem', l', hsplit, hlinked, hlist, hcover, htotal, hsize', hkeep⟩ :=
    splitBlock_linked h.list hw hw8 hb hlink hsize
  have hstart : (cut w b).Has b.start := by
    rw [Span.Has, Span.stop, cut_start]
    omega
  -- what is not in the list has not been written
  have hsame : ∀ x, x ≠ lay.xStart → ¬ Cover l x → mem' x = s.mem x := by
    intro x hx hc
    rw [hkeep x hx hc, Memory.setNext, Memory.set_of_ne]
    rintro rfl
    rcases List.mem_cons.1 hp with hp | hp
    · exact hx hp
    · obtain ⟨d, hd, rfl⟩ := List.mem_map.1 hp
      exact hc (h.list.spaced.cover_of_mem hd)
  have hother : ∀ x, Cover a.held x → mem'.set b.start ⟨0, 2 ^ 31 + (cut w b).size⟩ x = s.mem x := by
    intro x hx
    have hout := h.not_cover hx
    rw [Memory.set_of_ne, hsame x (h.ne_xStart hx) hout]
    rintro rfl
    exact hout (h.list.spaced.cover_of_mem hmem)
  have htake : takeBlock lay s w p b.start = some ({ s with
      mem := mem'.set b.start ⟨0, 2 ^ 31 + (cut w b).size⟩
      xFreeBytesRemaining := s.xFreeBytesRemaining - (cut w b).size
      xMinimumEverFreeBytesRemaining := min (s.xFreeBytesRemaining - (cut w b).size) s.xMinimumEverFreeBytesRemaining
      xNumberOfSuccessfulAllocations := sizeT (s.xNumberOfSuccessfulAllocations + 1) }, b.start + 8) := by
    have hsmall : (cut w b).size < 2 ^ 31 := by
      have hb' := size_le_total hmem
      have htot := h.list.total_le
      unfold configTotalHeapSize at htot
      omega
    have hassert : assertAligned (b.start + xHeapStructSize) = some () := assertAligned_eq (by
      have := halign.start
      rw [xHeapStructSize_eq]
      omega)
    rw [takeBlock, h.pxEnd, hsplit, hprev, hassert]
    simp only [Option.bind_some, Option.map_some, hsize', h.bit, setHeader b.start hsmall]
    rfl
  refine ⟨_, l', htake, ?_⟩
  exact
    { list := hlist
      linked := by
        refine hlinked.update (fun d hd => ?_) _
        rcases List.mem_cons.1 hd with rfl | hd
        · exact Ne.symm (h.list.xStart_ne hmem)
        · rintro heq
          apply ((hcover _).1 (hlist.spaced.cover_of_mem hd)).2
          rw [heq]
          exact hstart
      cover := fun x => by rw [hcover, h.cover, free_taken]
      held := by
        rw [List.forall_mem_cons]
        constructor
        · exact
            { aligned := ⟨by rw [cut_start]; exact halign.start, hcut8⟩
              pos := lt_of_lt_of_le hw hcutw
              low := by rw [cut_start]; exact hlo
              high := by
                rw [Span.stop, cut_start]
                exact le_trans (Nat.add_le_add_left hcutle _) hhigh
              header := by rw [cut_start]; exact Memory.set_self _ _ _ }
        · intro c hc
          exact (h.held c hc).congr (hother _ ⟨c, hc, (h.held c hc).has_start⟩)
      apart := by
        rw [List.pairwise_cons]
        refine ⟨fun c hc x hx hxc => ?_, h.apart⟩
        exact h.not_cover ⟨c, hc, hxc⟩ ⟨b, hmem, cut_has hle hx⟩
      cells := by
        intro p v (hp : a.blank (cut w b) p = some v)
        rw [Arena.blank] at hp
        split at hp
        · cases hp
        · obtain ⟨hv, c, hc, hpay⟩ := h.cells p v hp
          exact ⟨(hother p ⟨c, hc, hpay.has⟩).trans hv, c, List.mem_cons_of_mem _ hc, hpay⟩
      pxEnd := h.pxEnd
      last := (Memory.set_of_ne (ne_of_gt hhi) _ _).trans ((hsame _ lay.stop_ne_xStart h.not_cover_stop).trans h.last)
      bit := h.bit
      free := by
        have hfree := h.free
        simp only
        omega
      room := by
        have hroom := h.room
        simp only [total_cons]
        omega }

/-- **`pvPortMalloc`** gives the first room, if there is any. -/
theorem malloc_models (h : Models lay s a l) (n : UInt32) : ∃ s' pv l', pvPortMalloc lay s n.toNat = some (s', pv) ∧
    (a.malloc lay n.toNat).2 = .pointer pv ∧ Models lay s' (a.malloc lay n.toNat).1 l' := by
  by_cases hn : n.toNat = 0 ∨ 2 ^ 31 ≤ n.toNat
  · have hno : ¬ (n.toNat &&& s.xBlockAllocatedBit = 0 ∧ 0 < wanted n.toNat ∧
        wanted n.toNat ≤ s.xFreeBytesRemaining) := by
      rw [h.bit, and_allocated_iff]
      rintro ⟨hlt, hpos, -⟩
      rcases hn with hn | hn
      · rw [hn] at hpos
        exact lt_irrefl 0 hpos
      · exact absurd hlt (not_lt.2 hn)
    have hfail : pvPortMalloc lay s n.toNat = some (s, 0) := by
      rw [pvPortMalloc]
      simp only [if_neg h.pxEnd_ne, if_neg hno]
    refine ⟨s, 0, l, hfail, ?_, ?_⟩
    · rw [Arena.malloc, if_pos hn]
    · rw [Arena.malloc, if_pos hn]
      exact h
  · obtain ⟨h0, hlt⟩ := not_or.1 hn
    rw [pvPortMalloc_eq h h0 (not_le.1 hlt)]
    obtain ⟨hw8, hw⟩ := blockSize_spec n.toNat
    have hw0 : 0 < blockSize n.toNat := by omega
    rw [Arena.malloc, if_neg hn, firstRoom_eq h.list h.cover hw0]
    by_cases hbig : total l < blockSize n.toNat
    · rw [if_neg (by rw [h.free]; omega), fit_of_total hbig]
      exact ⟨s, 0, l, rfl, rfl, h⟩
    · obtain ⟨p, hp, hfound⟩ :=
        search_linked h.last lay.stop_ne_zero l h.linked h.list.nodup (fun d hd => h.list.ne_zero hd) h.list.length_lt
      rw [if_pos (by rw [h.free]; omega), h.pxNextFreeBlock]
      cases hfit : fit (blockSize n.toNat) l with
      | none =>
        rw [hfit] at hfound
        refine ⟨s, 0, l, ?_, rfl, h⟩
        rw [hfound, Option.bind_some, h.pxEnd, if_neg (not_not.2 rfl)]
      | some b =>
        rw [hfit] at hfound
        obtain ⟨hsearch, hprev, hpb, hlink⟩ := hfound
        obtain ⟨s', l', htake, hrep⟩ := takeBlock_models h hw0 hw8 hfit hp hprev hpb hlink
        have hne : b.start ≠ s.pxEnd := by
          rw [h.pxEnd]
          exact ne_of_lt (h.list.start_le (List.mem_of_find?_eq_some hfit)).2
        refine ⟨s', b.start + 8, l', ?_, rfl, ?_⟩
        · rw [hsearch, Option.bind_some, if_pos hne]
          exact htake
        · simp only [Option.map_some, block_eq h.list h.cover hfit]
          exact hrep

/-! ## `vPortFree` -/

/-- `vPortFree` with a block that is held. -/
theorem vPortFree_eq (h : Models lay s a l) (hb : b ∈ a.held) : vPortFree lay s (b.start + 8) =
    (prvInsertBlockIntoFreeList lay lay.stop (s.mem.setSize b.start b.size) b.start).map fun mem => { s with
      mem
      xFreeBytesRemaining := sizeT (s.xFreeBytesRemaining + b.size)
      xNumberOfSuccessfulFrees := sizeT (s.xNumberOfSuccessfulFrees + 1) } := by
  have hheld := h.held b hb
  have hbits : 2 ^ 31 + b.size - ((2 ^ 31 + b.size) &&& 2 ^ 31) = b.size ∧ (2 ^ 31 + b.size) &&& 2 ^ 31 ≠ 0 := by
    have hsmall : b.size < 2 ^ 31 := lt_of_le_of_lt hheld.size_le (by decide)
    rw [(and_allocated hsmall).2]
    omega
  have hlinkAt : b.start + 8 - xHeapStructSize = b.start := by
    rw [xHeapStructSize_eq]
    omega
  rw [vPortFree, if_neg (Nat.succ_ne_zero _)]
  simp only [hlinkAt, hheld.header, h.bit, hbits.1, h.pxEnd, if_pos (And.intro hbits.2 trivial)]

/-- **A block that is held can be given back.** -/
theorem free_models (h : Models lay s a l) {pv : Nat} (hb : a.held.find? (·.start + 8 = pv) = some b) :
    ∃ s' l', vPortFree lay s pv = some s' ∧ Models lay s' ⟨a.held.eraseP (·.start + 8 = pv), a.blank b⟩ l' := by
  have hpv : b.start + 8 = pv := by simpa using List.find?_some hb
  have hmem : b ∈ a.held := List.mem_of_find?_eq_some hb
  obtain ⟨hapart, hrest⟩ := find_apart hb h.apart
  have hheld := h.held b hmem
  have hfresh := h.fresh hmem
  have hcov : Cover a.held b.start := ⟨b, hmem, hheld.has_start⟩
  have hlink : Linked (s.mem.setSize b.start b.size) lay.stop (⟨lay.xStart, 0⟩ :: l) := by
    refine h.linked.update (fun d hd => ?_) _
    rcases List.mem_cons.1 hd with rfl | hd
    · exact Ne.symm (h.ne_xStart hcov)
    · intro heq
      exact h.not_cover hcov (heq ▸ h.list.spaced.cover_of_mem hd)
  have hsize : (s.mem.setSize b.start b.size b.start).xBlockSize = b.size := by rw [Memory.setSize, Memory.set_self]
  obtain ⟨mem', hput, hlinked, hkeep⟩ := insert_heap h.list hlink hfresh hsize
  -- only the block's header and the list have been written
  have hsame : ∀ x, x ≠ lay.xStart → ¬ Cover l x → x ≠ b.start → mem' x = s.mem x := by
    intro x hx hc hxb
    rw [hkeep x hx hxb fun d hd => ?_, Memory.setSize, Memory.set_of_ne hxb]
    rintro rfl
    exact hc (h.list.spaced.cover_of_mem hd)
  have hkept : ∀ x, Cover a.held x → ¬ b.Has x → mem' x = s.mem x := by
    intro x hx hxb
    apply hsame x (h.ne_xStart hx) (h.not_cover hx)
    rintro rfl
    exact hxb hheld.has_start
  refine ⟨_, put b l, by rw [← hpv, vPortFree_eq h hmem, hput]; rfl, ?_⟩
  exact
    { list := h.list.put hfresh
      linked := hlinked
      cover := by
        intro x
        rw [put_cover, h.cover]
        have hin : b.Has x → lay.pucAlignedHeap ≤ x ∧ x < lay.stop := fun hx => h.inside ⟨b, hmem, hx⟩
        have hone : b.Has x → ¬ Cover (a.held.eraseP (·.start + 8 = pv)) x := by
          rintro hx ⟨c, hc, hxc⟩
          exact hapart c hc x hx hxc
        have hcover := find_cover (x := x) hb
        simp only [Arena.Free, hcover]
        tauto
      held := by
        intro c hc
        have hc' := List.mem_of_mem_eraseP hc
        have hhas := (h.held c hc').has_start
        exact (h.held c hc').congr (hkept _ ⟨c, hc', hhas⟩ fun hx => hapart c hc _ hx hhas)
      apart := hrest
      cells := by
        intro p v (hp : a.blank b p = some v)
        rw [Arena.blank] at hp
        split at hp
        case isTrue => cases hp
        case isFalse hout =>
          obtain ⟨hv, c, hc, hpay⟩ := h.cells p v hp
          refine ⟨(hkept p ⟨c, hc, hpay.has⟩ hout).trans hv, c, (find_mem hb hc).resolve_left ?_, hpay⟩
          rintro rfl
          exact hout hpay.has
      pxEnd := h.pxEnd
      last := (hsame _ lay.stop_ne_xStart h.not_cover_stop (ne_of_gt (h.inside hcov).2)).trans h.last
      bit := h.bit
      free := by
        have htotal := h.list.total_le
        have hle := hheld.size_le
        unfold configTotalHeapSize at htotal hle
        show sizeT (s.xFreeBytesRemaining + b.size) = total (put b l)
        rw [h.free, put_total, Nat.add_comm b.size]
        exact Nat.mod_eq_of_lt (by omega)
      room := by
        have hroom := h.room
        rw [find_total hb] at hroom
        rw [put_total]
        simp only
        omega }

end PetVending.Firmware
