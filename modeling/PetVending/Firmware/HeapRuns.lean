import PetVending.Firmware.Malloc

/-!
# The allocator over its runs

- `init_models`, `write_models`, `call_models`: `prvHeapInit` sets up what every call keeps;
- **`heap_calls_eq`**: every sequence of calls is answered as the arena says;
- **`held_apart`**, **`free_list_unique`**, **`heapStats_iff`**: blocks that are held are apart; the free blocks are
  determined by what is held, so nothing stays in pieces; `vPortGetHeapStats` comes back unless the heap is full.
-/

namespace PetVending.Firmware

open Spans

variable {lay : Layout} {mem : Memory} {l : List Span} {b : Span} {a : Arena} {n x : Nat} {s : Heap}

/-! ## Runs -/

/-- **`prvHeapInit`**: there is one free block. -/
theorem init_models (lay : Layout) (s : Heap) :
    Models lay (prvHeapInit lay s) arenaStart [⟨lay.pucAlignedHeap, lay.stop - lay.pucAlignedHeap⟩] := by
  have hbase := lay.base_lt_stop
  obtain ⟨hbase8, hbaselo, hbasehi⟩ := pucAlignedHeap_spec lay
  have hstop8 := (stop_spec lay).1
  have hpos := lay.ucHeap_pos
  have haddr : alignDown (lay.pucAlignedHeap + (configTotalHeapSize - (lay.pucAlignedHeap - lay.ucHeap)) -
      xHeapStructSize) = lay.stop := by
    rw [Layout.stop]
    congr 2
    unfold configTotalHeapSize
    omega
  have hstart := lay.stop_ne_xStart
  have hstart' : lay.pucAlignedHeap ≠ lay.xStart := Layout.ne_xStart le_rfl (by omega)
  have hmem : (prvHeapInit lay s).mem =
      ((s.mem.set lay.xStart ⟨lay.pucAlignedHeap, 0⟩).set lay.stop ⟨0, 0⟩).set lay.pucAlignedHeap
        ⟨lay.stop, lay.stop - lay.pucAlignedHeap⟩ := by
    rw [prvHeapInit, haddr]
  exact
    { list :=
        { spaced := ⟨by simp only; omega, by simp only; omega, trivial⟩
          block := by
            rw [List.forall_mem_singleton]
            refine ⟨?_, hbase8, ?_⟩
            · unfold Span.stop
              simp only
              omega
            · simp only
              omega }
      linked := by
        rw [hmem]
        refine ⟨?_, ?_, trivial⟩
        · rw [Memory.set_of_ne hstart'.symm, Memory.set_of_ne hstart.symm, Memory.set_self]
          rfl
        · exact Memory.set_self _ _ _
      cover := by
        intro x
        rw [cover_cons]
        simp only [Span.Has, Span.stop, Arena.Free, arenaStart, not_cover_nil, not_false_eq_true, or_false, and_true]
        omega
      held := fun c hc => absurd hc List.not_mem_nil
      apart := List.Pairwise.nil
      cells := by
        intro p v hp
        cases hp
      pxEnd := haddr
      last := by
        rw [hmem, Memory.set_of_ne (by omega), Memory.set_self]
      bit := rfl
      free := by
        show alignDown _ - lay.pucAlignedHeap = _
        rw [haddr]
        simp [total]
      room := by simp [total, arenaStart] }

theorem pvPortMalloc_init (hend : s.pxEnd = 0) (n : Nat) :
    pvPortMalloc lay s n = pvPortMalloc lay (prvHeapInit lay s) n := by
  rw [pvPortMalloc, pvPortMalloc]
  simp only [if_pos hend, if_neg (init_models lay s).pxEnd_ne]

/-- Two blocks that are held have no byte in common. -/
theorem Models.same (h : Models lay s a l) {c : Span} (hb : b ∈ a.held) (hc : c ∈ a.held) (hxb : b.Has x)
    (hxc : c.Has x) : b = c := by
  by_contra hne
  exact h.apart.forall hb hc hne x hxb hxc

/-- A holder writes into a block. -/
theorem write_models (h : Models lay s a l) {p : Nat} (hb : b ∈ a.held) (hp : Payload b p) (v : BlockLink) :
    Models lay { s with mem := s.mem.set p v } { a with cells := Function.update a.cells p (some v) } l := by
  have hcov : Cover a.held p := ⟨b, hb, hp.has⟩
  refine { h with
    linked := h.linked.update (fun d hd => ?_) v
    held := fun c hc => ?_
    cells := fun q w hq => ?_
    last := ?_ }
  · rcases List.mem_cons.1 hd with rfl | hd
    · exact Ne.symm (h.ne_xStart hcov)
    · rintro rfl
      exact h.not_cover hcov (h.list.spaced.cover_of_mem hd)
  · refine (h.held c hc).congr (Memory.set_of_ne ?_ _ _)
    rintro rfl
    -- a block's header is not behind its header
    obtain rfl := h.same hb hc hp.has (h.held c hc).has_start
    have := hp.2.1
    omega
  · by_cases hqp : q = p
    · subst hqp
      simp only [Function.update_self, Option.some.injEq, Memory.set_self] at hq ⊢
      exact ⟨hq, b, hb, hp⟩
    · simp only [Function.update_of_ne hqp, Memory.set_of_ne hqp] at hq ⊢
      exact h.cells q w hq
  · exact (Memory.set_of_ne (ne_of_gt (h.inside hcov).2) _ _).trans h.last

/-- **A call.** -/
theorem call_models (h : Models lay s a l) {c : Heap.Call} {r : Arena × Heap.Answer} (hc : a.call lay c = some r) :
    ∃ s' l', s.call lay c = some (s', r.2) ∧ Models lay s' r.1 l' := by
  cases c with
  | malloc n =>
    cases hc
    obtain ⟨s', pv, l', hmalloc, hans, hrep⟩ := malloc_models h n
    exact ⟨s', l', by rw [Heap.call, hmalloc, Option.map_some, hans], hrep⟩
  | free pv =>
    rw [Arena.call] at hc
    split at hc
    case isTrue hpv =>
      cases hc
      exact ⟨s, l, by rw [Heap.call, vPortFree, if_pos hpv]; rfl, h⟩
    case isFalse hpv =>
      obtain ⟨b, hb, rfl⟩ := Option.map_eq_some_iff.1 hc
      obtain ⟨s', l', hfree, hrep⟩ := free_models h hb
      exact ⟨s', l', by rw [Heap.call, hfree]; rfl, hrep⟩
  | write p v =>
    rw [Arena.call] at hc
    split at hc
    case isTrue hheld =>
      cases hc
      obtain ⟨b, hb, hp⟩ := hheld
      exact ⟨_, l, rfl, write_models h hb hp v⟩
    case isFalse => cases hc
  | read p =>
    obtain ⟨v, hv, rfl⟩ := Option.map_eq_some_iff.1 hc
    exact ⟨s, l, by rw [Heap.call, (h.cells p v hv).1], h⟩

theorem calls_models : ∀ (cs : List Heap.Call) {s : Heap} {a : Arena} {l : List Span} {r : Arena × List Heap.Answer},
    Models lay s a l → a.calls lay cs = some r → ∃ s' l', s.calls lay cs = some (s', r.2) ∧ Models lay s' r.1 l'
  | [], s, _, l, _, h, hcs => by
    cases hcs
    exact ⟨s, l, rfl, h⟩
  | c :: cs, s, a, l, r, h, hcs => by
    rw [Arena.calls, Option.bind_eq_some_iff] at hcs
    obtain ⟨r₁, hr, hcs⟩ := hcs
    obtain ⟨t, ht, rfl⟩ := Option.map_eq_some_iff.1 hcs
    obtain ⟨s₁, l₁, hcall, h₁⟩ := call_models h hr
    obtain ⟨s₂, l₂, hcalls, h₂⟩ := calls_models cs h₁ ht
    exact ⟨s₂, l₂, by rw [Heap.calls, hcall, Option.bind_some, hcalls]; rfl, h₂⟩

/-- There is a request among the calls. -/
def Asked (cs : List Heap.Call) : Prop := ∃ n, .malloc n ∈ cs

/-- **A run from the start**: with the first request the heap is set up. -/
theorem calls_start : ∀ (cs : List Heap.Call) {s : Heap} {r : Arena × List Heap.Answer}, s.pxEnd = 0 →
    arenaStart.calls lay cs = some r →
    ∃ s', s.calls lay cs = some (s', r.2) ∧ (Asked cs → ∃ l, Models lay s' r.1 l)
  | [], s, _, _, hcs => by
    cases hcs
    refine ⟨s, rfl, ?_⟩
    rintro ⟨n, hn⟩
    exact absurd hn List.not_mem_nil
  | c :: cs, s, r, hend, hcs => by
    have hrun := hcs
    rw [Arena.calls, Option.bind_eq_some_iff] at hcs
    obtain ⟨r₁, hr, hcs⟩ := hcs
    obtain ⟨t, ht, heq⟩ := Option.map_eq_some_iff.1 hcs
    cases c with
    | malloc n =>
      obtain ⟨s', l', hcalls, hrep⟩ := calls_models (.malloc n :: cs) (init_models lay s) hrun
      refine ⟨s', ?_, fun _ => ⟨l', hrep⟩⟩
      rw [← hcalls, Heap.calls, Heap.calls, Heap.call, Heap.call, pvPortMalloc_init hend]
    | free pv =>
      rw [Arena.call] at hr
      split at hr
      case isTrue hpv =>
        cases hr
        cases heq
        obtain ⟨s', hcalls, hrep⟩ := calls_start cs hend ht
        refine ⟨s', ?_, ?_⟩
        · rw [Heap.calls, Heap.call, vPortFree, if_pos hpv, Option.map_some, Option.bind_some, hcalls]
          rfl
        · rintro ⟨n, hn⟩
          rcases List.mem_cons.1 hn with hn | hn
          · cases hn
          · exact hrep ⟨n, hn⟩
      case isFalse => cases hr
    | write p v =>
      rw [Arena.call, if_neg] at hr
      · cases hr
      · rintro ⟨b, hb, -⟩
        exact absurd hb List.not_mem_nil
    | read p => cases hr

theorem heapStart_calls (lay : Layout) (mem : Memory) {cs : List Heap.Call} {r : Arena × List Heap.Answer}
    (hr : arenaStart.calls lay cs = some r) :
    ∃ s, (heapStart lay mem).calls lay cs = some (s, r.2) ∧ (Asked cs → ∃ l, Models lay s r.1 l) :=
  calls_start cs rfl hr

/-- **The allocator is the arena**: every sequence of calls that may be made is answered as the arena says, whatever the
memory had. -/
theorem heap_calls_eq (lay : Layout) (mem : Memory) {cs : List Heap.Call} {outs : List Heap.Answer}
    (h : (arenaStart.calls lay cs).map Prod.snd = some outs) :
    ((heapStart lay mem).calls lay cs).map Prod.snd = some outs := by
  obtain ⟨r, hr, rfl⟩ := Option.map_eq_some_iff.1 h
  obtain ⟨s, hs, -⟩ := heapStart_calls lay mem hr
  rw [hs]
  rfl

/-- A layout for tests: `ucHeap` is not aligned. -/
def lowLayout : Layout :=
  { ucHeap := 260
    xStart := 16
    ucHeap_pos := Nat.succ_pos 259
    ucHeap_top := Nat.le_of_ble_eq_true rfl
    xStart_out := .inl (Nat.le_of_ble_eq_true rfl) }

/-- A hole of 40 bytes is not large enough for 40 bytes with their header, and is given away whole for 22. -/
def holeCalls : List Heap.Call :=
  [.malloc 4, .malloc 30, .malloc 4, .write 272 ⟨5, 6⟩, .free 288, .malloc 40, .malloc 22, .read 272]

theorem heap_calls_hole : ((heapStart lowLayout ⟨fun _ => ⟨7, 7⟩⟩).calls lowLayout holeCalls).map Prod.snd =
    some [.pointer 272, .pointer 288, .pointer 328, .done, .done, .pointer 344, .pointer 288, .value ⟨5, 6⟩] :=
  heap_calls_eq lowLayout _ (by decide +kernel)

/-! ## What the holders and a maintainer can rely on -/

theorem Models.freeBlocks (h : Models lay s a l) : s.freeBlocks lay = l := by
  rw [Heap.freeBlocks, h.pxEnd, h.pxNextFreeBlock]
  exact walk_linked l h.linked.2 (fun d hd => ne_of_lt (h.list.start_le hd).2) h.list.length_lt

/-- There is room where a free block is large enough. -/
theorem Models.room_iff_block (h : Models lay s a l) (hn : 0 < n) : (∃ x, a.Room lay n x) ↔ ∃ b ∈ l, n ≤ b.size := by
  rw [← exists_run_iff h.list.spaced hn]
  exact exists_congr fun x => room_iff h.cover

theorem stats_none (h : Models lay s a []) : vPortGetHeapStats lay s = none := by
  have hend := lay.stop_ne_zero
  rw [vPortGetHeapStats, h.pxNextFreeBlock, h.pxEnd]
  simp only [first, hend, ne_eq, not_false_eq_true, if_true, statsLoop_none h.last hend, Option.map_none]

theorem stats_some {d : Span} (h : Models lay s a (d :: l)) : ∃ r, vPortGetHeapStats lay s = some r ∧
    r.xNumberOfFreeBlocks = (d :: l).length ∧
    r.xSizeOfLargestFreeBlockInBytes = (d :: l).foldl (fun m c => max m c.size) 0 := by
  have hnodes : ∀ c ∈ d :: l, c.start ≠ 0 ∧ c.start ≠ lay.stop :=
    fun c hc => ⟨h.list.ne_zero hc, ne_of_lt (h.list.start_le hc).2⟩
  have hloop : statsLoop s.mem lay.stop listBound d.start 0 0 portMaxDelay = some (0 + (d :: l).length,
      (d :: l).foldl (fun m c => max m c.size) 0, (d :: l).foldl (fun m c => min m c.size) portMaxDelay) :=
    statsLoop_linked l h.linked.2 hnodes (Nat.lt_of_succ_lt h.list.length_lt)
  rw [vPortGetHeapStats, h.pxNextFreeBlock, h.pxEnd]
  simp only [first, ne_eq, (hnodes d List.mem_cons_self).1, not_false_eq_true, if_true, hloop, Option.map_some]
  exact ⟨_, rfl, Nat.zero_add _, rfl⟩

variable (lay) (mem) {cs : List Heap.Call} {held : List Span}

/-- **Blocks that are held** have no byte in common and lie in `ucHeap`; what they do not have is what is left. -/
theorem held_apart (h : (arenaStart.calls lay cs).map (·.1.held) = some held) (hasked : Asked cs) :
    held.Pairwise Span.Apart ∧
    (∀ b ∈ held, b.start % 8 = 0 ∧ lay.ucHeap ≤ b.start ∧ b.stop ≤ lay.ucHeap + configTotalHeapSize) ∧
    ((heapStart lay mem).calls lay cs).map (fun r => r.1.xFreeBytesRemaining + total held) =
      some (lay.stop - lay.pucAlignedHeap) := by
  obtain ⟨r, hr, rfl⟩ := Option.map_eq_some_iff.1 h
  obtain ⟨s, hs, hready⟩ := heapStart_calls lay mem hr
  obtain ⟨l, hrep⟩ := hready hasked
  have hbase := pucAlignedHeap_spec lay
  have hstop := stop_spec lay
  refine ⟨hrep.apart, fun b hb => ?_, ?_⟩
  · have hheld := hrep.held b hb
    have hlow := hheld.low
    have hhigh := hheld.high
    exact ⟨hheld.aligned.start, by omega, by omega⟩
  · rw [hs, Option.map_some, hrep.free, hrep.room]

theorem held_apart_hole : ([⟨280, 40⟩, ⟨336, 48⟩, ⟨320, 16⟩, ⟨264, 16⟩] : List Span).Pairwise Span.Apart :=
  (held_apart lowLayout ⟨fun _ => ⟨0, 0⟩⟩
    (show (arenaStart.calls lowLayout holeCalls).map (·.1.held) = _ by decide +kernel) ⟨4, List.mem_cons_self⟩).1

/-- **The free blocks do not tell how the memory came to be free**: they are determined by what is held. -/
theorem free_list_unique (mem' : Memory) {cs' : List Heap.Call} {held' : List Span}
    (h : (arenaStart.calls lay cs).map (·.1.held) = some held) (hasked : Asked cs)
    (h' : (arenaStart.calls lay cs').map (·.1.held) = some held') (hasked' : Asked cs')
    (hsame : ∀ x, Cover held x ↔ Cover held' x) :
    ∃ l, ((heapStart lay mem).calls lay cs).map (fun r => r.1.freeBlocks lay) = some l ∧
      ((heapStart lay mem').calls lay cs').map (fun r => r.1.freeBlocks lay) = some l := by
  obtain ⟨r, hr, rfl⟩ := Option.map_eq_some_iff.1 h
  obtain ⟨r', hr', rfl⟩ := Option.map_eq_some_iff.1 h'
  obtain ⟨s, hs, hready⟩ := heapStart_calls lay mem hr
  obtain ⟨s', hs', hready'⟩ := heapStart_calls lay mem' hr'
  obtain ⟨l, hrep⟩ := hready hasked
  obtain ⟨l', hrep'⟩ := hready' hasked'
  have hl : l = l' := by
    apply spaced_unique hrep.list.spaced hrep'.list.spaced
    intro x
    rw [hrep.cover, hrep'.cover, Arena.Free, Arena.Free, hsame]
  refine ⟨l, ?_, ?_⟩
  · rw [hs, Option.map_some, hrep.freeBlocks]
  · rw [hs', Option.map_some, hrep'.freeBlocks, hl]

/-- Two blocks given back in either order. -/
theorem free_list_unique_two : ∃ l,
    ((heapStart lowLayout ⟨fun _ => ⟨0, 0⟩⟩).calls lowLayout [.malloc 4, .malloc 30, .free 272, .free 288]).map
      (fun r => r.1.freeBlocks lowLayout) = some l ∧
    ((heapStart lowLayout ⟨fun _ => ⟨7, 7⟩⟩).calls lowLayout [.malloc 30, .malloc 4, .free 312, .free 272]).map
      (fun r => r.1.freeBlocks lowLayout) = some l :=
  free_list_unique lowLayout _ _
    (show (arenaStart.calls lowLayout _).map (·.1.held) = some [] by decide +kernel) ⟨4, List.mem_cons_self⟩
    (show (arenaStart.calls lowLayout _).map (·.1.held) = some [] by decide +kernel) ⟨30, List.mem_cons_self⟩
    fun _ => Iff.rfl

/-- **`vPortGetHeapStats`** comes back iff some byte is free: the loop looks at a block before it looks for `pxEnd`.
What it gives as the largest block is the most that there is room for. -/
theorem heapStats_iff (h : (arenaStart.calls lay cs).isSome) (hasked : Asked cs) :
    ∃ a s outs, arenaStart.calls lay cs = some (a, outs) ∧
    (heapStart lay mem).calls lay cs = some (s, outs) ∧ ((vPortGetHeapStats lay s).isSome ↔ ∃ x, a.Free lay x) ∧
    ∀ r ∈ vPortGetHeapStats lay s, r.xNumberOfFreeBlocks = (s.freeBlocks lay).length ∧
      ∀ n, 0 < n → ((∃ x, a.Room lay n x) ↔ n ≤ r.xSizeOfLargestFreeBlockInBytes) := by
  obtain ⟨⟨a, outs⟩, hr⟩ := Option.isSome_iff_exists.1 h
  obtain ⟨s, hs, hready⟩ := heapStart_calls lay mem hr
  obtain ⟨l, hrep⟩ := hready hasked
  refine ⟨a, s, outs, hr, hs, ?_⟩
  cases l with
  | nil =>
    rw [stats_none hrep]
    refine ⟨iff_of_false (by simp) ?_, fun r hr => absurd hr (Option.not_mem_none r)⟩
    rintro ⟨x, hx⟩
    exact not_cover_nil x ((hrep.cover x).2 hx)
  | cons d l =>
    obtain ⟨r, hstats, hblocks, hlargest⟩ := stats_some hrep
    have hfree : a.Free lay d.start := (hrep.cover _).1 hrep.list.spaced.cover_start
    rw [hstats]
    refine ⟨iff_of_true rfl ⟨d.start, hfree⟩, ?_⟩
    intro r' hr'
    cases hr'
    refine ⟨by rw [hblocks, hrep.freeBlocks], fun n hn => ?_⟩
    rw [hrep.room_iff_block hn, hlargest, le_max_size]
    simp [Nat.ne_of_gt hn]

theorem heapStats_iff_hole : ∃ a s outs, arenaStart.calls lowLayout holeCalls = some (a, outs) ∧
    (heapStart lowLayout ⟨fun _ => ⟨0, 0⟩⟩).calls lowLayout holeCalls = some (s, outs) ∧
    ((vPortGetHeapStats lowLayout s).isSome ↔ ∃ x, a.Free lowLayout x) ∧
    ∀ r ∈ vPortGetHeapStats lowLayout s, r.xNumberOfFreeBlocks = (s.freeBlocks lowLayout).length ∧
      ∀ n, 0 < n → ((∃ x, a.Room lowLayout n x) ↔ n ≤ r.xSizeOfLargestFreeBlockInBytes) :=
  heapStats_iff lowLayout _ (by decide +kernel) ⟨4, List.mem_cons_self⟩

end PetVending.Firmware
