import PetVending.Server.Session
import Mathlib.Data.Finset.Card

/-!
# Thread accounting: `clnt_cnt` and the connection threads

`main` counts a client up under the mutex and creates its thread afterwards; a thread counts its client down in its exit
section. Evictions touch neither, so several live threads may share a slot.

- `live`: the threads that were started and have not counted down yet;
- `Balanced`: `clnt_cnt` is their number, one more while `main` is between its `clnt_cnt++` and `pthread_create`; from
  the capacity check to the count it is below `MAX_CLNT`;
- **`accounting`**: every state of every run is balanced, and `0 ≤ clnt_cnt ≤ MAX_CLNT`.
-/

namespace PetVending.Server

open CStr Transition

variable {n : Nat} {signed : Bool} {s t : Srv n} {a : Act}

/-! ## Live threads -/

/-- The thread has not executed its `clnt_cnt--`. -/
@[grind =] def ThreadPc.counted : ThreadPc n → Bool
  | .clear => false
  | .unlock => false
  | .done => false
  | _ => true

/-- `main` has executed `clnt_cnt++` and not yet created the thread. -/
def MainPc.pending : MainPc n → Int
  | .bind .unlock _ _ => 1
  | .bind .create _ _ => 1
  | _ => 0

/-- `main` has passed the capacity check and not yet counted its connection. -/
def MainPc.checked : MainPc n → Bool
  | .reading _ => true
  | .scanning _ _ _ _ => true
  | .bind .ip _ _ => true
  | .bind .lock _ _ => true
  | .bind .index _ _ => true
  | .bind .fd _ _ => true
  | .bind .count _ _ => true
  | _ => false

/-- The threads that were started and have not executed their `clnt_cnt--`. -/
def live (s : Srv n) : Finset Nat := (Finset.range s.next).filter fun c => (s.thread c).any fun th => th.pc.counted

theorem mem_live (hw : WF s) {c : Nat} : c ∈ live s ↔ ∃ th, s.thread c = some th ∧ th.pc.counted = true := by
  rw [live, Finset.mem_filter, Finset.mem_range, Option.any_eq_true]
  refine ⟨fun h => h.2, fun h => ⟨?_, h⟩⟩
  obtain ⟨th, hth, -⟩ := h
  by_contra hc
  rw [hw.thread_fresh c (not_lt.1 hc)] at hth
  cases hth

theorem ThreadPc.counted_of_closed {pc : ThreadPc n} (h : pc.closed = false) : pc.counted = true := by
  cases pc <;> first | rfl | cases h

theorem MainPc.pending_of_binding {pc : MainPc n} (h : pc.binding = none) : pc.pending = 0 := by
  cases pc <;> first | rfl | cases h

section Live

variable {c : Nat}

/-- A step that changes no thread's standing keeps the live threads. -/
theorem live_eq (hw : WF s) (hw' : WF t) (h : ∀ c, (t.thread c).any (fun th => th.pc.counted) =
    (s.thread c).any fun th => th.pc.counted) : live t = live s := by
  ext c
  rw [mem_live hw, mem_live hw', ← Option.any_eq_true, ← Option.any_eq_true, h c]

/-- A thread that moves on without counting down stays as live as it was. -/
theorem live_goto (hw : WF s) (hw' : WF t) {th : Thread n} (hth : s.thread c = some th) (pc : ThreadPc n)
    (ht : t.thread = (s.goto c th pc).thread) (h : pc.counted = th.pc.counted) : live t = live s := by
  apply live_eq hw hw'
  intro c'
  rw [ht, Srv.goto_thread]
  split
  · rename_i hc; rw [hc, hth]; exact h
  · rfl

/-- A thread that is created joins the live threads. -/
theorem card_live_create (hw : WF s) (hw' : WF t) (hnew : s.thread c = none) (th : Thread n) (hc : th.pc.counted = true)
    (ht : t.thread = Function.update s.thread c (some th)) : (live t).card = (live s).card + 1 := by
  have hins : live t = insert c (live s) := by
    ext c'
    rw [Finset.mem_insert, mem_live hw, mem_live hw', ht]
    by_cases h : c' = c
    · subst h; simp [hc]
    · simp [h]
  rw [hins, Finset.card_insert_of_notMem]
  rw [mem_live hw, hnew]
  rintro ⟨_, h, _⟩
  cases h

/-- A thread that counts down leaves them. -/
theorem card_live_dec (hw : WF s) (hw' : WF t) {th : Thread n} (hth : s.thread c = some th) (pc : ThreadPc n)
    (hc : th.pc.counted = true) (hc' : pc.counted = false) (ht : t.thread = (s.goto c th pc).thread) :
    (live t).card + 1 = (live s).card := by
  have hmem : c ∈ live s := (mem_live hw).2 ⟨th, hth, hc⟩
  have herase : live t = (live s).erase c := by
    ext c'
    rw [Finset.mem_erase, mem_live hw, mem_live hw', ht, Srv.goto_thread]
    by_cases h : c' = c
    · subst h; simp [hc']
    · simp [h]
  rw [herase, Finset.card_erase_add_one hmem]

end Live

/-! ## The invariant -/

/-- `clnt_cnt` counts the live threads and the one `main` is about to create; a connection that passed the capacity
check still finds room. -/
structure Balanced (s : Srv n) : Prop where
  count : s.clntCnt = (live s).card + s.main.pending
  room : s.main.checked = true → s.clntCnt < n
  bound : s.clntCnt ≤ n

theorem MainPc.next_checked {T : Fin n → ClientInfo} {k : Int} {pc pc' : MainPc n} (h : pc.next T k = some pc')
    (hc : pc'.checked = true) : pc.checked = true ∨ k < n := by
  unfold MainPc.next at h
  split at h
  · cases h; cases hc
  · split at h
    · cases h; cases hc
    · rename_i hk; exact .inr (not_le.1 hk)
  · exact .inl rfl
  · exact .inl rfl
  · cases h

/-- Only the capacity check lets `main` in, and only below the limit. -/
theorem Leads.checked {pc : MainPc n} (h : Leads s a pc) (hc : pc.checked = true) :
    s.main.checked = true ∨ s.clntCnt < n := by
  cases h with
  | stay => exact .inl hc
  | accept p hm => cases hc
  | eof p hm => cases hc
  | login p id pw hm => rw [hm]; exact .inl rfl
  | next hn => exact MainPc.next_checked hn hc
  | evict i hm => cases hc
  | @bind k k' p i hm hk =>
    rw [hm]
    cases k <;> cases hk <;> first | exact .inl rfl | cases hc
  | create p i hm => cases hc

/-- A step that touches neither the threads nor the counter. -/
theorem count_keep (hw : WF s) (hw' : WF t) (h : s.clntCnt = (live s).card + s.main.pending)
    (ht : t.thread = s.thread) (hk : t.clntCnt = s.clntCnt) (hp : t.main.pending = s.main.pending) :
    t.clntCnt = (live t).card + t.main.pending := by
  rw [live_eq hw hw' fun c => by rw [ht], hk, hp, h]

/-- The count against the live threads, step by step. -/
theorem count_step (hw : WF s) (h : s.clntCnt = (live s).card + s.main.pending) (he : Effect signed s a t) :
    t.clntCnt = (live t).card + t.main.pending := by
  have hw' := hw.step he
  cases he with
  | accept d ip hm => exact count_keep hw hw' h rfl rfl (by rw [hm]; rfl)
  | quiet pc hb hb' hp =>
    exact count_keep hw hw' h rfl rfl (by rw [MainPc.pending_of_binding hb, MainPc.pending_of_binding hb'])
  | found p i hb => exact count_keep hw hw' h rfl rfl (by rw [MainPc.pending_of_binding hb]; rfl)
  | evict i hm => exact count_keep hw hw' h rfl rfl (by rw [hm]; rfl)
  | ip p i hm => exact count_keep hw hw' h rfl rfl (by rw [hm]; rfl)
  | lock p i hm => exact count_keep hw hw' h rfl rfl (by rw [hm]; rfl)
  | index p i hm => exact count_keep hw hw' h rfl rfl (by rw [hm]; rfl)
  | fd p i hm => exact count_keep hw hw' h rfl rfl (by rw [hm]; rfl)
  | count p i hm =>
    rw [live_eq hw hw' fun _ => rfl]
    simp only [hm, MainPc.pending] at h ⊢
    omega
  | unlock p i hm => exact count_keep hw hw' h rfl rfl (by rw [hm]; rfl)
  | create p i hm =>
    have hnew := hw.peer_fresh p (by rw [hm]; rfl)
    have hcard := card_live_create hw hw' hnew ⟨i, p.sock, .start⟩ rfl rfl
    simp only [hm, MainPc.pending] at h ⊢
    omega
  | move c th pc hth hmv =>
    obtain ⟨hc, hc'⟩ := hmv.closed
    rw [live_goto hw hw' hth pc rfl (by rw [ThreadPc.counted_of_closed hc, ThreadPc.counted_of_closed hc'])]
    exact h
  | close c th d hth hpc => rw [live_goto hw hw' hth .lock rfl (by rw [hpc]; rfl)]; exact h
  | takeMutx c th hth hpc => rw [live_goto hw hw' hth .dec rfl (by rw [hpc]; rfl)]; exact h
  | dec c th hth hpc =>
    have hcard := card_live_dec hw hw' hth .clear (by rw [hpc]; rfl) rfl rfl
    show s.clntCnt - 1 = _ + s.main.pending
    omega
  | clear c th hth hpc => rw [live_goto hw hw' hth .unlock rfl (by rw [hpc]; rfl)]; exact h
  | release c th hth hpc => rw [live_goto hw hw' hth .done rfl (by rw [hpc]; rfl)]; exact h

/-- The counter rises only where `main` counts. -/
theorem clntCnt_step (he : Effect signed s a t) :
    t.clntCnt ≤ s.clntCnt ∨ s.main.checked = true ∧ t.main.checked = false ∧ t.clntCnt = s.clntCnt + 1 := by
  cases he with
  | count p i hm => exact .inr ⟨by rw [hm]; rfl, rfl, rfl⟩
  | dec c th hth hpc => exact .inl (by show s.clntCnt - 1 ≤ s.clntCnt; omega)
  | _ => exact .inl le_rfl

/-- **Every step keeps the balance.** -/
theorem Balanced.step (hw : WF s) (h : Balanced s) (hst : step signed s a = some t) : Balanced t := by
  have he := effect_of_step hst
  refine ⟨count_step hw h.count he, fun hc => ?_, ?_⟩
  · rcases clntCnt_step he with hle | ⟨-, hc', -⟩
    · rcases (leads_of_step hst).checked hc with hs | hlt
      · exact lt_of_le_of_lt hle (h.room hs)
      · exact lt_of_le_of_lt hle hlt
    · rw [hc] at hc'
      cases hc'
  · rcases clntCnt_step he with hle | ⟨hs, -, heq⟩
    · exact hle.trans h.bound
    · have := h.room hs
      omega

theorem balanced_start : Balanced srvStart := by
  exact ⟨rfl, fun h => (by cases h), (by decide : (0 : Int) ≤ maxClnt)⟩

/-! ## Runs -/

theorem balanced_of_reach {G : Srv maxClnt → Act → Prop} {s : Srv maxClnt} (h : Reach (step signed) G srvStart s) :
    WF s ∧ Balanced s :=
  h.inv (I := fun s => WF s ∧ Balanced s) ⟨wf_start, balanced_start⟩
    fun _ _ _ hi _ hst => ⟨hi.1.step (effect_of_step hst), hi.2.step hi.1 hst⟩

/-- **In every state of every run `clnt_cnt` is the number of live threads**, and one more while `main` is about to
create the thread of the connection it has counted; it is never negative and never above `MAX_CLNT`. -/
theorem accounting {s : Srv maxClnt} (h : Reach (step signed) free srvStart s) :
    s.clntCnt = (live s).card + s.main.pending ∧ 0 ≤ s.clntCnt ∧ s.clntCnt ≤ maxClnt := by
  obtain ⟨-, hb⟩ := balanced_of_reach h
  refine ⟨hb.count, ?_, hb.bound⟩
  rw [hb.count]
  have : 0 ≤ s.main.pending := by
    unfold MainPc.pending
    split <;> decide
  omega

/-- Two sessions of one slot, the first evicted, with both threads alive. -/
theorem accounting_evicted : ∃ s, exec (step false) srvStart (loginActs 0 4 ++ evictActs 0 5 ++ loginActs 0 6) =
    some s ∧
    s.clntCnt = 2 ∧ s.clntCnt = (live s).card + s.main.pending ∧ 0 ≤ s.clntCnt ∧ s.clntCnt ≤ maxClnt := by
  have hrun : (exec (step false) srvStart (loginActs 0 4 ++ evictActs 0 5 ++ loginActs 0 6)).any (fun s =>
      s.clntCnt = 2) = true := by decide
  obtain ⟨s, hs, hp⟩ := (Option.any_eq_true ..).1 hrun
  exact ⟨s, hs, of_decide_eq_true hp, accounting (reach_of_exec hs)⟩

/-- `main` has counted its first client and not created the thread. -/
theorem counted_before_started : ¬ ∀ (signed : Bool) (s : Srv maxClnt), Reach (step signed) free srvStart s →
    s.clntCnt = (live s).card := by
  intro h
  have hrun : (exec (step false) srvStart (loginActs 0 4).dropLast).any (fun s =>
      s.clntCnt = 1 ∧ (live s).card = 0) = true := by decide
  obtain ⟨s, hs, hp⟩ := (Option.any_eq_true ..).1 hrun
  obtain ⟨hcnt, hlive⟩ := of_decide_eq_true hp
  have := h false s (reach_of_exec hs)
  rw [hcnt, hlive] at this
  cases this

end PetVending.Server
