import PetVending.Server.Session
import Mathlib.Data.Fintype.Card

/-!
# Occupancy: `clnt_cnt` and the slots

A login and the exit of a thread change the `fd` of a slot and `clnt_cnt` together, under the mutex. An eviction changes
the `fd` alone.

- `online`: the slots whose `fd` is not `-1`;
- `Occupancy`: `clnt_cnt` is their number whenever the mutex is free, and `main` refuses a connection only when every
  slot is online;
- `occupancy`: every run in which no eviction meets an online slot keeps `Occupancy` (`OccGuard`). An eviction
  breaks it (`eviction_uncounted`).
-/

namespace PetVending.Server

open CStr Transition

variable {n : Nat} {signed : Bool} {s t : Srv n} {a : Act}

/-! ## Online slots -/

/-- The slots whose `fd` is not `-1`. -/
def online (T : Fin n → ClientInfo) : Finset (Fin n) := Finset.univ.filter fun i => (T i).fd ≠ -1

@[simp] theorem mem_online {T : Fin n → ClientInfo} {i : Fin n} : i ∈ online T ↔ (T i).fd ≠ -1 := by simp [online]

theorem online_congr {T T' : Fin n → ClientInfo} (h : ∀ i, (T' i).fd = (T i).fd) : online T' = online T := by
  ext i; simp [h]

@[simp, grind =] theorem online_goto (s : Srv n) (c : Nat) (th : Thread n) (pc : ThreadPc n) :
    online (s.goto c th pc).clientInfo = online s.clientInfo := rfl

/-- Writing another field of a slot changes nothing. -/
theorem online_update (T : Fin n → ClientInfo) (i : Fin n) {c : ClientInfo} (h : c.fd = (T i).fd) :
    online (Function.update T i c) = online T :=
  online_congr (fd_update h)

/-- A slot that comes online counts once more. -/
theorem card_online_set {T U : Fin n → ClientInfo} {i : Fin n} (hi : (T i).fd = -1) (hi' : (U i).fd ≠ -1)
    (h : ∀ j, j ≠ i → (U j).fd = (T j).fd) : ((online U).card : Int) = (online T).card + 1 := by
  have hins : online U = insert i (online T) := by
    ext j
    by_cases hj : j = i
    · subst hj; simp [hi']
    · simp [hj, h j hj]
  rw [hins, Finset.card_insert_of_notMem (by simp [hi])]
  simp

/-- All slots are online as soon as there are `n` of them. -/
theorem online_full {T : Fin n → ClientInfo} (h : n ≤ (online T).card) (i : Fin n) : (T i).fd ≠ -1 := by
  have hall : online T = Finset.univ :=
    Finset.eq_univ_of_card _ (le_antisymm (Finset.card_le_univ _) (by simpa using h))
  exact mem_online.1 (hall ▸ Finset.mem_univ i)

/-! ## The property and the guard -/

/-- `clnt_cnt` counts the online slots, and a connection is refused only when all of them are online. -/
structure Occupancy (s : Srv n) : Prop where
  count : s.mutx = none → s.clntCnt = (online s.clientInfo).card
  full : ∀ p, s.main = .accepted p → s.clntCnt ≥ n → ∀ i, (s.clientInfo i).fd ≠ -1

/-- The slot `main` is about to evict. -/
@[grind =] def MainPc.evicts : MainPc n → Option (Fin n)
  | .evicting i => some i
  | _ => none

/-- An eviction finds its slot off line: the session has ended since the slot was looked at. -/
def OccGuard (s : Srv n) : Act → Prop
  | .main => ∀ i ∈ s.main.evicts, (s.clientInfo i).fd = -1
  | _ => True

instance (s : Srv n) : (a : Act) → Decidable (OccGuard s a)
  | .main => inferInstanceAs (Decidable (∀ i ∈ s.main.evicts, _))
  | .thread _ => .isTrue trivial
  | .accept _ => .isTrue trivial
  | .login _ => .isTrue trivial
  | .read _ _ => .isTrue trivial

/-! ## The invariant -/

/-- What guarded runs keep of the slots: the slot of a session that has not ended is online, a slot has one session at a
time, and a slot that is being bound has none. -/
structure Seated (s : Srv n) : Prop where
  slot : ∀ c th, s.thread c = some th → th.pc.cleared = false → (s.clientInfo th.slot).fd ≠ -1
  one : ∀ c c' th th', s.thread c = some th → s.thread c' = some th' → th.slot = th'.slot →
    th.pc.cleared = false → th'.pc.cleared = false → c = c'
  fresh : ∀ k p i, s.main = .bind k p i → k.written = false → (s.clientInfo i).fd = -1
  bound : ∀ k p i, s.main = .bind k p i → k.written = true → (s.clientInfo i).fd ≠ -1
  alone : ∀ k p i c th, s.main = .bind k p i → s.thread c = some th → th.slot = i → th.pc.cleared = true

/-- Only the threads, the `fd`s and what `main` binds matter. -/
theorem Seated.congr (h : Seated s) (hth : t.thread = s.thread) (hfd : ∀ i, (t.clientInfo i).fd = (s.clientInfo i).fd)
    (hb : s.main.Binds t.main) : Seated t := by
  constructor
  · simpa only [hth, hfd] using h.slot
  · simpa only [hth] using h.one
  · intro k p i hm hk
    obtain ⟨k', hm', hk'⟩ := hb k p i hm
    rw [hfd]
    exact h.fresh k' p i hm' (hk'.trans hk)
  · intro k p i hm hk
    obtain ⟨k', hm', hk'⟩ := hb k p i hm
    rw [hfd]
    exact h.bound k' p i hm' (hk'.trans hk)
  · intro k p i c th hm
    obtain ⟨k', hm', -⟩ := hb k p i hm
    rw [hth]
    exact h.alone k' p i c th hm'

/-- A thread that moves keeps its session, or it has none. -/
theorem Seated.goto (h : Seated s) {c : Nat} {th : Thread n} (hth : s.thread c = some th) (pc : ThreadPc n)
    (hc : th.pc.cleared = true → pc.cleared = true) : Seated (s.goto c th pc) := by
  obtain ⟨h1, h2, h3, h4, h5⟩ := h
  constructor <;> grind -ring -linarith

theorem Seated.step (hw : WF s) (h : Seated s) (hg : OccGuard s a) (he : Effect signed s a t) : Seated t := by
  have hself := h
  obtain ⟨h1, h2, h3, h4, h5⟩ := h
  cases he with
  | accept d ip hpc => exact hself.congr rfl (fun _ => rfl) (MainPc.binds_none rfl)
  | quiet pc hb hb' hp => exact hself.congr rfl (fun _ => rfl) (MainPc.binds_none hb')
  | found p i hb hp hfd => constructor <;> grind -ring -linarith
  | evict i hpc =>
    have hfd := hg i (by rw [hpc]; rfl)
    exact hself.congr rfl (fd_update hfd.symm) (MainPc.binds_none rfl)
  | ip p i hpc => exact hself.congr rfl (fd_update rfl) (MainPc.binds_bind hpc rfl)
  | lock p i hpc => exact hself.congr rfl (fun _ => rfl) (MainPc.binds_bind hpc rfl)
  | index p i hpc => exact hself.congr rfl (fd_update rfl) (MainPc.binds_bind hpc rfl)
  | fd p i hpc =>
    have hsock := hw.peer_sock p (by rw [hpc]; rfl)
    constructor <;> grind -ring -linarith
  | count p i hpc => exact hself.congr rfl (fun _ => rfl) (MainPc.binds_bind hpc rfl)
  | unlock p i hpc => exact hself.congr rfl (fun _ => rfl) (MainPc.binds_bind hpc rfl)
  | create p i hpc =>
    have hp := hw.peer_fresh p (by rw [hpc]; rfl)
    constructor <;> grind -ring -linarith
  | move c th pc hth hmv =>
    have hc := ThreadPc.cleared_of_closed hmv.closed.1
    exact hself.goto hth pc (by simp [hc])
  | close c th d hth hpc =>
    exact (hself.goto hth .lock (by rw [hpc]; exact id)).congr rfl (fun _ => rfl) (.refl _)
  | takeMutx c th hth hpc =>
    exact (hself.goto hth .dec (by rw [hpc]; exact id)).congr rfl (fun _ => rfl) (.refl _)
  | dec c th hth hpc =>
    exact (hself.goto hth .clear (by rw [hpc]; exact id)).congr rfl (fun _ => rfl) (.refl _)
  | clear c th hth hpc => constructor <;> grind -ring -linarith
  | release c th hth hpc =>
    exact (hself.goto hth .done fun _ => rfl).congr rfl (fun _ => rfl) (.refl _)

/-- `clnt_cnt` is the number of online slots, less one while its owner is between the two writes. -/
structure Counted (s : Srv n) : Prop where
  free : s.mutx = none → s.clntCnt = (online s.clientInfo).card
  main : ∀ k p i, s.main = .bind k p i → k.holds = true → k ≠ .count → s.clntCnt = (online s.clientInfo).card
  main_count : ∀ p i, s.main = .bind .count p i → s.clntCnt = (online s.clientInfo).card - 1
  exit : ∀ c th, s.thread c = some th → th.pc.holds = true → th.pc ≠ .clear → s.clntCnt = (online s.clientInfo).card
  exit_clear : ∀ c th, s.thread c = some th → th.pc = .clear → s.clntCnt = (online s.clientInfo).card - 1

/-- A step of `main` outside its critical section that counts nothing. -/
theorem Counted.congr (h : Counted s) (hx : t.mutx = s.mutx) (hc : t.clntCnt = s.clntCnt)
    (ho : online t.clientInfo = online s.clientInfo) (hth : t.thread = s.thread) (hb : t.main.holds = false) :
    Counted t := by
  constructor
  · simpa only [hx, hc, ho] using h.free
  · intro k p i hm hk
    rw [hm] at hb
    exact absurd (hk.symm.trans hb) (by decide)
  · intro p i hm
    rw [hm] at hb
    cases hb
  · simpa only [hth, hc, ho] using h.exit
  · simpa only [hth, hc, ho] using h.exit_clear

/-- **Guarded steps keep the count.** -/
theorem Counted.step (hw : WF s) (hseat : Seated s) (h : Counted s) (hg : OccGuard s a) (he : Effect signed s a t) :
    Counted t := by
  have hself := h
  have hm := hw.mutx_main
  have hx := hw.mutx_conn
  obtain ⟨h1, h2, h3, h4, h5⟩ := h
  cases he with
  | accept d ip hpc => exact hself.congr rfl rfl rfl rfl rfl
  | quiet pc hb hb' => exact hself.congr rfl rfl rfl rfl (MainPc.holds_of_binding hb')
  | found p i hb => exact hself.congr rfl rfl rfl rfl rfl
  | evict i hpc =>
    have hfd := hg i (by rw [hpc]; rfl)
    exact hself.congr rfl rfl (online_update _ _ hfd.symm) rfl rfl
  | ip p i hpc => exact hself.congr rfl rfl (online_update _ _ rfl) rfl rfl
  | index p i hpc =>
    have ho := online_update s.clientInfo i (c := { s.clientInfo i with index := i }) rfl
    constructor <;> grind -ring -linarith
  | fd p i hpc =>
    have hfd := hseat.fresh _ p i hpc rfl
    have hsock := hw.peer_sock p (by rw [hpc]; rfl)
    have ho := card_online_set (T := s.clientInfo) (U := (s.setFd i p.sock).clientInfo) hfd (by simp; omega)
      fun j hj => by simp [hj]
    constructor <;> grind -ring -linarith
  | move c th pc hth hmv =>
    obtain ⟨hc, hc'⟩ := hmv.closed
    have hp := ThreadPc.holds_of_closed hc'
    constructor <;> grind -ring -linarith
  | clear c th hth hpc =>
    have hfd := hseat.slot c th hth (by rw [hpc]; rfl)
    have ho := card_online_set (T := ((s.goto c th .unlock).setFd th.slot (-1)).clientInfo) (U := s.clientInfo)
      (by simp) hfd fun j hj => by simp [hj]
    constructor <;> grind -ring -linarith
  | _ => constructor <;> grind -ring -linarith

theorem Counted.toOccupancy (hw : WF s) (h : Counted s) : Occupancy s := by
  refine ⟨h.free, fun p hpc hfull => ?_⟩
  have hle : s.clntCnt ≤ (online s.clientInfo).card := by
    match hx : s.mutx with
    | none => exact (h.free hx).le
    | some .main =>
      have := hw.mutx_main.1 hx
      rw [hpc] at this
      cases this
    | some (.conn c) =>
      obtain ⟨th, hth, hh⟩ := hw.mutx_owner c hx
      by_cases hc : th.pc = .clear
      · have := h.exit_clear c th hth hc
        omega
      · exact (h.exit c th hth hh hc).le
  exact online_full (by omega)

/-! ## Runs -/

theorem seated_start : Seated srvStart := by
  constructor <;> simp [srvStart]

theorem counted_start : Counted srvStart := by
  have ho : online clientInfo₀ = ∅ := by
    ext i; simp [clientInfo₀, offline]
  constructor <;> simp [srvStart, ho]

/-- **Every run without evictions of online slots keeps the occupancy count**, in every state it reaches. -/
theorem occupancy {s : Srv maxClnt} (h : Reach (step signed) OccGuard srvStart s) : Occupancy s := by
  have hinv : WF s ∧ Seated s ∧ Counted s := by
    refine h.inv (I := fun s => WF s ∧ Seated s ∧ Counted s) ⟨wf_start, seated_start, counted_start⟩ ?_
    rintro s a t ⟨hw, hseat, hc⟩ hg hst
    have he := effect_of_step hst
    exact ⟨hw.step he, hseat.step hw hg he, hc.step hw hseat hg he⟩
  exact hinv.2.2.toOccupancy hinv.1

/-- Two logins, a failed one, and the exit of the first session. -/
theorem occupancy_two_logins : ∃ s, exec (guarded (step false) OccGuard) srvStart (loginActs 0 4 ++ loginActs 1 5 ++
      [.accept (some (6, [])), .main, .login none, .thread 0, .thread 0, .read 0 none] ++
      List.replicate 6 (.thread 0)) = some s ∧ Occupancy s := by
  apply exists_of_guarded
  · decide
  · exact fun s hs => occupancy hs

/-- After the eviction of the only client, `clnt_cnt` is still 1. -/
theorem eviction_uncounted : ¬ ∀ (signed : Bool) (s : Srv maxClnt),
    Reach (step signed) free srvStart s → Occupancy s := by
  intro h
  have hrun : (exec (step false) srvStart (loginActs 0 4 ++ evictActs 0 5)).any (fun s =>
      s.mutx = none ∧ s.clntCnt = 1 ∧ (online s.clientInfo).card = 0) = true := by decide
  obtain ⟨s, hs, hp⟩ := (Option.any_eq_true ..).1 hrun
  simp only [decide_eq_true_eq] at hp
  obtain ⟨hx, hcnt, hon⟩ := hp
  have := (h false s (reach_of_exec hs)).count hx
  rw [hcnt, hon] at this
  cases this

end PetVending.Server
