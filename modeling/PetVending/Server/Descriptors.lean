import PetVending.Server.Occupancy
import PetVending.Server.SlotTable
import Mathlib.Data.Set.Card

/-!
# Descriptors: which sockets stay open

`main` only shuts a socket down when it turns a connection away, it never closes one; a session that is evicted loses
its slot, and with it the descriptor its thread would close.

- `Accounted`: whenever `main` is about to accept, every open socket is held by a slot for the connection that
  authenticated as the slot, so at most `MAX_CLNT` sockets are open;
- `FdGuard`: `main` turns nobody away. It does so in four places: the capacity check, an empty login read, a scan
  without a match, and a slot that is taken (`MainPc.rejects`);
- **`accounted_iff`**: the states of a run are all accounted iff its steps all meet `FdGuard`.
-/

namespace PetVending.Server

open CStr Transition

variable {n : Nat} {signed : Bool} {s t : Srv n} {a : Act}

/-! ## The property and the guard -/

/-- When `main` is about to accept, the open sockets are held by slots, each for its own connection. -/
structure Accounted (s : Srv n) : Prop where
  held : s.main = .accept → ∀ d c, s.os d = some c → ∃ i, (s.clientInfo i).fd = d ∧ Authed s c i
  few : s.main = .accept → {d | s.os d ≠ none}.encard ≤ n

/-- The next step of `main` turns a connection away: the table is full, no id and password match, or the slot is
taken. -/
def MainPc.rejects (k : Int) : MainPc n → Bool
  | .accepted (some _) => k ≥ n
  | .scanning _ _ _ [] => true
  | .evicting _ => true
  | _ => false

/-- The step turns no connection away. -/
def FdGuard (s : Srv n) : Act → Prop
  | .main => s.main.rejects s.clntCnt = false
  | .login r => r ≠ none
  | _ => True

instance (s : Srv n) : (a : Act) → Decidable (FdGuard s a)
  | .main => inferInstanceAs (Decidable (s.main.rejects s.clntCnt = false))
  | .login r => inferInstanceAs (Decidable (r ≠ none))
  | .thread _ => .isTrue trivial
  | .accept _ => .isTrue trivial
  | .read _ _ => .isTrue trivial

theorem FdGuard.occ (h : FdGuard s a) : OccGuard s a := by
  cases a with
  | main =>
    intro i hi
    have hm : s.main = .evicting i := by
      revert hi
      cases s.main <;> simp [MainPc.evicts]
    rw [FdGuard, hm] at h
    cases h
  | _ => trivial

/-! ## The invariant -/

/-- The slot of a session that has not ended holds its socket, which is open for it until its thread closes it; the
socket in the hand of `main` is open. -/
structure Carried (s : Srv n) : Prop where
  fd : ∀ c th, s.thread c = some th → th.pc.cleared = false → (s.clientInfo th.slot).fd = th.sock
  fd_bound : ∀ k p i, s.main = .bind k p i → k.written = true → (s.clientInfo i).fd = p.sock
  close : ∀ c th d, s.thread c = some th → th.pc.closes = some d → d = th.sock
  sock : ∀ c th, s.thread c = some th → th.pc.closed = false → s.os th.sock = some c
  peer : ∀ p, s.main.peer = some p → s.os p.sock = some p.conn

/-- Every open socket is in the hand of `main` or has a thread that will close it; while `main` evicts, one socket has
neither. -/
structure Traced (s : Srv n) : Prop where
  opened : (∀ i, s.main ≠ .evicting i) → ∀ d c, s.os d = some c →
    (∃ p, s.main.peer = some p ∧ p.sock = d ∧ p.conn = c) ∨ ∃ th, s.thread c = some th ∧ th.sock = d ∧
      th.pc.closed = false
  lost : ∀ i, s.main = .evicting i → ∃ d c, s.os d = some c ∧ s.thread c = none

theorem ThreadPc.next_closes {T : Fin n → ClientInfo} {i : Fin n} {pc pc' : ThreadPc n} {d : Int}
    (h : pc.next signed T i = some pc') (hd : pc'.closes = some d) : d = (T i).fd := by
  unfold ThreadPc.next at h
  split at h
  case h_9 => cases h; cases hd; rfl
  all_goals first | cases h | (split at h <;> cases h)
  all_goals cases hd

/-- A thread is about to close what its slot holds. -/
theorem Moves.closes {c : Nat} {i : Fin n} {pc pc' : ThreadPc n} {d : Int} (h : Moves signed s c i a pc pc')
    (hd : pc'.closes = some d) : d = (s.clientInfo i).fd := by
  cases h with
  | next h => exact ThreadPc.next_closes h hd
  | eof => cases hd
  | data => cases hd

/-- Only the threads, the `fd`s, the descriptors and what `main` has in hand and binds matter. -/
theorem Carried.congr (h : Carried s) (hth : t.thread = s.thread) (hfd : ∀ i, (t.clientInfo i).fd = (s.clientInfo i).fd)
    (hos : t.os = s.os) (hb : s.main.Binds t.main) (hp : t.main.peer = none ∨ t.main.peer = s.main.peer) :
    Carried t := by
  constructor
  · simpa only [hth, hfd] using h.fd
  · intro k p i hm hk
    obtain ⟨k', hm', hk'⟩ := hb k p i hm
    rw [hfd]
    exact h.fd_bound k' p i hm' (hk'.trans hk)
  · simpa only [hth] using h.close
  · simpa only [hth, hos] using h.sock
  · intro p ht
    rw [hos]
    rcases hp with hp | hp
    · rw [hp] at ht; cases ht
    · exact h.peer p (hp ▸ ht)

/-- A thread that moves does not open its socket again, nor restart its session, and has at most loaded the `fd` of its
slot. -/
theorem Carried.goto (h : Carried s) {c : Nat} {th : Thread n} (hth : s.thread c = some th) (pc : ThreadPc n)
    (hx : th.pc.cleared = true → pc.cleared = true) (hc : th.pc.closed = true → pc.closed = true)
    (hcl : ∀ d, pc.closes = some d → d = th.sock) : Carried (s.goto c th pc) := by
  obtain ⟨h1, h2, h3, h4, h5⟩ := h
  constructor <;> grind -ring -linarith

/-- **Without evictions a session keeps its socket.** -/
theorem Carried.step (hw : WF s) (hseat : Seated s) (h : Carried s) (hg : OccGuard s a) (he : Effect signed s a t) :
    Carried t := by
  have hself := h
  have hnew := hw.peer_fresh
  have hsock := hw.peer_sock
  obtain ⟨s1, s2, s3, s4, s5⟩ := hseat
  obtain ⟨h1, h2, h3, h4, h5⟩ := h
  cases he with
  | accept d ip hpc hd hos => constructor <;> grind -ring -linarith
  | quiet pc hb hb' hp => exact hself.congr rfl (fun _ => rfl) rfl (MainPc.binds_none hb') hp
  | found p i hb hp hfd => constructor <;> grind -ring -linarith
  | evict i hm =>
    have hfd := hg i (by rw [hm]; rfl)
    exact hself.congr rfl (fd_update hfd.symm) rfl (MainPc.binds_none rfl) (.inl rfl)
  | ip p i hpc => exact hself.congr rfl (fd_update rfl) rfl (MainPc.binds_bind hpc rfl) (.inr (MainPc.peer_bind hpc))
  | lock p i hpc => exact hself.congr rfl (fun _ => rfl) rfl (MainPc.binds_bind hpc rfl) (.inr (MainPc.peer_bind hpc))
  | index p i hpc => exact hself.congr rfl (fd_update rfl) rfl (MainPc.binds_bind hpc rfl) (.inr (MainPc.peer_bind hpc))
  | fd p i hpc => constructor <;> grind -ring -linarith
  | count p i hpc => exact hself.congr rfl (fun _ => rfl) rfl (MainPc.binds_bind hpc rfl) (.inr (MainPc.peer_bind hpc))
  | unlock p i hpc => exact hself.congr rfl (fun _ => rfl) rfl (MainPc.binds_bind hpc rfl) (.inr (MainPc.peer_bind hpc))
  | create p i hpc => constructor <;> grind -ring -linarith
  | move c th pc hth hmv =>
    have hc := hmv.closed.1
    have hx := ThreadPc.cleared_of_closed hc
    exact hself.goto hth pc (by simp [hx]) (by simp [hc]) fun d hd => (hmv.closes hd).trans (h1 c th hth hx)
  | close c th d hth hpc =>
    have hd := h3 c th d hth (by rw [hpc]; rfl)
    have hos := h4 c th hth (by rw [hpc]; rfl)
    constructor <;> grind -ring -linarith
  | takeMutx c th hth hpc =>
    have hgoto := hself.goto hth .dec (by rw [hpc]; exact id) (fun _ => rfl) fun d hd => by cases hd
    exact hgoto.congr rfl (fun _ => rfl) rfl (.refl _) (.inr rfl)
  | dec c th hth hpc =>
    have hgoto := hself.goto hth .clear (by rw [hpc]; exact id) (fun _ => rfl) fun d hd => by cases hd
    exact hgoto.congr rfl (fun _ => rfl) rfl (.refl _) (.inr rfl)
  | clear c th hth hpc => constructor <;> grind -ring -linarith
  | release c th hth hpc =>
    have hgoto := hself.goto hth .done (fun _ => rfl) (fun _ => rfl) fun d hd => by cases hd
    exact hgoto.congr rfl (fun _ => rfl) rfl (.refl _) (.inr rfl)

theorem MainPc.next_peer {T : Fin n → ClientInfo} {k : Int} {pc pc' : MainPc n} (h : pc.next T k = some pc')
    (hr : pc.rejects k = false) : (∀ i, pc ≠ .evicting i) ∧
      (pc'.peer = pc.peer ∧ (∀ i, pc' ≠ .evicting i) ∨ ∃ p i, pc.peer = some p ∧ pc' = .evicting i) := by
  unfold MainPc.next at h
  split at h
  · cases h; exact ⟨fun i => by simp, .inl ⟨rfl, fun i => by simp⟩⟩
  · split at h
    · rename_i hk
      exact absurd hk (of_decide_eq_false hr)
    · cases h; exact ⟨fun i => by simp, .inl ⟨rfl, fun i => by simp⟩⟩
  · cases hr
  · refine ⟨fun i => by simp, ?_⟩
    split at h
    · split at h
      · cases h; exact .inr ⟨_, _, rfl, rfl⟩
      · split at h <;> cases h <;> exact .inl ⟨rfl, fun i => by simp⟩
    · cases h; exact .inl ⟨rfl, fun i => by simp⟩
  · cases h

/-- Where a guarded step takes `main`: it stays, accepts, hands its connection to a thread, or keeps it in hand; it
drops it only for an eviction. -/
theorem Leads.peer {pc : MainPc n} (h : Leads s a pc) (hg : FdGuard s a) : pc = s.main ∨ (∀ i, s.main ≠ .evicting i) ∧
    (s.main = .accept ∧ (∀ i, pc ≠ .evicting i) ∨ (∃ p i, s.main = .bind .create p i) ∨
      pc.peer = s.main.peer ∧ (∀ i, pc ≠ .evicting i) ∨ ∃ p i, s.main.peer = some p ∧ pc = .evicting i) := by
  cases h with
  | stay => exact .inl rfl
  | accept p hm => exact .inr ⟨fun i => by rw [hm]; simp, .inl ⟨hm, fun i => by simp⟩⟩
  | eof p hm => exact absurd rfl hg
  | login p id pw hm => exact .inr ⟨fun i => by rw [hm]; simp, .inr (.inr (.inl ⟨by rw [hm]; rfl, fun i => by simp⟩))⟩
  | next hn =>
    obtain ⟨hne, hp⟩ := MainPc.next_peer hn hg
    exact .inr ⟨hne, .inr (.inr hp)⟩
  | evict i hm => rw [FdGuard, hm] at hg; cases hg
  | bind p i hm hk =>
    exact .inr ⟨fun i => by rw [hm]; simp, .inr (.inr (.inl ⟨by rw [hm]; rfl, fun i => by simp⟩))⟩
  | create p i hm => exact .inr ⟨fun i => by rw [hm]; simp, .inr (.inl ⟨p, i, hm⟩)⟩

/-- A step of `main` that keeps the threads and the descriptors. -/
theorem Traced.main (hw : WF s) (hk : Carried s) (h : Traced s) (hl : Leads s a t.main) (hg : FdGuard s a)
    (hos : t.os = s.os) (hth : t.thread = s.thread) (hcr : ∀ p i, s.main ≠ .bind .create p i) : Traced t := by
  rcases hl.peer hg with hm | ⟨hev, ⟨hm, hev'⟩ | ⟨p, i, hc⟩ | ⟨hp, hev'⟩ | ⟨p, i, hp, hev'⟩⟩
  · exact ⟨by rw [hm, hos, hth]; exact h.opened, by rw [hm, hos, hth]; exact h.lost⟩
  · -- from `accept` there is nothing in hand
    refine ⟨fun _ d c hd => ?_, fun i hi => absurd hi (hev' i)⟩
    rw [hos] at hd
    rcases h.opened hev d c hd with ⟨p, hp, -⟩ | ht
    · rw [hm] at hp; cases hp
    · rw [hth]; exact .inr ht
  · exact absurd hc (hcr p i)
  · refine ⟨fun _ => ?_, fun i hi => absurd hi (hev' i)⟩
    rw [hp, hos, hth]
    exact h.opened hev
  · refine ⟨fun hno => absurd hev' (hno i), fun _ _ => ?_⟩
    rw [hos, hth]
    exact ⟨p.sock, p.conn, hk.peer p hp, hw.peer_fresh p hp⟩

/-- A step of thread `c` that closes at most descriptors it then has a right to have closed. -/
theorem Traced.conn (h : Traced s) {c : Nat} {th : Thread n} {pc : ThreadPc n} (hm : t.main = s.main)
    (hth : s.thread c = some th) (ht : t.thread = (s.goto c th pc).thread)
    (hos : ∀ d c', t.os d = some c' → s.os d = some c') (hkeep : ∀ d c', s.os d = some c' → c' ≠ c → t.os d = some c')
    (hcl : t.os th.sock = some c → th.pc.closed = false → pc.closed = false) : Traced t := by
  constructor
  · intro hno d c' hd
    rw [hm] at hno ⊢
    rcases h.opened hno d c' (hos d c' hd) with hp | ⟨th', hth', hs, hc⟩
    · exact .inl hp
    · refine .inr ?_
      rw [ht]
      by_cases hcc : c' = c
      · subst hcc
        rw [hth] at hth'
        cases hth'
        subst hs
        exact ⟨{ th with pc := pc }, by simp, rfl, hcl hd hc⟩
      · exact ⟨th', by simpa [hcc] using hth', hs, hc⟩
  · intro i hi
    rw [hm] at hi
    obtain ⟨d, c', hd, hc'⟩ := h.lost i hi
    have hne : c' ≠ c := by
      rintro rfl
      rw [hth] at hc'
      cases hc'
    refine ⟨d, c', hkeep d c' hd hne, ?_⟩
    rw [ht]
    simpa [hne] using hc'

/-- A step of thread `c` that closes nothing and does not pass its `close`. -/
theorem Traced.goto (h : Traced s) {c : Nat} {th : Thread n} (hm : t.main = s.main) (hth : s.thread c = some th)
    (pc : ThreadPc n) (ht : t.thread = (s.goto c th pc).thread) (hos : t.os = s.os)
    (hc : th.pc.closed = pc.closed) : Traced t :=
  h.conn hm hth ht (fun d c' hd => by rwa [hos] at hd) (fun d c' hd _ => by rwa [hos]) fun _ hcl => by rwa [hc] at hcl

/-- **Guarded steps lose no socket**, but for the one that an eviction leaves behind. -/
theorem Traced.step (hw : WF s) (hk : Carried s) (h : Traced s) (hg : FdGuard s a) (hst : step signed s a = some t) :
    Traced t := by
  have hl := leads_of_step hst
  have he := effect_of_step hst
  cases he with
  | accept d ip hm hd hos =>
    refine ⟨fun _ e c hc => ?_, fun i hi => by cases hi⟩
    by_cases hed : e = d
    · subst hed
      exact .inl ⟨⟨e, s.next, ip⟩, rfl, rfl, by simpa using hc⟩
    · simp only [Function.update_of_ne hed] at hc
      rcases h.opened (fun i => by rw [hm]; simp) e c hc with ⟨p, hp, -⟩ | ht
      · rw [hm] at hp; cases hp
      · exact .inr ht
  | quiet pc hb hb' hp => exact h.main hw hk hl hg rfl rfl fun p i hc => by rw [hc] at hb; cases hb
  | found p i hb => exact h.main hw hk hl hg rfl rfl fun p i hc => by rw [hc] at hb; cases hb
  | evict i hm => rw [FdGuard, hm] at hg; cases hg
  | ip p i hm => exact h.main hw hk hl hg rfl rfl (by rw [hm]; simp)
  | lock p i hm => exact h.main hw hk hl hg rfl rfl (by rw [hm]; simp)
  | index p i hm => exact h.main hw hk hl hg rfl rfl (by rw [hm]; simp)
  | fd p i hm => exact h.main hw hk hl hg rfl rfl (by rw [hm]; simp)
  | count p i hm => exact h.main hw hk hl hg rfl rfl (by rw [hm]; simp)
  | unlock p i hm => exact h.main hw hk hl hg rfl rfl (by rw [hm]; simp)
  | create p i hm =>
    -- the connection in hand gets the thread that will close its socket
    have hnew := hw.peer_fresh p (by rw [hm]; rfl)
    refine ⟨fun _ d c hd => .inr ?_, fun j hj => by cases hj⟩
    rcases h.opened (fun i => by rw [hm]; simp) d c hd with ⟨q, hq, rfl, rfl⟩ | ⟨th, hth, hs, hc⟩
    · rw [hm] at hq
      cases hq
      exact ⟨⟨i, p.sock, .start⟩, by simp, rfl, rfl⟩
    · have hne : c ≠ p.conn := by
        rintro rfl
        rw [hnew] at hth
        cases hth
      exact ⟨th, by simpa [hne] using hth, hs, hc⟩
  | move c th pc hth hmv => exact h.goto rfl hth pc rfl rfl (by rw [hmv.closed.1, hmv.closed.2])
  | close c th d hth hpc =>
    obtain rfl : d = th.sock := hk.close c th d hth (by rw [hpc]; rfl)
    have hos := hk.sock c th hth (by rw [hpc]; rfl)
    refine h.conn rfl hth rfl (fun e c' he => ?_) (fun e c' he hne => ?_) (fun hc => by simp at hc)
    · by_cases hed : e = th.sock
      · subst hed; simp at he
      · simpa [hed] using he
    · have hed : e ≠ th.sock := by
        rintro rfl
        rw [hos] at he
        cases he
        exact hne rfl
      simpa [hed] using he
  | takeMutx c th hth hpc => exact h.goto rfl hth .dec rfl rfl (by rw [hpc]; rfl)
  | dec c th hth hpc => exact h.goto rfl hth .clear rfl rfl (by rw [hpc]; rfl)
  | clear c th hth hpc => exact h.goto rfl hth .unlock rfl rfl (by rw [hpc]; rfl)
  | release c th hth hpc => exact h.goto rfl hth .done rfl rfl (by rw [hpc]; rfl)

/-! ## Accounted states and guarded steps -/

/-- What guarded runs keep. -/
structure Tended (s : Srv n) : Prop extends WF s, Seated s, Carried s, Traced s

theorem Tended.step (h : Tended s) (hg : FdGuard s a) (hst : Server.step signed s a = some t) : Tended t := by
  have he := effect_of_step hst
  exact ⟨h.toWF.step he, h.toSeated.step h.toWF hg.occ he, h.toCarried.step h.toWF h.toSeated hg.occ he,
    h.toTraced.step h.toWF h.toCarried hg hst⟩

/-- Sockets held by slots are at most as many as the slots. -/
theorem encard_le_of_held {os : Int → Option Nat} {T : Fin n → ClientInfo}
    (h : ∀ d, os d ≠ none → ∃ i, (T i).fd = d) : {d | os d ≠ none}.encard ≤ n := by
  have hsub : {d | os d ≠ none} ⊆ Set.range fun i => (T i).fd := fun d hd => h d hd
  apply (Set.encard_le_encard hsub).trans
  rw [← Set.image_univ]
  apply (Set.encard_image_le _ _).trans
  rw [Set.encard_univ, ENat.card_eq_coe_fintype_card, Fintype.card_fin]

theorem Tended.accounted (h : Tended s) : Accounted s := by
  have held : s.main = .accept → ∀ d c, s.os d = some c → ∃ i, (s.clientInfo i).fd = d ∧ Authed s c i := by
    intro hm d c hd
    rcases h.opened (fun i => by rw [hm]; simp) d c hd with ⟨p, hp, -⟩ | ⟨th, hth, hs, hc⟩
    · rw [hm] at hp; cases hp
    · exact ⟨th.slot, (h.fd c th hth (ThreadPc.cleared_of_closed hc)).trans hs, .inl ⟨th, hth, rfl⟩⟩
  refine ⟨held, fun hm => encard_le_of_held (T := s.clientInfo) fun d hd => ?_⟩
  obtain ⟨c, hc⟩ := Option.ne_none_iff_exists'.1 hd
  obtain ⟨i, hi, -⟩ := held hm d c hc
  exact ⟨i, hi⟩

/-- An open socket of a connection without a thread, while `main` is about to accept, is held by no slot. -/
theorem not_accounted {d : Int} {c : Nat} (hm : s.main = .accept) (hd : s.os d = some c) (hc : s.thread c = none) :
    ¬ Accounted s := by
  intro h
  obtain ⟨i, -, ⟨th, hth, -⟩ | ⟨k, p, hb, -⟩⟩ := h.held hm d c hd
  · rw [hc] at hth; cases hth
  · rw [hm] at hb; cases hb

/-- A step that turns a connection away leaves its socket open: only guarded steps lead to accounted states. -/
theorem fdGuard_of_accounted (h : Tended s) (hst : Server.step signed s a = some t) (ht : Accounted t) :
    FdGuard s a := by
  -- the connection in hand, when `main` goes back to `accept` without a thread for it
  have drop {p : Peer} (hp : s.main.peer = some p) (htm : t.main = .accept) (hos : t.os = s.os)
      (hth : t.thread = s.thread) : False :=
    not_accounted htm (by rw [hos]; exact h.peer p hp) (by rw [hth]; exact h.peer_fresh p hp) ht
  cases a with
  | main =>
    show s.main.rejects s.clntCnt = false
    by_contra hr
    rw [Bool.not_eq_false] at hr
    match hm : s.main, hr with
    | .accepted (some p), hr =>
      simp only [Server.step, mainStep, hm, MainPc.next, if_pos (of_decide_eq_true hr), Option.map_some] at hst
      cases hst
      exact drop (by rw [hm]; rfl) rfl rfl rfl
    | .scanning p id pw [], _ =>
      simp only [Server.step, mainStep, hm, MainPc.next, Option.map_some] at hst
      cases hst
      exact drop (by rw [hm]; rfl) rfl rfl rfl
    | .evicting i, _ =>
      simp only [Server.step, mainStep, hm] at hst
      cases hst
      obtain ⟨d, c, hd, hc⟩ := h.lost i hm
      exact not_accounted (s := { s.setFd i (-1) with main := .accept }) rfl hd hc ht
  | login r =>
    rintro rfl
    simp only [Server.step] at hst
    split at hst
    · rename_i p hm _
      cases hst
      exact drop (by rw [hm]; rfl) rfl rfl rfl
    · rename_i hn; cases hn
    · cases hst
  | _ => trivial

/-! ## Runs -/

theorem tended_start : Tended srvStart := by
  refine ⟨wf_start, seated_start, ?_, ?_⟩ <;> constructor <;> simp [srvStart, MainPc.peer]

/-- **The states of a run are all accounted iff the run turns nobody away.** -/
theorem accounted_iff {tr : List (Srv maxClnt × Act × Srv maxClnt)} {s : Srv maxClnt}
    (h : Run (step signed) srvStart tr s) : (∀ e ∈ tr, Accounted e.2.2) ↔ ∀ e ∈ tr, FdGuard e.1 e.2.1 :=
  run_iff tended_start (fun _ => Tended.accounted) (fun _ _ _ hs hg hst => hs.step hg hst)
    (fun _ _ _ hs hst ht => fdGuard_of_accounted hs hst ht) h

/-- A login, the exit of its thread, and the next login. -/
theorem accounted_iff_login : ∃ tr s, trace (step false) srvStart (loginActs 0 4 ++
      [.thread 0, .thread 0, .read 0 none] ++ List.replicate 6 (.thread 0) ++ loginActs 0 4) = some (tr, s) ∧
    ((∀ e ∈ tr, Accounted e.2.2) ↔ ∀ e ∈ tr, FdGuard e.1 e.2.1) := by
  apply exists_of_trace
  · decide
  · exact fun tr s hs => accounted_iff hs

/-- A connection that sends no login stays open when `main` is back at `accept`, and no slot holds it. -/
theorem unclosed_rejection : ¬ ∀ (signed : Bool) (s : Srv maxClnt), Reach (step signed) free srvStart s →
    Accounted s := by
  intro h
  have hrun : ∃ s, exec (step false) srvStart [.accept (some (4, [])), .main, .login none] = some s ∧
      s.main = .accept ∧ s.os 4 = some 0 ∧ s.clientInfo = clientInfo₀ := ⟨_, rfl, rfl, rfl, rfl⟩
  obtain ⟨s, hs, hm, hd, hT⟩ := hrun
  obtain ⟨i, hi, -⟩ := (h false s (reach_of_exec hs)).held hm 4 0 hd
  rw [hT] at hi
  cases hi

end PetVending.Server
