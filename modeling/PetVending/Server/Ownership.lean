import PetVending.Server.Session

/-!
# Session ownership

A connection thread never keeps its socket: at every use it loads the `fd` of its slot again. So it works on its own
socket only while its slot holds this socket or `-1`.

- `OwnSession`: every descriptor a thread is about to read from, answer on or close is its own socket or `-1`, and no
  exit section clears a slot that holds the socket of another login;
- `OwnGuard`: a slot is bound only when every earlier thread of the slot has cleared it, and a descriptor that is
  stored in `MSG_INFO.fd` for an answer fits into it;
- `own_session`: every run whose steps meet `OwnGuard` keeps `OwnSession`. Without the guard it fails
  (`late_disconnect`).
-/

namespace PetVending.Server

open CStr Transition

variable {n : Nat} {signed : Bool} {s t : Srv n} {a : Act}

/-! ## The property and the guard -/

/-- The descriptor a thread has loaded to read from, to answer on or to close. -/
@[grind =] def ThreadPc.own : ThreadPc n → Option Int
  | .reading d => some d
  | .answering m => some m.fd
  | .close d => some d
  | _ => none

/-- Connection `c` is logged in at slot `i` with the socket `d`: its thread has not ended, or `main` has written `d`
and is about to start the thread. -/
def LoggedIn (s : Srv n) (c : Nat) (i : Fin n) (d : Int) : Prop :=
  (∃ th, s.thread c = some th ∧ th.slot = i ∧ th.sock = d ∧ th.pc.cleared = false) ∨
    ∃ k p, s.main = .bind k p i ∧ k.written = true ∧ p.conn = c ∧ p.sock = d

/-- Threads work on their own sockets, and clear no slot that holds the socket of another login. -/
structure OwnSession (s : Srv n) : Prop where
  own : ∀ c th d, s.thread c = some th → th.pc.own = some d → d = -1 ∨ d = th.sock ∧ s.os d = some c
  clear : ∀ c th, s.thread c = some th → th.pc = .clear →
    ∀ c', LoggedIn s c' th.slot (s.clientInfo th.slot).fd → c' = c

/-- The thread is about to take a request that it answers itself. -/
def ThreadPc.asked : ThreadPc n → Bool
  | .received dest _ => dest = bytes "GETTIME" ∨ dest = bytes "IDLIST"
  | _ => false

/-- `main` writes the `fd` of a slot only when every earlier thread of the slot has cleared it; a thread takes a request
that it answers itself only when the `fd` of its slot fits into `MSG_INFO.fd`. -/
def OwnGuard (signed : Bool) (s : Srv n) : Act → Prop
  | .main => ∀ i ∈ s.main.writes, ∀ c < s.next, ∀ th ∈ s.thread c, th.slot = i → th.pc.cleared = true
  | .thread c => ∀ th ∈ s.thread c, th.pc.asked = true →
      charFd signed (s.clientInfo th.slot).fd = (s.clientInfo th.slot).fd
  | _ => True

instance (signed : Bool) (s : Srv n) : (a : Act) → Decidable (OwnGuard signed s a)
  | .main => inferInstanceAs (Decidable (∀ i ∈ s.main.writes, ∀ c < s.next, ∀ th ∈ s.thread c, _))
  | .thread c => inferInstanceAs (Decidable (∀ th ∈ s.thread c, _))
  | .accept _ => .isTrue trivial
  | .login _ => .isTrue trivial
  | .read _ _ => .isTrue trivial

/-! ## Sessions that go on -/

theorem LoggedIn.goto {c c' : Nat} {i : Fin n} {d : Int} {th : Thread n} {pc : ThreadPc n} (h : LoggedIn s c' i d)
    (hth : s.thread c = some th) (hc : pc.closed = false) : LoggedIn (s.goto c th pc) c' i d := by
  rcases h with ⟨th', hth', hslot, hsock, hcl⟩ | hm
  · by_cases hcc : c' = c
    · subst hcc
      rw [hth] at hth'
      cases hth'
      exact .inl ⟨{ th with pc := pc }, by simp, hslot, hsock, ThreadPc.cleared_of_closed hc⟩
    · exact .inl ⟨th', by simpa [hcc] using hth', hslot, hsock, hcl⟩
  · exact .inr hm

/-- A session ends only by clearing its slot. -/
theorem LoggedIn.step (hw : WF s) (he : Effect signed s a t) {c : Nat} {i : Fin n} {d : Int} (h : LoggedIn s c i d) :
    LoggedIn t c i d ∨ (t.clientInfo i).fd = -1 := by
  have hgoto := h
  rcases h with ⟨th, hth, hslot, hsock, hcl⟩ | ⟨k, p, hm, hk, hconn, hsock⟩
  · cases he with
    | create p j hpc =>
      have hp := hw.peer_fresh p (by rw [hpc]; rfl)
      refine .inl (.inl ⟨th, ?_, hslot, hsock, hcl⟩)
      grind -ring -linarith
    | move c' th' pc hth' hmv => exact .inl (hgoto.goto hth' hmv.closed.2)
    | clear c' th' hth' hpc =>
      by_cases hcc : c = c'
      · exact .inr (by grind -ring -linarith)
      · exact .inl (.inl ⟨th, by simpa [hcc] using hth, hslot, hsock, hcl⟩)
    | _ => refine .inl (.inl ?_); grind -ring -linarith
  · cases he with
    | create p' j hpc =>
      rw [hm] at hpc
      cases hpc
      exact .inl (.inl ⟨⟨i, p.sock, .start⟩, by simp [hconn], rfl, hsock, rfl⟩)
    | move c' th' pc hth' hmv => exact .inl (hgoto.goto hth' hmv.closed.2)
    | _ => refine .inl (.inr ?_); grind -ring -linarith

/-! ## The invariant -/

/-- What guarded runs keep of the threads: the slot of a session that has not ended holds its socket or `-1`, its socket
is open for it until the thread closes it, what the thread has loaded is its socket or `-1`, and a slot has one session
at a time. -/
structure Apart (s : Srv n) : Prop where
  slot : ∀ c th, s.thread c = some th → th.pc.cleared = false →
    (s.clientInfo th.slot).fd = -1 ∨ (s.clientInfo th.slot).fd = th.sock
  sock : ∀ c th, s.thread c = some th → th.pc.closed = false → s.os th.sock = some c
  own : ∀ c th d, s.thread c = some th → th.pc.own = some d → d = -1 ∨ d = th.sock
  one : ∀ c c' th th', s.thread c = some th → s.thread c' = some th' → th.slot = th'.slot →
    th.pc.cleared = false → th'.pc.cleared = false → c = c'

/-- What guarded runs keep of `main`: the slot it has written holds its socket, and no session that has not ended. -/
structure Handed (s : Srv n) : Prop where
  bound : ∀ k p i, s.main = .bind k p i → k.written = true → (s.clientInfo i).fd = p.sock
  alone : ∀ k p i c th, s.main = .bind k p i → k.written = true → s.thread c = some th → th.slot = i →
    th.pc.cleared = true
  peer : ∀ p, s.main.peer = some p → s.os p.sock = some p.conn

structure Sessions (s : Srv n) : Prop extends WF s, Apart s, Handed s

theorem ThreadPc.next_own {T : Fin n → ClientInfo} {i : Fin n} {pc pc' : ThreadPc n} {d : Int}
    (h : pc.next signed T i = some pc') (hd : pc'.own = some d) :
    d = (T i).fd ∨ pc.asked = true ∧ d = charFd signed (T i).fd := by
  unfold ThreadPc.next at h
  split at h
  case h_3 dest text =>
    dsimp only at h
    split at h
    · rename_i hans
      cases h
      cases hd
      exact .inr ⟨by simpa [ThreadPc.asked] using hans, rfl⟩
    · cases h
      cases hd
  all_goals first | cases h | (split at h <;> cases h)
  all_goals first | (cases hd; exact .inl rfl) | cases hd

/-- What a moving thread loads for itself is the `fd` of its slot, under the guard. -/
theorem Moves.own {c : Nat} {th : Thread n} {pc : ThreadPc n} {d : Int} (hth : s.thread c = some th)
    (hg : OwnGuard signed s a) (hm : Moves signed s c th.slot a th.pc pc) (hd : pc.own = some d) :
    d = (s.clientInfo th.slot).fd := by
  generalize hpc : th.pc = pc₀ at hm
  cases hm with
  | next h =>
    rcases ThreadPc.next_own h hd with rfl | ⟨hans, rfl⟩
    · rfl
    · exact hg th hth (hpc ▸ hans)
  | eof => cases hd
  | data => cases hd

/-- A slot that `main` may write has no session that has not ended. -/
theorem cleared_of_guard (hfresh : ∀ c, s.next ≤ c → s.thread c = none) {p : Peer} {i : Fin n}
    (hpc : s.main = .bind .fd p i) (hg : OwnGuard signed s .main) :
    ∀ c th, s.thread c = some th → th.slot = i → th.pc.cleared = true := by
  intro c th hth hi
  refine hg i (by simp [hpc, MainPc.writes]) c ?_ th hth hi
  by_contra hlt
  rw [hfresh c (not_lt.1 hlt)] at hth
  cases hth

/-- Only the threads, the `fd`s and the open descriptors matter. -/
theorem Apart.congr (h : Apart s) (hth : t.thread = s.thread) (hfd : ∀ i, (t.clientInfo i).fd = (s.clientInfo i).fd)
    (hos : t.os = s.os) : Apart t := by
  obtain ⟨h1, h2, h3, h4⟩ := h
  constructor
  · simpa only [hth, hfd] using h1
  · simpa only [hth, hos] using h2
  · simpa only [hth] using h3
  · simpa only [hth] using h4

/-- A thread that moves does not open its socket again, nor restart its session, and has loaded its socket or `-1`. -/
theorem Apart.goto (h : Apart s) {c : Nat} {th : Thread n} (hth : s.thread c = some th) (pc : ThreadPc n)
    (hx : th.pc.cleared = true → pc.cleared = true) (hc : th.pc.closed = true → pc.closed = true)
    (hown : ∀ d, pc.own = some d → d = -1 ∨ d = th.sock) : Apart (s.goto c th pc) := by
  obtain ⟨h1, h2, h3, h4⟩ := h
  constructor <;> grind -ring -linarith

/-- **Guarded steps keep the sessions apart.** -/
theorem Apart.step (h : Sessions s) (hg : OwnGuard signed s a) (he : Effect signed s a t) : Apart t := by
  have hself := h.toApart
  obtain ⟨⟨⟨w1, w2, -, -, w5, -⟩, ⟨w7, w8, -⟩, -⟩, ⟨h1, h2, h3, h4⟩, h5, h6, h7⟩ := h
  cases he with
  | accept d ip hpc hd hos => constructor <;> grind -ring -linarith
  | quiet pc hb hb' hp => exact hself.congr rfl (fun _ => rfl) rfl
  | found p i hb hp hfd => exact hself.congr rfl (fun _ => rfl) rfl
  | evict i hpc => constructor <;> grind -ring -linarith
  | ip p i hpc => exact hself.congr rfl (fd_update rfl) rfl
  | lock p i hpc hx => exact hself.congr rfl (fun _ => rfl) rfl
  | index p i hpc => exact hself.congr rfl (fd_update rfl) rfl
  | fd p i hpc =>
    have hold := cleared_of_guard w1 hpc hg
    constructor <;> grind -ring -linarith
  | count p i hpc => exact hself.congr rfl (fun _ => rfl) rfl
  | unlock p i hpc => exact hself.congr rfl (fun _ => rfl) rfl
  | create p i hpc =>
    have hp := w5 p (by rw [hpc]; rfl)
    have hos := h7 p (by rw [hpc]; rfl)
    constructor <;> grind -ring -linarith
  | move c th pc hth hmv =>
    have hc := hmv.closed.1
    have hx := ThreadPc.cleared_of_closed hc
    refine hself.goto hth pc (by simp [hx]) (by simp [hc]) fun d hd => ?_
    rw [hmv.own hth hg hd]
    exact h1 c th hth hx
  | close c th d hth hpc =>
    have hd := h3 c th d hth (by rw [hpc]; rfl)
    have hos := h2 c th hth (by rw [hpc]; rfl)
    have hcl : th.pc.cleared = false := by rw [hpc]; rfl
    constructor <;> grind -ring -linarith
  | takeMutx c th hth hpc =>
    have hgoto := hself.goto hth .dec (by rw [hpc]; exact id) (fun _ => rfl) fun d hd => by cases hd
    exact hgoto.congr rfl (fun _ => rfl) rfl
  | dec c th hth hpc =>
    have hgoto := hself.goto hth .clear (by rw [hpc]; exact id) (fun _ => rfl) fun d hd => by cases hd
    exact hgoto.congr rfl (fun _ => rfl) rfl
  | clear c th hth hpc => constructor <;> grind -ring -linarith
  | release c th hth hpc =>
    have hgoto := hself.goto hth .done (fun _ => rfl) (fun _ => rfl) fun d hd => by cases hd
    exact hgoto.congr rfl (fun _ => rfl) rfl

/-- Only the threads, the `fd`s, the descriptors and what `main` has in hand and binds matter. -/
theorem Handed.congr (h : Handed s) (hth : t.thread = s.thread) (hfd : ∀ i, (t.clientInfo i).fd = (s.clientInfo i).fd)
    (hos : t.os = s.os) (hb : s.main.Binds t.main) (hp : t.main.peer = none ∨ t.main.peer = s.main.peer) :
    Handed t := by
  constructor
  · intro k p i hm hk
    obtain ⟨k', hm', hk'⟩ := hb k p i hm
    rw [hfd]
    exact h.bound k' p i hm' (hk'.trans hk)
  · intro k p i c th hm hk
    obtain ⟨k', hm', hk'⟩ := hb k p i hm
    rw [hth]
    exact h.alone k' p i c th hm' (hk'.trans hk)
  · intro p ht
    rw [hos]
    rcases hp with hp | hp
    · rw [hp] at ht; cases ht
    · exact h.peer p (hp ▸ ht)

/-- A thread that moves does not restart its session. -/
theorem Handed.goto (h : Handed s) {c : Nat} {th : Thread n} (hth : s.thread c = some th) (pc : ThreadPc n)
    (hx : th.pc.cleared = true → pc.cleared = true) : Handed (s.goto c th pc) := by
  obtain ⟨h1, h2, h3⟩ := h
  constructor <;> grind -ring -linarith

/-- Guarded steps keep the slot of `main` for its connection. -/
theorem Handed.step (h : Sessions s) (hg : OwnGuard signed s a) (he : Effect signed s a t) : Handed t := by
  have hself := h.toHanded
  obtain ⟨⟨⟨w1, -, -, w4, w5, -⟩, ⟨w7, w8, -⟩, -⟩, ⟨h1, h2, h3, -⟩, h5, h6, h7⟩ := h
  cases he with
  | accept d ip hpc hd hos => constructor <;> grind -ring -linarith
  | quiet pc hb hb' hp => exact hself.congr rfl (fun _ => rfl) rfl (MainPc.binds_none hb') hp
  | found p i hb hp hfd => constructor <;> grind -ring -linarith
  | evict i hpc => constructor <;> grind -ring -linarith
  | ip p i hpc => exact hself.congr rfl (fd_update rfl) rfl (MainPc.binds_bind hpc rfl) (.inr (MainPc.peer_bind hpc))
  | lock p i hpc => exact hself.congr rfl (fun _ => rfl) rfl (MainPc.binds_bind hpc rfl) (.inr (MainPc.peer_bind hpc))
  | index p i hpc => exact hself.congr rfl (fd_update rfl) rfl (MainPc.binds_bind hpc rfl) (.inr (MainPc.peer_bind hpc))
  | fd p i hpc =>
    have hold := cleared_of_guard w1 hpc hg
    constructor <;> grind -ring -linarith
  | count p i hpc => exact hself.congr rfl (fun _ => rfl) rfl (MainPc.binds_bind hpc rfl) (.inr (MainPc.peer_bind hpc))
  | unlock p i hpc => exact hself.congr rfl (fun _ => rfl) rfl (MainPc.binds_bind hpc rfl) (.inr (MainPc.peer_bind hpc))
  | create p i hpc => constructor <;> grind -ring -linarith
  | move c th pc hth hmv =>
    have hx := ThreadPc.cleared_of_closed hmv.closed.1
    exact hself.goto hth pc (by simp [hx])
  | close c th d hth hpc =>
    have hd := h3 c th d hth (by rw [hpc]; rfl)
    have hos := h2 c th hth (by rw [hpc]; rfl)
    have hcl : th.pc.cleared = false := by rw [hpc]; rfl
    constructor <;> grind -ring -linarith
  | takeMutx c th hth hpc =>
    exact (hself.goto hth .dec (by rw [hpc]; exact id)).congr rfl (fun _ => rfl) rfl (.refl _) (.inr rfl)
  | dec c th hth hpc =>
    exact (hself.goto hth .clear (by rw [hpc]; exact id)).congr rfl (fun _ => rfl) rfl (.refl _) (.inr rfl)
  | clear c th hth hpc => constructor <;> grind -ring -linarith
  | release c th hth hpc =>
    exact (hself.goto hth .done fun _ => rfl).congr rfl (fun _ => rfl) rfl (.refl _) (.inr rfl)

theorem Sessions.step (h : Sessions s) (hg : OwnGuard signed s a) (he : Effect signed s a t) : Sessions t :=
  ⟨h.toWF.step he, Apart.step h hg he, Handed.step h hg he⟩

theorem sessions_start : Sessions srvStart := by
  refine ⟨wf_start, ?_, ?_⟩ <;> constructor <;> simp [srvStart, MainPc.peer]

/-- Sessions that are kept apart own what they use. -/
theorem Sessions.ownSession (h : Sessions s) : OwnSession s := by
  constructor
  · intro c th d hth hd
    rcases h.own c th d hth hd with hm | rfl
    · exact .inl hm
    · refine .inr ⟨rfl, h.sock c th hth ?_⟩
      revert hd
      cases th.pc <;> simp [ThreadPc.own, ThreadPc.closed]
  · intro c th hth hpc c' hl
    have hcl : th.pc.cleared = false := by rw [hpc]; rfl
    rcases hl with ⟨th', hth', hslot, -, hcl'⟩ | ⟨k, p, hm, hk, -, -⟩
    · exact h.one c' c th' th hth' hth hslot hcl' hcl
    · have := h.alone k p th.slot c th hm hk hth rfl
      rw [hcl] at this
      cases this

/-! ## Runs -/

/-- **Every run whose steps meet the guard keeps session ownership**, in every state it reaches. -/
theorem own_session {s : Srv maxClnt} (h : Reach (Server.step signed) (OwnGuard signed) srvStart s) : OwnSession s :=
  (h.inv sessions_start fun _ _ _ hi hg hst => hi.step hg (effect_of_step hst)).ownSession

/-- A login, a request for the time, an eviction while the answer is built, and the exit of the thread. -/
theorem own_session_evicted : ∃ s, exec (guarded (Server.step false) (OwnGuard false)) srvStart (loginActs 0 4 ++
    [.thread 0, .thread 0, .read 0 (some (bytes "GETTIME", [])), .thread 0] ++ evictActs 0 5 ++
    [.thread 0, .thread 0, .read 0 none, .thread 0, .thread 0, .thread 0, .thread 0]) = some s ∧ OwnSession s := by
  apply exists_of_guarded
  · decide
  · exact fun s hs => own_session hs

/-- After an eviction and a new login, the thread of the evicted session closes the new one's socket. -/
theorem late_disconnect : ¬ ∀ (signed : Bool) (s : Srv maxClnt),
    Reach (Server.step signed) free srvStart s → OwnSession s := by
  intro h
  have hrun : (exec (Server.step false) srvStart
      (loginActs 0 4 ++ [.thread 0, .thread 0] ++ evictActs 0 5 ++ loginActs 0 6 ++
        [.read 0 none, .thread 0])).any (fun s =>
        (s.thread 0).any fun th => th.sock = 4 ∧ th.pc.own = some 6) = true := by decide
  obtain ⟨s, hs, hth⟩ := (Option.any_eq_true ..).1 hrun
  obtain ⟨th, hth, hown⟩ := (Option.any_eq_true ..).1 hth
  simp only [decide_eq_true_eq] at hown
  rcases (h false s (reach_of_exec hs)).own 0 th 6 hth hown.2 with h6 | ⟨h6, -⟩
  · cases h6
  · rw [hown.1] at h6
    cases h6

end PetVending.Server
