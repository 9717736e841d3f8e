import PetVending.Server.SlotTable
import PetVending.Server.Ownership

/-!
# Where the answers go

The answer to `GETTIME` and `IDLIST` goes to the descriptor that was stored in `MSG_INFO.fd`, a `char`; `accept` gives
the lowest descriptor that is free.

- `Addressed`: a thread that answers a request writes to the descriptor of its slot;
- `Room`: a descriptor that fits into a `char` is free; an accepted descriptor fits iff there was one
  (`charFd_eq_iff_room`);
- **`answers_addressed`**: every run that accepts only while there is `Room` keeps `Addressed`. Connections that are
  turned away keep their descriptors, so without it the answers go astray in the end (`answers_astray`).
-/

namespace PetVending.Server

open CStr Transition

variable {n : Nat} {signed : Bool} {s t : Srv n} {a : Act}

/-! ## The property and the guard -/

/-- A thread that has been asked, of a slot that is online, answers on the descriptor of its slot. -/
def Addressed (signed : Bool) (s : Srv n) : Prop :=
  ∀ c th, s.thread c = some th → th.pc.asked = true → (s.clientInfo th.slot).fd ≠ -1 →
    ∃ t th', step signed s (.thread c) = some t ∧ t.thread c = some th' ∧
      th'.pc.writesTo = some (s.clientInfo th.slot).fd

/-- `accept` gives the lowest descriptor that is free; 0 to 2 are the standard streams, 3 is `serv_sock`. -/
def LowestFree (s : Srv n) : Act → Prop
  | .accept (some (d, _)) => 4 ≤ d ∧ ∀ k < (d - 4).toNat, s.os (4 + k) ≠ none
  | _ => True

instance (s : Srv n) : (a : Act) → Decidable (LowestFree s a)
  | .accept (some (d, _)) => inferInstanceAs (Decidable (4 ≤ d ∧ ∀ k < (d - 4).toNat, s.os (4 + k) ≠ none))
  | .accept none => .isTrue trivial
  | .main => .isTrue trivial
  | .login _ => .isTrue trivial
  | .read _ _ => .isTrue trivial
  | .thread _ => .isTrue trivial

/-- The descriptors from 4 on that fit into a `char`. -/
def charFds (signed : Bool) : Nat := if signed then 124 else 252

/-- When `accept` returns a descriptor, one that fits into a `char` was free. -/
def Room (signed : Bool) (s : Srv n) : Act → Prop
  | .accept (some _) => ∃ k < charFds signed, s.os (4 + k) = none
  | _ => True

instance (signed : Bool) (s : Srv n) : (a : Act) → Decidable (Room signed s a)
  | .accept (some _) => inferInstanceAs (Decidable (∃ k < charFds signed, s.os (4 + k) = none))
  | .accept none => .isTrue trivial
  | .main => .isTrue trivial
  | .login _ => .isTrue trivial
  | .read _ _ => .isTrue trivial
  | .thread _ => .isTrue trivial

theorem charFd_eq_iff {d : Int} (h : 4 ≤ d) : charFd signed d = d ↔ d < 4 + charFds signed := by
  unfold charFd charFds
  cases signed <;> simp only [Bool.false_eq_true, if_false, if_true] <;> omega

/-- **An accepted descriptor fits into `MSG_INFO.fd`** iff one that fits was free. -/
theorem charFd_eq_iff_room {d : Int} {ip : List Byte} (hd : s.os d = none)
    (hl : LowestFree s (.accept (some (d, ip)))) :
    charFd signed d = d ↔ Room signed s (.accept (some (d, ip))) := by
  obtain ⟨h4, hlow⟩ := hl
  rw [charFd_eq_iff h4]
  constructor
  · intro hlt
    refine ⟨(d - 4).toNat, by omega, ?_⟩
    rwa [show (4 + ((d - 4).toNat : Int)) = d by omega]
  · rintro ⟨k, hk, hfree⟩
    by_contra hge
    exact hlow k (by omega) hfree

/-! ## The invariant -/

/-- The descriptors in the table and in the hand of `main` fit into `MSG_INFO.fd`. -/
structure Narrow (signed : Bool) (s : Srv n) : Prop where
  slots : ∀ i, (s.clientInfo i).fd = -1 ∨ charFd signed (s.clientInfo i).fd = (s.clientInfo i).fd
  peer : ∀ p, s.main.peer = some p → charFd signed p.sock = p.sock

/-- The connection in the hand of `main` was there before, or has just been accepted. -/
theorem peer_step (he : Effect signed s a t) {p : Peer} (hp : t.main.peer = some p) : s.main.peer = some p ∨
    ∃ ip, a = .accept (some (p.sock, ip)) ∧ s.os p.sock = none := by
  cases he with
  | accept d ip hm h0 hos =>
    cases hp
    exact .inr ⟨ip, rfl, hos⟩
  | quiet pc hb hb' hpeer => grind -ring -linarith
  | _ => left; grind -ring -linarith

/-- Steps that accept only while there is room keep the descriptors narrow. -/
theorem Narrow.step (h : Narrow signed s) (hl : LowestFree s a) (hr : Room signed s a) (he : Effect signed s a t) :
    Narrow signed t := by
  constructor
  · intro i
    rcases fd_step he i with hi | hi | ⟨p, rfl, hpc, rfl⟩
    · rw [hi]
      exact h.slots i
    · exact .inl hi
    · right
      have hp := h.peer p (by rw [hpc]; rfl)
      simpa using hp
  · intro p hp
    rcases peer_step he hp with hp' | ⟨ip, rfl, hos⟩
    · exact h.peer p hp'
    · exact (charFd_eq_iff_room hos hl).2 hr

/-- What a thread that has been asked does next. -/
theorem asked_step (signed : Bool) {c : Nat} {th : Thread n} (hth : s.thread c = some th) (ha : th.pc.asked = true) :
    ∃ t th', Server.step signed s (.thread c) = some t ∧ t.thread c = some th' ∧
      th'.pc.writesTo = some (charFd signed (s.clientInfo th.slot).fd) := by
  match hpc : th.pc with
  | .received dest text =>
    rw [hpc] at ha
    have hans : dest = bytes "GETTIME" ∨ dest = bytes "IDLIST" := by simpa [ThreadPc.asked] using ha
    refine ⟨s.goto c th (.answering ⟨charFd signed (s.clientInfo th.slot).fd, (s.clientInfo th.slot).id, dest,
      tagged (s.clientInfo th.slot).id text⟩), _, ?_, by rw [Srv.goto_thread, if_pos rfl], rfl⟩
    simp only [Server.step, hth, threadStep, hpc, ThreadPc.next, if_pos hans, Option.map_some]
  | .start | .loop | .reading _ | .answering _ | .sending _ _ | .loading _ _ _ | .putting _ _ _ _ | .closing | .close _
  | .lock | .dec | .clear | .unlock | .done => rw [hpc] at ha; cases ha

theorem Narrow.addressed (h : Narrow signed s) : Addressed signed s := by
  intro c th hth ha hne
  obtain ⟨t, th', ht, hth', hw⟩ := asked_step signed hth ha
  rw [(h.slots th.slot).resolve_left hne] at hw
  exact ⟨t, th', ht, hth', hw⟩

/-! ## Runs -/

/-- **Every run that accepts only while there is room answers on its clients' own descriptors**, in every state it
reaches. -/
theorem answers_addressed {s : Srv maxClnt}
    (h : Reach (Server.step signed) (fun s a => LowestFree s a ∧ Room signed s a) srvStart s) : Addressed signed s := by
  have hstart : Narrow signed srvStart := by
    constructor <;> simp [srvStart, clientInfo₀, offline, MainPc.peer]
  exact (h.inv hstart fun _ _ _ hi hg hst => hi.step hg.1 hg.2 (effect_of_step hst)).addressed

/-- A login that asks for the list of ids. -/
theorem answers_addressed_idlist : ∃ s,
    exec (guarded (Server.step true) fun s a => LowestFree s a ∧ Room true s a) srvStart
      (loginActs 0 4 ++ [.thread 0, .thread 0, .read 0 (some (bytes "IDLIST", []))]) = some s ∧ Addressed true s := by
  apply exists_of_guarded
  · decide +kernel
  · exact fun s hs => answers_addressed hs

/-! ## Descriptors that are lost -/

/-- The server behind `k` connections that were closed before their login. -/
def leaked (k : Nat) : Srv maxClnt :=
  { srvStart with os := fun d => if 4 ≤ d ∧ d < 4 + k then some (d - 4).toNat else none, next := k }

/-- A connection that is closed before its login keeps its descriptor. -/
theorem leaked_step (signed : Bool) {k : Nat} (h : Reach (Server.step signed) LowestFree srvStart (leaked k)) :
    Reach (Server.step signed) LowestFree srvStart (leaked (k + 1)) := by
  have hos : Function.update (leaked k).os (4 + k) (some k) = (leaked (k + 1)).os := by
    funext d
    simp only [leaked, Function.update_apply]
    split
    · subst d
      rw [if_pos (by omega)]
      congr 1
      omega
    · exact if_congr (by omega) rfl rfl
  have hfree : (leaked k).os (4 + k) = none := if_neg (by omega)
  let s₁ : Srv maxClnt := { leaked (k + 1) with main := .accepted (some ⟨4 + k, k, []⟩) }
  let s₂ : Srv maxClnt := { leaked (k + 1) with main := .reading ⟨4 + k, k, []⟩ }
  have haccept : Server.step signed (leaked k) (.accept (some (4 + k, []))) = some s₁ := by
    show (if _ then _ else _) = _
    rw [if_pos ⟨by omega, hfree⟩]
    rw [show Function.update (leaked k).os (4 + k) (some (leaked k).next) = (leaked (k + 1)).os from hos]
    rfl
  have hlowest : LowestFree (leaked k) (.accept (some (4 + k, []))) := by
    refine ⟨by omega, fun j hj => ?_⟩
    show (if _ then _ else _) ≠ none
    rw [if_pos (by omega)]
    exact Option.some_ne_none _
  have hmain : Server.step signed s₁ .main = some s₂ := rfl
  have hlogin : Server.step signed s₂ (.login none) = some (leaked (k + 1)) := rfl
  exact .step (a := .login none) (.step (a := .main) (h.step hlowest haccept) trivial hmain) trivial hlogin

theorem reach_leaked (signed : Bool) : ∀ k, Reach (Server.step signed) LowestFree srvStart (leaked k)
  | 0 => by
    have h0 : leaked 0 = srvStart := by
      have hos : (leaked 0).os = srvStart.os := funext fun d => if_neg (by omega)
      show { srvStart with os := (leaked 0).os, next := 0 } = srvStart
      rw [hos]
      rfl
    rw [h0]
    exact .start
  | k + 1 => leaked_step signed (reach_leaked signed k)

/-- A client that logs in behind `k` lost descriptors and asks for the list of ids. -/
def askActs (k : Nat) : List Act :=
  loginActs 0 (4 + k) ++ [.thread k, .thread k, .read k (some (bytes "IDLIST", []))]

/-- When all descriptors that fit are lost, the client's answer goes to another one. -/
theorem astray_of_leaked {signed : Bool} (hrun : (exec (guarded (Server.step signed) LowestFree)
    (leaked (charFds signed))
      (askActs (charFds signed))).any (fun s => (s.thread (charFds signed)).any fun th => th.pc.asked = true ∧
        (s.clientInfo th.slot).fd ≠ -1 ∧ charFd signed (s.clientInfo th.slot).fd ≠ (s.clientInfo th.slot).fd) = true) :
    ¬ ∀ s, Reach (Server.step signed) LowestFree srvStart s → Addressed signed s := by
  intro h
  obtain ⟨s, hs, hth⟩ := (Option.any_eq_true ..).1 hrun
  obtain ⟨th, hth, hp⟩ := (Option.any_eq_true ..).1 hth
  obtain ⟨ha, hne, hfd⟩ := of_decide_eq_true hp
  obtain ⟨t, th', ht, hth', hw⟩ := h s ((reach_leaked signed _).trans (reach_of_guarded hs)) _ th hth ha hne
  obtain ⟨u, thu, hu, hthu, hwu⟩ := asked_step signed hth ha
  rw [ht] at hu
  cases hu
  rw [hth'] at hthu
  cases hthu
  rw [hw, Option.some.injEq] at hwu
  exact hfd hwu.symm

/-- After 124 lost connections the next client has descriptor 128 and the answer goes to -128; where `char` is unsigned
it is after 252 of them, and the answer goes to descriptor 0. -/
theorem answers_astray : (¬ ∀ s, Reach (Server.step true) LowestFree srvStart s → Addressed true s) ∧
    ¬ ∀ s, Reach (Server.step false) LowestFree srvStart s → Addressed false s :=
  ⟨astray_of_leaked (by decide +kernel), astray_of_leaked (by decide +kernel)⟩

end PetVending.Server
