import PetVending.Server.Session

/-!
# The slot table and the descriptors

- `Sound`: two slots never hold one descriptor, the descriptor in a slot is an open socket whose connection
  authenticated as the slot, and so is every descriptor a relay is about to write to;
- `SlotGuard`: a descriptor is closed only when no slot holds it and no relay has loaded it, and a slot is bound to a
  socket that is still open;
- `sound_iff`: the states of a run are all sound iff its steps all meet `SlotGuard`. The ordinary exit of a thread does
  not meet it: `close` comes before the slot is cleared (`reused_descriptor`).
-/

namespace PetVending.Server

open CStr Transition

variable {n : Nat} {signed : Bool} {s t : Srv n} {a : Act}

/-! ## The property and the guard -/

/-- Connection `c` has authenticated as slot `i`. -/
def Authed (s : Srv n) (c : Nat) (i : Fin n) : Prop :=
  (∃ th, s.thread c = some th ∧ th.slot = i) ∨ ∃ k p, s.main = .bind k p i ∧ k.written = true ∧ p.conn = c

/-- The descriptor is `-1` or open for a connection that has authenticated as slot `i`. -/
def OpenFor (s : Srv n) (d : Int) (i : Fin n) : Prop := d = -1 ∨ ∃ c, s.os d = some c ∧ Authed s c i

/-- The slots hold open sockets of their own clients, and relays are about to write to such sockets. -/
structure Sound (s : Srv n) : Prop where
  distinct : ∀ i j, (s.clientInfo i).fd ≠ -1 → (s.clientInfo i).fd = (s.clientInfo j).fd → i = j
  slots : ∀ i, OpenFor s (s.clientInfo i).fd i
  puts : ∀ c th m d j js, s.thread c = some th → th.pc = .putting m d j js →
    OpenFor s d j ∧ (m.dest = bytes "ALLMSG" ∨ m.dest = (s.clientInfo j).id)

/-- The descriptor a thread is about to close. -/
@[grind =] def ThreadPc.closes : ThreadPc n → Option Int
  | .close d => some d
  | _ => none

/-- The descriptor a relay is about to write to. -/
@[grind =] def ThreadPc.putsTo : ThreadPc n → Option Int
  | .putting _ d _ _ => some d
  | _ => none

/-- `main` binds a slot to a socket that is open; a thread closes a descriptor that no slot holds and no relay has
loaded. -/
def SlotGuard (s : Srv n) : Act → Prop
  | .main => ∀ _i ∈ s.main.writes, ∀ p ∈ s.main.peer, s.os p.sock ≠ none
  | .thread c => ∀ th ∈ s.thread c, ∀ d ∈ th.pc.closes, d = -1 ∨
      (∀ i, (s.clientInfo i).fd ≠ d) ∧ ∀ c' < s.next, ∀ th' ∈ s.thread c', th'.pc.putsTo ≠ some d
  | _ => True

/-! ## Authentication -/

/-- An authentication stays. -/
theorem Authed.step (hw : WF s) (he : Effect signed s a t) {c : Nat} {i : Fin n} (h : Authed s c i) :
    Authed t c i := by
  rcases h with ⟨th, hth, rfl⟩ | ⟨k, p, hm, hk, rfl⟩
  · -- a thread keeps its slot
    refine .inl ?_
    cases he with
    | create p i hpc =>
      have hp := hw.peer_fresh p (by rw [hpc]; rfl)
      grind -ring -linarith
    | _ => grind -ring -linarith
  · -- `main` keeps the slot it has written, until the thread has it
    cases he with
    | create p i hpc =>
      rw [hm] at hpc
      cases hpc
      exact .inl ⟨⟨i, p.sock, .start⟩, by simp, rfl⟩
    | _ => refine .inr ?_; grind -ring -linarith

/-- A connection authenticates as one slot. -/
theorem Authed.unique (hw : WF s) {c : Nat} {i j : Fin n} (hi : Authed s c i) (hj : Authed s c j) : i = j := by
  rcases hi with ⟨th, hth, rfl⟩ | ⟨k, p, hm, hk, rfl⟩
  · rcases hj with ⟨th', hth', rfl⟩ | ⟨k, p, hm, hk, rfl⟩
    · rw [hth] at hth'; cases hth'; rfl
    · rw [hw.peer_fresh p (by rw [hm]; rfl)] at hth
      cases hth
  · rcases hj with ⟨th', hth', rfl⟩ | ⟨k', p', hm', hk', -⟩
    · rw [hw.peer_fresh p (by rw [hm]; rfl)] at hth'
      cases hth'
    · rw [hm] at hm'; cases hm'; rfl

/-- An open descriptor stays open for its slot unless it is closed. -/
theorem OpenFor.step (hw : WF s) (he : Effect signed s a t) {d : Int} {i : Fin n} (h : OpenFor s d i)
    (hc : d ≠ -1 → ∀ c th, a = .thread c → s.thread c = some th → th.pc ≠ .close d) : OpenFor t d i := by
  rcases h with rfl | ⟨c, hos, ha⟩
  · exact .inl rfl
  by_cases hd : d = -1
  · exact .inl hd
  refine .inr ⟨c, ?_, ha.step hw he⟩
  have hcl := hc hd
  cases he <;> grind -ring -linarith

/-! ## The invariant -/

/-- The message and the slot of a relay that has found its destination. -/
@[grind =] def ThreadPc.target : ThreadPc n → Option (MsgInfo × Fin n)
  | .loading m j _ => some (m, j)
  | .putting m _ j _ => some (m, j)
  | _ => none

/-- Relays go to the slots they are addressed to. -/
def Aimed (s : Srv n) : Prop :=
  ∀ c th m j, s.thread c = some th → th.pc.target = some (m, j) →
    m.dest = bytes "ALLMSG" ∨ m.dest = (s.clientInfo j).id

theorem ThreadPc.next_target {T : Fin n → ClientInfo} {i j : Fin n} {pc pc' : ThreadPc n} {m : MsgInfo}
    (h : pc.next signed T i = some pc') (ht : pc'.target = some (m, j)) :
    pc.target = some (m, j) ∨ m.dest = bytes "ALLMSG" ∨ m.dest = (T j).id := by
  unfold ThreadPc.next at h
  split at h
  case h_6 =>
    split at h <;> cases h
    · rename_i hdest
      cases ht
      exact .inr hdest.2
    · cases ht
  case h_7 => cases h; exact .inl ht
  all_goals first | cases h | (split at h <;> cases h)
  all_goals cases ht

/-- No step changes an id. -/
theorem Effect.id (he : Effect signed s a t) (i : Fin n) : (t.clientInfo i).id = (s.clientInfo i).id := by
  cases he <;> grind -ring -linarith

theorem Aimed.step (h : Aimed s) (he : Effect signed s a t) : Aimed t := by
  intro c th m j hth ht
  rw [he.id j]
  cases he with
  | move c' th' pc hth' hmv =>
    by_cases hc : c = c'
    · subst hc
      rw [Srv.goto_thread, if_pos rfl] at hth
      cases hth
      generalize hpc : th'.pc = pc₀ at hmv
      cases hmv with
      | next hn =>
        rcases ThreadPc.next_target hn ht with h' | h'
        · exact h c th' m j hth' (hpc ▸ h')
        · exact h'
      | eof => cases ht
      | data => cases ht
    · rw [Srv.goto_thread, if_neg hc] at hth
      exact h c th m j hth ht
  | _ => grind [Aimed]

/-- A relay loads its descriptor from the slot it is addressed to. -/
theorem Moves.puts {c : Nat} {i j : Fin n} {pc pc' : ThreadPc n} {m : MsgInfo} {d : Int} {js : List (Fin n)}
    (h : Moves signed s c i a pc pc') (hp : pc' = .putting m d j js) : d = (s.clientInfo j).fd := by
  subst hp
  cases h with
  | next h =>
    unfold ThreadPc.next at h
    split at h
    case h_7 => cases h; rfl
    all_goals first | cases h | (split at h <;> cases h)

/-- What a step does to the `fd` of a slot. -/
theorem fd_step (he : Effect signed s a t) (i : Fin n) :
    (t.clientInfo i).fd = (s.clientInfo i).fd ∨ (t.clientInfo i).fd = -1 ∨
      ∃ p, a = .main ∧ s.main = .bind .fd p i ∧ t = { s.setFd i p.sock with main := .bind .count p i } := by
  cases he with
  | fd p j hpc =>
    by_cases hij : i = j
    · subst hij; exact .inr (.inr ⟨p, rfl, hpc, rfl⟩)
    · left; simp [hij]
  | _ => grind -ring -linarith

/-- A relay about to write to `d` was so before, or has just loaded `d` from its slot. -/
theorem puts_step (he : Effect signed s a t) {c : Nat} {th : Thread n} {m : MsgInfo} {d : Int} {j : Fin n}
    {js : List (Fin n)} (hth : t.thread c = some th) (hpc : th.pc = .putting m d j js) :
    (∃ th', s.thread c = some th' ∧ th'.pc = .putting m d j js) ∨ d = (s.clientInfo j).fd := by
  cases he with
  | move c' th' pc hth' hmv =>
    by_cases hc : c = c'
    · subst hc
      simp only [Srv.goto_thread, if_pos] at hth
      cases hth
      exact .inr (hmv.puts hpc)
    · rw [Srv.goto_thread, if_neg hc] at hth
      exact .inl ⟨th, hth, hpc⟩
  | _ => refine .inl ?_; grind -ring -linarith

/-- **Guarded steps keep the table sound.** -/
theorem Sound.step (hw : WF s) (ha : Aimed s) (h : Sound s) (hg : SlotGuard s a) (he : Effect signed s a t) :
    Sound t := by
  have hwt := hw.step he
  -- what a slot holds or a relay has loaded is not closed by this step
  have hslot (i : Fin n) (hd : (s.clientInfo i).fd ≠ -1) (c : Nat) (th : Thread n) (hact : a = .thread c)
      (hth : s.thread c = some th) : th.pc ≠ .close (s.clientInfo i).fd := by
    intro hpc
    subst hact
    rcases hg th hth _ (by rw [hpc]; rfl) with h1 | ⟨h1, -⟩
    · exact hd h1
    · exact h1 i rfl
  have hput (c' : Nat) (th' : Thread n) (d : Int) (hth' : s.thread c' = some th') (hp : th'.pc.putsTo = some d)
      (hd : d ≠ -1) (c : Nat) (th : Thread n) (hact : a = .thread c) (hth : s.thread c = some th) :
      th.pc ≠ .close d := by
    intro hpc
    subst hact
    rcases hg th hth _ (by rw [hpc]; rfl) with h1 | ⟨-, h1⟩
    · exact hd h1
    · refine h1 c' ?_ th' hth' hp
      by_contra hlt
      rw [hw.thread_fresh c' (not_lt.1 hlt)] at hth'
      cases hth'
  have hslots : ∀ i, OpenFor t (t.clientInfo i).fd i := by
    intro i
    have hkeep := (h.slots i).step hw he (hslot i)
    rcases fd_step he i with hi | hi | ⟨p, rfl, hpc, rfl⟩
    · rwa [hi]
    · exact .inl hi
    · -- the slot is bound, to a socket that is still open
      have hopen := hg i (by rw [hpc]; rfl) p (by rw [hpc]; rfl)
      have hos := (hw.peer_os p (by rw [hpc]; rfl)).resolve_left hopen
      exact .inr ⟨p.conn, by simpa using hos, .inr ⟨.count, p, rfl, rfl, rfl⟩⟩
  refine ⟨?_, hslots, ?_⟩
  · intro i j hne heq
    rcases hslots i with h1 | ⟨c, hos, hc⟩
    · exact absurd h1 hne
    · rcases hslots j with h2 | ⟨c', hos', hc'⟩
      · exact absurd (heq.trans h2) hne
      · rw [heq, hos'] at hos
        cases hos
        exact hc.unique hwt hc'
  · intro c th m d j js hth hpc
    refine ⟨?_, ha.step he c th m j hth (by rw [hpc]; rfl)⟩
    rcases puts_step he hth hpc with ⟨th', hth', hpc'⟩ | rfl
    · exact (h.puts c th' m d j js hth' hpc').1.step hw he (hput c th' d hth' (by rw [hpc']; rfl))
    · exact (h.slots j).step hw he (hslot j)

/-- **Only guarded steps keep the table sound.** -/
theorem slotGuard_of_sound (hw : WF s) (hs : step signed s a = some t) (h : Sound t) : SlotGuard s a := by
  cases a with
  | main =>
    intro i hi p hp
    obtain ⟨p', hm⟩ : ∃ p', s.main = .bind .fd p' i := by
      revert hi
      cases s.main <;> simp [MainPc.writes]
    obtain rfl : p' = p := by simpa [hm, MainPc.peer] using hp
    simp only [step, mainStep, hm] at hs
    cases hs
    rcases h.slots i with h1 | ⟨c, hos, -⟩
    · have := hw.peer_sock p' (by rw [hm]; rfl)
      simp at h1
      omega
    · simp at hos
      rw [hos]
      simp
  | thread c =>
    intro th hth d hd
    obtain hpc : th.pc = .close d := by
      revert hd
      cases th.pc <;> simp [ThreadPc.closes]
    simp only [Option.mem_def] at hth
    by_cases hneg : d = -1
    · exact .inl hneg
    simp only [step, hth, threadStep, hpc, Option.some.injEq] at hs
    -- the descriptor is closed now
    have hos (i : Fin n) (ho : OpenFor t d i) : False := by
      rcases ho with h1 | ⟨c', hos, -⟩
      · exact hneg h1
      · simp [← hs] at hos
    refine .inr ⟨fun i hi => hos i ?_, fun c' _ th' hth' hp => ?_⟩
    · have hfd : (t.clientInfo i).fd = d := by simpa [← hs] using hi
      exact hfd ▸ h.slots i
    · obtain ⟨m, j, js, hp⟩ : ∃ m j js, th'.pc = .putting m d j js := by
        revert hp
        cases th'.pc <;> simp [ThreadPc.putsTo]
      have hne : c' ≠ c := by
        rintro rfl
        rw [Option.mem_def, hth] at hth'
        cases hth'
        rw [hpc] at hp
        cases hp
      have hth'' : t.thread c' = some th' := by
        rw [← hs]
        simpa [hne] using hth'
      exact hos j (h.puts c' th' m d j js hth'' hp).1
  | _ => trivial

theorem sound_start : Sound srvStart := by
  constructor <;> simp [srvStart, OpenFor, clientInfo₀, offline]

/-- **A run keeps the table sound iff all its steps meet the guard.** -/
theorem sound_iff {tr : List (Srv maxClnt × Act × Srv maxClnt)} {s : Srv maxClnt}
    (h : Run (step signed) srvStart tr s) : (∀ e ∈ tr, Sound e.2.2) ↔ ∀ e ∈ tr, SlotGuard e.1 e.2.1 := by
  refine run_iff (I := fun s => WF s ∧ Aimed s ∧ Sound s) ⟨wf_start, ?_, sound_start⟩ (fun s hs => hs.2.2) ?_ ?_ h
  · simp [Aimed, srvStart]
  · rintro s a t ⟨hw, ha, hs⟩ hg hst
    have he := effect_of_step hst
    exact ⟨hw.step he, ha.step he, hs.step hw ha hg he⟩
  · rintro s a t ⟨hw, -, -⟩ hst ht
    exact slotGuard_of_sound hw hst ht

/-- A login, and a message to the client itself that is relayed. -/
theorem sound_iff_relay : ∃ tr s, trace (step false) srvStart (loginActs 0 4 ++
      [.thread 0, .thread 0, .read 0 (some (bytes "KJD_SQL", [])), .thread 0, .thread 0, .thread 0, .thread 0]) =
        some (tr, s) ∧
    ((∀ e ∈ tr, Sound e.2.2) ↔ ∀ e ∈ tr, SlotGuard e.1 e.2.1) := by
  apply exists_of_trace
  · decide
  · exact fun tr s hs => sound_iff hs

/-- The first client disconnects; before its slot is cleared, its descriptor goes to the second client's login. -/
theorem reused_descriptor : ¬ ∀ (signed : Bool) (s : Srv maxClnt), Reach (step signed) free srvStart s → Sound s := by
  intro h
  have hrun : (exec (step false) srvStart (loginActs 0 4 ++
      [.thread 0, .thread 0, .read 0 none, .thread 0, .thread 0] ++ loginActs 1 4)).any (fun s =>
        (s.clientInfo 0).fd = 4 ∧ (s.clientInfo 1).fd = 4) = true := by decide
  obtain ⟨s, hs, hfd⟩ := (Option.any_eq_true ..).1 hrun
  simp only [decide_eq_true_eq] at hfd
  have := (h false s (reach_of_exec hs)).distinct 0 1 (by rw [hfd.1]; decide) (by rw [hfd.1, hfd.2])
  cases this

end PetVending.Server
