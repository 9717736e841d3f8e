import PetVending.Server.Ownership
import PetVending.Server.Descriptors

/-!
# The server on the Jetson (`Client_in_Jetson/iot_server.c`)

Its `main` and the frame of `clnt_connection` are those of `iot_server.c`, for a table of 36 slots; `send_msg` is its
own: a message from `LSW_ARD` goes to everybody, a message to an id goes to the first slot that has it, and there is no
`GETTIME`. The initialiser of the table lists 32 clients, so C fills the other four slots with zeros: `fd` 0, not `-1`,
and no id.

- `relayNext`, `step`: the server as a transition system over the states of `Server.Session`;
- `Change`: a step does what a step of `iot_server.c` can do, or moves a thread in front of its exit section;
- `Filled`, `Spare`: what runs without evictions keep of a slot with an initialiser, and of one without;
- **`taken_iff`**: in these runs `fd ≠ -1` means "bound by a login that has not ended" exactly for the slots with an
  initialiser; a broadcast reaches each of these once, and descriptor 0 four times.
-/

namespace PetVending.Jetson

open CStr Transition Server

variable {n : Nat}

/-! ## The table and `send_msg` -/

/-- `MAX_CLNT` -/
def maxClnt : Nat := 36

instance : NeZero maxClnt := ⟨Nat.succ_ne_zero 35⟩

/-- The ids of the initialiser of `client_info`, in order. -/
def clientIds : List (List Byte) :=
  ["LSW_SQL", "LSW_UBT", "LSW_ARD", "LSW_AND", "LSW_LIN", "LSW_BT", "LSW_TEST", "LSW_JET", "9", "10", "11", "12", "13",
    "14", "15", "16", "17", "18", "19", "20", "21", "22", "23", "24", "25", "26", "27", "28", "29", "30", "31",
    "HM_CON"].map bytes

/-- The table `main` starts with: slots without an initialiser are zero. -/
def clientInfo₀ (i : Fin maxClnt) : ClientInfo :=
  match clientIds[i.val]? with
  | some id => offline id
  | none => ⟨0, 0, [], [], []⟩

/-- The message goes to everybody. -/
def ToAll (m : MsgInfo) : Prop := m.sender = bytes "LSW_ARD" ∨ m.dest = bytes "ALLMSG"

instance (m : MsgInfo) : Decidable (ToAll m) :=
  inferInstanceAs (Decidable (m.sender = bytes "LSW_ARD" ∨ m.dest = bytes "ALLMSG"))

/-- The writes of `send_msg`: descriptor and text. -/
def sendMsg (T : Fin n → ClientInfo) (m : MsgInfo) : List (Int × List Byte) :=
  if ToAll m then ((List.finRange n).filter fun i => (T i).fd ≠ -1).map fun i => ((T i).fd, m.msg)
  else if m.dest = bytes "IDLIST" then
    [(m.fd, m.msg.dropLast ++
      ((List.finRange n).filter fun i => (T i).fd ≠ -1).flatMap (fun i => (T i).id ++ bytes " ") ++ bytes "\n")]
  else ((List.finRange n).find? fun i => (T i).fd ≠ -1 ∧ m.dest = (T i).id).toList.map fun i => ((T i).fd, m.msg)

/-! ## Steps -/

/-- The server when `main` first reaches `accept`. -/
def srvStart : Srv maxClnt := ⟨clientInfo₀, 0, none, fun _ => none, 0, .accept, fun _ => none⟩

/-- The steps of the thread of slot `i` that change nothing but where the thread is. -/
def relayNext (signed : Bool) (T : Fin n → ClientInfo) (i : Fin n) : ThreadPc n → Option (ThreadPc n)
  | .start => if (T i).index = i then some .loop else none
  | .loop => some (.reading (T i).fd)
  | .received dest text =>
    let m : MsgInfo := ⟨charFd signed (T i).fd, (T i).id, dest, tagged (T i).id text⟩
    if ¬ ToAll m ∧ dest = bytes "IDLIST" then some (.answering m) else some (.sending m (List.finRange n))
  | .answering _ => some .loop
  | .sending _ [] => some .loop
  | .sending m (j :: js) =>
    if (T j).fd ≠ -1 ∧ (ToAll m ∨ m.dest = (T j).id) then some (.loading m j js) else some (.sending m js)
  | .loading m j js => some (.putting m (T j).fd j js)
  -- a message to an id leaves the loop at its first slot
  | .putting m _ _ js => if ToAll m then some (.sending m js) else some .loop
  | .closing => some (.close (T i).fd)
  | _ => none

/-- A step of thread `c` alone; the exit section is that of `iot_server.c`. -/
def threadStep (signed : Bool) (s : Srv n) (c : Nat) (th : Thread n) : Option (Srv n) :=
  match th.pc with
  | .close _ | .lock | .dec | .clear | .unlock => Server.threadStep signed s c th
  | pc => (relayNext signed s.clientInfo th.slot pc).map (s.goto c th)

/-- One step of the server. `main` and the reads are those of `iot_server.c`. -/
def step (signed : Bool) (s : Srv n) : Act → Option (Srv n)
  | .thread c =>
    match s.thread c with
    | none => none
    | some th => threadStep signed s c th
  | a => Server.step signed s a

variable {signed : Bool} {s t : Srv n} {a : Act}

/-! ## A relay alone -/

/-- Thread `c` of slot `i`, moving alone over the table `T` from `pc` to its next round, writes to the descriptors
`ds`. -/
inductive Writes (signed : Bool) (T : Fin n → ClientInfo) (i : Fin n) : ThreadPc n → List Int → Prop
  | loop : Writes signed T i .loop []
  | move {pc pc' : ThreadPc n} {ds : List Int} : relayNext signed T i pc = some pc' → pc.writesTo = none →
      Writes signed T i pc' ds → Writes signed T i pc ds
  | write {pc pc' : ThreadPc n} {d : Int} {ds : List Int} : relayNext signed T i pc = some pc' → pc.writesTo = some d →
      Writes signed T i pc' ds → Writes signed T i pc (d :: ds)

section Alone

variable (signed) (T : Fin n → ClientInfo) (i : Fin n)

/-- The loop over the slots, for a message to everybody. -/
theorem sending_all {m : MsgInfo} (hm : ToAll m) : ∀ js : List (Fin n), Writes signed T i (.sending m js)
    ((js.filter fun j => (T j).fd ≠ -1).map fun j => (T j).fd)
  | [] => .move rfl rfl .loop
  | j :: js => by
    have ih := sending_all hm js
    by_cases hj : (T j).fd ≠ -1
    · rw [List.filter_cons_of_pos (by simpa using hj), List.map_cons]
      exact .move (if_pos ⟨hj, .inl hm⟩) rfl (.move rfl rfl (.write (if_pos hm) rfl ih))
    · rw [List.filter_cons_of_neg (by simpa using hj)]
      exact .move (if_neg fun h => hj h.1) rfl ih

/-- The loop over the slots, for a message to an id: it ends with the first write. -/
theorem sending_one {m : MsgInfo} (hm : ¬ ToAll m) : ∀ js : List (Fin n), Writes signed T i (.sending m js)
    ((js.find? fun j => (T j).fd ≠ -1 ∧ m.dest = (T j).id).toList.map fun j => (T j).fd)
  | [] => .move rfl rfl .loop
  | j :: js => by
    have ih := sending_one hm js
    by_cases hj : (T j).fd ≠ -1 ∧ m.dest = (T j).id
    · rw [List.find?_cons_of_pos (by simpa using hj)]
      exact .move (if_pos ⟨hj.1, .inr hj.2⟩) rfl (.move rfl rfl (.write (if_neg hm) rfl .loop))
    · rw [List.find?_cons_of_neg (by simpa using hj)]
      exact .move (if_neg fun h => hj ⟨h.1, h.2.resolve_left hm⟩) rfl ih

/-- **A thread that nobody disturbs writes what `sendMsg` says.** -/
theorem received_writes (dest text : List Byte) : Writes signed T i (.received dest text)
    ((sendMsg T ⟨charFd signed (T i).fd, (T i).id, dest, tagged (T i).id text⟩).map Prod.fst) := by
  generalize hm : (⟨charFd signed (T i).fd, (T i).id, dest, tagged (T i).id text⟩ : MsgInfo) = m
  have hd : dest = m.dest := by rw [← hm]
  have hnext : relayNext signed T i (.received dest text) =
      if ¬ ToAll m ∧ m.dest = bytes "IDLIST" then some (.answering m) else some (.sending m (List.finRange n)) := by
    rw [← hm]
    rfl
  unfold sendMsg
  by_cases hall : ToAll m
  · rw [if_pos hall, List.map_map]
    exact .move (hnext.trans (if_neg fun h => h.1 hall)) rfl (sending_all signed T i hall _)
  · rw [if_neg hall]
    by_cases hid : m.dest = bytes "IDLIST"
    · rw [if_pos hid]
      exact .move (hnext.trans (if_pos ⟨hall, hid⟩)) rfl (.write rfl rfl .loop)
    · rw [if_neg hid, List.map_map]
      exact .move (hnext.trans (if_neg fun h => hid h.2)) rfl (sending_one signed T i hall _)

end Alone

/-! ## What a step can do -/

/-- The changes a step makes: those of `iot_server.c`, or a thread moves in front of its exit section. -/
inductive Change (signed : Bool) (s : Srv n) : Act → Srv n → Prop
  | shared {a : Act} {t : Srv n} : Effect signed s a t → Change signed s a t
  | relay (c : Nat) (th : Thread n) (pc : ThreadPc n) :
    s.thread c = some th → th.pc.closed = false → pc.closed = false →
      (∀ d, pc.closes = some d → d = (s.clientInfo th.slot).fd) → Change signed s (.thread c) (s.goto c th pc)

theorem relayNext_spec {T : Fin n → ClientInfo} {i : Fin n} {pc pc' : ThreadPc n}
    (h : relayNext signed T i pc = some pc') :
    pc.closed = false ∧ pc'.closed = false ∧ ∀ d, pc'.closes = some d → d = (T i).fd := by
  unfold relayNext at h
  split at h
  case h_3 =>
    dsimp only at h
    split at h <;> cases h <;> exact ⟨rfl, rfl, fun d hd => by cases hd⟩
  case h_9 =>
    cases h
    exact ⟨rfl, rfl, fun d hd => by cases hd; rfl⟩
  all_goals first | (cases h; exact ⟨rfl, rfl, fun d hd => by cases hd⟩) | cases h | (split at h <;> cases h)
  all_goals exact ⟨rfl, rfl, fun d hd => by cases hd⟩

/-- **Every step makes one of the changes.** -/
theorem change_of_step (h : step signed s a = some t) : Change signed s a t := by
  cases a with
  | thread c =>
    simp only [step] at h
    split at h
    · cases h
    · rename_i th hth
      unfold threadStep at h
      split at h
      case h_6 =>
        obtain ⟨pc, hn, rfl⟩ := Option.map_eq_some_iff.1 h
        obtain ⟨hc, hc', hcl⟩ := relayNext_spec hn
        exact .relay c th pc hth hc hc' hcl
      all_goals exact .shared (effect_of_threadStep hth h)
  | accept r => exact .shared (effect_of_step h)
  | login r => exact .shared (effect_of_step h)
  | main => exact .shared (effect_of_step h)
  | read c r => exact .shared (effect_of_step h)

/-- What runs without evictions keep of the sessions. -/
structure Kept (s : Srv n) : Prop extends WF s, Seated s, Carried s

theorem Kept.step (h : Kept s) (hg : OccGuard s a) (hc : Change signed s a t) : Kept t := by
  cases hc with
  | shared he =>
    exact ⟨h.toWF.step he, h.toSeated.step h.toWF hg he, h.toCarried.step h.toWF h.toSeated hg he⟩
  | relay c th pc hth hc hc' hcl =>
    have hx := ThreadPc.cleared_of_closed hc
    refine ⟨h.toWF.goto hth hc hc', h.toSeated.goto hth pc (by simp [hx]), ?_⟩
    exact h.toCarried.goto hth pc (by simp [hx]) (by simp [hc]) fun d hd => (hcl d hd).trans (h.fd c th hth hx)

/-! ## Slots with an initialiser -/

/-- If the slot is not free, some login that has not ended has bound it. -/
def Filled (s : Srv n) (i : Fin n) : Prop := (s.clientInfo i).fd ≠ -1 → ∃ c d, LoggedIn s c i d

theorem Filled.step {i : Fin n} (h : Filled s i) (hk : Kept s) (hc : Change signed s a t) : Filled t i := by
  intro hne
  cases hc with
  | shared he =>
    rcases fd_step he i with hi | hi | ⟨p, rfl, hm, rfl⟩
    · rw [hi] at hne
      obtain ⟨c, d, hl⟩ := h hne
      rcases hl.step hk.toWF he with hl | h1
      · exact ⟨c, d, hl⟩
      · exact absurd (hi.symm.trans h1) hne
    · exact absurd hi hne
    · exact ⟨p.conn, p.sock, .inr ⟨.count, p, rfl, rfl, rfl, rfl⟩⟩
  | relay c th pc hth hc hc' hcl =>
    obtain ⟨c', d, hl⟩ := h hne
    exact ⟨c', d, hl.goto hth hc'⟩

/-! ## Slots without one -/

/-- The slot is as C left it, and nobody has bound it. -/
structure Spare (s : Srv n) (i : Fin n) : Prop where
  fd : (s.clientInfo i).fd = 0
  id : (s.clientInfo i).id = []
  unbound : ∀ k p, s.main ≠ .bind k p i
  unused : ∀ c th, s.thread c = some th → th.slot ≠ i

theorem Spare.step {i : Fin n} (h : Spare s i) (hg : OccGuard s a) (hc : Change signed s a t) : Spare t i := by
  obtain ⟨h1, h2, h3, h4⟩ := h
  cases hc with
  | shared he =>
    have hid := (he.id i).trans h2
    cases he with
    | evict j hm =>
      have hfd := hg j (by rw [hm]; rfl)
      constructor <;> grind -ring -linarith
    | quiet pc hb hb' hp => constructor <;> grind -ring -linarith
    | _ => constructor <;> grind -ring -linarith
  | relay c th pc hth hc hc' hcl => constructor <;> grind -ring -linarith

/-! ## Runs -/

/-- What runs without evictions keep of the table. -/
structure Table (s : Srv maxClnt) : Prop extends Kept s where
  filled : ∀ i, i.val < 32 → Filled s i
  spare : ∀ i, 32 ≤ i.val → Spare s i

theorem Table.step {s t : Srv maxClnt} (h : Table s) (hg : OccGuard s a) (hst : Jetson.step signed s a = some t) :
    Table t := by
  have hc := change_of_step hst
  exact ⟨h.toKept.step hg hc, fun i hi => (h.filled i hi).step h.toKept hc, fun i hi => (h.spare i hi).step hg hc⟩

theorem clientInfo₀_lt {i : Fin maxClnt} (h : i.val < 32) : (clientInfo₀ i).fd = -1 := by
  have hlen : i.val < clientIds.length := h
  rw [clientInfo₀, List.getElem?_eq_getElem hlen]
  rfl

theorem clientInfo₀_ge {i : Fin maxClnt} (h : 32 ≤ i.val) : clientInfo₀ i = ⟨0, 0, [], [], []⟩ := by
  have hlen : clientIds.length ≤ i.val := h
  rw [clientInfo₀, List.getElem?_eq_none hlen]

theorem table_start : Table srvStart := by
  refine ⟨⟨?_, ?_, ?_⟩, fun i hi hne => absurd (clientInfo₀_lt hi) hne, fun i hi => ?_⟩
  · refine ⟨?_, ?_, ?_⟩ <;> constructor <;> simp [srvStart, MainPc.peer, MainPc.holds]
  · constructor <;> simp [srvStart]
  · constructor <;> simp [srvStart, MainPc.peer]
  · have h0 : srvStart.clientInfo i = ⟨0, 0, [], [], []⟩ := clientInfo₀_ge hi
    exact ⟨by rw [h0], by rw [h0], by simp [srvStart], by simp [srvStart]⟩

theorem table_of_reach {s : Srv maxClnt} (h : Reach (step signed) OccGuard srvStart s) : Table s :=
  h.inv table_start fun _ _ _ hi hg hst => hi.step hg hst

/-- A slot of a session that has not ended holds its socket. -/
theorem Kept.fd_loggedIn (h : Kept s) {c : Nat} {i : Fin n} {d : Int} (hl : LoggedIn s c i d) :
    (s.clientInfo i).fd = d ∧ (s.clientInfo i).fd ≠ -1 := by
  rcases hl with ⟨th, hth, rfl, rfl, hc⟩ | ⟨k, p, hm, hk, -, rfl⟩
  · exact ⟨h.fd c th hth hc, h.slot c th hth hc⟩
  · exact ⟨h.fd_bound k p i hm hk, h.bound k p i hm hk⟩

theorem Spare.not_loggedIn {i : Fin n} (h : Spare s i) {c : Nat} {d : Int} : ¬ LoggedIn s c i d := by
  rintro (⟨th, hth, hslot, -⟩ | ⟨k, p, hm, -⟩)
  · exact h.unused c th hth hslot
  · exact h.unbound k p hm

/-- The slots with an initialiser that are not free. -/
def taken (T : Fin maxClnt → ClientInfo) : List (Fin maxClnt) :=
  ((List.finRange maxClnt).filter fun i => i.val < 32).filter fun i => (T i).fd ≠ -1

theorem nodup_taken (T : Fin maxClnt → ClientInfo) : (taken T).Nodup :=
  ((List.nodup_finRange _).filter _).filter _

theorem Table.mem_taken {s : Srv maxClnt} (h : Table s) (i : Fin maxClnt) :
    i ∈ taken s.clientInfo ↔ ∃ c d, LoggedIn s c i d := by
  simp only [taken, List.mem_filter, List.mem_finRange, true_and, decide_eq_true_eq]
  constructor
  · rintro ⟨hi, hne⟩
    exact h.filled i hi hne
  · rintro ⟨c, d, hl⟩
    refine ⟨?_, (h.fd_loggedIn hl).2⟩
    by_contra hi
    exact (h.spare i (not_lt.1 hi)).not_loggedIn hl

/-- The slots without an initialiser. -/
def unlisted : List (Fin maxClnt) := [32, 33, 34, 35]

theorem Table.spare_unlisted {s : Srv maxClnt} (h : Table s) {i : Fin maxClnt} (hi : i ∈ unlisted) : Spare s i := by
  apply h.spare i
  revert i
  decide

/-- The slots that `send_msg` takes for logged in: those taken, and those without an initialiser. -/
theorem Table.filter_online {s : Srv maxClnt} (h : Table s) :
    (List.finRange maxClnt).filter (fun i => (s.clientInfo i).fd ≠ -1) = taken s.clientInfo ++ unlisted := by
  have hsplit : List.finRange maxClnt = ((List.finRange maxClnt).filter fun i => i.val < 32) ++ unlisted := by decide
  have hspare : ∀ i ∈ unlisted, decide ((s.clientInfo i).fd ≠ -1) = true := by
    intro i hi
    rw [(h.spare_unlisted hi).fd]
    decide
  conv_lhs => rw [hsplit]
  rw [List.filter_append, List.filter_eq_self.2 hspare, taken]

/-- A slot counts as logged in exactly while a login has bound it and has not ended. -/
def Exact (s : Srv maxClnt) (i : Fin maxClnt) : Prop := (s.clientInfo i).fd ≠ -1 ↔ ∃ c d, LoggedIn s c i d

theorem Table.exact_iff {s : Srv maxClnt} (h : Table s) (i : Fin maxClnt) : Exact s i ↔ i.val < 32 := by
  constructor
  · intro he
    by_contra hi
    have hs := h.spare i (not_lt.1 hi)
    obtain ⟨c, d, hl⟩ := he.1 (by rw [hs.fd]; decide)
    exact hs.not_loggedIn hl
  · intro hi
    exact ⟨h.filled i hi, fun ⟨_, _, hl⟩ => (h.fd_loggedIn hl).2⟩

theorem Table.sendMsg_all {s : Srv maxClnt} (h : Table s) {m : MsgInfo} (hm : ToAll m) : sendMsg s.clientInfo m =
    (taken s.clientInfo).map (fun i => ((s.clientInfo i).fd, m.msg)) ++ List.replicate 4 (0, m.msg) := by
  have hspare : unlisted.map (fun i => ((s.clientInfo i).fd, m.msg)) = unlisted.map fun _ => (0, m.msg) :=
    List.map_congr_left fun i hi => by rw [(h.spare_unlisted hi).fd]
  rw [sendMsg, if_pos hm, h.filter_online, List.map_append, hspare]
  rfl

theorem Table.sendMsg_idlist {s : Srv maxClnt} (h : Table s) {m : MsgInfo} (hm : ¬ ToAll m)
    (hd : m.dest = bytes "IDLIST") : sendMsg s.clientInfo m = [(m.fd, m.msg.dropLast ++
      ((taken s.clientInfo).flatMap (fun i => (s.clientInfo i).id ++ bytes " ") ++ bytes "    ") ++ bytes "\n")] := by
  have hspare : unlisted.flatMap (fun i => (s.clientInfo i).id ++ bytes " ") = unlisted.flatMap fun _ => bytes " " :=
    List.flatMap_congr fun i hi => by rw [(h.spare_unlisted hi).id, List.nil_append]
  rw [sendMsg, if_neg hm, if_pos hd, h.filter_online, List.flatMap_append, hspare]
  rfl

/-- `send_msg` over the table of `s`, where `is` are the slots of the sessions: a message to everybody is written once
to the socket of each and four times to descriptor 0, and `IDLIST` lists their ids and four empty ones. -/
structure Routed (s : Srv maxClnt) (is : List (Fin maxClnt)) : Prop where
  nodup : is.Nodup
  sessions : ∀ i, i ∈ is ↔ ∃ c d, LoggedIn s c i d
  socket : ∀ c i d, LoggedIn s c i d → (s.clientInfo i).fd = d
  all : ∀ m, ToAll m → sendMsg s.clientInfo m =
    is.map (fun i => ((s.clientInfo i).fd, m.msg)) ++ List.replicate 4 (0, m.msg)
  idlist : ∀ m, ¬ ToAll m → m.dest = bytes "IDLIST" → sendMsg s.clientInfo m = [(m.fd, m.msg.dropLast ++
    (is.flatMap (fun i => (s.clientInfo i).id ++ bytes " ") ++ bytes "    ") ++ bytes "\n")]

/-- **Runs without evictions, slot by slot.** `fd ≠ -1` means that a login has bound the slot and has not ended exactly
for the slots below 32, and `send_msg` takes the other four for sessions on descriptor 0. -/
theorem taken_iff {s : Srv maxClnt} (h : Reach (step signed) OccGuard srvStart s) :
    (∀ i, Exact s i ↔ i.val < 32) ∧ ∃ is, Routed s is := by
  have ht := table_of_reach h
  exact ⟨ht.exact_iff, taken s.clientInfo, nodup_taken _, ht.mem_taken, fun _ _ _ hl => (ht.fd_loggedIn hl).1,
    fun _ => ht.sendMsg_all, fun _ => ht.sendMsg_idlist⟩

/-- Two logins, and a relay to everybody. -/
theorem taken_iff_relay : ∃ s, exec (guarded (step false) OccGuard) srvStart
      ([.accept (some (4, [])), .main, .login (some (bytes "LSW_ARD", bytes "PASSWD"))] ++ List.replicate 10 .main ++
        [.accept (some (5, [])), .main, .login (some (bytes "LSW_SQL", bytes "PASSWD"))] ++ List.replicate 8 .main ++
        [.thread 0, .thread 0, .read 0 (some (bytes "x", bytes "y")), .thread 0, .thread 0]) = some s ∧
    (∀ i, Exact s i ↔ i.val < 32) ∧ ∃ is, Routed s is := by
  apply exists_of_guarded
  · decide
  · exact fun s hs => taken_iff hs

/-- When the server starts, slot 32 counts as logged in. -/
theorem zero_slots : ¬ ∀ (signed : Bool) (s : Srv maxClnt), Reach (step signed) OccGuard srvStart s →
    ∀ i, Exact s i := by
  intro h
  obtain ⟨c, d, ⟨th, hth, -⟩ | ⟨k, p, hm, -⟩⟩ := (h false srvStart .start 32).1 (by decide)
  · cases hth
  · cases hm

end PetVending.Jetson
