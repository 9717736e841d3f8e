import PetVending.Server.Login
import PetVending.Server.Relay
import Mathlib.Logic.Relation

/-!
# Sessions: `main`, the connection threads and the descriptors, interleaved

The whole server as one transition system. A step is one access to what the threads share: the table, `clnt_cnt`, the
mutex, the descriptors. Between its steps a thread is at a program counter that holds the values it has loaded
(`MainPc`, `ThreadPc`).

- `step`: one step of `main` or of a connection thread. An action names who moves and what the environment answers:
  the descriptor `accept` gives (any number that is not open), what a read delivers, the strings behind `pArray[0]`
  and `pArray[1]`;
- `scanning_leads`, `received_writes`: alone, `main` decides a login as `scan` does, and a thread writes what `sendMsg`
  says;
- `effect_of_step`, `leads_of_step`: what a step can do, and where it takes `main`, for the proofs of invariants;
- `WF`: what holds in every reachable state (`wf_of_reach`).

Descriptors are numbers that `os` maps to the connection they are open for. A connection is known by a serial number,
which the program does not see; it is also the name of its thread. Creating a thread succeeds.
-/

namespace PetVending.Server

open CStr Transition

variable {n : Nat}

/-! ## States -/

/-- An accepted connection: `clnt_sock`, its serial number, and `clnt_adr`. -/
structure Peer where
  sock : Int
  conn : Nat
  ip : List Byte

/-- Who holds the mutex. -/
inductive Owner
  | main
  | conn (c : Nat)
  deriving DecidableEq

/-- The statements of `main` that bind a slot, in their order. -/
inductive BindPc
  | ip
  | lock
  | index
  | fd
  | count
  | unlock
  | create
  deriving DecidableEq

/-- Where `main` is: about to do what the constructor says, with the values it has. `accepted` is the capacity check,
`none` a failed `accept`; `scanning` has the slots still to be looked at. -/
inductive MainPc (n : Nat)
  | accept
  | accepted (p : Option Peer)
  | reading (p : Peer)
  | scanning (p : Peer) (id pw : List Byte) (is : List (Fin n))
  | evicting (i : Fin n)
  | bind (k : BindPc) (p : Peer) (i : Fin n)

/-- Where a connection thread is. `reading`, `answering`, `putting` and `close` hold a descriptor loaded from the table,
and are about to use it; `sending` has the slots that the loop of `send_msg` has still to look at. -/
inductive ThreadPc (n : Nat)
  | start
  | loop
  | reading (d : Int)
  | received (dest text : List Byte)
  | answering (m : MsgInfo)
  | sending (m : MsgInfo) (js : List (Fin n))
  | loading (m : MsgInfo) (j : Fin n) (js : List (Fin n))
  | putting (m : MsgInfo) (d : Int) (j : Fin n) (js : List (Fin n))
  | closing
  | close (d : Int)
  | lock
  | dec
  | clear
  | unlock
  | done

/-- A connection thread: the slot it is started with, and the socket it is started for, which it does not keep. -/
structure Thread (n : Nat) where
  slot : Fin n
  sock : Int
  pc : ThreadPc n

/-- The server. `next` is the serial number of the next connection. -/
structure Srv (n : Nat) where
  clientInfo : Fin n → ClientInfo
  clntCnt : Int
  mutx : Option Owner
  os : Int → Option Nat
  next : Nat
  main : MainPc n
  thread : Nat → Option (Thread n)

/-- The server when `main` first reaches `accept`. -/
def srvStart : Srv maxClnt := ⟨clientInfo₀, 0, none, fun _ => none, 0, .accept, fun _ => none⟩

/-! ## Steps -/

/-- What a step is about: `accept` returns a descriptor and an address or fails, the login read returns the strings
behind `pArray[0]` and `pArray[1]` or nothing, a connection's read returns its destination and text or nothing; `main`
and `thread` are the steps that ask the environment for nothing. -/
inductive Act
  | accept (r : Option (Int × List Byte))
  | login (r : Option (List Byte × List Byte))
  | main
  | read (c : Nat) (r : Option (List Byte × List Byte))
  | thread (c : Nat)

namespace Srv

/-- `client_info[i].fd = d` -/
def setFd (s : Srv n) (i : Fin n) (d : Int) : Srv n :=
  { s with clientInfo := Function.update s.clientInfo i { s.clientInfo i with fd := d } }

/-- Thread `c` moves on. -/
def goto (s : Srv n) (c : Nat) (th : Thread n) (pc : ThreadPc n) : Srv n :=
  { s with thread := Function.update s.thread c (some { th with pc := pc }) }

section Fields

variable (s : Srv n) (i j : Fin n) (d e : Int) (c c' : Nat) (th : Thread n) (pc : ThreadPc n)

@[simp, grind =] theorem setFd_clientInfo : (s.setFd i d).clientInfo j =
    if j = i then { s.clientInfo i with fd := d } else s.clientInfo j := by
  simp [setFd, Function.update_apply]
@[simp, grind =] theorem setFd_clntCnt : (s.setFd i d).clntCnt = s.clntCnt := rfl
@[simp, grind =] theorem setFd_mutx : (s.setFd i d).mutx = s.mutx := rfl
@[simp, grind =] theorem setFd_os : (s.setFd i d).os e = s.os e := rfl
@[simp, grind =] theorem setFd_next : (s.setFd i d).next = s.next := rfl
@[simp, grind =] theorem setFd_main : (s.setFd i d).main = s.main := rfl
@[simp, grind =] theorem setFd_thread : (s.setFd i d).thread c = s.thread c := rfl
@[simp, grind =] theorem goto_clientInfo : (s.goto c th pc).clientInfo i = s.clientInfo i := rfl
@[simp, grind =] theorem goto_clntCnt : (s.goto c th pc).clntCnt = s.clntCnt := rfl
@[simp, grind =] theorem goto_mutx : (s.goto c th pc).mutx = s.mutx := rfl
@[simp, grind =] theorem goto_os : (s.goto c th pc).os d = s.os d := rfl
@[simp, grind =] theorem goto_next : (s.goto c th pc).next = s.next := rfl
@[simp, grind =] theorem goto_main : (s.goto c th pc).main = s.main := rfl
@[simp, grind =] theorem goto_thread : (s.goto c th pc).thread c' =
    if c' = c then some { th with pc := pc } else s.thread c' := by
  simp [goto, Function.update_apply]

end Fields

end Srv

/-- Writing another field of a slot keeps every `fd`. -/
theorem fd_update {T : Fin n → ClientInfo} {i : Fin n} {c : ClientInfo} (h : c.fd = (T i).fd) (j : Fin n) :
    (Function.update T i c j).fd = (T j).fd := by
  by_cases hj : j = i
  · subst hj
    rw [Function.update_self, h]
  · rw [Function.update_of_ne hj]

/-- The steps of `main` that change nothing but where `main` is. -/
def MainPc.next (T : Fin n → ClientInfo) (clntCnt : Int) : MainPc n → Option (MainPc n)
  | .accepted none => some .accept
  | .accepted (some p) => if clntCnt ≥ n then some .accept else some (.reading p)
  | .scanning _ _ _ [] => some .accept
  | .scanning p id pw (i :: is) =>
    if (T i).id = id then
      if (T i).fd ≠ -1 then some (.evicting i)
      else if (T i).pw = pw then some (.bind .ip p i)
      else some (.scanning p id pw is)
    else some (.scanning p id pw is)
  | _ => none

/-- The steps of the thread of slot `i` that change nothing but where the thread is. -/
def ThreadPc.next (signed : Bool) (T : Fin n → ClientInfo) (i : Fin n) : ThreadPc n → Option (ThreadPc n)
  -- `first_client_info` is the start of the table only for the index of the thread's own slot
  | .start => if (T i).index = i then some .loop else none
  | .loop => some (.reading (T i).fd)
  | .received dest text =>
    let m : MsgInfo := ⟨charFd signed (T i).fd, (T i).id, dest, tagged (T i).id text⟩
    if dest = bytes "GETTIME" ∨ dest = bytes "IDLIST" then some (.answering m) else some (.sending m (List.finRange n))
  | .answering _ => some .loop
  | .sending _ [] => some .loop
  | .sending m (j :: js) =>
    if (T j).fd ≠ -1 ∧ (m.dest = bytes "ALLMSG" ∨ m.dest = (T j).id) then some (.loading m j js)
    else some (.sending m js)
  | .loading m j js => some (.putting m (T j).fd j js)
  | .putting m _ _ js => some (.sending m js)
  | .closing => some (.close (T i).fd)
  | _ => none

/-- A step of `main` alone. -/
def mainStep (s : Srv n) : Option (Srv n) :=
  match s.main with
  | .evicting i => some { s.setFd i (-1) with main := .accept }
  | .bind .ip p i =>
    some { s with
      clientInfo := Function.update s.clientInfo i { s.clientInfo i with ip := p.ip }
      main := .bind .lock p i }
  | .bind .lock p i => if s.mutx = none then some { s with mutx := some .main, main := .bind .index p i } else none
  | .bind .index p i =>
    some { s with
      clientInfo := Function.update s.clientInfo i { s.clientInfo i with index := i }
      main := .bind .fd p i }
  | .bind .fd p i => some { s.setFd i p.sock with main := .bind .count p i }
  | .bind .count p i => some { s with clntCnt := s.clntCnt + 1, main := .bind .unlock p i }
  | .bind .unlock p i => some { s with mutx := none, main := .bind .create p i }
  | .bind .create p i =>
    some { s with thread := Function.update s.thread p.conn (some ⟨i, p.sock, .start⟩), main := .accept }
  | pc => (pc.next s.clientInfo s.clntCnt).map fun pc' => { s with main := pc' }

/-- A step of thread `c` alone. -/
def threadStep (signed : Bool) (s : Srv n) (c : Nat) (th : Thread n) : Option (Srv n) :=
  match th.pc with
  | .close d => some { s.goto c th .lock with os := Function.update s.os d none }
  | .lock => if s.mutx = none then some { s.goto c th .dec with mutx := some (.conn c) } else none
  | .dec => some { s.goto c th .clear with clntCnt := s.clntCnt - 1 }
  | .clear => some ((s.goto c th .unlock).setFd th.slot (-1))
  | .unlock => some { s.goto c th .done with mutx := none }
  | pc => (pc.next signed s.clientInfo th.slot).map (s.goto c th)

/-- One step of the server; `signed` tells whether `char` is signed. -/
def step (signed : Bool) (s : Srv n) : Act → Option (Srv n)
  | .accept r =>
    match s.main, r with
    | .accept, none => some { s with main := .accepted none }
    | .accept, some (d, ip) =>
      if 0 ≤ d ∧ s.os d = none then
        some { s with
          os := Function.update s.os d (some s.next)
          next := s.next + 1
          main := .accepted (some ⟨d, s.next, ip⟩) }
      else none
    | _, _ => none
  | .login r =>
    match s.main, r with
    | .reading _, none => some { s with main := .accept }
    | .reading p, some (id, pw) => some { s with main := .scanning p id pw (List.finRange n) }
    | _, _ => none
  | .main => mainStep s
  | .read c r =>
    match s.thread c with
    | none => none
    | some th =>
      match th.pc, r with
      | .reading _, none => some (s.goto c th .closing)
      | .reading d, some (dest, text) => if s.os d = none then none else some (s.goto c th (.received dest text))
      | _, _ => none
  | .thread c =>
    match s.thread c with
    | none => none
    | some th => threadStep signed s c th

/-! ## A scan alone, and a relay alone -/

/-- Where an outcome of the scan leads `main`. -/
def Outcome.leads (p : Peer) : Outcome n → MainPc n
  | .alreadyLogged i => .evicting i
  | .connected i => .bind .ip p i
  | _ => .accept

/-- **A scan that nobody disturbs ends as `scan` says.** -/
theorem scanning_leads {T : Fin n → ClientInfo} {clntCnt : Int} {p : Peer} {id pw : List Byte} {o : Outcome n} :
    ∀ {is : List (Fin n)}, scan T id (.ok pw) is = .ok o →
      Relation.TransGen (fun pc pc' => pc.next T clntCnt = some pc') (.scanning p id pw is) (o.leads p)
  | [], h => by
    cases h
    exact .single rfl
  | i :: is, h => by
    simp only [scan] at h
    by_cases hid : (T i).id = id
    · by_cases hfd : (T i).fd ≠ -1
      · rw [if_pos hid, if_pos hfd] at h
        cases h
        exact .single ((if_pos hid).trans (if_pos hfd))
      · rw [if_pos hid, if_neg hfd] at h
        by_cases hpw : (T i).pw = pw
        · rw [if_pos hpw] at h
          cases h
          exact .single ((if_pos hid).trans ((if_neg hfd).trans (if_pos hpw)))
        · rw [if_neg hpw] at h
          exact .head ((if_pos hid).trans ((if_neg hfd).trans (if_neg hpw))) (scanning_leads h)
    · rw [if_neg hid] at h
      exact .head (if_neg hid) (scanning_leads h)


/-- The descriptor a thread writes to in its next step. -/
def ThreadPc.writesTo : ThreadPc n → Option Int
  | .answering m => some m.fd
  | .putting _ d _ _ => some d
  | _ => none

/-- Thread `c` of slot `i`, moving alone over the table `T` from `pc` to its next round, writes to the descriptors
`ds`. -/
inductive Writes (signed : Bool) (T : Fin n → ClientInfo) (i : Fin n) : ThreadPc n → List Int → Prop
  | loop : Writes signed T i .loop []
  | move {pc pc' : ThreadPc n} {ds : List Int} : pc.next signed T i = some pc' → pc.writesTo = none →
      Writes signed T i pc' ds → Writes signed T i pc ds
  | write {pc pc' : ThreadPc n} {d : Int} {ds : List Int} : pc.next signed T i = some pc' → pc.writesTo = some d →
      Writes signed T i pc' ds → Writes signed T i pc (d :: ds)

/-- The loop of `send_msg` over the slots. -/
theorem sending_writes (signed : Bool) (T : Fin n → ClientInfo) (i : Fin n) (m : MsgInfo) : ∀ js : List (Fin n),
    Writes signed T i (.sending m js)
      ((js.filter fun j => (T j).fd ≠ -1 ∧ (m.dest = bytes "ALLMSG" ∨ m.dest = (T j).id)).map fun j => (T j).fd)
  | [] => .move rfl rfl .loop
  | j :: js => by
    have ih := sending_writes signed T i m js
    by_cases hj : (T j).fd ≠ -1 ∧ (m.dest = bytes "ALLMSG" ∨ m.dest = (T j).id)
    · rw [List.filter_cons_of_pos (by simpa using hj), List.map_cons]
      exact .move (if_pos hj) rfl (.move rfl rfl (.write rfl rfl ih))
    · rw [List.filter_cons_of_neg (by simpa using hj)]
      exact .move (if_neg hj) rfl ih

/-- **A thread that nobody disturbs writes what `sendMsg` says.** -/
theorem received_writes (signed : Bool) (T : Fin n → ClientInfo) (i : Fin n) (dest text time : List Byte) :
    Writes signed T i (.received dest text)
      ((sendMsg time T ⟨charFd signed (T i).fd, (T i).id, dest, tagged (T i).id text⟩).map Prod.fst) := by
  have hsend := sending_writes signed T i ⟨charFd signed (T i).fd, (T i).id, dest, tagged (T i).id text⟩
    (List.finRange n)
  have hall : bytes "ALLMSG" ≠ bytes "GETTIME" ∧ bytes "ALLMSG" ≠ bytes "IDLIST" ∧
      bytes "IDLIST" ≠ bytes "GETTIME" := by
    decide
  by_cases hans : dest = bytes "GETTIME" ∨ dest = bytes "IDLIST"
  · have hne : dest ≠ bytes "ALLMSG" := by
      rcases hans with rfl | rfl
      · exact hall.1.symm
      · exact hall.2.1.symm
    refine .move (if_pos hans) rfl ?_
    have hw : Writes signed T i (.answering ⟨charFd signed (T i).fd, (T i).id, dest, tagged (T i).id text⟩)
        [charFd signed (T i).fd] := .write rfl rfl .loop
    unfold sendMsg
    rcases hans with rfl | rfl
    · rwa [if_neg hne, if_pos rfl]
    · rwa [if_neg hne, if_neg hall.2.2, if_pos rfl]
  · refine .move (if_neg hans) rfl ?_
    obtain ⟨htime, hid⟩ := not_or.1 hans
    unfold sendMsg
    by_cases hdest : dest = bytes "ALLMSG"
    · simpa [hdest, Function.comp_def] using hsend
    · simpa [hdest, htime, hid, Function.comp_def] using hsend

/-! ## What a step can do -/

/-- The connection `main` has in hand. -/
@[grind =] def MainPc.peer : MainPc n → Option Peer
  | .accept => none
  | .accepted p => p
  | .reading p => some p
  | .scanning p _ _ _ => some p
  | .evicting _ => none
  | .bind _ p _ => some p

/-- What `main` does to a slot it binds. -/
@[grind =] def MainPc.binding : MainPc n → Option (BindPc × Fin n)
  | .accept => none
  | .accepted _ => none
  | .reading _ => none
  | .scanning _ _ _ _ => none
  | .evicting _ => none
  | .bind k _ i => some (k, i)

/-- The thread has closed its descriptor. -/
@[grind =] def ThreadPc.closed : ThreadPc n → Bool
  | .lock => true
  | .dec => true
  | .clear => true
  | .unlock => true
  | .done => true
  | _ => false

/-- The thread holds the mutex. -/
@[grind =] def ThreadPc.holds : ThreadPc n → Bool
  | .dec => true
  | .clear => true
  | .unlock => true
  | _ => false

/-- The thread has cleared its slot: its session has ended. -/
@[grind =] def ThreadPc.cleared : ThreadPc n → Bool
  | .unlock => true
  | .done => true
  | _ => false

/-- The statements that run under the mutex. -/
@[grind =] def BindPc.holds : BindPc → Bool
  | .ip => false
  | .lock => false
  | .index => true
  | .fd => true
  | .count => true
  | .unlock => true
  | .create => false

/-- `main` holds the mutex. -/
@[grind =] def MainPc.holds : MainPc n → Bool
  | .accept => false
  | .accepted _ => false
  | .reading _ => false
  | .scanning _ _ _ _ => false
  | .evicting _ => false
  | .bind k _ _ => k.holds

/-- `main` has written the `fd` of the slot it binds. -/
@[grind =] def BindPc.written : BindPc → Bool
  | .ip => false
  | .lock => false
  | .index => false
  | .fd => false
  | .count => true
  | .unlock => true
  | .create => true

/-- The slot whose `fd` `main` is about to write. -/
@[grind =] def MainPc.writes : MainPc n → Option (Fin n)
  | .accept => none
  | .accepted _ => none
  | .reading _ => none
  | .scanning _ _ _ _ => none
  | .evicting _ => none
  | .bind k _ i => if k = .fd then some i else none

/-- A step of thread `c` of slot `i`, alone or with a read, that changes nothing but where it is. -/
inductive Moves (signed : Bool) (s : Srv n) (c : Nat) (i : Fin n) : Act → ThreadPc n → ThreadPc n → Prop
  | next {pc pc' : ThreadPc n} : pc.next signed s.clientInfo i = some pc' → Moves signed s c i (.thread c) pc pc'
  | eof (d : Int) : Moves signed s c i (.read c none) (.reading d) .closing
  | data (d : Int) (dest text : List Byte) : s.os d ≠ none →
      Moves signed s c i (.read c (some (dest, text))) (.reading d) (.received dest text)

/-- The effects of a step. -/
inductive Effect (signed : Bool) (s : Srv n) : Act → Srv n → Prop
  | accept (d : Int) (ip : List Byte) : s.main = .accept → 0 ≤ d → s.os d = none →
      Effect signed s (.accept (some (d, ip)))
        { s with
          os := Function.update s.os d (some s.next)
          next := s.next + 1
          main := .accepted (some ⟨d, s.next, ip⟩) }
  | quiet {a : Act} (pc : MainPc n) : s.main.binding = none → pc.binding = none →
      (pc.peer = none ∨ pc.peer = s.main.peer) → Effect signed s a { s with main := pc }
  | found (p : Peer) (i : Fin n) : s.main.binding = none → s.main.peer = some p → (s.clientInfo i).fd = -1 →
      Effect signed s .main { s with main := .bind .ip p i }
  | evict (i : Fin n) : s.main = .evicting i → Effect signed s .main { s.setFd i (-1) with main := .accept }
  | ip (p : Peer) (i : Fin n) : s.main = .bind .ip p i →
      Effect signed s .main
        { s with
          clientInfo := Function.update s.clientInfo i { s.clientInfo i with ip := p.ip }
          main := .bind .lock p i }
  | lock (p : Peer) (i : Fin n) : s.main = .bind .lock p i → s.mutx = none →
      Effect signed s .main { s with mutx := some .main, main := .bind .index p i }
  | index (p : Peer) (i : Fin n) : s.main = .bind .index p i →
      Effect signed s .main
        { s with
          clientInfo := Function.update s.clientInfo i { s.clientInfo i with index := i }
          main := .bind .fd p i }
  | fd (p : Peer) (i : Fin n) : s.main = .bind .fd p i →
      Effect signed s .main { s.setFd i p.sock with main := .bind .count p i }
  | count (p : Peer) (i : Fin n) : s.main = .bind .count p i →
      Effect signed s .main { s with clntCnt := s.clntCnt + 1, main := .bind .unlock p i }
  | unlock (p : Peer) (i : Fin n) : s.main = .bind .unlock p i →
      Effect signed s .main { s with mutx := none, main := .bind .create p i }
  | create (p : Peer) (i : Fin n) : s.main = .bind .create p i →
      Effect signed s .main
        { s with thread := Function.update s.thread p.conn (some ⟨i, p.sock, .start⟩), main := .accept }
  | move {a : Act} (c : Nat) (th : Thread n) (pc : ThreadPc n) : s.thread c = some th →
      Moves signed s c th.slot a th.pc pc → Effect signed s a (s.goto c th pc)
  | close (c : Nat) (th : Thread n) (d : Int) : s.thread c = some th → th.pc = .close d →
      Effect signed s (.thread c) { s.goto c th .lock with os := Function.update s.os d none }
  | takeMutx (c : Nat) (th : Thread n) : s.thread c = some th → th.pc = .lock → s.mutx = none →
      Effect signed s (.thread c) { s.goto c th .dec with mutx := some (.conn c) }
  | dec (c : Nat) (th : Thread n) : s.thread c = some th → th.pc = .dec →
      Effect signed s (.thread c) { s.goto c th .clear with clntCnt := s.clntCnt - 1 }
  | clear (c : Nat) (th : Thread n) : s.thread c = some th → th.pc = .clear →
      Effect signed s (.thread c) ((s.goto c th .unlock).setFd th.slot (-1))
  | release (c : Nat) (th : Thread n) : s.thread c = some th → th.pc = .unlock →
      Effect signed s (.thread c) { s.goto c th .done with mutx := none }

/-- A quiet step of `main` outside a binding leads to no binding, or to the start of one for a slot that is free. -/
theorem MainPc.next_spec {T : Fin n → ClientInfo} {k : Int} {pc pc' : MainPc n} (h : pc.next T k = some pc') :
    pc.binding = none ∧
      (pc'.binding = none ∧ (pc'.peer = none ∨ pc'.peer = pc.peer) ∨
        ∃ p i, pc.peer = some p ∧ (T i).fd = -1 ∧ pc' = .bind .ip p i) := by
  unfold MainPc.next at h
  split at h
  · cases h; exact ⟨rfl, .inl ⟨rfl, .inl rfl⟩⟩
  · split at h <;> cases h
    · exact ⟨rfl, .inl ⟨rfl, .inl rfl⟩⟩
    · exact ⟨rfl, .inl ⟨rfl, .inr rfl⟩⟩
  · cases h; exact ⟨rfl, .inl ⟨rfl, .inl rfl⟩⟩
  · split at h
    · split at h
      · cases h; exact ⟨rfl, .inl ⟨rfl, .inl rfl⟩⟩
      · rename_i hfd
        split at h <;> cases h
        · exact ⟨rfl, .inr ⟨_, _, rfl, not_not.1 hfd, rfl⟩⟩
        · exact ⟨rfl, .inl ⟨rfl, .inr rfl⟩⟩
    · cases h; exact ⟨rfl, .inl ⟨rfl, .inr rfl⟩⟩
  · cases h

theorem effect_of_mainStep {signed : Bool} {s t : Srv n} (h : mainStep s = some t) : Effect signed s .main t := by
  unfold mainStep at h
  split at h
  · rename_i i hm; cases h; exact .evict i hm
  · rename_i p i hm; cases h; exact .ip p i hm
  · rename_i p i hm
    split at h
    · rename_i hx; cases h; exact .lock p i hm hx
    · cases h
  · rename_i p i hm; cases h; exact .index p i hm
  · rename_i p i hm; cases h; exact .fd p i hm
  · rename_i p i hm; cases h; exact .count p i hm
  · rename_i p i hm; cases h; exact .unlock p i hm
  · rename_i p i hm; cases h; exact .create p i hm
  · obtain ⟨pc', hn, rfl⟩ := Option.map_eq_some_iff.1 h
    obtain ⟨hb, ⟨hb', hp⟩ | ⟨p, i, hp, hfd, rfl⟩⟩ := MainPc.next_spec hn
    · exact .quiet pc' hb hb' hp
    · exact .found p i hb hp hfd

theorem effect_of_threadStep {signed : Bool} {s t : Srv n} {c : Nat} {th : Thread n} (hth : s.thread c = some th)
    (h : threadStep signed s c th = some t) : Effect signed s (.thread c) t := by
  unfold threadStep at h
  split at h
  · rename_i d hpc; cases h; exact .close c th d hth hpc
  · rename_i hpc
    split at h
    · rename_i hx; cases h; exact .takeMutx c th hth hpc hx
    · cases h
  · rename_i hpc; cases h; exact .dec c th hth hpc
  · rename_i hpc; cases h; exact .clear c th hth hpc
  · rename_i hpc; cases h; exact .release c th hth hpc
  · obtain ⟨pc', hn, rfl⟩ := Option.map_eq_some_iff.1 h
    exact .move c th pc' hth (.next hn)

/-- **Every step is one of the effects.** -/
theorem effect_of_step {signed : Bool} {s t : Srv n} {a : Act} (h : step signed s a = some t) :
    Effect signed s a t := by
  cases a with
  | accept r =>
    simp only [step] at h
    split at h
    · rename_i hm; cases h
      exact .quiet _ (by rw [hm]; rfl) rfl (.inl rfl)
    · rename_i d ip hm
      split at h
      · rename_i hd; cases h; exact .accept d ip hm hd.1 hd.2
      · cases h
    · cases h
  | login r =>
    simp only [step] at h
    split at h
    · rename_i p hm; cases h
      exact .quiet _ (by rw [hm]; rfl) rfl (.inl rfl)
    · rename_i p id pw hm; cases h
      exact .quiet _ (by rw [hm]; rfl) rfl (.inr (by rw [hm]; rfl))
    · cases h
  | main => exact effect_of_mainStep h
  | read c r =>
    simp only [step] at h
    split at h
    · cases h
    · rename_i th hth
      split at h
      · rename_i d hpc; cases h
        exact .move c th _ hth (hpc ▸ .eof d)
      · rename_i d dest text hpc
        split at h
        · cases h
        · rename_i hos; cases h
          exact .move c th _ hth (hpc ▸ .data d dest text hos)
      · cases h
  | thread c =>
    simp only [step] at h
    split at h
    · cases h
    · rename_i th hth
      exact effect_of_threadStep hth h

/-! ## Where a step takes `main` -/

/-- The statement after it in a binding. -/
def BindPc.next : BindPc → Option BindPc
  | .ip => some .lock
  | .lock => some .index
  | .index => some .fd
  | .fd => some .count
  | .count => some .unlock
  | .unlock => some .create
  | .create => none

/-- Where `main` may be after a step. -/
inductive Leads (s : Srv n) : Act → MainPc n → Prop
  | stay {a : Act} : Leads s a s.main
  | accept {r : Option (Int × List Byte)} (p : Option Peer) : s.main = .accept → Leads s (.accept r) (.accepted p)
  | eof (p : Peer) : s.main = .reading p → Leads s (.login none) .accept
  | login (p : Peer) (id pw : List Byte) : s.main = .reading p →
      Leads s (.login (some (id, pw))) (.scanning p id pw (List.finRange n))
  | next {pc : MainPc n} : s.main.next s.clientInfo s.clntCnt = some pc → Leads s .main pc
  | evict (i : Fin n) : s.main = .evicting i → Leads s .main .accept
  | bind {k k' : BindPc} (p : Peer) (i : Fin n) : s.main = .bind k p i → k.next = some k' → Leads s .main (.bind k' p i)
  | create (p : Peer) (i : Fin n) : s.main = .bind .create p i → Leads s .main .accept

theorem leads_of_mainStep {s t : Srv n} (h : mainStep s = some t) : Leads s .main t.main := by
  unfold mainStep at h
  split at h
  · rename_i i hm; cases h; exact .evict i hm
  · rename_i p i hm; cases h; exact .bind p i hm rfl
  · rename_i p i hm
    split at h
    · cases h; exact .bind p i hm rfl
    · cases h
  · rename_i p i hm; cases h; exact .bind p i hm rfl
  · rename_i p i hm; cases h; exact .bind p i hm rfl
  · rename_i p i hm; cases h; exact .bind p i hm rfl
  · rename_i p i hm; cases h; exact .bind p i hm rfl
  · rename_i p i hm; cases h; exact .create p i hm
  · obtain ⟨pc', hn, rfl⟩ := Option.map_eq_some_iff.1 h
    exact .next hn

/-- A thread leaves `main` where it is. -/
theorem main_of_threadStep {signed : Bool} {s t : Srv n} {c : Nat} {th : Thread n}
    (h : threadStep signed s c th = some t) : t.main = s.main := by
  unfold threadStep at h
  split at h
  · cases h; rfl
  · split at h
    · cases h; rfl
    · cases h
  · cases h; rfl
  · cases h; rfl
  · cases h; rfl
  · obtain ⟨pc', -, rfl⟩ := Option.map_eq_some_iff.1 h
    rfl

/-- **Every step takes `main` along its program.** -/
theorem leads_of_step {signed : Bool} {s t : Srv n} {a : Act} (h : step signed s a = some t) : Leads s a t.main := by
  cases a with
  | accept r =>
    simp only [step] at h
    split at h
    · rename_i hm; cases h; exact .accept none hm
    · rename_i d ip hm
      split at h
      · cases h; exact .accept _ hm
      · cases h
    · cases h
  | login r =>
    simp only [step] at h
    split at h
    · rename_i p hm; cases h; exact .eof p hm
    · rename_i p id pw hm; cases h; exact .login p id pw hm
    · cases h
  | main => exact leads_of_mainStep h
  | read c r =>
    simp only [step] at h
    split at h
    · cases h
    · split at h
      · cases h; exact .stay
      · split at h
        · cases h
        · cases h; exact .stay
      · cases h
  | thread c =>
    simp only [step] at h
    split at h
    · cases h
    · rw [main_of_threadStep h]
      exact .stay

/-! ## What holds in every reachable state -/

section Wf

variable {signed : Bool} {s t : Srv n} {a : Act}

theorem ThreadPc.holds_of_closed {pc : ThreadPc n} (h : pc.closed = false) : pc.holds = false := by
  cases pc <;> first | rfl | cases h

theorem ThreadPc.cleared_of_closed {pc : ThreadPc n} (h : pc.closed = false) : pc.cleared = false := by
  cases pc <;> first | rfl | cases h

theorem ThreadPc.next_closed {T : Fin n → ClientInfo} {i : Fin n} {pc pc' : ThreadPc n}
    (h : pc.next signed T i = some pc') : pc.closed = false ∧ pc'.closed = false := by
  unfold ThreadPc.next at h
  split at h
  all_goals first | (cases h; exact ⟨rfl, rfl⟩) | cases h | (split at h <;> cases h <;> exact ⟨rfl, rfl⟩)

/-- A thread that only moves stays in front of its exit section. -/
theorem Moves.closed {c : Nat} {i : Fin n} {pc pc' : ThreadPc n} (h : Moves signed s c i a pc pc') :
    pc.closed = false ∧ pc'.closed = false := by
  cases h with
  | next h => exact ThreadPc.next_closed h
  | eof => exact ⟨rfl, rfl⟩
  | data => exact ⟨rfl, rfl⟩

theorem MainPc.holds_of_binding {pc : MainPc n} (h : pc.binding = none) : pc.holds = false := by
  cases pc <;> first | rfl | cases h

/-- `pc` binds only what `pc₀` binds, and has written its `fd` iff `pc₀` has. -/
def MainPc.Binds (pc₀ pc : MainPc n) : Prop :=
  ∀ k p i, pc = .bind k p i → ∃ k', pc₀ = .bind k' p i ∧ k'.written = k.written

theorem MainPc.Binds.refl (pc : MainPc n) : pc.Binds pc := fun k _ _ h => ⟨k, h, rfl⟩

theorem MainPc.binds_none {pc₀ pc : MainPc n} (h : pc.binding = none) : pc₀.Binds pc := by
  rintro k p i rfl
  cases h

theorem MainPc.binds_bind {pc₀ : MainPc n} {k k' : BindPc} {p : Peer} {i : Fin n} (h : pc₀ = .bind k p i)
    (hk : k.written = k'.written) : pc₀.Binds (.bind k' p i) := by
  intro k'' p' i' he
  cases he
  exact ⟨k, h, hk⟩

theorem MainPc.peer_bind {pc₀ : MainPc n} {k k' : BindPc} {p : Peer} {i : Fin n} (h : pc₀ = .bind k p i) :
    (MainPc.bind k' p i).peer = pc₀.peer := by
  rw [h]
  rfl

/-- Serial numbers are fresh, and the connection in hand has no thread yet; its descriptor is open for it or for
nobody. -/
structure Numbered (s : Srv n) : Prop where
  thread_fresh : ∀ c, s.next ≤ c → s.thread c = none
  thread_sock : ∀ c th, s.thread c = some th → 0 ≤ th.sock
  peer_lt : ∀ p, s.main.peer = some p → p.conn < s.next
  peer_sock : ∀ p, s.main.peer = some p → 0 ≤ p.sock
  peer_fresh : ∀ p, s.main.peer = some p → s.thread p.conn = none
  peer_os : ∀ p, s.main.peer = some p → s.os p.sock = none ∨ s.os p.sock = some p.conn

/-- The mutex is held by whoever is in its critical section. -/
structure Locked (s : Srv n) : Prop where
  mutx_main : s.mutx = some .main ↔ s.main.holds = true
  mutx_conn : ∀ c th, s.thread c = some th → th.pc.holds = true → s.mutx = some (.conn c)
  mutx_owner : ∀ c, s.mutx = some (.conn c) → ∃ th, s.thread c = some th ∧ th.pc.holds = true

/-- The `index` of a slot with a thread is the slot. -/
structure Indexed (s : Srv n) : Prop where
  thread_index : ∀ c th, s.thread c = some th → (s.clientInfo th.slot).index = th.slot
  main_index : ∀ k p i, s.main = .bind k p i → k ≠ .ip → k ≠ .lock → k ≠ .index → (s.clientInfo i).index = i

/-- Well-formed states. -/
structure WF (s : Srv n) : Prop extends Numbered s, Locked s, Indexed s

section Goto

variable {c : Nat} {th : Thread n} {pc : ThreadPc n}

theorem Numbered.goto (h : Numbered s) (hth : s.thread c = some th) : Numbered (s.goto c th pc) := by
  obtain ⟨h1, h2, h3, h4, h5, h6⟩ := h
  constructor <;> grind -ring -linarith

theorem Locked.goto (h : Locked s) (hth : s.thread c = some th) (hc : th.pc.closed = false) (hc' : pc.closed = false) :
    Locked (s.goto c th pc) := by
  obtain ⟨h1, h2, h3⟩ := h
  have hx := ThreadPc.holds_of_closed hc
  have hx' := ThreadPc.holds_of_closed hc'
  constructor <;> grind -ring -linarith

theorem Indexed.goto (h : Indexed s) (hth : s.thread c = some th) : Indexed (s.goto c th pc) := by
  obtain ⟨h1, h2⟩ := h
  constructor <;> grind -ring -linarith

/-- A thread that moves in front of its exit section keeps a state well-formed, whatever it does there. -/
theorem WF.goto (h : WF s) (hth : s.thread c = some th) (hc : th.pc.closed = false) (hc' : pc.closed = false) :
    WF (s.goto c th pc) :=
  ⟨h.toNumbered.goto hth, h.toLocked.goto hth hc hc', h.toIndexed.goto hth⟩

end Goto

/-- Only the serial numbers, the threads, the descriptors and the connection in hand matter. -/
theorem Numbered.congr (h : Numbered s) (hn : t.next = s.next) (hth : t.thread = s.thread) (hos : t.os = s.os)
    (hp : t.main.peer = none ∨ t.main.peer = s.main.peer) : Numbered t := by
  have hpeer : ∀ p, t.main.peer = some p → s.main.peer = some p := by
    intro p ht
    rcases hp with hp | hp
    · rw [hp] at ht; cases ht
    · rwa [← hp]
  constructor
  · rw [hn, hth]; exact h.thread_fresh
  · rw [hth]; exact h.thread_sock
  · rw [hn]; exact fun p ht => h.peer_lt p (hpeer p ht)
  · exact fun p ht => h.peer_sock p (hpeer p ht)
  · rw [hth]; exact fun p ht => h.peer_fresh p (hpeer p ht)
  · rw [hos]; exact fun p ht => h.peer_os p (hpeer p ht)

theorem Numbered.step (h : Numbered s) (he : Effect signed s a t) : Numbered t := by
  have hself := h
  obtain ⟨h1, h2, h3, h4, h5, h6⟩ := h
  cases he with
  | accept d ip hpc hd hos => constructor <;> grind -ring -linarith
  | quiet pc hb hb' hp => exact hself.congr rfl rfl rfl hp
  | found p i hb hp => exact hself.congr rfl rfl rfl (.inr hp.symm)
  | evict i hpc => exact hself.congr rfl rfl rfl (.inl rfl)
  | ip p i hpc => exact hself.congr rfl rfl rfl (.inr (MainPc.peer_bind hpc))
  | lock p i hpc => exact hself.congr rfl rfl rfl (.inr (MainPc.peer_bind hpc))
  | index p i hpc => exact hself.congr rfl rfl rfl (.inr (MainPc.peer_bind hpc))
  | fd p i hpc => exact hself.congr rfl rfl rfl (.inr (MainPc.peer_bind hpc))
  | count p i hpc => exact hself.congr rfl rfl rfl (.inr (MainPc.peer_bind hpc))
  | unlock p i hpc => exact hself.congr rfl rfl rfl (.inr (MainPc.peer_bind hpc))
  | create p i hpc =>
    have hp := h5 p (by rw [hpc]; rfl)
    constructor <;> grind -ring -linarith
  | move c th pc hth hmv => exact hself.goto hth
  | close c th d hth hpc => constructor <;> grind -ring -linarith
  | takeMutx c th hth hpc => exact (hself.goto hth).congr rfl rfl rfl (.inr rfl)
  | dec c th hth hpc => exact (hself.goto hth).congr rfl rfl rfl (.inr rfl)
  | clear c th hth hpc => exact (hself.goto hth).congr rfl rfl rfl (.inr rfl)
  | release c th hth hpc => exact (hself.goto hth).congr rfl rfl rfl (.inr rfl)

theorem Locked.step (h : Locked s) (hn : Numbered s) (he : Effect signed s a t) : Locked t := by
  have hgoto := h
  obtain ⟨h1, h2, h3⟩ := h
  cases he with
  | quiet pc hb hb' hp =>
    have hm := MainPc.holds_of_binding hb
    have hm' := MainPc.holds_of_binding hb'
    constructor <;> grind -ring -linarith
  | found p i hb hp =>
    have hm := MainPc.holds_of_binding hb
    constructor <;> grind -ring -linarith
  | move c th pc hth hmv => exact hgoto.goto hth hmv.closed.1 hmv.closed.2
  | create p i hpc =>
    have hp := hn.peer_fresh p (by rw [hpc]; rfl)
    constructor <;> grind -ring -linarith
  | unlock p i hpc =>
    have hx : s.mutx = some .main := h1.2 (by rw [hpc]; rfl)
    constructor <;> grind -ring -linarith
  | release c th hth hpc =>
    have hx : s.mutx = some (.conn c) := h2 c th hth (by rw [hpc]; rfl)
    constructor <;> grind -ring -linarith
  | _ => constructor <;> grind -ring -linarith

theorem Indexed.step (h : Indexed s) (he : Effect signed s a t) : Indexed t := by
  have hgoto := h
  obtain ⟨h1, h2⟩ := h
  cases he with
  | move c th pc hth hmv => exact hgoto.goto hth
  | _ => constructor <;> grind -ring -linarith

/-- **Every step keeps a state well-formed.** -/
theorem WF.step (h : WF s) (he : Effect signed s a t) : WF t :=
  ⟨h.toNumbered.step he, h.toLocked.step h.toNumbered he, h.toIndexed.step he⟩

theorem wf_start : WF srvStart := by
  refine ⟨?_, ?_, ?_⟩ <;> constructor <;> simp [srvStart, MainPc.peer, MainPc.holds]

/-- Every reachable state is well-formed. -/
theorem wf_of_reach {G : Srv maxClnt → Act → Prop} {s : Srv maxClnt} (h : Reach (step signed) G srvStart s) : WF s :=
  h.inv wf_start fun _ _ _ hw _ hst => hw.step (effect_of_step hst)

end Wf

/-! ## Stretches of runs -/

/-- `main` accepts the descriptor `d`, which logs in at slot `i`. -/
def loginActs (i : Fin maxClnt) (d : Int) : List Act :=
  [.accept (some (d, [])), .main, .login (some ((clientInfo₀ i).id, bytes "PASSWD"))] ++ List.replicate (i + 8) .main

/-- `main` accepts the descriptor `d`, which tries to log in at slot `i` and finds it taken. -/
def evictActs (i : Fin maxClnt) (d : Int) : List Act :=
  [.accept (some (d, [])), .main, .login (some ((clientInfo₀ i).id, bytes "PASSWD"))] ++ List.replicate (i + 2) .main

end PetVending.Server
