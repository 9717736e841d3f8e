import PetVending.Lib.Lines
import PetVending.Lib.Strtok
import PetVending.Lib.Transition
import Mathlib.Tactic.SplitIfs

/-!
# From Bluetooth to the server: `send_msg` of the Bluetooth client

`send_msg` collects what it reads in `msg` until the last byte is a line feed, and writes `msg` to the server. The rest
of the space in `msg` is the size of the next read.

- `step`: a read with its result, a timeout of `select`, and what `recv_msg` in the other thread finds out about the
  server;
- `Guard`: what a step may be like; `Bridged`: what guarded steps keep;
- **`forwarding_iff`**: in all states of a run the lines received so far have been written one by one, no access was
  outside `msg` and the thread has not stopped without a reason iff all steps of the run are guarded.
-/

namespace PetVending.Bluetooth

open CStr Lines Transition

/-! ## States and steps -/

/-- `BUF_SIZE` -/
def bufSize : Nat := 100

/-- What `recv_msg` has read last of the server: bytes, its end of file, or an error. After these `sockfd` is -1. -/
inductive Server
  | data
  | eof
  | error
  deriving DecidableEq

/-- Why the thread runs no more. -/
inductive End
  /-- The Bluetooth device has closed the connection. -/
  | eof
  /-- A read has returned 0 because there was no space in `msg`. -/
  | noSpace
  /-- A write to the server has failed. -/
  | writeFailed
  /-- `sockfd` was -1 at a timeout. -/
  | server (s : Server)
  /-- `msg[-1]` or `msg[BUF_SIZE]` was accessed. -/
  | outside
  deriving DecidableEq

/-- The thread at the head of its loop. `msg` are the first `total` bytes of the buffer, `received` is all that was read
so far, and `writes` are the texts handed to `write`. -/
structure Bridge where
  msg : List Byte
  server : Server
  received : List Byte
  writes : List (List Byte)
  ended : Option End

/-- `send_msg` at its start. -/
def bridgeStart : Bridge := ⟨[], .data, [], [], none⟩

/-- The result of a read of `btfd`. -/
inductive ReadRes
  | data (bs : List Byte)
  | eof
  | empty
  | error

/-- A read when `select` has found `btfd` (`written`: a write behind it succeeds), a timeout, or a read of
`recv_msg`. -/
inductive Act
  | read (r : ReadRes) (written : Bool)
  | timeout
  | recvMsg (s : Server)

/-- The test for the line feed behind a read that did not return 0, and the write. -/
def Bridge.forward (s : Bridge) (written : Bool) : Bridge :=
  match s.msg.getLast? with
  -- msg[total-1] with total = 0
  | none => { s with ended := some .outside }
  | some c =>
    if c = 10 then
      if s.msg.length < bufSize then
        let t := { s with msg := [], writes := s.writes ++ [strAt (s.msg ++ [0]) 0] }
        if written ∧ s.server = .data then t else { t with ended := some .writeFailed }
      else { s with ended := some .outside }
    else s

/-- A read of `BUF_SIZE-total` bytes at `msg+total`; the bytes are not NUL. -/
def Bridge.onRead (s : Bridge) (written : Bool) : ReadRes → Option Bridge
  | .data bs =>
    if bs ≠ [] ∧ bs.length ≤ bufSize - s.msg.length ∧ 0 ∉ bs then
      some ({ s with msg := s.msg ++ bs, received := s.received ++ bs }.forward written)
    else none
  | .eof => some { s with ended := some .eof }
  | .empty => if s.msg.length = bufSize then some { s with ended := some .noSpace } else none
  | .error => some (s.forward written)

def step (s : Bridge) (a : Act) : Option Bridge :=
  if s.ended ≠ none then none
  else
    match a with
    | .read r written => s.onRead written r
    | .timeout => some (if s.server = .data then s else { s with ended := some (.server s.server) })
    | .recvMsg r => if s.server = .data then some { s with server := r } else none

/-! ## The property and the guard -/

/-- A real end of file, of either connection, or a failed write. -/
def End.Real : End → Prop
  | .eof => True
  | .writeFailed => True
  | .server s => s = .eof
  | .noSpace => False
  | .outside => False

instance : DecidablePred End.Real
  | .eof => .isTrue trivial
  | .writeFailed => .isTrue trivial
  | .server s => inferInstanceAs (Decidable (s = .eof))
  | .noSpace => .isFalse id
  | .outside => .isFalse id

/-- Each line received has been written, in order and by a write of its own, all accesses were inside `msg`, and the
thread runs or has stopped for a real reason. -/
structure Forwards (s : Bridge) : Prop where
  lines : s.writes = lines 10 s.received
  ended : ∀ e ∈ s.ended, e.Real

/-- A read delivers a line feed only as its last byte, and then leaves room for the terminator; no read finds `msg`
full, none fails while `msg` is empty, and no timeout comes behind a failed read of the server. -/
def Guard (s : Bridge) : Act → Prop
  | .read (.data bs) _ => 10 ∉ bs.dropLast ∧ (bs.getLast? = some 10 → s.msg.length + bs.length < bufSize)
  | .read .eof _ => True
  | .read .empty _ => False
  | .read .error _ => s.msg ≠ []
  | .timeout => s.server ≠ .error
  | .recvMsg _ => True

instance (s : Bridge) : (a : Act) → Decidable (Guard s a)
  | .read (.data bs) _ =>
    inferInstanceAs (Decidable (10 ∉ bs.dropLast ∧ (bs.getLast? = some 10 → s.msg.length + bs.length < bufSize)))
  | .read .eof _ => .isTrue trivial
  | .read .empty _ => .isFalse id
  | .read .error _ => inferInstanceAs (Decidable (s.msg ≠ []))
  | .timeout => inferInstanceAs (Decidable (s.server ≠ .error))
  | .recvMsg _ => .isTrue trivial

/-- What guarded steps keep: the writes are lines, and with `msg` they make up all that was received. -/
structure Bridged (s : Bridge) : Prop where
  received : s.received = s.writes.flatten ++ s.msg
  writes : ∀ w ∈ s.writes, IsLine 10 w
  open_line : 10 ∉ s.msg
  nul : ∀ c ∈ s.msg, c ≠ 0
  ended : ∀ e ∈ s.ended, e.Real

theorem Bridged.forwards {s : Bridge} (h : Bridged s) : Forwards s :=
  ⟨by rw [h.received, lines_flatten h.writes h.open_line], h.ended⟩

/-- There are as many writes as line feeds. -/
theorem Bridged.count {s : Bridge} (h : Bridged s) : s.writes.length = s.received.count 10 := by
  rw [h.forwards.lines, lines_length]

/-! ## Steps and runs -/

section Steps

variable {s t : Bridge} {bs : List Byte} {written : Bool}

/-- The test behind a read that has left something in `msg`. -/
theorem forward_eq {u : List Byte} {c : Byte} (h : s.msg = u ++ [c]) : s.forward written =
    if c = 10 then
      if s.msg.length < bufSize then
        if written ∧ s.server = .data then
          { s with msg := [], writes := s.writes ++ [strAt (s.msg ++ [0]) 0] }
        else { s with msg := [], writes := s.writes ++ [strAt (s.msg ++ [0]) 0], ended := some .writeFailed }
      else { s with ended := some .outside }
    else s := by
  have hlast : s.msg.getLast? = some c := by rw [h, List.getLast?_concat]
  rw [Bridge.forward, hlast]

/-- A guarded read keeps the invariant. -/
theorem read_bridged (h : Bridged s) {c : Byte} (hnul : ∀ x ∈ bs ++ [c], x ≠ 0) (hlf : 10 ∉ bs)
    (hroom : c = 10 → (s.msg ++ (bs ++ [c])).length < bufSize) :
    Bridged ({ s with msg := s.msg ++ (bs ++ [c]), received := s.received ++ (bs ++ [c]) }.forward written) := by
  have hmsg : s.msg ++ (bs ++ [c]) = s.msg ++ bs ++ [c] := (List.append_assoc ..).symm
  have hall : ∀ x ∈ s.msg ++ (bs ++ [c]), x ≠ 0 := fun x hx => (List.mem_append.1 hx).elim (h.nul x) (hnul x)
  have hopen : 10 ∉ s.msg ++ bs := fun hx => (List.mem_append.1 hx).elim h.open_line hlf
  rw [forward_eq hmsg]
  split
  · rename_i hc
    -- the line is written
    have htext : strAt (s.msg ++ (bs ++ [c]) ++ [0]) 0 = s.msg ++ (bs ++ [c]) := strAt_nul [] hall
    have hrec : s.received ++ (bs ++ [c]) = (s.writes ++ [s.msg ++ (bs ++ [c])]).flatten ++ [] := by
      rw [h.received, List.flatten_append, List.flatten_singleton, List.append_nil, List.append_assoc]
    have hline : ∀ w ∈ s.writes ++ [s.msg ++ (bs ++ [c])], IsLine 10 w :=
      List.forall_mem_append.2 ⟨h.writes, List.forall_mem_singleton.2 ⟨s.msg ++ bs, by rw [hmsg, hc], hopen⟩⟩
    rw [if_pos (hroom hc), htext]
    split
    · exact ⟨hrec, hline, by simp, by simp, h.ended⟩
    · exact ⟨hrec, hline, by simp, by simp, by simp [End.Real]⟩
  · rename_i hc
    -- the line goes on
    refine ⟨?_, h.writes, ?_, hall, h.ended⟩
    · show s.received ++ (bs ++ [c]) = s.writes.flatten ++ (s.msg ++ (bs ++ [c]))
      rw [h.received, List.append_assoc]
    · show 10 ∉ s.msg ++ (bs ++ [c])
      rw [hmsg, List.mem_append, List.mem_singleton, not_or]
      exact ⟨hopen, fun h => hc h.symm⟩

/-- A read that leaves all lines forwarded is guarded. -/
theorem read_guard (h : Bridged s) {c : Byte}
    (ht : Forwards ({ s with msg := s.msg ++ (bs ++ [c]), received := s.received ++ (bs ++ [c]) }.forward written)) :
    10 ∉ bs ∧ (c = 10 → (s.msg ++ (bs ++ [c])).length < bufSize) := by
  have hmsg : s.msg ++ (bs ++ [c]) = s.msg ++ bs ++ [c] := (List.append_assoc ..).symm
  have hcount : (s.received ++ (bs ++ [c])).count 10 = s.writes.length + bs.count 10 + (if c = 10 then 1 else 0) := by
    rw [List.count_append, List.count_append, ← h.count, List.count_singleton]
    simp only [beq_iff_eq, Nat.add_assoc]
  rw [forward_eq hmsg] at ht
  split at ht
  · rename_i hc
    rw [if_pos hc] at hcount
    split at ht
    · rename_i hroom
      refine ⟨List.count_eq_zero.1 ?_, fun _ => hroom⟩
      -- one line has been written
      have hone : s.writes.length + 1 = (s.received ++ (bs ++ [c])).count 10 := by
        split at ht
        · rw [← lines_length, ← ht.lines, List.length_append, List.length_singleton]
        · rw [← lines_length, ← ht.lines, List.length_append, List.length_singleton]
      omega
    · exact absurd (ht.ended .outside rfl) id
  · rename_i hc
    rw [if_neg hc] at hcount
    refine ⟨List.count_eq_zero.1 ?_, fun h => absurd h hc⟩
    have hnone : s.writes.length = (s.received ++ (bs ++ [c])).count 10 := by
      rw [← lines_length, ← ht.lines]
    omega

/-- A failed read while a line is open changes nothing. -/
theorem forward_open (h : Bridged s) (hne : s.msg ≠ []) : s.forward written = s := by
  obtain ⟨u, c, hmsg⟩ := (List.eq_nil_or_concat' s.msg).resolve_left hne
  rw [forward_eq hmsg, if_neg]
  rintro rfl
  exact h.open_line (by rw [hmsg]; simp)

/-- **A step keeps the invariant if it is guarded**, and else it leaves a line behind, or stops, or faults. -/
theorem step_bridged {a : Act} (h : Bridged s) (hst : step s a = some t) :
    (Guard s a → Bridged t) ∧ (Forwards t → Guard s a) := by
  unfold step at hst
  split at hst
  · cases hst
  rename_i hrun
  have hnone : s.ended = none := not_not.1 hrun
  cases a with
  | read r written =>
    cases r with
    | data bs =>
      simp only [Bridge.onRead] at hst
      split at hst
      · rename_i hlegal
        obtain ⟨hne, -, hnul⟩ := hlegal
        obtain ⟨us, c, rfl⟩ := (List.eq_nil_or_concat' bs).resolve_left hne
        cases hst
        have hguard : Guard s (.read (.data (us ++ [c])) written) ↔
            10 ∉ us ∧ (c = 10 → (s.msg ++ (us ++ [c])).length < bufSize) := by
          simp only [Guard, List.dropLast_concat, List.getLast?_concat, Option.some.injEq, List.length_append]
        rw [hguard]
        have hne0 : ∀ x ∈ us ++ [c], x ≠ 0 := fun x hx h0 => hnul (h0 ▸ hx)
        exact ⟨fun hg => read_bridged h hne0 hg.1 hg.2, fun ht => read_guard h ht⟩
      · cases hst
    | eof =>
      cases hst
      exact ⟨fun _ => ⟨h.received, h.writes, h.open_line, h.nul, by simp [End.Real]⟩, fun _ => trivial⟩
    | empty =>
      simp only [Bridge.onRead] at hst
      split at hst
      · cases hst
        exact ⟨fun hg => hg.elim, fun ht => ht.ended .noSpace rfl⟩
      · cases hst
    | error =>
      cases hst
      constructor
      · intro hg
        rw [forward_open h hg]
        exact h
      · rintro ht (hnil : s.msg = [])
        have hfault : s.forward written = { s with ended := some .outside } := by rw [Bridge.forward, hnil]; rfl
        rw [hfault] at ht
        exact ht.ended .outside rfl
  | timeout =>
    simp only [Option.some.injEq] at hst
    subst hst
    split
    · rename_i hdata
      exact ⟨fun _ => h, fun _ => by rw [Guard, hdata]; decide⟩
    · rename_i hend
      refine ⟨fun hg => ⟨h.received, h.writes, h.open_line, h.nul, ?_⟩, fun ht herr => ?_⟩
      · rintro e he
        cases he
        show s.server = .eof
        cases hserver : s.server with
        | data => exact absurd hserver hend
        | eof => rfl
        | error => exact absurd hserver hg
      · have hreal : s.server = .eof := ht.ended (.server s.server) rfl
        rw [herr] at hreal
        cases hreal
  | recvMsg r =>
    simp only at hst
    split at hst
    · cases hst
      exact ⟨fun _ => ⟨h.received, h.writes, h.open_line, h.nul, h.ended⟩, fun _ => trivial⟩
    · cases hst

end Steps

theorem bridged_start : Bridged bridgeStart where
  received := rfl
  writes w hw := by cases hw
  open_line hc := by cases hc
  nul c hc := by cases hc
  ended e he := by cases he

/-- **Forwarding over runs.** In all states of a run all lines received are forwarded, all accesses are inside `msg`,
and the thread has stopped for a real reason at most, iff all steps are guarded. -/
theorem forwarding_iff {tr : List (Bridge × Act × Bridge)} {s : Bridge} (h : Run step bridgeStart tr s) :
    (∀ e ∈ tr, Forwards e.2.2) ↔ ∀ e ∈ tr, Guard e.1 e.2.1 :=
  run_iff (I := Bridged) bridged_start (fun _ hs => hs.forwards) (fun _ _ _ hs hg hst => (step_bridged hs hst).1 hg)
    (fun _ _ _ hs hst ht => (step_bridged hs hst).2 ht) h

/-- A line in two reads, the end of the connection. -/
theorem forwarding_lamp : ∃ tr s, trace step bridgeStart [.read (.data (bytes "[KJD_STM]MOT")) true, .timeout,
      .read (.data (bytes "OR@3\n")) true, .read .eof true] = some (tr, s) ∧ s.writes = [bytes "[KJD_STM]MOTOR@3\n"] ∧
    ∀ e ∈ tr, Forwards e.2.2 := by
  have hrun : (trace step bridgeStart [.read (.data (bytes "[KJD_STM]MOT")) true, .timeout,
      .read (.data (bytes "OR@3\n")) true, .read .eof true]).any (fun r =>
        r.2.writes = [bytes "[KJD_STM]MOTOR@3\n"] ∧ ∀ e ∈ r.1, Guard e.1 e.2.1) = true := by decide +kernel
  obtain ⟨⟨tr, s⟩, hs, hp⟩ := (Option.any_eq_true ..).1 hrun
  obtain ⟨hwrites, hguard⟩ := of_decide_eq_true hp
  exact ⟨tr, s, hs, hwrites, (forwarding_iff (run_of_trace hs)).2 hguard⟩

/-- Two lines in one read are one write. -/
theorem lines_joined : ¬ ∀ (tr : List (Bridge × Act × Bridge)) (s : Bridge), Run step bridgeStart tr s →
    ∀ e ∈ tr, Forwards e.2.2 := by
  intro h
  have hrun : (trace step bridgeStart [.read (.data (bytes "A\nB\n")) true]).any (fun r => r.1.any fun e =>
      e.2.2.writes = [bytes "A\nB\n"] ∧ e.2.2.received = bytes "A\nB\n") = true := by decide +kernel
  obtain ⟨⟨tr, s⟩, hs, htr⟩ := (Option.any_eq_true ..).1 hrun
  obtain ⟨e, he, hp⟩ := List.any_eq_true.1 htr
  obtain ⟨hwrites, hreceived⟩ := of_decide_eq_true hp
  have hlines := (h tr s (run_of_trace hs) e he).lines
  rw [hwrites, hreceived] at hlines
  revert hlines
  decide +kernel

end PetVending.Bluetooth
