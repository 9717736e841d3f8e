import PetVending.Server.Relay
import Mathlib.Data.List.Infix
import Mathlib.Data.Bool.AllAny
import Mathlib.Tactic.SplitIfs

/-!
# The recommendation trigger: `recv_msg` of the Jetson client

`recv_msg` looks for `[KJD_QT]RECO` in each read for itself, wherever the messages of the server begin and end.

- `recvMsg`: the calls of `trigger_python_detection` for a sequence of reads;
- `trigger_iff`: a read of a stream of relayed messages makes a call iff it holds the first twelve bytes of a message
  that starts with the command;
- **`triggers_iff`**: at any time there have been as many calls as commands `[KJD_QT]RECO` received iff each read that
  holds the start of such a message completes one command, and each other read completes none.
-/

namespace PetVending.Jetson

open CStr Server

/-- `[KJD_QT]RECO` -/
def command : List Byte := bytes "[KJD_QT]RECO"

/-- `strstr(name_msg, "[KJD_QT]RECO") != NULL` behind a read of the bytes `bs` -/
def found (bs : List Byte) : Bool := command <:+: strAt (bs ++ [0]) 0

/-- The loop of `recv_msg`: the arguments of `trigger_python_detection`. -/
def recvMsg (reads : List (List Byte)) : List (List Byte) :=
  reads.flatMap fun bs => if found bs then [bytes "START"] else []

/-! ## Relayed messages -/

/-- A message that the server relays: the payload was a token between `[`, `:` and `]`. -/
structure Relayed where
  id : List Byte
  payload : List Byte
  clean : ∀ c ∈ id ++ payload, c ∉ bytes "[:]" ∧ c ≠ 0

/-- The message with its line feed. -/
def Relayed.enc (m : Relayed) : List Byte := tagged m.id (m.payload ++ [10])

/-- What the server sends. -/
def stream (ms : List Relayed) : List Byte := ms.flatMap Relayed.enc

/-- The offsets of the messages of a kind. -/
def starts (p : Relayed → Bool) : List Relayed → List Nat
  | [] => []
  | m :: ms => (if p m then [0] else []) ++ (starts p ms).map (· + m.enc.length)

/-- The messages that start with the command. -/
def commands (ms : List Relayed) : List Nat := starts (fun m => command <+: m.enc) ms

/-- The messages `[KJD_QT]RECO`. -/
def recos (ms : List Relayed) : List Nat := starts (fun m => m.enc = command ++ [10]) ms

/-- The commands `[KJD_QT]RECO` among the first `n` bytes. -/
def received (ms : List Relayed) (n : Nat) : Nat := (recos ms).countP fun o => o + command.length ≤ n

/-- The bytes from `x` to `y` hold a command, of whatever message. -/
def Holds (ms : List Relayed) (x y : Nat) : Prop := ∃ o ∈ commands ms, x ≤ o ∧ o + command.length ≤ y

instance (ms : List Relayed) (x y : Nat) : Decidable (Holds ms x y) :=
  inferInstanceAs (Decidable (∃ o ∈ commands ms, x ≤ o ∧ o + command.length ≤ y))

/-- The commands `[KJD_QT]RECO` whose last byte is among the bytes from `x` to `y`. -/
def completed (ms : List Relayed) (x y : Nat) : Nat :=
  (recos ms).countP fun o => x < o + command.length ∧ o + command.length ≤ y

/-- The bytes from `x` to `y` complete one command if they hold the start of one, of whatever message, and else none. -/
def Single (ms : List Relayed) (x y : Nat) : Prop := completed ms x y = if Holds ms x y then 1 else 0

/-! ## Where the command is found -/

theorem enc_ne_zero {m : Relayed} {c : Byte} (h : c ∈ m.enc) : c ≠ 0 := by
  rw [Relayed.enc, tagged, List.cons_append, List.mem_cons, List.mem_append, List.mem_cons, List.mem_append] at h
  rcases h with rfl | h | rfl | h | h
  · decide
  · exact (m.clean c (List.mem_append_left _ h)).2
  · decide
  · exact (m.clean c (List.mem_append_right _ h)).2
  · rw [List.mem_singleton.1 h]
    decide

/-- The opening bracket stands only at the start of a message. -/
theorem enc_open (m : Relayed) : ∃ r, m.enc = 91 :: r ∧ 91 ∉ r := by
  refine ⟨m.id ++ 93 :: (m.payload ++ [10]), by rw [Relayed.enc, tagged, List.cons_append], fun h => ?_⟩
  have hclean (h : (91 : Byte) ∈ m.id ++ m.payload) : False := (m.clean 91 h).1 (by decide)
  rw [List.mem_append, List.mem_cons, List.mem_append] at h
  rcases h with h | h | h | h
  · exact hclean (List.mem_append_left _ h)
  · cases h
  · exact hclean (List.mem_append_right _ h)
  · cases List.mem_singleton.1 h

theorem command_open : ∃ r, command = 91 :: r ∧ 91 ∉ r := ⟨bytes "KJD_QT]RECO", by decide, by decide⟩

/-- The command is at the start of a message or nowhere near. -/
theorem command_prefix (m : Relayed) (ms : List Relayed) : command <+: m.enc ++ stream ms ↔ command <+: m.enc := by
  refine ⟨fun h => ?_, fun h => h.trans (List.prefix_append ..)⟩
  rcases List.prefix_or_prefix_of_prefix h (List.prefix_append m.enc (stream ms)) with hle | hle
  · exact hle
  · -- else the command goes on behind the message, with an opening bracket
    obtain ⟨r, hr⟩ := hle
    obtain ⟨c, hc, hc91⟩ := command_open
    obtain ⟨u, hu, -⟩ := enc_open m
    rw [← hr, List.prefix_append_right_inj] at h
    match r, ms with
    | [], _ => rw [← hr, List.append_nil]
    | x :: r, [] =>
      have := h.length_le
      cases this
    | x :: r, m' :: ms =>
      obtain ⟨u', hu', -⟩ := enc_open m'
      have hx : x = 91 := by
        rw [stream, List.flatMap_cons, hu', List.cons_append, List.cons_prefix_cons] at h
        exact h.1
      rw [hc, hu, List.cons_append, List.cons_inj_right] at hr
      exact absurd (by rw [← hr, hx]; simp) hc91

/-- **The command stands in the stream at the starts of messages** that start with it. -/
theorem command_at (ms : List Relayed) (p : Nat) : command <+: (stream ms).drop p ↔ p ∈ commands ms := by
  induction ms generalizing p with
  | nil =>
    obtain ⟨c, hc, -⟩ := command_open
    rw [stream, List.flatMap_nil, List.drop_nil, List.prefix_nil, hc]
    exact iff_of_false (List.cons_ne_nil _ _) (by simp [commands, starts])
  | cons m ms ih =>
    obtain ⟨u, hu, hu91⟩ := enc_open m
    have hlen : 0 < m.enc.length := by rw [hu]; exact Nat.succ_pos _
    have hmem : p ∈ commands (m :: ms) ↔ command <+: m.enc ∧ p = 0 ∨ ∃ q ∈ commands ms, q + m.enc.length = p := by
      rw [commands, starts, List.mem_append, List.mem_map]
      refine or_congr ?_ Iff.rfl
      split
      · rename_i h
        simp [of_decide_eq_true h]
      · rename_i h
        simp [of_decide_eq_false (Bool.eq_false_of_not_eq_true h)]
    have hstream : stream (m :: ms) = m.enc ++ stream ms := List.flatMap_cons
    rw [hmem, hstream]
    match p with
    | 0 =>
      rw [List.drop_zero, command_prefix m ms]
      constructor
      · exact fun h => .inl ⟨h, rfl⟩
      · rintro (h | ⟨q, -, hq⟩)
        · exact h.1
        · omega
    | p + 1 =>
      by_cases hp : m.enc.length ≤ p + 1
      · -- in a later message
        obtain ⟨q, hq⟩ := Nat.exists_eq_add_of_le hp
        rw [hq, List.drop_append, List.drop_eq_nil_of_le (by omega), List.nil_append, Nat.add_sub_cancel_left, ih]
        constructor
        · exact fun h => .inr ⟨q, h, Nat.add_comm ..⟩
        · rintro (⟨-, h⟩ | ⟨q', hq', h⟩)
          · omega
          · rwa [show q = q' by omega]
      · -- inside this message there is no opening bracket
        obtain ⟨c, hc, -⟩ := command_open
        refine iff_of_false (fun h => ?_) ?_
        · have hlt : p < u.length := by rw [hu, List.length_cons] at hp; omega
          rw [List.drop_append_of_le_length (by omega), hu, List.drop_succ_cons, List.drop_eq_getElem_cons hlt, hc,
            List.cons_append, List.cons_prefix_cons] at h
          exact hu91 (h.1 ▸ List.getElem_mem hlt)
        · rintro (⟨-, h⟩ | ⟨q, -, h⟩) <;> omega

/-! ## Reads -/

/-- A text in a piece of a list. -/
theorem infix_piece {α : Type*} {pat a r b : List α} : pat <:+: r ↔
    ∃ p, a.length ≤ p ∧ p + pat.length ≤ (a ++ r).length ∧ pat <+: (a ++ (r ++ b)).drop p := by
  constructor
  · rintro ⟨u, v, rfl⟩
    refine ⟨(a ++ u).length, by simp, by simp; omega, ?_⟩
    have hsplit : a ++ (u ++ pat ++ v ++ b) = a ++ u ++ (pat ++ (v ++ b)) := by simp
    rw [hsplit, List.drop_left]
    exact List.prefix_append ..
  · rintro ⟨p, hle, hlen, hp⟩
    obtain ⟨q, rfl⟩ := Nat.exists_eq_add_of_le hle
    rw [List.length_append] at hlen
    rw [List.drop_length_add_append, List.drop_append_of_le_length (by omega)] at hp
    have hq : pat <+: r.drop q :=
      List.prefix_of_prefix_length_le hp (List.prefix_append ..) (by rw [List.length_drop]; omega)
    exact hq.isInfix.trans (List.drop_suffix q r).isInfix

/-- **A read makes a call** iff it holds the start of a message that starts with the command. -/
theorem trigger_iff {ms : List Relayed} {a r b : List Byte} (h : a ++ (r ++ b) = stream ms) :
    found r = true ↔ Holds ms a.length (a ++ r).length := by
  have hnul : ∀ c ∈ r, c ≠ 0 := by
    intro c hc
    have hin : c ∈ stream ms := by rw [← h]; simp [hc]
    obtain ⟨m, -, hm⟩ := List.mem_flatMap.1 hin
    exact enc_ne_zero hm
  rw [found, decide_eq_true_iff, strAt_nul [] hnul, infix_piece (a := a) (b := b), h]
  simp only [command_at]
  constructor
  · rintro ⟨p, hle, hlen, hp⟩
    exact ⟨p, hp, hle, hlen⟩
  · rintro ⟨p, hp, hle, hlen⟩
    exact ⟨p, hle, hlen, hp⟩

/-- What is received, and what is completed then. -/
theorem received_add (ms : List Relayed) {x y : Nat} (hxy : x ≤ y) :
    received ms y = received ms x + completed ms x y := by
  unfold received completed
  induction recos ms with
  | nil => rfl
  | cons o l ih =>
    simp only [List.countP_cons, ih, decide_eq_true_eq]
    split_ifs <;> omega

/-- The bytes of the first `k` reads. -/
def readTo (reads : List (List Byte)) (k : Nat) : Nat := (reads.take k).flatten.length

section Runs

variable {ms : List Relayed} {reads : List (List Byte)} {k : Nat} (hk : k < reads.length)

include hk

theorem readTo_succ : readTo reads (k + 1) = ((reads.take k).flatten ++ reads[k]).length := by
  rw [readTo, List.take_succ_eq_append_getElem hk, List.flatten_append, List.flatten_singleton]

theorem readTo_le : readTo reads k ≤ readTo reads (k + 1) := by
  rw [readTo_succ hk, List.length_append]
  exact Nat.le_add_right ..

/-- The read `k` in the stream. -/
theorem stream_split (h : reads.flatten <+: stream ms) :
    ∃ b, (reads.take k).flatten ++ (reads[k] ++ b) = stream ms := by
  obtain ⟨b, hb⟩ := h
  refine ⟨(reads.drop (k + 1)).flatten ++ b, ?_⟩
  have hall : (reads.take k).flatten ++ reads[k] ++ (reads.drop (k + 1)).flatten = reads.flatten := by
    rw [← List.flatten_concat, ← List.flatten_append, ← List.take_succ_eq_append_getElem hk, List.take_append_drop]
  rw [← hb, ← hall]
  simp only [List.append_assoc]

/-- One more read. -/
theorem recvMsg_succ (h : reads.flatten <+: stream ms) : recvMsg (reads.take (k + 1)) = recvMsg (reads.take k) ++
    List.replicate (if Holds ms (readTo reads k) (readTo reads (k + 1)) then 1 else 0) (bytes "START") := by
  obtain ⟨b, hb⟩ := stream_split hk h
  have hfound : found reads[k] = true ↔ Holds ms (readTo reads k) (readTo reads (k + 1)) := by
    rw [readTo_succ hk]
    exact trigger_iff hb
  rw [List.take_succ_eq_append_getElem hk, recvMsg, List.flatMap_append, List.flatMap_singleton]
  refine congrArg _ ?_
  by_cases hc : found reads[k] = true
  · rw [if_pos hc, if_pos (hfound.1 hc)]
    rfl
  · rw [if_neg hc, if_neg fun hh => hc (hfound.2 hh)]
    rfl

end Runs

/-- **Triggers over reads.** At any time there have been as many calls as commands `[KJD_QT]RECO` received, and all with
`START`, iff each read that holds the start of a command completes one, and each other read completes none. -/
theorem triggers_iff {ms : List Relayed} {reads : List (List Byte)} (h : reads.flatten <+: stream ms) :
    (∀ k, recvMsg (reads.take k) = List.replicate (received ms (readTo reads k)) (bytes "START")) ↔
      ∀ k < reads.length, Single ms (readTo reads k) (readTo reads (k + 1)) := by
  constructor
  · intro hcalls k hk
    have hlen := congrArg List.length (hcalls (k + 1))
    rw [recvMsg_succ hk h, hcalls k, received_add ms (readTo_le hk)] at hlen
    simp only [List.length_append, List.length_replicate, Nat.add_left_cancel_iff] at hlen
    exact hlen.symm
  · intro hsingle k
    induction k with
    | zero =>
      have hpos : 0 < command.length := by decide
      have hnone : received ms 0 = 0 := List.countP_eq_zero.2 fun o _ => by
        rw [decide_eq_true_eq]
        omega
      rw [readTo, List.take_zero, List.flatten_nil, List.length_nil, hnone]
      rfl
    | succ k ih =>
      by_cases hk : k < reads.length
      · rw [recvMsg_succ hk h, ih, received_add ms (readTo_le hk), hsingle k hk, List.replicate_add]
      · rw [readTo, List.take_of_length_le (show reads.length ≤ k + 1 by omega), ← List.take_of_length_le (not_lt.1 hk)]
        exact ih

/-- The message that asks for a recommendation. -/
def reco : Relayed := ⟨bytes "KJD_QT", bytes "RECO", List.all_iff_forall_prop.1 (by decide)⟩

/-- A message of another client. -/
def motor : Relayed := ⟨bytes "KJD_STM", bytes "MOTOR@3", List.all_iff_forall_prop.1 (by decide)⟩

/-- A command without its line feed, and the line feed with another command. -/
def twoReads : List (List Byte) := [bytes "[KJD_STM]MOTOR@3\n[KJD_QT]RECO", bytes "\n[KJD_QT]RECO\n"]

theorem triggers_two : recvMsg twoReads = [bytes "START", bytes "START"] := by
  have hsingle : ∀ k < twoReads.length, Single [motor, reco, reco] (readTo twoReads k) (readTo twoReads (k + 1)) := by
    intro k hk
    match k, hk with
    | 0, _ => unfold Single; decide +kernel
    | 1, _ => unfold Single; decide +kernel
  have hcalls := (triggers_iff ⟨[], by decide +kernel⟩).2 hsingle 2
  have htwo : received [motor, reco, reco] (readTo twoReads 2) = 2 := by decide +kernel
  rw [htwo] at hcalls
  exact hcalls

/-- A command in two reads is not seen. -/
theorem command_cut : ¬ ∀ (ms : List Relayed) (reads : List (List Byte)), reads.flatten = stream ms →
    (∀ r ∈ reads, 1 ≤ r.length ∧ r.length ≤ 120) →
      recvMsg reads = List.replicate (received ms (stream ms).length) (bytes "START") := by
  intro h
  have hcut := h [reco] [bytes "[KJD_QT]RE", bytes "CO\n"] (by decide +kernel) (by decide)
  revert hcut
  decide +kernel

end PetVending.Jetson
