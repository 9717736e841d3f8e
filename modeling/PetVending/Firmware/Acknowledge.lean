import PetVending.Firmware.Command

/-!
# What `bluetooth_Event` does with a line

- `Answerable`: the lines whose tokens `bluetooth_Event` has set before it uses them, and whose echo fits into
  `sendBuf`;
- **`bluetoothEvent_safe_iff`**: these are the lines it survives;
- `handle`: the handler with `msgQueue`. Neither the range check nor a full queue keeps it from sending the echo;
- **`acknowledged_iff`**: so the echo of a line of three tokens says that its number was queued iff the line is no motor
  command, or a number of a motor that finds room.
-/

namespace PetVending.Firmware

open CStr

/-! ## Tokens -/

/-- The echo of the first three tokens fits into `sendBuf`, with its terminator. -/
theorem echo_fits_iff (t cmd arg : List Byte) :
    (echo t cmd arg).length < cmdSize ↔ t.length + cmd.length + arg.length ≤ 45 := by
  simp only [echo, cmdSize, List.length_append, List.length_cons, List.length_nil]
  omega

/-- There is a second token, and behind a second token `MOTOR` a third, with which the echo fits. -/
def Answerable : List (List Byte) → Prop
  | t :: cmd :: arg :: _ => cmd = bytes "MOTOR" → t.length + cmd.length + arg.length ≤ 45
  | [_, cmd] => cmd ≠ bytes "MOTOR"
  | _ => False

section Tokens

variable {btData t cmd arg : List Byte} {rest : List (List Byte)}

theorem splitCmd_three (h : tokens isDelim (strAt btData 0) = t :: cmd :: arg :: rest) :
    ∃ r, splitCmd btData = some t :: some cmd :: some arg :: r := by
  rw [splitCmd_eq, h]
  exact ⟨_, rfl⟩

/-- A line that is no command is not answered. -/
theorem bluetoothEvent_other (h : tokens isDelim (strAt btData 0) = t :: cmd :: rest) (hcmd : cmd ≠ bytes "MOTOR") :
    bluetoothEvent btData = .ok ⟨none, none⟩ := by
  have hsplit : ∃ a r, splitCmd btData = some t :: some cmd :: a :: r := by
    rw [splitCmd_eq, h]
    cases rest with
    | nil => exact ⟨_, _, rfl⟩
    | cons arg rest => exact ⟨_, _, rfl⟩
  obtain ⟨a, r, hsplit⟩ := hsplit
  simp only [bluetoothEvent, hsplit, hcmd, if_false]

/-- A command without a number. -/
theorem bluetoothEvent_two (h : tokens isDelim (strAt btData 0) = [t, bytes "MOTOR"]) :
    bluetoothEvent btData = .error .nullToken := by
  have hsplit : ∃ r, splitCmd btData = some t :: some (bytes "MOTOR") :: none :: r := by
    rw [splitCmd_eq, h]
    exact ⟨_, rfl⟩
  obtain ⟨r, hsplit⟩ := hsplit
  simp only [bluetoothEvent, hsplit, if_true]

/-- A line of less than two tokens: the second one is not set. -/
theorem bluetoothEvent_few (h : (tokens isDelim (strAt btData 0)).length < 2) :
    bluetoothEvent btData = .error .nullToken := by
  match htoks : tokens isDelim (strAt btData 0) with
  | [] | [_] => rw [bluetoothEvent, splitCmd_eq, htoks]; rfl
  | _ :: _ :: _ => rw [htoks, List.length_cons, List.length_cons] at h; omega

/-- A command whose echo does not fit. -/
theorem bluetoothEvent_long (h : tokens isDelim (strAt btData 0) = t :: bytes "MOTOR" :: arg :: rest)
    (hlong : ¬ t.length + (bytes "MOTOR").length + arg.length ≤ 45) : bluetoothEvent btData = .error .sendStore := by
  obtain ⟨r, hsplit⟩ := splitCmd_three h
  simp only [bluetoothEvent, hsplit, if_true, echo_fits_iff, hlong, if_false]

end Tokens

/-- **`bluetooth_Event` uses tokens of this line only, and writes its echo into `sendBuf`**, iff the line has two
tokens, and as a command for a motor three that are short enough. -/
theorem bluetoothEvent_safe_iff (btData : List Byte) :
    (∃ e, bluetoothEvent btData = .ok e) ↔ Answerable (tokens isDelim (strAt btData 0)) := by
  match htoks : tokens isDelim (strAt btData 0) with
  | [] | [_] =>
    rw [bluetoothEvent_few (by rw [htoks]; simp)]
    simp [Answerable]
  | [t, cmd] =>
    by_cases hcmd : cmd = bytes "MOTOR"
    · subst hcmd
      rw [bluetoothEvent_two htoks]
      simp [Answerable]
    · rw [bluetoothEvent_other htoks hcmd]
      simp [Answerable, hcmd]
  | t :: cmd :: arg :: rest =>
    by_cases hcmd : cmd = bytes "MOTOR"
    · subst hcmd
      by_cases hlen : t.length + (bytes "MOTOR").length + arg.length ≤ 45
      · obtain ⟨r, hsplit⟩ := splitCmd_three htoks
        rw [bluetoothEvent_motor hsplit ((echo_fits_iff ..).2 hlen)]
        simp [Answerable, hlen]
      · rw [bluetoothEvent_long htoks hlen]
        simp [Answerable, hlen]
    · rw [bluetoothEvent_other htoks hcmd]
      simp [Answerable, hcmd]

/-- The empty line between CR and LF: `strcmp` gets NULL. -/
theorem empty_line_faults : ¬ ∀ btData : List Byte, btData.length = cmdSize → 0 ∈ btData →
    ∃ e, bluetoothEvent btData = .ok e := by
  intro h
  obtain ⟨e, he⟩ := h (List.replicate cmdSize 0) (by decide) (by decide)
  have herr : bluetoothEvent (List.replicate cmdSize 0) = .error .nullToken := by decide
  rw [herr] at he
  cases he

/-! ## The queue -/

/-- `bluetooth_Event` with `msgQueue`. -/
def handle (s : Machine) (btData : List Byte) : Except CmdFault (Machine × Event) :=
  (bluetoothEvent btData).map fun e => ((e.motorNumber.bind fun m => step s (.put m)).getD s, e)

/-- The number of the line was put into `msgQueue`. -/
def Queued (s u : Machine) (arg : List Byte) : Prop :=
  ∃ n : Nat, (n : Int) = atoi 32 arg ∧ u.msgQueue = s.msgQueue ++ [n]

/-- What `osMessagePut` does to the queue. -/
theorem put_msgQueue (s : Machine) {n : Nat} (hn : 1 ≤ n ∧ n ≤ numPins) : ∃ u, step s (.put n) = some u ∧
    u.msgQueue = if s.msgQueue.length < queueSize then s.msgQueue ++ [n] else s.msgQueue := by
  simp only [step]
  by_cases hq : s.msgQueue.length < queueSize
  · rw [if_pos ⟨by omega, by omega, hq⟩, if_pos hq]
    exact ⟨_, rfl, rfl⟩
  · rw [if_neg fun h => hq h.2.2, if_neg hq]
    exact ⟨s, rfl, rfl⟩

theorem not_queued_self {s u : Machine} (h : u.msgQueue = s.msgQueue) (arg : List Byte) : ¬ Queued s u arg := by
  rintro ⟨n, -, hn⟩
  rw [h] at hn
  simp at hn

/-- A command whose echo fits: it is echoed, and queued if it names a motor and there is room. -/
theorem handle_motor {s : Machine} {btData t arg : List Byte} {rest : List (List Byte)}
    (h : tokens isDelim (strAt btData 0) = t :: bytes "MOTOR" :: arg :: rest)
    (hlen : t.length + (bytes "MOTOR").length + arg.length ≤ 45) :
    ∃ u e, handle s btData = .ok (u, e) ∧ e.reply = some (echo t (bytes "MOTOR") arg) ∧
      (Queued s u arg ↔ (1 ≤ atoi 32 arg ∧ atoi 32 arg ≤ numPins) ∧ s.msgQueue.length < queueSize) := by
  obtain ⟨r, hsplit⟩ := splitCmd_three h
  have hev := bluetoothEvent_motor hsplit ((echo_fits_iff ..).2 hlen)
  rw [handle, hev]
  by_cases hrange : 1 ≤ atoi 32 arg ∧ atoi 32 arg ≤ numPins
  · obtain ⟨n, hn⟩ := Int.eq_ofNat_of_zero_le (Int.le_of_lt hrange.1)
    obtain ⟨u, hu, hq⟩ := put_msgQueue s (n := n) (by rw [hn] at hrange; omega)
    have hnum : inRange (atoi 32 arg) = some n := by rw [inRange, if_pos hrange, hn]; rfl
    refine ⟨u, ⟨some n, some (echo t (bytes "MOTOR") arg)⟩, ?_, rfl, ?_⟩
    · simp only [Except.map, hnum, Option.bind_some, hu, Option.getD_some]
    by_cases hroom : s.msgQueue.length < queueSize
    · rw [if_pos hroom] at hq
      exact iff_of_true ⟨n, hn.symm, hq⟩ ⟨hrange, hroom⟩
    · rw [if_neg hroom] at hq
      exact iff_of_false (not_queued_self hq arg) fun h => hroom h.2
  · have hnum : inRange (atoi 32 arg) = none := if_neg hrange
    refine ⟨s, ⟨none, some (echo t (bytes "MOTOR") arg)⟩, ?_, rfl, ?_⟩
    · simp only [Except.map, hnum, Option.bind_none, Option.getD_none]
    · exact iff_of_false (not_queued_self rfl arg) fun h => hrange h.1

/-- **The acknowledgement of a line of three tokens.** It is echoed iff it is a command for a motor whose number this
call put into the queue: that is so iff it is no such command, or its number is one of a motor, the queue has room and
the echo fits. -/
theorem acknowledged_iff {s : Machine} {btData t cmd arg : List Byte} {rest : List (List Byte)}
    (h : tokens isDelim (strAt btData 0) = t :: cmd :: arg :: rest) :
    (∃ u e, handle s btData = .ok (u, e) ∧
      (e.reply = some (echo t cmd arg) ↔ cmd = bytes "MOTOR" ∧ Queued s u arg)) ↔
    (cmd = bytes "MOTOR" → (1 ≤ atoi 32 arg ∧ atoi 32 arg ≤ numPins) ∧ s.msgQueue.length < queueSize ∧
      t.length + cmd.length + arg.length ≤ 45) := by
  by_cases hcmd : cmd = bytes "MOTOR"
  · subst hcmd
    simp only [true_and, forall_const]
    by_cases hlen : t.length + (bytes "MOTOR").length + arg.length ≤ 45
    · obtain ⟨u, e, hu, hr, hq⟩ := handle_motor (s := s) h hlen
      constructor
      · rintro ⟨u', e', hu', hiff⟩
        rw [hu] at hu'
        cases hu'
        obtain ⟨hrange, hroom⟩ := hq.1 (hiff.1 hr)
        exact ⟨hrange, hroom, hlen⟩
      · rintro ⟨hrange, hroom, -⟩
        exact ⟨u, e, hu, iff_of_true hr (hq.2 ⟨hrange, hroom⟩)⟩
    · refine iff_of_false ?_ fun hp => hlen hp.2.2
      rintro ⟨u, e, hu, -⟩
      rw [handle, bluetoothEvent_long h hlen] at hu
      cases hu
  · refine iff_of_true ⟨s, ⟨none, none⟩, ?_, iff_of_false (by simp) fun hp => hcmd hp.1⟩ fun hp => absurd hp hcmd
    rw [handle, bluetoothEvent_other h hcmd]
    rfl

/-- The line `[KJD_QT]MOTOR@3`. -/
def motor3 : List Byte := bytes "[KJD_QT]MOTOR@3" ++ List.replicate 35 0

theorem motor3_acknowledged : (tokens isDelim (strAt motor3 0) = [bytes "KJD_QT", bytes "MOTOR", bytes "3"]) ∧
    ∃ u e, handle machineStart motor3 = .ok (u, e) ∧
      (e.reply = some (echo (bytes "KJD_QT") (bytes "MOTOR") (bytes "3")) ↔
        bytes "MOTOR" = bytes "MOTOR" ∧ Queued machineStart u (bytes "3")) := by
  have h : tokens isDelim (strAt motor3 0) = [bytes "KJD_QT", bytes "MOTOR", bytes "3"] := by decide +kernel
  exact ⟨h, (acknowledged_iff h).2 fun _ => ⟨by decide, by decide, by decide⟩⟩

/-- `MOTOR@7` is echoed, and no number is queued. -/
theorem motor7_echoed : ¬ ∀ (s : Machine) (btData t cmd arg : List Byte) (rest : List (List Byte)),
    tokens isDelim (strAt btData 0) = t :: cmd :: arg :: rest → ∃ u e, handle s btData = .ok (u, e) ∧
      (e.reply = some (echo t cmd arg) ↔ cmd = bytes "MOTOR" ∧ Queued s u arg) := by
  intro h
  have htoks : tokens isDelim (strAt (bytes "[KJD_QT]MOTOR@7" ++ List.replicate 35 0) 0) =
      [bytes "KJD_QT", bytes "MOTOR", bytes "7"] := by decide +kernel
  obtain ⟨u, e, hu, hiff⟩ := h machineStart _ _ _ _ _ htoks
  obtain ⟨u', e', hu', hr, hq⟩ := handle_motor (s := machineStart) htoks (by decide)
  rw [hu] at hu'
  cases hu'
  have hrange := (hq.1 (hiff.1 hr).2).1
  revert hrange
  decide

end PetVending.Firmware
