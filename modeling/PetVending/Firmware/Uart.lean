import PetVending.Firmware.Command
import Mathlib.Data.List.ReduceOption

/-!
# The two receive branches of `HAL_UART_RxCpltCallback`

- `assemble`: the USART6 branch without what `bluetooth_Event` does (`rxCplt_eq`); `assembleAll` is what a stream of
  bytes makes of it;
- **`assembleAll_iff`**: the calls of `bluetooth_Event` see the lines of the stream iff no line has more than 49 bytes
  and the bytes behind the last line are at most 50;
- `rx2Cplt`: the USART2 branch. It looks for a line feed in `btData`, where there never is one (`NoEnd`), so it ends a
  line only at a carriage return (`usartBytes_done`);
- **`channels_agree_iff`**: so the branches agree on a stream iff it has no line feed, and the bytes on USART6 fit.

The interrupts of both channels have the same priority: a callback is not interrupted by the other one.
-/

namespace PetVending.Firmware

open CStr

/-! ## USART6 -/

/-- The USART6 branch: a byte is stored; the end of a line becomes the terminator, and gives the `btData` that
`bluetooth_Event` sees. -/
def assemble (s : Rx) (btchar : Byte) : Except CmdFault (Rx × Option (List Byte)) :=
  if s.i < cmdSize then
    if btchar = 10 ∨ btchar = 13 then .ok (s.store 0 0, some (s.store 0 0).btData)
    else .ok (s.store btchar (s.i + 1), none)
  else .error .rxStore

/-- The branch is the assembly of the line and the call of `bluetooth_Event`. -/
theorem rxCplt_eq (s : Rx) (c : Byte) : rxCplt s c = (assemble s c).bind fun r =>
    match r.2 with
    | none => .ok (r.1, none)
    | some btData => (bluetoothEvent btData).map fun e => (r.1, some e) := by
  unfold rxCplt assemble
  split
  · split
    · simp only [Except.bind]
      cases bluetoothEvent (s.store 0 0).btData <;> rfl
    · rfl
  · rfl

/-- A stream of bytes: for each byte, what `bluetooth_Event` sees if it is called. -/
def assembleAll : Rx → List Byte → Except CmdFault (Rx × List (Option (List Byte)))
  | s, [] => .ok (s, [])
  | s, c :: cs => do
    let r ← assemble s c
    let q ← assembleAll r.1 cs
    return (q.1, r.2 :: q.2)

theorem zeros_length : (List.replicate cmdSize (0 : Byte)).length = cmdSize := List.length_replicate

/-- The start: `btData` and `i` are zero. -/
def rx₀ : Rx := ⟨List.replicate cmdSize 0, 0, zeros_length⟩

/-- CR or LF. -/
def isEnd (c : Byte) : Bool := c = 10 || c = 13

/-- What stands between the ends of lines of a stream; the last one has no end yet. -/
def segments (bs : List Byte) : List (List Byte) := bs.splitOnP isEnd

/-- All lines leave room for their terminator, and the bytes behind the last line fit. -/
def Fits (segs : List (List Byte)) : Prop :=
  (∀ line ∈ segs.dropLast, line.length < cmdSize) ∧ ∀ rest ∈ segs.getLast?, rest.length ≤ cmdSize

/-- `btData` starts with the line and its terminator. -/
def Sees (btData line : List Byte) : Prop := btData.take (line.length + 1) = line ++ [0]

/-- The bytes `w` of the current line have been stored. -/
structure Holds (s : Rx) (w : List Byte) : Prop where
  index : s.i = w.length
  stored : s.btData.take s.i = w

theorem Holds.store {s : Rx} {w : List Byte} (h : Holds s w) (hlt : s.i < cmdSize) (c : Byte) (i : Nat) :
    (s.store c i).btData.take (w.length + 1) = w ++ [c] := by
  have hsz : s.i < s.btData.length := by rw [s.size]; exact hlt
  show (s.btData.set s.i c).take _ = _
  rw [← h.index, List.take_succ_eq_append_getElem (by rw [List.length_set]; exact hsz), List.take_set_of_le le_rfl,
    h.stored]
  simp

theorem Holds.empty {s : Rx} (h : s.i = 0) : Holds s [] := ⟨h, by rw [h]; rfl⟩

theorem fits_cons {line : List Byte} {segs : List (List Byte)} (h : segs ≠ []) :
    Fits (line :: segs) ↔ line.length < cmdSize ∧ Fits segs := by
  obtain ⟨seg, segs, rfl⟩ := List.exists_cons_of_ne_nil h
  simp [Fits, and_assoc]

theorem fits_singleton {rest : List Byte} : Fits [rest] ↔ rest.length ≤ cmdSize := by simp [Fits]

/-- The first segment is full, and its line goes on. -/
theorem not_fits {acc : List Byte} (h : acc.length = cmdSize) (c : Byte) (cs : List Byte) :
    ¬ Fits (List.splitOnPPrepend isEnd (c :: cs) acc) := by
  intro hfits
  cases hc : isEnd c with
  | true =>
    rw [List.splitOnPPrepend_cons_pos hc, fits_cons (List.splitOnP_ne_nil _ _), List.length_reverse] at hfits
    omega
  | false =>
    obtain ⟨seg, segs, hsegs⟩ := List.exists_cons_of_ne_nil (List.splitOnP_ne_nil isEnd cs)
    rw [List.splitOnPPrepend_cons_neg hc, List.splitOnPPrepend_eq_modifyHead, hsegs, List.modifyHead_cons] at hfits
    cases segs with
    | nil =>
      rw [fits_singleton, List.length_append, List.length_reverse, List.length_cons] at hfits
      omega
    | cons seg' segs =>
      rw [fits_cons (List.cons_ne_nil _ _), List.length_append, List.length_reverse, List.length_cons] at hfits
      omega

section Bytes

variable {s : Rx} {c : Byte}

theorem assemble_end (hlt : s.i < cmdSize) (hc : isEnd c = true) :
    assemble s c = .ok (s.store 0 0, some (s.store 0 0).btData) := by
  rw [assemble, if_pos hlt, if_pos (by simpa [isEnd] using hc)]

theorem assemble_char (hlt : s.i < cmdSize) (hc : isEnd c = false) :
    assemble s c = .ok (s.store c (s.i + 1), none) := by
  rw [assemble, if_pos hlt, if_neg (by simpa [isEnd] using hc)]

theorem assemble_full (h : ¬ s.i < cmdSize) : assemble s c = .error .rxStore := by rw [assemble, if_neg h]

theorem assembleAll_cons {t : Rx} {o : Option (List Byte)} (h : assemble s c = .ok (t, o)) (cs : List Byte) :
    assembleAll s (c :: cs) = (assembleAll t cs).map fun q => (q.1, o :: q.2) := by
  rw [assembleAll, h]
  show (assembleAll t cs).bind _ = _
  cases assembleAll t cs <;> rfl

end Bytes

/-- **The lines of a stream**, when the bytes `acc` (the last one first) of its first line have been stored. -/
theorem assembleAll_segments (bs : List Byte) : ∀ {s : Rx} {acc : List Byte}, Holds s acc.reverse →
    acc.length ≤ cmdSize →
    (Fits (List.splitOnPPrepend isEnd bs acc) → ∃ t r, assembleAll s bs = .ok (t, r) ∧
      List.Forall₂ Sees r.reduceOption (List.splitOnPPrepend isEnd bs acc).dropLast) ∧
    (¬ Fits (List.splitOnPPrepend isEnd bs acc) → assembleAll s bs = .error .rxStore) := by
  induction bs with
  | nil =>
    intro s acc h hle
    rw [List.splitOnPPrepend_nil, fits_singleton, List.length_reverse]
    exact ⟨fun _ => ⟨s, [], rfl, .nil⟩, fun hn => absurd hle hn⟩
  | cons c cs ih =>
    intro s acc h hle
    have hi := h.index
    rw [List.length_reverse] at hi
    by_cases hlt : s.i < cmdSize
    · cases hc : isEnd c with
      | true =>
        -- the line is complete
        obtain ⟨hok, herr⟩ := ih (show Holds (s.store 0 0) ([] : List Byte).reverse from .empty rfl) (Nat.zero_le _)
        rw [List.splitOnPPrepend_nil_right] at hok herr
        rw [List.splitOnPPrepend_cons_pos hc, fits_cons (List.splitOnP_ne_nil _ _), List.length_reverse, ← hi,
          List.dropLast_cons_of_ne_nil (List.splitOnP_ne_nil _ _), assembleAll_cons (assemble_end hlt hc)]
        refine ⟨fun ⟨_, hf⟩ => ?_, fun hn => ?_⟩
        · obtain ⟨t, r, hr, hsees⟩ := hok hf
          refine ⟨t, some (s.store 0 0).btData :: r, by rw [hr]; rfl, ?_⟩
          rw [List.reduceOption_cons_of_some]
          exact .cons (h.store hlt 0 0) hsees
        · rw [herr fun hf => hn ⟨hlt, hf⟩]
          rfl
      | false =>
        have hstore : Holds (s.store c (s.i + 1)) (c :: acc).reverse := by
          have hs := h.store hlt c (s.i + 1)
          rw [List.length_reverse, ← hi] at hs
          rw [List.reverse_cons]
          exact ⟨by rw [List.length_append, List.length_reverse, List.length_singleton, ← hi]; rfl, hs⟩
        obtain ⟨hok, herr⟩ := ih hstore (by rw [List.length_cons]; omega)
        rw [List.splitOnPPrepend_cons_neg hc, assembleAll_cons (assemble_char hlt hc)]
        refine ⟨fun hf => ?_, fun hn => ?_⟩
        · obtain ⟨t, r, hr, hsees⟩ := hok hf
          exact ⟨t, none :: r, by rw [hr]; rfl, hsees⟩
        · rw [herr hn]
          rfl
    · refine ⟨fun hf => absurd hf (not_fits (by omega) c cs), fun _ => ?_⟩
      rw [assembleAll, assemble_full hlt]
      rfl

/-- A stream from the start. -/
theorem assembleAll_start (bs : List Byte) :
    (Fits (segments bs) → ∃ t r, assembleAll rx₀ bs = .ok (t, r) ∧
      List.Forall₂ Sees r.reduceOption (segments bs).dropLast) ∧
    (¬ Fits (segments bs) → assembleAll rx₀ bs = .error .rxStore) :=
  assembleAll_segments bs (show Holds rx₀ ([] : List Byte).reverse from .empty rfl) (Nat.zero_le _)

/-- **The calls of `bluetooth_Event` see the lines of the stream**, and no byte is stored behind `btData`, iff every
line leaves room for its terminator and the bytes behind the last line fit. -/
theorem assembleAll_iff (bs : List Byte) :
    (∃ t r, assembleAll rx₀ bs = .ok (t, r) ∧ List.Forall₂ Sees r.reduceOption (segments bs).dropLast) ↔
      Fits (segments bs) := by
  obtain ⟨hok, herr⟩ := assembleAll_start bs
  refine ⟨fun ⟨t, r, hr, _⟩ => ?_, hok⟩
  by_contra hn
  rw [herr hn] at hr
  cases hr

/-- 51 bytes without an end of line: the last one is stored behind `btData`. -/
theorem long_line_overflows : ¬ ∀ bs : List Byte, ∃ t r, assembleAll rx₀ bs = .ok (t, r) ∧
    List.Forall₂ Sees r.reduceOption (segments bs).dropLast := by
  intro h
  obtain ⟨t, r, hr, -⟩ := h (List.replicate 51 65)
  have herr : (assembleAll rx₀ (List.replicate 51 65)).isOk = false := by decide +kernel
  rw [hr] at herr
  cases herr

/-- Both computations succeed. -/
theorem bind_ok {α β : Type} {x : Except CmdFault α} {f : α → Except CmdFault β} {b : β} (h : x >>= f = .ok b) :
    ∃ a, x = .ok a ∧ f a = .ok b := by
  cases x with
  | error e => cases h
  | ok a => exact ⟨a, rfl, h⟩

/-- The first byte of a stream, and the rest. -/
theorem assembleAll_ok {s t : Rx} {c : Byte} {cs : List Byte} {r : List (Option (List Byte))}
    (h : assembleAll s (c :: cs) = .ok (t, r)) :
    ∃ u o q, assemble s c = .ok (u, o) ∧ assembleAll u cs = .ok (t, q) ∧ r = o :: q := by
  obtain ⟨⟨u, o⟩, hu, h⟩ := bind_ok h
  obtain ⟨⟨v, q⟩, hq, h⟩ := bind_ok h
  cases h
  exact ⟨u, o, q, hu, hq, rfl⟩

/-- `bluetooth_Event` is called at the ends of lines. -/
theorem assemble_isSome {s t : Rx} {c : Byte} {o : Option (List Byte)} (h : assemble s c = .ok (t, o)) :
    o.isSome = isEnd c := by
  by_cases hlt : s.i < cmdSize
  · cases hc : isEnd c with
    | true =>
      rw [assemble_end hlt hc] at h
      cases h
      rfl
    | false =>
      rw [assemble_char hlt hc] at h
      cases h
      rfl
  · rw [assemble_full hlt] at h
    cases h

theorem assembleAll_isSome {bs : List Byte} : ∀ {s t : Rx} {r : List (Option (List Byte))},
    assembleAll s bs = .ok (t, r) → r.map Option.isSome = bs.map isEnd := by
  induction bs with
  | nil => intro s t r h; cases h; rfl
  | cons c cs ih =>
    intro s t r h
    obtain ⟨u, o, q, hu, hq, rfl⟩ := assembleAll_ok h
    rw [List.map_cons, List.map_cons, assemble_isSome hu, ih hq]

/-! ## USART2 -/

/-- `rx2Data`, the static index `i` of the USART2 branch, and `rx2Flag`. -/
structure Rx2 where
  rx2Data : List Byte
  i : Nat
  rx2Flag : Bool
  size : rx2Data.length = cmdSize

/-- `rx2Data[i] = c` -/
def Rx2.store (s : Rx2) (c : Byte) (i : Nat) (flag : Bool) : Rx2 :=
  ⟨s.rx2Data.set s.i c, i, flag, by rw [List.length_set]; exact s.size⟩

/-- The USART2 branch: it tests `rx2Data[i]` for CR, and `btData[i]` for LF. -/
def rx2Cplt (btData : List Byte) (s : Rx2) (rx2char : Byte) : Except CmdFault (Rx2 × Option (List Byte)) :=
  if s.i < cmdSize then
    if rx2char = 13 ∨ btData[s.i]? = some 10 then
      .ok (s.store 0 0 true, some (s.store 0 0 true).rx2Data)
    else .ok (s.store rx2char (s.i + 1) s.rx2Flag, none)
  else .error .rxStore

/-- A byte arrives on one of the channels. -/
inductive Received
  | usart2 (rx2char : Byte)
  | usart6 (btchar : Byte)

/-- The bytes of USART2. -/
def stream2 (evs : List Received) : List Byte :=
  evs.filterMap fun e => match e with | .usart2 c => some c | .usart6 _ => none

/-- The bytes of USART6. -/
def stream6 (evs : List Received) : List Byte :=
  evs.filterMap fun e => match e with | .usart2 _ => none | .usart6 c => some c

/-- Bytes arrive on both channels: for each byte of USART2, the line if it ends one. -/
def usartBytes : Rx2 → Rx → List Received → Except CmdFault ((Rx2 × Rx) × List (Option (List Byte)))
  | s, s', [] => .ok ((s, s'), [])
  | s, s', .usart2 c :: evs => do
    let r ← rx2Cplt s'.btData s c
    let q ← usartBytes r.1 s' evs
    return (q.1, r.2 :: q.2)
  | s, s', .usart6 c :: evs => do
    let r ← assemble s' c
    usartBytes s r.1 evs

/-- The start: `rx2Data`, `i` and `rx2Flag` are zero. -/
def rx2₀ : Rx2 := ⟨List.replicate cmdSize 0, 0, false, zeros_length⟩

/-- `rx2Data` and `i` as the USART6 branch would have them. -/
def Rx2.toRx (s : Rx2) : Rx := ⟨s.rx2Data, s.i, s.size⟩

/-- Between two callbacks `btData` holds no end of a line. -/
def NoEnd (s : Rx) : Prop := ∀ c ∈ s.btData, isEnd c = false

theorem noEnd₀ : NoEnd rx₀ := by
  intro c hc
  rw [List.eq_of_mem_replicate hc]
  rfl

theorem NoEnd.store {s : Rx} (h : NoEnd s) {c : Byte} (hc : isEnd c = false) (i : Nat) : NoEnd (s.store c i) := by
  intro x hx
  rcases List.mem_or_eq_of_mem_set hx with hx | rfl
  · exact h x hx
  · exact hc

/-- An end of a line is overwritten by the terminator. -/
theorem assemble_noEnd {s t : Rx} {c : Byte} {o : Option (List Byte)} (hs : NoEnd s) (h : assemble s c = .ok (t, o)) :
    NoEnd t := by
  by_cases hlt : s.i < cmdSize
  · cases hc : isEnd c with
    | true =>
      rw [assemble_end hlt hc] at h
      cases h
      exact hs.store rfl 0
    | false =>
      rw [assemble_char hlt hc] at h
      cases h
      exact hs.store hc _
  · rw [assemble_full hlt] at h
    cases h

/-- So the USART2 branch sees no LF, and ends a line at CR only. -/
theorem rx2Cplt_eq {s' : Rx} (hs : NoEnd s') (s : Rx2) (c : Byte) : rx2Cplt s'.btData s c =
    if s.i < cmdSize then
      if c = 13 then .ok (s.store 0 0 true, some (s.store 0 0 true).rx2Data)
      else .ok (s.store c (s.i + 1) s.rx2Flag, none)
    else .error .rxStore := by
  have hlf : ¬ s'.btData[s.i]? = some 10 := fun h => by cases hs 10 (List.mem_of_getElem? h)
  unfold rx2Cplt
  simp only [hlf, or_false]

theorem stream2_usart2 (c : Byte) (evs : List Received) : stream2 (.usart2 c :: evs) = c :: stream2 evs := rfl

/-- What both channels do when bytes arrive: USART6 is not disturbed, and USART2 ends its lines at CR. -/
theorem usartBytes_done {evs : List Received} : ∀ {s t : Rx2} {s' t' : Rx} {r : List (Option (List Byte))}, NoEnd s' →
    usartBytes s s' evs = .ok ((t, t'), r) →
    (∃ q, assembleAll s' (stream6 evs) = .ok (t', q)) ∧ r.map Option.isSome = (stream2 evs).map (· == 13) ∧
      t.rx2Flag = (s.rx2Flag || r.any Option.isSome) := by
  induction evs with
  | nil => intro s t s' t' r _ h; cases h; exact ⟨⟨[], rfl⟩, rfl, by simp⟩
  | cons e evs ih =>
    intro s t s' t' r hs h
    cases e with
    | usart2 c =>
      obtain ⟨⟨u, o⟩, hu, h⟩ := bind_ok h
      obtain ⟨⟨v, q⟩, hq, h⟩ := bind_ok h
      cases h
      obtain ⟨h6, h2, hflag⟩ := ih hs hq
      obtain ⟨ho, hf⟩ : o.isSome = (c == 13) ∧ u.rx2Flag = (s.rx2Flag || o.isSome) := by
        rw [rx2Cplt_eq hs] at hu
        split at hu
        · split at hu <;> cases hu <;> simp [Rx2.store, *]
        · cases hu
      refine ⟨h6, ?_, ?_⟩
      · rw [stream2_usart2, List.map_cons, List.map_cons, ho, h2]
      · rw [hflag, hf, List.any_cons, Bool.or_assoc]
    | usart6 c =>
      obtain ⟨⟨u, o⟩, hu, h⟩ := bind_ok h
      obtain ⟨⟨q, hq⟩, h2, hflag⟩ := ih (assemble_noEnd hs hu) h
      refine ⟨⟨o :: q, ?_⟩, h2, hflag⟩
      show assembleAll s' (c :: stream6 evs) = _
      rw [assembleAll_cons hu, hq]
      rfl

/-- On a stream without LF the USART2 branch does what the USART6 branch would do. -/
theorem usartBytes_assembleAll {evs : List Received} : ∀ {s : Rx2} {s' t t' : Rx} {r q : List (Option (List Byte))},
    NoEnd s' → (∀ c ∈ stream2 evs, c ≠ 10) → assembleAll s' (stream6 evs) = .ok (t', q) →
    assembleAll s.toRx (stream2 evs) = .ok (t, r) → ∃ u, usartBytes s s' evs = .ok ((u, t'), r) ∧ u.toRx = t := by
  induction evs with
  | nil => intro s s' t t' r q _ _ h6 h2; cases h6; cases h2; exact ⟨s, rfl, rfl⟩
  | cons e evs ih =>
    intro s s' t t' r q hs hlf h6 h2
    cases e with
    | usart2 c =>
      obtain ⟨hc, hlf⟩ := List.forall_mem_cons.1 hlf
      obtain ⟨u, o, r, hu, hr, rfl⟩ := assembleAll_ok h2
      have hstep : ∃ v, rx2Cplt s'.btData s c = .ok (v, o) ∧ v.toRx = u := by
        rw [rx2Cplt_eq hs]
        simp only [assemble, hc, false_or] at hu
        change (if s.i < cmdSize then _ else _) = _ at hu
        split at hu
        · rw [if_pos ‹_›]
          split at hu
          · rw [if_pos ‹_›]
            cases hu
            exact ⟨_, rfl, rfl⟩
          · rw [if_neg ‹_›]
            cases hu
            exact ⟨_, rfl, rfl⟩
        · cases hu
      obtain ⟨v, hv, rfl⟩ := hstep
      obtain ⟨w, hw, hwt⟩ := ih hs hlf h6 hr
      exact ⟨w, by rw [usartBytes, hv]; show (usartBytes _ _ _ >>= _) = _; rw [hw]; rfl, hwt⟩
    | usart6 c =>
      obtain ⟨u, o, q, hu, hq, rfl⟩ := assembleAll_ok h6
      obtain ⟨w, hw, hwt⟩ := ih (assemble_noEnd hs hu) hlf hq h2
      exact ⟨w, by rw [usartBytes, hu]; exact hw, hwt⟩

/-- The USART2 branch does with its bytes what the USART6 branch would do: it ends the same lines, at every CR and LF,
leaves the same array and index, and sets its flag. -/
def Agree (evs : List Received) : Prop :=
  ∃ u t' t r, usartBytes rx2₀ rx₀ evs = .ok ((u, t'), r) ∧ assembleAll rx₀ (stream2 evs) = .ok (t, r) ∧
    r.map Option.isSome = (stream2 evs).map isEnd ∧ u.toRx = t ∧ u.rx2Flag = r.any Option.isSome

/-- **One line discipline.** For a USART2 stream whose lines fit, the branches agree iff it has no line feed and the
bytes on USART6 fit into `btData`. -/
theorem channels_agree_iff {evs : List Received} (h : ∀ line ∈ segments (stream2 evs), line.length < cmdSize) :
    Agree evs ↔ (∀ c ∈ stream2 evs, c ≠ 10) ∧ Fits (segments (stream6 evs)) := by
  obtain ⟨hok6, herr6⟩ := assembleAll_start (stream6 evs)
  constructor
  · rintro ⟨u, t', t, r, hrun, -, hends, -, -⟩
    obtain ⟨⟨q, h6⟩, h13, -⟩ := usartBytes_done noEnd₀ hrun
    rw [hends, List.map_inj_left] at h13
    refine ⟨?_, ?_⟩
    · rintro c hc rfl
      cases h13 10 hc
    · by_contra hn
      rw [herr6 hn] at h6
      cases h6
  · rintro ⟨hlf, hfits⟩
    obtain ⟨t', q, h6, -⟩ := hok6 hfits
    have hfits2 : Fits (segments (stream2 evs)) :=
      ⟨fun line hl => h line (List.mem_of_mem_dropLast hl), fun rest hr => (h rest (List.mem_of_getLast? hr)).le⟩
    obtain ⟨t, r, h2, -⟩ := (assembleAll_start (stream2 evs)).1 hfits2
    obtain ⟨u, hrun, hu⟩ := usartBytes_assembleAll (s := rx2₀) noEnd₀ hlf h6 h2
    refine ⟨u, t', t, r, hrun, h2, assembleAll_isSome h2, hu, ?_⟩
    obtain ⟨-, -, hflag⟩ := usartBytes_done noEnd₀ hrun
    rw [hflag]
    rfl

/-- A line with CR on USART2, while USART6 receives another one. -/
theorem channels_agree_cr : (∀ line ∈ segments (stream2 [.usart2 65, .usart6 66, .usart2 13, .usart6 10, .usart2 67]),
      line.length < cmdSize) ∧ Agree [.usart2 65, .usart6 66, .usart2 13, .usart6 10, .usart2 67] := by
  have h : ∀ line ∈ segments (stream2 [.usart2 65, .usart6 66, .usart2 13, .usart6 10, .usart2 67]),
      line.length < cmdSize := by decide +kernel
  exact ⟨h, (channels_agree_iff h).2 ⟨by decide +kernel, by decide +kernel, by decide +kernel⟩⟩

/-- A line feed on USART2 ends no line. -/
theorem line_feed_missed : ¬ ∀ evs : List Received, (∀ line ∈ segments (stream2 evs), line.length < cmdSize) →
    Agree evs := by
  intro h
  obtain ⟨u, t', t, r, hrun, -, hends, -, -⟩ := h [.usart2 65, .usart2 10] (by decide +kernel)
  obtain ⟨-, h13, -⟩ := usartBytes_done noEnd₀ hrun
  rw [hends] at h13
  revert h13
  decide

end PetVending.Firmware
