import PetVending.Firmware.Command
import PetVending.Kiosk.Socket
import PetVending.Sql.Reco
import PetVending.Wire.Message

/-!
# A message across all hops

`clnt_connection` turns the destination's tag into the sender's. Behind it three clients read the text with `strtok` or
`split`, each with delimiters of its own.

- `clntRead_enc`, `sendMsg_enc`: the server relays `[d]f1@...@fn` as `[s]f1@...@fn`, to the slots with the id `d`;
- `SqlGets`, `FirmwareGets`, `KioskGets`: what a client makes of a text;
- `round_trip`: all of them get the sender and the fields.
-/

namespace PetVending.Wire

open CStr Server Firmware

/-! ## The server -/

theorem serverDelim (c : Byte) (h : FieldByte c) : Server.isDelim c = false := by
  simp [Server.isDelim, h.ne 91 (by decide), h.ne 58 (by decide), h.ne 93 (by decide)]

/-- The destinations `send_msg` treats specially. -/
def special : List (List Byte) := [bytes "ALLMSG", bytes "IDLIST", bytes "GETTIME"]

/-- **The server puts the sender's tag in front of the fields.** -/
theorem clntRead_enc (m : Message) (s : Field) {ci : ClientInfo} (hci : ci.id = s.text) (signed : Bool)
    (pArray : List (Option Nat)) : ∃ pa, clntRead signed ci pArray m.enc =
      .ok (⟨charFd signed ci.fd, s.text, m.id.text, (m.sentBy s).enc⟩, pa) := by
  have htok : lineTokens m.enc = [m.id.text, m.body ++ [10]] := by
    rw [lineTokens, lineOf_eq fun c => Message.enc_ne_zero]
    exact Message.tokens_enc_pair (List.forall_iff_forall_mem.1 (by decide)) serverDelim (by decide) (by decide)
  obtain ⟨pa, h⟩ := clntRead_ok htok (by simp [htok, Server.arrCnt]) signed ci pArray
  refine ⟨pa, h.trans ?_⟩
  rw [hci, Message.enc_eq]
  rfl

/-- The slots that are online with the id `id`. -/
def slotsOf {n : Nat} (T : Fin n → ClientInfo) (id : List Byte) : List (Fin n) :=
  (List.finRange n).filter fun i => (T i).fd ≠ -1 ∧ id = (T i).id

theorem sendMsg_enc {n : Nat} (time : List Byte) (T : Fin n → ClientInfo) {m : MsgInfo} (hm : m.dest ∉ special) :
    sendMsg time T m = (slotsOf T m.dest).map fun i => ((T i).fd, m.msg) := by
  simp only [special, List.mem_cons, List.not_mem_nil, or_false, not_or] at hm
  rw [sendMsg, if_neg hm.1, if_neg hm.2.2, if_neg hm.2.1]
  rfl

theorem slotsOf_eq {n : Nat} {T : Fin n → ClientInfo} (hd : Distinct T) {i : Fin n} (hon : (T i).fd ≠ -1) :
    slotsOf T (T i).id = [i] := by
  have hfilter : ∀ j ∈ List.finRange n, decide ((T j).fd ≠ -1 ∧ (T i).id = (T j).id) = (j == i) := by
    intro j _
    rw [beq_eq_decide, decide_eq_decide]
    exact ⟨fun h => hd j i h.2.symm, by rintro rfl; exact ⟨hon, rfl⟩⟩
  rw [slotsOf, List.filter_congr hfilter, List.filter_beq, List.count_eq_one_of_mem (List.nodup_finRange n)
    (List.mem_finRange i)]
  rfl

/-! ## The clients -/

/-- The SQL client's loop over `"[:@]"` counts the strings of `l` and puts them into `pArray`. -/
def SqlGets (text : List Byte) (l : List (List Byte)) : Prop :=
  ∀ pArray, (Sql.tokenise pArray text).2.2 = l.length ∧ ∀ j t, l[j]? = some t →
    str (Sql.tokenise pArray text).1 (Sql.tokenise pArray text).2.1 j = .ok t

/-- The firmware, at the start of a line, handles the text as one line and puts the strings of `l` into `pArray`. -/
def FirmwareGets (text : List Byte) (l : List (List Byte)) : Prop :=
  ∀ rx : Rx, rx.i = 0 → ∃ t : Rx, t.i = 0 ∧
    rxBytes rx (Firmware.recvMsg text) = (bluetoothEvent t.btData).map (fun e => (t, [e])) ∧
    splitCmd t.btData = l.map some ++ List.replicate (Firmware.arrCnt - l.length) none

/-- The kiosk's `split` gives an empty part and the parts `l`. -/
def KioskGets (text : List Byte) (l : List Kiosk.QString) : Prop :=
  (Kiosk.replaceBrackets (Kiosk.fromUtf8 text).dropLast).splitOn 64 = [] :: l

theorem sqlDelim (c : Byte) (h : FieldByte c) : Sql.isDelim c = false := by
  simp [Sql.isDelim, h.ne 91 (by decide), h.ne 58 (by decide), h.ne 64 (by decide), h.ne 93 (by decide)]

theorem sqlGets_enc (m : Message) (hn : m.fields.length ≤ 9) (hfit : m.enc.length ≤ Sql.nameSize + Sql.bufSize) :
    SqlGets m.enc (m.id.text :: m.texts.modifyLast (· ++ [10])) := by
  have htok : tokens Sql.isDelim m.enc = m.id.text :: m.texts.modifyLast (· ++ [10]) :=
    Message.tokens_enc (List.forall_iff_forall_mem.1 (by decide)) sqlDelim (by decide)
  have hlen : (tokens Sql.isDelim m.enc).length ≤ Sql.arrCnt := by
    rw [htok, List.length_cons, length_modifyLast m.texts_ne, Message.texts, List.length_map]
    unfold Sql.arrCnt
    omega
  intro pArray
  obtain ⟨hcount, hget⟩ := Sql.tokenise_spec (fun c => Message.enc_ne_zero) hfit pArray
  rw [← htok]
  refine ⟨hcount.trans (min_eq_right hlen), fun j t hj => hget j t ?_ hj⟩
  have := (List.getElem?_eq_some_iff.1 hj).1
  omega

theorem firmwareDelim (c : Byte) (h : FieldByte c) : Firmware.isDelim c = false := by
  simp [Firmware.isDelim, h.ne 91 (by decide), h.ne 64 (by decide), h.ne 93 (by decide)]

theorem firmwareGets_enc (m : Message) (hn : m.fields.length ≤ 4) (hfit : m.line.length ≤ cmdSize - 1) :
    FirmwareGets m.enc (m.id.text :: m.texts) := by
  intro rx hi
  have hbridge : Firmware.recvMsg m.enc = m.line ++ [10] := by
    apply recvMsg_eq (fun c => Message.enc_ne_zero)
    rw [Message.enc, List.length_append, List.length_singleton]
    unfold cmdSize at hfit
    unfold Firmware.nameSize Firmware.bufSize
    omega
  obtain ⟨t, ht, hline, hrx⟩ := rx_line rx hi (fun c => Message.line_clean) hfit
  have htok : tokens Firmware.isDelim m.line = m.id.text :: m.texts :=
    Message.tokens_line (List.forall_iff_forall_mem.1 (by decide)) firmwareDelim
  refine ⟨t, ht, hbridge ▸ hrx, ?_⟩
  have hlen : (m.id.text :: m.texts).length ≤ Firmware.arrCnt := by
    rw [List.length_cons, Message.texts, List.length_map]
    unfold Firmware.arrCnt
    omega
  rw [splitCmd_eq, hline, htok, List.take_of_length_le hlen]

theorem kioskGets_enc (m : Message) : KioskGets m.enc (Kiosk.parts m) := by
  rw [KioskGets, Kiosk.replaceBrackets_enc, Kiosk.splitOn_recvData]

/-! ## All hops -/

/-- A client's id is stored in `char id[ID_SIZE]`, so what the server relays of a read is not much longer than the
read. -/
theorem sentBy_fits (m : Message) {s : Field} (hs : s.text.length < idSize) (hfit : m.enc.length ≤ Server.bufSize - 1) :
    (m.sentBy s).enc.length ≤ Sql.nameSize + Sql.bufSize := by
  have hlen := m.enc_length
  rw [Message.enc_length]
  show s.text.length + m.body.length + 3 ≤ _
  unfold idSize at hs
  unfold Server.bufSize at hfit
  unfold Sql.nameSize Sql.bufSize
  omega

/-- **The round trip.** A message of a client with the id `s`, in one read, is relayed with the tag of `s`, and every
client that reads it gets `s` and the fields: the SQL client with the line feed on the last one, the kiosk as UTF-16. -/
theorem round_trip (m : Message) (s : Field) (hs : s.text.length < idSize) (hd : m.id.text ∉ special)
    (hfit : m.enc.length ≤ Server.bufSize - 1) (ci : ClientInfo) (hci : ci.id = s.text) (signed : Bool)
    (pArray : List (Option Nat)) {n : Nat} (time : List Byte) (T : Fin n → ClientInfo) :
    (∃ msg pa, clntRead signed ci pArray m.enc = .ok (msg, pa) ∧ msg.dest = m.id.text ∧ msg.msg = (m.sentBy s).enc ∧
      sendMsg time T msg = (slotsOf T m.id.text).map fun i => ((T i).fd, (m.sentBy s).enc)) ∧
    (m.fields.length ≤ 9 → SqlGets (m.sentBy s).enc (s.text :: m.texts.modifyLast (· ++ [10]))) ∧
    (m.fields.length ≤ 4 → (m.sentBy s).line.length ≤ cmdSize - 1 → FirmwareGets (m.sentBy s).enc (s.text :: m.texts)) ∧
    KioskGets (m.sentBy s).enc ((s.text :: m.texts).map Kiosk.read) ∧
    ∀ ts : List (List Char), s.text :: m.texts = ts.map Utf8.utf8Text →
      (s.text :: m.texts).map Kiosk.read = ts.map Utf8.utf16Text := by
  obtain ⟨pa, hread⟩ := clntRead_enc m s hci signed pArray
  refine ⟨⟨_, pa, hread, rfl, rfl, sendMsg_enc time T hd⟩, fun hn => sqlGets_enc _ hn (sentBy_fits m hs hfit),
    fun hn hl => firmwareGets_enc _ hn hl, kioskGets_enc (m.sentBy s), fun ts hts => ?_⟩
  rw [hts, List.map_map]
  exact List.map_congr_left fun t _ => Utf8.decode_utf8Text t

/-- `[KJD_STM]MOTOR@7` -/
def motor7 : Message where
  id := kjdStm
  fields := [motorWord, .of (bytes "7") (by decide) (by decide)]
  ne := List.cons_ne_nil _ _

/-- A command of the kiosk. -/
theorem round_trip_motor : (motor7.sentBy kjdQt).enc = bytes "[KJD_QT]MOTOR@7\n" ∧
    FirmwareGets (motor7.sentBy kjdQt).enc [bytes "KJD_QT", bytes "MOTOR", bytes "7"] ∧
    SqlGets (motor7.sentBy kjdQt).enc [bytes "KJD_QT", bytes "MOTOR", bytes "7\n"] ∧
    KioskGets (motor7.sentBy kjdQt).enc [Kiosk.ascii "KJD_QT", Kiosk.ascii "MOTOR", Kiosk.ascii "7"] := by
  obtain ⟨-, hsql, hfirmware, hkiosk, -⟩ := round_trip motor7 kjdQt (by decide) (by decide) (by decide)
    (clientInfo₀ slotQt) (by decide) true [] [] clientInfo₀
  exact ⟨by decide, hfirmware (by decide) (by decide), hsql (by decide), hkiosk⟩

end PetVending.Wire
