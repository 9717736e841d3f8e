import PetVending.Lib.Utf8
import PetVending.Wire.Message

/-!
# Reception at the kiosk: `SocketClient` and `Tab2SockeClient`

`slotSocketSendData` puts a line feed behind every text, but `slotSocketReadData` looks for none: it hands on whatever
has become available as one text. `socketRecvUpdateSlot` chops off the last character and dispatches on the third part.

- `readyRead`, `receive`: notifications with their newly available bytes, `pending` keeps what was not read;
- `fromUtf8_enc`, `splitOn_recvData`: a message is split into an empty part, its id and its fields;
- `reception`: notifications of at most `BLOCK_SIZE` bytes are read completely, one text each, and a message in a
  notification of its own is dispatched once, with its own fields. With two messages in one notification it is not
  (`joined_messages`); a backlog of more than `BLOCK_SIZE` bytes is never read again (`receive_backlog`).
-/

namespace PetVending.Kiosk

open CStr Wire

/-! ## The slots -/

/-- `BLOCK_SIZE` -/
def blockSize : Nat := 1024

abbrev QString := List UInt16

/-- The text of a literal. -/
def ascii (s : String) : QString := s.toList.map fun c => c.toNat.toUInt16

/-- `QString::fromUtf8`, which drops a byte order mark. -/
def fromUtf8 (bs : List Byte) : QString :=
  Utf8.decode (if bs.take 3 = [0xEF, 0xBB, 0xBF] then bs.drop 3 else bs) 0

/-- `slotSocketSendData`, for a text of ASCII characters, which no local 8-bit encoding changes: the bytes written. -/
def slotSocketSendData (strSendData : String) : List Byte := if strSendData = "" then [] else bytes strSendData ++ [10]

/-- `tab3RecvDataSig` or `tab3RecvDataSig_db` -/
inductive Kind
  | breed
  | dbBreed
  deriving DecidableEq

/-- A signal with its argument. -/
structure Signal where
  kind : Kind
  recvData : QString

/-- `recvData.split("@")` -/
def Signal.qList (g : Signal) : List QString := g.recvData.splitOn 64

/-- `strRecvData.replace("[","@")` and the same for `"]"`. -/
def replaceBrackets (q : QString) : QString := q.map fun u => if u = 91 ∨ u = 93 then 64 else u

/-- The signals that `qList[2]` asks for. -/
def kinds (cmd : QString) : List Kind :=
  (if (ascii "BREED").isPrefixOf cmd then [.breed] else []) ++
    if (ascii "DB_BREED").isPrefixOf cmd then [.dbBreed] else []

/-- `socketRecvUpdateSlot`: its signals; `none` if there is no `qList[2]`. -/
def socketRecvUpdateSlot (strRecvData : QString) : Option (List Signal) :=
  let recvData := replaceBrackets strRecvData.dropLast
  (recvData.splitOn 64)[2]?.map fun cmd => (kinds cmd).map fun k => ⟨k, recvData⟩

/-- The bytes that are available but not read, and the signals so far. -/
structure Socket where
  pending : List Byte
  emitted : List Signal

/-- `slotSocketReadData`, when `chunk` has become available. -/
def readyRead (s : Socket) (chunk : List Byte) : Option Socket :=
  let available := s.pending ++ chunk
  if available.length > blockSize then some { s with pending := available }
  else (socketRecvUpdateSlot (fromUtf8 available)).map fun l => ⟨[], s.emitted ++ l⟩

/-- A sequence of notifications. -/
def receive : Socket → List (List Byte) → Option Socket
  | s, [] => some s
  | s, chunk :: chunks => (readyRead s chunk).bind fun t => receive t chunks

/-! ## One message -/

/-- What a text of bytes is to the kiosk. -/
def read : List Byte → QString := fun t => Utf8.decode t 0

/-- The parts of a message: its id and its fields. -/
def parts (m : Message) : List QString := (m.id.text :: m.texts).map read

/-- The text `[id]f1@...@fn` with its brackets replaced. -/
def recvData (m : Message) : QString := [64].intercalate ([] :: parts m)

/-- Brackets and `@` in what the kiosk reads come from such bytes. -/
theorem read_clean {t : List Byte} (h : ∀ c ∈ t, FieldByte c) {u : UInt16} (hu : u ∈ read t) :
    u ≠ 64 ∧ u ≠ 91 ∧ u ≠ 93 := by
  have hnot (k : Nat) (hk : k < 128) (hu : u.toNat = k) (hf : ¬ FieldByte k.toUInt8) : False := by
    obtain ⟨b, hb, he⟩ := Utf8.mem_decode (hu ▸ hk) t 0 ‹_›
    have hbk : b = k.toUInt8 := by
      rw [← hu, ← he]
      exact (UInt8.ofNat_toNat).symm
    exact hf (hbk ▸ h b hb)
  refine ⟨?_, ?_, ?_⟩ <;> rintro rfl
  · exact hnot 64 (by decide) rfl (by decide)
  · exact hnot 91 (by decide) rfl (by decide)
  · exact hnot 93 (by decide) rfl (by decide)

variable {m : Message}

theorem parts_clean {q : QString} (hq : q ∈ parts m) {u : UInt16} (hu : u ∈ q) : u ≠ 64 ∧ u ≠ 91 ∧ u ≠ 93 := by
  obtain ⟨t, ht, rfl⟩ := List.mem_map.1 hq
  rcases List.mem_cons.1 ht with rfl | ht
  · exact read_clean m.id.clean hu
  · exact read_clean (Message.mem_texts ht).2 hu

/-- A message read as UTF-8. -/
theorem fromUtf8_enc (m : Message) : fromUtf8 m.enc =
    91 :: read m.id.text ++ 93 :: [64].intercalate (m.texts.map read) ++ [10] := by
  have hbom : m.enc.take 3 ≠ [0xEF, 0xBB, 0xBF] := by
    rw [m.enc_eq, Server.tagged, List.cons_append, List.take_succ_cons]
    intro h
    cases (List.cons.inj h).1
  rw [fromUtf8, if_neg hbom, m.enc_eq, Server.tagged, List.cons_append, Utf8.decode_ascii (by decide),
    Utf8.decode_append (by decide), Utf8.decode_append (by decide), Message.body, Utf8.decode_intercalate (by decide)]
  rw [List.append_assoc, List.cons_append]
  rfl

theorem replaceBrackets_append (p q : QString) : replaceBrackets (p ++ q) = replaceBrackets p ++ replaceBrackets q :=
  List.map_append

theorem replaceBrackets_close (q : QString) : replaceBrackets (93 :: q) = 64 :: replaceBrackets q := rfl

theorem replaceBrackets_clean {q : QString} (h : ∀ u ∈ q, u ≠ 91 ∧ u ≠ 93) : replaceBrackets q = q := by
  have hid : ∀ u ∈ q, (if u = 91 ∨ u = 93 then 64 else u) = u := fun u hu =>
    if_neg (not_or.2 (h u hu))
  exact (List.map_congr_left hid).trans (List.map_id q)

/-- The text with its brackets replaced. -/
theorem replaceBrackets_enc (m : Message) : replaceBrackets (fromUtf8 m.enc).dropLast = recvData m := by
  have hid : ∀ u ∈ read m.id.text, u ≠ 91 ∧ u ≠ 93 := fun u hu => (read_clean m.id.clean hu).2
  have hbody : ∀ u ∈ [64].intercalate (m.texts.map read), u ≠ 91 ∧ u ≠ 93 := by
    intro u hu
    obtain rfl | ⟨q, hq, hu⟩ := mem_intercalate hu
    · decide
    · exact (parts_clean (m := m) (List.mem_cons_of_mem _ hq) hu).2
  have hne : m.texts.map read ≠ [] := by simpa using m.texts_ne
  rw [fromUtf8_enc, List.dropLast_concat, List.cons_append, ← List.singleton_append, replaceBrackets_append,
    replaceBrackets_append, replaceBrackets_close, replaceBrackets_clean hid, replaceBrackets_clean hbody, recvData,
    parts, List.map_cons, List.intercalate_cons_cons, List.intercalate_cons_of_ne_nil hne]
  simp [replaceBrackets]

/-- **A message is split into an empty part, its id and its fields.** -/
theorem splitOn_recvData (m : Message) : (recvData m).splitOn 64 = [] :: parts m := by
  refine List.splitOn_intercalate 64 (fun q hq h64 => ?_) (by simp)
  rcases List.mem_cons.1 hq with rfl | hq
  · cases h64
  · exact (parts_clean hq h64).1 rfl

/-- What a message is to be dispatched as. -/
def dispatched (m : Message) : List (Kind × List QString) :=
  (kinds (read (m.texts.head m.texts_ne))).map fun k => (k, [] :: parts m)

/-- A signal with its argument split. -/
def Signal.split (g : Signal) : Kind × List QString := (g.kind, g.qList)

/-- **A message on its own is dispatched with its own fields.** -/
theorem socketRecvUpdateSlot_enc (m : Message) :
    ∃ l, socketRecvUpdateSlot (fromUtf8 m.enc) = some l ∧ l.map Signal.split = dispatched m := by
  have hcmd : ([] :: parts m)[2]? = some (read (m.texts.head m.texts_ne)) := by
    obtain ⟨t, ts, ht⟩ := List.exists_cons_of_ne_nil m.texts_ne
    simp [parts, ht]
  refine ⟨(kinds (read (m.texts.head m.texts_ne))).map fun k => ⟨k, recvData m⟩, ?_, ?_⟩
  · simp only [socketRecvUpdateSlot, replaceBrackets_enc, splitOn_recvData, hcmd, Option.map_some]
  · simp only [List.map_map, dispatched]
    apply List.map_congr_left
    intro k _
    simp [Signal.split, Signal.qList, splitOn_recvData]

/-- A `BREED` message and a `DB_BREED` message are dispatched once. -/
theorem dispatched_breed (m : Message) :
    (m.texts.head m.texts_ne = bytes "BREED" → dispatched m = [(.breed, [] :: parts m)]) ∧
      (m.texts.head m.texts_ne = bytes "DB_BREED" → dispatched m = [(.dbBreed, [] :: parts m)]) := by
  have hkinds : kinds (read (bytes "BREED")) = [.breed] ∧ kinds (read (bytes "DB_BREED")) = [.dbBreed] := by decide
  refine ⟨fun h => ?_, fun h => ?_⟩
  · rw [dispatched, h, hkinds.1]
    rfl
  · rw [dispatched, h, hkinds.2]
    rfl

/-! ## Notifications -/

section Notifications

variable {s : Socket} (hs : s.pending = [])

include hs

/-- A notification that is small enough is read completely, as one text. -/
theorem readyRead_eq {chunk : List Byte} (hc : chunk.length ≤ blockSize) :
    readyRead s chunk = (socketRecvUpdateSlot (fromUtf8 chunk)).map fun l => ⟨[], s.emitted ++ l⟩ := by
  rw [readyRead, hs, List.nil_append, if_neg (not_lt.2 hc)]

/-- **Small notifications are handled one by one.** -/
theorem receive_eq {chunks : List (List Byte)} (hc : ∀ c ∈ chunks, c.length ≤ blockSize) : receive s chunks =
    (chunks.mapM fun c => socketRecvUpdateSlot (fromUtf8 c)).map fun ls => ⟨[], s.emitted ++ ls.flatten⟩ := by
  induction chunks generalizing s with
  | nil =>
    obtain ⟨pending, emitted⟩ := s
    simpa [receive] using hs
  | cons c chunks ih =>
    rw [receive, readyRead_eq hs (hc c (by simp)), List.mapM_cons]
    cases hl : socketRecvUpdateSlot (fromUtf8 c) with
    | none => rfl
    | some l =>
      rw [Option.map_some, Option.bind_some, ih rfl fun c hm => hc c (by simp [hm])]
      cases hls : chunks.mapM fun c => socketRecvUpdateSlot (fromUtf8 c) with
      | none => rfl
      | some ls => simp

/-- Messages in notifications of their own. -/
theorem receive_messages {ms : List Message} (hm : ∀ m ∈ ms, m.enc.length ≤ blockSize) :
    ∃ t, receive s (ms.map Message.enc) = some t ∧ t.pending = [] ∧
      t.emitted.map Signal.split = s.emitted.map Signal.split ++ ms.flatMap dispatched := by
  induction ms generalizing s with
  | nil => exact ⟨s, rfl, hs, by simp⟩
  | cons m ms ih =>
    obtain ⟨l, hl, hsplit⟩ := socketRecvUpdateSlot_enc m
    obtain ⟨t, ht, hp, hem⟩ := ih (s := ⟨[], s.emitted ++ l⟩) rfl fun m' hm' => hm m' (by simp [hm'])
    refine ⟨t, ?_, hp, ?_⟩
    · rw [List.map_cons, receive, readyRead_eq hs (hm m (by simp)), hl]
      exact ht
    · rw [hem, List.map_append, hsplit, List.flatMap_cons, List.append_assoc]

end Notifications

/-- A backlog of more than `BLOCK_SIZE` bytes is never read again. -/
theorem receive_backlog {chunks : List (List Byte)} : ∀ {s : Socket}, blockSize < s.pending.length →
    receive s chunks = some ⟨s.pending ++ chunks.flatten, s.emitted⟩ := by
  induction chunks with
  | nil => intro s _; simp [receive]
  | cons c chunks ih =>
    intro s hs
    have hlong : blockSize < (s.pending ++ c).length := by rw [List.length_append]; omega
    rw [receive, readyRead, if_pos hlong, Option.bind_some, ih hlong, List.flatten_cons, List.append_assoc]

/-- **Reception.** Notifications of at most `BLOCK_SIZE` bytes are read completely, one text each; messages in
notifications of their own are dispatched one after the other, each `BREED` or `DB_BREED` message once, with its own
fields. -/
theorem reception (s : Socket) (hs : s.pending = []) :
    (∀ chunks : List (List Byte), (∀ c ∈ chunks, c.length ≤ blockSize) → receive s chunks =
      (chunks.mapM fun c => socketRecvUpdateSlot (fromUtf8 c)).map fun ls => ⟨[], s.emitted ++ ls.flatten⟩) ∧
    (∀ ms : List Message, (∀ m ∈ ms, m.enc.length ≤ blockSize) → ∃ t, receive s (ms.map Message.enc) = some t ∧
      t.pending = [] ∧ t.emitted.map Signal.split = s.emitted.map Signal.split ++ ms.flatMap dispatched) ∧
    ∀ m : Message, (m.texts.head m.texts_ne = bytes "BREED" → dispatched m = [(.breed, [] :: parts m)]) ∧
      (m.texts.head m.texts_ne = bytes "DB_BREED" → dispatched m = [(.dbBreed, [] :: parts m)]) :=
  ⟨fun _ hc => receive_eq hs hc, fun _ hm => receive_messages hs hm, dispatched_breed⟩

/-- `[KJD_JET]BREED@LAB` -/
def breedLab : Message where
  id := .of (bytes "KJD_JET") (by decide) (by decide)
  fields := [.of (bytes "BREED") (by decide) (by decide), .of (bytes "LAB") (by decide) (by decide)]
  ne := List.cons_ne_nil _ _

/-- `[KJD_SQL]DB_BREED@1@2` -/
def dbBreed12 : Message where
  id := kjdSql
  fields := [.of (bytes "DB_BREED") (by decide) (by decide), .of (bytes "1") (by decide) (by decide),
    .of (bytes "2") (by decide) (by decide)]
  ne := List.cons_ne_nil _ _

/-- A breed and the answer of the database, one after the other. -/
theorem reception_two : ∃ t, receive ⟨[], []⟩ ([breedLab, dbBreed12].map Message.enc) = some t ∧ t.pending = [] ∧
    t.emitted.map Signal.split = [(.breed, [[], ascii "KJD_JET", ascii "BREED", ascii "LAB"]),
      (.dbBreed, [[], ascii "KJD_SQL", ascii "DB_BREED", ascii "1", ascii "2"])] := by
  obtain ⟨t, ht, hp, hem⟩ := (reception ⟨[], []⟩ rfl).2.1 [breedLab, dbBreed12]
    (List.all_iff_forall_prop.1 (by decide))
  exact ⟨t, ht, hp, hem.trans (by decide)⟩

/-- Two messages that become available together are taken for one, and the second is lost. -/
theorem joined_messages : ¬ ∀ (ms : List Message) (chunks : List (List Byte)), (∀ c ∈ chunks, c ≠ []) →
    chunks.flatten = ms.flatMap Message.enc → ∃ t, receive ⟨[], []⟩ chunks = some t ∧ t.pending = [] ∧
      t.emitted.map Signal.split = ms.flatMap dispatched := by
  intro h
  obtain ⟨t, ht, -, hem⟩ := h [breedLab, dbBreed12] [breedLab.enc ++ dbBreed12.enc] (by simp [Message.enc]) (by simp)
  have hone : (receive ⟨[], []⟩ [breedLab.enc ++ dbBreed12.enc]).map (fun t => t.emitted.length) = some 1 := by decide
  rw [ht, Option.map_some, Option.some.injEq] at hone
  have htwo := congrArg List.length hem
  rw [List.length_map, hone] at htwo
  revert htwo
  decide

end PetVending.Kiosk
