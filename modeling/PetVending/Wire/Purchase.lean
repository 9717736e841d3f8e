import PetVending.Kiosk.Payment
import PetVending.Wire.RoundTrip

/-!
# A purchase: from Pay to the motors and to the table of sales

The messages of an undisturbed payment travel through `iot_server.c`, each in reads of its own: the `MOTOR` messages
over the Bluetooth bridge to the firmware, the `DB` message to the SQL client.

- `text_motor`, `text_db`: the texts of a payment are messages `[id]f1@...@fn`;
- `sale_recorded`: the SQL client builds one `INSERT`, with the breed and the items of the cart;
- `queued`: the firmware puts the products 1 to 6 of the cart into its queue, and drops the others, which the kiosk
  sells all the same (`vended_iff`).
-/

namespace PetVending.Wire

open CStr Server Transition

/-! ## Texts of the kiosk -/

theorem bytes_toString (n : Nat) : bytes (toString n) = digits n := by
  simp [bytes, digits, Nat.toList_repr]

theorem bytes_fieldText (s : String) (fields : List String) :
    bytes (Kiosk.fieldText s fields) = bytes s ++ fields.flatMap fun f => 64 :: bytes f := by
  rw [bytes, Kiosk.fieldText, String.toList_ofList, List.map_append, List.map_flatMap]
  rfl

/-- A text that is sent. -/
theorem sendData_eq {text : String} (h : bytes text ≠ []) : Kiosk.slotSocketSendData text = bytes text ++ [10] := by
  apply if_neg
  rintro rfl
  exact h rfl

theorem intercalate_cons_eq_flatMap {c : Byte} (w : List Byte) (ws : List (List Byte)) :
    [c].intercalate (w :: ws) = w ++ ws.flatMap (c :: ·) := by
  induction ws generalizing w with
  | nil => simp
  | cons v ws ih =>
    rw [List.intercalate_cons_cons, ih, List.append_assoc, List.flatMap_cons]
    rfl

theorem digit_clean (c : Byte) (h : isDigit c = true) : FieldByte c := by
  have hall : ∀ x ∈ 0 :: bytes "[]:@\r\n", isDigit x = false := List.all_iff_forall_prop.1 (by decide)
  refine ⟨fun hc => ?_, ?_⟩
  · rw [hall c (List.mem_cons_of_mem _ hc)] at h
    cases h
  · rintro rfl
    cases h

/-- A number as a field. -/
def numField (n : Nat) : Field := ⟨digits n, digits_ne_nil n, fun c hc => digit_clean c (isDigit_of_mem_digits hc)⟩

/-- `[KJD_STM]MOTOR@n` -/
def motorMessage (n : Nat) : Message where
  id := kjdStm
  fields := [motorWord, numField n]
  ne := List.cons_ne_nil _ _

/-- `[KJD_SQL]DB@breed@n1@...` -/
def dbMessage (breed : Field) (flags : List Nat) : Message where
  id := kjdSql
  fields := .of (bytes "DB") (by decide) (by decide) :: breed :: flags.map numField
  ne := List.cons_ne_nil _ _

theorem text_motor (p : Nat) (it : Kiosk.Item) :
    Kiosk.slotSocketSendData (Kiosk.Msg.motor p it).text = (motorMessage it.productId).enc := by
  have h : bytes "[KJD_STM]MOTOR" = 91 :: bytes "KJD_STM" ++ 93 :: bytes "MOTOR" := by decide
  have htext : bytes (Kiosk.Msg.motor p it).text = (motorMessage it.productId).line := by
    rw [Kiosk.text_motor_eq, bytes_fieldText, h, List.flatMap_singleton, bytes_toString]
    simp [Message.line, tagged, Message.body, Message.texts, motorMessage, kjdStm, motorWord, Field.of, numField]
  rw [sendData_eq (by rw [htext]; simp [Message.line, tagged]), htext]
  rfl

theorem text_db (p : Nat) {b : String} {breed : Field} (hb : bytes (Kiosk.dbBreed b) = breed.text)
    (hv : Kiosk.Verbatim b) {flags : List Nat} (hlen : flags.length = 6) :
    Kiosk.slotSocketSendData (Kiosk.Msg.db p b flags).text = (dbMessage breed flags).enc := by
  have h : bytes "[KJD_SQL]DB" = 91 :: bytes "KJD_SQL" ++ 93 :: bytes "DB" := by decide
  have htext : bytes (Kiosk.Msg.db p b flags).text = (dbMessage breed flags).line := by
    rw [Kiosk.text_db_eq p hlen hv, Kiosk.dbText, bytes_fieldText, h, List.flatMap_cons, hb, List.flatMap_map]
    simp only [bytes_toString, Message.line, tagged, Message.body, Message.texts, dbMessage, List.map_cons,
      intercalate_cons_eq_flatMap, List.flatMap_cons, List.map_map, List.flatMap_map]
    simp [kjdSql, Field.of, numField]
  rw [sendData_eq (by rw [htext]; simp [Message.line, tagged]), htext]
  rfl

/-! ## The record of a sale -/

/-- `KJD_SQL` and `KJD_STM` in the table. -/
def slotSql : Fin maxClnt := 0

def slotStm : Fin maxClnt := 6

/-- A slot of the table that is online gets what is sent to its id. -/
theorem slotsOf_sameIds {T : Fin maxClnt → ClientInfo} (hT : SameIds T clientInfo₀) {i : Fin maxClnt}
    (hon : (T i).fd ≠ -1) : slotsOf T (clientInfo₀ i).id = [i] := by
  rw [← (hT i).1]
  exact slotsOf_eq (hT.distinct distinct₀) hon

/-- A breed that can be written into the texts and into the statement: printable ASCII without `[ ] : @ %`, quotes and
backslashes. -/
def BreedChar (c : Char) : Prop := ' ' ≤ c ∧ c ≤ '~' ∧ c ∉ "[]:@%\"\\".toList

instance : DecidablePred BreedChar := fun c => inferInstanceAs (Decidable (' ' ≤ c ∧ c ≤ '~' ∧ c ∉ "[]:@%\"\\".toList))

theorem breedChar_clean {c : Char} (h : BreedChar c) : FieldByte c.toUInt8 := by
  have hall : ∀ n < 127, BreedChar (Char.ofNat n) → FieldByte (Char.ofNat n).toUInt8 := by decide +kernel
  have hlt : c.toNat < 127 := Nat.lt_succ_of_le h.2.1
  have hc := hall c.toNat hlt
  rw [Char.ofNat_toNat] at hc
  exact hc h

/-- The breed that a record names, as a field. -/
def breedField (b : String) (h : ∀ c ∈ b.toList, BreedChar c) : Field where
  text := bytes (Kiosk.dbBreed b)
  ne := by
    rw [Kiosk.dbBreed]
    split
    · decide
    · rename_i hb
      simpa [bytes] using hb
  clean := by
    rw [Kiosk.dbBreed]
    split
    · exact List.all_iff_forall_prop.1 (by decide)
    · intro c hc
      obtain ⟨x, hx, rfl⟩ := List.mem_map.1 hc
      exact breedChar_clean (h x hx)

/-- A text with nine tokens, the second of them `DB`, becomes an `INSERT`. -/
theorem recvMsg_insert {text : List Byte} {l : List (List Byte)} (h : SqlGets text l) (hl : l.length = 9)
    (hcmd : l[1]? = some (bytes "DB")) (w : Nat) (R : List Sql.Row) (pArray : List (Option Nat)) :
    ∃ pa, Sql.recvMsg w R pArray text = .ok (pa, .insert
      (Sql.insertCmd (l.getD 0 []) (l.getD 2 []) fun k => atoi w (l.getD (k + 3) []))) := by
  obtain ⟨hcount, hget⟩ := h pArray
  have hgetD (j : Nat) (hj : j < 9) :
      (str (Sql.tokenise pArray text).1 (Sql.tokenise pArray text).2.1 j).toOption.getD [] = l.getD j [] := by
    rw [hget j (l.getD j []) (by simp [List.getD, List.getElem?_eq_getElem (hl ▸ hj)])]
    rfl
  refine ⟨(Sql.tokenise pArray text).2.1, ?_⟩
  rw [Sql.recvMsg_eq, hget 1 _ hcmd]
  simp only [hcount, hl, and_self, if_true]
  rw [hgetD 0 (by decide), hgetD 2 (by decide)]
  have hitem : (fun k : Fin 6 => atoi w
      ((str (Sql.tokenise pArray text).1 (Sql.tokenise pArray text).2.1 (k + 3)).toOption.getD [])) =
      fun k : Fin 6 => atoi w (l.getD (k + 3) []) := funext fun k => by rw [hgetD (k + 3) (by omega)]
  rw [hitem]

/-- A flag of the record. -/
def flag (ids : List Nat) (k : Nat) : Nat := if k + 1 ∈ ids then 1 else 0

theorem flag_length (ids : List Nat) (k : Nat) : (dec (flag ids k)).length = 1 := by
  unfold flag
  split <;> decide

/-- What the SQL client gets of a record. -/
theorem record_tokens (breed : Field) (ids : List Nat) :
    (dbMessage breed (Kiosk.describe ids)).texts.modifyLast (· ++ [10]) =
      bytes "DB" :: breed.text :: ((List.range 5).map fun k => digits (flag ids k)) ++
      [digits (flag ids 5) ++ [10]] := by
  have htexts : (dbMessage breed (Kiosk.describe ids)).texts =
      (bytes "DB" :: breed.text :: (List.range 5).map fun k => digits (flag ids k)) ++ [digits (flag ids 5)] := by
    rfl
  rw [htexts, List.modifyLast_concat]

/-- The strings behind `pArray[3]` to `pArray[8]` are read as the flags, the line feed ends the last number. -/
theorem record_item (name breed : List Byte) (ids : List Nat) {w : Nat} (hw : 32 ≤ w) (k : Fin 6) :
    atoi w ((name :: bytes "DB" :: breed :: ((List.range 5).map fun k => digits (flag ids k)) ++
      [digits (flag ids 5) ++ [10]]).getD (k + 3) []) = flag ids k := by
  have hread (r : List Byte) (hr : r.takeWhile isDigit = []) : atoi w (digits (flag ids k) ++ r) = flag ids k := by
    rw [atoi_digits_append w _ hr, toInt_of_lt hw]
    unfold flag
    split <;> decide
  by_cases hk : k.val < 5
  · have h := hread [] rfl
    rw [List.append_nil] at h
    simpa [List.getD, List.getElem?_append_left, hk] using h
  · have hk5 : k.val = 5 := by omega
    have h := hread [10] (by decide)
    rw [hk5] at h ⊢
    exact h

/-- A record of the kiosk fits into a read of the server. -/
theorem record_length (breed : Field) (ids : List Nat) :
    (dbMessage breed (Kiosk.describe ids)).enc.length = breed.text.length + 25 := by
  have hdigits (k : Nat) : (digits (flag ids k)).length = 1 := flag_length ids k
  have hbody : (dbMessage breed (Kiosk.describe ids)).body = [64].intercalate [bytes "DB", breed.text,
      digits (flag ids 0), digits (flag ids 1), digits (flag ids 2), digits (flag ids 3), digits (flag ids 4),
      digits (flag ids 5)] := rfl
  have hid : (dbMessage breed (Kiosk.describe ids)).id.text.length = 7 := by
    show (bytes "KJD_SQL").length = 7
    decide
  have hdb : (bytes "DB").length = 2 := by decide
  rw [Message.enc_length, hbody, hid]
  simp only [List.intercalate_cons_cons, List.intercalate_singleton, List.length_append, List.length_singleton,
    hdigits, hdb]
  omega

/-- **The SQL client's statement for a record of the kiosk.** -/
theorem record_insert (breed : Field) (ids : List Nat)
    (hfit : (dbMessage breed (Kiosk.describe ids)).enc.length ≤ Server.bufSize - 1) {w : Nat} (hw : 32 ≤ w)
    (R : List Sql.Row) (pArray : List (Option Nat)) :
    ∃ pa, Sql.recvMsg w R pArray ((dbMessage breed (Kiosk.describe ids)).sentBy kjdQt).enc =
      .ok (pa, .insert (Sql.insertCmd (bytes "KJD_QT") breed.text fun k : Fin 6 => flag ids k)) := by
  have hgets := sqlGets_enc ((dbMessage breed (Kiosk.describe ids)).sentBy kjdQt)
    (by simp [Message.sentBy, dbMessage, Kiosk.describe]) (sentBy_fits _ (by decide) hfit)
  have htexts : ((dbMessage breed (Kiosk.describe ids)).sentBy kjdQt).texts =
      (dbMessage breed (Kiosk.describe ids)).texts := rfl
  rw [htexts, record_tokens] at hgets
  obtain ⟨pa, h⟩ := recvMsg_insert hgets (by simp) rfl w R pArray
  refine ⟨pa, h.trans ?_⟩
  have hitem := funext fun k => record_item (bytes "KJD_QT") breed.text ids hw k
  rw [← hitem]
  rfl

/-- The texts of the `DB` messages. -/
def dbTexts (l : List Kiosk.Msg) : List (List Byte) :=
  l.filterMap fun
    | .motor _ _ => none
    | .db p b flags => some (Kiosk.slotSocketSendData (Kiosk.Msg.db p b flags).text)

theorem dbTexts_bill {s : Kiosk.Panel} (hcart : s.selectedProducts ≠ []) : dbTexts s.bill =
    [Kiosk.slotSocketSendData (Kiosk.Msg.db s.nextPay s.breed
      (Kiosk.describe (s.selectedProducts.map (·.productId)))).text] := by
  rw [dbTexts, Kiosk.Panel.bill, if_neg hcart, List.filterMap_append, List.filterMap_map]
  simp

/-- **A sale is recorded.** An undisturbed payment sends one `DB` message; the server relays it to the SQL client, which
builds one `INSERT` with the kiosk's id, the breed, and item `k` set iff `k` is in the cart. -/
theorem sale_recorded {s : Kiosk.Panel} (hs : s.fault = false) (hidle : s.frames = []) (hcart : s.selectedProducts ≠ [])
    (hbreed : ∀ c ∈ s.breed.toList, BreedChar c) (hlen : s.breed.length ≤ 62) {T : Fin maxClnt → ClientInfo}
    (hT : SameIds T clientInfo₀) (hon : (T slotSql).fd ≠ -1) (signed : Bool) (time : List Byte)
    (pArray : List (Option Nat)) {w : Nat} (hw : 32 ≤ w) (R : List Sql.Row) (pArray' : List (Option Nat)) :
    ∃ t text msg pa pa' cmd, exec Kiosk.step s (Kiosk.payActs s.selectedProducts.length) = some t ∧
      dbTexts (t.out.drop s.out.length) = [text] ∧ text.length ≤ Server.bufSize - 1 ∧
      clntRead signed (T slotQt) pArray text = .ok (msg, pa) ∧
      sendMsg time T msg = [((T slotSql).fd, msg.msg)] ∧ msg.msg.length ≤ Sql.nameSize + Sql.bufSize ∧
      Sql.recvMsg w R pArray' msg.msg = .ok (pa', .insert cmd) ∧ cmd.length < 200 ∧
      cmd = Sql.insertCmd (bytes "KJD_QT") (bytes (if s.breed = "" then "UNKNOWN" else s.breed))
        fun k : Fin 6 => if k.val + 1 ∈ s.selectedProducts.map (·.productId) then 1 else 0 := by
  obtain ⟨t, ht, -, -, hout⟩ := Kiosk.payment_out hs hidle
  have hdrop : t.out.drop s.out.length = s.bill := by rw [hout, List.drop_left]
  let ids := s.selectedProducts.map (·.productId)
  let breed := breedField s.breed hbreed
  let m := dbMessage breed (Kiosk.describe ids)
  have hverbatim : Kiosk.Verbatim s.breed := Kiosk.verbatim_of_plain fun h => absurd (hbreed _ h).2.2 (by decide)
  have htext : dbTexts s.bill = [m.enc] := by
    rw [dbTexts_bill hcart]
    exact congrArg (fun x => [x]) (text_db s.nextPay rfl hverbatim (Kiosk.describe_length ids))
  have hbreed62 : breed.text.length ≤ 62 := by
    show (bytes (if s.breed = "" then "UNKNOWN" else s.breed)).length ≤ 62
    split
    · decide
    · rwa [bytes, List.length_map, String.length_toList]
  have hfit : m.enc.length ≤ Server.bufSize - 1 := by
    have h : m.enc.length = breed.text.length + 25 := record_length breed ids
    unfold Server.bufSize
    omega
  obtain ⟨pa, hread⟩ := clntRead_enc m kjdQt (hT slotQt).1 signed pArray
  have hslots : slotsOf T (bytes "KJD_SQL") = [slotSql] := slotsOf_sameIds hT hon
  obtain ⟨pa', hrecv⟩ := record_insert breed ids hfit hw R pArray'
  refine ⟨t, m.enc, _, pa, pa', _, ht, hdrop ▸ htext, hfit, hread, ?_, sentBy_fits m (by decide) hfit, hrecv, ?_, ?_⟩
  · rw [sendMsg_enc time T (show bytes "KJD_SQL" ∉ special by decide)]
    exact congrArg (List.map _) hslots
  · have hname : (bytes "KJD_QT").length = 6 := by decide
    rw [Sql.insertCmd_length _ _ fun k : Fin 6 => flag_length ids k, hname]
    omega
  · refine congrArg (Sql.insertCmd (bytes "KJD_QT") (bytes (Kiosk.dbBreed s.breed))) (funext fun k => ?_)
    simp only [flag]
    split <;> rfl

/-- The table with the slots `on` online, each at a descriptor of its own. -/
def online (on : List (Fin maxClnt)) (i : Fin maxClnt) : ClientInfo :=
  if i ∈ on then { clientInfo₀ i with fd := i.val + 4 } else clientInfo₀ i

theorem online_sameIds (on : List (Fin maxClnt)) : SameIds (online on) clientInfo₀ := by
  intro i
  unfold online
  split <;> exact ⟨rfl, rfl⟩

/-- The owner of a Labrador buys product 3 twice, and product 9. -/
theorem sale_recorded_lab : ∃ msg pa cmd,
    sendMsg [] (online [slotQt, slotSql]) msg = [((online [slotQt, slotSql] slotSql).fd, msg.msg)] ∧
    Sql.recvMsg 64 [] [] msg.msg = .ok (pa, .insert cmd) ∧
    cmd = Sql.insertCmd (bytes "KJD_QT") (bytes "LAB") ![0, 0, 1, 0, 0, 0] := by
  let s : Kiosk.Panel := { Kiosk.panelStart with selectedProducts := [⟨3, 0⟩, ⟨3, 1⟩, ⟨9, 2⟩], breed := "LAB" }
  obtain ⟨-, -, msg, -, pa, cmd, -, -, -, -, hsend, -, h, -, hcmd⟩ := sale_recorded (s := s)
    (T := online [slotQt, slotSql]) rfl rfl (by decide) (List.all_iff_forall_prop.1 (by decide)) (by decide)
    (online_sameIds _) (by decide) true [] [] (w := 64) (by decide) [] []
  have hitem : (fun k : Fin 6 => if k.val + 1 ∈ s.selectedProducts.map (·.productId) then (1 : Int) else 0) =
      ![0, 0, 1, 0, 0, 0] := by decide
  exact ⟨msg, pa, cmd, hsend, h, hcmd.trans (congrArg _ hitem)⟩

/-! ## The products vended -/

/-- The texts of the `MOTOR` messages. -/
def motorTexts (l : List Kiosk.Msg) : List (List Byte) :=
  l.filterMap fun
    | .motor p it => some (Kiosk.slotSocketSendData (Kiosk.Msg.motor p it).text)
    | .db _ _ _ => none

/-- Texts of the kiosk, each in a read of its own, through the server and the bridge to the firmware: the events. -/
def travel (signed : Bool) (time : List Byte) (T : Fin maxClnt → ClientInfo) :
    List (Option Nat) → Firmware.Rx → List (List Byte) → Option (List Firmware.Event)
  | _, _, [] => some []
  | pArray, rx, text :: texts =>
    match clntRead signed (T slotQt) pArray text with
    | .error _ => none
    | .ok (msg, pa) =>
      let arriving := ((sendMsg time T msg).filter fun w => w.1 = (T slotStm).fd).flatMap fun w => Firmware.recvMsg w.2
      match Firmware.rxBytes rx arriving with
      | .error _ => none
      | .ok (rx, es) => (travel signed time T pa rx texts).map (es ++ ·)

theorem motorTexts_bill (s : Kiosk.Panel) :
    motorTexts s.bill = (s.selectedProducts.map (·.productId)).map fun n => (motorMessage n).enc := by
  rw [Kiosk.Panel.bill]
  split
  · rename_i h
    simp [motorTexts, h]
  · rw [motorTexts, List.filterMap_append, List.filterMap_map, List.map_map]
    simp [Function.comp_def, text_motor]

/-- **One product.** Its message calls `bluetooth_Event` once, with its number. -/
theorem motor_event {n : Nat} (hn : n ≤ 9) (rx : Firmware.Rx) (hi : rx.i = 0) :
    ∃ t e, Firmware.rxBytes rx (Firmware.recvMsg ((motorMessage n).sentBy kjdQt).enc) = .ok (t, [e]) ∧ t.i = 0 ∧
      e.motorNumber = Firmware.inRange n := by
  have hshort : ∀ n < 10, ((motorMessage n).sentBy kjdQt).line.length ≤ Firmware.cmdSize - 1 ∧
      (Firmware.echo (bytes "KJD_QT") (bytes "MOTOR") (digits n)).length < Firmware.cmdSize := by decide +kernel
  obtain ⟨hline, hecho⟩ := hshort n (Nat.lt_succ_of_le hn)
  obtain ⟨t, ht, hrx, hsplit⟩ := firmwareGets_enc ((motorMessage n).sentBy kjdQt) (show 2 ≤ 4 by decide) hline rx hi
  have hargs : Firmware.splitCmd t.btData =
      some (bytes "KJD_QT") :: some (bytes "MOTOR") :: some (digits n) :: [none, none] := hsplit
  have hevent := Firmware.bluetoothEvent_motor hargs hecho
  rw [hevent] at hrx
  refine ⟨t, _, hrx, ht, ?_⟩
  rw [atoi_digits, toInt_of_lt (le_refl 32) (by omega)]

variable {T : Fin maxClnt → ClientInfo}

/-- **Products of the kiosk on their way.** Each is handed to `osMessagePut` if its number is in range. -/
theorem travel_motors (hT : SameIds T clientInfo₀) (hon : (T slotStm).fd ≠ -1) (signed : Bool) (time : List Byte)
    {ids : List Nat} : ∀ (pArray : List (Option Nat)) (rx : Firmware.Rx), (∀ n ∈ ids, n ≤ 9) → rx.i = 0 →
      ∃ es, travel signed time T pArray rx (ids.map fun n => (motorMessage n).enc) = some es ∧
        es.filterMap (·.motorNumber) = ids.filterMap fun n : Nat => Firmware.inRange n := by
  have hslots : slotsOf T (bytes "KJD_STM") = [slotStm] := slotsOf_sameIds hT hon
  induction ids with
  | nil => intro pArray rx _ _; exact ⟨[], rfl, rfl⟩
  | cons n ids ih =>
    intro pArray rx hids hi
    let msg : MsgInfo := ⟨charFd signed (T slotQt).fd, kjdQt.text, bytes "KJD_STM", ((motorMessage n).sentBy kjdQt).enc⟩
    obtain ⟨pa, hread⟩ : ∃ pa, clntRead signed (T slotQt) pArray (motorMessage n).enc = .ok (msg, pa) :=
      clntRead_enc (motorMessage n) kjdQt (hT slotQt).1 signed pArray
    have hsend : sendMsg time T msg = [((T slotStm).fd, msg.msg)] := by
      rw [sendMsg_enc time T (show msg.dest ∉ special by change bytes "KJD_STM" ∉ special; decide)]
      exact congrArg (List.map _) hslots
    obtain ⟨t, e, hrx, ht, he⟩ := motor_event (hids n (by simp)) rx hi
    obtain ⟨es, hes, hnum⟩ := ih pa t (fun m hm => hids m (by simp [hm])) ht
    have harriving :
        ((sendMsg time T msg).filter fun w => w.1 = (T slotStm).fd).flatMap (fun w => Firmware.recvMsg w.2) =
          Firmware.recvMsg ((motorMessage n).sentBy kjdQt).enc := by
      rw [hsend]
      simp [msg]
    refine ⟨e :: es, ?_, ?_⟩
    · simp only [List.map_cons, travel, hread, harriving, hrx, hes]
      rfl
    · rw [List.filterMap_cons, List.filterMap_cons, he, hnum]

/-- The product numbers in the cart. -/
def cart (s : Kiosk.Panel) : List Nat := s.selectedProducts.map (·.productId)

section Vend

variable (hT : SameIds T clientInfo₀) (hon : (T slotStm).fd ≠ -1) (signed : Bool) (time : List Byte)
  (pArray : List (Option Nat)) (rx : Firmware.Rx) (hrx : rx.i = 0) {s : Kiosk.Panel}
  (h : Reach Kiosk.step free Kiosk.panelStart s) (hidle : s.frames = [])

include hT hon hrx h hidle

/-- The payment of a cart, up to the numbers handed to `osMessagePut`. -/
theorem paid_numbers : ∃ t es, exec Kiosk.step s (Kiosk.payActs (cart s).length) = some t ∧
    travel signed time T pArray rx (motorTexts (t.out.drop s.out.length)) = some es ∧
    es.filterMap (·.motorNumber) = (cart s).filter (fun n => n ≤ Firmware.numPins) ∧ ∀ n ∈ cart s, 1 ≤ n := by
  have hsound := Kiosk.sound_of_reach h
  have hfault : s.fault = false := Bool.eq_false_iff.2 fun hf => hsound.stuck hf hidle
  have hrange : ∀ n ∈ cart s, 1 ≤ n ∧ n ≤ 9 := by
    intro n hn
    obtain ⟨it, hit, rfl⟩ := List.mem_map.1 hn
    exact hsound.range it hit
  obtain ⟨t, ht, -, -, hout⟩ := Kiosk.payment_out hfault hidle
  obtain ⟨es, hes, hnum⟩ := travel_motors hT hon signed time pArray rx (fun n hn => (hrange n hn).2) hrx
  refine ⟨t, es, ?_, ?_, ?_, fun n hn => (hrange n hn).1⟩
  · rwa [cart, List.length_map]
  · rw [hout, List.drop_left, motorTexts_bill]
    exact hes
  · rw [hnum, ← List.filterMap_eq_filter]
    apply List.filterMap_congr
    intro n hn
    rw [Firmware.inRange_natCast]
    by_cases h6 : n ≤ Firmware.numPins <;> simp [(hrange n hn).1, h6, Option.guard]

/-- The firmware's queue takes the products of the cart that have a motor. -/
theorem queued : ∃ t es, exec Kiosk.step s (Kiosk.payActs (cart s).length) = some t ∧
    travel signed time T pArray rx (motorTexts (t.out.drop s.out.length)) = some es ∧
    (∃ tr u, Firmware.Serves Firmware.machineStart (es.filterMap (·.motorNumber)) tr u) ∧
    ∀ i tr u, Firmware.Serves i (es.filterMap (·.motorNumber)) tr u →
      tr.filterMap Firmware.enqueued = (cart s).filter fun n => n ≤ Firmware.numPins := by
  obtain ⟨t, es, ht, hes, hnum, hpos⟩ := paid_numbers hT hon signed time pArray rx hrx h hidle
  have hrange : ∀ n ∈ es.filterMap (·.motorNumber), 1 ≤ n ∧ n ≤ Firmware.numPins := by
    intro n hn
    rw [hnum, List.mem_filter, decide_eq_true_eq] at hn
    exact ⟨hpos n hn.1, hn.2⟩
  refine ⟨t, es, ht, hes, Firmware.serves hrange rfl rfl, fun i tr u hserves => ?_⟩
  rw [hserves.enqueued, ← hnum]
  exact List.filter_eq_self.2 fun n hn => by simpa using hrange n hn

/-- **The products vended.** When the messages of an undisturbed payment travel one by one and the queue never fills,
the firmware puts exactly the cart into its queue iff all products of the cart have a motor. -/
theorem vended_iff : ∃ t es, exec Kiosk.step s (Kiosk.payActs (cart s).length) = some t ∧
    travel signed time T pArray rx (motorTexts (t.out.drop s.out.length)) = some es ∧
    (∃ tr u, Firmware.Serves Firmware.machineStart (es.filterMap (·.motorNumber)) tr u) ∧
    ∀ i tr u, Firmware.Serves i (es.filterMap (·.motorNumber)) tr u →
      (tr.filterMap Firmware.enqueued = cart s ↔ ∀ n ∈ cart s, n ≤ Firmware.numPins) := by
  obtain ⟨t, es, ht, hes, hex, hall⟩ := queued hT hon signed time pArray rx hrx h hidle
  refine ⟨t, es, ht, hes, hex, fun i tr u hserves => ?_⟩
  rw [hall i tr u hserves, List.filter_eq_self]
  simp

end Vend

/-- The firmware before its first line. -/
def rxStart : Firmware.Rx := ⟨List.replicate Firmware.cmdSize 0, 0, List.length_replicate⟩

/-- Products 6, 1 and 6 again. -/
theorem vended_three : ∃ s t es tr u, exec Kiosk.step Kiosk.panelStart [.product 5, .product 0, .product 5] = some s ∧
    exec Kiosk.step s (Kiosk.payActs 3) = some t ∧
    travel true [] (online [slotQt, slotStm]) [] rxStart (motorTexts (t.out.drop s.out.length)) = some es ∧
    Firmware.Serves Firmware.machineStart (es.filterMap (·.motorNumber)) tr u ∧
    tr.filterMap Firmware.enqueued = [6, 1, 6] := by
  have hrun : (exec Kiosk.step Kiosk.panelStart [.product 5, .product 0, .product 5]).any
      (fun s => s.frames = [] ∧ cart s = [6, 1, 6]) = true := by decide
  obtain ⟨s, hs, hp⟩ := (Option.any_eq_true ..).1 hrun
  obtain ⟨hidle, hcart⟩ := of_decide_eq_true hp
  obtain ⟨t, es, ht, hes, ⟨tr, u, hserves⟩, hiff⟩ :=
    vended_iff (online_sameIds [slotQt, slotStm]) (by decide) true [] []
    rxStart rfl (reach_of_exec hs) hidle
  rw [hcart] at ht hiff
  exact ⟨s, t, es, tr, u, hs, ht, hes, hserves, (hiff _ tr u hserves).2 (by decide)⟩

/-- Product 7 is sold, but no number reaches the queue. -/
theorem product_seven : ¬ ∀ (T : Fin maxClnt → ClientInfo), SameIds T clientInfo₀ → (T slotStm).fd ≠ -1 →
    ∀ (signed : Bool) (time : List Byte) (pArray : List (Option Nat)) (rx : Firmware.Rx), rx.i = 0 →
    ∀ s, Reach Kiosk.step free Kiosk.panelStart s → s.frames = [] →
    ∃ t es, exec Kiosk.step s (Kiosk.payActs (cart s).length) = some t ∧
      travel signed time T pArray rx (motorTexts (t.out.drop s.out.length)) = some es ∧
      ∀ i tr u, Firmware.Serves i (es.filterMap (·.motorNumber)) tr u → tr.filterMap Firmware.enqueued = cart s := by
  intro h
  have hrun : (exec Kiosk.step Kiosk.panelStart [.product 6]).any
      (fun s => s.frames = [] ∧ cart s = [7]) = true := by decide
  obtain ⟨s, hs, hp⟩ := (Option.any_eq_true ..).1 hrun
  obtain ⟨hidle, hcart⟩ := of_decide_eq_true hp
  have hT := online_sameIds [slotQt, slotStm]
  have hon : (online [slotQt, slotStm] slotStm).fd ≠ -1 := by decide
  obtain ⟨t, es, ht, hes, hvended⟩ := h _ hT hon true [] [] rxStart rfl s (reach_of_exec hs) hidle
  obtain ⟨t', es', ht', hes', ⟨tr, u, hserves⟩, hqueued⟩ :=
    queued hT hon true [] [] rxStart rfl (reach_of_exec hs) hidle
  obtain rfl : t = t' := Option.some.inj (ht.symm.trans ht')
  obtain rfl : es = es' := Option.some.inj (hes.symm.trans hes')
  have heq := (hvended _ tr u hserves).symm.trans (hqueued _ tr u hserves)
  rw [hcart] at heq
  revert heq
  decide

end PetVending.Wire
