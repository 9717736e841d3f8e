import PetVending.Lib.Quoted
import PetVending.Server.Formatting
import PetVending.Sql.Reco

/-!
# The `INSERT` of the SQL client

`recv_msg` pastes the first and the third token of a `DB` message between the quotes of its statement.

- `recvMsg_insert`, `recvMsg_tokens`: a text of nine tokens, the second of them `DB`, becomes an `INSERT`, and no other
  text does;
- `Mysql`: what is assumed of MySQL, and `readInsert`, a reader of the statement that meets it;
- **`insert_verbatim_iff`**: the row has name and breed verbatim and the values of the item tokens iff name and breed
  have no double quote and no backslash, the item tokens write numbers that are an `int`, and the statement fits into
  `sql_cmd`;
- **`insert_fits_iff`**: the statement of a relayed message fits iff its id, its breed and its numbers have at most 74
  characters together. A payload of at most 70 bytes always does (`insert_fits_short`).
-/

namespace PetVending.Sql

open CStr Server Quoted

/-- The size of `sql_cmd`. -/
def sqlCmdSize : Nat := 200

/-- The characters that the tokens and the numbers of a statement take. -/
def room (w : Nat) (name breed : List Byte) (item : Fin 6 → List Byte) : Nat :=
  name.length + breed.length + ∑ k, (dec (atoi w (item k))).length

/-- The statement for the tokens of a `DB` message. -/
def dbInsert (w : Nat) (name breed : List Byte) (item : Fin 6 → List Byte) : List Byte :=
  insertCmd name breed fun k => atoi w (item k)

theorem dbInsert_fits_iff (w : Nat) (name breed : List Byte) (item : Fin 6 → List Byte) :
    (dbInsert w name breed item).length < sqlCmdSize ↔ room w name breed item ≤ 74 := by
  rw [dbInsert, length_insertCmd, room, sqlCmdSize]
  omega

/-! ## `DB` messages -/

section Message

variable {bs name breed : List Byte} {item : Fin 6 → List Byte}

/-- **A text of nine tokens, the second of them `DB`, becomes an `INSERT`.** -/
theorem recvMsg_insert (hfit : bs.length ≤ nameSize + bufSize)
    (htoks : tokens isDelim (lineOf bs) = name :: bytes "DB" :: breed :: List.ofFn item) (w : Nat) (T : List Row)
    (pArray : List (Option Nat)) : ∃ pa, recvMsg w T pArray bs = .ok (pa, .insert (dbInsert w name breed item)) := by
  obtain ⟨hcount, hstr⟩ := tokenise_line hfit pArray
  have hlen : (tokens isDelim (lineOf bs)).length = 9 := by rw [htoks]; simp
  rw [hlen] at hcount
  have hname := hstr 0 name (by decide) (by rw [htoks]; rfl)
  have hcmd := hstr 1 (bytes "DB") (by decide) (by rw [htoks]; rfl)
  have hbreed := hstr 2 breed (by decide) (by rw [htoks]; rfl)
  have hitem (k : Fin 6) : str (tokenise pArray bs).1 (tokenise pArray bs).2.1 (k + 3) = .ok (item k) := by
    apply hstr _ _ (show k.val + 3 < 10 by omega)
    rw [htoks]
    show (List.ofFn item)[k.val]? = some (item k)
    rw [List.getElem?_ofFn, dif_pos k.isLt]
  refine ⟨(tokenise pArray bs).2.1, ?_⟩
  rw [recvMsg_eq, hcmd]
  simp only [true_and, hcount]
  rw [if_pos (by decide)]
  simp only [hname, hbreed, hitem]
  rfl

/-- A list of nine. -/
theorem nine_tokens {l : List (List Byte)} (h : l.length = 9) : ∃ a b c, ∃ item : Fin 6 → List Byte,
    l = a :: b :: c :: List.ofFn item := by
  match l, h with
  | [a, b, c, x, y, z, x', y', z'], _ => exact ⟨a, b, c, ![x, y, z, x', y', z'], rfl⟩

/-- Only such a text becomes an `INSERT`. -/
theorem recvMsg_tokens (hfit : bs.length ≤ nameSize + bufSize) {w : Nat} {T : List Row} {pArray pa : List (Option Nat)}
    {cmd : List Byte} (h : recvMsg w T pArray bs = .ok (pa, .insert cmd)) : ∃ name breed, ∃ item : Fin 6 → List Byte,
    tokens isDelim (lineOf bs) = name :: bytes "DB" :: breed :: List.ofFn item ∧ cmd = dbInsert w name breed item := by
  obtain ⟨hcount, hstr⟩ := tokenise_line hfit pArray
  have h' := h
  rw [recvMsg_eq] at h'
  split at h'
  · cases h'
  rename_i tok htok
  split at h'
  · rename_i hdb
    have hlen : (tokens isDelim (lineOf bs)).length = 9 := by
      rw [hdb.2] at hcount
      unfold arrCnt at hcount
      omega
    obtain ⟨name, db, breed, item, htoks⟩ := nine_tokens hlen
    have hcmd := hstr 1 db (by decide) (by rw [htoks]; rfl)
    rw [htok, hdb.1] at hcmd
    cases hcmd
    obtain ⟨pa', hins⟩ := recvMsg_insert hfit htoks w T pArray
    rw [h] at hins
    cases hins
    exact ⟨name, breed, item, htoks, rfl⟩
  · split at h' <;> cases h'

end Message

/-! ## Executing the statement -/

/-- The statement up to its first quote. -/
def insertHead : List Byte :=
  bytes "insert into dog_food_sales(name, date, time, breed, item1, item2, item3, item4, item5, item6) values(\""

/-- The statement behind its last quote. -/
def insertTail (item : Fin 6 → Int) : List Byte :=
  bytes "," ++ (bytes ",").intercalate ((List.finRange 6).map fun k => dec (item k)) ++ bytes ")"

/-- What stands behind the quote that ends the name, up to the next quote. -/
def insertNow : List Byte := bytes ",now(),now(),\""

theorem insertCmd_eq (s t : List Byte) (item : Fin 6 → Int) :
    insertCmd s t item = insertHead ++ (s ++ 34 :: (insertNow ++ (t ++ 34 :: insertTail item))) := by
  have hname : bytes "\",now(),now(),\"" = 34 :: insertNow := by decide
  have hitem : bytes "\"," = 34 :: bytes "," := by decide
  simp only [insertCmd, insertHead, insertTail, hname, hitem, List.append_assoc, List.cons_append]

/-- What is assumed of MySQL: `unescape c` is the character that a backslash and `c` stand for, and an `INSERT` of two
quoted literals inserts the row with their values. -/
structure Mysql where
  unescape : Byte → Byte
  quote : unescape 34 = 34
  backslash : ∀ c, unescape c = 92 → c = 92
  execute : List Byte → List Row
  insert : ∀ s t name breed item, (∀ l, readQuoted 34 92 unescape (s ++ 34 :: l) = some (name, l)) →
    (∀ l, readQuoted 34 92 unescape (t ++ 34 :: l) = some (breed, l)) →
      execute (insertCmd s t item) = [⟨name, breed, item⟩]

/-- A number as `%d` writes it. -/
def readNum : List Byte → Int
  | 45 :: t => -(ofDigits t : Int)
  | t => ofDigits t

theorem readNum_dec (z : Int) : readNum (dec z) = z := by
  rw [dec_eq]
  split
  · show -(ofDigits (digits z.natAbs) : Int) = z
    rw [ofDigits_digits]
    omega
  · obtain ⟨b, t, ht⟩ := List.exists_cons_of_ne_nil (digits_ne_nil z.natAbs)
    have hb : b ≠ 45 := (isSpace_of_isDigit (isDigit_of_mem_digits (ht ▸ List.mem_cons_self))).2.1
    have hread : readNum (b :: t) = ofDigits (b :: t) := by
      unfold readNum
      split
      · rename_i h
        exact absurd (List.cons.inj h).1 hb
      · rfl
    rw [ht, hread, ← ht, ofDigits_digits]
    omega

/-- The row of a statement of the client, read from its text; a backslash and a character stand for the character. -/
def readInsert (cmd : List Byte) : Option Row := do
  let l ← cmd.dropPrefix? insertHead
  let (name, l) ← readQuoted 34 92 id l
  let l ← l.dropPrefix? insertNow
  let (breed, l) ← readQuoted 34 92 id l
  let item := fun k : Fin 6 => readNum (((l.drop 1).dropLast.splitOn 44).getD k [])
  if l = insertTail item then some ⟨name, breed, item⟩ else none

theorem splitOn_decs (item : Fin 6 → Int) :
    ((bytes ",").intercalate ((List.finRange 6).map fun k => dec (item k))).splitOn 44 =
      (List.finRange 6).map fun k => dec (item k) := by
  refine List.splitOn_intercalate 44 (fun t ht h44 => ?_) (by simp)
  obtain ⟨k, -, rfl⟩ := List.mem_map.1 ht
  rw [dec_eq] at h44
  have hdigit : (44 : Byte) ∉ digits (item k).natAbs := fun h => by cases isDigit_of_mem_digits h
  split at h44
  · rcases List.mem_cons.1 h44 with h | h
    · cases h
    · exact hdigit h
  · exact hdigit h44

/-- The numbers are read as they were written. -/
theorem readNum_insertTail (item : Fin 6 → Int) (k : Fin 6) :
    readNum ((((insertTail item).drop 1).dropLast.splitOn 44).getD k []) = item k := by
  have hdrop : ((insertTail item).drop 1).dropLast =
      (bytes ",").intercalate ((List.finRange 6).map fun k => dec (item k)) := by
    have h1 : (bytes ",") = [44] ∧ bytes ")" = [41] := by decide
    rw [insertTail, h1.1, h1.2, List.append_assoc, List.singleton_append, List.drop_one, List.tail_cons,
      List.dropLast_concat]
  rw [hdrop, splitOn_decs, List.getD_eq_getElem?_getD, List.getElem?_map, List.getElem?_eq_getElem (by simp)]
  simp [readNum_dec]

/-- The reader on a statement of the client. -/
theorem readInsert_insertCmd (s t : List Byte) (item : Fin 6 → Int) : readInsert (insertCmd s t item) =
    (readQuoted 34 92 id (s ++ 34 :: (insertNow ++ (t ++ 34 :: insertTail item)))).bind fun r =>
      (r.2.dropPrefix? insertNow).bind fun l => (readQuoted 34 92 id l).bind fun r' =>
        if r'.2 = insertTail (fun k : Fin 6 => readNum (((r'.2.drop 1).dropLast.splitOn 44).getD k [])) then
          some ⟨r.1, r'.1, fun k : Fin 6 => readNum (((r'.2.drop 1).dropLast.splitOn 44).getD k [])⟩
        else none := by
  have hhead : (insertCmd s t item).dropPrefix? insertHead =
      some (s ++ 34 :: (insertNow ++ (t ++ 34 :: insertTail item))) := by
    rw [insertCmd_eq]
    exact List.dropPrefix?_append_of_beq _ (beq_self_eq_true _)
  rw [readInsert, hhead]
  rfl

/-- The reader finds the values of two literals. -/
theorem readInsert_literals {s t name breed : List Byte} (item : Fin 6 → Int)
    (hs : ∀ l, readQuoted 34 92 id (s ++ 34 :: l) = some (name, l))
    (ht : ∀ l, readQuoted 34 92 id (t ++ 34 :: l) = some (breed, l)) :
    readInsert (insertCmd s t item) = some ⟨name, breed, item⟩ := by
  have hnow : (insertNow ++ (t ++ 34 :: insertTail item)).dropPrefix? insertNow = some (t ++ 34 :: insertTail item) :=
    List.dropPrefix?_append_of_beq _ (beq_self_eq_true _)
  rw [readInsert_insertCmd, hs, Option.bind_some, hnow, Option.bind_some, ht, Option.bind_some]
  simp only [readNum_insertTail, if_true]

/-- Only bare texts are found again. -/
theorem bare_of_readInsert {s t : List Byte} {item item' : Fin 6 → Int}
    (h : readInsert (insertCmd s t item) = some ⟨s, t, item'⟩) : Bare 34 92 s ∧ Bare 34 92 t := by
  have bare {t l r : List Byte} (h : readQuoted 34 92 id (t ++ 34 :: l) = some (t, r)) : Bare 34 92 t :=
    (readQuoted_verbatim_iff (by decide) (fun _ hc => hc) t l).1 ⟨r, h⟩
  rw [readInsert_insertCmd] at h
  obtain ⟨⟨name, l⟩, hname, h⟩ := Option.bind_eq_some_iff.1 h
  obtain ⟨l', hl', h⟩ := Option.bind_eq_some_iff.1 h
  obtain ⟨⟨breed, l''⟩, hbreed, h⟩ := Option.bind_eq_some_iff.1 h
  split at h
  · simp only [Option.some.injEq, Row.mk.injEq] at h
    obtain ⟨rfl, rfl, -⟩ := h
    have hs := bare hname
    -- so the name ends at its quote, and the breed starts behind the next one
    rw [readQuoted_bare hs] at hname
    cases hname
    have hnow : (insertNow ++ (breed ++ 34 :: insertTail item)).dropPrefix? insertNow =
        some (breed ++ 34 :: insertTail item) := List.dropPrefix?_append_of_beq _ (beq_self_eq_true _)
    rw [hnow] at hl'
    cases hl'
    exact ⟨hs, bare hbreed⟩
  · cases h

/-- A MySQL that reads the client's statements, and rejects all others. -/
def mysql₀ : Mysql where
  unescape := id
  quote := rfl
  backslash _ h := h
  execute cmd := (readInsert cmd).toList
  insert s t name breed item hs ht := by rw [readInsert_literals item hs ht]; rfl

/-! ## Verbatim rows -/

/-- A round of `recv_msg` puts a statement into `sql_cmd` that inserts one row, with the name, the breed and the items
given. -/
def Inserts (w : Nat) (T : List Row) (pArray : List (Option Nat)) (bs : List Byte) (row : Row) : Prop :=
  ∃ pa cmd, recvMsg w T pArray bs = .ok (pa, .insert cmd) ∧ cmd.length < sqlCmdSize ∧ ∀ M : Mysql, M.execute cmd = [row]

/-- So it does iff the items are what `atoi` reads, the texts are bare, and the statement fits. -/
theorem inserts_iff {bs name breed : List Byte} {item : Fin 6 → List Byte} (hfit : bs.length ≤ nameSize + bufSize)
    (htoks : tokens isDelim (lineOf bs) = name :: bytes "DB" :: breed :: List.ofFn item) (w : Nat) (T : List Row)
    (pArray : List (Option Nat)) (value : Fin 6 → Int) : Inserts w T pArray bs ⟨name, breed, value⟩ ↔
      (value = fun k => atoi w (item k)) ∧ (Bare 34 92 name ∧ Bare 34 92 breed) ∧ room w name breed item ≤ 74 := by
  obtain ⟨pa, hins⟩ := recvMsg_insert hfit htoks w T pArray
  rw [← dbInsert_fits_iff]
  constructor
  · rintro ⟨pa', cmd, h, hlen, hexec⟩
    rw [hins] at h
    cases h
    have hread : readInsert (insertCmd name breed fun k => atoi w (item k)) = some ⟨name, breed, value⟩ :=
      Option.toList_eq_singleton_iff.1 (hexec mysql₀)
    have hbare := bare_of_readInsert hread
    rw [readInsert_literals _ (readQuoted_bare hbare.1) (readQuoted_bare hbare.2)] at hread
    cases hread
    exact ⟨rfl, hbare, hlen⟩
  · rintro ⟨rfl, hbare, hlen⟩
    exact ⟨pa, _, hins, hlen, fun M => M.insert _ _ _ _ _ (readQuoted_bare hbare.1) (readQuoted_bare hbare.2)⟩

/-- The number that an item token writes; the last one may end with the line feed of the message. -/
def itemValue (t : List Byte) : Option Int := intOf (if t.getLast? = some 10 then t.dropLast else t)

theorem atoi_itemValue {w : Nat} {t : List Byte} {z : Int} (h : itemValue t = some z) : atoi w t = toInt w z := by
  unfold itemValue at h
  split at h
  · rename_i hlast
    have hread := atoi_intOf (w := w) h (r := [10]) (by decide)
    rwa [List.dropLast_append_getLast? 10 hlast] at hread
  · have hread := atoi_intOf (w := w) h (r := []) rfl
    rwa [List.append_nil] at hread

/-- Name and breed can be quoted as they are, the item tokens write the numbers `value`, each of them is an `int`, and
the statement has room for them. -/
structure Storable (name breed : List Byte) (item : Fin 6 → List Byte) (value : Fin 6 → Int) : Prop where
  bareName : Bare 34 92 name
  bareBreed : Bare 34 92 breed
  writes : ∀ k, itemValue (item k) = some (value k)
  int : ∀ k, -2 ^ 31 ≤ value k ∧ value k < 2 ^ 31
  room : name.length + breed.length + ∑ k, (dec (value k)).length ≤ 74

/-- **The row has the tokens**, name and breed verbatim and the numbers of the items, iff they are `Storable`. -/
theorem insert_verbatim_iff {bs name breed : List Byte} {item : Fin 6 → List Byte}
    (hfit : bs.length ≤ nameSize + bufSize)
    (htoks : tokens isDelim (lineOf bs) = name :: bytes "DB" :: breed :: List.ofFn item) {w : Nat} (hw : 32 ≤ w)
    (T : List Row) (pArray : List (Option Nat)) :
    (∃ value, (∀ k, itemValue (item k) = some (value k)) ∧ Inserts w T pArray bs ⟨name, breed, value⟩) ↔
      ∃ value, Storable name breed item value := by
  constructor
  · rintro ⟨value, hvalue, hins⟩
    obtain ⟨rfl, ⟨hname, hbreed⟩, hroom⟩ := (inserts_iff hfit htoks w T pArray value).1 hins
    refine ⟨_, ⟨hname, hbreed, hvalue, fun k => ?_, hroom⟩⟩
    exact (toInt_eq_self_iff hw).1 (atoi_itemValue (hvalue k)).symm
  · rintro ⟨value, h⟩
    have hread : value = fun k => atoi w (item k) := by
      funext k
      rw [atoi_itemValue (h.writes k), (toInt_eq_self_iff hw).2 (h.int k)]
    refine ⟨value, h.writes, (inserts_iff hfit htoks w T pArray value).2 ⟨hread, ⟨h.bareName, h.bareBreed⟩, ?_⟩⟩
    have hroom := h.room
    rw [hread] at hroom
    exact hroom

/-- The numbers of a sale of product 3. -/
def item3 : Fin 6 → List Byte := ![bytes "0", bytes "0", bytes "1", bytes "0", bytes "0", bytes "0"]

/-- The owner of a Labrador buys product 3. -/
theorem insert_verbatim_lab : ∃ value, (∀ k, itemValue (item3 k) = some (value k)) ∧
    Inserts 64 [] [] (bytes "[KJD_QT]DB@LAB@0@0@1@0@0@0") ⟨bytes "KJD_QT", bytes "LAB", value⟩ := by
  have hfit : (bytes "[KJD_QT]DB@LAB@0@0@1@0@0@0").length ≤ nameSize + bufSize := by decide
  have htoks : tokens isDelim (lineOf (bytes "[KJD_QT]DB@LAB@0@0@1@0@0@0")) =
      bytes "KJD_QT" :: bytes "DB" :: bytes "LAB" :: List.ofFn item3 := by decide +kernel
  have hstore : Storable (bytes "KJD_QT") (bytes "LAB") item3 ![0, 0, 1, 0, 0, 0] :=
    ⟨by decide +kernel, by decide +kernel, by decide +kernel, by decide +kernel, by decide +kernel⟩
  exact (insert_verbatim_iff hfit htoks (by decide) [] []).2 ⟨_, hstore⟩

/-- A breed with an escaped quote is stored without its backslash. -/
theorem escaped_quote_stored : ¬ ∀ (bs name breed : List Byte) (item : Fin 6 → List Byte),
    bs.length ≤ nameSize + bufSize →
    tokens isDelim (lineOf bs) = name :: bytes "DB" :: breed :: List.ofFn item →
    ∀ value : Fin 6 → Int, (∀ k, itemValue (item k) = some (value k)) →
    ∀ (w : Nat) (T : List Row) (pArray : List (Option Nat)), 32 ≤ w → Inserts w T pArray bs ⟨name, breed, value⟩ := by
  intro h
  have hfit : (bytes "[KJD_QT]DB@a\\\"b@1@1@1@1@1@1").length ≤ nameSize + bufSize := by decide
  have htoks : tokens isDelim (lineOf (bytes "[KJD_QT]DB@a\\\"b@1@1@1@1@1@1")) =
      bytes "KJD_QT" :: bytes "DB" :: bytes "a\\\"b" :: List.ofFn fun _ : Fin 6 => bytes "1" := by decide +kernel
  have hins := h _ _ _ _ hfit htoks (fun _ => 1) (fun _ => by decide +kernel) 64 [] [] (by decide)
  have hbare := ((inserts_iff hfit htoks 64 [] [] _).1 hins).2.1.2
  exact absurd hbare (by decide +kernel)

/-! ## Statements of relayed messages -/

section Relayed

variable {T₀ : Fin maxClnt → ClientInfo} {i : Fin maxClnt} {signed : Bool} {pArray pa : List (Option Nat)} {m : MsgInfo}

/-- A relayed message is read as a whole, and its first token is the sender. -/
theorem relayed_tokens (hT : SameIds T₀ clientInfo₀) {bs : List Byte} (hle : bs.length ≤ Server.bufSize - 1)
    (hm : clntRead signed (T₀ i) pArray bs = .ok (m, pa)) : ∃ text, m.msg = tagged (T₀ i).id text ∧
      m.msg.length ≤ nameSize + bufSize ∧ lineOf m.msg = m.msg ∧
      tokens isDelim m.msg = (T₀ i).id :: tokens isDelim text := by
  obtain ⟨text, hmsg, h0, hlen⟩ := clntRead_text hle hm
  have hid := clientId_word i
  rw [← (hT i).1] at hid
  obtain ⟨hne, hlen', hw⟩ := hid
  refine ⟨text, hmsg, ?_, lineOf_eq fun c hc => ?_, ?_⟩
  · rw [hmsg]
    simp only [tagged, List.length_append, List.length_cons, nameSize, bufSize]
    unfold Server.bufSize at hlen
    omega
  · rw [hmsg, tagged, List.cons_append, List.mem_cons, List.mem_append, List.mem_cons] at hc
    rcases hc with rfl | hc | rfl | hc
    · decide
    · exact (hw c hc).2
    · decide
    · exact h0 c hc
  · rw [hmsg, tagged, List.cons_append, tokens_cons_delim (by decide),
      tokens_word_cons hne (fun c hc => (hw c hc).1) (by decide)]

/-- So a relayed message that becomes an `INSERT` has the sender's id as its name, and the other tokens in its
payload. -/
theorem relayed_insert (hT : SameIds T₀ clientInfo₀) {r : Read}
    (hm : clntRead signed (T₀ i) pArray r.bytes = .ok (m, pa))
    {w : Nat} {T : List Row} {pArray' pa' : List (Option Nat)} {cmd : List Byte}
    (h : recvMsg w T pArray' m.msg = .ok (pa', .insert cmd)) : ∃ text breed, ∃ item : Fin 6 → List Byte,
      m.msg = tagged (T₀ i).id text ∧ tokens isDelim m.msg = (T₀ i).id :: tokens isDelim text ∧
      tokens isDelim text = bytes "DB" :: breed :: List.ofFn item ∧ cmd = dbInsert w (T₀ i).id breed item := by
  obtain ⟨text, hmsg, hfit, hline, htoks⟩ := relayed_tokens hT r.fits hm
  obtain ⟨name, breed, item, htoks', rfl⟩ := recvMsg_tokens hfit h
  rw [hline, htoks] at htoks'
  obtain ⟨rfl, htext⟩ := List.cons.inj htoks'
  exact ⟨text, breed, item, hmsg, htoks, htext, rfl⟩

/-- **The statement of a relayed message fits into `sql_cmd`** iff the sender's id, the breed and the numbers have at
most 74 characters together. -/
theorem insert_fits_iff (hT : SameIds T₀ clientInfo₀) {r : Read}
    (hm : clntRead signed (T₀ i) pArray r.bytes = .ok (m, pa))
    {w : Nat} {T : List Row} {pArray' pa' : List (Option Nat)} {cmd : List Byte}
    (h : recvMsg w T pArray' m.msg = .ok (pa', .insert cmd)) : ∃ breed, ∃ item : Fin 6 → List Byte,
      tokens isDelim m.msg = (T₀ i).id :: bytes "DB" :: breed :: List.ofFn item ∧
      (cmd.length < sqlCmdSize ↔ room w (T₀ i).id breed item ≤ 74) := by
  obtain ⟨text, breed, item, -, htoks, htext, rfl⟩ := relayed_insert hT hm h
  exact ⟨breed, item, by rw [htoks, htext], dbInsert_fits_iff w _ breed item⟩

/-- The sale of product 3 to the owner of a Labrador. -/
def saleRead : Read where
  bytes := bytes "[KJD_SQL]DB@LAB@0@0@1@0@0@0"
  pos := by decide
  fits := by decide

theorem insert_fits_lab : ∃ (m : MsgInfo) (pa pa' : List (Option Nat)) (cmd : List Byte),
    clntRead true (clientInfo₀ slotQt) [] saleRead.bytes = .ok (m, pa) ∧
      recvMsg 64 [] [] m.msg = .ok (pa', .insert cmd) ∧ cmd.length < sqlCmdSize := by
  have hline : lineTokens saleRead.bytes = [bytes "KJD_SQL", bytes "DB@LAB@0@0@1@0@0@0"] := by decide +kernel
  obtain ⟨pa, hm⟩ := clntRead_ok hline (by rw [hline]; decide) true (clientInfo₀ slotQt) []
  have hfit : (tagged (clientInfo₀ slotQt).id (bytes "DB@LAB@0@0@1@0@0@0")).length ≤ nameSize + bufSize := by decide
  have htoks : tokens isDelim (lineOf (tagged (clientInfo₀ slotQt).id (bytes "DB@LAB@0@0@1@0@0@0"))) =
      bytes "KJD_QT" :: bytes "DB" :: bytes "LAB" :: List.ofFn item3 := by decide +kernel
  obtain ⟨pa', hins⟩ := recvMsg_insert hfit htoks 64 [] []
  obtain ⟨breed, item, htoks', hiff⟩ := insert_fits_iff (fun _ => ⟨rfl, rfl⟩) hm hins
  refine ⟨_, pa, pa', _, hm, hins, hiff.2 ?_⟩
  -- the tokens are those of the message
  have hmsg : tokens isDelim (tagged (clientInfo₀ slotQt).id (bytes "DB@LAB@0@0@1@0@0@0")) =
      bytes "KJD_QT" :: bytes "DB" :: bytes "LAB" :: List.ofFn item3 := by decide +kernel
  have heq := htoks'.symm.trans hmsg
  simp only [List.cons.injEq, List.ofFn_inj, true_and] at heq
  obtain ⟨-, rfl, rfl⟩ := heq
  decide +kernel

/-- A sale with a breed of 63 letters. -/
def longRead : Read where
  bytes := bytes "[KJD_SQL]DB@" ++ List.replicate 63 65 ++ bytes "@1@1@1@1@1@1"
  pos := by decide
  fits := by decide

/-- The statement of this sale has 200 characters, and no room for its terminator. -/
theorem insert_overflows : ¬ ∀ (T₀ : Fin maxClnt → ClientInfo) (i : Fin maxClnt) (signed : Bool)
    (pArray pa : List (Option Nat))
    (m : MsgInfo) (r : Read), SameIds T₀ clientInfo₀ → clntRead signed (T₀ i) pArray r.bytes = .ok (m, pa) →
    m.dest = bytes "KJD_SQL" → ∀ (w : Nat) (T : List Row) (pArray' pa' : List (Option Nat)) (cmd : List Byte),
      recvMsg w T pArray' m.msg = .ok (pa', .insert cmd) → cmd.length < sqlCmdSize := by
  intro h
  let text := bytes "DB@" ++ List.replicate 63 65 ++ bytes "@1@1@1@1@1@1"
  have hline : lineTokens longRead.bytes = [bytes "KJD_SQL", text] := by decide +kernel
  obtain ⟨pa, hm⟩ := clntRead_ok hline (by rw [hline]; decide) true (clientInfo₀ slotQt) []
  have hfit : (tagged (clientInfo₀ slotQt).id text).length ≤ nameSize + bufSize := by decide +kernel
  have htoks : tokens isDelim (lineOf (tagged (clientInfo₀ slotQt).id text)) =
      bytes "KJD_QT" :: bytes "DB" :: List.replicate 63 65 :: List.ofFn fun _ : Fin 6 => bytes "1" := by decide +kernel
  obtain ⟨pa', hins⟩ := recvMsg_insert hfit htoks 64 [] []
  have hlen := h clientInfo₀ slotQt true [] pa _ longRead (fun _ => ⟨rfl, rfl⟩) hm rfl 64 [] [] pa' _ hins
  rw [dbInsert_fits_iff] at hlen
  exact absurd hlen (by decide +kernel)

/-- A payload of at most 70 bytes always fits. -/
theorem insert_fits_short (hT : SameIds T₀ clientInfo₀) {r : Read}
    (hm : clntRead signed (T₀ i) pArray r.bytes = .ok (m, pa))
    (hshort : m.msg.length ≤ (T₀ i).id.length + 72) {w : Nat} {T : List Row} {pArray' pa' : List (Option Nat)}
    {cmd : List Byte} (h : recvMsg w T pArray' m.msg = .ok (pa', .insert cmd)) : cmd.length < sqlCmdSize := by
  obtain ⟨text, breed, item, hmsg, -, htext, rfl⟩ := relayed_insert hT hm h
  have hid : (T₀ i).id.length ≤ 7 := by rw [(hT i).1]; exact clientId_length i
  -- the tokens share the payload, and a number is wider than its token by at most a tenth
  have hwidth (k : Fin 6) : (dec (atoi w (item k))).length ≤ (item k).length + (item k).length / 10 := by
    refine dec_atoi_length w (tokens_ne_nil (d := isDelim) (l := text) ?_)
    rw [htext]
    exact List.mem_cons_of_mem _ (List.mem_cons_of_mem _ (List.mem_ofFn.2 ⟨k, rfl⟩))
  have htotal := tokens_total isDelim text
  have hdb : (bytes "DB").length = 2 := rfl
  simp only [htext, List.flatten_cons, List.length_append, List.length_cons, List.length_flatten, List.map_ofFn,
    List.sum_ofFn, Function.comp_apply, List.length_ofFn, hdb] at htotal
  rw [hmsg, tagged, List.cons_append, List.length_cons, List.length_append, List.length_cons] at hshort
  rw [dbInsert_fits_iff, room]
  have h0 := hwidth 0
  have h1 := hwidth 1
  have h2 := hwidth 2
  have h3 := hwidth 3
  have h4 := hwidth 4
  have h5 := hwidth 5
  rw [Fin.sum_univ_six] at htotal ⊢
  omega

end Relayed

end PetVending.Sql
