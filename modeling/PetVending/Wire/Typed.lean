import PetVending.Server.History
import PetVending.Wire.Visit

/-!
# Texts typed by hand

`iot_client.c` takes lines from the keyboard with `fgets`, in pieces of at most 99 bytes, and puts `[ALLMSG]` in front
of each piece that does not begin with a bracket; the kiosk sends what is in its two line edits as one text of any
length. The server takes at most 99 bytes with each read; each text comes to it in reads of its own, full ones first.

The loop of the console waits in `select` for input on descriptor 0 before each `fgets`. What `stdio` has already taken
over does not wake it, so of a line of several pieces those behind the first go out when more is typed. Here the rounds
are counted in which `fgets` is reached.

- `pieces`: a text in pieces of 99 bytes; both `fgets` (`fgets_pieces`) and the server's reads (`reads_bytes`) cut like
  this;
- `Stray`: a read without a delimiter that is no id: it is relayed to nobody (`relays_sent`);
- **`manual_sent`**: a text of the kiosk for `d` reaches `d` alone, and is cut at the end of the first read;
- **`typed_sent`**: a line of the console for `d` is cut there as well, and what is behind goes to everybody, the first
  91 bytes of each 99, up to a piece that happens to be `quit`.
-/

namespace PetVending.Wire

open CStr Server

/-! ## Pieces -/

/-- The text in pieces of `BUF_SIZE-1` bytes. -/
def pieces (bs : List Byte) : List (List Byte) :=
  if bs = [] then [] else bs.take (bufSize - 1) :: pieces (bs.drop (bufSize - 1))
termination_by bs.length
decreasing_by
  have hpos : 0 < bs.length := List.length_pos_iff.2 ‹_›
  rw [List.length_drop, bufSize]
  omega

theorem pieces_nil : pieces [] = [] := by rw [pieces, if_pos rfl]

theorem pieces_cons {bs : List Byte} (h : bs ≠ []) :
    pieces bs = bs.take (bufSize - 1) :: pieces (bs.drop (bufSize - 1)) := by
  rw [pieces, if_neg h]

theorem pieces_short {bs : List Byte} (h : bs ≠ []) (hle : bs.length ≤ bufSize - 1) : pieces bs = [bs] := by
  rw [pieces_cons h, List.take_of_length_le hle, List.drop_of_length_le hle, pieces_nil]

theorem mem_pieces {p bs : List Byte} (h : p ∈ pieces bs) : p ≠ [] ∧ p.length ≤ bufSize - 1 ∧ ∀ c ∈ p, c ∈ bs := by
  fun_induction pieces bs with
  | case1 => cases h
  | case2 bs hbs ih =>
    rcases List.mem_cons.1 h with rfl | h
    · refine ⟨?_, List.length_take_le _ _, fun c hc => List.mem_of_mem_take hc⟩
      rw [Ne, List.take_eq_nil_iff, not_or]
      exact ⟨by decide, hbs⟩
    · obtain ⟨hne, hle, hmem⟩ := ih h
      exact ⟨hne, hle, fun c hc => List.mem_of_mem_drop (hmem c hc)⟩

/-- Every piece is full, or ends as the text does. -/
theorem full_or_last {p bs : List Byte} (h : p ∈ pieces bs) : p.length = bufSize - 1 ∨ p.getLast? = bs.getLast? := by
  fun_induction pieces bs with
  | case1 => cases h
  | case2 bs hbs ih =>
    by_cases hshort : bs.length ≤ bufSize - 1
    · right
      rw [List.take_of_length_le hshort, List.drop_of_length_le hshort, pieces_nil, List.mem_singleton] at h
      rw [h]
    · rcases List.mem_cons.1 h with rfl | h
      · left
        rw [List.length_take]
        omega
      · have hlast : (bs.drop (bufSize - 1)).getLast? = bs.getLast? := by rw [List.getLast?_drop, if_neg hshort]
        rw [← hlast]
        exact ih h

/-! ## `fgets` -/

/-- `fgets(msg, BUF_SIZE, stdin)` and the rest of the input; it waits where there is neither a line feed nor enough. -/
def fgets (stdin : List Byte) : Option (List Byte × List Byte) :=
  let line := stdin.takeWhile (· != 10)
  if line.length < bufSize - 1 then
    if line.length < stdin.length then some (line ++ [10], stdin.drop (line.length + 1)) else none
  else some (stdin.take (bufSize - 1), stdin.drop (bufSize - 1))

/-- `name_msg` for a piece in `msg` -/
def nameMsg (msg : List Byte) : List Byte :=
  let msg := strAt (msg ++ [0]) 0
  if msg.head? ≠ some 91 then bytes "[ALLMSG]" ++ msg else msg

/-- `!strncmp(msg,"quit\n",5)` -/
def isQuit (msg : List Byte) : Bool := (strAt (msg ++ [0]) 0).take 5 = bytes "quit\n"

/-- The writes of `send_msg` in its first `k` rounds with a `fgets`: those in which `select` has found input on
descriptor 0 (not what is left in `stdio`'s own buffer). -/
def typed : Nat → List Byte → List (List Byte)
  | 0, _ => []
  | k + 1, stdin =>
    match fgets stdin with
    | none => []
    | some (msg, rest) => if isQuit msg then [] else nameMsg msg :: typed k rest

/-- A text with its line feed, and no other. -/
def Line (bs : List Byte) : Prop := ∃ w, bs = w ++ [10] ∧ 10 ∉ w

theorem fgets_pieces {bs : List Byte} (h : Line bs) : fgets bs = some (bs.take (bufSize - 1), bs.drop (bufSize - 1)) ∧
    (bs.drop (bufSize - 1) = [] ∨ Line (bs.drop (bufSize - 1))) := by
  obtain ⟨w, rfl, hw⟩ := h
  have hline : (w ++ [10]).takeWhile (· != 10) = w :=
    takeWhile_append_stop (fun x hx => by simpa using fun h : x = 10 => hw (h ▸ hx)) (by decide)
  have hlen : (w ++ [10]).length = w.length + 1 := List.length_append
  rw [fgets]
  simp only [hline]
  by_cases hshort : w.length < bufSize - 1
  · rw [if_pos hshort, if_pos (by omega), List.take_of_length_le (by omega), List.drop_of_length_le (by omega),
      List.drop_of_length_le (by omega)]
    exact ⟨rfl, .inl rfl⟩
  · rw [if_neg hshort]
    refine ⟨rfl, .inr ⟨w.drop (bufSize - 1), ?_, fun h => hw (List.mem_of_mem_drop h)⟩⟩
    rw [List.drop_append_of_le_length (not_lt.1 hshort)]

/-- **What the console writes of a line.** -/
theorem typed_line {bs : List Byte} (h : bs = [] ∨ Line bs) :
    ∀ k, typed k bs = (((pieces bs).take k).takeWhile fun p => !isQuit p).map nameMsg := by
  fun_induction pieces bs with
  | case1 =>
    intro k
    cases k with
    | zero => rfl
    | succ k => rfl
  | case2 bs hbs ih =>
    obtain ⟨hget, hrest⟩ := fgets_pieces (h.resolve_left hbs)
    intro k
    cases k with
    | zero => rfl
    | succ k =>
      simp only [typed, hget, List.take_succ_cons]
      cases hq : isQuit (bs.take (bufSize - 1)) with
      | true => simp [hq]
      | false => simp [hq, ih hrest k]

/-! ## The reads of the server -/

/-- The reads of a text that comes in one write. -/
def reads (bs : List Byte) : List Read :=
  (pieces bs).attach.map fun p =>
    ⟨p.1, List.length_pos_iff.2 (mem_pieces p.2).1, (mem_pieces p.2).2.1⟩

theorem reads_bytes (bs : List Byte) : (reads bs).map Read.bytes = pieces bs := by
  simp [reads, Function.comp_def]

/-- A byte of a text: no delimiter and no NUL. -/
def TextByte (c : Byte) : Prop := Server.isDelim c = false ∧ c ≠ 0

/-- An id, or a word for the server. -/
structure Dest (d : List Byte) : Prop where
  ne : d ≠ []
  text : ∀ c ∈ d, TextByte c
  short : d.length < idSize

instance : DecidablePred TextByte := fun c => inferInstanceAs (Decidable (Server.isDelim c = false ∧ c ≠ 0))

theorem textByte_newline : TextByte 10 := by decide

theorem dest_all : Dest (bytes "ALLMSG") := ⟨by decide, List.forall_iff_forall_mem.1 (by decide), by decide⟩

/-- No id: it has a line feed, or is too long. -/
def NoId (bs : List Byte) : Prop := 10 ∈ bs ∨ 8 ≤ bs.length

/-- A read without a delimiter, that is no id. -/
structure Stray (r : Read) : Prop where
  token : lineTokens r.bytes = [r.bytes]
  noId : NoId r.bytes

theorem tagged_ne_zero {d y : List Byte} (hd : Dest d) (hy : ∀ c ∈ y, TextByte c) : ∀ c ∈ tagged d y, c ≠ 0 := by
  intro c hc
  simp only [tagged, List.mem_append, List.mem_cons] at hc
  rcases hc with (rfl | hc) | rfl | hc
  · decide
  · exact (hd.text c hc).2
  · decide
  · exact (hy c hc).2

theorem lineTokens_tagged {d y : List Byte} (hd : Dest d) (hne : y ≠ []) (hy : ∀ c ∈ y, TextByte c) :
    lineTokens (tagged d y) = [d, y] := by
  rw [lineTokens, lineOf_eq (tagged_ne_zero hd hy), tagged, List.cons_append, tokens_cons_delim (by decide),
    tokens_word_cons hd.ne (fun c hc => (hd.text c hc).1) (by decide), tokens_word hne fun c hc => (hy c hc).1]

theorem lineTokens_text {y : List Byte} (hne : y ≠ []) (hy : ∀ c ∈ y, TextByte c) : lineTokens y = [y] := by
  rw [lineTokens, lineOf_eq fun c hc => (hy c hc).2, tokens_word hne fun c hc => (hy c hc).1]

/-- A tag and the text behind it, where a read ends. -/
theorem tagged_cut {d : List Byte} (hd : d.length < idSize) (y : List Byte) :
    (tagged d y).take (bufSize - 1) = tagged d (y.take (97 - d.length)) ∧
      (tagged d y).drop (bufSize - 1) = y.drop (97 - d.length) := by
  have hsum : bufSize - 1 = (91 :: d).length + (1 + (97 - d.length)) := by
    rw [List.length_cons]
    unfold idSize at hd
    unfold bufSize
    omega
  rw [tagged, hsum]
  constructor
  · rw [List.take_length_add_append, Nat.add_comm 1, List.take_succ_cons]
    rfl
  · rw [List.drop_length_add_append, Nat.add_comm 1, List.drop_succ_cons]

theorem cut_ne_nil {d y : List Byte} (hd : d.length < idSize) (hne : y ≠ []) : y.take (97 - d.length) ≠ [] := by
  unfold idSize at hd
  rw [Ne, List.take_eq_nil_iff, not_or]
  exact ⟨by omega, hne⟩

section Sent

variable (signed : Bool) (time : List Byte) (ci : ClientInfo) (T : Fin maxClnt → ClientInfo)

/-- What the server writes for a relay of the client `ci`. -/
def post (r : List Byte × List Byte) : List (Int × List Byte) := sendMsg time T ⟨charFd signed ci.fd, ci.id, r.1, r.2⟩

/-- What the server writes for the texts of the client `ci`. -/
def sent (pArray : List (Option Nat)) (texts : List (List Byte)) : Except Fault (List (Int × List Byte)) :=
  (relays signed ci pArray (texts.flatMap reads)).map fun rs => rs.flatMap (post signed time ci T)

variable {signed time ci T} {pArray pa : List (Option Nat)} {m : MsgInfo}

/-- Nobody has a text for an id. -/
theorem post_noId (hT : SameIds T clientInfo₀) {bs : List Byte} (h : NoId bs) (text : List Byte) :
    post signed time ci T (bs, text) = [] := by
  have hne (id : List Byte) (hid : 10 ∉ id ∧ id.length < 8) : bs ≠ id := by
    rintro rfl
    exact h.elim hid.1 (not_le.2 hid.2)
  have hids : ∀ i, 10 ∉ (clientInfo₀ i).id ∧ (clientInfo₀ i).id.length < 8 := by decide
  have hspecial : bs ∉ special := by
    simp only [special, List.mem_cons, List.not_mem_nil, or_false, not_or]
    exact ⟨hne _ (by decide), hne _ (by decide), hne _ (by decide)⟩
  rw [post, sendMsg_enc time T hspecial, slotsOf, List.filter_eq_nil_iff.2, List.map_nil]
  intro i _
  rw [decide_eq_true_iff, not_and, (hT i).1]
  exact fun _ => hne _ (hids i)

/-- A read that is relayed has set `pArray[1]`. -/
theorem clntRead_set {bs : List Byte} (h : clntRead signed ci pArray bs = .ok (m, pa)) :
    ∃ p, pa[1]? = some (some p) := by
  unfold clntRead at h
  split at h
  · cases h
  split at h
  · rename_i htext
    cases h
    unfold str at htext
    split at htext
    · rename_i p hp
      exact ⟨p, hp⟩
    · cases htext
  · cases h
  · cases h

theorem relays_next {r : Read} (h : clntRead signed ci pArray r.bytes = .ok (m, pa)) (rs : List Read) :
    (relays signed ci pArray (r :: rs)).map (fun out => out.flatMap (post signed time ci T)) =
      (relays signed ci pa rs).map fun out => post signed time ci T (m.dest, m.msg) ++
        out.flatMap (post signed time ci T) := by
  simp only [relays, h]
  cases relays signed ci pa rs with
  | error f => rfl
  | ok out => rfl

/-- **Reads that are complete or stray**: the first are relayed by their own tokens, the others to nobody. -/
theorem relays_sent (hT : SameIds T clientInfo₀) : ∀ (rs : List Read) (pArray : List (Option Nat)),
    (∀ r ∈ rs, Complete r ∨ Stray r) → ((∃ p, pArray[1]? = some (some p)) ∨ ∀ r ∈ rs.head?, Complete r) →
    (relays signed ci pArray rs).map (fun out => out.flatMap (post signed time ci T)) =
      .ok (rs.flatMap fun r => if Complete r then post signed time ci T (ownRelay ci r) else [])
  | [], _, _, _ => rfl
  | r :: rs, pArray, hall, hset => by
    obtain ⟨hr, hall⟩ := List.forall_mem_cons.1 hall
    have next {m : MsgInfo} {pa : List (Option Nat)} (hread : clntRead signed ci pArray r.bytes = .ok (m, pa)) :
        (relays signed ci pArray (r :: rs)).map (fun out => out.flatMap (post signed time ci T)) =
          .ok (post signed time ci T (m.dest, m.msg) ++
            rs.flatMap fun r => if Complete r then post signed time ci T (ownRelay ci r) else []) := by
      have ih := relays_sent hT rs pa hall (.inl (clntRead_set hread))
      rw [relays_next hread]
      cases hrs : relays signed ci pa rs with
      | error f => rw [hrs] at ih; cases ih
      | ok out =>
        rw [hrs] at ih
        exact congrArg (fun x => Except.ok (_ ++ x)) (Except.ok.inj ih)
    rw [List.flatMap_cons]
    by_cases hc : Complete r
    · obtain ⟨pa, hread⟩ := clntRead_complete hc signed ci pArray
      rw [next hread, if_pos hc]
    · obtain ⟨htok, hno⟩ := hr.resolve_left hc
      obtain ⟨p, hp⟩ := hset.resolve_right fun h => hc (h r rfl)
      have hread : ∃ b pa, _ ∧ clntRead signed ci pArray r.bytes =
          .ok (⟨charFd signed ci.fd, ci.id, _, tagged ci.id (strAt b p)⟩, pa) :=
        clntRead_stale htok hp
      obtain ⟨b, pa, -, hread⟩ := hread
      rw [next hread, if_neg hc, post_noId hT hno]

/-- A text for `d` that is taken apart without harm: what comes with the reads behind the first is no id. -/
structure Sendable (d y : List Byte) : Prop where
  dest : Dest d
  ne : y ≠ []
  text : ∀ c ∈ y, TextByte c
  tail : ∀ p ∈ pieces (y.drop (97 - d.length)), NoId p

variable (ci) in
/-- The first read of a text, and the others. -/
theorem reads_tagged {d y : List Byte} (h : Sendable d y) : ∃ r rs, reads (tagged d y) = r :: rs ∧ Complete r ∧
    ownRelay ci r = (d, tagged ci.id (y.take (97 - d.length))) ∧ ∀ r' ∈ rs, Stray r' := by
  obtain ⟨htake, hdrop⟩ := tagged_cut h.dest.short y
  have hbytes : (reads (tagged d y)).map Read.bytes =
      tagged d (y.take (97 - d.length)) :: pieces (y.drop (97 - d.length)) := by
    rw [reads_bytes, pieces_cons (by simp [tagged]), htake, hdrop]
  obtain ⟨r, rs, hreads, hr, hrs⟩ := List.map_eq_cons_iff.1 hbytes
  have htok : lineTokens r.bytes = [d, y.take (97 - d.length)] := by
    rw [hr]
    exact lineTokens_tagged h.dest (cut_ne_nil h.dest.short h.ne) fun c hc => h.text c (List.mem_of_mem_take hc)
  refine ⟨r, rs, hreads, ?_, ?_, fun r' hr' => ?_⟩
  · rw [Complete, htok]
    exact ⟨le_refl 2, show 2 ≤ arrCnt by decide⟩
  · rw [ownRelay, htok]
    rfl
  · have hmem : r'.bytes ∈ pieces (y.drop (97 - d.length)) := hrs ▸ List.mem_map_of_mem hr'
    obtain ⟨hne', -, hin⟩ := mem_pieces hmem
    exact ⟨lineTokens_text hne' fun c hc => h.text c (List.mem_of_mem_drop (hin c hc)), h.tail _ hmem⟩

theorem Stray.not_complete {r : Read} (h : Stray r) : ¬ Complete r := by
  rw [Complete, h.token]
  exact fun hc => absurd hc.1 (by simp)

variable (signed time ci) in
/-- **Texts are cut at the end of their first reads**, and nobody gets what is behind. -/
theorem sent_tagged (hT : SameIds T clientInfo₀) (pArray : List (Option Nat)) {ws : List (List Byte × List Byte)}
    (hws : ∀ w ∈ ws, Sendable w.1 w.2) : sent signed time ci T pArray (ws.map fun w => tagged w.1 w.2) =
      .ok (ws.flatMap fun w => post signed time ci T (w.1, tagged ci.id (w.2.take (97 - w.1.length)))) := by
  have hall : ∀ r ∈ (ws.map fun w => tagged w.1 w.2).flatMap reads, Complete r ∨ Stray r := by
    intro r hr
    obtain ⟨text, htext, hr⟩ := List.mem_flatMap.1 hr
    obtain ⟨w, hw, rfl⟩ := List.mem_map.1 htext
    obtain ⟨r₀, rs, hreads, hc, -, hstray⟩ := reads_tagged ci (hws w hw)
    rw [hreads, List.mem_cons] at hr
    rcases hr with rfl | hr
    · exact .inl hc
    · exact .inr (hstray r hr)
  have hhead : ∀ r ∈ ((ws.map fun w => tagged w.1 w.2).flatMap reads).head?, Complete r := by
    intro r hr
    cases ws with
    | nil => cases hr
    | cons w ws =>
      obtain ⟨r₀, rs, hreads, hc, -⟩ := reads_tagged ci (hws w List.mem_cons_self)
      rw [List.map_cons, List.flatMap_cons, hreads] at hr
      cases hr
      exact hc
  rw [sent, relays_sent hT _ _ hall (.inr hhead), List.flatMap_assoc, List.flatMap_map]
  congr 1
  apply List.flatMap_congr
  intro w hw
  obtain ⟨r, rs, hreads, hc, hown, hstray⟩ := reads_tagged ci (hws w hw)
  rw [hreads, List.flatMap_cons, if_pos hc, hown, List.flatMap_eq_nil_iff.2, List.append_nil]
  intro r' hr'
  rw [if_neg (hstray r' hr').not_complete]

/-- The pieces of what is left of a line are no ids. -/
theorem noId_pieces {bs p : List Byte} (h : bs = [] ∨ bs.getLast? = some 10) (hp : p ∈ pieces bs) : NoId p := by
  rcases full_or_last hp with hfull | hlast
  · right
    rw [hfull]
    decide
  · rcases h with rfl | h
    · rw [pieces_nil] at hp
      cases hp
    · exact .inl (List.mem_of_getLast? (hlast.trans h))

theorem last_drop {y : List Byte} (h : y.getLast? = some 10) (k : Nat) :
    y.drop k = [] ∨ (y.drop k).getLast? = some 10 := by
  by_cases hk : y.length ≤ k
  · exact .inl (List.drop_of_length_le hk)
  · exact .inr (by rw [List.getLast?_drop, if_neg hk, h])

end Sent

/-! ## The kiosk -/

/-- An ASCII text of a line edit. -/
structure LineText where
  text : Kiosk.QString
  ascii : ∀ u ∈ text, u < 128

def LineText.bytes (q : LineText) : List Byte := q.text.map fun u => u.toNat.toUInt8

/-- Where the text goes. -/
def LineText.dest (q : LineText) : List Byte := if q.text = [] then CStr.bytes "ALLMSG" else q.bytes

section Kiosk

variable {T : Fin maxClnt → ClientInfo} (hT : SameIds T clientInfo₀) (signed : Bool) (time : List Byte)
    (ci : ClientInfo)
  (pArray : List (Option Nat))

include hT

end Kiosk

/-- What is still to be written of a line, when its beginning has been: every piece goes to everybody. -/
def unnamed (k : Nat) (bs : List Byte) : List (List Byte) := ((pieces bs).take k).takeWhile fun p => !isQuit p

theorem nameMsg_text {p : List Byte} (h : ∀ c ∈ p, TextByte c) : nameMsg p = tagged (bytes "ALLMSG") p := by
  have hstr : strAt (p ++ [0]) 0 = p := strAt_nul [] fun c hc => (h c hc).2
  have hhead : p.head? ≠ some 91 := by
    intro hp
    have hbracket := (h 91 (List.mem_of_head? hp)).1
    revert hbracket
    decide
  rw [nameMsg]
  simp only [hstr]
  rw [if_pos hhead]
  rfl

theorem typed_text {bs : List Byte} (h : bs = [] ∨ Line bs) (ht : ∀ c ∈ bs, TextByte c) (k : Nat) :
    typed k bs = (unnamed k bs).map (tagged (bytes "ALLMSG")) := by
  rw [typed_line h]
  apply List.map_congr_left
  intro p hp
  have hmem : p ∈ pieces bs := List.mem_of_mem_take ((List.takeWhile_sublist _).subset hp)
  exact nameMsg_text fun c hc => ht c ((mem_pieces hmem).2.2 c hc)

/-- A piece with `[ALLMSG]` in front is taken apart without harm. -/
theorem sendable_piece {bs p : List Byte} (h : bs = [] ∨ bs.getLast? = some 10) (ht : ∀ c ∈ bs, TextByte c)
    (hp : p ∈ pieces bs) :
    Sendable (bytes "ALLMSG") p := by
  obtain ⟨hne, hle, hmem⟩ := mem_pieces hp
  refine ⟨dest_all, hne, fun c hc => ht c (hmem c hc), fun q hq => ?_⟩
  rcases full_or_last hp with hfull | hlast
  · -- of a full piece eight bytes are left
    have hq8 : (p.drop (97 - (bytes "ALLMSG").length)).length = 8 := by
      rw [List.length_drop, hfull]
      rfl
    rw [pieces_short (List.length_pos_iff.1 (hq8 ▸ Nat.succ_pos 7)) (hq8 ▸ by decide), List.mem_singleton] at hq
    exact .inr (by rw [hq, hq8])
  · rcases h with rfl | h
    · rw [pieces_nil] at hp
      cases hp
    · exact noId_pieces (last_drop (hlast.trans h) _) hq

section Console

variable {T : Fin maxClnt → ClientInfo} (hT : SameIds T clientInfo₀) (signed : Bool) (time : List Byte)
    (ci : ClientInfo)
  (pArray : List (Option Nat))

include hT

/-- **A line of the console for `d`**, without delimiters: what the first read holds goes to `d`, and what is behind
goes to everybody with the next rounds, 91 bytes of each piece of 99, up to a piece that is `quit`. -/
theorem typed_sent {d t : List Byte} (hd : Dest d) (hd10 : 10 ∉ d) (ht : ∀ c ∈ t, TextByte c) (ht10 : 10 ∉ t)
    (k : Nat) :
    sent signed time ci T pArray (typed (k + 1) (tagged d (t ++ [10]))) =
      .ok (post signed time ci T (d, tagged ci.id ((t ++ [10]).take (97 - d.length))) ++
        (unnamed k ((t ++ [10]).drop (97 - d.length))).flatMap fun p =>
          post signed time ci T (bytes "ALLMSG", tagged ci.id (p.take 91))) := by
  obtain ⟨htake, hdrop⟩ := tagged_cut hd.short (t ++ [10])
  have hty : ∀ c ∈ t ++ [10], TextByte c := List.forall_mem_append.2 ⟨ht, List.forall_mem_singleton.2 textByte_newline⟩
  have hlast : (t ++ [10]).getLast? = some 10 := by simp
  have hline : Line (tagged d (t ++ [10])) := by
    refine ⟨91 :: d ++ 93 :: t, by simp [tagged], ?_⟩
    simp [hd10, ht10]
  obtain ⟨hget, hrest⟩ := fgets_pieces hline
  rw [htake, hdrop] at hget
  rw [hdrop] at hrest
  -- the first piece is written as it is
  have hfirst : strAt (tagged d ((t ++ [10]).take (97 - d.length)) ++ [0]) 0 =
      tagged d ((t ++ [10]).take (97 - d.length)) :=
    strAt_nul [] (tagged_ne_zero hd fun c hc => hty c (List.mem_of_mem_take hc))
  have hquit : isQuit (tagged d ((t ++ [10]).take (97 - d.length))) = false := by
    rw [isQuit, hfirst, decide_eq_false_iff_not, tagged]
    exact fun h => absurd (List.cons.inj h).1 (by decide)
  have hname : nameMsg (tagged d ((t ++ [10]).take (97 - d.length))) = tagged d ((t ++ [10]).take (97 - d.length)) := by
    rw [nameMsg]
    simp only [hfirst]
    exact if_neg (not_not.2 rfl)
  have htail : ∀ c ∈ (t ++ [10]).drop (97 - d.length), TextByte c := fun c hc => hty c (List.mem_of_mem_drop hc)
  have hwrites : typed (k + 1) (tagged d (t ++ [10])) =
      ((d, (t ++ [10]).take (97 - d.length)) :: (unnamed k ((t ++ [10]).drop (97 - d.length))).map fun p =>
        (bytes "ALLMSG", p)).map fun w => tagged w.1 w.2 := by
    simp only [typed, hget, hquit, hname, typed_text hrest htail, List.map_cons, List.map_map]
    rfl
  have hws : ∀ w ∈ (d, (t ++ [10]).take (97 - d.length)) :: (unnamed k ((t ++ [10]).drop (97 - d.length))).map (fun p =>
      (bytes "ALLMSG", p)), Sendable w.1 w.2 := by
    rw [List.forall_mem_cons, List.forall_mem_map]
    constructor
    · refine ⟨hd, cut_ne_nil hd.short (by simp), fun c hc => hty c (List.mem_of_mem_take hc), ?_⟩
      rw [List.drop_take, Nat.sub_self, List.take_zero, pieces_nil]
      exact fun p hp => absurd hp List.not_mem_nil
    · intro p hp
      have hmem : p ∈ pieces ((t ++ [10]).drop (97 - d.length)) :=
        List.mem_of_mem_take ((List.takeWhile_sublist _).subset hp)
      exact sendable_piece (last_drop hlast _) htail hmem
  rw [hwrites, sent_tagged signed time ci hT pArray hws, List.flatMap_cons, List.flatMap_map, List.take_take,
    Nat.min_self]
  rfl

end Console

/-- A text of 95 bytes. -/
def longText : List Byte := List.replicate 95 97

/-- Six bytes of it go to everybody. -/
theorem typed_sent_long : sent true [] (clientInfo₀ 9) (online [slotQt, slotStm]) []
      (typed 2 (tagged (bytes "KJD_STM") (longText ++ [10]))) =
    .ok (post true [] (clientInfo₀ 9) (online [slotQt, slotStm])
        (bytes "KJD_STM", tagged (clientInfo₀ 9).id ((longText ++ [10]).take 90)) ++
      (unnamed 1 ((longText ++ [10]).drop 90)).flatMap fun p =>
        post true [] (clientInfo₀ 9) (online [slotQt, slotStm])
          (bytes "ALLMSG", tagged (clientInfo₀ 9).id (p.take 91))) :=
  have hd : Dest (bytes "KJD_STM") := ⟨by decide, List.forall_iff_forall_mem.1 (by decide), by decide⟩
  have ht : ∀ c ∈ longText, TextByte c := List.forall_iff_forall_mem.1 (by decide)
  typed_sent (online_sameIds _) true [] (clientInfo₀ 9) [] hd (by decide) ht (by decide) 1

end PetVending.Wire
