import PetVending.Server.History
import PetVending.Server.Stores
import Mathlib.Data.List.Flatten

/-!
# The strings that `clnt_connection` and `send_msg` format

- `strBuff`, `MsgInfo.msg` and `idlist`: the log line, the relayed text and the answer to `IDLIST`; `getlocaltime` is
  the answer to `GETTIME`;
- `strAt_stale`: what an entry of `pArray` that an earlier read has set points to, behind the `strtok` loop over a read
  with at most one token;
- the relayed text and the answer always fit (`msg_fits`, `idlist_fits`);
- **`strings_fit_iff`**: the log lines of a connection fit iff each read has two tokens, or is short enough for the old
  entries that it is logged with (`LogRoom`).
-/

namespace PetVending.Server

open CStr

/-! ## The strings -/

/-- The size of `strBuff`. -/
def strBuffSize : Nat := 130

/-- The size of `to_msg`. -/
def toMsgSize : Nat := maxClnt * idSize + 1

/-- The size of the `malloc` for `IDLIST`. -/
def idlistSize : Nat := idSize * maxClnt

/-- `"msg : [%s->%s] %s"` -/
def logLine (sender dest text : List Byte) : List Byte :=
  bytes "msg : [" ++ sender ++ bytes "->" ++ dest ++ bytes "] " ++ text

/-- What a read puts into `strBuff`. -/
def strBuff (ci : ClientInfo) (pArray : List (Option Nat)) (bs : List Byte) : Except Fault (List Byte) :=
  match readMsg bs pArray with
  | .error f => .error f
  | .ok (b, pa) =>
    match str b pa 0, str b pa 1 with
    | .ok dest, .ok text => .ok (logLine ci.id dest text)
    | .error f, _ => .error f
    | _, .error f => .error f

/-- The answer to `IDLIST`. -/
def idlist {n : Nat} (T : Fin n → ClientInfo) (m : MsgInfo) : List Byte :=
  m.msg.dropLast ++ ((List.finRange n).filter fun i => (T i).fd ≠ -1).flatMap (fun i => (T i).id ++ bytes " ") ++
    bytes "\n"

theorem sendMsg_idlist {n : Nat} (time : List Byte) (T : Fin n → ClientInfo) {m : MsgInfo}
    (h : m.dest = bytes "IDLIST") :
    sendMsg time T m = [(m.fd, idlist T m)] := by
  rw [sendMsg, h, if_neg (by decide), if_neg (by decide), if_pos rfl]
  rfl

/-- `struct tm`, as far as `getlocaltime` prints it. -/
structure Tm where
  year : Int
  mon : Int
  mday : Int
  hour : Int
  min : Int
  sec : Int
  wday : Fin 7

/-- `"%02d"` -/
def dec2 (z : Int) : List Byte := if (dec z).length < 2 then 48 :: dec z else dec z

/-- `wday` -/
def wday (k : Fin 7) : List Byte := bytes (["Sun", "Mon", "Tue", "Wed", "Thu", "Fri", "Sat"].getD k "")

/-- `getlocaltime` -/
def getlocaltime (t : Tm) : List Byte :=
  bytes "[GETTIME]" ++ dec2 (t.year + 1900 - 2000) ++ bytes "." ++ dec2 (t.mon + 1) ++ bytes "." ++ dec2 t.mday ++
    bytes " " ++ dec2 t.hour ++ bytes ":" ++ dec2 t.min ++ bytes ":" ++ dec2 t.sec ++ bytes " " ++ wday t.wday

/-- The strings formatted for a read fit into their buffers, with their terminators. -/
def StringsFit (signed : Bool) (T : Fin maxClnt → ClientInfo) (i : Fin maxClnt) (pArray : List (Option Nat))
    (bs : List Byte) : Prop :=
  (∀ l, strBuff (T i) pArray bs = .ok l → l.length < strBuffSize) ∧
    ∀ m pa, clntRead signed (T i) pArray bs = .ok (m, pa) → m.msg.length < toMsgSize ∧ (idlist T m).length < idlistSize

/-! ## What an old entry points to -/

/-- The C string at an offset of a zeroed buffer with a text in it. -/
theorem strAt_zeros {x : List Byte} (hx : ∀ c ∈ x, c ≠ 0) (m p : Nat) :
    (strAt (x ++ List.replicate m 0) p).length = x.length - p := by
  have hall : ∀ c ∈ x.drop p, (c != 0) = true := fun c hc => by simpa using hx c (List.mem_of_mem_drop hc)
  have hzero : (List.replicate (m - (p - x.length)) (0 : Byte)).takeWhile (· != 0) = [] := by
    cases m - (p - x.length) <;> rfl
  rw [strAt, List.drop_append, List.drop_replicate, List.takeWhile_append_of_pos hall, hzero, List.append_nil,
    List.length_drop]

/-- Where the first token of a read ends. -/
def tokenEnd (bs : List Byte) : Nat :=
  (bs.takeWhile isDelim).length + ((bs.dropWhile isDelim).takeWhile fun c => !isDelim c).length

/-- The length of the string at offset `p`, when the read has at most one token: up to the end of the token, or of the
read. -/
def staleLen (bs : List Byte) (p : Nat) : Nat := if p ≤ tokenEnd bs then tokenEnd bs - p else bs.length - p

/-- The first token ends behind its bytes. -/
theorem tokenEnd_token {ds w r : List Byte} (hds : ∀ x ∈ ds, isDelim x = true) (hne : w ≠ [])
    (hw : ∀ x ∈ w, isDelim x = false)
    (hr : r.takeWhile (fun c => !isDelim c) = []) : tokenEnd (ds ++ (w ++ r)) = (ds ++ w).length := by
  obtain ⟨a, w', rfl⟩ := List.exists_cons_of_ne_nil hne
  have ha : ¬ isDelim a = true := by simp [hw a]
  have hw' : ∀ x ∈ a :: w', (!isDelim x) = true := fun x hx => by simp [hw x hx]
  rw [tokenEnd, List.takeWhile_append_of_pos hds, List.dropWhile_append_of_pos hds, List.cons_append,
    List.takeWhile_cons_of_neg ha, List.dropWhile_cons_of_neg ha, ← List.cons_append, List.takeWhile_append_of_pos hw',
      hr]
  simp

/-- **What an old entry points to**: the string at offset `p` behind the loop over a read with at most one token. -/
theorem strAt_stale {bs : List Byte} (h0 : ∀ c ∈ bs, c ≠ 0) (hfew : (tokens isDelim bs).length ≤ 1) (k m p : Nat) :
    (strAt (strtokLoop isDelim (k + 1) (bs ++ 0 :: List.replicate m 0) 0).2 p).length = staleLen bs p := by
  have hzeros : (0 : Byte) :: List.replicate m 0 = List.replicate (m + 1) 0 := rfl
  cases split isDelim bs with
  | none _ hds =>
    have hloop := strtokLoop_delims isDelim_zero [] (List.replicate m 0) hds (k + 1)
    have hend : tokenEnd bs = bs.length := by
      rw [tokenEnd, List.takeWhile_eq_self_iff.2 hds, List.dropWhile_eq_nil_iff.2 hds]
      rfl
    rw [List.nil_append, List.length_nil, hzeros] at hloop
    rw [hzeros, hloop, strAt_zeros h0, staleLen, hend, ite_self]
  | last ds w hds hne hw =>
    have hw' : ∀ x ∈ w, isDelim x = false ∧ x ≠ 0 := fun x hx => ⟨hw x hx, h0 x (by simp [hx])⟩
    have hend : tokenEnd (ds ++ w) = (ds ++ w).length := by simpa using tokenEnd_token hds hne hw (r := []) rfl
    rw [strtokLoop_last isDelim_zero _ hds hne hw', hzeros, strAt_zeros h0, staleLen, hend, ite_self]
  | more ds w x l hds hne hw hx =>
    have hw' : ∀ x ∈ w, isDelim x = false ∧ x ≠ 0 := fun x hx => ⟨hw x hx, h0 x (by simp [hx])⟩
    -- no token behind the first
    have hl : ∀ x ∈ l, isDelim x = true := by
      rw [tokens_delims_append hds, tokens_word_cons hne hw hx, List.length_cons] at hfew
      exact tokens_eq_nil (List.length_eq_zero_iff.1 (by omega))
    have hend : tokenEnd (ds ++ (w ++ x :: l)) = (ds ++ w).length :=
      tokenEnd_token hds hne hw (List.takeWhile_cons_of_neg (by simp [hx]))
    have hbuf : ds ++ (w ++ x :: l) ++ 0 :: List.replicate m 0 = ds ++ w ++ x :: (l ++ 0 :: List.replicate m 0) := by
      simp
    rw [hbuf, strtokLoop_delims_behind isDelim_zero _ hds hne hw' hx hl, staleLen, hend]
    by_cases hp : p ≤ (ds ++ w).length
    · -- in front of the new terminator
      have hnul : ∀ c ∈ (ds ++ w).drop p, (c != 0) = true := by
        intro c hc
        have hc' := List.mem_of_mem_drop hc
        rw [List.mem_append] at hc'
        simpa using h0 c (by rw [← List.append_assoc, List.mem_append, List.mem_append]; exact .inl hc')
      rw [if_pos hp, strAt, List.drop_append_of_le_length hp, takeWhile_append_stop hnul rfl, List.length_drop]
    · -- behind it
      obtain ⟨q, hq⟩ := Nat.exists_eq_add_of_lt (not_le.1 hp)
      have hstr := strAt_append (ds ++ w ++ [0]) (l ++ List.replicate (m + 1) 0) q
      have hpos : (ds ++ w ++ [0]).length + q = p := by rw [List.length_append, List.length_singleton, hq]; omega
      have hl0 : ∀ c ∈ l, c ≠ 0 := fun c hc => h0 c (by simp [hc])
      rw [hpos, List.append_assoc, List.singleton_append] at hstr
      rw [if_neg hp, hzeros, hstr, strAt_zeros hl0, ← hpos]
      simp only [List.length_append, List.length_cons, List.length_nil]
      omega

/-! ## The log line -/

/-- The length of the string behind an entry that the read does not set. -/
def entryLen (pArray : List (Option Nat)) (bs : List Byte) (j : Nat) : Nat :=
  match pArray[j]? with
  | some (some p) => staleLen bs p
  | _ => 0

/-- The log line has room: the read has two tokens, or what the old entries point to is short enough. -/
def LogRoom (ci : ClientInfo) (pArray : List (Option Nat)) (bs : List Byte) : Prop :=
  match lineTokens bs with
  | [] => ci.id.length + entryLen pArray bs 0 + entryLen pArray bs 1 ≤ 118
  | [w] => ci.id.length + w.length + entryLen pArray bs 1 ≤ 118
  | _ => True

theorem logLine_fits_iff (sender dest text : List Byte) :
    (logLine sender dest text).length < strBuffSize ↔ sender.length + dest.length + text.length ≤ 118 := by
  have hlen : (bytes "msg : [").length = 7 ∧ (bytes "->").length = 2 ∧ (bytes "] ").length = 2 := by decide
  simp only [logLine, strBuffSize, List.length_append, hlen]
  omega

theorem tokenEnd_le (bs : List Byte) : tokenEnd bs ≤ bs.length := by
  have hsplit := congrArg List.length (List.takeWhile_append_dropWhile (p := isDelim) (l := bs))
  have hle := (List.takeWhile_prefix (l := bs.dropWhile isDelim) fun c => !isDelim c).length_le
  rw [List.length_append] at hsplit
  rw [tokenEnd]
  omega

theorem entryLen_le (pArray : List (Option Nat)) (bs : List Byte) (j : Nat) : entryLen pArray bs j ≤ bs.length := by
  unfold entryLen staleLen
  have := tokenEnd_le bs
  split
  · split <;> omega
  · exact Nat.zero_le _

/-- A read of at most 55 bytes always has room. -/
theorem logRoom_short {ci : ClientInfo} (hid : ci.id.length ≤ 7) {bs : List Byte} (hle : bs.length ≤ 55)
    (pArray : List (Option Nat)) : LogRoom ci pArray bs := by
  have hle0 := entryLen_le pArray bs 0
  have hle1 := entryLen_le pArray bs 1
  match htoks : lineTokens bs with
  | [] =>
    rw [LogRoom, htoks]
    simp only
    omega
  | [w] =>
    have hline : (lineOf bs).length ≤ bs.length := (List.takeWhile_prefix _).length_le
    have hw := tokens_length_le isDelim (lineOf bs) w (by rw [← lineTokens, htoks]; exact List.mem_singleton_self w)
    rw [LogRoom, htoks]
    simp only
    omega
  | _ :: _ :: _ => rw [LogRoom, htoks]; trivial

section Read

variable {bs b : List Byte} {pArray pa : List (Option Nat)}

/-- A read with at most one token: its entries, and what the old ones point to. -/
theorem readMsg_few (h0 : ∀ c ∈ bs, c ≠ 0) (hfew : (lineTokens bs).length ≤ 1) (pArray : List (Option Nat)) :
    ∃ b pa, readMsg bs pArray = .ok (b, pa) ∧ (∀ t, lineTokens bs = [t] → str b pa 0 = .ok t) ∧
      ∀ j, (lineTokens bs).length ≤ j → (∀ t, str b pa j = .ok t → t.length = entryLen pArray bs j) ∧
        ((∃ f, str b pa j = .error f) → entryLen pArray bs j = 0) := by
  have hle : (lineTokens bs).length ≤ arrCnt := hfew.trans (by decide)
  obtain ⟨b, pa, ht, hstr, hold, -⟩ := tokenise_ok hle (List.replicate (bufSize - 1 - bs.length) 0) pArray
  refine ⟨b, pa, ht, fun t h => hstr 0 t (by rw [h]; rfl), fun j hj => ?_⟩
  -- the buffer behind the loop
  have hstale : ∀ p, (strAt b p).length = staleLen bs p := by
    have hb : b = (strtokLoop isDelim (arrCnt + 1) (bs ++ 0 :: List.replicate (bufSize - 1 - bs.length) 0) 0).2 := by
      unfold tokenise at ht
      dsimp only at ht
      split at ht
      · cases ht; rfl
      · cases ht
    rw [lineTokens, lineOf_eq h0] at hfew
    intro p
    rw [hb, strAt_stale h0 hfew]
  rw [str, hold j hj, entryLen]
  cases hp : pArray[j]? with
  | none => exact ⟨fun t h => (by cases h), fun _ => rfl⟩
  | some o =>
    cases o with
    | none => exact ⟨fun t h => (by cases h), fun _ => rfl⟩
    | some p =>
      refine ⟨fun t h => ?_, fun hf => ?_⟩
      · cases h
        exact hstale p
      · obtain ⟨f, h⟩ := hf
        cases h

/-- The lengths of the two strings that are logged. -/
theorem readMsg_lengths (h0 : ∀ c ∈ bs, c ≠ 0) (h : readMsg bs pArray = .ok (b, pa)) {dest text : List Byte}
    (hd : str b pa 0 = .ok dest) (ht : str b pa 1 = .ok text) :
    (2 ≤ (lineTokens bs).length ∧ dest.length + text.length < bs.length) ∨
    (lineTokens bs = [dest] ∧ text.length = entryLen pArray bs 1) ∨
    (lineTokens bs = [] ∧ dest.length = entryLen pArray bs 0 ∧ text.length = entryLen pArray bs 1) := by
  match htoks : lineTokens bs with
  | [] =>
    obtain ⟨b', pa', hr, -, hold⟩ := readMsg_few h0 (by rw [htoks]; exact Nat.zero_le _) pArray
    rw [h] at hr
    cases hr
    rw [htoks] at hold
    exact .inr (.inr ⟨rfl, (hold 0 (Nat.zero_le _)).1 dest hd, (hold 1 (Nat.zero_le _)).1 text ht⟩)
  | [w] =>
    obtain ⟨b', pa', hr, hw, hold⟩ := readMsg_few h0 (by rw [htoks]; exact le_rfl) pArray
    rw [h] at hr
    cases hr
    have hdest := hw w htoks
    rw [hd] at hdest
    cases hdest
    rw [htoks] at hold
    exact .inr (.inl ⟨rfl, (hold 1 le_rfl).1 text ht⟩)
  | t :: u :: r =>
    have hle : (lineTokens bs).length ≤ arrCnt := by
      by_contra hgt
      rw [readMsg, tokenise_fault (not_le.1 hgt)] at h
      cases h
    obtain ⟨b', pa', hr, hstr, -⟩ := tokenise_ok hle (List.replicate (bufSize - 1 - bs.length) 0) pArray
    rw [readMsg, hr] at h
    cases h
    have h0' := hstr 0 t (by rw [htoks]; rfl)
    have h1' := hstr 1 u (by rw [htoks]; rfl)
    rw [hd] at h0'
    rw [ht] at h1'
    cases h0'
    cases h1'
    rw [lineTokens, lineOf_eq h0] at htoks
    exact .inl ⟨by simp, tokens_two_length htoks⟩

/-- A log line, and the strings that it is made of. -/
theorem strBuff_ok {ci : ClientInfo} {l : List Byte} (h : strBuff ci pArray bs = .ok l) :
    ∃ b pa dest text, readMsg bs pArray = .ok (b, pa) ∧ str b pa 0 = .ok dest ∧ str b pa 1 = .ok text ∧
      l = logLine ci.id dest text := by
  unfold strBuff at h
  split at h
  · cases h
  · rename_i b pa hr
    split at h
    · rename_i dest text hd ht
      cases h
      exact ⟨b, pa, dest, text, hr, hd, ht, rfl⟩
    · cases h
    · cases h

/-- A log line that fits, or a string that is not set. -/
theorem strBuff_cases {ci : ClientInfo} (hfits : ∀ l, strBuff ci pArray bs = .ok l → l.length < strBuffSize)
    (h : readMsg bs pArray = .ok (b, pa)) : (∃ f, str b pa 0 = .error f) ∨ (∃ f, str b pa 1 = .error f) ∨
      ∃ dest text, str b pa 0 = .ok dest ∧ str b pa 1 = .ok text ∧
        ci.id.length + dest.length + text.length ≤ 118 := by
  match hd : str b pa 0, ht : str b pa 1 with
  | .error f, _ => exact .inl ⟨f, rfl⟩
  | .ok _, .error f => exact .inr (.inl ⟨f, rfl⟩)
  | .ok dest, .ok text =>
    refine .inr (.inr ⟨dest, text, rfl, rfl, (logLine_fits_iff ..).1 (hfits _ ?_)⟩)
    rw [strBuff, h]
    simp only [hd, ht]

/-- **The log line of a read fits** iff it has room. -/
theorem strBuff_fits_iff (h0 : ∀ c ∈ bs, c ≠ 0) (hle : bs.length ≤ bufSize - 1) {ci : ClientInfo}
    (hid : ci.id.length ≤ 7) (pArray : List (Option Nat)) :
    (∀ l, strBuff ci pArray bs = .ok l → l.length < strBuffSize) ↔ LogRoom ci pArray bs := by
  have hle0 := entryLen_le pArray bs 0
  have hle1 := entryLen_le pArray bs 1
  have hbuf : bufSize - 1 = 99 := rfl
  constructor
  · intro hfits
    match htoks : lineTokens bs with
    | [] =>
      obtain ⟨b, pa, hr, -, hold⟩ := readMsg_few h0 (by rw [htoks]; exact Nat.zero_le _) pArray
      rw [htoks] at hold
      have h0' := hold 0 (Nat.zero_le _)
      have h1' := hold 1 (Nat.zero_le _)
      rw [LogRoom, htoks]
      rcases strBuff_cases hfits hr with hf | hf | ⟨dest, text, hd, ht, hlen⟩
      · have := h0'.2 hf
        simp only
        omega
      · have := h1'.2 hf
        simp only
        omega
      · rwa [h0'.1 dest hd, h1'.1 text ht] at hlen
    | [w] =>
      obtain ⟨b, pa, hr, hw, hold⟩ := readMsg_few h0 (by rw [htoks]; exact le_rfl) pArray
      rw [htoks] at hold
      have h1' := hold 1 le_rfl
      have hwlen : w.length ≤ bs.length := by
        rw [lineTokens, lineOf_eq h0] at htoks
        exact tokens_length_le isDelim bs w (by rw [htoks]; exact List.mem_singleton_self w)
      rw [LogRoom, htoks]
      rcases strBuff_cases hfits hr with ⟨f, hf⟩ | hf | ⟨dest, text, hd, ht, hlen⟩
      · rw [hw w htoks] at hf
        cases hf
      · have := h1'.2 hf
        simp only
        omega
      · rw [hw w htoks] at hd
        cases hd
        rwa [h1'.1 text ht] at hlen
    | _ :: _ :: _ => rw [LogRoom, htoks]; trivial
  · intro hroom l hl
    obtain ⟨b, pa, dest, text, hr, hd, ht, rfl⟩ := strBuff_ok hl
    rw [logLine_fits_iff]
    rcases readMsg_lengths h0 hr hd ht with ⟨-, hlen⟩ | ⟨htoks, htext⟩ | ⟨htoks, hdest, htext⟩
    · omega
    · rw [LogRoom, htoks] at hroom
      rwa [htext]
    · rw [LogRoom, htoks] at hroom
      rwa [hdest, htext]

end Read

/-! ## The other strings -/

variable {signed : Bool} {T : Fin maxClnt → ClientInfo} {i : Fin maxClnt} {pArray pa : List (Option Nat)}
    {bs : List Byte}
  {m : MsgInfo}

theorem clientId_length : ∀ i : Fin maxClnt, (clientInfo₀ i).id.length ≤ 7 := by decide

/-- The text that is relayed is no longer than the tag and the read. -/
theorem clntRead_length (hT : SameIds T clientInfo₀) (h0 : ∀ c ∈ bs, c ≠ 0)
    (h : clntRead signed (T i) pArray bs = .ok (m, pa)) :
    m.msg.length ≤ bs.length + 9 := by
  have hid : (T i).id.length ≤ 7 := by rw [(hT i).1]; exact clientId_length i
  have hle1 := entryLen_le pArray bs 1
  rw [clntRead_readMsg] at h
  split at h
  · cases h
  · rename_i b pa' hr
    split at h
    · rename_i dest text hd ht
      cases h
      have htext : text.length ≤ bs.length := by
        rcases readMsg_lengths h0 hr hd ht with ⟨-, hlen⟩ | ⟨-, htext⟩ | ⟨-, -, htext⟩ <;> omega
      simp only [tagged, List.length_append, List.length_cons]
      omega
    · cases h
    · cases h

/-- The ids of all clients, with their blanks. -/
theorem ids_length (hT : SameIds T clientInfo₀) :
    (((List.finRange maxClnt).filter fun i => (T i).fd ≠ -1).flatMap fun i => (T i).id ++ bytes " ").length ≤ 143 := by
  have hall : ((List.finRange maxClnt).flatMap fun i => (T i).id ++ bytes " ").length = 143 := by
    have hids : (fun i => (T i).id ++ bytes " ") = fun i => (clientInfo₀ i).id ++ bytes " " :=
      funext fun i => by rw [(hT i).1]
    rw [hids]
    decide +kernel
  rw [← hall]
  exact (List.filter_sublist.flatMap _).length_le

/-- The relayed text fits. -/
theorem msg_fits (hT : SameIds T clientInfo₀) (h0 : ∀ c ∈ bs, c ≠ 0) (hle : bs.length ≤ bufSize - 1)
    (h : clntRead signed (T i) pArray bs = .ok (m, pa)) : m.msg.length < toMsgSize := by
  have hlen := clntRead_length hT h0 h
  unfold toMsgSize maxClnt idSize
  unfold bufSize at hle
  omega

/-- The answer to `IDLIST` fits. -/
theorem idlist_fits (hT : SameIds T clientInfo₀) (h0 : ∀ c ∈ bs, c ≠ 0) (hle : bs.length ≤ bufSize - 1)
    (h : clntRead signed (T i) pArray bs = .ok (m, pa)) : (idlist T m).length < idlistSize := by
  have hlen := clntRead_length hT h0 h
  have hids := ids_length hT
  have hnl : (bytes "\n").length = 1 := rfl
  rw [idlist, List.length_append, List.length_append, List.length_dropLast, hnl]
  unfold idlistSize idSize maxClnt at *
  unfold bufSize at hle
  omega

/-! ## Connections -/

/-- The read `r` of a connection that sends `reads` is handled, and finds `pArray` as the reads before it have left
it. -/
def Finds (signed : Bool) (ci : ClientInfo) (reads : List Read) (pArray : List (Option Nat)) (r : Read) : Prop :=
  ∃ history, history ++ [r] <+: reads ∧ Leaves signed ci history pArray

/-- **The strings of a connection fit**, with any clients online, iff all its log lines have room. -/
theorem strings_fit_iff {reads : List Read} (h0 : ∀ r ∈ reads, ∀ c ∈ r.bytes, c ≠ 0) (signed : Bool) (i : Fin maxClnt) :
    (∀ pArray r, Finds signed (clientInfo₀ i) reads pArray r → ∀ T, SameIds T clientInfo₀ →
      StringsFit signed T i pArray r.bytes) ↔
    ∀ pArray r, Finds signed (clientInfo₀ i) reads pArray r → LogRoom (clientInfo₀ i) pArray r.bytes := by
  refine forall_congr' fun pArray => forall_congr' fun r => forall_congr' fun hfinds => ?_
  obtain ⟨history, ⟨rest, rfl⟩, -⟩ := hfinds
  have hr0 := h0 r (by simp)
  have hiff := strBuff_fits_iff hr0 r.fits (clientId_length i) pArray
  refine ⟨fun h => hiff.1 (h clientInfo₀ fun _ => ⟨rfl, rfl⟩).1, fun hroom T hT => ⟨?_, fun m pa hm => ?_⟩⟩
  · have hid : (T i).id = (clientInfo₀ i).id := (hT i).1
    intro l hl
    apply hiff.2 hroom l
    rw [← hl, strBuff, strBuff, hid]
  · exact ⟨msg_fits hT hr0 r.fits hm, idlist_fits hT hr0 r.fits hm⟩

/-- The kiosk orders a motor, and then asks for the time without a text. -/
def bareWord : List Read := [readOf "[KJD_STM]MOTOR@3" (by decide), readOf "[GETTIME]" (by decide)]

theorem bareWord_fits : (∀ r ∈ bareWord, ∀ c ∈ r.bytes, c ≠ 0) ∧
    ∀ pArray r, Finds true (clientInfo₀ slotQt) bareWord pArray r → ∀ T, SameIds T clientInfo₀ →
      StringsFit true T slotQt pArray r.bytes := by
  have h0 : ∀ r ∈ bareWord, ∀ c ∈ r.bytes, c ≠ 0 := by decide +kernel
  refine ⟨h0, (strings_fit_iff h0 true slotQt).2 fun pArray r hr => ?_⟩
  have hshort : ∀ r ∈ bareWord, r.bytes.length ≤ 55 := by decide
  obtain ⟨history, ⟨rest, hreads⟩, -⟩ := hr
  exact logRoom_short (clientId_length slotQt) (hshort r (by rw [← hreads]; simp)) pArray

/-- 99 bytes without a delimiter. -/
def longWord : Read := ⟨List.replicate 99 67, by decide, by decide⟩

theorem longWord_ne_zero : ∀ c ∈ longWord.bytes, c ≠ 0 := by
  intro c hc
  rw [List.eq_of_mem_replicate (a := (67 : Byte)) (n := 99) hc]
  decide

/-- Behind `A:B`, a long word is logged twice, without its first two bytes the second time. -/
theorem log_line_overflows : ¬ ∀ (reads : List Read) (signed : Bool) (i : Fin maxClnt),
    (∀ r ∈ reads, ∀ c ∈ r.bytes, c ≠ 0) → ∀ pArray r, Finds signed (clientInfo₀ i) reads pArray r →
      ∀ T, SameIds T clientInfo₀ → StringsFit signed T i pArray r.bytes := by
  intro h
  have h0 : ∀ r ∈ [readOf "A:B" (by decide), longWord], ∀ c ∈ r.bytes, c ≠ 0 :=
    List.forall_mem_cons.2 ⟨by decide +kernel, List.forall_mem_singleton.2 longWord_ne_zero⟩
  have hleaves : Leaves true (clientInfo₀ 0) [readOf "A:B" (by decide)] (some 0 :: some 2 :: List.replicate 8 none) :=
    rfl
  have hfits := h _ true 0 h0 _ longWord ⟨_, List.prefix_rfl, hleaves⟩ clientInfo₀ fun _ => ⟨rfl, rfl⟩
  have hroom := (strBuff_fits_iff longWord_ne_zero longWord.fits (clientId_length 0) _).1 hfits.1
  have htoks : lineTokens longWord.bytes = [longWord.bytes] := by decide +kernel
  have hentry : entryLen (some 0 :: some 2 :: List.replicate 8 none) longWord.bytes 1 = 97 := by decide +kernel
  have hlen : longWord.bytes.length = 99 := rfl
  rw [LogRoom, htoks] at hroom
  simp only [hentry, hlen] at hroom
  revert hroom
  decide

end PetVending.Server
