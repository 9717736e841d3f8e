import PetVending.Server.Table
import Mathlib.Data.List.FinRange

/-!
# Relaying a message: `clnt_connection` and `send_msg`

- `clntRead` is what `clnt_connection` does with one read: it zeroes and fills `msg`, tokenises it into `pArray` and
  builds the `MsgInfo` from the first two entries;
- `sendMsg` gives the writes of `send_msg` for a table;
- `relays` handles the reads of one connection one after the other, `pArray` surviving from read to read.
-/

namespace PetVending.Server

open CStr

variable {n : Nat}

/-- `MSG_INFO`; the fields `from` and `to` are `sender` and `dest`, `len` is the length of `msg`. -/
structure MsgInfo where
  fd : Int
  sender : List Byte
  dest : List Byte
  msg : List Byte

/-- A descriptor stored in the field `char fd` of `MSG_INFO`; whether `char` is signed depends on the platform. -/
def charFd (signed : Bool) (fd : Int) : Int := if signed then (fd + 128) % 256 - 128 else fd % 256

/-- `"[%s]%s"` -/
def tagged (sender text : List Byte) : List Byte := 91 :: sender ++ 93 :: text

/-- A read of `clnt_connection` that delivers data: 1 to `sizeof(msg)-1` bytes. -/
structure Read where
  bytes : List Byte
  pos : 1 ≤ bytes.length
  fits : bytes.length ≤ bufSize - 1

/-- One round of the loop of `clnt_connection`, for a read of the bytes `bs`: the message to send, and `pArray`. -/
def clntRead (signed : Bool) (clientInfo : ClientInfo) (pArray : List (Option Nat)) (bs : List Byte) :
    Except Fault (MsgInfo × List (Option Nat)) :=
  match tokenise (bs ++ 0 :: List.replicate (bufSize - 1 - bs.length) 0) pArray with
  | .error f => .error f
  | .ok (b, pa) =>
    match str b pa 0, str b pa 1 with
    | .ok dest, .ok text => .ok (⟨charFd signed clientInfo.fd, clientInfo.id, dest, tagged clientInfo.id text⟩, pa)
    | .error f, _ => .error f
    | _, .error f => .error f

/-- The writes of `send_msg`: descriptor and text. `time` is what `getlocaltime` puts into the buffer. -/
def sendMsg (time : List Byte) (T : Fin n → ClientInfo) (m : MsgInfo) : List (Int × List Byte) :=
  if m.dest = bytes "ALLMSG" then
    ((List.finRange n).filter fun i => (T i).fd ≠ -1).map fun i => ((T i).fd, m.msg)
  else if m.dest = bytes "GETTIME" then [(m.fd, time)]
  else if m.dest = bytes "IDLIST" then
    [(m.fd, m.msg.dropLast ++
      ((List.finRange n).filter fun i => (T i).fd ≠ -1).flatMap (fun i => (T i).id ++ bytes " ") ++ bytes "\n")]
  else
    ((List.finRange n).filter fun i => (T i).fd ≠ -1 ∧ m.dest = (T i).id).map fun i => ((T i).fd, m.msg)

/-- The relays of a connection of the client `clientInfo`, one for each read: destination and text. -/
def relays (signed : Bool) (clientInfo : ClientInfo) :
    List (Option Nat) → List Read → Except Fault (List (List Byte × List Byte))
  | _, [] => .ok []
  | pArray, r :: reads =>
    match clntRead signed clientInfo pArray r.bytes with
    | .error f => .error f
    | .ok (m, pa) =>
      match relays signed clientInfo pa reads with
      | .error f => .error f
      | .ok l => .ok ((m.dest, m.msg) :: l)

variable {signed : Bool} {ci : ClientInfo} {pArray pa : List (Option Nat)} {bs : List Byte} {m : MsgInfo}

/-- A read with at least two tokens is relayed by its first two tokens. -/
theorem clntRead_ok {t u : List Byte} {l : List (List Byte)} (h : lineTokens bs = t :: u :: l)
    (hle : (lineTokens bs).length ≤ arrCnt) (signed : Bool) (ci : ClientInfo) (pArray : List (Option Nat)) :
    ∃ pa, clntRead signed ci pArray bs = .ok (⟨charFd signed ci.fd, ci.id, t, tagged ci.id u⟩, pa) := by
  obtain ⟨b, pa, ht, hstr, -⟩ := tokenise_ok hle (List.replicate (bufSize - 1 - bs.length) 0) pArray
  refine ⟨pa, ?_⟩
  simp only [clntRead, ht, hstr 0 t (by simp [h]), hstr 1 u (by simp [h])]

/-- Whatever a read is relayed as: the destination is its first token, if it has any, and the text behind the sender's
tag is made of bytes of this read. -/
theorem clntRead_spec (h : clntRead signed ci pArray bs = .ok (m, pa)) :
    (∀ t, (lineTokens bs)[0]? = some t → m.dest = t) ∧ ∃ text, m.msg = tagged ci.id text ∧ ∀ c ∈ text, c ∈ bs := by
  by_cases hle : (lineTokens bs).length ≤ arrCnt
  · obtain ⟨b, pa', ht, hstr, -, hb⟩ := tokenise_ok hle (List.replicate (bufSize - 1 - bs.length) 0) pArray
    simp only [clntRead, ht] at h
    split at h
    case h_2 => cases h
    case h_3 => cases h
    rename_i dest text h0 h1
    cases h
    refine ⟨fun t htok => ?_, text, rfl, fun c hc => ?_⟩
    · rw [hstr 0 t htok] at h0; cases h0; rfl
    · unfold str at h1
      split at h1
      · cases h1
        obtain ⟨hin, h0⟩ := mem_strAt hc
        rcases hb c hin with h | h
        · rcases List.mem_append.1 h with h | h
          · exact h
          · exact absurd (List.eq_of_mem_replicate h) h0
        · exact absurd h h0
      · cases h1
  · simp only [clntRead, tokenise_fault (not_le.1 hle)] at h
    cases h

/-- The text behind the sender's tag is a string in the buffer. -/
theorem clntRead_text (hle : bs.length ≤ bufSize - 1) (h : clntRead signed ci pArray bs = .ok (m, pa)) :
    ∃ text, m.msg = tagged ci.id text ∧ (∀ c ∈ text, c ≠ 0) ∧ text.length ≤ bufSize := by
  unfold clntRead at h
  split at h
  · cases h
  rename_i b pa' htok
  split at h
  · rename_i dest text hd ht
    cases h
    have hb : b.length = bufSize := by
      have hlen : b.length = (bs ++ 0 :: List.replicate (bufSize - 1 - bs.length) 0).length := by
        unfold tokenise at htok
        dsimp only at htok
        split at htok
        · cases htok; exact strtokLoop_length ..
        · cases htok
      rw [hlen, List.length_append, List.length_cons, List.length_replicate]
      unfold bufSize at hle ⊢
      omega
    refine ⟨text, rfl, ?_⟩
    unfold str at ht
    split at ht
    · rename_i p hp
      cases ht
      refine ⟨fun c hc => (mem_strAt hc).2, ?_⟩
      have hpre := (List.takeWhile_prefix (l := b.drop p) (· != 0)).length_le
      rw [List.length_drop, hb] at hpre
      exact hpre.trans (Nat.sub_le ..)
    · cases ht
  · cases h
  · cases h

/-- The relays of a connection whose first read is relayed. -/
theorem relays_cons {r : Read} {reads : List Read} {l : List (List Byte × List Byte)}
    (h : relays signed ci pArray (r :: reads) = .ok l) :
    ∃ m pa l', clntRead signed ci pArray r.bytes = .ok (m, pa) ∧ relays signed ci pa reads = .ok l' ∧
      l = (m.dest, m.msg) :: l' := by
  simp only [relays] at h
  split at h
  · cases h
  · rename_i m pa hm
    split at h
    · cases h
    · rename_i l' hl
      cases h
      exact ⟨m, pa, l', hm, hl, rfl⟩

/-- One relay for each read. -/
theorem relays_length {reads : List Read} : ∀ {pArray : List (Option Nat)} {l : List (List Byte × List Byte)},
    relays signed ci pArray reads = .ok l → l.length = reads.length := by
  induction reads with
  | nil => intro pArray l h; cases h; rfl
  | cons r reads ih =>
    intro pArray l h
    obtain ⟨m, pa, l', -, hl, rfl⟩ := relays_cons h
    simp [ih hl]

end PetVending.Server
