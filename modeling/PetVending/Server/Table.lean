import PetVending.Lib.Strtok
import Mathlib.Data.Fintype.Basic
import Mathlib.Logic.Function.Basic

/-!
# The client table of `iot_server.c`, and tokenising a line

- `ClientInfo` (`CLIENT_INFO`), the program's table `clientInfo₀` with its distinct ids;
- `Fault`: the undefined behaviours the modelled code can run into;
- `tokenise`: the `strtok` loop both `main` and `clnt_connection` run over their buffer, with its stores into
  `pArray`, and `str`, the string behind an entry of `pArray`;
- `tokenise_ok`, `tokenise_fault`: over a buffer that starts with a line and its terminator, the loop stores the
  line's tokens in front of what `pArray` held before, and leaves the array iff there are more than `arrCnt` tokens.
-/

namespace PetVending.Server

open CStr

/-! ## The table -/

/-- `BUF_SIZE` -/
def bufSize : Nat := 100

/-- `MAX_CLNT` -/
def maxClnt : Nat := 32

instance : NeZero maxClnt := ⟨Nat.succ_ne_zero 31⟩

/-- `ID_SIZE` -/
def idSize : Nat := 10

/-- `ARR_CNT` -/
def arrCnt : Nat := 10

/-- `CLIENT_INFO` -/
structure ClientInfo where
  index : Nat
  fd : Int
  ip : List Byte
  id : List Byte
  pw : List Byte
  deriving DecidableEq

/-- The ids of the initialiser of `client_info`, in order. -/
def clientIds : List (List Byte) :=
  ["KJD_SQL", "KJD_UBT", "KJD_ARD", "KJD_LIN", "KJD_AND", "KJD_BT", "KJD_STM", "KJD_JET", "KJD_QT", "10", "11", "12",
    "13", "14", "15", "16", "17", "18", "19", "20", "21", "22", "23", "24", "25", "26", "27", "28", "29", "30", "31",
    "HM_CON"].map bytes

/-- `{0,-1,"",id,"PASSWD"}` -/
def offline (id : List Byte) : ClientInfo := ⟨0, -1, [], id, bytes "PASSWD"⟩

/-- The table `main` starts with. -/
def clientInfo₀ (i : Fin maxClnt) : ClientInfo := offline (clientIds.getD i [])

/-- The slot of the kiosk, `KJD_QT`. -/
def slotQt : Fin maxClnt := 8

/-- Ids and passwords are never written: two tables of one run agree on them. -/
def SameIds {n : Nat} (T T' : Fin n → ClientInfo) : Prop := ∀ i, (T i).id = (T' i).id ∧ (T i).pw = (T' i).pw

/-- No two slots have the same id. -/
def Distinct {n : Nat} (T : Fin n → ClientInfo) : Prop := ∀ i j, (T i).id = (T j).id → i = j

theorem distinct₀ : Distinct clientInfo₀ := by
  intro i j h
  have hn : clientIds.Nodup := by decide
  have hi : i.val < clientIds.length := i.isLt
  have hj : j.val < clientIds.length := j.isLt
  simp only [clientInfo₀, offline, List.getD_eq_getElem?_getD, List.getElem?_eq_getElem hi,
    List.getElem?_eq_getElem hj, Option.getD_some] at h
  exact Fin.ext ((hn.getElem_inj_iff).1 h)

theorem SameIds.distinct {n : Nat} {T T' : Fin n → ClientInfo} (h : SameIds T T') (hd : Distinct T') : Distinct T :=
  fun i j hij => hd i j (by rw [← (h i).1, ← (h j).1, hij])

/-- Writing a slot's other fields keeps the ids. -/
theorem SameIds.update {n : Nat} {T T' : Fin n → ClientInfo} (h : SameIds T T') (i : Fin n) {c : ClientInfo}
    (hid : c.id = (T i).id) (hpw : c.pw = (T i).pw) : SameIds (Function.update T i c) T' := by
  intro j
  by_cases hj : j = i
  · subst hj; simp [hid, hpw, h j]
  · simp [hj, h j]

/-! ## Tokenising -/

/-- What the program may do wrong: hand an unset (NULL) token to a string function, store a token pointer behind
`pArray`, or store the terminator outside its buffer. -/
inductive Fault
  | nullToken
  | pArrayStore
  | terminatorStore
  deriving DecidableEq

/-- The delimiters `"[:]"`. -/
def isDelim (c : Byte) : Bool := c = 91 || c = 58 || c = 93

/-- The part of a read that the string functions see. -/
def lineOf (bs : List Byte) : List Byte := bs.takeWhile (· != 0)

/-- The tokens of a read. -/
def lineTokens (bs : List Byte) : List (List Byte) := tokens isDelim (lineOf bs)

/-- The loop `pArray[i] = pToken; if(i++ >= ARR_CNT) break; pToken = strtok(NULL,"[:]");` over a buffer. It stores up
to `arrCnt + 1` pointers; entries without a new token keep what they held. -/
def tokenise (b : List Byte) (pArray : List (Option Nat)) : Except Fault (List Byte × List (Option Nat)) :=
  let r := strtokLoop isDelim (arrCnt + 1) b 0
  if r.1.length ≤ arrCnt then .ok (r.2, r.1.map some ++ pArray.drop r.1.length) else .error .pArrayStore

/-- The string `pArray[j]`. -/
def str (b : List Byte) (pArray : List (Option Nat)) (j : Nat) : Except Fault (List Byte) :=
  match pArray[j]? with
  | some (some p) => .ok (strAt b p)
  | _ => .error .nullToken

/-- `pArray` keeps its size. -/
theorem tokenise_length {b b' : List Byte} {pArray pa : List (Option Nat)} (h : tokenise b pArray = .ok (b', pa))
    (hlen : pArray.length = arrCnt) : pa.length = arrCnt := by
  unfold tokenise at h
  dsimp only at h
  split at h
  · rename_i hle
    cases h
    simp only [List.length_append, List.length_map, List.length_drop]
    omega
  · cases h

/-- A read, its terminator and the rest of the buffer: the line, a terminator and some rest. -/
theorem line_split (bs post : List Byte) : ∃ post', bs ++ 0 :: post = lineOf bs ++ 0 :: post' := by
  induction bs with
  | nil => exact ⟨post, rfl⟩
  | cons c bs ih =>
    by_cases hc : c = 0
    · exact ⟨bs ++ 0 :: post, by simp [lineOf, hc]⟩
    · obtain ⟨post', h⟩ := ih
      exact ⟨post', by simpa [lineOf, hc] using h⟩

theorem lineOf_ne_zero (bs : List Byte) : ∀ c ∈ lineOf bs, c ≠ 0 :=
  fun _ hc => by simpa using List.mem_takeWhile_imp hc

theorem lineOf_eq {bs : List Byte} (h : ∀ c ∈ bs, c ≠ 0) : lineOf bs = bs :=
  List.takeWhile_eq_self_iff.2 fun c hc => by simpa using h c hc

theorem isDelim_zero : isDelim 0 = false := by decide

/-- **Tokenising a line**, with a buffer whose rest `post` and an array whose entries `pArray` are left over. -/
theorem tokenise_ok {bs : List Byte} (h : (lineTokens bs).length ≤ arrCnt) (post : List Byte)
    (pArray : List (Option Nat)) :
    ∃ b pa, tokenise (bs ++ 0 :: post) pArray = .ok (b, pa) ∧
      (∀ j t, (lineTokens bs)[j]? = some t → str b pa j = .ok t) ∧
      (∀ j, (lineTokens bs).length ≤ j → pa[j]? = pArray[j]?) ∧ ∀ c ∈ b, c ∈ bs ++ post ∨ c = 0 := by
  obtain ⟨post', hp⟩ := line_split bs post
  obtain ⟨offs, b', hl, -, hm, -, hb⟩ := strtokLoop_spec isDelim_zero post' (arrCnt + 1) [] _ (lineOf_ne_zero bs)
  simp only [List.nil_append, List.length_nil] at hl hm
  have htake : (tokens isDelim (lineOf bs)).take (arrCnt + 1) = lineTokens bs :=
    List.take_of_length_le (Nat.le_succ_of_le h)
  rw [htake] at hm
  have hlen : offs.length = (lineTokens bs).length := by rw [← hm, List.length_map]
  refine ⟨b' ++ 0 :: post', offs.map some ++ pArray.drop offs.length, ?_, ?_, ?_, ?_⟩
  · unfold tokenise
    rw [hp, hl]
    simp [hlen, h]
  · intro j t hj
    rw [← hm, List.getElem?_map, Option.map_eq_some_iff] at hj
    obtain ⟨p, hp, rfl⟩ := hj
    have hlt : j < (offs.map some).length := by rw [List.length_map]; exact (List.getElem?_eq_some_iff.1 hp).1
    simp [str, List.getElem?_append_left hlt, List.getElem?_map, hp]
  · intro j hj
    rw [List.getElem?_append_right (by rw [List.length_map]; omega), List.length_map, List.getElem?_drop]
    congr 1
    omega
  · intro c hc
    have hin : c ∈ lineOf bs ++ 0 :: post' ∨ c = 0 := by
      rcases List.mem_append.1 hc with h | h
      · rcases hb c h with h | h
        · exact .inl (List.mem_append_left _ h)
        · exact .inr h
      · exact .inl (List.mem_append_right _ h)
    rw [← hp, List.mem_append, List.mem_cons] at hin
    rw [List.mem_append]
    tauto

/-- A line with too many tokens: the loop stores behind the array. -/
theorem tokenise_fault {bs : List Byte} (h : arrCnt < (lineTokens bs).length) (post : List Byte)
    (pArray : List (Option Nat)) : tokenise (bs ++ 0 :: post) pArray = .error .pArrayStore := by
  obtain ⟨post', hp⟩ := line_split bs post
  obtain ⟨offs, b', hl, -, hm, -, -⟩ := strtokLoop_spec isDelim_zero post' (arrCnt + 1) [] _ (lineOf_ne_zero bs)
  simp only [List.nil_append, List.length_nil] at hl hm
  have hlen := congrArg List.length hm
  rw [List.length_map, List.length_take] at hlen
  have h' : arrCnt < (tokens isDelim (lineOf bs)).length := h
  unfold tokenise
  rw [hp, hl, if_neg (by simp only; omega)]

end PetVending.Server
