import PetVending.Server.Login
import PetVending.Server.Relay

/-!
# What the reads of the server store

- `readLogin` and `readMsg`: a read of `main` or of `clnt_connection`, its terminator and the `strtok` loop behind it
  (`mainIter_readLogin`, `clntRead_readMsg`);
- `HoldsTokens`: `pArray` holds the first `ARR_CNT` tokens of the read, in order;
- **`stores_iff`**: both stay inside their arrays iff there are at most `ARR_CNT` tokens, and the login read has
  delivered less than `idpasswd` holds. The loop stores the pointer before it compares the index, and `main` leaves no
  room for the terminator.
-/

namespace PetVending.Server

open CStr

/-! ## Reads -/

/-- The login read: its terminator, and the `strtok` loop unless the peer has closed. -/
def readLogin (rd : ReadRes) (idpasswd : List Byte) (pArray : List (Option Nat)) :
    Except Fault (List Byte × List (Option Nat)) :=
  match rd with
  -- `idpasswd[-1]`
  | .error => .error .terminatorStore
  | .data bs =>
    if bs.length < idpasswdSize then
      let buf := bs ++ 0 :: idpasswd.drop (bs.length + 1)
      if bs = [] then .ok (buf, pArray) else tokenise buf pArray
    else .error .terminatorStore

/-- What `main` does with the tokens of a login. -/
def afterLogin {n : Nat} (s : MainState n) (clntSock : Int) (ip b : List Byte) (pa : List (Option Nat)) :
    Except Fault (MainState n × Outcome n × List Byte) :=
  match str b pa 0 with
  | .error f => .error f
  | .ok id =>
    match scan s.clientInfo id (str b pa 1) (List.finRange n) with
    | .error f => .error f
    | .ok o =>
      let r := settle { s with idpasswd := b, pArray := pa } clntSock ip id o
      .ok (r.1, o, r.2)

/-- The login read is the one of the accept loop. -/
theorem mainIter_readLogin {n : Nat} {s : MainState n} {clntSock : Int} (hcnt : s.clntCnt < n) (hsock : 0 ≤ clntSock)
    (ip : List Byte) (rd : ReadRes) : mainIter s clntSock ip rd =
      match readLogin rd s.idpasswd s.pArray with
      | .error f => .error f
      | .ok (b, pa) =>
        match rd with
        | .data [] => .ok ({ s with idpasswd := b }, .noLogin, [])
        | _ => afterLogin s clntSock ip b pa := by
  unfold mainIter
  rw [if_neg (by omega), if_neg (by omega)]
  match rd with
  | .error => rfl
  | .data [] => rfl
  | .data (c :: cs) =>
    simp only [readLogin, afterLogin]
    split
    · rfl
    · rfl

/-- A message read of `clnt_connection`: `msg` is zeroed before it. -/
def readMsg (bs : List Byte) (pArray : List (Option Nat)) : Except Fault (List Byte × List (Option Nat)) :=
  tokenise (bs ++ 0 :: List.replicate (bufSize - 1 - bs.length) 0) pArray

theorem clntRead_readMsg (signed : Bool) (ci : ClientInfo) (pArray : List (Option Nat)) (bs : List Byte) :
    clntRead signed ci pArray bs =
      match readMsg bs pArray with
      | .error f => .error f
      | .ok (b, pa) =>
        match str b pa 0, str b pa 1 with
        | .ok dest, .ok text => .ok (⟨charFd signed ci.fd, ci.id, dest, tagged ci.id text⟩, pa)
        | .error f, _ => .error f
        | _, .error f => .error f := rfl

/-! ## Tokens -/

/-- `pArray` holds the first `ARR_CNT` tokens of the read. -/
def HoldsTokens (bs b : List Byte) (pa : List (Option Nat)) : Prop :=
  ∀ j t, ((lineTokens bs).take arrCnt)[j]? = some t → str b pa j = .ok t

/-- The loop stays inside `pArray` iff the array has an entry for every token. -/
theorem tokenise_holds_iff (bs post : List Byte) (pArray : List (Option Nat)) :
    (∃ b pa, tokenise (bs ++ 0 :: post) pArray = .ok (b, pa) ∧ HoldsTokens bs b pa) ↔
      (lineTokens bs).length ≤ arrCnt := by
  constructor
  · rintro ⟨b, pa, ht, -⟩
    by_contra hgt
    rw [tokenise_fault (not_le.1 hgt)] at ht
    cases ht
  · intro hle
    obtain ⟨b, pa, ht, hstr, -⟩ := tokenise_ok hle post pArray
    refine ⟨b, pa, ht, fun j t hj => hstr j t ?_⟩
    rwa [List.take_of_length_le hle] at hj

theorem lineTokens_nil : lineTokens [] = [] := by simp [lineTokens, lineOf]

/-- The stores of a login read are inside the arrays, and the tokens are there. -/
def LoginStores (rd : ReadRes) (idpasswd : List Byte) (pArray : List (Option Nat)) : Prop :=
  ∃ b pa, readLogin rd idpasswd pArray = .ok (b, pa) ∧ ∀ bs, rd = .data bs → HoldsTokens bs b pa

/-- The stores of a message read are inside the arrays, and the tokens are there. -/
def MsgStores (r : Read) (pArray : List (Option Nat)) : Prop :=
  ∃ b pa, readMsg r.bytes pArray = .ok (b, pa) ∧ HoldsTokens r.bytes b pa

theorem loginStores_iff (rd : ReadRes) (idpasswd : List Byte) (pArray : List (Option Nat)) :
    LoginStores rd idpasswd pArray ↔
      ∃ bs, rd = .data bs ∧ bs.length < idpasswdSize ∧ (lineTokens bs).length ≤ arrCnt := by
  cases rd with
  | error => exact iff_of_false (by rintro ⟨b, pa, h, -⟩; cases h) (by rintro ⟨bs, h, -⟩; cases h)
  | data bs =>
    simp only [LoginStores, readLogin, ReadRes.data.injEq, forall_eq', exists_eq_left']
    by_cases hlen : bs.length < idpasswdSize
    · simp only [hlen, if_true, true_and]
      by_cases hbs : bs = []
      · subst hbs
        rw [lineTokens_nil]
        refine iff_of_true ⟨_, _, rfl, fun j t hj => ?_⟩ (Nat.zero_le _)
        rw [lineTokens_nil] at hj
        simp at hj
      · rw [if_neg hbs]
        exact tokenise_holds_iff bs _ pArray
    · simp [hlen]

/-- **The reads stay inside their arrays**, whatever these hold before: the login read iff it delivers (or the peer has
closed) less than `idpasswd` holds and at most `ARR_CNT` tokens, a message read iff it has at most `ARR_CNT` tokens. -/
theorem stores_iff (rd : ReadRes) (r : Read) (idpasswd : List Byte) (pArray : List (Option Nat)) :
    (LoginStores rd idpasswd pArray ↔
      ∃ bs, rd = .data bs ∧ bs.length < idpasswdSize ∧ (lineTokens bs).length ≤ arrCnt) ∧
    (MsgStores r pArray ↔ (lineTokens r.bytes).length ≤ arrCnt) :=
  ⟨loginStores_iff rd idpasswd pArray, tokenise_holds_iff r.bytes _ pArray⟩

/-- Eleven tokens, of a login or of a message, leave `pArray`; a login of 23 bytes and a failed read leave
`idpasswd`. -/
theorem stores_outside :
    ¬ MsgStores ⟨bytes "A:B:C:D:E:F:G:H:I:J:K", by decide, by decide⟩ (List.replicate arrCnt none) ∧
    ¬ LoginStores (.data (bytes "A:B:C:D:E:F:G:H:I:J:K")) [] (List.replicate arrCnt none) ∧
    ¬ LoginStores (.data (List.replicate 23 65)) [] (List.replicate arrCnt none) ∧
    ¬ LoginStores .error [] (List.replicate arrCnt none) := by
  have h11 : ¬ (lineTokens (bytes "A:B:C:D:E:F:G:H:I:J:K")).length ≤ arrCnt := by decide +kernel
  refine ⟨fun h => h11 ((tokenise_holds_iff ..).1 h), ?_, ?_, ?_⟩
  · rw [loginStores_iff]
    rintro ⟨bs, hbs, -, hle⟩
    cases hbs
    exact h11 hle
  · rw [loginStores_iff]
    rintro ⟨bs, hbs, hlt, -⟩
    cases hbs
    revert hlt
    decide
  · rw [loginStores_iff]
    rintro ⟨bs, hbs, -⟩
    cases hbs

end PetVending.Server
