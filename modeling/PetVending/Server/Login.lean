import PetVending.Server.Table
import PetVending.Lib.Transition
import Mathlib.Data.List.FinRange

/-!
# The accept loop of `main`

`mainIter` is one iteration of `while(1)` in `main`: the capacity check, the login read into `idpasswd`, the `strtok`
loop into `pArray`, the scan of the table and its three outcomes. `idpasswd` and `pArray` are declared outside the
loop and never cleared, so they are part of the state.

- a login is decided by the bytes of its own read whenever these hold at least two tokens, or one that names no free
  slot (`LineOk`); this is exactly when nothing left over is looked at (`login_own_bytes_iff`);
- a rejected login leaves the table alone, up to the eviction of a named slot that is online.
-/

namespace PetVending.Server

open CStr Transition

/-! ## One iteration -/

/-- The variables of `main` that survive an iteration, and `clnt_cnt`. -/
structure MainState (n : Nat) where
  clientInfo : Fin n → ClientInfo
  clntCnt : Int
  idpasswd : List Byte
  pArray : List (Option Nat)

/-- The result of the login read: an error, or the bytes read, none at end of file. -/
inductive ReadRes
  | error
  | data (bs : List Byte)

/-- How an iteration ends. -/
inductive Outcome (n : Nat)
  | socketFull
  | acceptError
  | noLogin
  | alreadyLogged (i : Fin n)
  | connected (i : Fin n)
  | authError
  deriving DecidableEq

/-- `sizeof(idpasswd)` -/
def idpasswdSize : Nat := idSize * 2 + 3

variable {n : Nat}

/-- The loop over the table. The password token is looked at only in a slot with the right id that is free. -/
def scan (T : Fin n → ClientInfo) (id : List Byte) (pw : Except Fault (List Byte)) :
    List (Fin n) → Except Fault (Outcome n)
  | [] => .ok .authError
  | i :: is =>
    if (T i).id = id then
      if (T i).fd ≠ -1 then .ok (.alreadyLogged i)
      else
        match pw with
        | .error f => .error f
        | .ok p => if (T i).pw = p then .ok (.connected i) else scan T id pw is
    else scan T id pw is

/-- What the outcome does to the table and the counter, and the answer written to the new socket. -/
def settle (s : MainState n) (clntSock : Int) (ip id : List Byte) : Outcome n → MainState n × List Byte
  | .alreadyLogged i =>
    ({ s with clientInfo := Function.update s.clientInfo i { s.clientInfo i with fd := -1 } },
      bytes "[" ++ id ++ bytes "] Already logged!\n")
  | .connected i =>
    ({ s with
        clientInfo := Function.update s.clientInfo i { s.clientInfo i with index := i, fd := clntSock, ip := ip }
        clntCnt := s.clntCnt + 1 },
      bytes "[" ++ id ++ bytes "] New connected! (ip:" ++ ip ++ bytes ",fd:" ++ dec clntSock ++ bytes ",sockcnt:" ++
        dec (s.clntCnt + 1) ++ bytes ")\n")
  | .authError => (s, bytes "[" ++ id ++ bytes "] Authentication Error!\n")
  | _ => (s, [])

/-- One iteration of the accept loop: `accept` gave the socket `clntSock` of a peer with address `ip`, and the login
read gave `rd`. -/
def mainIter (s : MainState n) (clntSock : Int) (ip : List Byte) (rd : ReadRes) :
    Except Fault (MainState n × Outcome n × List Byte) :=
  if s.clntCnt ≥ n then .ok (s, .socketFull, [])
  else if clntSock < 0 then .ok (s, .acceptError, [])
  else
    match rd with
    | .error => .error .terminatorStore
    | .data bs =>
      if bs.length < idpasswdSize then
        let buf := bs ++ 0 :: s.idpasswd.drop (bs.length + 1)
        if bs = [] then .ok ({ s with idpasswd := buf }, .noLogin, [])
        else
          match tokenise buf s.pArray with
          | .error f => .error f
          | .ok (b, pa) =>
            match str b pa 0 with
            | .error f => .error f
            | .ok id =>
              match scan s.clientInfo id (str b pa 1) (List.finRange n) with
              | .error f => .error f
              | .ok o =>
                let r := settle { s with idpasswd := b, pArray := pa } clntSock ip id o
                .ok (r.1, o, r.2)
      else .error .terminatorStore

/-! ## The scan -/

section Scan

variable {T : Fin n → ClientInfo} {id : List Byte} {pw : Except Fault (List Byte)} {is : List (Fin n)}

theorem scan_connected {i : Fin n} (h : scan T id pw is = .ok (.connected i)) :
    (T i).id = id ∧ (T i).fd = -1 ∧ pw = .ok (T i).pw := by
  fun_induction scan T id pw is with
  | case1 => cases h
  | case2 => cases h
  | case3 => cases h
  | case4 j js hid hfd hpw =>
    cases h
    exact ⟨hid, not_not.1 hfd, hpw⟩
  | case5 j js hid hfd p hpw _ ih => exact ih (by rw [hpw]; exact h)
  | case6 _ _ _ ih => exact ih h

theorem scan_alreadyLogged {i : Fin n} (h : scan T id pw is = .ok (.alreadyLogged i)) :
    (T i).id = id ∧ (T i).fd ≠ -1 := by
  fun_induction scan T id pw is with
  | case1 => cases h
  | case2 j js hid hfd => cases h; exact ⟨hid, hfd⟩
  | case3 => cases h
  | case4 => cases h
  | case5 j js hid hfd p hpw _ ih => exact ih (by rw [hpw]; exact h)
  | case6 _ _ _ ih => exact ih h

/-- A scan ends as one of its three outcomes. -/
theorem scan_cases {o : Outcome n} (h : scan T id pw is = .ok o) :
    o = .authError ∨ (∃ i, o = .alreadyLogged i) ∨ ∃ i, o = .connected i := by
  fun_induction scan T id pw is with
  | case1 => cases h; exact .inl rfl
  | case2 j _ _ _ => cases h; exact .inr (.inl ⟨j, rfl⟩)
  | case3 => cases h
  | case4 j _ _ _ => cases h; exact .inr (.inr ⟨j, rfl⟩)
  | case5 j js hid hfd p hpw _ ih => exact ih (by rw [hpw]; exact h)
  | case6 _ _ _ ih => exact ih h

/-- With a password token the scan comes to an outcome. -/
theorem scan_ok (T : Fin n → ClientInfo) (id p : List Byte) (is : List (Fin n)) :
    ∃ o, scan T id (.ok p) is = .ok o := by
  induction is with
  | nil => exact ⟨_, rfl⟩
  | cons i is ih =>
    simp only [scan]
    split
    · split
      · exact ⟨_, rfl⟩
      · split
        · exact ⟨_, rfl⟩
        · exact ih
    · exact ih

/-- If the id names no free slot, the password token is not looked at. -/
theorem scan_no_free (h : ∀ i, (T i).id = id → (T i).fd ≠ -1) (pw' : Except Fault (List Byte)) :
    scan T id pw is = scan T id pw' is := by
  induction is with
  | nil => rfl
  | cons i is ih =>
    simp only [scan]
    split
    · rename_i hid
      rw [if_pos (h i hid), if_pos (h i hid)]
    · exact ih

/-- A slot that is named, free and scanned makes the scan look at the password token. -/
theorem scan_unset {i : Fin n} (hT : Distinct T) (hid : (T i).id = id) (hfd : (T i).fd = -1) (hi : i ∈ is) (f : Fault) :
    scan T id (.error f) is = .error f := by
  induction is with
  | nil => cases hi
  | cons j is ih =>
    simp only [scan]
    by_cases hj : (T j).id = id
    · have hji : j = i := hT j i (hj.trans hid.symm)
      subst hji
      simp [hj, hfd]
    · rw [if_neg hj]
      rcases List.mem_cons.1 hi with rfl | hi
      · exact absurd hid hj
      · exact ih hi

end Scan

/-! ## Lines decided by their own bytes -/

/-- A login line whose decision looks at nothing left over: at most `arrCnt` tokens, and at least two of them, or a
single one that names no free slot. -/
def LineOk (T : Fin n → ClientInfo) (bs : List Byte) : Prop :=
  (lineTokens bs).length ≤ arrCnt ∧
    (2 ≤ (lineTokens bs).length ∨ ∃ id, lineTokens bs = [id] ∧ ∀ i, (T i).id = id → (T i).fd ≠ -1)

/-- The decision on a line by its own tokens. -/
def decideLine (T : Fin n → ClientInfo) (bs : List Byte) : Except Fault (Outcome n) :=
  match lineTokens bs with
  | [] => .error .nullToken
  | [id] => scan T id (.error .nullToken) (List.finRange n)
  | id :: pw :: _ => scan T id (.ok pw) (List.finRange n)

/-- An iteration that reads a line. -/
structure Reads (s : MainState n) (clntSock : Int) (bs : List Byte) : Prop where
  room : s.clntCnt < n
  sock : 0 ≤ clntSock
  pos : 1 ≤ bs.length
  fits : bs.length < idpasswdSize

/-- **A line that is `LineOk` is decided by its own bytes**, whatever `idpasswd` and `pArray` held before. -/
theorem mainIter_lineOk {s : MainState n} {clntSock : Int} {bs : List Byte} (hr : Reads s clntSock bs)
    (h : LineOk s.clientInfo bs) (ip : List Byte) :
    ∃ o id b pa, decideLine s.clientInfo bs = .ok o ∧ (lineTokens bs)[0]? = some id ∧
      mainIter s clntSock ip (.data bs) =
        .ok ((settle { s with idpasswd := b, pArray := pa } clntSock ip id o).1, o,
          (settle { s with idpasswd := b, pArray := pa } clntSock ip id o).2) := by
  obtain ⟨hle, hcase⟩ := h
  obtain ⟨b, pa, ht, hstr, -⟩ := tokenise_ok hle (s.idpasswd.drop (bs.length + 1)) s.pArray
  have hne : bs ≠ [] := List.length_pos_iff.1 hr.pos
  have hcnt : ¬ s.clntCnt ≥ n := not_le.2 hr.room
  have hsock : ¬ clntSock < 0 := not_lt.2 hr.sock
  -- in both cases the scan sees the tokens of the line, and nothing else
  have key : ∃ o id, decideLine s.clientInfo bs = .ok o ∧ (lineTokens bs)[0]? = some id ∧
      scan s.clientInfo id (str b pa 1) (List.finRange n) = .ok o := by
    rcases hcase with h2 | ⟨id, hone, hfree⟩
    · obtain ⟨id, pw, l, hl⟩ : ∃ id pw l, lineTokens bs = id :: pw :: l := by
        match hl : lineTokens bs, h2 with
        | id :: pw :: l, _ => exact ⟨id, pw, l, rfl⟩
      obtain ⟨o, ho⟩ := scan_ok s.clientInfo id pw (List.finRange n)
      refine ⟨o, id, ?_, by simp [hl], ?_⟩
      · rw [decideLine, hl]; exact ho
      · rw [hstr 1 pw (by simp [hl])]; exact ho
    · obtain ⟨o, ho⟩ := scan_ok s.clientInfo id [] (List.finRange n)
      refine ⟨o, id, ?_, by simp [hone], ?_⟩
      · rw [decideLine, hone]; exact (scan_no_free hfree _).trans ho
      · exact (scan_no_free hfree _).trans ho
  obtain ⟨o, id, ho, hid, hscan⟩ := key
  refine ⟨o, id, b, pa, ho, hid, ?_⟩
  have hs0 := hstr 0 id hid
  simp only [mainIter, if_neg hcnt, if_neg hsock, if_pos hr.fits, if_neg hne, ht, hs0, hscan]

/-- A line decided as `connected i` has the id and the password of slot `i` as its first two tokens. -/
theorem decideLine_connected {T : Fin n → ClientInfo} {bs : List Byte} {i : Fin n}
    (h : decideLine T bs = .ok (.connected i)) :
    (lineTokens bs)[0]? = some (T i).id ∧ (lineTokens bs)[1]? = some (T i).pw := by
  unfold decideLine at h
  split at h
  · cases h
  · have := (scan_connected h).2.2
    cases this
  · rename_i hl
    obtain ⟨hid, -, hpw⟩ := scan_connected h
    cases hpw
    rw [hl]
    exact ⟨by simp [hid], by simp⟩

/-! ## The loop -/

/-- What `main` and the connection threads do to the variables of `main`: a connection accepted and read, or the exit
section of a thread for slot `i`. -/
inductive LoopAct (n : Nat)
  | conn (clntSock : Int) (ip : List Byte) (rd : ReadRes)
  | exit (i : Fin n)

def loopStep (s : MainState n) : LoopAct n → Option (MainState n)
  | .conn clntSock ip rd =>
    match mainIter s clntSock ip rd with
    | .ok r => some r.1
    | .error _ => none
  | .exit i =>
    some { s with
      clientInfo := Function.update s.clientInfo i { s.clientInfo i with fd := -1 }
      clntCnt := s.clntCnt - 1 }

/-- The start: the program's table, no token set, and whatever the stack held in `idpasswd`. -/
def loopStart (garbage : List Byte) : MainState maxClnt := ⟨clientInfo₀, 0, garbage, List.replicate arrCnt none⟩

theorem settle_sameIds {s : MainState n} {T : Fin n → ClientInfo} (h : SameIds s.clientInfo T) (clntSock : Int)
    (ip id : List Byte) (o : Outcome n) : SameIds (settle s clntSock ip id o).1.clientInfo T := by
  cases o with
  | alreadyLogged i => exact h.update i rfl rfl
  | connected i => exact h.update i rfl rfl
  | _ => exact h

/-- An iteration that does not go wrong keeps the ids. -/
theorem mainIter_sameIds {s t : MainState n} {T : Fin n → ClientInfo} {clntSock : Int} {ip w : List Byte} {rd : ReadRes}
    {o : Outcome n} (hs : SameIds s.clientInfo T) (h : mainIter s clntSock ip rd = .ok (t, o, w)) :
    SameIds t.clientInfo T := by
  unfold mainIter at h
  split at h
  · cases h; exact hs
  split at h
  · cases h; exact hs
  split at h
  · cases h
  split at h
  case isFalse => cases h
  dsimp only at h
  split at h
  · cases h; exact hs
  split at h
  · cases h
  split at h
  · cases h
  split at h
  · cases h
  · cases h
    apply settle_sameIds
    exact hs

/-- Every run keeps the ids of the program's table. -/
theorem loop_sameIds {garbage : List Byte} {s : MainState maxClnt} (h : Reach loopStep free (loopStart garbage) s) :
    SameIds s.clientInfo clientInfo₀ := by
  refine h.inv (I := fun s => SameIds s.clientInfo clientInfo₀) (fun i => ⟨rfl, rfl⟩) fun s a t hs _ hst => ?_
  cases a with
  | conn c ip rd =>
    simp only [loopStep] at hst
    split at hst
    · rename_i r hr
      obtain ⟨t', o, w⟩ := r
      cases hst
      exact mainIter_sameIds hs hr
    · cases hst
  | exit i => cases hst; exact hs.update i rfl rfl

/-- The decision on a line is taken on the line's own bytes: it is the same whatever `idpasswd` and `pArray` hold, and
it binds a slot only if the line's first two tokens are the slot's id and password. -/
def OwnDecision (s : MainState n) (clntSock : Int) (ip bs : List Byte) : Prop :=
  ∃ o w T k,
    (∀ idp pa, ∃ t, mainIter { s with idpasswd := idp, pArray := pa } clntSock ip (.data bs) = .ok (t, o, w) ∧
      t.clientInfo = T ∧ t.clntCnt = k) ∧
    ∀ i, o = .connected i →
      (lineTokens bs)[0]? = some (s.clientInfo i).id ∧ (lineTokens bs)[1]? = some (s.clientInfo i).pw

theorem settle_leftover (s : MainState n) (b b' : List Byte) (pa pa' : List (Option Nat)) (clntSock : Int)
    (ip id : List Byte) (o : Outcome n) :
    let r := settle { s with idpasswd := b, pArray := pa } clntSock ip id o
    let r' := settle { s with idpasswd := b', pArray := pa' } clntSock ip id o
    r.1.clientInfo = r'.1.clientInfo ∧ r.1.clntCnt = r'.1.clntCnt ∧ r.2 = r'.2 := by
  cases o <;> exact ⟨rfl, rfl, rfl⟩

/-- A line that is `LineOk` is decided on its own bytes. -/
theorem ownDecision_of_lineOk {s : MainState n} {clntSock : Int} {bs : List Byte} (hr : Reads s clntSock bs)
    (h : LineOk s.clientInfo bs) (ip : List Byte) : OwnDecision s clntSock ip bs := by
  obtain ⟨o, id, b, pa, ho, hid, -⟩ := mainIter_lineOk hr h ip
  let r := settle { s with idpasswd := b, pArray := pa } clntSock ip id o
  refine ⟨o, r.2, r.1.clientInfo, r.1.clntCnt, fun idp pa' => ?_, fun i hi => decideLine_connected (hi ▸ ho)⟩
  obtain ⟨o', id', b', pa'', ho', hid', hm⟩ :=
    mainIter_lineOk (s := { s with idpasswd := idp, pArray := pa' }) ⟨hr.room, hr.sock, hr.pos, hr.fits⟩ h ip
  have hoo : o' = o := by rw [ho] at ho'; cases ho'; rfl
  have hii : id' = id := by rw [hid] at hid'; cases hid'; rfl
  subst hoo hii
  obtain ⟨h1, h2, h3⟩ := settle_leftover s b b' pa pa'' clntSock ip id' o'
  exact ⟨_, by rw [hm]; simp only [r, h3], h1.symm, h2.symm⟩

/-- With every pointer of `pArray` still unset, a line that is not `LineOk` makes the iteration go wrong. -/
theorem mainIter_unset {s : MainState n} {clntSock : Int} {bs : List Byte} (hT : Distinct s.clientInfo)
    (hr : Reads s clntSock bs) (h : ¬ LineOk s.clientInfo bs) (ip : List Byte)
    (hpa : s.pArray = List.replicate arrCnt none) : ∃ f, mainIter s clntSock ip (.data bs) = .error f := by
  have hne : bs ≠ [] := List.length_pos_iff.1 hr.pos
  have hcnt : ¬ s.clntCnt ≥ n := not_le.2 hr.room
  have hsock : ¬ clntSock < 0 := not_lt.2 hr.sock
  simp only [mainIter, if_neg hcnt, if_neg hsock, if_pos hr.fits, if_neg hne]
  by_cases hle : (lineTokens bs).length ≤ arrCnt
  · obtain ⟨b, pa, ht, hstr, hrest, -⟩ := tokenise_ok hle (s.idpasswd.drop (bs.length + 1)) s.pArray
    -- a pointer without a token of this line is still NULL
    have hnull (j : Nat) (hj : (lineTokens bs).length ≤ j) : str b pa j = .error .nullToken := by
      unfold str
      rw [hrest j hj, hpa, List.getElem?_replicate]
      split <;> simp_all
    rw [ht]
    match hl : lineTokens bs with
    | [] => exact ⟨.nullToken, by simp only [hnull 0 (by simp [hl])]⟩
    | [id] =>
      have hfree : ¬ ∀ i, (s.clientInfo i).id = id → (s.clientInfo i).fd ≠ -1 := fun hf =>
        h ⟨hle, .inr ⟨id, hl, hf⟩⟩
      push Not at hfree
      obtain ⟨i, hid, hfd⟩ := hfree
      refine ⟨.nullToken, ?_⟩
      simp only [hstr 0 id (by simp [hl]), hnull 1 (by simp [hl])]
      rw [scan_unset hT hid hfd (List.mem_finRange i)]
    | id :: pw :: l => exact absurd ⟨hle, .inl (by simp [hl])⟩ h
  · exact ⟨_, by rw [tokenise_fault (not_le.1 hle)]⟩

/-- **Exactly the lines that are `LineOk` are decided on their own bytes**: in every run of the accept loop, for every
connection whose read delivers 1 to 22 bytes. -/
theorem login_own_bytes_iff {garbage : List Byte} {s : MainState maxClnt}
    (h : Reach loopStep free (loopStart garbage) s) (clntSock : Int) (ip : List Byte) {bs : List Byte}
    (hpos : 1 ≤ bs.length) (hfits : bs.length ≤ 22) :
    OwnDecision s clntSock ip bs ↔ (s.clntCnt < maxClnt → 0 ≤ clntSock → LineOk s.clientInfo bs) := by
  constructor
  · rintro ⟨o, w, T, k, hall, -⟩ hroom hsock
    by_contra hno
    have hT := (loop_sameIds h).distinct distinct₀
    obtain ⟨f, hf⟩ := mainIter_unset (s := { s with pArray := List.replicate arrCnt none }) hT
      ⟨hroom, hsock, hpos, Nat.lt_succ_of_le hfits⟩ hno ip rfl
    obtain ⟨t, ht, -⟩ := hall s.idpasswd (List.replicate arrCnt none)
    rw [hf] at ht
    cases ht
  · intro hok
    by_cases hroom : s.clntCnt < maxClnt
    · by_cases hsock : 0 ≤ clntSock
      · exact ownDecision_of_lineOk ⟨hroom, hsock, hpos, Nat.lt_succ_of_le hfits⟩ (hok hroom hsock) ip
      · refine ⟨.acceptError, [], s.clientInfo, s.clntCnt, fun idp pa =>
          ⟨{ s with idpasswd := idp, pArray := pa }, ?_, rfl, rfl⟩, fun i hi => by cases hi⟩
        simp [mainIter, not_le.2 hroom, not_le.1 hsock]
    · refine ⟨.socketFull, [], s.clientInfo, s.clntCnt, fun idp pa =>
        ⟨{ s with idpasswd := idp, pArray := pa }, ?_, rfl, rfl⟩, fun i hi => by cases hi⟩
      simp [mainIter, not_lt.1 hroom]

theorem login_own_bytes_qt : OwnDecision (loopStart []) 4 [] (bytes "[KJD_QT:PASSWD]") ↔
    ((loopStart []).clntCnt < maxClnt → (0 : Int) ≤ 4 → LineOk clientInfo₀ (bytes "[KJD_QT:PASSWD]")) :=
  login_own_bytes_iff .start 4 [] (by decide) (by decide)

/-- After a login of `KJD_SQL`, the line `[KJD_QT]` logs `KJD_QT` in: `pArray[1]` still points at the first line's
password, which the shorter line does not overwrite. -/
theorem stale_password_login : ¬ ∀ (garbage : List Byte) (s : MainState maxClnt),
    Reach loopStep free (loopStart garbage) s → ∀ (clntSock : Int) (ip bs : List Byte), 1 ≤ bs.length →
      bs.length ≤ 22 → ∀ t o w, mainIter s clntSock ip (.data bs) = .ok (t, o, w) → ∀ i, o = .connected i →
        (lineTokens bs)[0]? = some (s.clientInfo i).id ∧ (lineTokens bs)[1]? = some (s.clientInfo i).pw := by
  intro h
  have hrun : (loopStep (loopStart []) (.conn 4 [] (.data (bytes "[KJD_SQL:PASSWD]")))).any (fun s =>
      match mainIter s 5 [] (.data (bytes "[KJD_QT]")) with
      | .ok r => r.2.1 = .connected slotQt
      | .error _ => false) = true := by decide
  obtain ⟨s, hs, hlogin⟩ := (Option.any_eq_true ..).1 hrun
  split at hlogin
  · rename_i r hm
    have htok := h [] s (.step .start trivial hs) 5 [] _ (by decide) (by decide) _ _ _ hm slotQt (by simpa using hlogin)
    have hnone : (lineTokens (bytes "[KJD_QT]"))[1]? = none := by decide
    rw [hnone] at htok
    cases htok.2
  · cases hlogin

/-! ## Rejected logins -/

/-- A scan with a password that the named slots do not have binds none. -/
theorem scan_rejected {T : Fin n → ClientInfo} {id p : List Byte} (h : ∀ i, (T i).id = id → (T i).pw ≠ p)
    {is : List (Fin n)} {o : Outcome n} (ho : scan T id (.ok p) is = .ok o) :
    o = .authError ∨ ∃ i, o = .alreadyLogged i := by
  rcases scan_cases ho with rfl | hi | ⟨i, rfl⟩
  · exact .inl rfl
  · exact .inr hi
  · obtain ⟨hid, -, hpw⟩ := scan_connected ho
    cases hpw
    exact absurd rfl (h i hid)

/-- A scan that binds nothing and evicts nothing has met no slot that is named and online. -/
theorem scan_authError {T : Fin n → ClientInfo} {id : List Byte} {pw : Except Fault (List Byte)} {is : List (Fin n)}
    (h : scan T id pw is = .ok .authError) : ∀ i ∈ is, (T i).id = id → (T i).fd = -1 := by
  fun_induction scan T id pw is with
  | case1 => simp
  | case2 => cases h
  | case3 => cases h
  | case4 => cases h
  | case5 j js hid hfd p hpw _ ih =>
    intro i hi hii
    rcases List.mem_cons.1 hi with rfl | hi
    · exact not_not.1 hfd
    · exact ih (by rw [hpw]; exact h) i hi hii
  | case6 j js hid ih =>
    intro i hi hii
    rcases List.mem_cons.1 hi with rfl | hi
    · exact absurd hii hid
    · exact ih h i hi hii

/-- **A rejected login** changes nothing but the `fd` of the slot it names: that slot, if online, is evicted before the
password is looked at. -/
theorem rejected_login {garbage : List Byte} {s : MainState maxClnt} (h : Reach loopStep free (loopStart garbage) s)
    {clntSock : Int} {bs id pw : List Byte} {l : List (List Byte)} (hr : Reads s clntSock bs)
    (hl : lineTokens bs = id :: pw :: l) (hle : (lineTokens bs).length ≤ arrCnt)
    (hrej : (∀ i, (s.clientInfo i).id ≠ id) ∨ ∃ i, (s.clientInfo i).id = id ∧ (s.clientInfo i).pw ≠ pw)
    (ip : List Byte) :
    ∃ t o w, mainIter s clntSock ip (.data bs) = .ok (t, o, w) ∧ t.clntCnt = s.clntCnt ∧
      ∀ i, t.clientInfo i =
        if (s.clientInfo i).id = id ∧ (s.clientInfo i).fd ≠ -1 then { s.clientInfo i with fd := -1 }
        else s.clientInfo i := by
  have hT := (loop_sameIds h).distinct distinct₀
  have hrej' : ∀ i, (s.clientInfo i).id = id → (s.clientInfo i).pw ≠ pw := by
    rcases hrej with hno | ⟨j, hj, hpw⟩
    · exact fun i hi => absurd hi (hno i)
    · intro i hi
      rwa [hT i j (hi.trans hj.symm)]
  obtain ⟨o, id', b, pa, ho, hid', hm⟩ := mainIter_lineOk hr ⟨hle, .inl (by simp [hl])⟩ ip
  have hscan : scan s.clientInfo id (.ok pw) (List.finRange maxClnt) = .ok o := by
    rw [decideLine, hl] at ho; exact ho
  refine ⟨_, o, _, hm, ?_⟩
  rcases scan_rejected hrej' hscan with rfl | ⟨j, rfl⟩
  · refine ⟨rfl, fun i => ?_⟩
    have hoff := scan_authError hscan i (List.mem_finRange i)
    rw [if_neg (by rintro ⟨h1, h2⟩; exact h2 (hoff h1))]
    rfl
  · obtain ⟨hj, hfd⟩ := scan_alreadyLogged hscan
    refine ⟨rfl, fun i => ?_⟩
    by_cases hij : i = j
    · subst hij
      simp [settle, hj, hfd]
    · have hi : (s.clientInfo i).id ≠ id := fun hi => hij (hT i j (hi.trans hj.symm))
      simp [settle, hij, hi]

theorem rejected_login_qt : ∃ t o w,
    mainIter (loopStart []) 4 [] (.data (bytes "[KJD_QT:WRONG]")) = .ok (t, o, w) ∧ t.clntCnt = 0 ∧
      ∀ i, t.clientInfo i = if (clientInfo₀ i).id = bytes "KJD_QT" ∧ (clientInfo₀ i).fd ≠ -1 then
        { clientInfo₀ i with fd := -1 } else clientInfo₀ i :=
  rejected_login (l := []) .start ⟨by decide, by decide, by decide, by decide⟩
    (show lineTokens (bytes "[KJD_QT:WRONG]") = [bytes "KJD_QT", bytes "WRONG"] by decide) (by decide)
    (.inr ⟨slotQt, by decide, by decide⟩) []

/-- A wrong password takes an online `KJD_QT` off line. -/
theorem wrong_password_evicts : ¬ ∀ (garbage : List Byte) (s : MainState maxClnt),
    Reach loopStep free (loopStart garbage) s → ∀ (clntSock : Int) (ip bs id pw : List Byte) (l : List (List Byte)),
      Reads s clntSock bs → lineTokens bs = id :: pw :: l →
      ((∀ i, (s.clientInfo i).id ≠ id) ∨ ∃ i, (s.clientInfo i).id = id ∧ (s.clientInfo i).pw ≠ pw) →
      ∀ t o w, mainIter s clntSock ip (.data bs) = .ok (t, o, w) →
        t.clntCnt = s.clntCnt ∧ ∀ i, t.clientInfo i = s.clientInfo i := by
  intro h
  have hrun : (loopStep (loopStart []) (.conn 4 [] (.data (bytes "[KJD_QT:PASSWD]")))).any (fun s =>
      s.clntCnt < (maxClnt : Int) && (s.clientInfo slotQt).id = bytes "KJD_QT" &&
      (s.clientInfo slotQt).pw ≠ bytes "WRONG" &&
      match mainIter s 5 [] (.data (bytes "[KJD_QT:WRONG]")) with
      | .ok r => (r.1.clientInfo slotQt).fd ≠ (s.clientInfo slotQt).fd
      | .error _ => false) = true := by decide
  obtain ⟨s, hs, hp⟩ := (Option.any_eq_true ..).1 hrun
  simp only [Bool.and_eq_true, decide_eq_true_eq] at hp
  obtain ⟨⟨⟨hcnt, hid⟩, hpw⟩, hfd⟩ := hp
  split at hfd
  · rename_i r hm
    have hsame := (h [] s (.step .start trivial hs) 5 [] _ (bytes "KJD_QT") (bytes "WRONG") []
      ⟨hcnt, by decide, by decide, by decide⟩ (by decide) (.inr ⟨slotQt, hid, hpw⟩) _ _ _ hm).2 slotQt
    exact absurd (congrArg ClientInfo.fd hsame) (by simpa using hfd)
  · cases hfd

end PetVending.Server
