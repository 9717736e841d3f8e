import PetVending.Lib.Decimal
import PetVending.Server.Relay
import Mathlib.Algebra.BigOperators.Fin
import Mathlib.Data.Bool.AllAny
import Mathlib.Data.Fin.VecNotation
import Mathlib.Data.List.FinRange
import Mathlib.Order.Bounds.Basic

/-!
# The recommendation of the SQL client: `recv_msg`

- `recvMsg` is one round of the loop of `recv_msg`: the read, the `strtok` loop over `"[:@]"`, and the branches for
  `DB` and `DB_RECO`;
- `topTwo` is the scan for the two best-selling items, and finds them (`topTwo_leads`): they are the first two of the
  stable descending order (`topTwo_stable`);
- `reco_iff`: the reply to a recommendation request names the two best-selling items of the breed iff these are the two
  best-selling items of the whole table. The query has no condition on the breed.

Of MySQL: `SUM` is the sum of the column, and NULL when there is no row.
-/

namespace PetVending.Sql

open CStr Server

/-! ## Received texts -/

/-- `NAME_SIZE` -/
def nameSize : Nat := 30

/-- `BUF_SIZE` -/
def bufSize : Nat := 100

/-- `ARR_CNT` -/
def arrCnt : Nat := 10

/-- The delimiters `"[:@]"`. -/
def isDelim (c : Byte) : Bool := c = 91 || c = 58 || c = 64 || c = 93

/-- A row of `dog_food_sales`, without its date and time. -/
structure Row where
  name : List Byte
  breed : List Byte
  item : Fin 6 → Int

/-- `SELECT SUM(item1), .. FROM dog_food_sales`: a column of the result. -/
def sumItem (T : List Row) (k : Fin 6) : Option (List Byte) :=
  if T = [] then none else some (dec (T.map (·.item k)).sum)

/-- `item_counts`; `w` is the width of `long`. -/
def itemCounts (w : Nat) (T : List Row) (k : Fin 6) : Int :=
  match sumItem T k with
  | some t => atoi w t
  | none => 0

/-- The body of the loop over the items 3 to 6. -/
def topStep (f : Fin 6 → Int) (m : Fin 6 × Fin 6) (i : Fin 6) : Fin 6 × Fin 6 :=
  if f i > f m.1 then (i, m.1) else if f i > f m.2 then (m.1, i) else m

/-- `max1_idx` and `max2_idx` -/
def topTwo (f : Fin 6 → Int) : Fin 6 × Fin 6 :=
  [2, 3, 4, 5].foldl (topStep f) (if f 1 > f 0 then (1, 0) else (0, 1))

/-- `"[KJD_QT]DB_BREED@%d@%d\n"` -/
def recoReply (m : Fin 6 × Fin 6) : List Byte :=
  bytes "[KJD_QT]DB_BREED@" ++ dec (m.1 + 1 : Nat) ++ bytes "@" ++ dec (m.2 + 1 : Nat) ++ bytes "\n"

/-- The text of the `INSERT`. -/
def insertCmd (name breed : List Byte) (item : Fin 6 → Int) : List Byte :=
  bytes "insert into dog_food_sales(name, date, time, breed, item1, item2, item3, item4, item5, item6) values(\"" ++
    name ++ bytes "\",now(),now(),\"" ++ breed ++ bytes "\"," ++
    (bytes ",").intercalate ((List.finRange 6).map fun k => dec (item k)) ++ bytes ")"

/-- The numbers of the statement, with the commas between them. -/
theorem items_length (item : Fin 6 → Int) :
    ((bytes ",").intercalate ((List.finRange 6).map fun k => dec (item k))).length =
    (∑ k, (dec (item k)).length) + 5 := by
  have hlist : (List.finRange 6).map (fun k => dec (item k)) =
      [dec (item 0), dec (item 1), dec (item 2), dec (item 3), dec (item 4), dec (item 5)] := rfl
  have hcomma : (bytes ",").length = 1 := rfl
  rw [hlist, Fin.sum_univ_six]
  simp only [List.intercalate_cons_cons, List.intercalate_singleton, List.length_append, hcomma]
  omega

/-- The length of the statement. -/
theorem length_insertCmd (name breed : List Byte) (item : Fin 6 → Int) :
    (insertCmd name breed item).length = name.length + breed.length + (∑ k, (dec (item k)).length) + 125 := by
  have hzero : (insertCmd [] [] fun _ => 0).length = 131 := by decide +kernel
  have hdigit : (dec 0).length = 1 := by decide
  simp only [insertCmd, List.length_append, List.length_nil, items_length, hdigit, Finset.sum_const, Finset.card_univ,
    Fintype.card_fin, smul_eq_mul] at hzero ⊢
  omega

theorem insertCmd_length (name breed : List Byte) {item : Fin 6 → Int} (h : ∀ k, (dec (item k)).length = 1) :
    (insertCmd name breed item).length = name.length + breed.length + 131 := by
  simp only [length_insertCmd, h, Finset.sum_const, Finset.card_univ, Fintype.card_fin, smul_eq_mul]

/-- What a round does: an `INSERT`, a reply, or nothing. -/
inductive Answer
  | insert (cmd : List Byte)
  | reply (text : List Byte)
  | nothing

/-- One round of the loop of `recv_msg`, when the bytes `bs` have arrived. -/
def recvMsg (w : Nat) (T : List Row) (pArray : List (Option Nat)) (bs : List Byte) :
    Except Fault (List (Option Nat) × Answer) :=
  let read := bs.take (nameSize + bufSize)
  let r := strtokLoop isDelim (arrCnt + 1) (read ++ 0 :: List.replicate (nameSize + bufSize - read.length) 0) 0
  let toks := r.1.take arrCnt
  let pArray := toks.map some ++ pArray.drop toks.length
  match str r.2 pArray 1 with
  | .error f => .error f
  | .ok cmd =>
    if cmd = bytes "DB" ∧ toks.length = 9 then
      -- all nine are set
      let get (j : Nat) := (str r.2 pArray j).toOption.getD []
      .ok (pArray, .insert (insertCmd (get 0) (get 2) fun k => atoi w (get (k + 3))))
    else if cmd = bytes "DB_RECO" then .ok (pArray, .reply (recoReply (topTwo (itemCounts w T))))
    else .ok (pArray, .nothing)

/-- The `strtok` loop of a round: the buffer and `pArray` behind it, and the number of tokens. -/
def tokenise (pArray : List (Option Nat)) (bs : List Byte) : List Byte × List (Option Nat) × Nat :=
  let read := bs.take (nameSize + bufSize)
  let r := strtokLoop isDelim (arrCnt + 1) (read ++ 0 :: List.replicate (nameSize + bufSize - read.length) 0) 0
  let toks := r.1.take arrCnt
  (r.2, toks.map some ++ pArray.drop toks.length, toks.length)

theorem recvMsg_eq (w : Nat) (T : List Row) (pArray : List (Option Nat)) (bs : List Byte) : recvMsg w T pArray bs =
    match str (tokenise pArray bs).1 (tokenise pArray bs).2.1 1 with
    | .error f => .error f
    | .ok cmd =>
      if cmd = bytes "DB" ∧ (tokenise pArray bs).2.2 = 9 then
        let get (j : Nat) := (str (tokenise pArray bs).1 (tokenise pArray bs).2.1 j).toOption.getD []
        .ok ((tokenise pArray bs).2.1, .insert (insertCmd (get 0) (get 2) fun k => atoi w (get (k + 3))))
      else if cmd = bytes "DB_RECO" then
        .ok ((tokenise pArray bs).2.1, .reply (recoReply (topTwo (itemCounts w T))))
      else .ok ((tokenise pArray bs).2.1, .nothing) :=
  rfl

/-! ## The two best-selling items -/

/-- `a` is the best-selling item and `c` the second, among the first `m` items; equal sales go to the lower number. -/
structure LeadsBelow (f : Fin 6 → Int) (m : Nat) (a c : Fin 6) : Prop where
  first_lt : a.val < m
  second_lt : c.val < m
  ne : a ≠ c
  first : ∀ j : Fin 6, j.val < m → f j < f a ∨ f j = f a ∧ a ≤ j
  second : ∀ j : Fin 6, j.val < m → j ≠ a → f j < f c ∨ f j = f c ∧ c ≤ j

/-- The two best-selling items. -/
abbrev Leads (f : Fin 6 → Int) : Fin 6 → Fin 6 → Prop := LeadsBelow f 6

/-- The loop takes in one more item. -/
theorem topStep_leads {f : Fin 6 → Int} {i : Fin 6} {m : Fin 6 × Fin 6} (h : LeadsBelow f i m.1 m.2) :
    LeadsBelow f (i + 1) (topStep f m i).1 (topStep f m i).2 := by
  obtain ⟨h1, h2, h3, h4, h5⟩ := h
  have hj (j : Fin 6) (hj : j.val < i.val + 1) : j.val < i.val ∨ j = i := by omega
  unfold topStep
  split
  · -- `i` is the new best, the best so far the second
    refine ⟨by simp, by simp; omega, by simp; omega, fun j hlt => ?_, fun j hlt hne => ?_⟩
    · rcases hj j hlt with h | rfl
      · have := h4 j h; simp only; omega
      · exact .inr ⟨rfl, le_rfl⟩
    · rcases hj j hlt with h | rfl
      · exact h4 j h
      · exact absurd rfl hne
  · split
    · refine ⟨by simp; omega, by simp, by simp; omega, fun j hlt => ?_, fun j hlt hne => ?_⟩
      · rcases hj j hlt with h | rfl
        · exact h4 j h
        · simp only; omega
      · rcases hj j hlt with h | rfl
        · have := h5 j h hne; simp only; omega
        · simp
    · refine ⟨by omega, by omega, h3, fun j hlt => ?_, fun j hlt hne => ?_⟩
      · rcases hj j hlt with h | rfl
        · exact h4 j h
        · omega
      · rcases hj j hlt with h | rfl
        · exact h5 j h hne
        · omega

/-- **The scan finds the two best-selling items.** -/
theorem topTwo_leads (f : Fin 6 → Int) : Leads f (topTwo f).1 (topTwo f).2 := by
  have h01 (j : Fin 6) (hj : j.val < 2) : j = 0 ∨ j = 1 := by omega
  have h0 : LeadsBelow f 2 (if f 1 > f 0 then ((1, 0) : Fin 6 × Fin 6) else (0, 1)).1
      (if f 1 > f 0 then ((1, 0) : Fin 6 × Fin 6) else (0, 1)).2 := by
    split
    · refine ⟨by decide, by decide, by decide, fun j hj => ?_, fun j hj hne => ?_⟩
      · rcases h01 j hj with rfl | rfl
        · exact .inl (by omega)
        · exact .inr ⟨rfl, le_rfl⟩
      · rcases h01 j hj with rfl | rfl
        · exact .inr ⟨rfl, le_rfl⟩
        · exact absurd rfl hne
    · refine ⟨by decide, by decide, by decide, fun j hj => ?_, fun j hj hne => ?_⟩
      · rcases h01 j hj with rfl | rfl
        · exact .inr ⟨rfl, le_rfl⟩
        · simp only; omega
      · rcases h01 j hj with rfl | rfl
        · exact absurd rfl hne
        · exact .inr ⟨rfl, le_rfl⟩
  exact topStep_leads (i := 5) (topStep_leads (i := 4) (topStep_leads (i := 3) (topStep_leads (i := 2) h0)))

/-- There is only one best-selling item, and one second. -/
theorem Leads.unique {f : Fin 6 → Int} {a b c d : Fin 6} (h : Leads f a c) (h' : Leads f b d) : a = b ∧ c = d := by
  have hab : a = b := by
    have h1 := h.first b b.isLt
    have h2 := h'.first a a.isLt
    omega
  subst hab
  refine ⟨rfl, ?_⟩
  have h1 := h.second d d.isLt h'.ne.symm
  have h2 := h'.second c c.isLt h.ne.symm
  omega

/-- A stable sort of a list in order: the higher value first, and of equal values the lower element. -/
theorem mergeSort_stable {α : Type*} [LinearOrder α] (f : α → Int) {l : List α} (hl : l.Pairwise (· < ·)) :
    (l.mergeSort fun i j => decide (f j ≤ f i)).Pairwise fun i j => f j < f i ∨ f j = f i ∧ i < j := by
  have htrans : ∀ i j k : α, decide (f j ≤ f i) = true → decide (f k ≤ f j) = true → decide (f k ≤ f i) = true := by
    simp only [decide_eq_true_eq]
    omega
  have htotal : ∀ i j : α, (decide (f j ≤ f i) || decide (f i ≤ f j)) = true := by
    simp only [Bool.or_eq_true, decide_eq_true_eq]
    omega
  rw [List.pairwise_iff_forall_sublist]
  intro i j hij
  have hle := List.pairwise_iff_forall_sublist.1 (List.pairwise_mergeSort htrans htotal l) hij
  rcases (of_decide_eq_true hle).lt_or_eq with h | h
  · exact .inl h
  -- the elements of one value keep their order
  have hsub : (l.filter fun k => f k = f i).Sublist (l.mergeSort fun i j => decide (f j ≤ f i)) := by
    refine List.sublist_mergeSort htrans htotal (List.pairwise_of_forall_mem_list fun a ha b hb => ?_)
      List.filter_sublist
    have ha' : f a = f i := by simpa using (List.mem_filter.1 ha).2
    have hb' : f b = f i := by simpa using (List.mem_filter.1 hb).2
    exact decide_eq_true (by omega)
  have hfilter : (l.filter fun k => f k = f i) =
      (l.mergeSort fun i j => decide (f j ≤ f i)).filter fun k => f k = f i := by
    refine List.Sublist.eq_of_length ?_ ((List.mergeSort_perm l _).symm.filter _).length_eq
    simpa [List.filter_filter] using hsub.filter fun k => decide (f k = f i)
  have hsame : [i, j].Sublist (l.filter fun k => f k = f i) := by
    rw [hfilter]
    simpa [h] using hij.filter fun k => decide (f k = f i)
  exact .inr ⟨h, List.pairwise_iff_forall_sublist.1 hl (hsame.trans List.filter_sublist)⟩

/-- The first two of the stable descending order are the two best-selling items. -/
theorem mergeSort_leads (f : Fin 6 → Int) : ∃ a c l,
    ((List.finRange 6).mergeSort fun i j => decide (f j ≤ f i)) = a :: c :: l ∧ Leads f a c := by
  have hp := mergeSort_stable f (List.pairwise_lt_finRange 6)
  have hperm := List.mergeSort_perm (List.finRange 6) fun i j => decide (f j ≤ f i)
  match hm : (List.finRange 6).mergeSort fun i j => decide (f j ≤ f i) with
  | [] | [_] => simpa [hm] using hperm.length_eq
  | a :: c :: l =>
    rw [hm] at hp hperm
    obtain ⟨ha, hc, -⟩ := by simpa only [List.pairwise_cons] using hp
    have hmem (j : Fin 6) : j = a ∨ j = c ∨ j ∈ l := by simpa using hperm.mem_iff.2 (List.mem_finRange j)
    have hne : a ≠ c := by
      rcases ha c List.mem_cons_self with h | h
      · rintro rfl
        exact lt_irrefl _ h
      · exact h.2.ne
    refine ⟨a, c, l, rfl, a.isLt, c.isLt, hne, fun j _ => ?_, fun j _ hj => ?_⟩
    · rcases hmem j with rfl | hj
      · exact .inr ⟨rfl, le_rfl⟩
      · exact (ha j (List.mem_cons.2 hj)).imp_right (And.imp_right le_of_lt)
    · rcases hmem j with rfl | rfl | hj'
      · exact absurd rfl hj
      · exact .inr ⟨rfl, le_rfl⟩
      · exact (hc j hj').imp_right (And.imp_right le_of_lt)

/-- **The scan agrees with the stable descending order**: `max1_idx` is the first of the items that sell best,
`max2_idx` the first of those that sell best among the others. -/
theorem topTwo_stable (f : Fin 6 → Int) : (topTwo f).1 ≠ (topTwo f).2 ∧
    ((List.finRange 6).mergeSort fun i j => decide (f j ≤ f i)).take 2 = [(topTwo f).1, (topTwo f).2] ∧
    IsLeast {i | ∀ j, f j ≤ f i} (topTwo f).1 ∧
    IsLeast {i | i ≠ (topTwo f).1 ∧ ∀ j ≠ (topTwo f).1, f j ≤ f i} (topTwo f).2 := by
  have h := topTwo_leads f
  refine ⟨h.ne, ?_, ⟨fun j => ?_, fun i hi => ?_⟩, ⟨⟨h.ne.symm, fun j hj => ?_⟩, fun i hi => ?_⟩⟩
  · obtain ⟨a, c, l, hl, hac⟩ := mergeSort_leads f
    obtain ⟨rfl, rfl⟩ := h.unique hac
    rw [hl]
    rfl
  · have := h.first j j.isLt
    omega
  · have := h.first i i.isLt
    have := hi (topTwo f).1
    omega
  · have := h.second j j.isLt hj
    omega
  · have := h.second i i.isLt hi.1
    have := hi.2 _ h.ne.symm
    omega

/-! ## The request -/

/-- Tokenising a text: the array starts with its first `arrCnt` tokens. -/
theorem recv_tokens (bs post : List Byte) (pArray : List (Option Nat)) {j : Nat} {t : List Byte}
    (hj : j < arrCnt) (ht : (tokens isDelim (lineOf bs))[j]? = some t) :
    let r := strtokLoop isDelim (arrCnt + 1) (bs ++ 0 :: post) 0
    let toks := r.1.take arrCnt
    str r.2 (toks.map some ++ pArray.drop toks.length) j = .ok t := by
  obtain ⟨post', hp⟩ := line_split bs post
  obtain ⟨offs, b', hl, -, hm, -, -⟩ := strtokLoop_spec (d := isDelim) (by decide) post' (arrCnt + 1) [] (lineOf bs)
    (lineOf_ne_zero bs)
  simp only [List.nil_append, List.length_nil] at hl hm
  rw [hp, hl]
  have hj' : (offs.map (strAt (b' ++ 0 :: post')))[j]? = some t := by
    rw [hm, List.getElem?_take_of_lt (by omega)]
    exact ht
  rw [List.getElem?_map, Option.map_eq_some_iff] at hj'
  obtain ⟨p, hpj, rfl⟩ := hj'
  have hpj' : (offs.take arrCnt)[j]? = some p := by rwa [List.getElem?_take_of_lt hj]
  have hlt : j < ((offs.take arrCnt).map some).length := by
    rw [List.length_map]
    exact (List.getElem?_eq_some_iff.1 hpj').1
  dsimp only [str]
  rw [List.getElem?_append_left hlt, List.getElem?_map, hpj']
  rfl

/-- **Tokenising a text that fits into the buffer**, up to its first NUL. -/
theorem tokenise_line {bs : List Byte} (hfit : bs.length ≤ nameSize + bufSize) (pArray : List (Option Nat)) :
    (tokenise pArray bs).2.2 = min arrCnt (tokens isDelim (lineOf bs)).length ∧
      ∀ j t, j < arrCnt → (tokens isDelim (lineOf bs))[j]? = some t →
        str (tokenise pArray bs).1 (tokenise pArray bs).2.1 j = .ok t := by
  have htake : bs.take (nameSize + bufSize) = bs := List.take_of_length_le hfit
  constructor
  · obtain ⟨post, hp⟩ := line_split bs (List.replicate (nameSize + bufSize - bs.length) 0)
    obtain ⟨offs, b', hl, -, hm, -, -⟩ := strtokLoop_spec (d := isDelim) (by decide) post (arrCnt + 1) [] (lineOf bs)
      (lineOf_ne_zero bs)
    simp only [List.nil_append, List.length_nil] at hl hm
    have hlen := congrArg List.length hm
    rw [List.length_map, List.length_take] at hlen
    simp only [tokenise, htake, hp, hl, List.length_take]
    omega
  · intro j t hj ht
    have hstr := recv_tokens bs (List.replicate (nameSize + bufSize - bs.length) 0) pArray hj ht
    simpa only [tokenise, htake] using hstr

theorem tokenise_spec {bs : List Byte} (h0 : ∀ c ∈ bs, c ≠ 0) (hfit : bs.length ≤ nameSize + bufSize)
    (pArray : List (Option Nat)) : (tokenise pArray bs).2.2 = min arrCnt (tokens isDelim bs).length ∧
      ∀ j t, j < arrCnt → (tokens isDelim bs)[j]? = some t →
        str (tokenise pArray bs).1 (tokenise pArray bs).2.1 j = .ok t := by
  have h := tokenise_line hfit pArray
  rwa [lineOf_eq h0] at h

theorem clientId_word (i : Fin maxClnt) : (clientInfo₀ i).id ≠ [] ∧ (clientInfo₀ i).id.length ≤ 10 ∧
    ∀ c ∈ (clientInfo₀ i).id, isDelim c = false ∧ c ≠ 0 := by
  have h : ∀ i : Fin maxClnt, (clientInfo₀ i).id ≠ [] ∧ (clientInfo₀ i).id.length ≤ 10 ∧
      (clientInfo₀ i).id.all (fun c => isDelim c = false ∧ c ≠ 0) = true := by decide
  exact ⟨(h i).1, (h i).2.1, List.all_iff_forall_prop.1 (h i).2.2⟩

/-- The request as it is relayed: the sender's tag, `DB_RECO@` and the rest of the text. -/
def recoRequest (i : Fin maxClnt) (rest : List Byte) : List Byte :=
  tagged (clientInfo₀ i).id (bytes "DB_RECO@" ++ rest)

/-- The second token of a request is `DB_RECO`, however much of it is read. -/
theorem recoRequest_tokens (i : Fin maxClnt) (rest : List Byte) :
    (tokens isDelim (lineOf ((recoRequest i rest).take (nameSize + bufSize))))[1]? = some (bytes "DB_RECO") := by
  obtain ⟨hne, hlen, hid⟩ := clientId_word i
  have hreq : recoRequest i rest = (91 :: (clientInfo₀ i).id ++ 93 :: bytes "DB_RECO@") ++ rest := by
    simp [recoRequest, tagged]
  rw [hreq]
  generalize (clientInfo₀ i).id = id at *
  have h8 : (bytes "DB_RECO@").length = 8 ∧ ∀ c ∈ bytes "DB_RECO@", c ≠ 0 :=
    ⟨by decide, List.all_iff_forall_prop.1 (by decide)⟩
  have hpre : (91 :: id ++ 93 :: bytes "DB_RECO@").length ≤ nameSize + bufSize := by
    simp only [List.length_append, List.length_cons, h8.1, nameSize, bufSize]
    omega
  have hw : ∀ c ∈ 91 :: id ++ 93 :: bytes "DB_RECO@", (c != 0) = true := by
    simp only [List.cons_append, List.mem_cons, List.mem_append]
    rintro c (rfl | h | rfl | h)
    · rfl
    · simpa using (hid c h).2
    · rfl
    · simpa using h8.2 c h
  rw [List.take_append, List.take_of_length_le hpre, lineOf, List.takeWhile_append_of_pos hw]
  have hsplit (l : List Byte) : (91 :: id ++ 93 :: bytes "DB_RECO@") ++ l =
      91 :: (id ++ 93 :: (bytes "DB_RECO" ++ 64 :: l)) := by
    have h64 : bytes "DB_RECO@" = bytes "DB_RECO" ++ [64] := by decide
    simp [h64]
  rw [hsplit, tokens_cons_delim (by decide), tokens_word_cons hne (fun c hc => (hid c hc).1) (by decide),
    tokens_word_cons (by decide) (List.all_iff_forall_prop.1 (by decide)) (by decide)]
  rfl

/-- A request is answered from the sales of the whole table, whatever stands behind `DB_RECO@`. -/
theorem recoRequest_reply (w : Nat) (T : List Row) (pArray : List (Option Nat)) (i : Fin maxClnt) (rest : List Byte) :
    ∃ pa, recvMsg w T pArray (recoRequest i rest) = .ok (pa, .reply (recoReply (topTwo (itemCounts w T)))) := by
  have hstr := recv_tokens ((recoRequest i rest).take (nameSize + bufSize))
    (List.replicate (nameSize + bufSize - ((recoRequest i rest).take (nameSize + bufSize)).length) 0) pArray
    (j := 1) (by decide) (recoRequest_tokens i rest)
  have hcmd : bytes "DB_RECO" ≠ bytes "DB" := by decide
  dsimp only at hstr
  simp only [recvMsg, hstr, hcmd, false_and, if_false, if_true]
  exact ⟨_, rfl⟩

/-! ## Replies about a breed -/

/-- The sales of an item. -/
def total (T : List Row) (k : Fin 6) : Int := (T.map (·.item k)).sum

/-- The rows of a breed. -/
def ofBreed (T : List Row) (b : List Byte) : List Row := T.filter fun r => r.breed = b

theorem itemCounts_eq (w : Nat) (T : List Row) (k : Fin 6) : itemCounts w T k = toInt w (total T k) := by
  unfold itemCounts sumItem
  split
  · rename_i t h
    split at h <;> cases h
    rw [atoi_dec]
    rfl
  · rename_i h
    split at h
    · rename_i hT
      subst hT
      exact (toInt_zero w).symm
    · cases h

/-- The digits of a reply. -/
theorem recoReply_digits : ∀ a c : Fin 6, ((recoReply (a, c)).getD 17 0).toNat = a + 49 ∧
    ((recoReply (a, c)).getD 19 0).toNat = c + 49 := by
  decide

theorem recoReply_injective : Function.Injective recoReply := by
  rintro ⟨a, c⟩ ⟨b, d⟩ he
  have h := recoReply_digits a c
  rw [he, (recoReply_digits b d).1, (recoReply_digits b d).2] at h
  rw [Prod.mk.injEq]
  omega

/-- The reply names the two best-selling items of the breed, the best first. -/
def NamesLeaders (T : List Row) (b reply : List Byte) : Prop :=
  ∀ a c, Leads (total (ofBreed T b)) a c → reply = recoReply (a, c)

/-- The reply names the two best-selling items of the breed, in some order. -/
def NamesPair (T : List Row) (b reply : List Byte) : Prop :=
  ∀ a c, Leads (total (ofBreed T b)) a c → reply = recoReply (a, c) ∨ reply = recoReply (c, a)

/-- The two items that sell best over the whole table, as `int`s. -/
def Overall (w : Nat) (T : List Row) : Fin 6 → Fin 6 → Prop := Leads fun k => toInt w (total T k)

/-- **The reply to a recommendation request is right exactly when the best-selling items of the breed are those of the
whole table.** -/
theorem reco_iff (w : Nat) (T : List Row) (pArray : List (Option Nat)) (i : Fin maxClnt) (b nl : List Byte) :
    ∃ pa reply, recvMsg w T pArray (recoRequest i (b ++ nl)) = .ok (pa, .reply reply) ∧
      (NamesLeaders T b reply ↔ ∃ a c, Leads (total (ofBreed T b)) a c ∧ Overall w T a c) ∧
      (NamesPair T b reply ↔ ∃ a c, Leads (total (ofBreed T b)) a c ∧ (Overall w T a c ∨ Overall w T c a)) := by
  obtain ⟨pa, hr⟩ := recoRequest_reply w T pArray i (b ++ nl)
  have hcounts : itemCounts w T = fun k => toInt w (total T k) := funext (itemCounts_eq w T)
  rw [hcounts] at hr
  have hall : Overall w T _ _ := topTwo_leads fun k => toInt w (total T k)
  have hbreed := topTwo_leads (total (ofBreed T b))
  -- the items named are those of the whole table, the right ones those of the breed
  have hname (a c : Fin 6) : recoReply (topTwo fun k => toInt w (total T k)) = recoReply (a, c) ↔ Overall w T a c := by
    constructor
    · intro he
      have := recoReply_injective he
      rw [this] at hall
      exact hall
    · intro h
      obtain ⟨h1, h2⟩ := Leads.unique hall h
      rw [← h1, ← h2]
  refine ⟨pa, _, hr, ⟨fun h => ⟨_, _, hbreed, (hname _ _).1 (h _ _ hbreed)⟩, ?_⟩,
    ⟨fun h => ⟨_, _, hbreed, ?_⟩, ?_⟩⟩
  · rintro ⟨a, c, hac, ho⟩ a' c' h'
    obtain ⟨rfl, rfl⟩ := Leads.unique hac h'
    exact (hname _ _).2 ho
  · exact (h _ _ hbreed).imp (hname _ _).1 (hname _ _).1
  · rintro ⟨a, c, hac, ho⟩ a' c' h'
    obtain ⟨rfl, rfl⟩ := Leads.unique hac h'
    exact ho.imp (hname _ _).2 (hname _ _).2

/-- Owners of `POM` bought items 1 and 2, but more of items 3 and 4 went to `LAB`. -/
theorem other_breed_recommended : ¬ ∀ (w : Nat) (T : List Row) (pArray : List (Option Nat)) (i : Fin maxClnt)
    (b : List Byte), b ≠ [] → (∀ c ∈ b, isDelim c = false ∧ c ≠ 0) → ∀ pa reply,
      recvMsg w T pArray (recoRequest i b) = .ok (pa, .reply reply) → NamesPair T b reply := by
  intro h
  let T : List Row := [⟨bytes "KJD_QT", bytes "POM", ![1, 1, 0, 0, 0, 0]⟩,
      ⟨bytes "KJD_QT", bytes "LAB", ![0, 0, 2, 2, 0, 0]⟩]
  obtain ⟨pa, hr⟩ := recoRequest_reply 64 T [] slotQt (bytes "POM")
  have hnames := h 64 T [] slotQt (bytes "POM") (by decide) (List.all_iff_forall_prop.1 (by decide)) pa _ hr
  have hbreed : Leads (total (ofBreed T (bytes "POM"))) 0 1 := by
    have := topTwo_leads (total (ofBreed T (bytes "POM")))
    rwa [show topTwo (total (ofBreed T (bytes "POM"))) = (0, 1) by decide] at this
  have htop : topTwo (itemCounts 64 T) = (2, 3) := by
    rw [funext (itemCounts_eq 64 T)]
    decide
  rw [htop] at hnames
  rcases hnames 0 1 hbreed with he | he
  · cases recoReply_injective he
  · cases recoReply_injective he

end PetVending.Sql
