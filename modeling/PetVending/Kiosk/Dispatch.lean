import PetVending.Kiosk.Recommend
import PetVending.Lib.Decimal
import PetVending.Server.Formatting
import PetVending.Server.Login

/-!
# What the kiosk indexes: `socketRecvUpdateSlot`, `tab3RecvDataSlot` and `tab3RecvDataSlot_db`

The three slots look at the parts 2, 3 and 4 of a text. The first has no guard, and the guards of the other two ask for
three parts.

- `Sent`: the texts the server sends to the kiosk: relays, the answers to `IDLIST` and `GETTIME`, and the lines of a
  login;
- `safe_iff`: a text is safe iff it has a third part, a fourth behind `BREED`, and a fifth behind `DB_BREED`;
- **`dispatch_safe_iff`**: a text of the server is safe iff there is something behind the sender's tag, and this is,
  without its last character, none of `BREED`, `DB_BREED` and `DB_BREED@x`;
- the answer to `GETTIME` and the lines of a login are always safe (`gettime_safe`, `login_safe`).
-/

namespace PetVending.Kiosk

open CStr Server Wire
open Recommend (Widget)

/-! ## Safe texts -/

/-- No slot looks at a part that the text does not have, whatever the widget's state. -/
def Safe (t : List Byte) : Prop :=
  ∃ l, socketRecvUpdateSlot (fromUtf8 t) = some l ∧ ∀ g ∈ l, ∀ s : Widget, (Recommend.step s (.signal g)).isSome

/-- The parts of a text as the slots see them. -/
def qList (t : List Byte) : List QString := (replaceBrackets (fromUtf8 t).dropLast).splitOn 64

section Slots

variable (s : Widget) (l : List QString)

theorem slot_isSome_iff : (s.tab3RecvDataSlot l).isSome ↔ (l[2]? = some (ascii "BREED") → 3 < l.length) := by
  unfold Widget.tab3RecvDataSlot
  split
  · rename_i h
    rw [Option.isSome_map]
    simp [h]
  · rename_i h
    simp [h]

theorem slotDb_isSome_iff : (s.tab3RecvDataSlotDb l).isSome ↔ (l[2]? = some (ascii "DB_BREED") → 4 < l.length) := by
  unfold Widget.tab3RecvDataSlotDb
  split
  · rename_i h
    simp only [h, true_imp_iff]
    by_cases hlen : 4 < l.length
    · simp [hlen, List.getElem?_eq_getElem (show 3 < l.length by omega)]
    · simp [hlen]
  · rename_i h
    simp [h]

end Slots

theorem mem_kinds {cmd : QString} {k : Kind} : k ∈ kinds cmd ↔
    k = .breed ∧ ascii "BREED" <+: cmd ∨ k = .dbBreed ∧ ascii "DB_BREED" <+: cmd := by
  simp only [kinds, List.mem_append, ← List.isPrefixOf_iff_prefix]
  constructor
  · rintro (h | h) <;> split at h <;> simp_all
  · rintro (⟨rfl, h⟩ | ⟨rfl, h⟩) <;> simp [h]

/-- **What the slots need**: a third part, a fourth behind `BREED`, and a fifth behind `DB_BREED`. -/
theorem safe_iff (t : List Byte) : Safe t ↔ ∃ cmd, (qList t)[2]? = some cmd ∧
    (cmd = ascii "BREED" → 3 < (qList t).length) ∧ (cmd = ascii "DB_BREED" → 4 < (qList t).length) := by
  have hslot : socketRecvUpdateSlot (fromUtf8 t) = (qList t)[2]?.map fun cmd => (kinds cmd).map fun k =>
      ⟨k, replaceBrackets (fromUtf8 t).dropLast⟩ := rfl
  constructor
  · rintro ⟨l, hl, hall⟩
    rw [hslot] at hl
    obtain ⟨cmd, hcmd, rfl⟩ := Option.map_eq_some_iff.1 hl
    have hsignal {k : Kind} (hk : k ∈ kinds cmd) := hall _ (List.mem_map_of_mem hk) Recommend.widgetStart
    refine ⟨cmd, hcmd, fun hb => ?_, fun hd => ?_⟩
    · exact (slot_isSome_iff _ _).1 (hsignal (mem_kinds.2 (.inl ⟨rfl, by rw [hb]⟩))) (hb ▸ hcmd)
    · exact (slotDb_isSome_iff _ _).1 (hsignal (mem_kinds.2 (.inr ⟨rfl, by rw [hd]⟩))) (hd ▸ hcmd)
  · rintro ⟨cmd, hcmd, hb, hd⟩
    refine ⟨_, by rw [hslot, hcmd, Option.map_some], fun g hg s => ?_⟩
    obtain ⟨k, -, rfl⟩ := List.mem_map.1 hg
    cases k with
    | breed => exact (slot_isSome_iff s (qList t)).2 fun h => hb (Option.some.inj (hcmd.symm.trans h))
    | dbBreed => exact (slotDb_isSome_iff s (qList t)).2 fun h => hd (Option.some.inj (hcmd.symm.trans h))

/-! ## Behind the sender's tag -/

/-- What the slots see of the text behind a tag. -/
def bodyText (body : List Byte) : QString := replaceBrackets (read body).dropLast

/-- A text that the guards of the slots let through although it has too few parts. -/
def Exposed (q : QString) : Prop :=
  q = ascii "BREED" ∨ q = ascii "DB_BREED" ∨ ∃ x, 64 ∉ x ∧ q = ascii "DB_BREED" ++ 64 :: x

theorem joined (q : QString) : [64].intercalate (q.splitOn 64) = q := List.intercalate_splitOn 64

/-- A text of two parts. -/
theorem splitOn_two {q a x : QString} (ha : 64 ∉ a) : q.splitOn 64 = [a, x] ↔ 64 ∉ x ∧ q = a ++ 64 :: x := by
  constructor
  · intro h
    have hq : q = a ++ 64 :: x := by
      rw [← joined q, h]
      simp
    refine ⟨fun hx => ?_, hq⟩
    obtain ⟨b, c, rfl⟩ := List.append_of_mem hx
    rw [hq, List.splitOn_append_cons_self_of_not_mem ha, List.splitOn_append_cons_self] at h
    have hlen := congrArg List.length h
    have hb := List.length_pos_iff.2 (List.splitOn_ne_nil 64 b)
    have hc := List.length_pos_iff.2 (List.splitOn_ne_nil 64 c)
    simp only [List.length_cons, List.length_append, List.length_nil] at hlen
    omega
  · rintro ⟨hx, rfl⟩
    rw [List.splitOn_append_cons_self_of_not_mem ha, List.splitOn_eq_singleton hx]

/-- A text of one part. -/
theorem splitOn_one {q a : QString} (ha : 64 ∉ a) : q.splitOn 64 = [a] ↔ q = a := by
  constructor
  · intro h
    rw [← joined q, h]
    simp
  · rintro rfl
    exact List.splitOn_eq_singleton ha

/-- What is exposed, by the parts. -/
theorem exposed_iff (q : QString) : Exposed q ↔
    q.splitOn 64 = [ascii "BREED"] ∨ q.splitOn 64 = [ascii "DB_BREED"] ∨ ∃ x, q.splitOn 64 = [ascii "DB_BREED", x] := by
  have hb : (64 : UInt16) ∉ ascii "BREED" := by decide
  have hd : (64 : UInt16) ∉ ascii "DB_BREED" := by decide
  simp only [splitOn_one hb, splitOn_one hd, splitOn_two hd, Exposed]

theorem fromUtf8_open (t : List Byte) : fromUtf8 (91 :: t) = 91 :: read t := by
  have hbom : (91 :: t).take 3 ≠ [0xEF, 0xBB, 0xBF] := by
    rw [List.take_succ_cons]
    intro h
    cases (List.cons.inj h).1
  rw [fromUtf8, if_neg hbom, Utf8.decode_ascii (by decide)]
  rfl

section Tagged

variable {id body : List Byte} (hid : ∀ c ∈ id, FieldByte c)

include hid

theorem read_word : (∀ u ∈ read id, u ≠ 91 ∧ u ≠ 93) ∧ (64 : UInt16) ∉ read id :=
  ⟨fun _ hu => (read_clean hid hu).2, fun h => (read_clean hid h).1 rfl⟩

/-- A tagged text has an empty part, the tag, and the parts of what stands behind it. -/
theorem qList_tagged (hne : body ≠ []) : qList (tagged id body) = [] :: read id :: (bodyText body).splitOn 64 := by
  obtain ⟨hclean, h64⟩ := read_word hid
  have hread : read (id ++ 93 :: body) = read id ++ 93 :: read body := Utf8.decode_append (by decide) id body
  have hsome : read body ≠ [] := Utf8.decode_ne_nil hne
  have hdrop : (91 :: (read id ++ 93 :: read body)).dropLast = 91 :: (read id ++ 93 :: (read body).dropLast) := by
    rw [List.dropLast_cons_of_ne_nil (by simp), List.dropLast_append_of_ne_nil (by simp),
      List.dropLast_cons_of_ne_nil hsome]
  have hsep : replaceBrackets (91 :: (read id ++ 93 :: (read body).dropLast)) =
      [] ++ 64 :: (read id ++ 64 :: bodyText body) := by
    rw [← List.singleton_append, replaceBrackets_append, replaceBrackets_append, replaceBrackets_clean hclean,
      replaceBrackets_close]
    rfl
  rw [qList, tagged, List.cons_append, fromUtf8_open, hread, hdrop, hsep,
    List.splitOn_append_cons_self_of_not_mem (by simp), List.splitOn_append_cons_self_of_not_mem h64]

/-- **A tagged text is safe iff what stands behind the tag is not exposed.** -/
theorem safe_tagged_iff (hne : body ≠ []) : Safe (tagged id body) ↔ ¬ Exposed (bodyText body) := by
  have hcmd (cmd : QString) (r : List QString) : ([] :: read id :: cmd :: r)[2]? = some cmd := rfl
  have hdistinct : ascii "DB_BREED" ≠ ascii "BREED" := by decide
  rw [safe_iff, qList_tagged hid hne, exposed_iff]
  obtain ⟨cmd, r, hparts⟩ := List.exists_cons_of_ne_nil (List.splitOn_ne_nil 64 (bodyText body))
  rw [hparts, hcmd]
  simp only [Option.some.injEq, exists_eq_left', List.length_cons, List.cons.injEq]
  match r with
  | [] => simp
  | [x] => simp
  | x :: y :: r => simp

/-- A text without a closing bracket has no third part. -/
theorem not_safe_open : ¬ Safe (91 :: id ++ [10]) := by
  obtain ⟨hclean, h64⟩ := read_word hid
  have hread : read (id ++ [10]) = read id ++ [10] := Utf8.decode_append (by decide) id []
  have hsep : replaceBrackets (91 :: read id) = [] ++ 64 :: read id := by
    rw [← List.singleton_append, replaceBrackets_append, replaceBrackets_clean hclean]
    rfl
  have hparts : qList (91 :: id ++ [10]) = [[], read id] := by
    rw [qList, List.cons_append, fromUtf8_open, hread, ← List.cons_append, List.dropLast_concat, hsep,
      List.splitOn_append_cons_self_of_not_mem (by simp), List.splitOn_eq_singleton h64]
  rw [safe_iff, hparts]
  rintro ⟨cmd, h, -⟩
  cases h

end Tagged

/-! ## The texts of the server -/

/-- The texts that the server sends to `KJD_QT`: a client's payload behind its tag, the answers to `IDLIST` and
`GETTIME`, and the lines of a login. -/
inductive Sent : List Byte → Prop
  | relay (i : Fin maxClnt) {p : List Byte} : p ≠ [] → (∀ c ∈ p, c ≠ 91 ∧ c ≠ 58 ∧ c ≠ 93) →
    Sent (tagged (clientInfo₀ i).id p)
  | idlist (i : Fin maxClnt) {p : List Byte} {T : Fin maxClnt → ClientInfo} {m : MsgInfo} :
  (∀ c ∈ p, c ≠ 91 ∧ c ≠ 58 ∧ c ≠ 93) →
      SameIds T clientInfo₀ → m.msg = tagged (clientInfo₀ i).id p → Sent (idlist T m)
  | gettime (t : Tm) : Sent (getlocaltime t)
  | login (s : MainState maxClnt) (clntSock : Int) (ip : List Byte) {o : Outcome maxClnt} :
      (settle s clntSock ip (clientInfo₀ slotQt).id o).2 ≠ [] → Sent (settle s clntSock ip (clientInfo₀ slotQt).id o).2

/-- What stands behind the sender's tag. -/
def payload (t : List Byte) : List Byte := (t.dropWhile (· ≠ 93)).tail

theorem dropWhile_open {id : List Byte} (hid : ∀ c ∈ id, FieldByte c) : ∀ c ∈ 91 :: id, decide (c ≠ 93) = true := by
  intro c hc
  rcases List.mem_cons.1 hc with rfl | hc
  · decide
  · exact decide_eq_true ((hid c hc).ne 93 (by decide))

theorem payload_tagged {id : List Byte} (hid : ∀ c ∈ id, FieldByte c) (body : List Byte) :
    payload (tagged id body) = body := by
  rw [payload, tagged, List.dropWhile_append_of_pos (dropWhile_open hid), List.dropWhile_cons_of_neg (by simp),
    List.tail_cons]

theorem payload_open {id : List Byte} (hid : ∀ c ∈ id, FieldByte c) : payload (91 :: id ++ [10]) = [] := by
  rw [payload, List.dropWhile_append_of_pos (dropWhile_open hid)]
  rfl

theorem clientId_clean (i : Fin maxClnt) : ∀ c ∈ (clientInfo₀ i).id, FieldByte c := by
  have h : ∀ i : Fin maxClnt, (clientInfo₀ i).id.all (fun c => FieldByte c) = true := by decide
  exact List.all_iff_forall_prop.1 (h i)

/-- How `"%02d"` starts. -/
theorem dec2_cons (z : Int) : ∃ c l, dec2 z = c :: l ∧ (isDigit c = true ∨ c = 45) := by
  unfold dec2
  split
  · exact ⟨48, dec z, rfl, .inl rfl⟩
  · rw [dec_eq]
    split
    · exact ⟨45, _, rfl, .inr rfl⟩
    · obtain ⟨c, l, h⟩ := List.exists_cons_of_ne_nil (digits_ne_nil z.natAbs)
      exact ⟨c, l, h, .inl (isDigit_of_mem_digits (h ▸ List.mem_cons_self))⟩

/-- Behind the tag of `GETTIME` stands a number, and more. -/
theorem getlocaltime_eq (t : Tm) : ∃ c l, getlocaltime t = tagged (bytes "GETTIME") (c :: l) ∧
    (isDigit c = true ∨ c = 45) ∧
    l ≠ [] := by
  obtain ⟨c, l, h, hc⟩ := dec2_cons (t.year + 1900 - 2000)
  have htag : bytes "[GETTIME]" = 91 :: (bytes "GETTIME" ++ [93]) := by decide
  have hdot : bytes "." = [46] := by decide
  have hform : ∃ r, getlocaltime t = tagged (bytes "GETTIME") (c :: (l ++ 46 :: r)) :=
    ⟨_, by simp only [getlocaltime, h, htag, hdot, tagged, List.append_assoc, List.cons_append, List.nil_append]; rfl⟩
  obtain ⟨r, hr⟩ := hform
  exact ⟨c, _, hr, hc, by simp⟩

/-- A payload that starts with another character than the two commands is not exposed. -/
theorem not_exposed_cons {c : Byte} {l : List Byte} (hc : c.toNat < 128) (hb : c ≠ 66) (hd : c ≠ 68) (hl : l ≠ []) :
    ¬ Exposed (bodyText (c :: l)) := by
  have hread : read (c :: l) = c.toNat.toUInt16 :: read l := Utf8.decode_ascii hc l
  have hsome : read l ≠ [] := Utf8.decode_ne_nil hl
  -- what the first character becomes is not the first character of a command
  have hne {d : Byte} (hcd : c ≠ d) (hd64 : d.toNat.toUInt16 ≠ 64) :
      (if c.toNat.toUInt16 = 91 ∨ c.toNat.toUInt16 = 93 then 64 else c.toNat.toUInt16) ≠ d.toNat.toUInt16 := by
    split
    · exact hd64.symm
    · intro h
      have hval := congrArg UInt16.toNat h
      simp only [Nat.toUInt16, UInt16.toNat_ofNat'] at hval
      have hdlt := d.toNat_lt
      exact hcd (UInt8.toNat_inj.1 (by omega))
  have hbody : ∃ r, bodyText (c :: l) =
      (if c.toNat.toUInt16 = 91 ∨ c.toNat.toUInt16 = 93 then 64 else c.toNat.toUInt16) :: r := by
    refine ⟨replaceBrackets (read l).dropLast, ?_⟩
    rw [bodyText, hread, List.dropLast_cons_of_ne_nil hsome]
    rfl
  obtain ⟨r, hr⟩ := hbody
  have hB : ∃ r, ascii "BREED" = (66 : Byte).toNat.toUInt16 :: r := ⟨_, rfl⟩
  have hD : ∃ r, ascii "DB_BREED" = (68 : Byte).toNat.toUInt16 :: r := ⟨_, rfl⟩
  obtain ⟨rb, hB⟩ := hB
  obtain ⟨rd, hD⟩ := hD
  rw [hr, Exposed, hB, hD]
  rintro (h | h | ⟨x, -, h⟩)
  · exact hne hb (by decide) (List.cons.inj h).1
  · exact hne hd (by decide) (List.cons.inj h).1
  · rw [List.cons_append] at h
    exact hne hd (by decide) (List.cons.inj h).1

/-- The answer to `GETTIME` is safe. -/
theorem gettime_safe (t : Tm) : Safe (getlocaltime t) := by
  obtain ⟨c, l, h, hc, hl⟩ := getlocaltime_eq t
  have hid : ∀ c ∈ bytes "GETTIME", FieldByte c := List.all_iff_forall_prop.1 (by decide)
  rw [h, safe_tagged_iff hid (List.cons_ne_nil _ _)]
  rcases hc with hc | rfl
  · simp only [isDigit, UInt8.le_iff_toNat_le, Bool.and_eq_true, decide_eq_true_eq] at hc
    have hle : c.toNat ≤ 57 := hc.2
    have hne {d : Byte} (hd : 57 < d.toNat) : c ≠ d := by rintro rfl; omega
    exact not_exposed_cons (by omega) (hne (by decide)) (hne (by decide)) hl
  · exact not_exposed_cons (by decide) (by decide) (by decide) hl

/-- The lines of a login: the id, and a text that starts with a space. -/
theorem login_eq {s : MainState maxClnt} {clntSock : Int} {ip id : List Byte} {o : Outcome maxClnt}
    (h : (settle s clntSock ip id o).2 ≠ []) : ∃ l, (settle s clntSock ip id o).2 = tagged id (32 :: l) ∧ l ≠ [] := by
  have hopen : bytes "[" = [91] := rfl
  have htag {x : String} {y : List Byte} (hx : bytes x = 93 :: 32 :: y) (r : List Byte) :
      bytes "[" ++ id ++ (bytes x ++ r) = tagged id (32 :: (y ++ r)) := by
    rw [hx, hopen, tagged]
    simp
  cases o with
  | socketFull => exact absurd rfl h
  | acceptError => exact absurd rfl h
  | noLogin => exact absurd rfl h
  | alreadyLogged i =>
    have h := htag (show bytes "] Already logged!\n" = 93 :: 32 :: bytes "Already logged!\n" by decide) []
    rw [List.append_nil, List.append_nil] at h
    exact ⟨_, h, by decide⟩
  | authError =>
    have h := htag (show bytes "] Authentication Error!\n" = 93 :: 32 :: bytes "Authentication Error!\n" by decide) []
    rw [List.append_nil, List.append_nil] at h
    exact ⟨_, h, by decide⟩
  | connected i =>
    refine ⟨bytes "New connected! (ip:" ++ (ip ++ bytes ",fd:" ++ dec clntSock ++ bytes ",sockcnt:" ++
      dec (s.clntCnt + 1) ++ bytes ")\n"), ?_, ?_⟩
    · rw [← htag (show bytes "] New connected! (ip:" = 93 :: 32 :: bytes "New connected! (ip:" by decide)]
      simp only [settle, List.append_assoc]
    · intro hnil
      exact absurd (List.append_eq_nil_iff.1 hnil).1 (by decide)

/-- The lines of a login are safe. -/
theorem login_safe (s : MainState maxClnt) (clntSock : Int) (ip : List Byte) {o : Outcome maxClnt}
    (h : (settle s clntSock ip (clientInfo₀ slotQt).id o).2 ≠ []) :
    Safe (settle s clntSock ip (clientInfo₀ slotQt).id o).2 := by
  obtain ⟨l, hl, hne⟩ := login_eq h
  rw [hl, safe_tagged_iff (clientId_clean slotQt) (List.cons_ne_nil _ _)]
  exact not_exposed_cons (by decide) (by decide) (by decide) hne

/-- The answer to `IDLIST`: the request without its last character, and the ids. -/
theorem idlist_form (i : Fin maxClnt) {p : List Byte} {T : Fin maxClnt → ClientInfo} {m : MsgInfo}
    (hT : SameIds T clientInfo₀) (hm : m.msg = tagged (clientInfo₀ i).id p) :
    (∃ body, body ≠ [] ∧ idlist T m = tagged (clientInfo₀ i).id body) ∨
      ∃ x, (∀ c ∈ x, FieldByte c) ∧ idlist T m = 91 :: x ++ [10] := by
  let ids := ((List.finRange maxClnt).filter fun i => (T i).fd ≠ -1).flatMap fun i => (T i).id ++ bytes " "
  have hlist : idlist T m = m.msg.dropLast ++ ids ++ bytes "\n" := rfl
  rw [hlist, hm]
  by_cases hp : p = []
  · -- the last character is the closing bracket
    refine .inr ⟨(clientInfo₀ i).id ++ ids, fun c hc => ?_, ?_⟩
    · rcases List.mem_append.1 hc with hc | hc
      · exact clientId_clean i c hc
      · obtain ⟨j, -, hj⟩ := List.mem_flatMap.1 hc
        rcases List.mem_append.1 hj with hj | hj
        · exact clientId_clean j c ((hT j).1 ▸ hj)
        · rw [List.mem_singleton.1 (show c ∈ [32] from hj)]
          decide
    · rw [hp, tagged, List.dropLast_concat, List.cons_append, List.cons_append]
      rfl
  · refine .inl ⟨p.dropLast ++ ids ++ bytes "\n", ?_, ?_⟩
    · intro hnil
      exact absurd (List.append_eq_nil_iff.1 hnil).2 (by decide)
    · rw [tagged, tagged, List.dropLast_append_of_ne_nil (List.cons_ne_nil _ _), List.dropLast_cons_of_ne_nil hp]
      simp only [List.append_assoc, List.cons_append]

/-- A text of the server: a tag and something behind it, or a text without a closing bracket. -/
theorem sent_form {t : List Byte} (h : Sent t) : ∃ id, (∀ c ∈ id, FieldByte c) ∧
    ((∃ body, body ≠ [] ∧ t = tagged id body) ∨ t = 91 :: id ++ [10]) := by
  cases h with
  | relay i hne _ => exact ⟨_, clientId_clean i, .inl ⟨_, hne, rfl⟩⟩
  | idlist i _ hT hm =>
    rcases idlist_form i hT hm with ⟨body, hne, h⟩ | ⟨x, hx, h⟩
    · exact ⟨_, clientId_clean i, .inl ⟨body, hne, h⟩⟩
    · exact ⟨x, hx, .inr h⟩
  | gettime t =>
    obtain ⟨c, l, h, -, -⟩ := getlocaltime_eq t
    exact ⟨_, List.all_iff_forall_prop.1 (by decide), .inl ⟨c :: l, List.cons_ne_nil _ _, h⟩⟩
  | login s clntSock ip h =>
    obtain ⟨l, hl, -⟩ := login_eq h
    exact ⟨_, clientId_clean slotQt, .inl ⟨32 :: l, List.cons_ne_nil _ _, hl⟩⟩

/-- **What the kiosk indexes.** A text of the server is safe iff there is something behind the sender's tag, and this is
not one of the exposed texts, once its last character is dropped. -/
theorem dispatch_safe_iff {t : List Byte} (h : Sent t) :
    Safe t ↔ payload t ≠ [] ∧ ¬ Exposed (bodyText (payload t)) := by
  obtain ⟨id, hid, ⟨body, hne, rfl⟩ | rfl⟩ := sent_form h
  · rw [payload_tagged hid, safe_tagged_iff hid hne]
    exact ⟨fun hs => ⟨hne, hs⟩, fun hs => hs.2⟩
  · rw [payload_open hid]
    exact iff_of_false (not_safe_open hid) fun hs => hs.1 rfl

/-- The breed of a Labrador, from the camera. -/
theorem dispatch_lab : Safe (bytes "[KJD_JET]BREED@LAB\n") := by
  have hsent : Sent (bytes "[KJD_JET]BREED@LAB\n") :=
    .relay 7 (p := bytes "BREED@LAB\n") (by decide) (List.all_iff_forall_prop.1 (by decide))
  rw [dispatch_safe_iff hsent]
  have hbody : bodyText (payload (bytes "[KJD_JET]BREED@LAB\n")) = ascii "BREED@LAB" := by decide
  refine ⟨by decide, ?_⟩
  rw [hbody, exposed_iff]
  have hparts : (ascii "BREED@LAB").splitOn 64 = [ascii "BREED", ascii "LAB"] := by decide
  rw [hparts]
  rintro (h | h | ⟨x, h⟩)
  · cases h
  · cases h
  · exact absurd (List.cons.inj h).1 (by decide)

/-- A breed message without a breed: the kiosk looks for the fourth part of three. -/
theorem bare_breed : ¬ ∀ t, Sent t → Safe t := by
  intro h
  have hsafe := h _ (.relay 7 (p := bytes "BREED\n") (by decide) (List.all_iff_forall_prop.1 (by decide)))
  rw [safe_tagged_iff (clientId_clean 7) (by decide)] at hsafe
  exact hsafe (.inl (by decide))

end PetVending.Kiosk
