import Mathlib.Data.List.Basic
import Mathlib.Data.List.TakeWhile
import Mathlib.Tactic.Common
import Mathlib.Data.UInt

/-!
# C strings in buffers, and `strtok`

A buffer is a list of bytes, a pointer into it an offset. `strAt b p` is the C string at `p`: the bytes up to the
first NUL. `strtok d b p` is one call of `strtok` (or of `strtok(NULL, ..)` with the saved position `p`) for the
delimiter set `d`: it gives the token's offset, the buffer with the delimiter behind the token overwritten by NUL,
and the position to go on from.

`tokens d l` are the maximal delimiter-free runs of `l`. A loop of `strtok` calls over a buffer that holds the
NUL-terminated string `body` yields pointers to exactly these, in order, whatever lies before and behind the string
(`strtokLoop_spec`). What it leaves of a text with at most one token is known byte by byte (`strtokLoop_delims`,
`strtokLoop_last`, `strtokLoop_delims_behind`).
-/

namespace CStr

abbrev Byte := UInt8

/-- The bytes of an ASCII text. -/
def bytes (s : String) : List Byte := s.toList.map Char.toUInt8

/-- `%d` -/
def dec (z : Int) : List Byte :=
  if z < 0 then 45 :: (Nat.toDigits 10 z.natAbs).map Char.toUInt8 else (Nat.toDigits 10 z.natAbs).map Char.toUInt8

/-- The C string at offset `p`. -/
def strAt (b : List Byte) (p : Nat) : List Byte := (b.drop p).takeWhile (· != 0)

theorem strAt_append (pre b : List Byte) (k : Nat) : strAt (pre ++ b) (pre.length + k) = strAt b k := by
  simp [strAt, List.drop_append, List.drop_eq_nil_of_le]

theorem takeWhile_append_stop {α : Type*} {p : α → Bool} {w l : List α} {c : α} (hw : ∀ x ∈ w, p x = true)
    (hc : p c = false) : (w ++ c :: l).takeWhile p = w := by
  rw [List.takeWhile_append_of_pos hw, List.takeWhile_cons, hc]
  simp

theorem strAt_nul {w : List Byte} (post : List Byte) (hw : ∀ c ∈ w, c ≠ 0) : strAt (w ++ 0 :: post) 0 = w :=
  takeWhile_append_stop (fun c hc => by simpa using hw c hc) (by simp)

theorem mem_strAt {b : List Byte} {p : Nat} {c : Byte} (h : c ∈ strAt b p) : c ∈ b ∧ c ≠ 0 :=
  ⟨List.mem_of_mem_drop ((List.takeWhile_prefix _).subset h), by simpa using List.mem_takeWhile_imp h⟩

/-! ## Tokens of a text -/

/-- The maximal nonempty delimiter-free runs. -/
def tokens (d : Byte → Bool) (l : List Byte) : List (List Byte) := (l.splitOnP d).filter (! ·.isEmpty)

variable {d : Byte → Bool} {ds w l : List Byte} {c : Byte}

@[simp] theorem tokens_nil (d : Byte → Bool) : tokens d [] = [] := by simp [tokens]

theorem tokens_cons_delim (hc : d c = true) (l : List Byte) : tokens d (c :: l) = tokens d l := by
  simp [tokens, List.splitOnP_cons_eq_if_modifyHead, hc]

theorem tokens_delims_append (hds : ∀ x ∈ ds, d x = true) (l : List Byte) : tokens d (ds ++ l) = tokens d l := by
  induction ds with
  | nil => rfl
  | cons x ds ih =>
    rw [List.cons_append, tokens_cons_delim (hds x (by simp))]
    exact ih fun y hy => hds y (by simp [hy])

theorem tokens_delims (hds : ∀ x ∈ ds, d x = true) : tokens d ds = [] := by
  have := tokens_delims_append hds []
  rwa [List.append_nil, tokens_nil] at this

theorem tokens_word (hne : w ≠ []) (hw : ∀ x ∈ w, d x = false) : tokens d w = [w] := by
  simp [tokens, List.splitOnP_eq_singleton hw, hne]

theorem tokens_word_cons (hne : w ≠ []) (hw : ∀ x ∈ w, d x = false) (hc : d c = true) (l : List Byte) :
    tokens d (w ++ c :: l) = w :: tokens d l := by
  simp [tokens, List.splitOnP_append_cons_of_forall_mem hw c hc, hne]

/-- Words joined by a delimiter. -/
theorem tokens_intercalate (hc : d c = true) : ∀ {ws : List (List Byte)}, (∀ w ∈ ws, w ≠ [] ∧ ∀ x ∈ w, d x = false) →
    tokens d ([c].intercalate ws) = ws
  | [], _ => by simp
  | [w], h => by
    obtain ⟨hne, hw⟩ := h w (by simp)
    simpa using tokens_word hne hw
  | w :: v :: ws, h => by
    obtain ⟨hne, hw⟩ := h w (by simp)
    have ih : tokens d ([c].intercalate (v :: ws)) = v :: ws :=
      tokens_intercalate hc fun u hu => h u (List.mem_cons_of_mem _ hu)
    rw [List.intercalate_cons_cons, List.append_assoc, List.singleton_append, tokens_word_cons hne hw hc, ih]

/-- How a text starts: only delimiters, or delimiters and a last token, or delimiters, a token and a delimiter. -/
inductive Split (d : Byte → Bool) : List Byte → Prop
  | none (ds : List Byte) : (∀ x ∈ ds, d x = true) → Split d ds
  | last (ds w : List Byte) : (∀ x ∈ ds, d x = true) → w ≠ [] → (∀ x ∈ w, d x = false) → Split d (ds ++ w)
  | more (ds w : List Byte) (c : Byte) (l : List Byte) : (∀ x ∈ ds, d x = true) → w ≠ [] →
      (∀ x ∈ w, d x = false) → d c = true → Split d (ds ++ (w ++ c :: l))

theorem split_cons_delim (hc : d c = true) (h : Split d l) : Split d (c :: l) := by
  have cons_all {ds : List Byte} (hds : ∀ x ∈ ds, d x = true) : ∀ x ∈ c :: ds, d x = true := by
    simpa [hc] using hds
  cases h with
  | none _ hds => exact .none _ (cons_all hds)
  | last ds w hds hne hw => exact .last (c :: ds) w (cons_all hds) hne hw
  | more ds w x l hds hne hw hx => exact .more (c :: ds) w x l (cons_all hds) hne hw hx

theorem split_cons_char (hc : d c = false) (h : Split d l) : Split d (c :: l) := by
  have cons_none {w : List Byte} (hw : ∀ x ∈ w, d x = false) : ∀ x ∈ c :: w, d x = false := by
    simpa [hc] using hw
  cases h with
  | none _ hds =>
    cases l with
    | nil => exact .last [] [c] (by simp) (by simp) (by simpa using hc)
    | cons x ds => exact .more [] [c] x ds (by simp) (by simp) (by simpa using hc) (hds x (by simp))
  | last ds w hds hne hw =>
    cases ds with
    | nil => exact .last [] (c :: w) (by simp) (by simp) (cons_none hw)
    | cons x ds => exact .more [] [c] x (ds ++ w) (by simp) (by simp) (by simpa using hc) (hds x (by simp))
  | more ds w y l hds hne hw hy =>
    cases ds with
    | nil => exact .more [] (c :: w) y l (by simp) (by simp) (cons_none hw) hy
    | cons x ds =>
      exact .more [] [c] x (ds ++ (w ++ y :: l)) (by simp) (by simp) (by simpa using hc) (hds x (by simp))

theorem split (d : Byte → Bool) : ∀ l : List Byte, Split d l
  | [] => .none [] (by simp)
  | c :: l => by
    cases hc : d c with
    | true => exact split_cons_delim hc (split d l)
    | false => exact split_cons_char hc (split d l)

/-- A text without tokens is all delimiters. -/
theorem tokens_eq_nil (h : tokens d l = []) : ∀ x ∈ l, d x = true := by
  cases split d l with
  | none _ hds => exact hds
  | last ds w hds hne hw =>
    rw [tokens_delims_append hds, tokens_word hne hw] at h
    cases h
  | more ds w x l hds hne hw hx =>
    rw [tokens_delims_append hds, tokens_word_cons hne hw hx] at h
    cases h

/-- A token is no longer than the text. -/
theorem tokens_length_le (d : Byte → Bool) (l : List Byte) : ∀ t ∈ tokens d l, t.length ≤ l.length := by
  induction hn : l.length using Nat.strong_induction_on generalizing l with
  | _ n ih =>
    cases split d l with
    | none _ hds => simp [tokens_delims hds]
    | last ds w hds hne hw =>
      rw [tokens_delims_append hds, tokens_word hne hw]
      simp only [List.length_append, List.mem_singleton] at hn ⊢
      rintro t rfl
      omega
    | more ds w x l hds hne hw hx =>
      simp only [List.length_append, List.length_cons] at hn
      rw [tokens_delims_append hds, tokens_word_cons hne hw hx]
      intro t ht
      rcases List.mem_cons.1 ht with rfl | ht
      · omega
      · have := ih l.length (by omega) l rfl t ht
        omega

/-- Two tokens, and what stands between them. -/
theorem tokens_two_length {t u : List Byte} {r : List (List Byte)} (h : tokens d l = t :: u :: r) :
    t.length + u.length < l.length := by
  cases split d l with
  | none _ hds => rw [tokens_delims hds] at h; cases h
  | last ds w hds hne hw =>
    rw [tokens_delims_append hds, tokens_word hne hw] at h
    cases h
  | more ds w x l hds hne hw hx =>
    rw [tokens_delims_append hds, tokens_word_cons hne hw hx] at h
    obtain ⟨rfl, hl⟩ := List.cons.inj h
    have := tokens_length_le d l u (by rw [hl]; exact List.mem_cons_self)
    simp only [List.length_append, List.length_cons]
    omega

/-- The tokens of a text, and a delimiter between any two of them. -/
theorem tokens_total (d : Byte → Bool) (l : List Byte) :
    (tokens d l).flatten.length + (tokens d l).length ≤ l.length + 1 := by
  induction hn : l.length using Nat.strong_induction_on generalizing l with
  | _ n ih =>
    cases split d l with
    | none _ hds => simp [tokens_delims hds]
    | last ds w hds hne hw =>
      rw [tokens_delims_append hds, tokens_word hne hw]
      simp only [List.length_append, List.flatten_singleton, List.length_singleton] at hn ⊢
      omega
    | more ds w x l hds hne hw hx =>
      simp only [List.length_append, List.length_cons] at hn
      have := ih l.length (by omega) l rfl
      rw [tokens_delims_append hds, tokens_word_cons hne hw hx]
      simp only [List.flatten_cons, List.length_append, List.length_cons]
      omega

theorem tokens_ne_nil {t : List Byte} (h : t ∈ tokens d l) : t ≠ [] := by
  rintro rfl
  simpa using (List.mem_filter.1 h).2

/-! ## One call -/

/-- One call of `strtok` at position `p`: skip delimiters, and end the token found at the next delimiter. -/
def strtok (d : Byte → Bool) (b : List Byte) (p : Nat) : Option Nat × List Byte × Nat :=
  let s := p + ((b.drop p).takeWhile d).length
  let e := s + ((b.drop s).takeWhile fun c => c != 0 && !d c).length
  if b.getD s 0 = 0 then (none, b, s)
  else if b.getD e 0 = 0 then (some s, b, e)
  else (some s, b.set e 0, e + 1)

section Call

variable (pre post : List Byte)

theorem strtok_none (hd : d 0 = false) (hds : ∀ x ∈ ds, d x = true) :
    strtok d (pre ++ (ds ++ 0 :: post)) pre.length = (none, pre ++ (ds ++ 0 :: post), pre.length + ds.length) := by
  have hs : ((pre ++ (ds ++ 0 :: post)).drop pre.length).takeWhile d = ds := by
    rw [List.drop_left]; exact takeWhile_append_stop hds hd
  unfold strtok
  rw [hs, if_pos]
  rw [← List.append_assoc, ← List.length_append]
  simp [List.getD_eq_getElem?_getD]

/-- The token found in front of `x`, a delimiter or the terminator. -/
theorem strtok_token (hds : ∀ x ∈ ds, d x = true) (hne : w ≠ []) (hw : ∀ x ∈ w, d x = false ∧ x ≠ 0)
    {x : Byte} (hx : d x = true ∨ x = 0) (l : List Byte) :
    strtok d (pre ++ (ds ++ (w ++ x :: l))) pre.length =
      if x = 0 then (some (pre.length + ds.length), pre ++ (ds ++ (w ++ x :: l)), pre.length + ds.length + w.length)
      else (some (pre.length + ds.length), pre ++ (ds ++ (w ++ 0 :: l)), pre.length + ds.length + w.length + 1) := by
  obtain ⟨a, w', rfl⟩ := List.exists_cons_of_ne_nil hne
  have ha := hw a (by simp)
  have hs : ((pre ++ (ds ++ (a :: w' ++ x :: l))).drop pre.length).takeWhile d = ds := by
    rw [List.drop_left]; exact takeWhile_append_stop hds ha.1
  have he : ((pre ++ (ds ++ (a :: w' ++ x :: l))).drop (pre.length + ds.length)).takeWhile
      (fun c => c != 0 && !d c) = a :: w' := by
    rw [← List.append_assoc, ← List.length_append, List.drop_left]
    exact takeWhile_append_stop (fun c hc => by simpa using (hw c hc).symm) (by rcases hx with h | h <;> simp [h])
  have hga : (pre ++ (ds ++ (a :: w' ++ x :: l))).getD (pre.length + ds.length) 0 = a := by
    rw [← List.append_assoc, ← List.length_append]
    simp [List.getD_eq_getElem?_getD]
  have hgx : (pre ++ (ds ++ (a :: w' ++ x :: l))).getD (pre.length + ds.length + (a :: w').length) 0 = x := by
    rw [← List.append_assoc, ← List.append_assoc, ← List.length_append, ← List.length_append]
    simp [List.getD_eq_getElem?_getD]
  unfold strtok
  simp only [hs, he, hga, hgx, if_neg ha.2]
  split
  · rfl
  · rw [← List.append_assoc, ← List.append_assoc, ← List.length_append, ← List.length_append]
    simp

end Call

/-! ## The loop -/

/-- At most `k` calls of `strtok` from position `p`, as long as tokens come: the tokens' offsets, and the buffer. -/
def strtokLoop (d : Byte → Bool) : Nat → List Byte → Nat → List Nat × List Byte
  | 0, b, _ => ([], b)
  | k + 1, b, p =>
    match strtok d b p with
    | (none, b', _) => ([], b')
    | (some t, b', p') => let r := strtokLoop d k b' p'; (t :: r.1, r.2)

/-- The loop keeps the size of its buffer. -/
theorem strtokLoop_length (d : Byte → Bool) : ∀ (k : Nat) (b : List Byte) (p : Nat),
    (strtokLoop d k b p).2.length = b.length
  | 0, _, _ => rfl
  | k + 1, b, p => by
    have hcall : (strtok d b p).2.1.length = b.length := by
      unfold strtok
      dsimp only
      split
      · rfl
      · split
        · rfl
        · exact List.length_set
    rw [strtokLoop]
    match h : strtok d b p with
    | (none, b', _) =>
      rw [h] at hcall
      exact hcall
    | (some t, b', p') =>
      rw [h] at hcall
      exact (strtokLoop_length d k b' p').trans hcall

/-- **The loop finds the tokens.** Over `body` and its terminator, the loop yields pointers to the first `k` tokens of
`body`, inside `body`; it keeps the length of `body`, writes only NULs, and writes nothing else. -/
theorem strtokLoop_spec (hd : d 0 = false) (post : List Byte) : ∀ (k : Nat) (pre body : List Byte),
    (∀ c ∈ body, c ≠ 0) → ∃ offs body', strtokLoop d k (pre ++ (body ++ 0 :: post)) pre.length =
        (offs, pre ++ (body' ++ 0 :: post)) ∧ body'.length = body.length ∧
      offs.map (strAt (pre ++ (body' ++ 0 :: post))) = (tokens d body).take k ∧
      (∀ t ∈ offs, pre.length ≤ t ∧ t < pre.length + body.length) ∧ ∀ c ∈ body', c ∈ body ∨ c = 0
  | 0, pre, body, _ => ⟨[], body, rfl, rfl, by simp, by simp, fun _ h => .inl h⟩
  | k + 1, pre, body, hb => by
    cases split d body with
    | none _ hds =>
      refine ⟨[], body, ?_, rfl, by simp [tokens_delims hds], by simp, fun _ h => .inl h⟩
      rw [strtokLoop, strtok_none pre post hd hds]
    | last ds w hds hne hw =>
      have hw' : ∀ x ∈ w, d x = false ∧ x ≠ 0 := fun x hx => ⟨hw x hx, hb x (by simp [hx])⟩
      have hlen := List.length_pos_iff.2 hne
      -- the next call starts at the terminator and finds nothing
      obtain ⟨offs, b', he, hl, hm, ht, hc⟩ := strtokLoop_spec hd post k (pre ++ ds ++ w) [] (by simp)
      have hb' : b' = [] := List.length_eq_zero_iff.1 (by simpa using hl)
      subst hb'
      have hoffs : offs = [] := by simpa using congrArg List.length hm
      subst hoffs
      refine ⟨[pre.length + ds.length], ds ++ w, ?_, rfl, ?_, by simp; omega, fun _ h => .inl h⟩
      · rw [strtokLoop, List.append_assoc, strtok_token pre hds hne hw' (.inr rfl), if_pos rfl]
        simp only [List.length_append, List.nil_append, List.append_assoc] at he
        simp only [Nat.add_assoc, he]
      · rw [tokens_delims_append hds, tokens_word hne hw, ← List.append_assoc, ← List.append_assoc,
          List.append_assoc (pre ++ ds)]
        have := strAt_append (pre ++ ds) (w ++ 0 :: post) 0
        rw [strAt_nul post (fun c hc => (hw' c hc).2), List.length_append] at this
        simpa using this
    | more ds w x l hds hne hw hx =>
      have hw' : ∀ y ∈ w, d y = false ∧ y ≠ 0 := fun y hy => ⟨hw y hy, hb y (by simp [hy])⟩
      have hlen := List.length_pos_iff.2 hne
      have hx0 : x ≠ 0 := fun h => by rw [h, hd] at hx; cases hx
      obtain ⟨offs, b', he, hl, hm, ht, hc⟩ := strtokLoop_spec hd post k (pre ++ ds ++ w ++ [0]) l
        (fun c hc => hb c (by simp [hc]))
      refine ⟨(pre.length + ds.length) :: offs, ds ++ (w ++ 0 :: b'), ?_, by simp [hl], ?_, ?_, ?_⟩
      · have hpos : (pre ++ ds ++ w ++ [0]).length = pre.length + ds.length + w.length + 1 := by
          simp only [List.length_append, List.length_singleton]
        have happ (r : List Byte) : pre ++ ds ++ w ++ [0] ++ r = pre ++ (ds ++ (w ++ 0 :: r)) := by simp
        rw [hpos, happ, happ] at he
        have hbuf (r : List Byte) : ds ++ (w ++ x :: l) ++ r = ds ++ (w ++ x :: (l ++ r)) := by simp
        rw [strtokLoop, hbuf, strtok_token pre hds hne hw' (.inl hx), if_neg hx0]
        simp [he]
      · rw [tokens_delims_append hds, tokens_word_cons hne hw hx, List.take_succ_cons, List.map_cons]
        congr 1
        · have := strAt_append (pre ++ ds) (w ++ 0 :: (b' ++ 0 :: post)) 0
          rw [strAt_nul _ (fun c hc => (hw' c hc).2), List.length_append] at this
          simpa using this
        · rw [← hm]
          congr 2
          simp
      · intro t htm
        simp only [List.mem_cons, List.length_append, List.length_cons] at htm ⊢
        rcases htm with rfl | htm
        · omega
        · have := ht t htm
          simp only [List.length_append, List.length_cons, List.length_nil] at this
          omega
      · intro c hc'
        simp only [List.mem_append, List.mem_cons] at hc' ⊢
        rcases hc' with h | h | h | h
        · exact .inl (.inl h)
        · exact .inl (.inr (.inl h))
        · exact .inr h
        · rcases hc c h with h | h
          · exact .inl (.inr (.inr (.inr h)))
          · exact .inr h

/-- Over delimiters the loop finds nothing. -/
theorem strtokLoop_delims (hd : d 0 = false) (pre post : List Byte) (hds : ∀ x ∈ ds, d x = true) (k : Nat) :
    strtokLoop d k (pre ++ (ds ++ 0 :: post)) pre.length = ([], pre ++ (ds ++ 0 :: post)) := by
  cases k with
  | zero => rfl
  | succ k => rw [strtokLoop, strtok_none pre post hd hds]

/-- A token at the end of the text stays as it is. -/
theorem strtokLoop_last (hd : d 0 = false) (post : List Byte) (hds : ∀ x ∈ ds, d x = true) (hne : w ≠ [])
    (hw : ∀ x ∈ w, d x = false ∧ x ≠ 0) (k : Nat) :
    strtokLoop d (k + 1) (ds ++ w ++ 0 :: post) 0 = ([ds.length], ds ++ w ++ 0 :: post) := by
  have hcall := strtok_token [] hds hne hw (.inr rfl) post
  have hrest := strtokLoop_delims hd (ds ++ w) post (show ∀ x ∈ ([] : List Byte), d x = true by simp) k
  simp only [List.nil_append, List.length_nil, Nat.zero_add, if_pos, List.length_append] at hcall hrest
  rw [List.append_assoc] at hrest ⊢
  rw [strtokLoop, hcall]
  simp only [hrest]

/-- A token in front of delimiters gets its terminator. -/
theorem strtokLoop_delims_behind (hd : d 0 = false) (post : List Byte) (hds : ∀ x ∈ ds, d x = true) (hne : w ≠ [])
    (hw : ∀ x ∈ w, d x = false ∧ x ≠ 0) {x : Byte} (hx : d x = true) (hl : ∀ x ∈ l, d x = true) (k : Nat) :
    strtokLoop d (k + 1) (ds ++ w ++ x :: (l ++ 0 :: post)) 0 = ([ds.length], ds ++ w ++ 0 :: (l ++ 0 :: post)) := by
  have hx0 : x ≠ 0 := fun h => by rw [h, hd] at hx; cases hx
  have hcall := strtok_token [] hds hne hw (.inl hx) (l ++ 0 :: post)
  have hrest := strtokLoop_delims hd (ds ++ (w ++ [0])) post hl k
  have hlen : (ds ++ (w ++ [0])).length = ds.length + w.length + 1 := by
    simp only [List.length_append, List.length_singleton, Nat.add_assoc]
  rw [hlen] at hrest
  simp only [List.nil_append, List.length_nil, Nat.zero_add, if_neg hx0] at hcall
  simp only [List.append_assoc, List.cons_append, List.nil_append] at hrest ⊢
  rw [strtokLoop, hcall]
  simp only [hrest]

end CStr
