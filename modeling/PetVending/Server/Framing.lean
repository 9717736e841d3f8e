import PetVending.Server.Relay
import Mathlib.Data.Bool.AllAny

/-!
# How a byte stream is cut into reads

A client sends messages `[d]p` with a newline behind each. The server takes every read for one message, so what it
relays depends on where the stream is cut. With one message in each read every message is relayed; the same relays
come out exactly for the cuts that are `Framed`: every read holds one message, up to its opening bracket, which may
come at the end of the read before (`relays_iff_framed`).

- (←) a read of that form has the two tokens of its message (`lineTokens_read`);
- (→) every relayed text ends in a newline of its own read, so by counting newlines each read holds exactly one, and
  the destination shows where the read starts in its message (`head_read`).
-/

namespace PetVending.Server

open CStr

/-! ## Messages -/

/-- A byte that is no delimiter, no newline and no NUL. -/
def Plain (c : Byte) : Prop := isDelim c = false ∧ c ≠ 10 ∧ c ≠ 0

instance : DecidablePred Plain := fun c => inferInstanceAs (Decidable (isDelim c = false ∧ c ≠ 10 ∧ c ≠ 0))

/-- A message `[dest]text` and a newline; the text may be empty. -/
structure Msg where
  dest : List Byte
  text : List Byte
  dest_ne : dest ≠ []
  dest_plain : ∀ c ∈ dest, Plain c
  text_plain : ∀ c ∈ text, Plain c
  fits : dest.length + text.length + 3 ≤ bufSize - 1

namespace Msg

/-- The message without its opening bracket. -/
def body (m : Msg) : List Byte := m.dest ++ 93 :: (m.text ++ [10])

/-- The message as it is sent. -/
def enc (m : Msg) : List Byte := 91 :: m.body

/-- The message in a read of its own. -/
def read (m : Msg) : Read where
  bytes := m.enc
  pos := by simp [enc]
  fits := by
    have := m.fits
    simp only [enc, body, List.length_cons, List.length_append, List.length_nil]
    omega

/-- What the server makes of the message: its destination, and the text with the sender's tag. -/
def relay (sender : List Byte) (m : Msg) : List Byte × List Byte := (m.dest, tagged sender (m.text ++ [10]))

/-- What is left of a message whose opening bracket was (`o`) or was not read already. -/
def rest (o : Bool) (m : Msg) : List Byte := if o then m.body else m.enc

end Msg

/-- The opening bracket of the next message, if it comes with the read before. -/
def opening (o : Bool) : List Byte := if o then [91] else []

/-- The bytes of the messages that are still to come, the first opening bracket being read already if `o`. -/
def stream (o : Bool) : List Msg → List Byte
  | [] => []
  | m :: ms => m.rest o ++ ms.flatMap Msg.enc

/-- Each read holds one message, up to its opening bracket, which may come at the end of the read before. -/
def Framed : Bool → List Msg → List Read → Prop
  | _, [], reads => reads = []
  | o, m :: ms, reads =>
    ∃ o' r reads', reads = r :: reads' ∧ r.bytes = m.rest o ++ opening o' ∧ (o' = true → ms ≠ []) ∧
      Framed o' ms reads'

theorem stream_false (ms : List Msg) : stream false ms = ms.flatMap Msg.enc := by
  cases ms <;> rfl

theorem opening_append_stream {o : Bool} {ms : List Msg} (h : o = true → ms ≠ []) :
    opening o ++ stream o ms = ms.flatMap Msg.enc := by
  cases ms with
  | nil => cases o <;> simp_all [opening, stream]
  | cons m ms => cases o <;> simp [opening, stream, Msg.rest, Msg.enc]

section Tokens

variable {m : Msg}

theorem text_newline_delim (m : Msg) : ∀ c ∈ m.text ++ [10], isDelim c = false := by
  intro c hc
  rcases List.mem_append.1 hc with h | h
  · exact (m.text_plain c h).1
  · rw [List.mem_singleton.1 h]; decide

theorem body_ne_zero (m : Msg) : ∀ c ∈ m.body, c ≠ 0 := by
  intro c hc
  simp only [Msg.body, List.mem_append, List.mem_cons, List.not_mem_nil, or_false] at hc
  rcases hc with h | rfl | h | rfl
  · exact (m.dest_plain c h).2.2
  · decide
  · exact (m.text_plain c h).2.2
  · decide

theorem rest_opening_ne_zero (o o' : Bool) : ∀ c ∈ m.rest o ++ opening o', c ≠ 0 := by
  intro c hc
  rcases List.mem_append.1 hc with h | h
  · cases o with
    | true => exact body_ne_zero m c h
    | false =>
      rcases List.mem_cons.1 h with rfl | h
      · decide
      · exact body_ne_zero m c h
  · cases o' with
    | true => rw [List.mem_singleton.1 h]; decide
    | false => cases h

/-- A word that ends the text, or is followed by the next opening bracket, is the last token. -/
theorem tokens_opening {w : List Byte} (hne : w ≠ []) (hw : ∀ c ∈ w, isDelim c = false) (o : Bool) :
    tokens isDelim (w ++ opening o) = [w] := by
  cases o with
  | false => rw [opening, if_neg (by simp), List.append_nil, tokens_word hne hw]
  | true => rw [opening, if_pos rfl, tokens_word_cons hne hw (by decide), tokens_nil]

/-- A read that holds one message has its destination and its text as tokens. -/
theorem lineTokens_read (m : Msg) (o o' : Bool) :
    lineTokens (m.rest o ++ opening o') = [m.dest, m.text ++ [10]] := by
  have hbody : tokens isDelim (m.body ++ opening o') = [m.dest, m.text ++ [10]] := by
    rw [Msg.body, List.append_assoc, List.cons_append,
      tokens_word_cons m.dest_ne (fun c hc => (m.dest_plain c hc).1) (by decide),
      tokens_opening (by simp) (text_newline_delim m)]
  rw [lineTokens, lineOf_eq (rest_opening_ne_zero o o')]
  cases o with
  | true => exact hbody
  | false => rw [Msg.rest, if_neg (by simp), Msg.enc, List.cons_append, tokens_cons_delim (by decide), hbody]

end Tokens

/-! ## Framed reads -/

variable {signed : Bool} {ci : ClientInfo}

/-- Reads that hold one message each are relayed as these messages. -/
theorem relays_of_framed : ∀ {ms : List Msg} {o : Bool} {reads : List Read}, Framed o ms reads →
    ∀ pArray, relays signed ci pArray reads = .ok (ms.map (Msg.relay ci.id))
  | [], _, _, h, _ => by
    cases h
    rfl
  | m :: ms, o, _, ⟨o', r, reads', hr, hb, _, hf⟩, pArray => by
    subst hr
    have htok := lineTokens_read m o o'
    rw [← hb] at htok
    obtain ⟨pa, hpa⟩ := clntRead_ok htok (by rw [htok]; exact (show 2 ≤ arrCnt by decide)) signed ci pArray
    simp only [relays, hpa, relays_of_framed hf pa]
    rfl

theorem framed_read (ms : List Msg) : Framed false ms (ms.map Msg.read) := by
  induction ms with
  | nil => rfl
  | cons m ms ih => exact ⟨false, m.read, ms.map Msg.read, rfl, by simp [opening, Msg.rest, Msg.read], by simp, ih⟩

/-! ## Counting newlines -/

section Newlines

theorem count_dest (m : Msg) : m.dest.count 10 = 0 :=
  List.count_eq_zero_of_not_mem fun h => (m.dest_plain 10 h).2.1 rfl

theorem count_text (m : Msg) : m.text.count 10 = 0 :=
  List.count_eq_zero_of_not_mem fun h => (m.text_plain 10 h).2.1 rfl

theorem count_rest (m : Msg) (o : Bool) : (m.rest o).count 10 = 1 := by
  have hbody : m.body.count 10 = 1 := by simp [Msg.body, count_dest, count_text]
  cases o with
  | true => exact hbody
  | false => simp [Msg.rest, Msg.enc, hbody]

theorem count_flatMap_enc (ms : List Msg) : (ms.flatMap Msg.enc).count 10 = ms.length := by
  induction ms with
  | nil => rfl
  | cons m ms ih =>
    have h := count_rest m false
    simp only [List.flatMap_cons, List.count_append, ih, List.length_cons]
    change m.enc.count 10 = 1 at h
    omega

/-- A nonempty suffix of a text that ends in `c` ends in `c`. -/
theorem suffix_snoc {b f t : List Byte} {c : Byte} (h : b ++ f = t ++ [c]) (hf : f ≠ []) :
    ∃ w, f = w ++ [c] ∧ t = b ++ w := by
  rcases List.eq_nil_or_concat f with hnil | ⟨w, z, hz⟩
  · exact absurd hnil hf
  · rw [List.concat_eq_append] at hz
    rw [hz, ← List.append_assoc] at h
    obtain ⟨ht, hc⟩ := List.append_inj' h rfl
    exact ⟨w, by rw [hz, (List.cons.inj hc).1], ht.symm⟩

/-- A message without its newline. -/
theorem rest_eq_snoc (m : Msg) (o : Bool) : ∃ w, m.rest o = w ++ [10] ∧ (10 : Byte) ∉ w := by
  have key : ∃ w, m.rest o = w ++ [10] := by
    cases o
    · exact ⟨91 :: (m.dest ++ 93 :: m.text), by simp [Msg.rest, Msg.enc, Msg.body]⟩
    · exact ⟨m.dest ++ 93 :: m.text, by simp [Msg.rest, Msg.body]⟩
  obtain ⟨w, hw⟩ := key
  refine ⟨w, hw, fun hmem => ?_⟩
  have h1 := count_rest m o
  have h2 := List.count_pos_iff.2 hmem
  rw [hw, List.count_append] at h1
  simp at h1
  omega

/-- A read that holds a newline goes at least up to the first newline of the stream. -/
theorem read_prefix {r w s t : List Byte} (hw : (10 : Byte) ∉ w) (hr : (10 : Byte) ∈ r)
    (h : r ++ s = w ++ [10] ++ t) : ∃ e, r = w ++ [10] ++ e ∧ e ++ s = t := by
  rcases List.append_eq_append_iff.1 h with ⟨a, ha, hs⟩ | ⟨e, he, ht⟩
  · by_cases hnil : a = []
    · subst hnil
      exact ⟨[], by simpa using ha.symm, by simpa using hs⟩
    · -- the read would end before the newline
      obtain ⟨a', -, hwr⟩ := suffix_snoc ha.symm hnil
      exact absurd (hwr ▸ List.mem_append_left _ hr) hw
  · exact ⟨e, he, ht.symm⟩

/-- Every relayed text that ends in a newline takes it from its own read. -/
theorem newline_mem {pArray pa : List (Option Nat)} {r : List Byte} {i : MsgInfo} {m : Msg}
    (h : clntRead signed ci pArray r = .ok (i, pa)) (hm : (i.dest, i.msg) = m.relay ci.id) : (10 : Byte) ∈ r := by
  obtain ⟨-, text, htext, hin⟩ := clntRead_spec h
  have hmsg : i.msg = tagged ci.id (m.text ++ [10]) := congrArg Prod.snd hm
  rw [htext] at hmsg
  have htail : 93 :: text = 93 :: (m.text ++ [10]) := (List.append_right_inj (91 :: ci.id)).1 hmsg
  exact hin 10 (by simp [(List.cons.inj htail).2])

/-- Reads relayed as messages hold at least one newline each. -/
theorem length_le_count : ∀ {reads : List Read} {ms : List Msg} {pArray : List (Option Nat)},
    relays signed ci pArray reads = .ok (ms.map (Msg.relay ci.id)) →
      reads.length ≤ (reads.flatMap Read.bytes).count 10
  | [], _, _, _ => Nat.zero_le _
  | r :: reads, ms, pArray, h => by
    obtain ⟨i, pa, l, hr, hl, he⟩ := relays_cons h
    match ms, he with
    | m :: ms, he =>
      rw [List.map_cons, List.cons.injEq] at he
      have h1 := List.count_pos_iff.2 (newline_mem hr he.1.symm)
      have h2 := length_le_count (he.2 ▸ hl)
      simp only [List.flatMap_cons, List.count_append, List.length_cons]
      omega

end Newlines

/-! ## Where a read starts -/

/-- The first token of a text that starts with a word. -/
theorem tokens_word_head {w l : List Byte} (hne : w ≠ []) (hw : ∀ c ∈ w, isDelim c = false)
    (hl : ∀ c l', l = c :: l' → isDelim c = true) : (tokens isDelim (w ++ l))[0]? = some w := by
  cases l with
  | nil => rw [List.append_nil, tokens_word hne hw]; rfl
  | cons c l => rw [tokens_word_cons hne hw (hl c l rfl)]; rfl

/-- A read that starts behind the first byte of the destination does not show the destination as its first token. -/
theorem head_read {m : Msg} {e f x : List Byte} (h : e ++ f = m.body) (hf : f ≠ []) (he : e ≠ [])
    (hx : ∀ c l, x = c :: l → isDelim c = true) (hx0 : ∀ c ∈ x, c ≠ 0) :
    ∃ t, (lineTokens (f ++ x))[0]? = some t ∧ t ≠ m.dest := by
  have hf0 : ∀ c ∈ f ++ x, c ≠ 0 := fun c hc => by
    rcases List.mem_append.1 hc with hc | hc
    · exact body_ne_zero m c (h ▸ List.mem_append_right _ hc)
    · exact hx0 c hc
  rw [lineTokens, lineOf_eq hf0]
  -- behind the destination every word up to the next delimiter ends in the newline
  have htail {w : List Byte} (hw : ∀ c ∈ w, c ∈ m.text) :
      (tokens isDelim (w ++ [10] ++ x))[0]? = some (w ++ [10]) ∧ w ++ [10] ≠ m.dest := by
    refine ⟨tokens_word_head (by simp) (fun c hc => ?_) hx, fun heq => ?_⟩
    · exact text_newline_delim m c (by simp only [List.mem_append] at hc ⊢; exact hc.imp (hw c) id)
    · exact (m.dest_plain 10 (heq ▸ by simp)).2.1 rfl
  rcases List.append_eq_append_iff.1 h with ⟨a, hd, hfa⟩ | ⟨b, heb, hb⟩
  · cases a with
    | nil =>
      refine ⟨m.text ++ [10], ?_, (htail (fun c hc => hc)).2⟩
      rw [hfa, List.nil_append, List.cons_append, tokens_cons_delim (by decide)]
      exact (htail (fun c hc => hc)).1
    | cons y a =>
      refine ⟨y :: a, ?_, fun heq => ?_⟩
      · rw [hfa, List.append_assoc]
        refine tokens_word_head (by simp) (fun c hc => (m.dest_plain c ?_).1) (fun c l hcl => ?_)
        · rw [hd]; exact List.mem_append_right _ hc
        · rw [List.cons_append, List.cons.injEq] at hcl
          rw [← hcl.1]; decide
      · have hlen := congrArg List.length hd
        rw [← heq] at hlen
        have := List.length_pos_iff.2 he
        simp only [List.length_append] at hlen
        omega
  · cases b with
    | nil =>
      refine ⟨m.text ++ [10], ?_, (htail (fun c hc => hc)).2⟩
      rw [List.nil_append] at hb
      rw [← hb, List.cons_append, tokens_cons_delim (by decide)]
      exact (htail (fun c hc => hc)).1
    | cons y b =>
      rw [List.cons_append, List.cons.injEq] at hb
      obtain ⟨w, hw, hsub⟩ := suffix_snoc hb.2.symm hf
      have hin : ∀ c ∈ w, c ∈ m.text := fun c hc => by rw [hsub]; exact List.mem_append_right _ hc
      exact ⟨w ++ [10], by rw [hw]; exact (htail hin).1, (htail hin).2⟩

/-- The bytes of whole messages start with a bracket. -/
theorem flatMap_enc_head {ms : List Msg} {x y : List Byte} (h : x ++ y = ms.flatMap Msg.enc) :
    (∀ c l, x = c :: l → isDelim c = true) ∧ ∀ c ∈ x, c ≠ 0 := by
  constructor
  · rintro c l rfl
    cases ms with
    | nil => cases h
    | cons m ms =>
      rw [List.flatMap_cons, Msg.enc, List.cons_append, List.cons_append, List.cons.injEq] at h
      rw [h.1]; decide
  · intro c hc
    have hmem : c ∈ ms.flatMap Msg.enc := h ▸ List.mem_append_left _ hc
    obtain ⟨m, -, hm⟩ := List.mem_flatMap.1 hmem
    exact rest_opening_ne_zero (m := m) false false c (by simpa [Msg.rest, opening] using hm)

/-- Behind a message, a read goes on at most by the next opening bracket if the next read is relayed as the next
message. -/
theorem read_end {ms : List Msg} {e : List Byte} {reads : List Read} {pArray : List (Option Nat)}
    (h : e ++ reads.flatMap Read.bytes = ms.flatMap Msg.enc) (he : (10 : Byte) ∉ e)
    (hr : relays signed ci pArray reads = .ok (ms.map (Msg.relay ci.id))) :
    ∃ o, e = opening o ∧ (o = true → ms ≠ []) := by
  match e, ms, h with
  | [], _, _ => exact ⟨false, rfl, by simp⟩
  | c :: e, m :: ms, h =>
    rw [List.flatMap_cons, Msg.enc, List.cons_append, List.cons_append, List.cons.injEq] at h
    obtain ⟨rfl, h⟩ := h
    by_cases hnil : e = []
    · exact ⟨true, by rw [hnil]; rfl, by simp⟩
    exfalso
    have he' : (10 : Byte) ∉ e := fun hmem => he (List.mem_cons_of_mem _ hmem)
    have hbody : m.body = m.dest ++ 93 :: m.text ++ [10] := by simp [Msg.body]
    -- the next read starts inside the message
    obtain ⟨f, hf, hrest⟩ : ∃ f, m.body = e ++ f ∧ reads.flatMap Read.bytes = f ++ ms.flatMap Msg.enc := by
      rcases List.append_eq_append_iff.1 h with h | ⟨a, ha, -⟩
      · exact h
      · exact absurd (by rw [ha, hbody]; simp) he'
    have hfne : f ≠ [] := by
      rintro rfl
      rw [List.append_nil] at hf
      exact he' (by rw [← hf, hbody]; simp)
    obtain ⟨w, hw, hmw⟩ := suffix_snoc (hf.symm.trans hbody) hfne
    have hwn : (10 : Byte) ∉ w := by
      have hc := count_rest m true
      change m.body.count 10 = 1 at hc
      rw [hf, hw, ← List.append_assoc, List.count_append] at hc
      simp only [List.count_append, List.count_cons_self, List.count_nil] at hc
      exact List.count_eq_zero.1 (by omega)
    match reads, relays_length hr with
    | r :: reads, _ =>
      obtain ⟨i, pa, l, hi, -, heq⟩ := relays_cons hr
      rw [List.map_cons, List.cons.injEq] at heq
      rw [hw, List.flatMap_cons] at hrest
      obtain ⟨x, hx, hxs⟩ := read_prefix hwn (newline_mem hi heq.1.symm) hrest
      obtain ⟨hd, h0⟩ := flatMap_enc_head hxs
      obtain ⟨t, ht, hne⟩ := head_read hf.symm hfne hnil hd h0
      rw [hw, ← hx] at ht
      exact hne (((clntRead_spec hi).1 t ht).symm.trans (congrArg Prod.fst heq.1).symm)

/-- Reads relayed as the messages of the stream are framed. -/
theorem framed_of_relays : ∀ {ms : List Msg} {o : Bool} {reads : List Read} {pArray : List (Option Nat)},
    reads.flatMap Read.bytes = stream o ms → relays signed ci pArray reads = .ok (ms.map (Msg.relay ci.id)) →
      Framed o ms reads
  | [], _, reads, _, _, hr => List.length_eq_zero_iff.1 (relays_length hr).symm
  | m :: ms, o, reads, pArray, hs, hr => by
    match reads, relays_length hr with
    | r :: reads, _ =>
      obtain ⟨i, pa, l, hi, hl, heq⟩ := relays_cons hr
      rw [List.map_cons, List.cons.injEq] at heq
      obtain ⟨him, rfl⟩ := heq
      obtain ⟨w, hw, hwn⟩ := rest_eq_snoc m o
      rw [stream, hw, List.flatMap_cons] at hs
      obtain ⟨e, he, hes⟩ := read_prefix hwn (newline_mem hi him.symm) hs
      -- one newline for each read that follows, so none is left for `e`
      have hen : (10 : Byte) ∉ e := by
        have h1 := length_le_count hl
        have h2 := count_flatMap_enc ms
        have h3 := relays_length hl
        rw [← hes, List.count_append] at h2
        rw [List.length_map] at h3
        exact List.count_eq_zero.1 (by omega)
      obtain ⟨o', ho', hms⟩ := read_end hes hen hl
      refine ⟨o', r, reads, rfl, by rw [he, ho', hw], hms, framed_of_relays ?_ hl⟩
      rw [ho', ← opening_append_stream hms] at hes
      exact List.append_cancel_left hes

/-- **Message framing.** With one message in each read the server relays the messages; with any other cut of their
bytes into reads it relays the same iff the cut is framed. -/
theorem relays_iff_framed (signed : Bool) (ci : ClientInfo) (pArray : List (Option Nat)) (ms : List Msg)
    {reads : List Read} (hcut : reads.flatMap Read.bytes = ms.flatMap Msg.enc) :
    relays signed ci pArray (ms.map Msg.read) = .ok (ms.map (Msg.relay ci.id)) ∧
      (relays signed ci pArray reads = relays signed ci pArray (ms.map Msg.read) ↔ Framed false ms reads) := by
  have hone : relays signed ci pArray (ms.map Msg.read) = .ok (ms.map (Msg.relay ci.id)) :=
    relays_of_framed (framed_read ms) pArray
  refine ⟨hone, ?_⟩
  rw [hone]
  exact ⟨framed_of_relays (hcut.trans (stream_false ms).symm), fun h => relays_of_framed h pArray⟩

/-- The messages `[A]x` and `[B]y`, and both in one read. -/
def msgA : Msg := ⟨bytes "A", bytes "x", by decide, List.all_iff_forall_prop.1 (by decide),
  List.all_iff_forall_prop.1 (by decide), by decide⟩
def msgB : Msg := ⟨bytes "B", bytes "y", by decide, List.all_iff_forall_prop.1 (by decide),
  List.all_iff_forall_prop.1 (by decide), by decide⟩
def readAB : Read := ⟨msgA.enc ++ msgB.enc, by decide, by decide⟩

theorem relays_iff_framed_AB :
    relays true (clientInfo₀ slotQt) [] [msgA.read, msgB.read] =
        .ok [msgA.relay (bytes "KJD_QT"), msgB.relay (bytes "KJD_QT")] ∧
      (relays true (clientInfo₀ slotQt) [] [readAB] = relays true (clientInfo₀ slotQt) [] [msgA.read, msgB.read] ↔
        Framed false [msgA, msgB] [readAB]) :=
  relays_iff_framed true (clientInfo₀ slotQt) [] [msgA, msgB] (by decide)

/-- Of two messages in one read the server relays the first only; and of a text with a NUL it relays the part before,
even if the message comes in a read of its own. -/
theorem cut_changes_relays :
    (¬ ∀ (signed : Bool) (ci : ClientInfo) (ms : List Msg) (reads : List Read), (∀ m ∈ ms, m.text ≠ []) →
      reads.flatMap Read.bytes = ms.flatMap Msg.enc →
        relays signed ci (List.replicate arrCnt none) reads = .ok (ms.map (Msg.relay ci.id))) ∧
    ¬ ∀ (signed : Bool) (ci : ClientInfo) (d p : List Byte), d ≠ [] → p ≠ [] →
      (∀ c ∈ d ++ p, isDelim c = false ∧ c ≠ 10) → ∀ r : Read, r.bytes = 91 :: (d ++ 93 :: (p ++ [10])) →
        relays signed ci (List.replicate arrCnt none) [r] = .ok [(d, tagged ci.id (p ++ [10]))] := by
  constructor
  · intro h
    have hlen := relays_length (h true (clientInfo₀ slotQt) [msgA, msgB] [readAB] (by decide) (by decide))
    cases hlen
  · intro h
    have hnul := h true (clientInfo₀ slotQt) (bytes "A") [0] (by decide) (by decide)
      (List.all_iff_forall_prop.1 (by decide))
      ⟨91 :: (bytes "A" ++ 93 :: ([0] ++ [10])), by decide, by decide⟩ rfl
    exact absurd hnul (by decide)

end PetVending.Server
