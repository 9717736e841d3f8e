import PetVending.Server.Relay
import Mathlib.Data.Bool.AllAny
import Mathlib.Data.List.ModifyLast

/-!
# Texts `[id]f1@...@fn`

All programs exchange texts `[id]f1@...@fn` with a line feed behind them: `id` is the destination when a client sends
the text, and the sender when the server relays it.

- `Message`: an id and its fields, without any of `[ ] : @`, CR, LF and NUL in them; `enc` is the text;
- `tokens_line`, `tokens_enc`: whatever delimiters a program uses, as long as `[`, `]` and `@` are among them, the
  tokens are the id and the fields; where the line feed is no delimiter it stays on the last field.
-/

namespace PetVending.Wire

open CStr Server

/-! ## Messages -/

/-- A byte of a field. -/
def FieldByte (c : Byte) : Prop := c ∉ bytes "[]:@\r\n" ∧ c ≠ 0

instance : DecidablePred FieldByte := fun c => inferInstanceAs (Decidable (c ∉ bytes "[]:@\r\n" ∧ c ≠ 0))

theorem FieldByte.ne {c : Byte} (h : FieldByte c) (x : Byte) (hx : x ∈ bytes "[]:@\r\n") : c ≠ x := by
  rintro rfl
  exact h.1 hx

/-- An id or a field. -/
structure Field where
  text : List Byte
  ne : text ≠ []
  clean : ∀ c ∈ text, FieldByte c

/-- A field given by its bytes. -/
def Field.of (t : List Byte) (ne : t ≠ []) (clean : t.all (fun c => FieldByte c) = true) : Field :=
  ⟨t, ne, List.all_iff_forall_prop.1 clean⟩

def kjdQt : Field := .of (bytes "KJD_QT") (by decide) (by decide)

def kjdStm : Field := .of (bytes "KJD_STM") (by decide) (by decide)

def kjdSql : Field := .of (bytes "KJD_SQL") (by decide) (by decide)

/-- The word in front of a motor number. -/
def motorWord : Field := .of (bytes "MOTOR") (by decide) (by decide)

/-- `[id]f1@...@fn` -/
structure Message where
  id : Field
  fields : List Field
  ne : fields ≠ []

namespace Message

variable (m : Message)

/-- The texts of the fields. -/
def texts : List (List Byte) := m.fields.map (·.text)

/-- `f1@...@fn` -/
def body : List Byte := [64].intercalate m.texts

/-- The message without its line feed. -/
def line : List Byte := tagged m.id.text m.body

/-- The message as it is sent. -/
def enc : List Byte := m.line ++ [10]

/-- The same fields behind the tag of `s`. -/
def sentBy (s : Field) : Message := { m with id := s }

theorem texts_ne : m.texts ≠ [] := by
  simpa [texts] using m.ne

theorem enc_eq : m.enc = tagged m.id.text (m.body ++ [10]) := by
  simp [enc, line, tagged]

theorem enc_length : m.enc.length = m.id.text.length + m.body.length + 3 := by
  rw [enc_eq]
  simp only [tagged, List.length_append, List.length_cons, List.length_nil]
  omega

end Message

/-! ## Bytes -/

theorem mem_intercalate {α : Type*} {c x : α} : ∀ {ws : List (List α)}, x ∈ [c].intercalate ws → x = c ∨ ∃ w ∈ ws, x ∈ w
  | [], h => by simp at h
  | [w], h => .inr ⟨w, by simp, by simpa using h⟩
  | w :: v :: ws, h => by
    rw [List.intercalate_cons_cons, List.mem_append, List.mem_append, List.mem_singleton] at h
    rcases h with (h | h) | h
    · exact .inr ⟨w, by simp, h⟩
    · exact .inl h
    · obtain h | ⟨u, hu, hx⟩ := mem_intercalate h
      · exact .inl h
      · exact .inr ⟨u, List.mem_cons_of_mem _ hu, hx⟩

namespace Message

variable {m : Message} {c : Byte}

theorem mem_texts {t : List Byte} (h : t ∈ m.texts) : t ≠ [] ∧ ∀ c ∈ t, FieldByte c := by
  obtain ⟨f, -, rfl⟩ := List.mem_map.1 h
  exact ⟨f.ne, f.clean⟩

theorem mem_body (h : c ∈ m.body) : c = 64 ∨ FieldByte c := by
  obtain h | ⟨w, hw, hc⟩ := mem_intercalate h
  · exact .inl h
  · exact .inr ((mem_texts hw).2 c hc)

/-- The bytes of a message. -/
theorem mem_line (h : c ∈ m.line) : c ∈ bytes "[]@" ∨ FieldByte c := by
  rw [line, tagged, List.mem_append, List.mem_cons, List.mem_cons] at h
  rcases h with (rfl | h) | rfl | h
  · exact .inl (by decide)
  · exact .inr (m.id.clean c h)
  · exact .inl (by decide)
  · exact (mem_body h).imp (by rintro rfl; decide) fun h => h

theorem line_clean (h : c ∈ m.line) : c ≠ 10 ∧ c ≠ 13 ∧ c ≠ 0 := by
  have h10 : (10 : Byte) ∉ bytes "[]@" ∧ ¬ FieldByte 10 := by decide
  have h13 : (13 : Byte) ∉ bytes "[]@" ∧ ¬ FieldByte 13 := by decide
  have h0 : (0 : Byte) ∉ bytes "[]@" ∧ ¬ FieldByte 0 := by decide
  refine ⟨?_, ?_, ?_⟩ <;> rintro rfl
  · exact (mem_line h).elim h10.1 h10.2
  · exact (mem_line h).elim h13.1 h13.2
  · exact (mem_line h).elim h0.1 h0.2

theorem enc_ne_zero (h : c ∈ m.enc) : c ≠ 0 := by
  rcases List.mem_append.1 h with h | h
  · exact (line_clean h).2.2
  · rw [List.mem_singleton.1 h]
    decide

end Message

/-! ## Tokens -/

/-- What is put behind joined words belongs to the last one. -/
theorem intercalate_concat_append {c : Byte} {w t : List Byte} (ws : List (List Byte)) :
    [c].intercalate (ws ++ [w]) ++ t = [c].intercalate (ws ++ [w ++ t]) := by
  induction ws with
  | nil => simp
  | cons v ws ih =>
    rw [List.cons_append, List.cons_append, List.intercalate_cons_of_ne_nil (by simp),
      List.intercalate_cons_of_ne_nil (by simp), List.append_assoc, ih]

theorem intercalate_append {c : Byte} {t : List Byte} {ws : List (List Byte)} (h : ws ≠ []) :
    [c].intercalate ws ++ t = [c].intercalate (ws.modifyLast (· ++ t)) := by
  obtain ⟨l, w, rfl⟩ := (List.eq_nil_or_concat ws).resolve_left h
  rw [List.concat_eq_append, List.modifyLast_concat, intercalate_concat_append]

theorem length_modifyLast {f : List Byte → List Byte} {ws : List (List Byte)} (h : ws ≠ []) :
    (ws.modifyLast f).length = ws.length := by
  obtain ⟨l, w, rfl⟩ := (List.eq_nil_or_concat ws).resolve_left h
  rw [List.concat_eq_append, List.modifyLast_concat, List.length_append, List.length_append, List.length_singleton,
    List.length_singleton]

/-- A property of the words that the last one keeps when something is put behind it. -/
theorem forall_modifyLast {P : List Byte → Prop} {f : List Byte → List Byte} {ws : List (List Byte)} (h : ws ≠ [])
    (hP : ∀ w ∈ ws, P w) (hf : ∀ w, P w → P (f w)) : ∀ w ∈ ws.modifyLast f, P w := by
  obtain ⟨l, w, rfl⟩ := (List.eq_nil_or_concat ws).resolve_left h
  rw [List.concat_eq_append] at hP ⊢
  rw [List.modifyLast_concat]
  intro u hu
  obtain hu | rfl := (List.mem_append.1 hu).imp_right List.mem_singleton.1
  · exact hP u (by simp [hu])
  · exact hf w (hP w (by simp))

namespace Message

variable {m : Message} {d : Byte → Bool}

/-- **The tokens of a message** without its line feed. -/
theorem tokens_line (hd : ∀ c ∈ bytes "[]@", d c = true) (hf : ∀ c, FieldByte c → d c = false) :
    tokens d m.line = m.id.text :: m.texts := by
  rw [line, tagged, List.cons_append, tokens_cons_delim (hd 91 (by decide)),
    tokens_word_cons m.id.ne (fun c hc => hf c (m.id.clean c hc)) (hd 93 (by decide)),
    body, tokens_intercalate (hd 64 (by decide)) fun w hw =>
      ⟨(mem_texts hw).1, fun c hc => hf c ((mem_texts hw).2 c hc)⟩]

/-- **The tokens of a message**: the line feed stays on the last field. -/
theorem tokens_enc (hd : ∀ c ∈ bytes "[]@", d c = true) (hf : ∀ c, FieldByte c → d c = false) (h10 : d 10 = false) :
    tokens d m.enc = m.id.text :: m.texts.modifyLast (· ++ [10]) := by
  have hwords : ∀ w ∈ m.texts.modifyLast (· ++ [10]), w ≠ [] ∧ ∀ c ∈ w, d c = false := by
    refine forall_modifyLast m.texts_ne (fun w hw => ⟨(mem_texts hw).1, fun c hc => hf c ((mem_texts hw).2 c hc)⟩)
      fun w hw => ⟨by simp, fun c hc => ?_⟩
    obtain hc | rfl := (List.mem_append.1 hc).imp_right List.mem_singleton.1
    · exact hw.2 c hc
    · exact h10
  rw [enc_eq, tagged, List.cons_append, tokens_cons_delim (hd 91 (by decide)),
    tokens_word_cons m.id.ne (fun c hc => hf c (m.id.clean c hc)) (hd 93 (by decide)), body,
    intercalate_append m.texts_ne, tokens_intercalate (hd 64 (by decide)) hwords]

/-- Where `@` is no delimiter either, all fields are one token. -/
theorem tokens_enc_pair (hd : ∀ c ∈ bytes "[]", d c = true) (hf : ∀ c, FieldByte c → d c = false)
    (h64 : d 64 = false) (h10 : d 10 = false) : tokens d m.enc = [m.id.text, m.body ++ [10]] := by
  have hbody : ∀ c ∈ m.body ++ [10], d c = false := by
    intro c hc
    obtain hc | rfl := (List.mem_append.1 hc).imp_right List.mem_singleton.1
    · exact (mem_body hc).elim (fun h => h ▸ h64) (hf c)
    · exact h10
  rw [enc_eq, tagged, List.cons_append, tokens_cons_delim (hd 91 (by decide)),
    tokens_word_cons m.id.ne (fun c hc => hf c (m.id.clean c hc)) (hd 93 (by decide)), tokens_word (by simp) hbody]

end Message

end PetVending.Wire
