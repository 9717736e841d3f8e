import Mathlib.Data.List.Basic
import Mathlib.Tactic.Common

/-!
# Quoted literals

A text is read behind its opening quote: `esc c` stands for one character, `u c`, and the literal ends at the first
quote that is not escaped.

- `readQuoted`: the value of the literal, and the text behind it;
- `readQuoted_verbatim_iff`: a text that is pasted between quotes is read back as it is iff it has no quote and no
  escape character, when only the escaped escape character stands for it.
-/

namespace Quoted

variable {α : Type*} [DecidableEq α] {quote esc : α} {u : α → α}

/-- The value of a literal behind its opening quote, and the text behind the closing one. -/
def readQuoted (quote esc : α) (u : α → α) : List α → Option (List α × List α)
  | [] => none
  | c :: l =>
    if c = quote then some ([], l)
    else if c = esc then
      match l with
      | [] => none
      | d :: l => (readQuoted quote esc u l).map fun r => (u d :: r.1, r.2)
    else (readQuoted quote esc u l).map fun r => (c :: r.1, r.2)

/-- A text without quotes and escape characters. -/
def Bare (quote esc : α) (t : List α) : Prop := ∀ c ∈ t, c ≠ quote ∧ c ≠ esc

instance (quote esc : α) (t : List α) : Decidable (Bare quote esc t) :=
  inferInstanceAs (Decidable (∀ c ∈ t, c ≠ quote ∧ c ≠ esc))

theorem readQuoted_quote (l : List α) : readQuoted quote esc u (quote :: l) = some ([], l) := by
  rw [readQuoted.eq_def]
  simp

theorem readQuoted_esc (h : esc ≠ quote) (d : α) (l : List α) : readQuoted quote esc u (esc :: d :: l) =
    (readQuoted quote esc u l).map fun r => (u d :: r.1, r.2) := by
  rw [readQuoted.eq_def]
  simp [h]

theorem readQuoted_char {c : α} (hq : c ≠ quote) (he : c ≠ esc) (l : List α) : readQuoted quote esc u (c :: l) =
    (readQuoted quote esc u l).map fun r => (c :: r.1, r.2) := by
  rw [readQuoted.eq_def]
  simp [hq, he]

/-- Bare text is read as it is. -/
theorem readQuoted_bare {t : List α} (h : Bare quote esc t) (l : List α) :
    readQuoted quote esc u (t ++ quote :: l) = some (t, l) := by
  induction t with
  | nil => exact readQuoted_quote l
  | cons c t ih =>
    obtain ⟨hq, he⟩ := h c List.mem_cons_self
    rw [List.cons_append, readQuoted_char hq he, ih fun d hd => h d (List.mem_cons_of_mem c hd)]
    rfl

theorem replicate_append_cons {β : Type*} (a : β) (t : List β) : ∀ k : Nat,
    List.replicate k a ++ a :: t = a :: (List.replicate k a ++ t)
  | 0 => rfl
  | k + 1 => by rw [List.replicate_succ, List.cons_append, List.cons_append, replicate_append_cons a t k]

/-- Text that is not bare is read as something else, even with escape characters in front of the value. -/
theorem bare_of_readQuoted (hne : esc ≠ quote) (hu : ∀ c, u c = esc → c = esc) {l r : List α} :
    ∀ (k : Nat) (t : List α),
    readQuoted quote esc u (t ++ quote :: l) = some (List.replicate k esc ++ t, r) → k = 0 ∧ Bare quote esc t
  | k, [], h => by
    rw [List.nil_append, readQuoted_quote, List.append_nil] at h
    cases k with
    | zero => exact ⟨rfl, fun c hc => by cases hc⟩
    | succ k => cases h
  | k, c :: t, h => by
    by_cases hq : c = quote
    · rw [hq, List.cons_append, readQuoted_quote] at h
      cases k <;> cases h
    by_cases he : c = esc
    · -- the character behind it must stand for an escape character, so one more is missing from then on
      rw [he, List.cons_append, replicate_append_cons] at h
      match t with
      | [] =>
        rw [List.nil_append, readQuoted_esc hne, Option.map_eq_some_iff] at h
        obtain ⟨v, -, hv⟩ := h
        exact absurd (hu quote (List.cons.inj (Prod.mk.inj hv).1).1).symm hne
      | d :: t =>
        rw [List.cons_append, readQuoted_esc hne, Option.map_eq_some_iff] at h
        obtain ⟨v, hread, hv⟩ := h
        obtain ⟨⟨hd, htail⟩, hr⟩ := (Prod.mk.inj hv).imp List.cons.inj id
        have hk : v = (List.replicate (k + 1) esc ++ t, r) := by
          rw [hu d hd, replicate_append_cons] at htail
          exact Prod.ext htail hr
        rw [hk] at hread
        exact absurd (bare_of_readQuoted hne hu (k + 1) t hread).1 (Nat.succ_ne_zero k)
    · rw [List.cons_append, readQuoted_char hq he, Option.map_eq_some_iff] at h
      obtain ⟨v, hread, hv⟩ := h
      cases k with
      | zero =>
        obtain ⟨⟨-, htail⟩, hr⟩ := (Prod.mk.inj hv).imp List.cons.inj id
        have hv' : v = (List.replicate 0 esc ++ t, r) := Prod.ext htail hr
        rw [hv'] at hread
        have hbare := (bare_of_readQuoted hne hu 0 t hread).2
        exact ⟨rfl, List.forall_mem_cons.2 ⟨⟨hq, he⟩, hbare⟩⟩
      | succ k => exact absurd (List.cons.inj (Prod.mk.inj hv).1).1 he

/-- **A pasted text is read back verbatim iff it is bare.** -/
theorem readQuoted_verbatim_iff (hne : esc ≠ quote) (hu : ∀ c, u c = esc → c = esc) (t l : List α) :
    (∃ r, readQuoted quote esc u (t ++ quote :: l) = some (t, r)) ↔ Bare quote esc t := by
  constructor
  · rintro ⟨r, h⟩
    exact (bare_of_readQuoted hne hu 0 t h).2
  · exact fun h => ⟨l, readQuoted_bare h l⟩

end Quoted
