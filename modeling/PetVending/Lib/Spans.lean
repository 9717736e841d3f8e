import Mathlib.Algebra.GroupWithZero.Nat
import Mathlib.Data.List.Basic
import Mathlib.Data.Nat.Basic
import Mathlib.Order.MinMax
import Mathlib.Tactic.Common

/-!
# Spans

Lists of spans of numbers, in their order and with a gap between any two (`Spaced`). Such a list is determined by the
numbers it covers (`spaced_unique`), and a run of numbers that is covered lies in one of its spans (`run_in_span`).

- `fit_none`, `fit_some`: the first span of a size is where the first run of that size begins;
- `erase_cover`, `put_cover`: a span taken out, and a span put in, which grows together with its neighbours.
-/

namespace Spans

/-- The numbers from `start` on, `size` of them. -/
structure Span where
  start : Nat
  size : Nat
deriving DecidableEq

def Span.stop (b : Span) : Nat := b.start + b.size

/-- The span has `x`. -/
def Span.Has (b : Span) (x : Nat) : Prop := b.start ≤ x ∧ x < b.stop

instance (b : Span) (x : Nat) : Decidable (b.Has x) := inferInstanceAs (Decidable (_ ∧ _))

theorem Span.has_start {b : Span} (h : 0 < b.size) : b.Has b.start := ⟨le_rfl, Nat.lt_add_of_pos_right h⟩

/-- Two spans without a common number. -/
def Span.Apart (b c : Span) : Prop := ∀ x, b.Has x → ¬ c.Has x

theorem Span.Apart.symm {b c : Span} (h : b.Apart c) : c.Apart b := fun x hc hb => h x hb hc

instance : Std.Symm Span.Apart := ⟨fun _ _ h => h.symm⟩

/-- Some span has `x`. -/
def Cover (l : List Span) (x : Nat) : Prop := ∃ b ∈ l, b.Has x

instance (l : List Span) (x : Nat) : Decidable (Cover l x) := inferInstanceAs (Decidable (∃ b ∈ l, b.Has x))

/-- Behind `lo`, in order, not empty, and with a gap between any two. -/
def Spaced : Nat → List Span → Prop
  | _, [] => True
  | lo, b :: l => lo < b.start ∧ 0 < b.size ∧ Spaced b.stop l

variable {lo w a x : Nat} {b c : Span} {l l' : List Span}

theorem not_cover_nil (x : Nat) : ¬ Cover [] x := by
  rintro ⟨b, hb, -⟩
  cases hb

theorem cover_cons : Cover (b :: l) x ↔ b.Has x ∨ Cover l x := by simp [Cover]

theorem cover_append : Cover (l ++ l') x ↔ Cover l x ∨ Cover l' x := by simp [Cover, or_and_right, exists_or]

theorem Spaced.mono {lo' : Nat} (h : Spaced lo l) (hle : lo' ≤ lo) : Spaced lo' l := by
  cases l with
  | nil => trivial
  | cons b l => exact ⟨lt_of_le_of_lt hle h.1, h.2⟩

theorem Spaced.tail (h : Spaced lo (b :: l)) : Spaced lo l := by
  apply h.2.2.mono
  have := h.1
  unfold Span.stop
  omega

theorem Spaced.of_append (h : Spaced lo (l ++ l')) : Spaced lo l' := by
  induction l with
  | nil => exact h
  | cons b l ih => exact ih (h.tail)

theorem Spaced.mem (h : Spaced lo l) (hb : b ∈ l) : lo < b.start ∧ 0 < b.size := by
  induction l with
  | nil => cases hb
  | cons c l ih =>
    rcases List.mem_cons.1 hb with rfl | hb
    · exact ⟨h.1, h.2.1⟩
    · exact ih h.tail hb

theorem Spaced.cover_of_mem (h : Spaced lo l) (hb : b ∈ l) : Cover l b.start := ⟨b, hb, Span.has_start (h.mem hb).2⟩

/-- What is covered lies behind. -/
theorem Spaced.behind (h : Spaced lo l) (hx : Cover l x) : lo < x := by
  obtain ⟨b, hb, hstart, -⟩ := hx
  exact lt_of_lt_of_le (h.mem hb).1 hstart

/-- The end of a span is not covered. -/
theorem Spaced.gap (h : Spaced lo l) (hb : b ∈ l) : ¬ Cover l b.stop := by
  induction l generalizing lo with
  | nil => cases hb
  | cons c l ih =>
    rw [cover_cons, not_or]
    rcases List.mem_cons.1 hb with rfl | hb
    · exact ⟨fun hc => lt_irrefl _ hc.2, fun hl => lt_irrefl _ (h.2.2.behind hl)⟩
    · refine ⟨fun hc => ?_, ih h.2.2 hb⟩
      have hlt := (h.2.2.mem hb).1
      have hstop := hc.2
      unfold Span.stop at hlt hstop
      omega

/-! ## Runs -/

/-- The `w` numbers from `a` on are covered. -/
def Run (l : List Span) (a w : Nat) : Prop := ∀ i < w, Cover l (a + i)

instance (l : List Span) (a w : Nat) : Decidable (Run l a w) := inferInstanceAs (Decidable (∀ i < w, _))

theorem run_of_mem (hb : b ∈ l) (hstart : b.start ≤ a) (hstop : a + w ≤ b.stop) : Run l a w :=
  fun i hi => ⟨b, hb, by omega, by omega⟩

/-- **A run lies in one span.** -/
theorem run_in_span (h : Spaced lo l) (hw : 0 < w) (hrun : Run l a w) : ∃ b ∈ l, b.start ≤ a ∧ a + w ≤ b.stop := by
  induction l generalizing lo with
  | nil => exact absurd (hrun 0 hw) (not_cover_nil _)
  | cons b l ih =>
    have hfirst : Cover (b :: l) a := hrun 0 hw
    rcases cover_cons.1 hfirst with hb | hl
    · refine ⟨b, List.mem_cons_self, hb.1, not_lt.1 fun hlt => h.gap List.mem_cons_self ?_⟩
      -- the run would go over the gap behind `b`
      have hstop := hb.2
      have hgap := hrun (b.stop - a) (by omega)
      rwa [Nat.add_sub_of_le (le_of_lt hstop)] at hgap
    · have hbehind : b.stop < a := h.2.2.behind hl
      have hrun' : Run l a w := fun i hi => (cover_cons.1 (hrun i hi)).resolve_left fun hb => by have := hb.2; omega
      obtain ⟨c, hc, hin⟩ := ih h.2.2 hrun'
      exact ⟨c, List.mem_cons_of_mem _ hc, hin⟩

/-- The first number covered is the start of the first span. -/
theorem Spaced.start_le (h : Spaced lo (b :: l)) (hx : Cover (b :: l) x) : b.start ≤ x := by
  rcases cover_cons.1 hx with hb | hl
  · exact hb.1
  · have := h.2.2.behind hl
    unfold Span.stop at this
    omega

theorem Spaced.cover_start (h : Spaced lo (b :: l)) : Cover (b :: l) b.start := h.cover_of_mem List.mem_cons_self

/-- The first span of a list ends no later than that of another with the same numbers. -/
theorem Spaced.stop_le (h : Spaced lo (b :: l)) (heq : ∀ x, Cover (b :: l) x ↔ Cover (c :: l') x)
    (hstart : b.start = c.start) : c.stop ≤ b.stop := by
  by_contra hlt
  apply h.gap List.mem_cons_self
  rw [heq]
  refine ⟨c, List.mem_cons_self, ?_, not_le.1 hlt⟩
  rw [← hstart]
  exact Nat.le_add_right _ _

/-- **Spaced spans are determined by what they cover.** -/
theorem spaced_unique {lo' : Nat} (h : Spaced lo l) (h' : Spaced lo' l') (heq : ∀ x, Cover l x ↔ Cover l' x) :
    l = l' := by
  induction l generalizing lo lo' l' with
  | nil =>
    cases l' with
    | nil => rfl
    | cons c l' => exact absurd ((heq _).2 h'.cover_start) (not_cover_nil _)
  | cons b l ih =>
    cases l' with
    | nil => exact absurd ((heq _).1 h.cover_start) (not_cover_nil _)
    | cons c l' =>
      have hstart : b.start = c.start :=
        le_antisymm (h.start_le ((heq _).2 h'.cover_start)) (h'.start_le ((heq _).1 h.cover_start))
      have hstop : b.stop = c.stop :=
        le_antisymm (h'.stop_le (fun x => (heq x).symm) hstart.symm) (h.stop_le heq hstart)
      have hb : b = c := by
        obtain ⟨s, n⟩ := b
        obtain ⟨s', n'⟩ := c
        unfold Span.stop at hstop
        simp only at hstart hstop
        simp only [Span.mk.injEq]
        omega
      subst hb
      congr 1
      apply ih h.2.2 h'.2.2
      intro x
      constructor
      · intro hx
        have hout : ¬ b.Has x := fun hb => absurd (h.2.2.behind hx) (not_lt.2 (le_of_lt hb.2))
        exact (cover_cons.1 ((heq x).1 (cover_cons.2 (.inr hx)))).resolve_left hout
      · intro hx
        have hout : ¬ b.Has x := fun hb => absurd (h'.2.2.behind hx) (not_lt.2 (le_of_lt hb.2))
        exact (cover_cons.1 ((heq x).2 (cover_cons.2 (.inr hx)))).resolve_left hout

/-! ## The first fit -/

/-- The first span with room for `w`. -/
def fit (w : Nat) (l : List Span) : Option Span := l.find? (w ≤ ·.size)

theorem fit_none (h : Spaced lo l) (hw : 0 < w) : fit w l = none ↔ ∀ a, ¬ Run l a w := by
  rw [fit, List.find?_eq_none]
  constructor
  · intro hnone a hrun
    obtain ⟨b, hb, hstart, hstop⟩ := run_in_span h hw hrun
    apply hnone b hb
    rw [decide_eq_true_iff]
    unfold Span.stop at hstop
    omega
  · intro hnone b hb hsize
    rw [decide_eq_true_iff] at hsize
    exact hnone b.start (run_of_mem hb le_rfl (Nat.add_le_add_left hsize _))

/-- **First fit**: it begins where the first run does. -/
theorem fit_some (h : Spaced lo l) (hw : 0 < w) (hb : fit w l = some b) :
    Run l b.start w ∧ ∀ a < b.start, ¬ Run l a w := by
  obtain ⟨hsize, l₁, l₂, rfl, hsmall⟩ := List.find?_eq_some_iff_append.1 hb
  rw [decide_eq_true_iff] at hsize
  refine ⟨run_of_mem (List.mem_append_right _ List.mem_cons_self) le_rfl (Nat.add_le_add_left hsize _),
    fun a ha hrun => ?_⟩
  obtain ⟨c, hc, hstart, hstop⟩ := run_in_span h hw hrun
  rcases List.mem_append.1 hc with hc | hc
  · have hc := hsmall c hc
    unfold Span.stop at hstop
    simp only [Bool.not_eq_true', decide_eq_false_iff_not] at hc
    omega
  · have hle := h.of_append.start_le ⟨c, hc, Span.has_start (h.mem (List.mem_append_right _ hc)).2⟩
    omega

/-- The largest size. -/
theorem le_max_size (l : List Span) : ∀ m, w ≤ l.foldl (fun m c => max m c.size) m ↔ w ≤ m ∨ ∃ b ∈ l, w ≤ b.size := by
  induction l with
  | nil => simp
  | cons c l ih =>
    intro m
    rw [List.foldl_cons, ih, le_max_iff, or_assoc, List.exists_mem_cons_iff]

/-- **There is a run of a size** iff some span has room for it. -/
theorem exists_run_iff (h : Spaced lo l) (hw : 0 < w) : (∃ a, Run l a w) ↔ ∃ b ∈ l, w ≤ b.size := by
  constructor
  · rintro ⟨a, hrun⟩
    obtain ⟨b, hb, hstart, hstop⟩ := run_in_span h hw hrun
    unfold Span.stop at hstop
    exact ⟨b, hb, by omega⟩
  · rintro ⟨b, hb, hsize⟩
    exact ⟨b.start, run_of_mem hb le_rfl (Nat.add_le_add_left hsize _)⟩

/-! ## Taking a span out -/

/-- The sum of the sizes. -/
def total (l : List Span) : Nat := (l.map Span.size).sum

theorem total_cons (b : Span) (l : List Span) : total (b :: l) = b.size + total l := by simp [total]

theorem size_le_total (hb : b ∈ l) : b.size ≤ total l := by
  induction l with
  | nil => cases hb
  | cons c l ih =>
    rw [total_cons]
    rcases List.mem_cons.1 hb with rfl | hb
    · exact Nat.le_add_right _ _
    · exact le_trans (ih hb) (Nat.le_add_left _ _)

/-- No span fits what is more than all of them together. -/
theorem fit_of_total (h : total l < w) : fit w l = none := by
  rw [fit, List.find?_eq_none]
  intro b hb
  rw [decide_eq_true_iff, not_le]
  exact lt_of_le_of_lt (size_le_total hb) h

/-- Spans below `hi` have no more numbers than there are. -/
theorem Spaced.total_le {hi : Nat} (h : Spaced lo l) (hhi : ∀ b ∈ l, b.stop ≤ hi) : total l ≤ hi - lo := by
  induction l generalizing lo with
  | nil => exact Nat.zero_le _
  | cons b l ih =>
    obtain ⟨hb, hl⟩ := List.forall_mem_cons.1 hhi
    have hrest := ih h.2.2 hl
    have hlo := h.1
    rw [total_cons]
    unfold Span.stop at hb hrest
    omega

theorem Spaced.length_le (h : Spaced lo l) : l.length ≤ total l := by
  induction l generalizing lo with
  | nil => exact Nat.zero_le _
  | cons b l ih =>
    have hrest := ih h.2.2
    have hpos := h.2.1
    rw [total_cons, List.length_cons]
    omega

/-- No two spans have one start. -/
theorem Spaced.nodup (h : Spaced lo l) : (l.map Span.start).Nodup := by
  induction l generalizing lo with
  | nil => exact List.nodup_nil
  | cons b l ih =>
    rw [List.map_cons, List.nodup_cons]
    refine ⟨fun hmem => ?_, ih h.2.2⟩
    obtain ⟨c, hc, heq⟩ := List.mem_map.1 hmem
    have hlt := (h.2.2.mem hc).1
    unfold Span.stop at hlt
    omega

theorem Spaced.out (h : Spaced lo (l ++ b :: l')) : Spaced lo (l ++ l') := by
  induction l generalizing lo with
  | nil => exact h.tail
  | cons c l ih => exact ⟨h.1, h.2.1, ih h.2.2⟩

/-- A number is in one span only. -/
theorem Spaced.not_both (h : Spaced lo (l ++ b :: l')) (hx : b.Has x) : ¬ Cover (l ++ l') x := by
  induction l generalizing lo with
  | nil => exact fun hl => absurd (h.2.2.behind hl) (not_lt.2 (le_of_lt hx.2))
  | cons c l ih =>
    rw [List.cons_append, cover_cons, not_or]
    refine ⟨fun hc => ?_, ih h.2.2⟩
    have := h.2.2.behind ⟨b, List.mem_append_right _ List.mem_cons_self, hx⟩
    exact absurd hc.2 (not_lt.2 (le_of_lt this))

theorem total_middle (l l' : List Span) (b : Span) : total (l ++ b :: l') = b.size + total (l ++ l') := by
  simp only [total, List.map_append, List.map_cons, List.sum_append, List.sum_cons]
  omega

/-- The span that is found is the one taken out. -/
theorem find_split {p : Span → Bool} (hb : l.find? p = some b) :
    ∃ l₁ l₂, l = l₁ ++ b :: l₂ ∧ l.eraseP p = l₁ ++ l₂ := by
  obtain ⟨hp, l₁, l₂, rfl, hother⟩ := List.find?_eq_some_iff_append.1 hb
  have hcons : (b :: l₂).eraseP p = l₂ := List.eraseP_cons_of_pos hp
  exact ⟨l₁, l₂, rfl, by rw [List.eraseP_append_right _ fun c hc => by simpa using hother c hc, hcons]⟩

theorem find_mem {p : Span → Bool} (hb : l.find? p = some b) (hc : c ∈ l) : c = b ∨ c ∈ l.eraseP p := by
  obtain ⟨l₁, l₂, rfl, hout⟩ := find_split hb
  rw [List.mem_append, List.mem_cons] at hc
  rw [hout, List.mem_append]
  exact or_left_comm.1 hc

/-- What the span covered, and what the others do. -/
theorem find_cover {p : Span → Bool} (hb : l.find? p = some b) : Cover l x ↔ b.Has x ∨ Cover (l.eraseP p) x := by
  obtain ⟨l₁, l₂, rfl, hout⟩ := find_split hb
  rw [hout, cover_append, cover_cons, cover_append]
  exact or_left_comm

theorem find_total {p : Span → Bool} (hb : l.find? p = some b) : total l = b.size + total (l.eraseP p) := by
  obtain ⟨l₁, l₂, rfl, hout⟩ := find_split hb
  rw [hout, total_middle]

/-- A span taken out of spans that are apart has nothing of the others. -/
theorem find_apart {p : Span → Bool} (hb : l.find? p = some b) (h : l.Pairwise Span.Apart) :
    (∀ c ∈ l.eraseP p, b.Apart c) ∧ (l.eraseP p).Pairwise Span.Apart := by
  obtain ⟨l₁, l₂, rfl, hout⟩ := find_split hb
  rw [hout]
  rw [List.pairwise_middle Span.Apart.symm] at h
  exact List.pairwise_cons.1 h

/-- **The first fit taken out.** -/
theorem erase_cover (h : Spaced lo l) (hb : fit w l = some b) : Spaced lo (l.eraseP (w ≤ ·.size)) ∧
    (∀ x, Cover (l.eraseP (w ≤ ·.size)) x ↔ Cover l x ∧ ¬ b.Has x) ∧
      total (l.eraseP (w ≤ ·.size)) + b.size = total l := by
  refine ⟨?_, fun x => ?_, ?_⟩
  · obtain ⟨l₁, l₂, rfl, hout⟩ := find_split hb
    rw [hout]
    exact h.out
  · have hone : b.Has x → ¬ Cover (l.eraseP (w ≤ ·.size)) x := by
      obtain ⟨l₁, l₂, rfl, hout⟩ := find_split hb
      rw [hout]
      exact h.not_both
    rw [find_cover hb]
    tauto
  · rw [find_total hb, Nat.add_comm]

/-! ## Putting a span in -/

/-- A span in front of a list, joined with the next one where they touch. -/
def join (b : Span) : List Span → List Span
  | [] => [b]
  | c :: l => if b.stop = c.start then ⟨b.start, b.size + c.size⟩ :: l else b :: c :: l

/-- A span behind `c`, joined with it where they touch. -/
def place (c b : Span) (l : List Span) : List Span :=
  if c.stop = b.start then join ⟨c.start, c.size + b.size⟩ l else c :: join b l

/-- A span put into the list `c :: l`, behind `c`. -/
def insertFrom (c b : Span) : List Span → List Span
  | [] => place c b []
  | d :: l => if d.start < b.start then c :: insertFrom d b l else place c b (d :: l)

/-- A span put into a list. -/
def put (b : Span) : List Span → List Span
  | [] => [b]
  | d :: l => if d.start < b.start then insertFrom d b l else join b (d :: l)

/-- A first span that does not touch stays as it is. -/
theorem insertFrom_eq (h : c.stop ≠ b.start) : ∀ l, insertFrom c b l = c :: put b l
  | [] => by rw [insertFrom, place, if_neg h, join, put]
  | d :: l => by
    rw [insertFrom, put, place, if_neg h]
    split <;> rfl

theorem join_spaced (hlo : lo < b.start) (hb : 0 < b.size) (h : Spaced lo l) (hstop : ∀ x, Cover l x → b.stop ≤ x) :
    Spaced lo (join b l) := by
  cases l with
  | nil => exact ⟨hlo, hb, trivial⟩
  | cons c l =>
    have hle : b.stop ≤ c.start := hstop _ h.cover_start
    rw [join]
    split
    case isTrue htouch =>
      refine ⟨hlo, Nat.add_pos_left hb _, ?_⟩
      have heq : (⟨b.start, b.size + c.size⟩ : Span).stop = c.stop := by
        unfold Span.stop at htouch ⊢
        simp only
        omega
      rw [heq]
      exact h.2.2
    case isFalse htouch => exact ⟨hlo, hb, lt_of_le_of_ne hle htouch, h.2⟩

theorem join_cover (b : Span) (l : List Span) : Cover (join b l) x ↔ b.Has x ∨ Cover l x := by
  cases l with
  | nil => rw [join, cover_cons]
  | cons c l =>
    rw [join]
    split
    case isTrue htouch =>
      simp only [cover_cons, Span.Has, Span.stop] at htouch ⊢
      constructor
      · rintro (h | h)
        · by_cases hx : x < c.start
          · exact .inl ⟨h.1, by omega⟩
          · exact .inr (.inl ⟨by omega, by omega⟩)
        · exact .inr (.inr h)
      · rintro (h | h | h)
        · exact .inl ⟨h.1, by omega⟩
        · exact .inl ⟨by omega, by omega⟩
        · exact .inr h
    case isFalse htouch => rw [cover_cons]

/-- Joining moves no start. -/
theorem start_join {d : Span} (h : d ∈ join b l) : d.start = b.start ∨ ∃ c ∈ l, c.start = d.start := by
  cases l with
  | nil =>
    rw [join, List.mem_singleton] at h
    exact .inl (h ▸ rfl)
  | cons c l =>
    rw [join] at h
    split at h
    · rcases List.mem_cons.1 h with rfl | h
      · exact .inl rfl
      · exact .inr ⟨d, List.mem_cons_of_mem _ h, rfl⟩
    · rcases List.mem_cons.1 h with rfl | h
      · exact .inl rfl
      · exact .inr ⟨d, h, rfl⟩

theorem join_total (b : Span) (l : List Span) : total (join b l) = b.size + total l := by
  cases l with
  | nil => rw [join, total_cons]
  | cons c l =>
    rw [join]
    split
    · rw [total_cons, total_cons, Nat.add_assoc]
    · rw [total_cons]

section forall_put

variable {P : Span → Prop} (hjoin : ∀ c d, P c → P d → c.stop = d.start → P ⟨c.start, c.size + d.size⟩)
include hjoin

theorem forall_join (hb : P b) (hl : ∀ d ∈ l, P d) : ∀ d ∈ join b l, P d := by
  cases l with
  | nil => exact List.forall_mem_singleton.2 hb
  | cons c l =>
    obtain ⟨hc, hl⟩ := List.forall_mem_cons.1 hl
    rw [join]
    split
    case isTrue htouch => exact List.forall_mem_cons.2 ⟨hjoin b c hb hc htouch, hl⟩
    case isFalse => exact List.forall_mem_cons.2 ⟨hb, List.forall_mem_cons.2 ⟨hc, hl⟩⟩

theorem forall_place (hb : P b) (hc : P c) (hl : ∀ d ∈ l, P d) : ∀ d ∈ place c b l, P d := by
  rw [place]
  split
  case isTrue htouch => exact forall_join hjoin (hjoin c b hc hb htouch) hl
  case isFalse => exact List.forall_mem_cons.2 ⟨hc, forall_join hjoin hb hl⟩

theorem forall_insertFrom (hb : P b) (hc : P c) (hl : ∀ d ∈ l, P d) : ∀ d ∈ insertFrom c b l, P d := by
  induction l generalizing c with
  | nil => exact forall_place hjoin hb hc hl
  | cons d l ih =>
    obtain ⟨hd, hl'⟩ := List.forall_mem_cons.1 hl
    rw [insertFrom]
    split
    · exact List.forall_mem_cons.2 ⟨hc, ih hd hl'⟩
    · exact forall_place hjoin hb hc hl

/-- What holds of the spans, and of two that touch taken together, holds of the list with a span put in. -/
theorem forall_put (hb : P b) (hl : ∀ d ∈ l, P d) : ∀ d ∈ put b l, P d := by
  cases l with
  | nil => exact List.forall_mem_singleton.2 hb
  | cons d l =>
    obtain ⟨hd, hl'⟩ := List.forall_mem_cons.1 hl
    rw [put]
    split
    · exact forall_insertFrom hjoin hb hd hl'
    · exact forall_join hjoin hb hl

end forall_put

theorem place_cover (c b : Span) (l : List Span) : Cover (place c b l) x ↔ b.Has x ∨ Cover (c :: l) x := by
  rw [place, cover_cons]
  split
  case isTrue htouch =>
    rw [join_cover]
    simp only [Span.Has, Span.stop] at htouch ⊢
    constructor
    · rintro (h | h)
      · by_cases hx : x < b.start
        · exact .inr (.inl ⟨h.1, by omega⟩)
        · exact .inl ⟨by omega, by omega⟩
      · exact .inr (.inr h)
    · rintro (h | h | h)
      · exact .inl ⟨by omega, by omega⟩
      · exact .inl ⟨h.1, by omega⟩
      · exact .inr h
  case isFalse =>
    rw [cover_cons, join_cover]
    exact or_left_comm

theorem insertFrom_cover (b : Span) (l : List Span) : ∀ c, Cover (insertFrom c b l) x ↔ b.Has x ∨ Cover (c :: l) x := by
  induction l with
  | nil => exact fun c => place_cover c b []
  | cons d l ih =>
    intro c
    rw [insertFrom]
    split
    · rw [cover_cons, ih d, cover_cons (b := c)]
      exact or_left_comm
    · exact place_cover c b (d :: l)

theorem place_total (c b : Span) (l : List Span) : total (place c b l) = b.size + total (c :: l) := by
  rw [place, total_cons]
  split
  · rw [join_total]
    simp only
    omega
  · rw [total_cons, join_total]
    omega

theorem insertFrom_total (b : Span) (l : List Span) : ∀ c, total (insertFrom c b l) = b.size + total (c :: l) := by
  induction l with
  | nil => exact fun c => place_total c b []
  | cons d l ih =>
    intro c
    rw [insertFrom]
    split
    · rw [total_cons, ih d, total_cons c]
      omega
    · exact place_total c b (d :: l)

theorem place_spaced (h : Spaced lo (c :: l)) (hc : c.stop ≤ b.start) (hb : 0 < b.size)
    (hstop : ∀ x, Cover l x → b.stop ≤ x) :
    Spaced lo (place c b l) := by
  rw [place]
  split
  case isTrue htouch =>
    refine join_spaced h.1 (Nat.add_pos_right _ hb) h.tail fun x hx => ?_
    have := hstop x hx
    unfold Span.stop at htouch this ⊢
    simp only
    omega
  case isFalse htouch =>
    exact ⟨h.1, h.2.1, join_spaced (lt_of_le_of_ne hc htouch) hb h.2.2 hstop⟩

/-- What is covered lies behind a span in front that has none of it. -/
theorem Spaced.stop_le_of_disjoint (h : Spaced lo (c :: l)) (hle : b.start ≤ c.start)
    (hout : ∀ x, b.Has x → ¬ Cover (c :: l) x) (hx : Cover (c :: l) x) : b.stop ≤ x := by
  have hstop : b.stop ≤ c.start := not_lt.1 fun hlt => hout _ ⟨hle, hlt⟩ h.cover_start
  exact le_trans hstop (h.start_le hx)

theorem insertFrom_spaced (hb : 0 < b.size) (h : Spaced lo (c :: l)) (hlt : c.start < b.start)
    (hout : ∀ x, b.Has x → ¬ Cover (c :: l) x) : Spaced lo (insertFrom c b l) := by
  have hfirst : c.stop ≤ b.start :=
    not_lt.1 fun hgt => hout b.start (Span.has_start hb) ⟨c, List.mem_cons_self, le_of_lt hlt, hgt⟩
  have hrest : ∀ x, b.Has x → ¬ Cover l x := fun x hx hl => hout x hx (cover_cons.2 (.inr hl))
  induction l generalizing c lo with
  | nil => exact place_spaced h hfirst hb fun x hx => absurd hx (not_cover_nil x)
  | cons d l ih =>
    rw [insertFrom]
    split
    case isTrue hd =>
      have hnext : d.stop ≤ b.start :=
        not_lt.1 fun hgt => hrest b.start (Span.has_start hb) ⟨d, List.mem_cons_self, le_of_lt hd, hgt⟩
      exact ⟨h.1, h.2.1, ih h.2.2 hd hrest hnext fun x hx hl => hrest x hx (cover_cons.2 (.inr hl))⟩
    case isFalse hd => exact place_spaced h hfirst hb fun x hx => h.2.2.stop_le_of_disjoint (not_lt.1 hd) hrest hx

theorem put_cover (b : Span) (l : List Span) : Cover (put b l) x ↔ b.Has x ∨ Cover l x := by
  cases l with
  | nil => rw [put, cover_cons]
  | cons d l =>
    rw [put]
    split
    · exact insertFrom_cover b l d
    · exact join_cover b (d :: l)

theorem put_total (b : Span) (l : List Span) : total (put b l) = b.size + total l := by
  cases l with
  | nil => rw [put, total_cons]
  | cons d l =>
    rw [put]
    split
    · exact insertFrom_total b l d
    · exact join_total b (d :: l)

/-- **A span put in** where nothing was covered. -/
theorem put_spaced (hlo : lo < b.start) (hb : 0 < b.size) (h : Spaced lo l) (hout : ∀ x, b.Has x → ¬ Cover l x) :
    Spaced lo (put b l) := by
  cases l with
  | nil => exact ⟨hlo, hb, trivial⟩
  | cons d l =>
    rw [put]
    split
    case isTrue hd => exact insertFrom_spaced hb h hd hout
    case isFalse hd => exact join_spaced hlo hb h fun x hx => h.stop_le_of_disjoint (not_lt.1 hd) hout hx

end Spans
