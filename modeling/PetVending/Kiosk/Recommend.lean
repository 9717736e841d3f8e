import PetVending.Kiosk.Socket
import PetVending.Lib.Transition
import Mathlib.Tactic.SplitIfs

/-!
# Recommendations at the kiosk: `tab3RecvDataSlot` and `displayRecommendationDialog`

A `BREED` message appends the products of its breed to `basicRecommendedProducts` behind a `processEvents`; a `DB_BREED`
message shows them in a dialog, and only when the dialog is closed is the list cleared. Any signal may come while
another slot is in its nested event loop.

- `step`: the slots on a stack, as in `Payment`; `done` are the breeds whose products were appended since a dialog was
  closed last;
- `step_right`: the list is made of the products of `done`, and a step opens a wrong dialog iff it breaks the guard;
- `Fresh`: one listed breed is `done`, with the products of the breed received last, or none is and that one is not
  listed;
- `dialogs_iff`: all dialogs of a run are right iff each is opened in a `Fresh` state. Two `BREED` messages before the
  answer of the database are enough for a wrong one (`products_twice`).
-/

namespace PetVending.Kiosk.Recommend

open Transition

/-! ## The breed table -/

/-- What `tab3RecvDataSlot` knows about a breed. -/
structure Advice where
  breedInKorean : String
  recommendation : String
  products : List QString

/-- The products of a branch. -/
def numbers (l : List String) : List QString := l.map ascii

/-- The chain of `if`s over `breed`. -/
def advice (breed : QString) : Advice :=
  if breed = ascii "POM" then
    ⟨"포메라니안",
      "관절 건강 중요!:'글루코사민, 콘드로이틴, 오메가-3 지방산'<br>피부 건강 중요!:'오메가-3 및 오메가-6 지방산'",
      numbers ["1", "2"]⟩
  else if breed = ascii "LAB" then
    ⟨"리트리버",
      "관절 건강 중요!:'글루코사민, 콘드로이틴, 오메가-3 지방산'<br>피부 건강 중요!:'오메가-3 및 오메가-6 지방산'",
      numbers ["1", "2"]⟩
  else if breed = ascii "POO" then
    ⟨"푸들",
      "푸들의 피부 건강을 위해 오메가-3, 오메가-6 지방산이 좋습니다.<br>" ++
        "또한, 치아 건강을 위해 비타민 C, D, K와 칼슘, 오메가-3 지방산을 권장합니다.",
      numbers ["2", "3"]⟩
  else if breed = ascii "BIC" then
    ⟨"비숑 프리제",
      "비숑 프리제의 관절 건강을 위해 글루코사민, 콘드로이틴, 오메가-3 지방산을 권장합니다.<br>" ++
        "치아 건강을 위해서는 비타민 C, D, K와 칼슘, 오메가-3 지방산이 필요합니다.",
      numbers ["1", "3"]⟩
  else if breed = ascii "CHL" then
    ⟨"치와와",
      "치와와의 관절 건강을 위해 글루코사민, 콘드로이틴, 오메가-3 지방산을 섭취하는 것이 좋습니다.<br>" ++
        "치아 건강을 위해서는 비타민 C, D, K와 칼슘, 오메가-3 지방산을 권장합니다.",
      numbers ["1", "3"]⟩
  else if breed = ascii "TER" then
    ⟨"테리어",
      "테리어의 피부 건강을 위해 오메가-3, 오메가-6 지방산이 좋습니다.<br>" ++
        "치아 건강을 위해서는 비타민 C, D, K와 칼슘, 오메가-3 지방산을 섭취하는 것이 좋습니다.",
      numbers ["2", "3"]⟩
  else if breed = ascii "DRI" then
    ⟨"시츄",
      "기관지 건강 중요!:'오메가-3 지방산, 비타민 C, E, 글루코사민, 콘드로이틴'<br>" ++
        "치아 건강 중요!:'비타민 C, D, K와 칼슘, 오메가-3 지방산'",
      numbers ["4", "3"]⟩
  else if breed = ascii "MAL" then
    ⟨"말티즈",
      "말티즈의 저혈당증 예방을 위해 단백질과 비타민 B, 오메가-3 지방산을 섭취하는 것이 좋습니다.<br>" ++
        "피부 건강을 위해서는 오메가-3, 오메가-6 지방산이 필요합니다.",
      numbers ["5", "2"]⟩
  else ⟨"알 수 없는 품종", "해당 품종의 추천 정보가 없습니다.", []⟩

/-- The table has products for the breed. -/
def listed (breed : QString) : Bool := (advice breed).products ≠ []

/-! ## States and steps -/

/-- A slot in its nested event loop: `tab3RecvDataSlot` in `processEvents`, or `displayRecommendationDialog` in
`exec`. -/
inductive Frame
  | recommend
  | dialog
  deriving DecidableEq

/-- A dialog as it is shown, with the breed of the last `BREED` message received and the numbers of the message that
opened it. -/
structure Shown where
  breedInKorean : String
  recommendation : String
  basic : List QString
  db : List QString
  lastBreed : QString
  numbers : List QString

/-- The widget; `sent` are the texts on `socketSendDataSig`. -/
structure Widget where
  breed : QString
  breedInKorean : String
  recommendation : String
  basicRecommendedProducts : List QString
  dbRecommendedProducts : List QString
  frames : List Frame
  sent : List QString
  shown : List Shown
  lastBreed : QString
  done : List QString

def widgetStart : Widget := ⟨[], "", "", [], [], [], [], [], [], []⟩

/-- A signal of the socket, the end of `on_pbPayment_clicked`, or the return of the innermost event loop. -/
inductive Act
  | signal (g : Signal)
  | paid
  | ret

namespace Widget

/-- `tab3RecvDataSlot` up to its `processEvents`; `none` if there is no `qList[3]`. -/
def tab3RecvDataSlot (s : Widget) (qList : List QString) : Option Widget :=
  if qList[2]? = some (ascii "BREED") then
    qList[3]?.map fun b => { s with
      breed := b
      lastBreed := b
      sent := s.sent ++ [ascii "[KJD_SQL]DB_RECO@" ++ b]
      frames := .recommend :: s.frames }
  else some s

/-- The rest of `tab3RecvDataSlot`. -/
def recommend (s : Widget) : Widget :=
  { s with
    breedInKorean := (advice s.breed).breedInKorean
    recommendation := (advice s.breed).recommendation
    basicRecommendedProducts := s.basicRecommendedProducts ++ (advice s.breed).products
    done := s.done ++ [s.breed] }

/-- `displayRecommendationDialog` up to `exec`. -/
def displayRecommendationDialog (s : Widget) (numbers : List QString) : Widget :=
  { s with
    shown := s.shown ++ [⟨s.breedInKorean, s.recommendation, s.basicRecommendedProducts, s.dbRecommendedProducts,
      s.lastBreed, numbers⟩]
    frames := .dialog :: s.frames }

/-- `tab3RecvDataSlot_db` up to the dialog's event loop; `none` if there is no `qList[3]` or `qList[4]`. -/
def tab3RecvDataSlotDb (s : Widget) (qList : List QString) : Option Widget :=
  if qList[2]? = some (ascii "DB_BREED") then
    match qList[3]?, qList[4]? with
    | some a, some c => some ({ s with dbRecommendedProducts := [a, c] }.displayRecommendationDialog [a, c])
    | _, _ => none
  else some s

/-- The end of `displayRecommendationDialog`. -/
def closed (s : Widget) : Widget := { s with basicRecommendedProducts := [], dbRecommendedProducts := [], done := [] }

end Widget

def step (s : Widget) : Act → Option Widget
  | .signal g =>
    match g.kind with
    | .breed => s.tab3RecvDataSlot g.qList
    | .dbBreed => s.tab3RecvDataSlotDb g.qList
  | .paid => some { s with breed := [] }
  | .ret =>
    match s.frames with
    | [] => none
    | .recommend :: frames => some { s with frames := frames }.recommend
    | .dialog :: frames => some { s with frames := frames }.closed

/-! ## The property and the guard -/

/-- The dialog shows the products of the breed received last, and the numbers of the message that opened it. -/
structure Shown.Right (d : Shown) : Prop where
  basic : d.basic = (advice d.lastBreed).products
  db : d.db = d.numbers

/-- All dialogs so far were right. -/
def Right (s : Widget) : Prop := ∀ d ∈ s.shown, d.Right

/-- One listed breed is `done`, with the products of the breed received last, or none is and that one is not listed. -/
def Fresh (s : Widget) : Prop :=
  match s.done.filter listed with
  | [] => listed s.lastBreed = false
  | [b] => (advice b).products = (advice s.lastBreed).products
  | _ => False

instance (s : Widget) : Decidable (Fresh s) :=
  match h : s.done.filter listed with
  | [] => decidable_of_iff (listed s.lastBreed = false) (by simp [Fresh, h])
  | [b] => decidable_of_iff ((advice b).products = (advice s.lastBreed).products) (by simp [Fresh, h])
  | _ :: _ :: _ => .isFalse (by simp [Fresh, h])

/-- A dialog is opened in a `Fresh` state. -/
def RecoGuard (s : Widget) : Act → Prop
  | .signal g => g.kind = .dbBreed → g.qList[2]? = some (ascii "DB_BREED") → Fresh s
  | _ => True

instance (s : Widget) : (a : Act) → Decidable (RecoGuard s a)
  | .signal g => inferInstanceAs (Decidable (g.kind = .dbBreed → g.qList[2]? = some (ascii "DB_BREED") → Fresh s))
  | .paid => .isTrue trivial
  | .ret => .isTrue trivial

/-! ## Lists of products -/

/-- A breed has two products or none. -/
theorem products_length (b : QString) : (advice b).products.length = 2 ∨ (advice b).products = [] := by
  unfold advice
  split_ifs <;> simp [numbers]

theorem listed_length {b : QString} (h : listed b = true) : (advice b).products.length = 2 :=
  (products_length b).resolve_right (of_decide_eq_true h)

theorem products_of_not_listed {b : QString} (h : listed b = false) : (advice b).products = [] :=
  not_not.1 (of_decide_eq_false h)

/-- Breeds that are not listed add nothing. -/
theorem flatMap_listed (l : List QString) :
    l.flatMap (fun b => (advice b).products) = (l.filter listed).flatMap fun b => (advice b).products := by
  induction l with
  | nil => rfl
  | cons b l ih =>
    cases h : listed b with
    | true => rw [List.filter_cons_of_pos h, List.flatMap_cons, List.flatMap_cons, ih]
    | false =>
      rw [List.filter_cons_of_neg (by simp [h]), List.flatMap_cons, products_of_not_listed h, List.nil_append, ih]

/-- The list is made of the products of the breeds that are `done`. -/
def Basic (s : Widget) : Prop := s.basicRecommendedProducts = s.done.flatMap fun b => (advice b).products

/-- **What is shown is right in the `Fresh` states**: two lists are already too long. -/
theorem fresh_iff {s : Widget} (h : Basic s) :
    s.basicRecommendedProducts = (advice s.lastBreed).products ↔ Fresh s := by
  rw [h, flatMap_listed]
  have hall : ∀ b ∈ s.done.filter listed, listed b = true := fun b hb => (List.mem_filter.1 hb).2
  unfold Fresh
  match hd : s.done.filter listed with
  | [] =>
    rw [List.flatMap_nil, eq_comm]
    exact ⟨fun he => decide_eq_false (not_not.2 he), products_of_not_listed⟩
  | [b] => simp
  | b :: c :: l =>
    rw [hd] at hall
    refine iff_of_false (fun he => ?_) id
    have hb := listed_length (hall b (by simp))
    have hc := listed_length (hall c (by simp))
    have hlen := congrArg List.length he
    rw [List.flatMap_cons, List.flatMap_cons, List.length_append, List.length_append] at hlen
    rcases products_length s.lastBreed with h2 | h0
    · omega
    · rw [h0, List.length_nil] at hlen
      omega

/-! ## Steps and runs -/

section Steps

variable {s t : Widget}

theorem slot_step {qList : List QString} (h : Basic s) (hst : s.tab3RecvDataSlot qList = some t) :
    Basic t ∧ t.shown = s.shown := by
  unfold Widget.tab3RecvDataSlot at hst
  split at hst
  · obtain ⟨b, -, rfl⟩ := Option.map_eq_some_iff.1 hst
    exact ⟨h, rfl⟩
  · cases hst
    exact ⟨h, rfl⟩

/-- A `DB_BREED` message opens a dialog with its two numbers; another text does nothing. -/
theorem slotDb_step {qList : List QString} (h : Basic s) (hst : s.tab3RecvDataSlotDb qList = some t) :
    Basic t ∧ if qList[2]? = some (ascii "DB_BREED") then ∃ d, t.shown = s.shown ++ [d] ∧ (d.Right ↔ Fresh s)
      else t.shown = s.shown := by
  unfold Widget.tab3RecvDataSlotDb at hst
  split at hst
  · rename_i hq
    split at hst <;> cases hst
    refine ⟨h, ?_⟩
    rw [if_pos hq]
    refine ⟨_, rfl, ?_⟩
    rw [← fresh_iff h]
    exact ⟨fun hd => hd.basic, fun hb => ⟨hb, rfl⟩⟩
  · rename_i hq
    cases hst
    exact ⟨h, by rw [if_neg hq]⟩

/-- **A step opens a wrong dialog iff it breaks the guard.** -/
theorem step_right {a : Act} (h : Basic s) (hr : Right s) (hst : step s a = some t) :
    Basic t ∧ (Right t ↔ RecoGuard s a) := by
  cases a with
  | signal g =>
    simp only [step] at hst
    split at hst
    · rename_i hk
      obtain ⟨hb, hshown⟩ := slot_step h hst
      refine ⟨hb, iff_of_true (by rw [Right, hshown]; exact hr) fun hk' => ?_⟩
      rw [hk] at hk'
      cases hk'
    · rename_i hk
      obtain ⟨hb, hshown⟩ := slotDb_step h hst
      refine ⟨hb, ?_⟩
      split at hshown
      · rename_i hq
        obtain ⟨d, hd, hright⟩ := hshown
        rw [Right, hd, List.forall_mem_append, List.forall_mem_singleton, hright]
        exact ⟨fun hf _ _ => hf.2, fun hf => ⟨hr, hf hk hq⟩⟩
      · rename_i hq
        exact iff_of_true (by rw [Right, hshown]; exact hr) fun _ hq' => absurd hq' hq
  | paid =>
    cases hst
    exact ⟨h, iff_of_true hr trivial⟩
  | ret =>
    simp only [step] at hst
    split at hst <;> cases hst
    · refine ⟨?_, iff_of_true hr trivial⟩
      show s.basicRecommendedProducts ++ _ = (s.done ++ [s.breed]).flatMap _
      rw [List.flatMap_append, List.flatMap_singleton, h]
    · exact ⟨rfl, iff_of_true hr trivial⟩

/-- A dialog always shows the numbers of its own message. -/
theorem step_db {a : Act} (h : ∀ d ∈ s.shown, d.db = d.numbers) (hst : step s a = some t) :
    ∀ d ∈ t.shown, d.db = d.numbers := by
  cases a with
  | signal g =>
    simp only [step, Widget.tab3RecvDataSlot, Widget.tab3RecvDataSlotDb] at hst
    split at hst
    · split at hst
      · obtain ⟨b, -, rfl⟩ := Option.map_eq_some_iff.1 hst
        exact h
      · cases hst
        exact h
    · split at hst
      · split at hst <;> cases hst
        exact List.forall_mem_append.2 ⟨h, List.forall_mem_singleton.2 rfl⟩
      · cases hst
        exact h
  | paid =>
    cases hst
    exact h
  | ret =>
    simp only [step] at hst
    split at hst <;> cases hst
    · exact h
    · exact h

end Steps

/-- **Dialogs over runs.** The numbers of the database are always those of the message that opened the dialog; the
dialogs of a run are all right iff each of them was opened in a `Fresh` state. -/
theorem dialogs_iff {tr : List (Widget × Act × Widget)} {s : Widget} (h : Run step widgetStart tr s) :
    (∀ d ∈ s.shown, d.db = d.numbers) ∧ ((∀ e ∈ tr, Right e.2.2) ↔ ∀ e ∈ tr, RecoGuard e.1 e.2.1) := by
  have hstart : Basic widgetStart ∧ Right widgetStart := ⟨rfl, by simp [Right, widgetStart]⟩
  constructor
  · induction h with
    | nil => simp [widgetStart]
    | snoc _ hst ih => exact step_db ih hst
  · refine run_iff (I := fun s => Basic s ∧ Right s) hstart (fun s hs => hs.2) (fun s a t hs hg hst => ?_)
      (fun s a t hs hst ht => ?_) h
    · obtain ⟨hb, hiff⟩ := step_right hs.1 hs.2 hst
      exact ⟨hb, hiff.2 hg⟩
    · exact (step_right hs.1 hs.2 hst).2.1 ht

/-- The signal of a message. -/
def signalOf (k : Kind) (m : Wire.Message) : Act := .signal ⟨k, recvData m⟩

/-- A breed, the answer of the database, and the dialog closed; then the same again. -/
theorem dialogs_two : ∃ tr s, trace step widgetStart [signalOf .breed breedLab, .ret, signalOf .dbBreed dbBreed12, .ret,
      signalOf .breed breedLab, .ret, signalOf .dbBreed dbBreed12, .ret] = some (tr, s) ∧
    s.shown.length = 2 ∧ ∀ e ∈ tr, Right e.2.2 := by
  have hrun : (trace step widgetStart [signalOf .breed breedLab, .ret, signalOf .dbBreed dbBreed12, .ret,
      signalOf .breed breedLab, .ret, signalOf .dbBreed dbBreed12, .ret]).any (fun r =>
        r.2.shown.length = 2 ∧ ∀ e ∈ r.1, RecoGuard e.1 e.2.1) = true := by decide +kernel
  obtain ⟨⟨tr, s⟩, hs, hp⟩ := (Option.any_eq_true ..).1 hrun
  obtain ⟨hlen, hguard⟩ := of_decide_eq_true hp
  exact ⟨tr, s, hs, hlen, (dialogs_iff (run_of_trace hs)).2.2 hguard⟩

/-- The same breed twice before the answer of the database: its products are shown twice. -/
theorem products_twice : ¬ ∀ (tr : List (Widget × Act × Widget)) (s : Widget), Run step widgetStart tr s →
    ∀ e ∈ tr, Right e.2.2 := by
  intro h
  have hrun : (trace step widgetStart [signalOf .breed breedLab, .ret, signalOf .breed breedLab, .ret,
      signalOf .dbBreed dbBreed12]).any (fun r => r.1.any fun e => e.2.2.shown.any fun d =>
        d.lastBreed = ascii "LAB" ∧ d.basic = numbers ["1", "2", "1", "2"]) = true := by decide +kernel
  obtain ⟨⟨tr, s⟩, hs, htr⟩ := (Option.any_eq_true ..).1 hrun
  obtain ⟨e, he, hshown⟩ := List.any_eq_true.1 htr
  obtain ⟨d, hd, hp⟩ := List.any_eq_true.1 hshown
  obtain ⟨hlast, hbasic⟩ := of_decide_eq_true hp
  have hright := (h tr s (run_of_trace hs) e he d hd).basic
  rw [hlast, hbasic] at hright
  revert hright
  decide

end PetVending.Kiosk.Recommend
