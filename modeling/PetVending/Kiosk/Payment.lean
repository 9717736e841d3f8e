import PetVending.Lib.Marker
import PetVending.Lib.Transition
import Mathlib.Data.List.Nodup
import Mathlib.Data.List.Basic
import Mathlib.Data.List.Count

/-!
# Payment at the kiosk: `Tab3ControlPannel`

`on_pbPayment_clicked` runs the event loop after every message it sends, so any slot may run inside it, itself included.
A slot that has called `processEvents` is a frame on a stack; an event runs its slot on top of the stack, and
`.ret` lets the slot on top go on.

- `step`: the slots, `selectedProducts` with a counter of its changes, and the messages sent;
- every press and every payment has a number, and `waiting` and `due` say what is to be vended: a press waits until the
  next CLR or Pay, a Pay makes all that wait due;
- `Msg.text`: the texts, as `QString::arg` makes them. It replaces place markers in a breed, too (`text_db_eq`);
- `Paid`: no press is vended twice, what is due is vended, every payment is recorded once with what it dispensed, and no
  loop goes on over a list that was changed;
- `paid_of_guard`: `Paid` holds in every run in which products and Pay are clicked only when no payment is being
  handled, CLR not while one is vending, and no breed with a low place marker is recorded (`PayGuard`). With a Pay
  inside a Pay it fails (`double_vend`).
-/

namespace PetVending.Kiosk

open Transition

/-! ## States -/

/-- An entry of `selectedProducts`, with the number of the press it comes from. -/
structure Item where
  productId : Nat
  press : Nat
  deriving DecidableEq

/-- A message on `socketSendDataSig`, with the number of the payment it belongs to: `[KJD_STM]MOTOR@..` for an item, or
`[KJD_SQL]DB@..` with `breed` and the flags. -/
inductive Msg
  | motor (pay : Nat) (it : Item)
  | db (pay : Nat) (breed : String) (itemFlags : List Nat)
  deriving DecidableEq

/-- `QString(format).arg(..)` for each of the texts. -/
def qArgs (format : String) (as : List String) : String :=
  String.ofList (Marker.args format.toList (as.map String.toList))

/-- The text of a message. -/
def Msg.text : Msg → String
  | .motor _ it => qArgs "[KJD_STM]MOTOR@%1" [toString it.productId]
  | .db _ breed flags =>
    if breed ≠ "" then qArgs "[KJD_SQL]DB@%1@%2@%3@%4@%5@%6@%7" (breed :: flags.map toString)
    else qArgs "[KJD_SQL]DB@UNKNOWN@%1@%2@%3@%4@%5@%6" (flags.map toString)

example : (Msg.db 0 "LAB" [0, 0, 1, 0, 0, 0]).text = "[KJD_SQL]DB@LAB@0@0@1@0@0@0" := by decide +kernel

-- the breed's marker takes the first flag
example : (Msg.db 0 "a%1b" [1, 0, 0, 0, 0, 0]).text = "[KJD_SQL]DB@a1b@0@0@0@0@0@%7" := by decide +kernel

/-- A slot `on_pbPayment_clicked` inside `processEvents`: in the loop over `selectedProducts`, with what its iterators
have still to visit and the state of the list they belong to, or behind the DB message. -/
inductive Frame
  | vend (pay : Nat) (todo : List Item) (version : Nat)
  | record (pay : Nat)
  deriving DecidableEq

/-- The widget. `version` counts the changes of `selectedProducts`; `fault` tells that a loop has gone on over a changed
list. -/
structure Panel where
  selectedProducts : List Item
  breed : String
  version : Nat
  frames : List Frame
  out : List Msg
  nextPress : Nat
  nextPay : Nat
  waiting : List Nat
  due : List Nat
  fault : Bool

def panelStart : Panel := ⟨[], "", 0, [], [], 0, 0, [], [], false⟩

/-- Events: a click on one of the nine product buttons, on CLR or on Pay, a `BREED` message, and the return of the
innermost `processEvents`. -/
inductive Act
  | product (button : Fin 9)
  | clr
  | pay
  | breed (b : String)
  | ret

/-! ## Slots -/

/-- `itemFlags` for the product numbers of a cart. -/
def itemFlags (ids : List Nat) : List Nat :=
  ids.foldl (fun flags id => if 1 ≤ id ∧ id ≤ 6 then flags.set (id - 1) 1 else flags) (List.replicate 6 0)

namespace Panel

/-- `on_productButton_clicked` -/
def onProductButtonClicked (s : Panel) (button : Fin 9) : Panel :=
  let productId := button.val + 1
  { s with
    selectedProducts := s.selectedProducts ++ [⟨productId, s.nextPress⟩]
    version := s.version + 1
    nextPress := s.nextPress + 1
    waiting := s.waiting ++ [s.nextPress] }

/-- `resetSelection` -/
def resetSelection (s : Panel) : Panel := { s with selectedProducts := [], version := s.version + 1 }

/-- `on_pbCLR_clicked` -/
def onPbCLRClicked (s : Panel) : Panel := { s.resetSelection with waiting := [] }

/-- The loop over `selectedProducts` with `todo` still to visit: the next message, or behind the loop the DB message. -/
def vendNext (s : Panel) (pay version : Nat) (frames : List Frame) : List Item → Panel
  | it :: todo => { s with out := s.out ++ [.motor pay it], frames := .vend pay todo version :: frames }
  | [] =>
    { s with
      out := s.out ++ [.db pay s.breed (itemFlags (s.selectedProducts.map (·.productId)))]
      frames := .record pay :: frames }

/-- The end of `on_pbPayment_clicked`. -/
def paid (s : Panel) : Panel := { s.resetSelection with breed := "" }

/-- `on_pbPayment_clicked` up to its first `processEvents`, or all of it for an empty cart. -/
def onPbPaymentClicked (s : Panel) : Panel :=
  let s := { s with waiting := [], due := s.due ++ s.waiting }
  if s.selectedProducts = [] then s.paid
  else { s with nextPay := s.nextPay + 1 }.vendNext s.nextPay s.version s.frames s.selectedProducts

end Panel

/-- An event runs its slot on top of the stack; `.ret` lets the slot on top go on. -/
def step (s : Panel) : Act → Option Panel
  | .product button => if s.fault then none else some (s.onProductButtonClicked button)
  | .clr => if s.fault then none else some s.onPbCLRClicked
  | .pay => if s.fault then none else some s.onPbPaymentClicked
  | .breed b => if s.fault then none else some { s with breed := b }
  | .ret =>
    if s.fault then none
    else
      match s.frames with
      | [] => none
      | .vend pay todo version :: frames =>
        if version ≠ s.version then some { s with fault := true } else some (s.vendNext pay version frames todo)
      | .record _ :: frames => some { s.paid with frames := frames }

/-! ## The property and the guard -/

/-- The press a message vends. -/
def Msg.vends : Msg → Option Nat
  | .motor _ it => some it.press
  | .db _ _ _ => none

/-- The product a message dispenses for payment `p`. -/
def Msg.dispenses (p : Nat) : Msg → Option Nat
  | .motor q it => if q = p then some it.productId else none
  | .db _ _ _ => none

/-- A record of payment `p`. -/
def Msg.isRecord (p : Nat) : Msg → Bool
  | .motor _ _ => false
  | .db q _ _ => q = p

namespace Panel

/-- The presses vended, in order. -/
def vended (s : Panel) : List Nat := s.out.filterMap Msg.vends

/-- The products dispensed by payment `p`, in order. -/
def dispensed (s : Panel) (p : Nat) : List Nat := s.out.filterMap (Msg.dispenses p)

/-- The records of payment `p`. -/
def records (s : Panel) (p : Nat) : List Msg := s.out.filter (Msg.isRecord p)

end Panel

/-- The flags that tell which of the items 1 to 6 are among the products. -/
def describe (ids : List Nat) : List Nat := (List.range 6).map fun k => if k + 1 ∈ ids then 1 else 0

/-- The breed a record names. -/
def dbBreed (breed : String) : String := if breed = "" then "UNKNOWN" else breed

/-- A text and fields, with `@` in front of each. -/
def fieldText (s : String) (fields : List String) : String :=
  String.ofList (s.toList ++ fields.flatMap fun f => '@' :: f.toList)

/-- `[KJD_SQL]DB@{breed}@{item1}@..@{item6}` -/
def dbText (breed : String) (flags : List Nat) : String := fieldText "[KJD_SQL]DB" (dbBreed breed :: flags.map toString)

/-- Payment `p` has sent one record, whose text names the breed and what the payment dispensed. -/
def Panel.Recorded (s : Panel) (p : Nat) : Prop :=
  ∃ breed, s.records p = [.db p breed (describe (s.dispensed p))] ∧
    (Msg.db p breed (describe (s.dispensed p))).text = dbText breed (describe (s.dispensed p))

/-- Every press is vended at most once, and once if it was due and all slots have returned; every payment has at most
one record, and one when all slots have returned, with what it dispensed; no loop has gone on over a changed list. -/
structure Paid (s : Panel) : Prop where
  once : ∀ k, s.vended.count k ≤ 1
  due : s.frames = [] → ∀ k ∈ s.due, s.vended.count k = 1
  records_le : ∀ p, (s.records p).length ≤ 1
  records : s.frames = [] → ∀ p < s.nextPay, s.Recorded p
  steady : s.fault = false

/-- Is the slot still in its loop? -/
def Frame.isVend : Frame → Bool
  | .vend _ _ _ => true
  | .record _ => false

/-- Has the slot on top vended its cart, and sends its record next? -/
def Panel.atRecord (s : Panel) : Bool :=
  match s.frames with
  | .vend _ [] _ :: _ => true
  | _ => false

/-- The breed has no place marker that is as low as one of the seven of the record. -/
def Verbatim (breed : String) : Prop := ∀ n ∈ Marker.markers breed.toList, 8 ≤ n

instance (breed : String) : Decidable (Verbatim breed) := inferInstanceAs (Decidable (∀ n ∈ _, 8 ≤ n))

/-- Products and Pay are clicked when no payment is being handled (Pay also on an empty cart), CLR not while one is
vending; and the breed that is recorded has no low place marker. -/
def PayGuard (s : Panel) : Act → Prop
  | .product _ => s.frames = []
  | .pay => s.frames = [] ∨ s.selectedProducts = []
  | .clr => s.frames.any Frame.isVend = false
  | .ret => s.atRecord = true → Verbatim s.breed
  | .breed _ => True

instance (s : Panel) : (a : Act) → Decidable (PayGuard s a)
  | .product _ => inferInstanceAs (Decidable (s.frames = []))
  | .pay => inferInstanceAs (Decidable (s.frames = [] ∨ s.selectedProducts = []))
  | .clr => inferInstanceAs (Decidable (s.frames.any Frame.isVend = false))
  | .ret => inferInstanceAs (Decidable (s.atRecord = true → Verbatim s.breed))
  | .breed _ => .isTrue trivial

/-! ## The text of a record -/

theorem markers_toString (f : Nat) : Marker.markers (toString f).toList = [] := by
  have hplain : '%' ∉ (toString f).toList := by
    intro h
    rw [Nat.toString_eq_ofList_toDigits, String.toList_ofList] at h
    exact absurd (Nat.isDigit_of_mem_toDigits (by decide) (by decide) h) (by decide)
  have h := Marker.markers_plain (v := []) hplain
  rwa [List.append_nil] at h

/-- A format of places behind a text, filled with texts that bring in no marker as low as one of them. -/
theorem qArgs_eq {format s : String} {as : List String} (hs : Marker.markers s.toList = [])
    (hformat : format.toList = s.toList ++ Marker.placesFrom 1 as.length) (hlen : as.length ≤ 9)
    (has : ∀ a ∈ as, ∀ m ∈ Marker.markers a.toList, 1 + as.length ≤ m) : qArgs format as = fieldText s as := by
  have hargs := Marker.args_eq (u := s.toList) (n := 1) (as.map String.toList) (by rw [List.length_map]; omega)
    (by rw [hs]; exact List.forall_mem_nil _) (by rw [List.length_map]; exact List.forall_mem_map.2 has)
  rw [List.length_map, List.flatMap_map] at hargs
  rw [qArgs, hformat, hargs, fieldText]

theorem fieldText_cons {s s' f : String} (h : s'.toList = s.toList ++ '@' :: f.toList) (fields : List String) :
    fieldText s' fields = fieldText s (f :: fields) := by
  rw [fieldText, fieldText, List.flatMap_cons, h, List.append_assoc]

theorem text_motor_eq (p : Nat) (it : Item) :
    (Msg.motor p it).text = fieldText "[KJD_STM]MOTOR" [toString it.productId] := by
  have hformat : "[KJD_STM]MOTOR@%1".toList = "[KJD_STM]MOTOR".toList ++ Marker.placesFrom 1 1 := by decide +kernel
  refine qArgs_eq (by decide +kernel) hformat (Nat.le_add_left 1 8) (List.forall_mem_singleton.2 fun m hm => ?_)
  rw [markers_toString] at hm
  cases hm

theorem verbatim_of_plain {breed : String} (h : '%' ∉ breed.toList) : Verbatim breed := by
  intro n hn
  have hnone := Marker.markers_plain (v := []) h
  rw [List.append_nil] at hnone
  rw [hnone] at hn
  cases hn

/-- **`QString::arg` writes the record as it should be** when the breed has no low place marker. -/
theorem text_db_eq (p : Nat) {breed : String} {flags : List Nat} (hlen : flags.length = 6) (h : Verbatim breed) :
    (Msg.db p breed flags).text = dbText breed flags := by
  have hsix : (flags.map toString).length = 6 := by rw [List.length_map, hlen]
  have hflags (k : Nat) : ∀ a ∈ flags.map toString, ∀ m ∈ Marker.markers a.toList, k ≤ m := by
    rw [List.forall_mem_map]
    intro f _ m hm
    rw [markers_toString] at hm
    cases hm
  by_cases hb : breed = ""
  · have hname : dbBreed breed = "UNKNOWN" := if_pos hb
    calc (Msg.db p breed flags).text
        = qArgs "[KJD_SQL]DB@UNKNOWN@%1@%2@%3@%4@%5@%6" (flags.map toString) := if_neg (not_not.2 hb)
      _ = fieldText "[KJD_SQL]DB@UNKNOWN" (flags.map toString) :=
        qArgs_eq (by decide +kernel) (by rw [hsix]; decide +kernel) (by rw [hsix]; decide) (hflags _)
      _ = fieldText "[KJD_SQL]DB" ("UNKNOWN" :: flags.map toString) := fieldText_cons (by decide +kernel) _
      _ = dbText breed flags := by rw [dbText, hname]
  · have hname : dbBreed breed = breed := if_neg hb
    have hseven : (breed :: flags.map toString).length = 7 := congrArg (· + 1) hsix
    calc (Msg.db p breed flags).text
        = qArgs "[KJD_SQL]DB@%1@%2@%3@%4@%5@%6@%7" (breed :: flags.map toString) := if_pos hb
      _ = fieldText "[KJD_SQL]DB" (breed :: flags.map toString) :=
        qArgs_eq (by decide +kernel) (by rw [hseven]; decide +kernel) (by rw [hseven]; decide)
          (List.forall_mem_cons.2 ⟨by rw [hseven]; exact h, hflags _⟩)
      _ = dbText breed flags := by rw [dbText, hname]

/-! ## The flags -/

/-- The fold sets the flags of the products 1 to 6 it meets. -/
theorem itemFlags_getElem? (ids : List Nat) : ∀ (flags : List Nat) (k : Nat), flags.length = 6 →
    (ids.foldl (fun flags id => if 1 ≤ id ∧ id ≤ 6 then flags.set (id - 1) 1 else flags) flags)[k]? =
      if k + 1 ∈ ids ∧ k < 6 then some 1 else flags[k]? := by
  induction ids with
  | nil => simp
  | cons id ids ih =>
    intro flags k hl
    rw [List.foldl_cons, ih _ _ (by split <;> simp [hl])]
    grind

theorem itemFlags_eq (ids : List Nat) : itemFlags ids = describe ids := by
  refine List.ext_getElem? fun k => ?_
  rw [itemFlags, itemFlags_getElem? ids _ _ (List.length_replicate ..), describe]
  grind

/-! ## What a slot sends -/

namespace Panel

variable {s t : Panel} {p q v : Nat} {it : Item} {todo : List Item} {fs : List Frame}

@[simp] theorem vendNext_selectedProducts : (s.vendNext p v fs todo).selectedProducts = s.selectedProducts := by
  cases todo <;> rfl

@[simp] theorem vendNext_due : (s.vendNext p v fs todo).due = s.due := by cases todo <;> rfl

@[simp] theorem vended_vendNext_cons : (s.vendNext p v fs (it :: todo)).vended = s.vended ++ [it.press] := by
  simp [vended, vendNext, Msg.vends]

@[simp] theorem dispensed_vendNext_cons : (s.vendNext p v fs (it :: todo)).dispensed q =
    s.dispensed q ++ if p = q then [it.productId] else [] := by
  by_cases h : p = q <;> simp [dispensed, vendNext, Msg.dispenses, h]

@[simp] theorem records_vendNext_cons : (s.vendNext p v fs (it :: todo)).records q = s.records q := by
  simp [records, vendNext, Msg.isRecord]

@[simp] theorem vended_vendNext_nil : (s.vendNext p v fs []).vended = s.vended := by
  simp [vended, vendNext, List.filterMap_cons, Msg.vends]

@[simp] theorem dispensed_vendNext_nil : (s.vendNext p v fs []).dispensed q = s.dispensed q := by
  simp [dispensed, vendNext, List.filterMap_cons, Msg.dispenses]

@[simp] theorem records_vendNext_nil : (s.vendNext p v fs []).records q =
    s.records q ++ if p = q then [.db p s.breed (describe (s.selectedProducts.map (·.productId)))] else [] := by
  by_cases h : p = q <;> simp [records, vendNext, Msg.isRecord, h, itemFlags_eq]

/-- A message of one payment changes nothing for the others. -/
theorem recorded_vendNext (h : q ≠ p) : (s.vendNext p v fs todo).Recorded q ↔ s.Recorded q := by
  cases todo <;> simp [Recorded, h.symm]

end Panel

/-! ## The invariant -/

open Panel

/-- What holds whatever slots are open: presses and payments are numbered in order, and no press is due twice. -/
structure Core (s : Panel) : Prop where
  steady : s.fault = false
  nodup : (s.due ++ s.waiting).Nodup
  lt : ∀ k ∈ s.due ++ s.waiting, k < s.nextPress
  unsent : ∀ p ≥ s.nextPay, s.dispensed p = [] ∧ s.records p = []

/-- No payment is being handled: the cart is what waits, and what was due is vended. -/
structure Idle (s : Panel) : Prop where
  cart : s.selectedProducts.map (·.press) = s.waiting
  vended : s.vended = s.due
  past : ∀ q < s.nextPay, s.Recorded q

/-- Payment `p` has vended its cart up to `todo`. -/
structure Vending (s : Panel) (p : Nat) (todo : List Item) : Prop where
  last : s.nextPay = p + 1
  waiting : s.waiting = []
  due : s.due = s.vended ++ todo.map (·.press)
  cart : s.selectedProducts.map (·.productId) = s.dispensed p ++ todo.map (·.productId)
  some : s.selectedProducts ≠ []
  records : s.records p = []
  past : ∀ q < p, s.Recorded q

/-- A payment has sent its record. -/
structure Recording (s : Panel) : Prop where
  waiting : s.waiting = []
  vended : s.vended = s.due
  past : ∀ q < s.nextPay, s.Recorded q

/-- The stages of a payment, with the slots that are open. -/
inductive Stage (s : Panel) : Prop
  | idle (hf : s.frames = []) (h : Idle s)
  | vending (p : Nat) (todo : List Item) (hf : s.frames = [.vend p todo s.version]) (h : Vending s p todo)
  | recording (p : Nat) (hf : s.frames = [.record p]) (h : Recording s)

structure Inv (s : Panel) : Prop extends Core s where
  stage : Stage s

theorem inv_start : Inv panelStart :=
  ⟨⟨rfl, .nil, by simp [panelStart], fun _ _ => ⟨rfl, rfl⟩⟩, .idle rfl ⟨rfl, rfl, by simp [panelStart]⟩⟩

/-! ## Steps -/

theorem describe_length (ids : List Nat) : (describe ids).length = 6 := by simp [describe]

/-- **The loop.** With the cart vended up to `todo` the loop goes on: its next message, or the record. -/
theorem vendNext_inv {s : Panel} {p : Nat} {todo : List Item} (hc : Core s) (hv : Vending s p todo)
    (hbreed : todo = [] → Verbatim s.breed) : Inv (s.vendNext p s.version [] todo) := by
  obtain ⟨hlast, hwait, hdue, hcart, hsome, hrec, hpast⟩ := hv
  have hpast' : ∀ q < p, (s.vendNext p s.version [] todo).Recorded q := fun q hq =>
    (recorded_vendNext (Nat.ne_of_lt hq)).2 (hpast q hq)
  cases todo with
  | cons it todo =>
    refine ⟨⟨hc.steady, hc.nodup, hc.lt, fun q hq => ?_⟩,
      .vending p todo rfl ⟨hlast, hwait, ?_, ?_, hsome, ?_, hpast'⟩⟩
    · have hne : p ≠ q := by have : s.nextPay ≤ q := hq; omega
      simpa [hne] using hc.unsent q hq
    · simpa using hdue
    · simpa using hcart
    · simpa using hrec
  | nil =>
    refine ⟨⟨hc.steady, hc.nodup, hc.lt, fun q hq => ?_⟩, .recording p rfl ⟨hwait, ?_, fun q hq => ?_⟩⟩
    · have hne : p ≠ q := by have : s.nextPay ≤ q := hq; omega
      simpa [hne] using hc.unsent q hq
    · simpa using hdue.symm
    · have hq' : q < p + 1 := hlast ▸ hq
      obtain hq' | rfl := Nat.lt_succ_iff_lt_or_eq.1 hq'
      · exact hpast' q hq'
      · simp only [List.map_nil, List.append_nil] at hcart
        exact ⟨s.breed, by simp [hrec, hcart], text_db_eq q (describe_length _) (hbreed rfl)⟩

theorem idle_of_inv {s : Panel} (hs : Inv s) (hf : s.frames = []) : Idle s := by
  cases hs.stage with
  | idle _ h => exact h
  | vending _ _ hf' _ => simp [hf] at hf'
  | recording _ hf' _ => simp [hf] at hf'

theorem product_inv {s : Panel} {button : Fin 9} (hs : Inv s) (hf : s.frames = []) :
    Inv (s.onProductButtonClicked button) := by
  obtain ⟨hcart, hvended, hpast⟩ := idle_of_inv hs hf
  obtain ⟨⟨hsteady, hnodup, hlt, hunsent⟩, -⟩ := hs
  have hfresh : s.nextPress ∉ s.due ++ s.waiting := fun h => Nat.lt_irrefl _ (hlt _ h)
  refine ⟨⟨hsteady, ?_, fun k hk => ?_, hunsent⟩, .idle hf ⟨?_, hvended, hpast⟩⟩
  · have h := hnodup.concat hfresh
    simpa [onProductButtonClicked, List.append_assoc] using h
  · have hk' : k ∈ (s.due ++ s.waiting) ++ [s.nextPress] := by
      simpa [onProductButtonClicked, or_assoc] using hk
    obtain hk' | rfl := (List.mem_append.1 hk').imp_right List.mem_singleton.1
    · exact Nat.lt_succ_of_lt (hlt k hk')
    · exact Nat.lt_succ_self _
  · simp [onProductButtonClicked, hcart]

theorem clr_inv {s : Panel} (hs : Inv s) (hf : s.frames.any Frame.isVend = false) : Inv s.onPbCLRClicked := by
  obtain ⟨⟨hsteady, hnodup, hlt, hunsent⟩, hstage⟩ := hs
  refine ⟨⟨hsteady, ?_, fun k hk => hlt k ?_, hunsent⟩, ?_⟩
  · simpa [onPbCLRClicked, resetSelection] using hnodup.of_append_left
  · exact List.mem_append_left _ (by simpa [onPbCLRClicked, resetSelection] using hk)
  · cases hstage with
    | idle hfr h => exact .idle hfr ⟨rfl, h.vended, h.past⟩
    | vending _ _ hfr _ => simp [hfr, Frame.isVend] at hf
    | recording p hfr h => exact .recording p hfr ⟨rfl, h.vended, h.past⟩

/-- On an empty cart Pay sends nothing. -/
theorem pay_empty_inv {s : Panel} (hs : Inv s) (he : s.selectedProducts = []) : Inv s.onPbPaymentClicked := by
  obtain ⟨⟨hsteady, hnodup, hlt, hunsent⟩, hstage⟩ := hs
  have hw : s.waiting = [] := by
    cases hstage with
    | idle _ h => simpa [he] using h.cart.symm
    | vending _ _ _ h => exact absurd he h.some
    | recording _ _ h => exact h.waiting
  rw [hw, List.append_nil] at hnodup hlt
  simp only [onPbPaymentClicked, he, ↓reduceIte, hw, List.append_nil]
  refine ⟨⟨hsteady, ?_, ?_, hunsent⟩, ?_⟩
  · simpa [paid, resetSelection] using hnodup
  · simpa [paid, resetSelection] using hlt
  · cases hstage with
    | idle hfr h => exact .idle hfr ⟨rfl, h.vended, h.past⟩
    | vending _ _ _ h => exact absurd he h.some
    | recording p hfr h => exact .recording p hfr ⟨rfl, h.vended, h.past⟩

/-- With no slot open Pay starts on the cart, and all that waits is due. -/
theorem pay_inv {s : Panel} (hs : Inv s) (hf : s.frames = []) (hne : s.selectedProducts ≠ []) :
    Inv s.onPbPaymentClicked := by
  obtain ⟨hcart, hvended, hpast⟩ := idle_of_inv hs hf
  obtain ⟨⟨hsteady, hnodup, hlt, hunsent⟩, -⟩ := hs
  obtain ⟨hdispensed, hrecords⟩ := hunsent s.nextPay (Nat.le_refl _)
  simp only [onPbPaymentClicked, hne, ↓reduceIte, hf]
  refine vendNext_inv ⟨hsteady, by simpa using hnodup, by simpa using hlt, fun p hp => ?_⟩
    ⟨rfl, rfl, ?_, ?_, hne, hrecords, hpast⟩ fun h => absurd h hne
  · exact hunsent p (Nat.le_of_succ_le hp)
  · exact congrArg₂ _ hvended.symm hcart.symm
  · exact (congrArg (· ++ _) hdispensed).symm

theorem breed_inv {s : Panel} {b : String} (hs : Inv s) : Inv { s with breed := b } := by
  obtain ⟨⟨hsteady, hnodup, hlt, hunsent⟩, hstage⟩ := hs
  refine ⟨⟨hsteady, hnodup, hlt, hunsent⟩, ?_⟩
  cases hstage with
  | idle hf h => exact .idle hf ⟨h.cart, h.vended, h.past⟩
  | vending p todo hf h => exact .vending p todo hf ⟨h.last, h.waiting, h.due, h.cart, h.some, h.records, h.past⟩
  | recording p hf h => exact .recording p hf ⟨h.waiting, h.vended, h.past⟩

theorem ret_inv {s t : Panel} (hs : Inv s) (hg : PayGuard s .ret) (hst : step s .ret = some t) : Inv t := by
  simp only [step, hs.steady, Bool.false_eq_true, ↓reduceIte] at hst
  cases hs.stage with
  | idle hf _ => simp [hf] at hst
  | vending p todo hf h =>
    -- nothing has changed the list since the loop was left
    simp only [hf, ne_eq, not_true_eq_false, ↓reduceIte, Option.some.injEq] at hst
    exact hst ▸ vendNext_inv hs.toCore h fun htodo => hg (by rw [atRecord, hf, htodo])
  | recording p hf h =>
    simp only [hf, Option.some.injEq] at hst
    subst hst
    exact ⟨⟨hs.steady, hs.nodup, hs.lt, hs.unsent⟩, .idle rfl ⟨h.waiting.symm, h.vended, h.past⟩⟩

/-- **Every guarded step keeps the invariant.** -/
theorem step_inv {s t : Panel} {a : Act} (hs : Inv s) (hg : PayGuard s a) (hst : step s a = some t) : Inv t := by
  have hf : ¬ s.fault = true := Bool.eq_false_iff.1 hs.steady
  cases a with
  | product button =>
    rw [step, if_neg hf, Option.some.injEq] at hst
    exact hst ▸ product_inv hs hg
  | clr =>
    rw [step, if_neg hf, Option.some.injEq] at hst
    exact hst ▸ clr_inv hs hg
  | pay =>
    rw [step, if_neg hf, Option.some.injEq] at hst
    subst hst
    by_cases he : s.selectedProducts = []
    · exact pay_empty_inv hs he
    · exact pay_inv hs (hg.resolve_right he) he
  | breed b =>
    rw [step, if_neg hf, Option.some.injEq] at hst
    exact hst ▸ breed_inv hs
  | ret => exact ret_inv hs hg hst

/-! ## The property over runs -/

theorem paid_of_inv {s : Panel} (hs : Inv s) : Paid s := by
  have hnodup := hs.nodup.of_append_left
  have hafter : ∀ p ≥ s.nextPay, (s.records p).length ≤ 1 := fun p hp => by
    rw [(hs.unsent p hp).2]; exact Nat.zero_le _
  have hpaid : ∀ {p}, s.Recorded p → (s.records p).length ≤ 1 := by
    rintro p ⟨breed, h, -⟩
    exact Nat.le_of_eq (congrArg List.length h)
  cases hs.stage with
  | idle hf h =>
    refine ⟨fun k => ?_, fun _ k hk => ?_, fun p => ?_, fun _ => h.past, hs.steady⟩
    · exact h.vended ▸ List.nodup_iff_count_le_one.1 hnodup k
    · exact h.vended ▸ List.count_eq_one_of_mem hnodup hk
    · exact (Nat.lt_or_ge p s.nextPay).elim (fun hp => hpaid (h.past p hp)) (hafter p)
  | vending p todo hf h =>
    refine ⟨fun k => ?_, fun hf' => by simp [hf] at hf', fun q => ?_, fun hf' => by simp [hf] at hf', hs.steady⟩
    · rw [h.due] at hnodup
      exact List.nodup_iff_count_le_one.1 hnodup.of_append_left k
    · obtain hq | rfl | hq := Nat.lt_trichotomy q p
      · exact hpaid (h.past q hq)
      · simp [h.records]
      · exact hafter q (h.last ▸ hq)
  | recording p hf h =>
    refine ⟨fun k => ?_, fun hf' => by simp [hf] at hf', fun q => ?_, fun hf' => by simp [hf] at hf', hs.steady⟩
    · exact h.vended ▸ List.nodup_iff_count_le_one.1 hnodup k
    · exact (Nat.lt_or_ge q s.nextPay).elim (fun hq => hpaid (h.past q hq)) (hafter q)

/-- **Payment over runs.** In every run with clicks only where the guard admits them, every state reached is `Paid`. -/
theorem paid_of_guard {s : Panel} (h : Reach step PayGuard panelStart s) : Paid s :=
  paid_of_inv (h.inv inv_start fun _ _ _ => step_inv)

/-- Products 1 and 1 and 2, Pay up to its end, and CLR after the next press. -/
theorem paid_three_items : ∃ s, exec (guarded step PayGuard) panelStart
    [.product 0, .product 0, .product 1, .breed "POM",
      .pay, .ret, .ret, .ret, .ret, .product 2, .clr, .pay] = some s ∧
    s.vended = [0, 1, 2] ∧ (s.records 0).map Msg.text = ["[KJD_SQL]DB@POM@1@1@0@0@0@0"] ∧ Paid s := by
  have hrun : (exec (guarded step PayGuard) panelStart [.product 0, .product 0, .product 1, .breed "POM",
      .pay, .ret, .ret, .ret, .ret, .product 2, .clr, .pay]).any (fun s =>
        s.vended = [0, 1, 2] ∧ (s.records 0).map Msg.text = ["[KJD_SQL]DB@POM@1@1@0@0@0@0"]) = true := by decide +kernel
  obtain ⟨s, hs, hp⟩ := (Option.any_eq_true ..).1 hrun
  obtain ⟨hvended, hrecords⟩ := of_decide_eq_true hp
  exact ⟨s, hs, hvended, hrecords, paid_of_guard (reach_of_guarded hs)⟩

/-- A Pay delivered inside the first MOTOR message of a Pay vends the press a second time. -/
theorem double_vend : ¬ ∀ s, Reach step free panelStart s → Paid s := by
  intro h
  have hrun : (exec step panelStart [.product 0, .pay, .pay]).any (fun s => s.vended = [0, 0]) = true := by decide
  obtain ⟨s, hs, hp⟩ := (Option.any_eq_true ..).1 hrun
  have honce := (h s (reach_of_exec hs)).once 0
  rw [of_decide_eq_true hp] at honce
  exact absurd honce (by decide)

/-! ## A payment that nothing disturbs -/

/-- The messages of a payment: one for every item of the cart, and the record. An empty cart is not paid. -/
def Panel.bill (s : Panel) : List Msg :=
  if s.selectedProducts = [] then []
  else s.selectedProducts.map (.motor s.nextPay) ++
    [.db s.nextPay s.breed (describe (s.selectedProducts.map (·.productId)))]

/-- The click and the returns of a payment on a cart of `n` items. -/
def payActs : Nat → List Act
  | 0 => [.pay]
  | n + 1 => .pay :: List.replicate (n + 2) .ret

/-- The loop, left with `todo` still to visit, sends what is missing and returns. -/
theorem vend_rets {p : Nat} {todo : List Item} : ∀ {s : Panel}, s.fault = false →
    s.frames = [.vend p todo s.version] → ∃ t, exec step s (List.replicate (todo.length + 2) .ret) = some t ∧
      t.frames = [] ∧ t.selectedProducts = [] ∧ t.out = s.out ++ (todo.map (.motor p) ++
        [.db p s.breed (describe (s.selectedProducts.map (·.productId)))]) := by
  induction todo with
  | nil =>
    intro s hs hf
    have h1 : step s .ret = some (s.vendNext p s.version [] []) := by simp [step, hs, hf]
    have h2 : step (s.vendNext p s.version [] []) .ret =
        some { (s.vendNext p s.version [] []).paid with frames := [] } := by
      simp [step, vendNext, hs]
    refine ⟨{ (s.vendNext p s.version [] []).paid with frames := [] }, ?_, rfl, rfl, ?_⟩
    · simp [exec, List.replicate_succ, h1, h2]
    · simp [paid, resetSelection, vendNext, itemFlags_eq]
  | cons it todo ih =>
    intro s hs hf
    have h1 : step s .ret = some (s.vendNext p s.version [] (it :: todo)) := by simp [step, hs, hf]
    obtain ⟨t, ht, hfr, hsel, hout⟩ := ih (s := s.vendNext p s.version [] (it :: todo)) hs rfl
    refine ⟨t, ?_, hfr, hsel, ?_⟩
    · rw [List.length_cons, show todo.length + 1 + 2 = (todo.length + 2) + 1 by omega, List.replicate_succ, exec, h1]
      exact ht
    · rw [hout]
      simp [vendNext]

/-- **A payment that nothing disturbs sends its bill**: every item of the cart once, in order, then the record. -/
theorem payment_out {s : Panel} (hs : s.fault = false) (hf : s.frames = []) :
    ∃ t, exec step s (payActs s.selectedProducts.length) = some t ∧ t.frames = [] ∧ t.selectedProducts = [] ∧
      t.out = s.out ++ s.bill := by
  have hpay : step s .pay = some s.onPbPaymentClicked := by simp [step, hs]
  cases hcart : s.selectedProducts with
  | nil =>
    refine ⟨s.onPbPaymentClicked, ?_, ?_, ?_, ?_⟩
    · rw [List.length_nil, payActs, exec, hpay]
      rfl
    · simp [onPbPaymentClicked, hcart, paid, resetSelection, hf]
    · simp [onPbPaymentClicked, hcart, paid, resetSelection]
    · simp [onPbPaymentClicked, hcart, paid, resetSelection, bill]
  | cons it todo =>
    have hframes : s.onPbPaymentClicked.frames = [.vend s.nextPay todo s.onPbPaymentClicked.version] := by
      simp [onPbPaymentClicked, hcart, vendNext, hf]
    obtain ⟨t, ht, hfr, hsel, hout⟩ := vend_rets (by simp [onPbPaymentClicked, hcart, vendNext, hs]) hframes
    refine ⟨t, ?_, hfr, hsel, ?_⟩
    · rw [List.length_cons, payActs, exec, hpay]
      exact ht
    · rw [hout]
      simp [onPbPaymentClicked, hcart, vendNext, bill]

/-- What holds in every run: the buttons offer the products 1 to 9, and a loop that has gone on over a changed list does
not return. -/
structure Sound (s : Panel) : Prop where
  range : ∀ it ∈ s.selectedProducts, 1 ≤ it.productId ∧ it.productId ≤ 9
  stuck : s.fault = true → s.frames ≠ []

theorem sound_step {s t : Panel} {a : Act} (hs : Sound s) (hst : step s a = some t) : Sound t := by
  have hf : s.fault = false := by
    cases h : s.fault with
    | false => rfl
    | true => cases a <;> simp [step, h] at hst
  have hstuck {u : Panel} (hu : u.fault = s.fault) : u.fault = true → u.frames ≠ [] := fun h => by
    rw [hu, hf] at h
    cases h
  cases a with
  | product button =>
    simp only [step, hf, Bool.false_eq_true, if_false, Option.some.injEq] at hst
    subst hst
    refine ⟨fun it hit => ?_, hstuck rfl⟩
    obtain hit | rfl := (List.mem_append.1 hit).imp_right List.mem_singleton.1
    · exact hs.range it hit
    · exact ⟨Nat.le_add_left .., button.isLt⟩
  | clr =>
    simp only [step, hf, Bool.false_eq_true, if_false, Option.some.injEq] at hst
    subst hst
    exact ⟨by simp [onPbCLRClicked, resetSelection], hstuck rfl⟩
  | pay =>
    simp only [step, hf, Bool.false_eq_true, if_false, Option.some.injEq] at hst
    subst hst
    rw [onPbPaymentClicked]
    split
    · exact ⟨by simp [paid, resetSelection], hstuck rfl⟩
    · exact ⟨by simpa using hs.range, hstuck (by cases h : s.selectedProducts <;> simp [vendNext])⟩
  | breed b =>
    simp only [step, hf, Bool.false_eq_true, if_false, Option.some.injEq] at hst
    subst hst
    exact ⟨hs.range, nofun⟩
  | ret =>
    simp only [step, hf, Bool.false_eq_true, if_false] at hst
    split at hst
    · cases hst
    · rename_i pay todo version frames hfr
      split at hst <;> cases hst
      · exact ⟨hs.range, fun _ => by simp [hfr]⟩
      · exact ⟨by simpa using hs.range, hstuck (by cases todo <;> rfl)⟩
    · cases hst
      exact ⟨by simp [paid, resetSelection], hstuck rfl⟩

theorem sound_of_reach {s : Panel} (h : Reach step free panelStart s) : Sound s :=
  h.inv ⟨by simp [panelStart], by simp [panelStart]⟩ fun _ _ _ hs _ hst => sound_step hs hst

end PetVending.Kiosk
