import PetVending.Kiosk.Socket

/-!
# The keyboard on the screen

`Keyboard` has the digits, the letters and Space, one Shift for the next character, and a Char button that puts symbols
on the keys; `&` and `\` are special, and four of the letters have no symbol. Its line edit cuts off what does not fit
and sends the rest back to `outputText`, but only when the text has changed: once the line is full, `outputText` runs
ahead of it.

- `Keyboard`, `step`: the window and its slots; `stroke`: what a key adds;
- `run_proper`: whatever is pressed, the line has printable ASCII characters only, and shows the front of `outputText`;
- `flush`: a pending Shift goes with a key that has no symbol, and nothing is typed;
- `type_text`: so a printable text can be typed behind what is there;
- **`enter_iff`**: whatever has been pressed so far, what Enter can still hand over are exactly the printable texts that
  fit.
-/

namespace PetVending.Kiosk.Keys

open PetVending.Kiosk (QString ascii)

/-! ## The window -/

/-- The buttons connected to `keyboardHandler`: `Button0` to `Button9`, `Buttona` to `Buttonz`, and `space`. -/
inductive Button
  | digit (k : Fin 10)
  | letter (k : Fin 26)
  | space

/-- The texts of the buttons from `Button0` on, when `char_2` is checked. -/
def digitSymbols : List String := ["`", "~", "!", "@", "#", "$", "%", "^", "&&", "*"]

/-- The texts of the buttons from `Buttona` on, when `char_2` is checked. -/
def letterSymbols : List String :=
  ["\\", "", ",", ";", "-", ":", "'", "\"", "]", "/", "?", "", "", "", "\x7b", "\x7d", "(", "_", "|", "=", "[", ".",
    ")", ">", "+", "<"]

/-- `button->text()` -/
def text (char2 : Bool) : Button → QString
  | .digit k => if char2 then ascii (digitSymbols.getD k "") else [48 + k.val.toUInt16]
  | .letter k => if char2 then ascii (letterSymbols.getD k "") else [97 + k.val.toUInt16]
  | .space => ascii "Space"

/-- `maxLength` of a `QLineEdit` -/
def maxLength : Nat := 32767

/-- `QString::toUpper` on ASCII characters -/
def toUpper (q : QString) : QString := q.map fun u => if 97 ≤ u ∧ u ≤ 122 then u - 32 else u

/-- The window, and the text of the line edit it was opened for. -/
structure Keyboard where
  outputText : QString
  lineEdit : QString
  shift : Bool
  char2 : Bool
  outputLineEdit : QString

def keyboardStart (line : QString) : Keyboard := ⟨[], [], false, false, line⟩

/-- Clicks, and `setLineEdit` for another line edit with a text of its own. -/
inductive Act
  | key (b : Button)
  | shift
  | char2
  | clear
  | back
  | enter
  | setLineEdit (line : QString)

/-- An assignment to `outputText` with the `ui->lineEdit->setText(outputText)` behind it: what does not fit is cut off,
and a changed text calls `on_lineEdit_textChanged`. -/
def Keyboard.setText (s : Keyboard) (outputText : QString) : Keyboard :=
  if outputText.take maxLength = s.lineEdit then { s with outputText }
  else { s with outputText := outputText.take maxLength, lineEdit := outputText.take maxLength }

def Keyboard.keyboardHandler (s : Keyboard) (b : Button) : Keyboard :=
  if text s.char2 b = ascii "Space" then s.setText (s.outputText ++ ascii " ")
  else if text s.char2 b = ascii "&&" then s.setText (s.outputText ++ ascii "&")
  else if text s.char2 b = ascii "\\" then s.setText (s.outputText ++ text s.char2 (.letter 0))
  else if s.shift then { s with shift := false }.setText (s.outputText ++ toUpper (text s.char2 b))
  else s.setText (s.outputText ++ text s.char2 b)

def step (s : Keyboard) : Act → Keyboard
  | .key b => s.keyboardHandler b
  | .shift => { s with shift := true }
  | .char2 => { s with char2 := !s.char2 }
  | .clear => s.setText []
  | .back => s.setText s.outputText.dropLast
  | .enter => { s with outputLineEdit := s.outputText.take maxLength }.setText []
  | .setLineEdit line => { s with outputLineEdit := line }

def run (s : Keyboard) (acts : List Act) : Keyboard := acts.foldl step s

theorem run_append (s : Keyboard) (as bs : List Act) : run s (as ++ bs) = run (run s as) bs := List.foldl_append

/-- What a key adds to the text, and Shift behind it. -/
def stroke (char2 shift : Bool) (b : Button) : QString × Bool :=
  if text char2 b = ascii "Space" then (ascii " ", shift)
  else if text char2 b = ascii "&&" then (ascii "&", shift)
  else if text char2 b = ascii "\\" then (text char2 (.letter 0), shift)
  else if shift then (toUpper (text char2 b), false)
  else (text char2 b, false)

theorem keyboardHandler_eq (s : Keyboard) (b : Button) : s.keyboardHandler b =
    { s with shift := (stroke s.char2 s.shift b).2 }.setText (s.outputText ++ (stroke s.char2 s.shift b).1) := by
  obtain ⟨out, line, shift, char2, target⟩ := s
  rw [Keyboard.keyboardHandler, stroke]
  split
  · rfl
  split
  · rfl
  split
  · rfl
  cases shift <;> rfl

/-! ## What the line shows -/

/-- Printable ASCII -/
def Printable (u : UInt16) : Prop := 32 ≤ u ∧ u ≤ 126

instance : DecidablePred Printable := fun u => inferInstanceAs (Decidable (32 ≤ u ∧ u ≤ 126))

/-- A text of printable characters that fits into a line edit. -/
structure Fits (q : QString) : Prop where
  printable : ∀ u ∈ q, Printable u
  length : q.length ≤ maxLength

theorem stroke_table : ∀ char2 shift, (∀ k, (stroke char2 shift (.digit k)).1.Forall Printable) ∧
    (∀ k, (stroke char2 shift (.letter k)).1.Forall Printable) ∧ (stroke char2 shift .space).1.Forall Printable := by
  decide +kernel

theorem stroke_printable (char2 shift : Bool) (b : Button) : ∀ u ∈ (stroke char2 shift b).1, Printable u := by
  obtain ⟨hdigit, hletter, hspace⟩ := stroke_table char2 shift
  refine List.forall_iff_forall_mem.1 (?_ : List.Forall Printable _)
  cases b with
  | digit k => exact hdigit k
  | letter k => exact hletter k
  | space => exact hspace

/-- `outputText` is printable, and the line edit shows its front. -/
structure Proper (s : Keyboard) : Prop where
  printable : ∀ u ∈ s.outputText, Printable u
  shown : s.lineEdit = s.outputText.take maxLength

theorem setText_proper (s : Keyboard) {q : QString} (h : ∀ u ∈ q, Printable u) : Proper (s.setText q) := by
  rw [Keyboard.setText]
  split
  case isTrue heq => exact ⟨h, heq.symm⟩
  case isFalse => exact ⟨fun u hu => h u (List.mem_of_mem_take hu), by rw [List.take_take, min_self]⟩

theorem step_proper {s : Keyboard} (h : Proper s) (a : Act) : Proper (step s a) := by
  cases a with
  | key b =>
    rw [step, keyboardHandler_eq]
    exact setText_proper _ (List.forall_mem_append.2 ⟨h.printable, stroke_printable _ _ b⟩)
  | shift => exact ⟨h.printable, h.shown⟩
  | char2 => exact ⟨h.printable, h.shown⟩
  | clear => exact setText_proper s (by nofun)
  | back => exact setText_proper s fun u hu => h.printable u (List.dropLast_subset _ hu)
  | enter => exact setText_proper _ (by nofun)
  | setLineEdit line => exact ⟨h.printable, h.shown⟩

/-- **Whatever is pressed, the line shows the front of a printable text.** -/
theorem run_proper {s : Keyboard} (h : Proper s) (acts : List Act) : Proper (run s acts) := by
  induction acts generalizing s with
  | nil => exact h
  | cons a acts ih => exact ih (step_proper h a)

theorem keyboardStart_proper (line : QString) : Proper (keyboardStart line) := ⟨by nofun, rfl⟩

theorem enter_outputLineEdit (s : Keyboard) : (step s .enter).outputLineEdit = s.outputText.take maxLength := by
  rw [step, Keyboard.setText]
  split <;> rfl

/-- What Enter hands over fits. -/
theorem enter_fits {s : Keyboard} (h : Proper s) : Fits (step s .enter).outputLineEdit := by
  rw [enter_outputLineEdit]
  exact ⟨fun u hu => h.printable u (List.mem_of_mem_take hu), List.length_take_le _ _⟩

/-! ## What can be typed -/

/-- `outputText` and the line edit have the same text. -/
def Showing (s : Keyboard) (q : QString) : Prop := s.outputText = q ∧ s.lineEdit = q

theorem setText_showing (s : Keyboard) {q : QString} (h : q.length ≤ maxLength) : Showing (s.setText q) q := by
  rw [Keyboard.setText, List.take_of_length_le h]
  split
  case isTrue heq => exact ⟨rfl, heq.symm⟩
  case isFalse => exact ⟨rfl, rfl⟩

@[simp] theorem setText_shift (s : Keyboard) (q : QString) : (s.setText q).shift = s.shift := by
  rw [Keyboard.setText]
  split <;> rfl

/-- A key with the keyboard in a given mode. -/
theorem press {s : Keyboard} {q add : QString} {char2 behind : Bool} {b : Button} (hs : Showing s q)
    (hstroke : stroke char2 s.shift b = (add, behind)) (hlen : (q ++ add).length ≤ maxLength) :
    ∃ acts, Showing (run s acts) (q ++ add) ∧ (run s acts).shift = behind := by
  have hmode : ∃ acts, run s acts = { s with char2 } := by
    by_cases hc : s.char2 = char2
    · exact ⟨[], by rw [← hc]; rfl⟩
    · refine ⟨[.char2], ?_⟩
      have hflip : char2 = !s.char2 := Bool.eq_not_of_ne (Ne.symm hc)
      rw [hflip]
      rfl
  obtain ⟨acts, hacts⟩ := hmode
  refine ⟨acts ++ [.key b], ?_⟩
  have hrun : run s (acts ++ [.key b]) = { s with char2, shift := behind }.setText (q ++ add) := by
    rw [run_append, hacts]
    show Keyboard.keyboardHandler { s with char2 } b = _
    rw [keyboardHandler_eq, hs.1, hstroke]
  rw [hrun]
  exact ⟨setText_showing _ hlen, setText_shift _ _⟩

/-- **A pending Shift can be dropped**: `Buttonl` has no symbol. -/
theorem flush {s : Keyboard} {q : QString} (hs : Showing s q) (hlen : q.length ≤ maxLength) :
    ∃ acts, Showing (run s acts) q ∧ (run s acts).shift = false := by
  have hempty : ∀ shift, stroke true shift (.letter 11) = ([], false) := by decide
  rw [← List.append_nil q] at hlen ⊢
  exact press hs (hempty s.shift) hlen

/-- Every printable character is on some key, in one of the modes. -/
theorem keyed_table : ∀ k : Fin 95, ∃ char2 shift,
    (∃ d, stroke char2 shift (.digit d) = ([32 + k.val.toUInt16], false)) ∨
    (∃ l, stroke char2 shift (.letter l) = ([32 + k.val.toUInt16], false)) ∨
      stroke char2 shift .space = ([32 + k.val.toUInt16], false) := by
  decide +kernel

theorem keyed {u : UInt16} (h : Printable u) : ∃ char2 shift b, stroke char2 shift b = ([u], false) := by
  have hlow : 32 ≤ u.toNat := UInt16.le_iff_toNat_le.1 h.1
  have hhigh : u.toNat ≤ 126 := UInt16.le_iff_toNat_le.1 h.2
  have hk : u.toNat - 32 < 95 := by omega
  have hu : 32 + (u.toNat - 32).toUInt16 = u := by
    apply UInt16.toNat_inj.1
    rw [UInt16.toNat_add, UInt16.toNat_ofNat_of_lt' (by show u.toNat - 32 < 2 ^ 16; omega)]
    show (32 + (u.toNat - 32)) % 2 ^ 16 = u.toNat
    omega
  obtain ⟨char2, shift, hkey⟩ := keyed_table ⟨_, hk⟩
  rw [hu] at hkey
  obtain ⟨d, hd⟩ | ⟨l, hl⟩ | hspace := hkey
  · exact ⟨char2, shift, _, hd⟩
  · exact ⟨char2, shift, _, hl⟩
  · exact ⟨char2, shift, _, hspace⟩

theorem type_char {s : Keyboard} {q : QString} {u : UInt16} (hs : Showing s q) (hshift : s.shift = false)
    (hu : Printable u)
    (hlen : (q ++ [u]).length ≤ maxLength) : ∃ acts, Showing (run s acts) (q ++ [u]) ∧ (run s acts).shift = false := by
  obtain ⟨char2, shift, b, hstroke⟩ := keyed hu
  cases shift with
  | false =>
    rw [← hshift] at hstroke
    exact hshift ▸ press hs hstroke hlen
  | true =>
    obtain ⟨acts, hacts⟩ := press (s := { s with shift := true }) hs hstroke hlen
    exact ⟨.shift :: acts, hacts⟩

/-- **A text can be typed behind what is there.** -/
theorem type_text {q : QString} (hq : ∀ u ∈ q, Printable u) {s : Keyboard} {q₀ : QString} (hs : Showing s q₀)
    (hshift : s.shift = false) (hlen : (q₀ ++ q).length ≤ maxLength) : ∃ acts, Showing (run s acts) (q₀ ++ q) := by
  induction q generalizing s q₀ with
  | nil => exact ⟨[], by rw [List.append_nil]; exact hs⟩
  | cons u q ih =>
    obtain ⟨hu, hq⟩ := List.forall_mem_cons.1 hq
    rw [List.append_cons] at hlen ⊢
    obtain ⟨acts, hshow, hdown⟩ := type_char hs hshift hu (by rw [List.length_append] at hlen; omega)
    obtain ⟨more, hmore⟩ := ih hq hshow hdown hlen
    exact ⟨acts ++ more, by rw [run_append]; exact hmore⟩

/-- **What the keyboard is for**: whatever has been pressed before, the texts that Enter can still hand to the line edit
are exactly the texts of printable ASCII characters that fit into it, Shift and Char notwithstanding. -/
theorem enter_iff (line : QString) (before : List Act) (q : QString) :
    (∃ acts, (run (keyboardStart line) (before ++ acts ++ [.enter])).outputLineEdit = q) ↔ Fits q := by
  have hproper := run_proper (keyboardStart_proper line)
  constructor
  · rintro ⟨acts, rfl⟩
    rw [run_append]
    exact enter_fits (hproper _)
  · intro hq
    -- the text is cleared, a Shift that was pending goes, and then it is typed
    have hclear : Showing (step (run (keyboardStart line) before) .clear) [] := setText_showing _ (Nat.zero_le _)
    obtain ⟨drop, hdrop, hshift⟩ := flush hclear (Nat.zero_le _)
    obtain ⟨keys, hkeys⟩ := type_text hq.printable hdrop hshift hq.length
    refine ⟨.clear :: drop ++ keys, ?_⟩
    have hrun : run (keyboardStart line) (before ++ (.clear :: drop ++ keys)) =
        run (run (step (run (keyboardStart line) before) .clear) drop) keys := by
      rw [← run_append, run_append]
      rfl
    rw [run_append, hrun]
    apply (enter_outputLineEdit _).trans
    rw [hkeys.1, List.nil_append]
    exact List.take_of_length_le hq.length

end PetVending.Kiosk.Keys
