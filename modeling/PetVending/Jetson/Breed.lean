import PetVending.Lib.Strtok
import Mathlib.Data.Bool.AllAny
import Mathlib.Data.List.ReduceOption

/-!
# Forwarding breeds: `receive_breed` of the Jetson client

Each message of the classifier is read to the front of `breed_msg`, which is never cleared. A line feed takes the place
behind it, and `strlen` decides how much is written to the server.

- `receiveBreed`: the reads of one connection after the other, `breed_msg` surviving from read to read;
- `written_iff`: a message is written with one line feed iff a NUL stands behind the line feed;
- **`breeds_iff`**: all messages are written so iff none is shorter than one before it, and the initial `breed_msg` has
  a NUL two bytes behind the end of each.
-/

namespace PetVending.Jetson

open CStr

/-- `BUF_SIZE` -/
def bufSize : Nat := 100

/-- `breed_msg` -/
structure BreedMsg where
  buf : List Byte
  size : buf.length = bufSize

/-- A message of the classifier, as `read` returns it. -/
structure Breed where
  text : List Byte
  pos : 1 ≤ text.length
  fits : text.length ≤ bufSize - 1
  nul : ∀ c ∈ text, c ≠ 0

/-- `read(client_sock, breed_msg, sizeof(breed_msg) - 1)` and `breed_msg[str_len] = '\n'` -/
def BreedMsg.store (b : BreedMsg) (m : Breed) : BreedMsg where
  buf := m.text ++ 10 :: b.buf.drop (m.text.length + 1)
  size := by
    have hfits := m.fits
    rw [List.length_append, List.length_cons, List.length_drop, b.size]
    unfold bufSize at hfits ⊢
    omega

/-- `write(*sock, breed_msg, strlen(breed_msg))`; `none` if there is no NUL in `breed_msg`. -/
def BreedMsg.written (b : BreedMsg) : Option (List Byte) := if 0 ∈ b.buf then some (strAt b.buf 0) else none

/-- The loop of `receive_breed`: what it writes to the server. A read that gives nothing changes nothing. -/
def receiveBreed : BreedMsg → List (Option Breed) → Option (List (List Byte))
  | _, [] => some []
  | b, none :: rs => receiveBreed b rs
  | b, some m :: rs => do
    let text ← (b.store m).written
    let texts ← receiveBreed (b.store m) rs
    return text :: texts

variable {b : BreedMsg} {m m' : Breed}

/-- **What is written for a message**: with one line feed iff a NUL stands behind it. -/
theorem written_iff (b : BreedMsg) (m : Breed) :
    (b.store m).written = some (m.text ++ [10]) ↔ b.buf[m.text.length + 1]? = some 0 := by
  have hhead : b.buf[m.text.length + 1]? = (b.buf.drop (m.text.length + 1))[0]? := by
    rw [List.getElem?_drop, Nat.add_zero]
  have hword : ∀ c ∈ m.text ++ [10], (c != 0) = true :=
    List.forall_mem_append.2 ⟨fun c hc => bne_iff_ne.2 (m.nul c hc), List.forall_mem_singleton.2 rfl⟩
  have hstr (r : List Byte) : strAt (m.text ++ 10 :: r) 0 = m.text ++ [10] ++ r.takeWhile (· != 0) := by
    have hbuf : m.text ++ 10 :: r = m.text ++ [10] ++ r := by simp
    rw [strAt, List.drop_zero, hbuf, List.takeWhile_append_of_pos hword]
  have hmem (r : List Byte) : 0 ∈ m.text ++ 10 :: r ↔ 0 ∈ r := by
    rw [List.mem_append, List.mem_cons]
    constructor
    · rintro (h | h | h)
      · exact absurd rfl (m.nul 0 h)
      · cases h
      · exact h
    · exact fun h => .inr (.inr h)
  rw [hhead, BreedMsg.written, BreedMsg.store]
  simp only [hstr, hmem]
  cases b.buf.drop (m.text.length + 1) with
  | nil => simp
  | cons c r =>
    by_cases hc : c = 0
    · subst hc
      simp
    · simp [hc]

/-- What a message leaves in `breed_msg`: no NUL up to its line feed, and the old bytes behind it. -/
theorem store_getElem (b : BreedMsg) (m : Breed) (n : Nat) :
    (b.store m).buf[n + 1]? = some 0 ↔ m.text.length ≤ n ∧ b.buf[n + 1]? = some 0 := by
  rcases Nat.lt_trichotomy (n + 1) m.text.length with h | h | h
  · have hne : ¬ m.text.length ≤ n := by omega
    rw [BreedMsg.store, List.getElem?_append_left h, List.getElem?_eq_getElem h, Option.some.injEq]
    exact iff_of_false (m.nul _ (List.getElem_mem h)) fun h => hne h.1
  · have hne : ¬ m.text.length ≤ n := by omega
    rw [BreedMsg.store, h, List.getElem?_append_right le_rfl, Nat.sub_self]
    exact iff_of_false (by simp) fun h => hne h.1
  · have hle : m.text.length ≤ n := by omega
    obtain ⟨k, hk⟩ := Nat.exists_eq_add_of_lt h
    rw [BreedMsg.store, List.getElem?_append_right (by omega), hk]
    have hidx : m.text.length + k + 1 - m.text.length = k + 1 := by omega
    have hdrop : m.text.length + 1 + k = m.text.length + k + 1 := by omega
    rw [hidx, List.getElem?_cons_succ, List.getElem?_drop, hdrop]
    exact ⟨fun h => ⟨hle, h⟩, fun h => h.2⟩

/-- No message is shorter than one before it, and a NUL stands two bytes behind the end of each. -/
structure Fresh (b : BreedMsg) (ms : List Breed) : Prop where
  sorted : ms.Pairwise fun m m' => m.text.length ≤ m'.text.length
  nul : ∀ m ∈ ms, b.buf[m.text.length + 1]? = some 0

/-- The condition goes on behind a message. -/
theorem fresh_cons (b : BreedMsg) (m : Breed) (ms : List Breed) :
    Fresh b (m :: ms) ↔ b.buf[m.text.length + 1]? = some 0 ∧ Fresh (b.store m) ms := by
  constructor
  · rintro ⟨hs, hn⟩
    obtain ⟨hle, hs⟩ := List.pairwise_cons.1 hs
    obtain ⟨hm, hn⟩ := List.forall_mem_cons.1 hn
    exact ⟨hm, hs, fun m' hm' => (store_getElem b m _).2 ⟨hle m' hm', hn m' hm'⟩⟩
  · rintro ⟨hm, hs, hn⟩
    have hstored (m' : Breed) (hm' : m' ∈ ms) := (store_getElem b m _).1 (hn m' hm')
    exact ⟨List.pairwise_cons.2 ⟨fun m' hm' => (hstored m' hm').1, hs⟩,
      List.forall_mem_cons.2 ⟨hm, fun m' hm' => (hstored m' hm').2⟩⟩

/-- **Forwarding breeds.** Each message is written with one line feed, whatever came before, iff no message is shorter
than one before it, and the initial `breed_msg` has a NUL two bytes behind the end of each. -/
theorem breeds_iff (b : BreedMsg) (rs : List (Option Breed)) :
    receiveBreed b rs = some (rs.reduceOption.map fun m => m.text ++ [10]) ↔ Fresh b rs.reduceOption := by
  induction rs generalizing b with
  | nil => exact iff_of_true rfl ⟨List.Pairwise.nil, by simp⟩
  | cons r rs ih =>
    cases r with
    | none => exact ih b
    | some m =>
      rw [List.reduceOption_cons_of_some, fresh_cons, ← written_iff, ← ih (b.store m), List.map_cons, receiveBreed]
      constructor
      · intro h
        obtain ⟨text, htext, h⟩ := Option.bind_eq_some_iff.1 h
        obtain ⟨texts, htexts, h⟩ := Option.bind_eq_some_iff.1 h
        cases h
        exact ⟨htext, htexts⟩
      · rintro ⟨htext, htexts⟩
        rw [htext, htexts]
        rfl

/-- `breed_msg` full of zeros. -/
def zeros : BreedMsg := ⟨List.replicate bufSize 0, List.length_replicate⟩

/-- Two bytes, then one byte: one line feed too many. -/
theorem shorter_breed : ¬ ∀ (b : BreedMsg) (rs : List (Option Breed)),
    receiveBreed b rs = some (rs.reduceOption.map fun m => m.text ++ [10]) := by
  intro h
  have h₂ := h zeros [some ⟨bytes "AB", by decide, by decide, List.all_iff_forall_prop.1 (by decide)⟩,
    some ⟨bytes "A", by decide, by decide, List.all_iff_forall_prop.1 (by decide)⟩]
  revert h₂
  decide +kernel

end PetVending.Jetson
