import PetVending.Server.Relay

/-!
# What a connection remembers

`clnt_connection` clears `msg` before each read, but `pArray` only once. A read with fewer than two tokens is relayed
with entries that earlier reads have set: offsets of their tokens, in a buffer that holds the new bytes.

- `Leaves`: a history of reads, handled without a fault, and the `pArray` it leaves;
- `relays_complete`: from any `pArray`, reads with two to `arrCnt` tokens are relayed by their own first two tokens;
- `clntRead_stale`: a read with one token is relayed with whatever stands at the old offset;
- **`historyFree_iff`**: the relay of a read is the same after all histories iff it has two to `arrCnt` tokens.
-/

namespace PetVending.Server

open CStr

variable {signed : Bool} {ci : ClientInfo} {pArray pa : List (Option Nat)} {r : Read}

/-- `pArray` after the reads of a connection. -/
def afterReads (signed : Bool) (ci : ClientInfo) : List (Option Nat) → List Read → Except Fault (List (Option Nat))
  | pArray, [] => .ok pArray
  | pArray, r :: reads =>
    match clntRead signed ci pArray r.bytes with
    | .error f => .error f
    | .ok (_, pa) => afterReads signed ci pa reads

/-- The reads of a connection of `ci` so far were handled without a fault and left `pArray`. -/
def Leaves (signed : Bool) (ci : ClientInfo) (history : List Read) (pArray : List (Option Nat)) : Prop :=
  afterReads signed ci (List.replicate arrCnt none) history = .ok pArray

/-- After any two histories the read is relayed, with the same destination and the same text; no unset token is met. -/
def HistoryFree (signed : Bool) (ci : ClientInfo) (r : Read) : Prop :=
  ∀ h₁ h₂ pa₁ pa₂, Leaves signed ci h₁ pa₁ → Leaves signed ci h₂ pa₂ → ∃ m pa₁' pa₂',
    clntRead signed ci pa₁ r.bytes = .ok (m, pa₁') ∧ clntRead signed ci pa₂ r.bytes = .ok (m, pa₂')

/-- The read has a token for the destination and one for the text, and no more tokens than `pArray` has entries. -/
def Complete (r : Read) : Prop := 2 ≤ (lineTokens r.bytes).length ∧ (lineTokens r.bytes).length ≤ arrCnt

instance : DecidablePred Complete := fun r =>
  inferInstanceAs (Decidable (2 ≤ (lineTokens r.bytes).length ∧ (lineTokens r.bytes).length ≤ arrCnt))

/-- How a complete read is relayed. -/
def ownRelay (ci : ClientInfo) (r : Read) : List Byte × List Byte :=
  ((lineTokens r.bytes).getD 0 [], tagged ci.id ((lineTokens r.bytes).getD 1 []))

/-- A complete read is relayed by its own tokens, whatever `pArray` holds. -/
theorem clntRead_complete (h : Complete r) (signed : Bool) (ci : ClientInfo) (pArray : List (Option Nat)) :
    ∃ pa, clntRead signed ci pArray r.bytes =
      .ok (⟨charFd signed ci.fd, ci.id, (ownRelay ci r).1, (ownRelay ci r).2⟩, pa) := by
  obtain ⟨h2, hle⟩ := h
  match ht : lineTokens r.bytes, h2 with
  | t :: u :: l, _ =>
    obtain ⟨pa, hpa⟩ := clntRead_ok ht hle signed ci pArray
    refine ⟨pa, ?_⟩
    rw [hpa, ownRelay, ht]
    rfl

/-- Complete reads are relayed by their own tokens, whatever `pArray` holds before the first. -/
theorem relays_complete {reads : List Read} (h : ∀ r ∈ reads, Complete r) : ∀ pArray : List (Option Nat),
    relays signed ci pArray reads = .ok (reads.map (ownRelay ci)) := by
  induction reads with
  | nil => intro pArray; rfl
  | cons r reads ih =>
    intro pArray
    obtain ⟨pa, hpa⟩ := clntRead_complete (h r (by simp)) signed ci pArray
    rw [relays, hpa]
    simp only [ih (fun r hr => h r (by simp [hr])) pa, List.map_cons]

/-- What is not complete has no second token, or too many tokens. -/
theorem not_complete (h : ¬ Complete r) : (lineTokens r.bytes).length ≤ 1 ∨ arrCnt < (lineTokens r.bytes).length := by
  unfold Complete at h
  omega

/-- On a new connection a read that is not complete runs into a fault. -/
theorem clntRead_first (h : ¬ Complete r) (signed : Bool) (ci : ClientInfo) :
    ∃ f, clntRead signed ci (List.replicate arrCnt none) r.bytes = .error f := by
  rcases not_complete h with h1 | hgt
  · have hle : (lineTokens r.bytes).length ≤ arrCnt := h1.trans (by decide)
    obtain ⟨b, pa, ht, -, hold, -⟩ := tokenise_ok hle (List.replicate (bufSize - 1 - r.bytes.length) 0)
      (List.replicate arrCnt none)
    have hstr : str b pa 1 = .error .nullToken := by
      rw [str, hold 1 h1]
      rfl
    rw [clntRead, ht]
    simp only [hstr]
    cases str b pa 0 with
    | ok t => exact ⟨_, rfl⟩
    | error f => exact ⟨_, rfl⟩
  · exact ⟨_, by rw [clntRead, tokenise_fault hgt]⟩

/-- A read with one token, on a connection that has set `pArray[1]`: the text is what stands at the old offset. -/
theorem clntRead_stale {t : List Byte} {p : Nat} (h : lineTokens r.bytes = [t]) (hp : pArray[1]? = some (some p)) :
    ∃ b pa, tokenise (r.bytes ++ 0 :: List.replicate (bufSize - 1 - r.bytes.length) 0) pArray = .ok (b, pa) ∧
      clntRead signed ci pArray r.bytes =
        .ok (⟨charFd signed ci.fd, ci.id, t, tagged ci.id (strAt b p)⟩, pa) := by
  have hle : (lineTokens r.bytes).length ≤ arrCnt := by rw [h, List.length_singleton]; decide
  obtain ⟨b, pa, ht, hstr, hold, -⟩ := tokenise_ok hle (List.replicate (bufSize - 1 - r.bytes.length) 0) pArray
  have h0 : str b pa 0 = .ok t := hstr 0 t (by rw [h]; rfl)
  have h1 : str b pa 1 = .ok (strAt b p) := by
    rw [str, hold 1 (by rw [h]; rfl), hp]
  refine ⟨b, pa, ht, ?_⟩
  rw [clntRead, ht]
  simp only [h0, h1]

/-- **What a read is relayed as does not depend on the reads before it** iff it has two to `arrCnt` tokens of its
own. -/
theorem historyFree_iff (signed : Bool) (ci : ClientInfo) (r : Read) : HistoryFree signed ci r ↔ Complete r := by
  constructor
  · intro h
    by_contra hc
    obtain ⟨m, pa, _, hm, _⟩ := h [] [] _ _ rfl rfl
    obtain ⟨f, hf⟩ := clntRead_first hc signed ci
    rw [hf] at hm
    cases hm
  · intro h h₁ h₂ pa₁ pa₂ _ _
    obtain ⟨pa₁', hr₁⟩ := clntRead_complete h signed ci pa₁
    obtain ⟨pa₂', hr₂⟩ := clntRead_complete h signed ci pa₂
    exact ⟨_, pa₁', pa₂', hr₁, hr₂⟩

/-- A read of the text, for runs on fixed inputs. -/
def readOf (s : String) (h : 1 ≤ (bytes s).length ∧ (bytes s).length ≤ bufSize - 1) : Read := ⟨bytes s, h.1, h.2⟩

/-- The text relayed for the read `[KJD_QT]` behind a first read. -/
def textBehind (first : Read) : Except Fault (List Byte) := do
  let pArray ← afterReads true (clientInfo₀ 0) (List.replicate arrCnt none) [first]
  let (m, _) ← clntRead true (clientInfo₀ 0) pArray (bytes "[KJD_QT]")
  return m.msg

theorem textBehind_ok {first : Read} {t : List Byte} (h : textBehind first = .ok t) :
    ∃ pa m pa', Leaves true (clientInfo₀ 0) [first] pa ∧
      clntRead true (clientInfo₀ 0) pa (bytes "[KJD_QT]") = .ok (m, pa') ∧ m.msg = t := by
  unfold textBehind at h
  cases hpa : afterReads true (clientInfo₀ 0) (List.replicate arrCnt none) [first] with
  | error f => rw [hpa] at h; cases h
  | ok pa =>
    rw [hpa] at h
    change (clntRead true (clientInfo₀ 0) pa (bytes "[KJD_QT]") >>= fun x => Except.ok x.1.msg) = .ok t at h
    cases hm : clntRead true (clientInfo₀ 0) pa (bytes "[KJD_QT]") with
    | error f => rw [hm] at h; cases h
    | ok x =>
      rw [hm] at h
      cases h
      exact ⟨pa, x.1, x.2, hpa, hm, rfl⟩

/-- The kiosk's id in brackets, with no text: behind a message to `A` the kiosk gets `D_QT`, behind one to `AB` it gets
`_QT`. -/
theorem not_historyFree_bare_id : textBehind (readOf "[A]LED" (by decide)) = .ok (bytes "[KJD_SQL]D_QT") ∧
    textBehind (readOf "[AB]LED" (by decide)) = .ok (bytes "[KJD_SQL]_QT") ∧
    ¬ HistoryFree true (clientInfo₀ 0) (readOf "[KJD_QT]" (by decide)) := by
  have h₁ : textBehind (readOf "[A]LED" (by decide)) = .ok (bytes "[KJD_SQL]D_QT") := rfl
  have h₂ : textBehind (readOf "[AB]LED" (by decide)) = .ok (bytes "[KJD_SQL]_QT") := rfl
  refine ⟨h₁, h₂, fun h => ?_⟩
  obtain ⟨pa₁, m₁, pa₁', hl₁, hr₁, ht₁⟩ := textBehind_ok h₁
  obtain ⟨pa₂, m₂, pa₂', hl₂, hr₂, ht₂⟩ := textBehind_ok h₂
  obtain ⟨m, _, _, hm₁, hm₂⟩ := h _ _ _ _ hl₁ hl₂
  cases hr₁.symm.trans hm₁
  cases hr₂.symm.trans hm₂
  exact absurd (ht₁.symm.trans ht₂) (by decide)

end PetVending.Server
