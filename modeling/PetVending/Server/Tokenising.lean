import PetVending.Server.Login
import PetVending.Server.Session

/-!
# Tokenising in several threads

`strtok` keeps one position for the whole process. `main` and every connection thread run their `strtok` loops over
buffers of their own, but `strtok(NULL, ..)` goes on wherever the last call of any of them has stopped.

- `tokStep`: reads, single calls of `strtok`, and looks at `pArray[j]`, by `main` and any number of threads in any
  order; a pointer is a buffer and an offset into it;
- `Isolated`: every string looked at is a token of the bytes its own thread has read;
- `TokGuard`: a `strtok(NULL, ..)` goes on in the caller's own buffer, and only entries that the line has set are
  looked at. Under it the calls of a thread add up to `tokenise` on its line (`Progress`), and every run is
  `Isolated` (`isolated_tokenising`). Two overlapping loops are not (`foreign_text`).
-/

namespace PetVending.Server

open CStr Transition

/-! ## States and steps -/

/-- Where a thread is: about to clear its buffer, to read, to call `strtok` on its buffer, to deal with the result of
its last call (`i` tokens are stored), or working with `pArray`. -/
inductive TokPc
  | idle
  | reading
  | first
  | got (i : Nat) (r : Option (Owner × Nat))
  | looking

/-- `main` or a connection thread: the bytes of its last read, its buffer and its `pArray`. -/
structure Worker where
  bytes : List Byte
  buf : List Byte
  pArray : List (Option (Owner × Nat))
  pc : TokPc

/-- A string that a thread has looked at: the string behind `pArray[j]`, when its last read was of `bytes`. -/
structure Look where
  bytes : List Byte
  j : Nat
  str : List Byte

/-- All threads, the position `strtok` has saved, and the strings looked at so far. -/
structure Toks where
  worker : Owner → Worker
  save : Option (Owner × Nat)
  looks : List Look

/-- The start, with whatever the buffers hold. -/
def toksStart (garbage : Owner → List Byte) : Toks :=
  ⟨fun w => ⟨[], garbage w, List.replicate arrCnt none, .idle⟩, none, []⟩

inductive TokAct
  | clear (w : Owner)
  | read (w : Owner) (bs : List Byte)
  | call (w : Owner)
  | look (w : Owner) (j : Nat)
  | again (w : Owner)

/-- What a buffer holds before the read: `msg` is zeroed, `idpasswd` is left as it is. -/
def cleared (buf : List Byte) : Owner → List Byte
  | .main => buf
  | .conn _ => List.replicate bufSize 0

/-- How many bytes a read may deliver for the terminator to fit. -/
def readMax : Owner → Nat
  | .main => idpasswdSize - 1
  | .conn _ => bufSize - 1

namespace Toks

/-- Thread `w` does something on its own. -/
def set (s : Toks) (w : Owner) (wk : Worker) : Toks := { s with worker := Function.update s.worker w wk }

/-- The call of `strtok` by `w` that goes on at `p` of the buffer of `o`, with `i` tokens stored. -/
def strtok (s : Toks) (w o : Owner) (p i : Nat) : Toks :=
  let r := CStr.strtok isDelim (s.worker o).buf p
  let s := s.set o { s.worker o with buf := r.2.1 }
  { s.set w { s.worker w with pc := .got i (r.1.map fun q => (o, q)) } with save := some (o, r.2.2) }

end Toks

def tokStep (s : Toks) : TokAct → Option Toks
  | .clear w =>
    match (s.worker w).pc with
    | .idle => some (s.set w { s.worker w with buf := cleared (s.worker w).buf w, pc := .reading })
    | _ => none
  | .read w bs =>
    match (s.worker w).pc with
    | .reading =>
      if bs.length ≤ readMax w then
        let buf := bs ++ 0 :: (s.worker w).buf.drop (bs.length + 1)
        if bs = [] then
          -- `main` goes on, a connection thread leaves its loop
          if w = .main then some (s.set w { s.worker w with bytes := bs, buf := buf, pc := .idle }) else none
        else some (s.set w { s.worker w with bytes := bs, buf := buf, pc := .first })
      else none
    | _ => none
  | .call w =>
    match (s.worker w).pc with
    | .first => some (s.strtok w w 0 0)
    | .got _ none => some (s.set w { s.worker w with pc := .looking })
    | .got i (some p) =>
      -- `pArray[i] = pToken` stays inside the array
      if i < arrCnt then
        match s.save with
        | none => none
        | some (o, q) =>
          some ((s.set w { s.worker w with pArray := (s.worker w).pArray.set i (some p) }).strtok w o q (i + 1))
      else none
    | _ => none
  | .look w j =>
    match (s.worker w).pc, (s.worker w).pArray[j]? with
    | .looking, some (some (o, q)) =>
      some { s with looks := ⟨(s.worker w).bytes, j, strAt (s.worker o).buf q⟩ :: s.looks }
    | _, _ => none
  | .again w =>
    match (s.worker w).pc with
    | .looking => some (s.set w { s.worker w with pc := .idle })
    | _ => none

/-- What the threads look at are tokens of their own bytes. -/
def Isolated (s : Toks) : Prop := ∀ l ∈ s.looks, l.str ∈ lineTokens l.bytes

/-- `strtok(NULL, ..)` goes on in the caller's own buffer; an entry that is looked at was set by the line. -/
def TokGuard (s : Toks) : TokAct → Prop
  | .call w =>
    match (s.worker w).pc with
    | .got _ (some _) => s.save.map Prod.fst = some w
    | _ => True
  | .look w j => j < (lineTokens (s.worker w).bytes).length
  | _ => True

instance (s : Toks) : (a : TokAct) → Decidable (TokGuard s a)
  | .call w =>
    match h : (s.worker w).pc with
    | .got _ (some _) => decidable_of_iff (s.save.map Prod.fst = some w) (by simp [TokGuard, h])
    | .got _ none => .isTrue (by simp [TokGuard, h])
    | .idle => .isTrue (by simp [TokGuard, h])
    | .reading => .isTrue (by simp [TokGuard, h])
    | .first => .isTrue (by simp [TokGuard, h])
    | .looking => .isTrue (by simp [TokGuard, h])
  | .look w j => inferInstanceAs (Decidable (j < (lineTokens (s.worker w).bytes).length))
  | .clear _ => .isTrue trivial
  | .read _ _ => .isTrue trivial
  | .again _ => .isTrue trivial

/-! ## The invariant -/

/-- An array of offsets into the own buffer. -/
def own (w : Owner) (pa : List (Option Nat)) : List (Option (Owner × Nat)) := pa.map (Option.map fun q => (w, q))

theorem own_set (w : Owner) (offs : List Nat) (pa : List (Option Nat)) (q : Nat) (h : offs.length < pa.length) :
    (own w (offs.map some ++ pa.drop offs.length)).set offs.length (some (w, q)) =
      own w ((offs ++ [q]).map some ++ pa.drop (offs ++ [q]).length) := by
  have hd := List.drop_eq_getElem_cons (l := pa.map (Option.map fun q => (w, q))) (i := offs.length) (by simpa using h)
  simp [own, hd]

/-- How far a thread is. While it tokenises, `offs` are the tokens it has stored; these, the one it has got and those
the remaining calls would give, if nobody else calls, are what the loop gives on the line. -/
def Progress (save : Option (Owner × Nat)) (w : Owner) (wk : Worker) : Prop :=
  ∃ pa : List (Option Nat), pa.length = arrCnt ∧
    match wk.pc with
    | .idle => wk.pArray = own w pa
    | .reading => wk.pArray = own w pa
    | .first => wk.pArray = own w pa ∧ ∃ post, wk.buf = wk.bytes ++ 0 :: post
    | .got i r => ∃ offs post, offs.length = i ∧ i ≤ arrCnt ∧ wk.pArray = own w (offs.map some ++ pa.drop i) ∧
        match r with
        | none => strtokLoop isDelim (arrCnt + 1) (wk.bytes ++ 0 :: post) 0 = (offs, wk.buf)
        | some (o, q) => o = w ∧ ∀ p, save = some (w, p) →
            strtokLoop isDelim (arrCnt + 1) (wk.bytes ++ 0 :: post) 0 =
              (offs ++ q :: (strtokLoop isDelim (arrCnt - i) wk.buf p).1,
                (strtokLoop isDelim (arrCnt - i) wk.buf p).2)
    | .looking => ∃ pa' post, wk.pArray = own w pa' ∧ tokenise (wk.bytes ++ 0 :: post) pa = .ok (wk.buf, pa')

/-- A call of `strtok` in the own buffer is one round of the loop. -/
theorem progress_call (w : Owner) (bytes buf post : List Byte) {pa : List (Option Nat)} {offs : List Nat} {p k : Nat}
    (hpa : pa.length = arrCnt) (hk : offs.length + k = arrCnt)
    (hloop : strtokLoop isDelim (arrCnt + 1) (bytes ++ 0 :: post) 0 =
      (offs ++ (strtokLoop isDelim (k + 1) buf p).1, (strtokLoop isDelim (k + 1) buf p).2)) :
    let r := CStr.strtok isDelim buf p
    Progress (some (w, r.2.2)) w ⟨bytes, r.2.1, own w (offs.map some ++ pa.drop offs.length),
      .got offs.length (r.1.map fun q => (w, q))⟩ := by
  refine ⟨pa, hpa, offs, post, rfl, by omega, rfl, ?_⟩
  have hk' : arrCnt - offs.length = k := by omega
  match hr : CStr.strtok isDelim buf p with
  | (none, b, p') => simpa [strtokLoop, hr] using hloop
  | (some q, b, p') =>
    refine ⟨rfl, fun p'' hp => ?_⟩
    cases hp
    simpa [strtokLoop, hr, hk'] using hloop

/-- What the others do to the saved position does no harm: a thread can only go on in its own buffer. -/
theorem Progress.save {save save' : Option (Owner × Nat)} {w : Owner} {wk : Worker} (h : Progress save w wk)
    (hs : ∀ p, save' = some (w, p) → save = some (w, p)) : Progress save' w wk := by
  obtain ⟨pa, hpa, h⟩ := h
  refine ⟨pa, hpa, ?_⟩
  match hpc : wk.pc with
  | .idle => rwa [hpc] at h
  | .reading => rwa [hpc] at h
  | .first => rwa [hpc] at h
  | .looking => rwa [hpc] at h
  | .got i none => rwa [hpc] at h
  | .got i (some (o, q)) =>
    rw [hpc] at h
    obtain ⟨offs, post, h1, h2, h3, h4, h5⟩ := h
    exact ⟨offs, post, h1, h2, h3, h4, fun p hp => h5 p (hs p hp)⟩

/-- The strings looked at are the tokens of the line, by their places. -/
def LooksOwn (s : Toks) : Prop := ∀ l ∈ s.looks, (lineTokens l.bytes)[l.j]? = some l.str

theorem set_worker (s : Toks) (w w' : Owner) (wk : Worker) :
    (s.set w wk).worker w' = if w' = w then wk else s.worker w' := by
  simp [Toks.set, Function.update_apply]

/-- A call of `w` in its own buffer. -/
theorem strtok_worker (s : Toks) (w w' : Owner) (p i : Nat) :
    let r := CStr.strtok isDelim (s.worker w).buf p
    (s.strtok w w p i).worker w' =
      if w' = w then ⟨(s.worker w).bytes, r.2.1, (s.worker w).pArray, .got i (r.1.map fun q => (w, q))⟩
      else s.worker w' := by
  by_cases h : w' = w <;> simp [Toks.strtok, Toks.set, h]

section Step

variable {s t : Toks} {w : Owner}

/-- A thread that does something on its own. -/
theorem forall_set (h : ∀ w, Progress s.save w (s.worker w)) {wk : Worker} (hw : Progress s.save w wk) :
    ∀ w', Progress s.save w' ((s.set w wk).worker w') := by
  intro w'
  rw [set_worker]
  split
  · rename_i hw'; subst hw'; exact hw
  · exact h w'

/-- A thread that calls `strtok` in its own buffer. -/
theorem forall_strtok (h : ∀ w', w' ≠ w → Progress s.save w' (s.worker w')) {p i : Nat}
    (hw : let r := CStr.strtok isDelim (s.worker w).buf p
      Progress (some (w, r.2.2)) w ⟨(s.worker w).bytes, r.2.1, (s.worker w).pArray, .got i (r.1.map fun q => (w, q))⟩) :
    ∀ w', Progress (s.strtok w w p i).save w' ((s.strtok w w p i).worker w') := by
  intro w'
  rw [strtok_worker]
  split
  · rename_i hw'; subst hw'; exact hw
  · rename_i hw'
    apply (h w' hw').save
    intro q hq
    simp only [Toks.strtok, Option.some.injEq, Prod.mk.injEq] at hq
    exact absurd hq.1.symm hw'

theorem progress_first (h : ∀ w, Progress s.save w (s.worker w)) (hpc : (s.worker w).pc = .first) :
    ∀ w', Progress (s.strtok w w 0 0).save w' ((s.strtok w w 0 0).worker w') := by
  obtain ⟨pa, hpa, hw⟩ := h w
  rw [hpc] at hw
  obtain ⟨hown, post, hbuf⟩ := hw
  apply forall_strtok (fun w' _ => h w')
  have hcall := progress_call w (s.worker w).bytes (s.worker w).buf post hpa
    (show ([] : List Nat).length + arrCnt = arrCnt by simp) (p := 0) (by rw [← hbuf]; rfl)
  simpa [hown] using hcall

/-- A call that goes on in the own buffer. -/
theorem progress_next (h : ∀ w, Progress s.save w (s.worker w)) {i p q : Nat} {o : Owner}
    (hpc : (s.worker w).pc = .got i (some (o, q))) (hi : i < arrCnt) (hsave : s.save = some (w, p)) :
    let s' := (s.set w { s.worker w with pArray := (s.worker w).pArray.set i (some (o, q)) }).strtok w w p (i + 1)
    ∀ w', Progress s'.save w' (s'.worker w') := by
  obtain ⟨pa, hpa, hw⟩ := h w
  rw [hpc] at hw
  obtain ⟨offs, post, rfl, -, hown, rfl, hloop⟩ := hw
  apply forall_strtok (fun w' hw' => by rw [set_worker, if_neg hw']; exact h w')
  have hk : arrCnt - offs.length = (arrCnt - (offs.length + 1)) + 1 := by omega
  have hcall := progress_call o (s.worker o).bytes (s.worker o).buf post (p := p) hpa
    (show (offs ++ [q]).length + (arrCnt - (offs.length + 1)) = arrCnt by simp; omega)
    (by rw [← hk, List.append_assoc offs]; exact hloop p hsave)
  simpa [set_worker, hown, own_set o offs pa q (by omega)] using hcall

theorem progress_done (h : ∀ w, Progress s.save w (s.worker w)) {i : Nat} (hpc : (s.worker w).pc = .got i none) :
    Progress s.save w { s.worker w with pc := .looking } := by
  obtain ⟨pa, hpa, hw⟩ := h w
  rw [hpc] at hw
  obtain ⟨offs, post, rfl, hle, hown, hloop⟩ := hw
  refine ⟨pa, hpa, _, post, hown, ?_⟩
  simp [tokenise, hloop, hle]

/-- The string behind an entry that the line has set is the token of its place. -/
theorem look_own (h : Progress s.save w (s.worker w)) (hpc : (s.worker w).pc = .looking) {j q : Nat} {o : Owner}
    (hj : j < (lineTokens (s.worker w).bytes).length) (hptr : (s.worker w).pArray[j]? = some (some (o, q))) :
    (lineTokens (s.worker w).bytes)[j]? = some (strAt (s.worker o).buf q) := by
  obtain ⟨pa, hpa, hw⟩ := h
  rw [hpc] at hw
  obtain ⟨pa', post, hown, htok⟩ := hw
  have hle : (lineTokens (s.worker w).bytes).length ≤ arrCnt := by
    by_contra hgt
    rw [tokenise_fault (not_le.1 hgt)] at htok
    cases htok
  obtain ⟨b, pa'', ht, hstr, -⟩ := tokenise_ok hle post pa
  rw [ht] at htok
  cases htok
  have hs := hstr j _ (List.getElem?_eq_getElem hj)
  rw [hown, own, List.getElem?_map, Option.map_eq_some_iff] at hptr
  obtain ⟨q', hq', hp⟩ := hptr
  obtain ⟨q'', rfl, hq⟩ := Option.map_eq_some_iff.1 hp
  cases hq
  rw [List.getElem?_eq_getElem hj]
  simp only [str, hq', Except.ok.injEq] at hs
  rw [← hs]

end Step

/-- **Guarded steps keep the loops apart.** -/
theorem progress_step {s t : Toks} {a : TokAct} (h : ∀ w, Progress s.save w (s.worker w)) (hl : LooksOwn s)
    (hg : TokGuard s a) (hs : tokStep s a = some t) : (∀ w, Progress t.save w (t.worker w)) ∧ LooksOwn t := by
  cases a with
  | clear w =>
    simp only [tokStep] at hs
    split at hs <;> cases hs
    rename_i hpc
    obtain ⟨pa, hpa, hw⟩ := h w
    rw [hpc] at hw
    exact ⟨forall_set h ⟨pa, hpa, hw⟩, hl⟩
  | read w bs =>
    simp only [tokStep] at hs
    split at hs
    case h_2 => cases hs
    rename_i hpc
    obtain ⟨pa, hpa, hw⟩ := h w
    rw [hpc] at hw
    split at hs
    case isFalse => cases hs
    split at hs
    · split at hs <;> cases hs
      exact ⟨forall_set h ⟨pa, hpa, hw⟩, hl⟩
    · cases hs
      exact ⟨forall_set h ⟨pa, hpa, hw, _, rfl⟩, hl⟩
  | call w =>
    simp only [tokStep] at hs
    split at hs
    · rename_i hpc; cases hs
      exact ⟨progress_first h hpc, hl⟩
    · rename_i hpc; cases hs
      exact ⟨forall_set h (progress_done h hpc), hl⟩
    · rename_i i ptr hpc
      obtain ⟨o, q⟩ := ptr
      simp only [TokGuard, hpc] at hg
      split at hs
      case isFalse => cases hs
      rename_i hi
      split at hs
      · cases hs
      · rename_i o' p hsave
        cases hs
        obtain rfl : o' = w := by simpa [hsave] using hg
        exact ⟨progress_next h hpc hi hsave, hl⟩
    · cases hs
  | look w j =>
    simp only [tokStep] at hs
    split at hs <;> cases hs
    rename_i hpc hptr
    refine ⟨h, fun l hm => ?_⟩
    rcases List.mem_cons.1 hm with rfl | hm
    · exact look_own (h w) hpc hg hptr
    · exact hl l hm
  | again w =>
    simp only [tokStep] at hs
    split at hs <;> cases hs
    rename_i hpc
    obtain ⟨pa, hpa, hw⟩ := h w
    rw [hpc] at hw
    obtain ⟨pa', post, hown, htok⟩ := hw
    exact ⟨forall_set h ⟨pa', tokenise_length htok hpa, hown⟩, hl⟩

/-! ## Runs -/

/-- **Every run whose steps meet the guard is isolated**: each thread looks only at tokens of its own bytes. -/
theorem isolated_tokenising {garbage : Owner → List Byte} {s : Toks}
    (h : Reach tokStep TokGuard (toksStart garbage) s) : Isolated s := by
  have hinv : (∀ w, Progress s.save w (s.worker w)) ∧ LooksOwn s := by
    refine h.inv (I := fun s => (∀ w, Progress s.save w (s.worker w)) ∧ LooksOwn s) ⟨fun w => ?_, ?_⟩
      fun s a t hi hg hs => progress_step hi.1 hi.2 hg hs
    · exact ⟨List.replicate arrCnt none, by simp, by simp [toksStart, own]⟩
    · simp [LooksOwn, toksStart]
  exact fun l hl => List.mem_of_getElem? (hinv.2 l hl)

/-- A thread reads a line and tokenises it. -/
def lineActs (w : Owner) (bs : List Byte) (calls : Nat) : List TokAct :=
  [.clear w, .read w bs] ++ List.replicate calls (.call w)

/-- `main` takes a login while a thread works with its tokens. -/
theorem isolated_login : ∃ s, exec (guarded tokStep TokGuard) (toksStart fun _ => [])
      (lineActs (.conn 0) (bytes "[KJD_STM]MOTOR") 4 ++ lineActs .main (bytes "[KJD_QT:PASSWD]") 4 ++
        [.look (.conn 0) 0, .look .main 0, .look .main 1, .look (.conn 0) 1]) = some s ∧ Isolated s := by
  apply exists_of_guarded
  · decide
  · exact fun s hs => isolated_tokenising hs

/-- A thread that is interrupted after its first token relays the text of the other thread's message. -/
theorem foreign_text : ¬ ∀ (garbage : Owner → List Byte) (s : Toks),
    Reach tokStep free (toksStart garbage) s → Isolated s := by
  intro h
  have hrun : (exec tokStep (toksStart fun _ => [])
      (lineActs (.conn 0) (bytes "[KJD_STM]LED") 1 ++ lineActs (.conn 1) (bytes "[KJD_SQL]DB") 1 ++
        [.call (.conn 0), .call (.conn 0), .call (.conn 0), .look (.conn 0) 1])).any (fun s =>
          s.looks.any fun l => l.bytes = bytes "[KJD_STM]LED" ∧ l.str = bytes "DB") = true := by decide
  obtain ⟨s, hs, hl⟩ := (Option.any_eq_true ..).1 hrun
  obtain ⟨l, hmem, hl⟩ := List.any_eq_true.1 hl
  simp only [decide_eq_true_eq] at hl
  have := h _ s (reach_of_exec hs) l hmem
  rw [hl.1, hl.2] at this
  revert this
  decide

end PetVending.Server
