import PetVending.Server.SlotTable

/-!
# Delivery

A thread relays message after message, and between any two of its steps the table may change.

- `due`: the text that a read of thread `c` makes due for slot `j`; `put`: what `c` writes to `j`;
- `ThreadPc.owes`: what the thread has still to write to `j`; a step writes what was owed or goes on owing it, or loses
  it when the slot is off line (`stepBalance`);
- `put_sublist`: in every run, the texts written to a slot are some of those due, in their order, each at most once;
- `delivery`: over every stretch of a run with the slot on line, they are all of them, and go to the slot's descriptor.
-/

namespace PetVending.Server

open CStr Transition

variable {n : Nat} {signed : Bool} {s t : Srv n} {a : Act}

/-! ## What is due and what is written -/

/-- A message to `dest` is for slot `j`. -/
def Named (T : Fin n → ClientInfo) (dest : List Byte) (j : Fin n) : Prop := dest = bytes "ALLMSG" ∨ dest = (T j).id

instance (T : Fin n → ClientInfo) (dest : List Byte) (j : Fin n) : Decidable (Named T dest j) :=
  inferInstanceAs (Decidable (_ ∨ _))

/-- The text that a step makes due for slot `j`: a read of thread `c`, tagged with its id. -/
def due (c : Nat) (j : Fin n) (e : Srv n × Act × Srv n) : Option (List Byte) :=
  match e.2.1, e.1.thread c with
  | .read c' (some (dest, text)), some th =>
    if c' = c ∧ Named e.1.clientInfo dest j then some (tagged (e.1.clientInfo th.slot).id text) else none
  | _, _ => none

/-- The descriptor and the slot a thread is about to write a text to. -/
def ThreadPc.puts (j : Fin n) : ThreadPc n → Option (Int × List Byte)
  | .putting m d k _ => if k = j then some (d, m.msg) else none
  | _ => none

/-- What a step writes as a relay of thread `c` to slot `j`: the descriptor and the text. -/
def put (c : Nat) (j : Fin n) (e : Srv n × Act × Srv n) : Option (Int × List Byte) :=
  match e.2.1, e.1.thread c with
  | .thread c', some th => if c' = c then th.pc.puts j else none
  | _, _ => none

/-- The text that a thread of slot `i` has still to write to slot `j`. -/
def ThreadPc.owes (T : Fin n → ClientInfo) (i j : Fin n) : ThreadPc n → Option (List Byte)
  | .received dest text => if Named T dest j then some (tagged (T i).id text) else none
  | .sending m js => if Named T m.dest j ∧ j ∈ js then some m.msg else none
  | .loading m k js => if k = j ∨ Named T m.dest j ∧ j ∈ js then some m.msg else none
  | .putting m _ k js => if k = j ∨ Named T m.dest j ∧ j ∈ js then some m.msg else none
  | _ => none

/-- What thread `c` owes slot `j`. -/
def owed (c : Nat) (j : Fin n) (s : Srv n) : Option (List Byte) :=
  (s.thread c).bind fun th => th.pc.owes s.clientInfo th.slot j

/-- The slots a relay has still to look at are different ones. -/
def ThreadPc.Ahead : ThreadPc n → Prop
  | .sending _ js => js.Nodup
  | .loading _ k js => (k :: js).Nodup
  | .putting _ _ k js => (k :: js).Nodup
  | _ => True

/-! ## One step -/

/-- Only the ids of the table matter. -/
theorem ThreadPc.owes_congr {T T' : Fin n → ClientInfo} (h : ∀ i, (T' i).id = (T i).id) (i j : Fin n)
    (pc : ThreadPc n) :
    pc.owes T' i j = pc.owes T i j := by
  have hA (dest : List Byte) : Named T' dest j ↔ Named T dest j := by simp only [Named, h]
  cases pc <;> simp only [owes, hA, h]

/-- A thread in its exit section owes nothing. -/
theorem ThreadPc.owes_closed {pc : ThreadPc n} (h : pc.closed = true) (T : Fin n → ClientInfo) (i j : Fin n) :
    pc.owes T i j = none := by
  cases pc <;> first | rfl | cases h

/-- The destinations that `send_msg` answers are no ids. -/
def NoSpecialIds (T : Fin n → ClientInfo) : Prop := ∀ j, ¬ Named T (bytes "GETTIME") j ∧ ¬ Named T (bytes "IDLIST") j

theorem noSpecialIds₀ : NoSpecialIds clientInfo₀ := by
  unfold NoSpecialIds
  decide

/-- Before and after a move: what is written and what is then owed was owed before, and is all of it if the slot is on
line. -/
structure Balance (online : Prop) (before after : List (List Byte)) : Prop where
  sublist : after.Sublist before
  eq : online → after = before

theorem Balance.refl (online : Prop) (l : List (List Byte)) : Balance online l l := ⟨.refl l, fun _ => rfl⟩

/-- **A move of a thread.** -/
theorem ThreadPc.next_balance {T : Fin n → ClientInfo} (hT : NoSpecialIds T) {i j : Fin n} {pc pc' : ThreadPc n}
    (h : pc.next signed T i = some pc') (ha : pc.Ahead) : pc'.Ahead ∧
      Balance ((T j).fd ≠ -1) (pc.owes T i j).toList (((pc.puts j).map Prod.snd).toList ++
        (pc'.owes T i j).toList) := by
  unfold ThreadPc.next at h
  split at h
  case h_1 =>
    split at h <;> cases h
    exact ⟨trivial, .refl _ _⟩
  case h_2 => cases h; exact ⟨trivial, .refl _ _⟩
  case h_3 dest text =>
    dsimp only at h
    split at h <;> cases h
    · rename_i hdest
      have hno : ¬ Named T dest j := by
        rcases hdest with rfl | rfl
        · exact (hT j).1
        · exact (hT j).2
      refine ⟨trivial, ?_⟩
      simp only [owes, puts, if_neg hno]
      exact .refl _ _
    · refine ⟨List.nodup_finRange n, ?_⟩
      simp only [owes, puts, List.mem_finRange, and_true]
      exact .refl _ _
  case h_4 => cases h; exact ⟨trivial, .refl _ _⟩
  case h_5 => cases h; exact ⟨trivial, by simp only [owes, puts, List.not_mem_nil, and_false]; exact .refl _ _⟩
  case h_6 m k js =>
    obtain ⟨hk, hjs⟩ := List.nodup_cons.1 ha
    split at h <;> cases h
    · rename_i hdest
      refine ⟨ha, ?_⟩
      have hiff : (k = j ∨ Named T m.dest j ∧ j ∈ js) ↔ Named T m.dest j ∧ j ∈ k :: js := by
        rw [List.mem_cons]
        constructor
        · rintro (rfl | ⟨hd, hj⟩)
          · exact ⟨hdest.2, .inl rfl⟩
          · exact ⟨hd, .inr hj⟩
        · rintro ⟨hd, rfl | hj⟩
          · exact .inl rfl
          · exact .inr ⟨hd, hj⟩
      simp only [owes, puts, if_congr hiff rfl rfl]
      exact .refl _ _
    · rename_i hdest
      refine ⟨hjs, ?_⟩
      by_cases hkj : k = j
      · -- the slot is skipped
        subst hkj
        simp only [owes, puts, hk, and_false, if_false]
        refine ⟨by simp, fun hon => ?_⟩
        rw [if_neg fun hd => hdest ⟨hon, hd.1⟩]
        rfl
      · simp only [owes, puts, List.mem_cons, Ne.symm hkj, false_or]
        exact .refl _ _
  case h_7 => cases h; exact ⟨ha, .refl _ _⟩
  case h_8 m d k js =>
    obtain ⟨hk, hjs⟩ := List.nodup_cons.1 ha
    cases h
    refine ⟨hjs, ?_⟩
    by_cases hkj : k = j
    · subst hkj
      simp only [owes, puts, hk, and_false, if_false, if_true, true_or]
      exact .refl _ _
    · simp only [owes, puts, hkj, false_or, if_false]
      exact .refl _ _
  case h_9 => cases h; exact ⟨trivial, .refl _ _⟩
  case h_10 => cases h

/-- The texts of a thread that has moved or not, over a table whose ids are the same. -/
theorem owed_congr {c : Nat} (j : Fin n) (hid : ∀ i, (t.clientInfo i).id = (s.clientInfo i).id)
    (hth : t.thread c = s.thread c) : owed c j t = owed c j s := by
  unfold owed
  rw [hth]
  cases s.thread c with
  | none => rfl
  | some th => exact ThreadPc.owes_congr hid _ _ _

/-- What is written and what is owed behind a step was owed before it or has just become due. -/
def StepBalance (c : Nat) (j : Fin n) (s : Srv n) (a : Act) (t : Srv n) : Prop :=
  Balance ((s.clientInfo j).fd ≠ -1) ((owed c j s).toList ++ (due c j (s, a, t)).toList)
    (((put c j (s, a, t)).map Prod.snd).toList ++ (owed c j t).toList)

/-- A step that is nobody's relay. -/
theorem StepBalance.quiet {c : Nat} {j : Fin n} (hd : due c j (s, a, t) = none) (hp : put c j (s, a, t) = none)
    (ho : owed c j t = owed c j s) : StepBalance c j s a t := by
  unfold StepBalance
  rw [hd, hp, ho]
  simpa using Balance.refl _ _

/-- A thread is created with nothing to write. -/
theorem owed_of_main (hw : WF s) (he : Effect signed s a t) (ha : ∀ c r, a ≠ .read c r) (ha' : ∀ c, a ≠ .thread c)
    (c : Nat) (j : Fin n) : owed c j t = owed c j s := by
  have hid := he.id
  have hth : t.thread c = s.thread c ∨ s.thread c = none ∧ ∃ th, t.thread c = some th ∧ th.pc = .start := by
    cases he with
    | create p i hpc =>
      have hp := hw.peer_fresh p (by rw [hpc]; rfl)
      grind -ring -linarith
    | move c' th pc hth hmv =>
      generalize th.pc = pc₀ at hmv
      cases hmv with
      | next h => exact absurd rfl (ha' c')
      | eof => exact absurd rfl (ha c' _)
      | data => exact absurd rfl (ha c' _)
    | _ => grind -ring -linarith
  rcases hth with hth | ⟨hs, th, hth, hpc⟩
  · exact owed_congr j hid hth
  · simp [owed, hs, hth, hpc, ThreadPc.owes]

/-- A read of thread `c'`: what it makes due is owed next. -/
theorem StepBalance.read {c c' : Nat} {j : Fin n} {r : Option (List Byte × List Byte)}
    (h : step signed s (.read c' r) = some t) : StepBalance c j s (.read c' r) t := by
  obtain ⟨th, pc, hth, hmv, rfl⟩ : ∃ th pc, s.thread c' = some th ∧ Moves signed s c' th.slot (.read c' r) th.pc pc ∧
      t = s.goto c' th pc := by
    simp only [step] at h
    split at h
    · cases h
    · rename_i th hth
      split at h
      · rename_i d hpc; cases h; exact ⟨th, _, hth, hpc ▸ .eof d, rfl⟩
      · rename_i d dest text hpc
        split at h
        · cases h
        · rename_i hos; cases h; exact ⟨th, _, hth, hpc ▸ .data d dest text hos, rfl⟩
      · cases h
  by_cases hc : c' = c
  · subst hc
    generalize hpc : th.pc = pc₀ at hmv
    unfold StepBalance
    cases hmv with
    | eof d =>
      simp only [owed, due, put, hth, hpc, ThreadPc.owes, Srv.goto_thread, if_true, Option.bind_some]
      exact .refl _ _
    | data d dest text hos =>
      simp only [owed, due, put, hth, hpc, ThreadPc.owes, Srv.goto_thread, if_true, Option.bind_some, true_and]
      exact .refl _ _
  · have hown : owed c j (s.goto c' th pc) = owed c j s :=
      owed_congr j (fun _ => rfl) (by rw [Srv.goto_thread, if_neg (Ne.symm hc)])
    refine .quiet ?_ ?_ hown
    · unfold due
      rcases r with _ | ⟨dest, text⟩
      · rfl
      · cases s.thread c with
        | none => rfl
        | some th' => exact if_neg fun hd => hc hd.1
    · unfold put
      cases s.thread c <;> rfl

/-- A step of thread `c'` alone is a move in front of its exit section, or leaves it with nothing to write. -/
theorem threadStep_spec {c : Nat} {th : Thread n} (h : threadStep signed s c th = some t) :
    (∃ pc, th.pc.next signed s.clientInfo th.slot = some pc ∧ t = s.goto c th pc) ∨
      (∀ T i j, th.pc.owes T i j = none ∧ th.pc.puts j = none) ∧ (∃ th', t.thread c = some th' ∧ th'.pc.closed = true) ∧
        ∀ c', c' ≠ c → t.thread c' = s.thread c' := by
  unfold threadStep at h
  split at h
  case h_6 =>
    obtain ⟨pc, hn, rfl⟩ := Option.map_eq_some_iff.1 h
    exact .inl ⟨pc, hn, rfl⟩
  case h_2 hpc =>
    split at h <;> cases h
    exact .inr ⟨fun T i j => by rw [hpc]; exact ⟨rfl, rfl⟩, ⟨_, by simp; rfl, rfl⟩, fun c' hc => by simp [hc]⟩
  all_goals
    rename_i hpc
    cases h
    exact .inr ⟨fun T i j => by rw [hpc]; exact ⟨rfl, rfl⟩, ⟨_, by simp; rfl, rfl⟩, fun c' hc => by simp [hc]⟩

/-- The ids are kept apart from the special destinations, and the relays look at each slot once. -/
structure Steady (s : Srv n) : Prop where
  wf : WF s
  ids : NoSpecialIds s.clientInfo
  ahead : ∀ c th, s.thread c = some th → th.pc.Ahead

theorem ThreadPc.ahead_of_closed {pc : ThreadPc n} (h : pc.closed = true) : pc.Ahead := by
  cases pc with
  | sending => cases h
  | loading => cases h
  | putting => cases h
  | _ => trivial

/-- **Every step keeps a state steady.** -/
theorem Steady.step (h : Steady s) (he : Effect signed s a t) : Steady t := by
  refine ⟨h.wf.step he, ?_, ?_⟩
  · intro j
    simpa only [Named, he.id] using h.ids j
  · intro c th hth
    have hold (hth : s.thread c = some th) := h.ahead c th hth
    cases he with
    | create p i hpc =>
      by_cases hc : c = p.conn
      · subst hc
        simp only [Function.update_self, Option.some.injEq] at hth
        subst hth
        trivial
      · simp only [Function.update_of_ne hc] at hth
        exact hold hth
    | move c' th' pc hth' hmv =>
      by_cases hc : c = c'
      · subst hc
        rw [Srv.goto_thread, if_pos rfl] at hth
        cases hth
        have ha := h.ahead c th' hth'
        generalize th'.pc = pc₀ at hmv ha
        cases hmv with
        | next hn => exact (ThreadPc.next_balance (j := th'.slot) h.ids hn ha).1
        | eof => trivial
        | data => trivial
      · rw [Srv.goto_thread, if_neg hc] at hth
        exact hold hth
    | close c' th' d hth' hpc => grind [ThreadPc.ahead_of_closed]
    | takeMutx c' th' hth' hpc => grind [ThreadPc.ahead_of_closed]
    | dec c' th' hth' hpc => grind [ThreadPc.ahead_of_closed]
    | clear c' th' hth' hpc => grind [ThreadPc.ahead_of_closed]
    | release c' th' hth' hpc => grind [ThreadPc.ahead_of_closed]
    | _ => exact hold hth

theorem steady_start : Steady srvStart := ⟨wf_start, noSpecialIds₀, fun c th h => by cases h⟩

theorem StepBalance.thread (hs : Steady s) {c c' : Nat} {j : Fin n} (h : step signed s (.thread c') = some t) :
    StepBalance c j s (.thread c') t := by
  simp only [Server.step] at h
  split at h
  · cases h
  rename_i th hth
  have hdue : due c j (s, .thread c', t) = none := rfl
  by_cases hc : c' = c
  · subst hc
    rcases threadStep_spec h with ⟨pc, hn, rfl⟩ | ⟨hnone, ⟨th', hth', hcl⟩, -⟩
    · have hb := (ThreadPc.next_balance (j := j) hs.ids hn (hs.ahead c' th hth)).2
      unfold StepBalance
      rw [hdue]
      simpa [owed, put, hth, Srv.goto] using hb
    · have howes := ThreadPc.owes_closed hcl t.clientInfo th'.slot j
      refine .quiet hdue ?_ ?_
      · simpa [put, hth] using (hnone s.clientInfo j j).2
      · simp [owed, hth, hth', howes, (hnone s.clientInfo th.slot j).1]
  · have hkeep : t.thread c = s.thread c := by
      rcases threadStep_spec h with ⟨pc, -, rfl⟩ | ⟨-, -, ho⟩
      · rw [Srv.goto_thread, if_neg (Ne.symm hc)]
      · exact ho c (Ne.symm hc)
    refine .quiet hdue ?_ (owed_congr j (effect_of_threadStep hth h).id hkeep)
    unfold put
    cases s.thread c with
    | none => rfl
    | some th' => exact if_neg hc

/-- **What is written and what is owed behind a step was owed before it or has just become due.** -/
theorem stepBalance (hs : Steady s) (c : Nat) (j : Fin n) (h : step signed s a = some t) : StepBalance c j s a t := by
  have he := effect_of_step h
  cases a with
  | read c' r => exact .read h
  | thread c' => exact .thread hs h
  | accept r =>
    exact .quiet rfl (by unfold put; cases s.thread c <;> rfl) (owed_of_main hs.wf he (by simp) (by simp) c j)
  | login r =>
    exact .quiet rfl (by unfold put; cases s.thread c <;> rfl) (owed_of_main hs.wf he (by simp) (by simp) c j)
  | main =>
    exact .quiet rfl (by unfold put; cases s.thread c <;> rfl) (owed_of_main hs.wf he (by simp) (by simp) c j)

/-! ## Runs -/

theorem Steady.run (hs : Steady s) {tr : List (Srv n × Act × Srv n)} (h : Run (Server.step signed) s tr t) :
    Steady t := by
  induction h with
  | nil => exact hs
  | snoc _ hst ih => exact ih.step (effect_of_step hst)

/-- The texts written in a stretch of a run. -/
def written (c : Nat) (j : Fin n) (tr : List (Srv n × Act × Srv n)) : List (List Byte) :=
  (tr.filterMap (put c j)).map Prod.snd

theorem written_snoc (c : Nat) (j : Fin n) (tr : List (Srv n × Act × Srv n)) (e : Srv n × Act × Srv n) :
    written c j (tr ++ [e]) = written c j tr ++ ((put c j e).map Prod.snd).toList := by
  unfold written
  cases hp : put c j e <;> simp [List.filterMap_append, hp]

theorem due_snoc (c : Nat) (j : Fin n) (tr : List (Srv n × Act × Srv n)) (e : Srv n × Act × Srv n) :
    (tr ++ [e]).filterMap (due c j) = tr.filterMap (due c j) ++ (due c j e).toList := by
  cases hp : due c j e <;> simp [List.filterMap_append, hp]

/-- **What is written in a stretch and owed behind it** was owed before it or became due in it, and is all of that if
the slot stays on line. -/
theorem run_balance (hs : Steady s) (c : Nat) (j : Fin n) {tr : List (Srv n × Act × Srv n)}
    (h : Run (step signed) s tr t) :
    Balance (∀ e ∈ tr, (e.1.clientInfo j).fd ≠ -1) ((owed c j s).toList ++ tr.filterMap (due c j))
      (written c j tr ++ (owed c j t).toList) := by
  induction h with
  | nil => exact ⟨by simp [written], fun _ => by simp [written]⟩
  | @snoc tr u v a hrun hst ih =>
    have hb := stepBalance (hs.run hrun) c j hst
    rw [written_snoc, due_snoc, List.append_assoc, ← List.append_assoc (owed c j s).toList]
    constructor
    · apply ((List.Sublist.refl _).append hb.sublist).trans
      rw [← List.append_assoc]
      exact ih.sublist.append (.refl _)
    · intro hon
      rw [List.forall_mem_append, List.forall_mem_singleton] at hon
      rw [hb.eq hon.2, ← ih.eq hon.1, List.append_assoc]

/-- **At most once and in order.** -/
theorem put_sublist {tr : List (Srv maxClnt × Act × Srv maxClnt)} {s : Srv maxClnt}
    (h : Run (step signed) srvStart tr s)
    (c : Nat) (j : Fin maxClnt) : (written c j tr).Sublist (tr.filterMap (due c j)) := by
  have hr := (run_balance steady_start c j h).sublist
  exact (List.sublist_append_left _ _).trans (by simpa [owed, srvStart] using hr)

/-- A login, and a message to the client itself that is relayed. -/
theorem put_sublist_relay : ∃ tr s, trace (step false) srvStart (loginActs 0 4 ++
      [.thread 0, .thread 0, .read 0 (some (bytes "KJD_SQL", [])), .thread 0, .thread 0, .thread 0, .thread 0]) =
        some (tr, s) ∧ (written 0 0 tr).Sublist (tr.filterMap (due 0 0)) := by
  apply exists_of_trace
  · decide
  · exact fun tr s hs => put_sublist hs 0 0

/-! ## The descriptor -/

/-- A slot that `main` is about to bind is off line. -/
def Vacant (s : Srv n) : Prop := ∀ k p i, s.main = .bind k p i → k.written = false → (s.clientInfo i).fd = -1

theorem Vacant.step (h : Vacant s) (he : Effect signed s a t) : Vacant t := by
  intro k p i hm hk
  cases he with
  | quiet pc hb hb' hp => simp_all [MainPc.binding]
  | found p' i' hb hp hfd =>
    cases hm
    exact hfd
  | _ => grind [Vacant]

/-- The relays of thread `c` to slot `j` have the descriptor `d`. -/
def Loaded (c : Nat) (j : Fin n) (d : Int) (s : Srv n) : Prop :=
  ∀ th m d' js, s.thread c = some th → th.pc = .putting m d' j js → d' = d

/-- A thread with nothing to write to a slot has no descriptor of it. -/
theorem loaded_of_owed {c : Nat} {j : Fin n} (h : owed c j s = none) (d : Int) : Loaded c j d s := by
  intro th m d' js hth hpc
  simp [owed, hth, hpc, ThreadPc.owes] at h

/-- A step over a slot on line leaves its descriptor or takes it off line, and relays go on with its descriptor. -/
theorem loaded_step (hv : Vacant s) (he : Effect signed s a t) {c : Nat} {j : Fin n} (hon : (s.clientInfo j).fd ≠ -1)
    (hl : Loaded c j (s.clientInfo j).fd s) :
    ((t.clientInfo j).fd = (s.clientInfo j).fd ∨ (t.clientInfo j).fd = -1) ∧ Loaded c j (s.clientInfo j).fd t := by
  constructor
  · rcases fd_step he j with h | h | ⟨p, -, hm, -⟩
    · exact .inl h
    · exact .inr h
    · exact absurd (hv _ p j hm rfl) hon
  · intro th m d js hth hpc
    rcases puts_step he hth hpc with ⟨th', hth', hpc'⟩ | h
    · exact hl th' m d js hth' hpc'
    · exact h

/-- A step writes to the descriptor that the relay has loaded. -/
theorem put_fst {c : Nat} {j : Fin n} {d : Int} (hl : Loaded c j d s) {x : Int × List Byte}
    (h : put c j (s, a, t) = some x) :
    x.1 = d := by
  unfold put at h
  split at h
  · rename_i c' th _ hth
    split at h
    · cases hpc : th.pc with
      | putting m d' k js =>
        rw [hpc] at h
        simp only [ThreadPc.puts] at h
        split at h
        · rename_i hk
          cases h
          subst hk
          exact hl th m d' js hth hpc
        · cases h
      | _ => rw [hpc] at h; cases h
    · cases h
  · cases h

/-- Over a stretch with the slot on line, everything is written to one descriptor. -/
theorem run_loaded (hv : Vacant s) {c : Nat} {j : Fin n} (hl : Loaded c j (s.clientInfo j).fd s)
    {tr : List (Srv n × Act × Srv n)} (h : Run (step signed) s tr t) (hon : ∀ e ∈ tr, (e.1.clientInfo j).fd ≠ -1) :
    Vacant t ∧ ((t.clientInfo j).fd = (s.clientInfo j).fd ∨ (t.clientInfo j).fd = -1) ∧
      Loaded c j (s.clientInfo j).fd t ∧
      ∀ x ∈ tr.filterMap (put c j), x.1 = (s.clientInfo j).fd := by
  induction h with
  | nil => exact ⟨hv, .inl rfl, hl, by simp⟩
  | @snoc tr u v a hrun hst ih =>
    rw [List.forall_mem_append, List.forall_mem_singleton] at hon
    obtain ⟨hvu, hfd, hlu, hall⟩ := ih hon.1
    have hfd := hfd.resolve_right hon.2
    have he := effect_of_step hst
    obtain ⟨hfd', hl'⟩ := loaded_step hvu he hon.2 (hfd ▸ hlu)
    rw [hfd] at hfd' hl'
    refine ⟨hvu.step he, hfd', hl', ?_⟩
    simp only [List.filterMap_append, List.mem_append]
    rintro x (hx | hx)
    · exact hall x hx
    · obtain ⟨e, he, hx⟩ := List.mem_filterMap.1 hx
      cases List.mem_singleton.1 he
      exact put_fst hlu hx

/-- **Exactly once.** Over every stretch of a run in which the slot is on line, a thread that has nothing left to write
at its start and at its end writes the texts that became due, each once, in their order, to the descriptor of the
slot. -/
theorem delivery {s t : Srv maxClnt} (hs : Reach (step signed) free srvStart s)
    {tr : List (Srv maxClnt × Act × Srv maxClnt)} (h : Run (step signed) s tr t) {c : Nat} {j : Fin maxClnt}
    (hon : ∀ e ∈ tr, (e.1.clientInfo j).fd ≠ -1) (h0 : owed c j s = none) (h1 : owed c j t = none) :
    tr.filterMap (put c j) = (tr.filterMap (due c j)).map fun text => ((s.clientInfo j).fd, text) := by
  have hsteady : Steady s := hs.inv steady_start fun _ _ _ hi _ hst => hi.step (effect_of_step hst)
  have hvac : Vacant s := hs.inv (by simp [Vacant, srvStart]) fun _ _ _ hi _ hst => hi.step (effect_of_step hst)
  have hall := (run_loaded hvac (loaded_of_owed h0 _) h hon).2.2.2
  have heq := (run_balance hsteady c j h).eq hon
  rw [h0, h1] at heq
  simp only [Option.toList_none, List.append_nil, List.nil_append, written] at heq
  rw [← heq, List.map_map]
  calc tr.filterMap (put c j) = (tr.filterMap (put c j)).map id := (List.map_id _).symm
    _ = _ := by
      apply List.map_congr_left
      intro x hx
      exact Prod.ext (hall x hx) rfl

/-- The first client logs in and sends a message to itself, which is relayed. -/
theorem delivery_relay : ∃ s tr t, exec (step false) srvStart (loginActs 0 4 ++ [.thread 0, .thread 0]) = some s ∧
    trace (step false) s ([.read 0 (some (bytes "KJD_SQL", bytes "hi"))] ++ List.replicate 6 (.thread 0)) =
      some (tr, t) ∧
      tr.filterMap (put 0 0) = (tr.filterMap (due 0 0)).map fun text => ((s.clientInfo 0).fd, text) := by
  have hrun : ((exec (step false) srvStart (loginActs 0 4 ++ [.thread 0, .thread 0])).any fun s =>
      (trace (step false) s ([.read 0 (some (bytes "KJD_SQL", bytes "hi"))] ++ List.replicate 6 (.thread 0))).any
        fun r =>
        r.1.all (fun e => (e.1.clientInfo 0).fd ≠ -1) ∧ owed 0 0 s = none ∧ owed 0 0 r.2 = none) = true := by decide
  obtain ⟨s, hs, hrun⟩ := (Option.any_eq_true ..).1 hrun
  obtain ⟨⟨tr, t⟩, ht, hrun⟩ := (Option.any_eq_true ..).1 hrun
  obtain ⟨hon, h0, h1⟩ := of_decide_eq_true hrun
  refine ⟨s, tr, t, hs, ht, delivery (reach_of_exec hs) (run_of_trace ht) ?_ h0 h1⟩
  simpa using hon

end PetVending.Server
