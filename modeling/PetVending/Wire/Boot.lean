import PetVending.Server.Login
import PetVending.Wire.Settling
import Mathlib.Algebra.Group.Nat.Even

/-!
# Logging in

Every client sends `[id:PASSWD]` when it has connected. One that connects while it is on line is refused and put off
line, "for MCU"; one that tries again is let in.

- `Desk`: who is on line, and the counter; `Like`: the accept loop of `main` on the texts of the clients is the desk
  (`run_like`), whatever the logins before have left in `idpasswd` and `pArray`;
- **`logins_online`**: while the counter has room, a client is on line iff it has connected an odd number of times since
  its thread has last ended;
- `boot_complete`: the site of `Net` is there when its clients have come in, in any order.
-/

namespace PetVending.Wire

open CStr Server Transition

/-! ## The desk -/

/-- `"[%s:PASSWD]"` -/
def loginText (i : Fin maxClnt) : List Byte := bytes "[" ++ (clientInfo₀ i).id ++ bytes ":PASSWD]"

/-- A client connects, on a socket and from an address, or its thread ends. -/
inductive Event
  | login (i : Fin maxClnt) (sock : Nat) (ip : List Byte)
  | exit (i : Fin maxClnt)

def Event.act : Event → LoopAct maxClnt
  | .login i sock ip => .conn sock ip (.data (loginText i))
  | .exit i => .exit i

/-- The descriptors of the slots, and `clnt_cnt`. -/
structure Desk where
  fd : Fin maxClnt → Int
  clntCnt : Int

def Desk.event (d : Desk) : Event → Desk
  | .login i sock _ =>
    if d.clntCnt ≥ maxClnt then d
    else if d.fd i = -1 then ⟨Function.update d.fd i sock, d.clntCnt + 1⟩
    else ⟨Function.update d.fd i (-1), d.clntCnt⟩
  | .exit i => ⟨Function.update d.fd i (-1), d.clntCnt - 1⟩

/-- Nobody is on line at the start. -/
def desk (l : List Event) : Desk := l.foldl Desk.event ⟨fun _ => -1, 0⟩

/-- The accept loop is where the desk is. -/
structure Like (s : MainState maxClnt) (d : Desk) : Prop where
  ids : SameIds s.clientInfo clientInfo₀
  fd : ∀ i, (s.clientInfo i).fd = d.fd i
  clntCnt : s.clntCnt = d.clntCnt

/-! ## The accept loop -/

/-- The scan finds the slot of an id with its password. -/
theorem scan_own {n : Nat} {T : Fin n → ClientInfo} (hT : Distinct T) {i : Fin n} {is : List (Fin n)} (hi : i ∈ is) :
    scan T (T i).id (.ok (T i).pw) is = .ok (if (T i).fd = -1 then .connected i else .alreadyLogged i) := by
  induction is with
  | nil => cases hi
  | cons j is ih =>
    rw [scan]
    by_cases hj : (T j).id = (T i).id
    · obtain rfl := hT j i hj
      simp only [if_true]
      by_cases hfd : (T j).fd = -1
      · rw [if_neg (not_not.2 hfd), if_pos hfd]
      · rw [if_pos hfd, if_neg hfd]
    · rw [if_neg hj]
      apply ih
      exact (List.mem_cons.1 hi).resolve_left fun h => hj (h ▸ rfl)

theorem loginText_tokens : ∀ i, lineTokens (loginText i) = [(clientInfo₀ i).id, (clientInfo₀ i).pw] ∧
    1 ≤ (loginText i).length ∧ (loginText i).length < idpasswdSize := by
  decide +kernel

/-- **One event.** -/
theorem step_like {s : MainState maxClnt} {d : Desk} (h : Like s d) (e : Event) :
    ∃ t, loopStep s e.act = some t ∧ Like t (d.event e) := by
  cases e with
  | exit i =>
    refine ⟨_, rfl, h.ids.update i rfl rfl, fun j => ?_, congrArg (· - 1) h.clntCnt⟩
    by_cases hj : j = i
    · subst hj
      simp [Desk.event]
    · simp [Desk.event, hj, h.fd j]
  | login i sock ip =>
    by_cases hroom : s.clntCnt < maxClnt
    · obtain ⟨htok, hpos, hfits⟩ := loginText_tokens i
      have hdesk : ¬ d.clntCnt ≥ maxClnt := by
        rw [← h.clntCnt]
        exact not_le.2 hroom
      have hok : LineOk s.clientInfo (loginText i) := by
        rw [LineOk, htok]
        exact ⟨by simp [Server.arrCnt], .inl (le_refl 2)⟩
      obtain ⟨o, id, b, pa, ho, -, hmain⟩ := mainIter_lineOk ⟨hroom, Int.natCast_nonneg sock, hpos, hfits⟩ hok ip
      rw [decideLine, htok, ← (h.ids i).1, ← (h.ids i).2] at ho
      simp only [scan_own (h.ids.distinct distinct₀) (List.mem_finRange i), h.fd i] at ho
      refine ⟨(settle { s with idpasswd := b, pArray := pa } sock ip id o).1, ?_, ?_, fun j => ?_, ?_⟩
      · rw [Event.act, loopStep, hmain]
      · apply settle_sameIds
        exact h.ids
      · rw [Desk.event, if_neg hdesk]
        by_cases hfd : d.fd i = -1
        · rw [if_pos hfd] at ho ⊢
          cases ho
          by_cases hj : j = i
          · subst hj
            simp [settle]
          · simp [settle, hj, h.fd j]
        · rw [if_neg hfd] at ho ⊢
          cases ho
          by_cases hj : j = i
          · subst hj
            simp [settle]
          · simp [settle, hj, h.fd j]
      · rw [Desk.event, if_neg hdesk]
        by_cases hfd : d.fd i = -1
        · rw [if_pos hfd] at ho ⊢
          cases ho
          exact congrArg (· + 1) h.clntCnt
        · rw [if_neg hfd] at ho ⊢
          cases ho
          exact h.clntCnt
    · have hfull : mainIter s sock ip (.data (loginText i)) = .ok (s, .socketFull, []) := by
        rw [mainIter, if_pos (not_lt.1 hroom)]
      refine ⟨s, by rw [Event.act, loopStep, hfull], ?_⟩
      rw [Desk.event, if_pos (h.clntCnt ▸ not_lt.1 hroom)]
      exact h

theorem run_like : ∀ (l : List Event) {s : MainState maxClnt} {d : Desk}, Like s d →
    ∃ t, exec loopStep s (l.map Event.act) = some t ∧ Like t (l.foldl Desk.event d)
  | [], s, _, h => ⟨s, rfl, h⟩
  | e :: l, s, _, h => by
    obtain ⟨t, ht, hlike⟩ := step_like h e
    obtain ⟨u, hu, hend⟩ := run_like l hlike
    refine ⟨u, ?_, hend⟩
    rw [List.map_cons, exec, ht]
    exact hu

/-! ## Who is on line -/

/-- How often a client has connected since its thread has last ended: `k` times before the event. -/
def Event.tally (i : Fin maxClnt) (k : Nat) : Event → Nat
  | .login j _ _ => if j = i then k + 1 else k
  | .exit j => if j = i then 0 else k

def since (i : Fin maxClnt) (l : List Event) : Nat := l.foldl (Event.tally i) 0

theorem since_snoc (i : Fin maxClnt) (l : List Event) (e : Event) : since i (l ++ [e]) = e.tally i (since i l) := by
  simp [since]

/-- No login finds the counter at `MAX_CLNT`. -/
def Roomy (l : List Event) : Prop := ∀ l₁ e l₂, l = l₁ ++ e :: l₂ → (desk l₁).clntCnt < maxClnt

theorem online_iff (i : Fin maxClnt) (l : List Event) : Roomy l → ((desk l).fd i ≠ -1 ↔ Odd (since i l)) := by
  induction l using List.reverseRecOn with
  | nil => exact fun _ => iff_of_false (not_not.2 rfl) Nat.not_odd_zero
  | append_singleton l e ih =>
    intro hroom
    have hl : Roomy l := fun l₁ x l₂ h => hroom l₁ x (l₂ ++ [e]) (by rw [h, List.append_assoc, List.cons_append])
    have hcnt : ¬ (desk l).clntCnt ≥ maxClnt := not_le.2 (hroom l e [] rfl)
    have hdesk : desk (l ++ [e]) = (desk l).event e := by simp [desk]
    rw [hdesk, since_snoc]
    cases e with
    | exit j =>
      by_cases hj : j = i
      · subst hj
        simp [Desk.event, Event.tally]
      · simpa [Desk.event, Event.tally, hj, Ne.symm hj] using ih hl
    | login j sock ip =>
      rw [Desk.event, if_neg hcnt, Event.tally]
      by_cases hj : j = i
      · subst hj
        have hflip : Odd (since j l + 1) ↔ (desk l).fd j = -1 := by
          rw [Nat.odd_add_one, ← ih hl, not_not]
        rw [if_pos rfl]
        refine Iff.trans ?_ hflip.symm
        by_cases hfd : (desk l).fd j = -1
        · rw [if_pos hfd]
          exact iff_of_true (by simp) hfd
        · rw [if_neg hfd]
          exact iff_of_false (by simp) hfd
      · rw [if_neg hj]
        refine Iff.trans (not_congr (Eq.congr_left ?_)) (ih hl)
        split <;> simp [Ne.symm hj]

/-- **Who is on line.** Connections and ends of threads, in any order. -/
theorem logins_online (garbage : List Byte) (l : List Event) :
    ∃ s, exec loopStep (loopStart garbage) (l.map Event.act) = some s ∧
    s.clntCnt = (desk l).clntCnt ∧ (Roomy l → ∀ i, (s.clientInfo i).fd ≠ -1 ↔ Odd (since i l)) := by
  have hstart : Like (loopStart garbage) ⟨fun _ => -1, 0⟩ := ⟨fun _ => ⟨rfl, rfl⟩, fun _ => rfl, rfl⟩
  obtain ⟨s, hs, hlike⟩ := run_like l hstart
  refine ⟨s, hs, hlike.clntCnt, fun hroom i => ?_⟩
  rw [hlike.fd i]
  exact online_iff i l hroom

/-- Clients that come in one after the other, each once, with the sockets and addresses they are given. -/
def arrivals (is : List (Fin maxClnt)) (sock : Fin maxClnt → Nat) (ip : Fin maxClnt → List Byte) : List Event :=
  is.map fun i => .login i (sock i) (ip i)

theorem since_arrivals (sock : Fin maxClnt → Nat) (ip : Fin maxClnt → List Byte) (i : Fin maxClnt)
    (is : List (Fin maxClnt)) :
    since i (arrivals is sock ip) = is.count i := by
  induction is using List.reverseRecOn with
  | nil => rfl
  | append_singleton is j ih =>
    rw [arrivals, List.map_append, List.map_singleton, since_snoc, Event.tally, List.count_append, List.count_singleton,
      ← arrivals, ih]
    by_cases hj : j = i
    · simp [hj]
    · simp [hj]

theorem clntCnt_le (l : List Event) : (desk l).clntCnt ≤ l.length := by
  induction l using List.reverseRecOn with
  | nil => exact le_refl 0
  | append_singleton l e ih =>
    have hdesk : desk (l ++ [e]) = (desk l).event e := by simp [desk]
    rw [hdesk, List.length_append, List.length_singleton]
    cases e with
    | exit i => show (desk l).clntCnt - 1 ≤ _; omega
    | login i sock ip =>
      rw [Desk.event]
      split
      · omega
      · split
        · show (desk l).clntCnt + 1 ≤ _; omega
        · show (desk l).clntCnt ≤ _; omega

/-- **The site is complete when its clients have come in**, each once, in any order and among any others. -/
theorem boot_complete (garbage : List Byte) {is : List (Fin maxClnt)} (hnodup : is.Nodup)
    (hall : ∀ i ∈ [slotQt, slotSql, slotStm, slotJet], i ∈ is) (sock : Fin maxClnt → Nat) (ip : Fin maxClnt → List Byte)
    (signed : Bool) (time : List Byte) {long : Nat} (hlong : 32 ≤ long) (mysql : Sql.Mysql)
    (argsort : Classification.Argsort) :
    ∃ s, exec loopStep (loopStart garbage) ((arrivals is sock ip).map Event.act) = some s ∧
      Site.Complete ⟨s.clientInfo, signed, time, long, mysql, argsort⟩ := by
  have hstart : Like (loopStart garbage) ⟨fun _ => -1, 0⟩ := ⟨fun _ => ⟨rfl, rfl⟩, fun _ => rfl, rfl⟩
  obtain ⟨s, hs, hlike⟩ := run_like (arrivals is sock ip) hstart
  have hlen : (arrivals is sock ip).length ≤ maxClnt := by
    rw [arrivals, List.length_map]
    exact hnodup.length_le_card.trans_eq (Fintype.card_fin maxClnt)
  have hroom : Roomy (arrivals is sock ip) := by
    intro l₁ e l₂ hl
    have := clntCnt_le l₁
    rw [hl, List.length_append, List.length_cons] at hlen
    omega
  have honline : ∀ i ∈ [slotQt, slotSql, slotStm, slotJet], (s.clientInfo i).fd ≠ -1 := by
    intro i hi
    rw [hlike.fd i]
    apply (online_iff i _ hroom).2
    rw [since_arrivals, List.count_eq_one_of_mem hnodup (hall i hi)]
    exact odd_one
  exact ⟨s, hs, {
    ids := hlike.ids
    kiosk := honline slotQt (by simp)
    sql := honline slotSql (by simp)
    long := hlong
    stm := honline slotStm (by simp)
    jet := honline slotJet (by simp) }⟩

theorem boot_complete_four : ∃ s, exec loopStep (loopStart [])
      ((arrivals [slotJet, slotStm, slotSql, slotQt] (fun i => i.val + 4) fun _ => bytes "10.0.0.2").map Event.act) =
        some s ∧
    Site.Complete ⟨s.clientInfo, true, [], 64, Sql.mysql₀, Classification.argsort₀⟩ :=
  boot_complete [] (by decide) (by decide) _ _ true [] (by decide) Sql.mysql₀ Classification.argsort₀

end PetVending.Wire
