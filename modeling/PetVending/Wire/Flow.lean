import PetVending.Wire.Net

/-!
# The whole site: what is done and what is in flight

- `answers`: what a desk replies that handles one request after the other;
- `Flow`: what the kiosk has sent to the SQL client are the requests handled and those in flight, in the order of their
  issue; the table is that of the requests handled, and the dialogs are the desk's answers to them, up to what is in
  flight. What it has sent to the machine are the commands carried out and those in flight, and each click on the
  recommendation button is one call on the Jetson or in flight;
- `kiosk_sends`: what an event at the payment side of the kiosk sends;
- `Net.Sound`: the invariant of the site; the steps at the kiosk and at the classifier keep it.
-/

namespace PetVending.Wire

open CStr Server Transition
open Kiosk.Recommend (Widget)

/-! ## A desk -/

/-- What the kiosk asks of the SQL client: to record a cart, or to name two items. -/
inductive Request
  | sale (b : Option (Fin 4)) (ids : List Nat)
  | reco (c : Fin 4)

/-- Its text as it leaves the kiosk. -/
def Request.text : Request → List Byte
  | .sale b ids => (dbMessage (breedWord b) (Kiosk.describe ids)).enc
  | .reco c => (recoMessage c).enc

def Request.row : Request → Option Sql.Row
  | .sale b ids => some (saleRow b ids)
  | .reco _ => none

/-- The text of a recommendation request on `socketSendDataSig`. -/
def Request.asked : Request → Option Kiosk.QString
  | .sale _ _ => none
  | .reco c => some (Kiosk.ascii "[KJD_SQL]DB_RECO@" ++ Kiosk.ascii (Classification.className c))

/-- `[KJD_QT]MOTOR@n`, the echo of a command. -/
def echoMessage (n : Nat) : Message := { motorMessage n with id := kjdQt }

/-- `[KJD_JET]RECO` -/
def triggerMessage : Message := ⟨kjdJet, [.of (bytes "RECO") (List.cons_ne_nil _ _) rfl], List.cons_ne_nil _ _⟩

/-- What the kiosk is told: a breed, two items, or that a command was received. -/
inductive Notice
  | breed (c : Fin 4)
  | items (m : Fin 6 × Fin 6)
  | echo (n : Nat)

/-- Its text as the server relays it. -/
def Notice.text : Notice → List Byte
  | .breed c => ((breedMessage c).sentBy kjdJet).enc
  | .items m => ((dbBreedMessage m.1 m.2).sentBy kjdSql).enc
  | .echo n => ((echoMessage n).sentBy kjdStm).enc

def Notice.answer : Notice → Option (Fin 6 × Fin 6)
  | .breed _ => none
  | .items m => some m
  | .echo _ => none

/-- The replies of a desk that handles the requests one after the other, from the table `T` on. -/
def answers (w : Nat) : List Sql.Row → List Request → List (Fin 6 × Fin 6)
  | _, [] => []
  | T, .sale b ids :: rs => answers w (T ++ [saleRow b ids]) rs
  | T, .reco _ :: rs => Sql.topTwo (Sql.itemCounts w T) :: answers w T rs

theorem answers_append (w : Nat) (rs rs' : List Request) : ∀ T : List Sql.Row,
    answers w T (rs ++ rs') = answers w T rs ++ answers w (T ++ rs.filterMap Request.row) rs' := by
  induction rs with
  | nil => simp [answers]
  | cons r rs ih =>
    intro T
    cases r with
    | sale b ids => simp [answers, ih, Request.row]
    | reco c => simp [answers, ih, List.filterMap_cons, Request.row]

/-- The row of a `DB` message of the kiosk. -/
def sold : Kiosk.Msg → Option Sql.Row
  | .motor _ _ => none
  | .db _ breed flags => some ⟨bytes "KJD_QT", bytes (Kiosk.dbBreed breed), fun k : Fin 6 => (flags.getD k 0 : Nat)⟩

/-- The product of a `MOTOR` message. -/
def dispensed : Kiosk.Msg → Option Nat
  | .motor _ it => some it.productId
  | .db _ _ _ => none

/-- The numbers of two items as a dialog shows them. -/
def shownNumbers (m : Fin 6 × Fin 6) : List Kiosk.QString := [productNumber m.1, productNumber m.2]

/-- What the kiosk has sent to the SQL client was handled or is in flight, and the table is that of the requests
handled. -/
structure Requests (T : List Sql.Row) (s : Net) (handled pending : List Request) : Prop where
  toSql : s.toSql = pending.map Request.text
  sales : (handled ++ pending).filterMap Request.row = s.shop.panel.out.filterMap sold
  asked : (handled ++ pending).filterMap Request.asked = s.shop.widget.sent
  rows : s.shop.rows = T ++ handled.filterMap Request.row

/-- The dialogs are the desk's answers to the requests handled, up to those in flight. -/
structure Notices (e : Site) (T : List Sql.Row) (s : Net) (handled : List Request) (inbox : List Notice) : Prop where
  toKiosk : s.toKiosk = inbox.map Notice.text
  dialogs : s.shop.widget.shown.map (·.numbers) ++ (inbox.filterMap Notice.answer).map shownNumbers =
    (answers e.long T handled).map shownNumbers

/-- What the kiosk has sent to the machine was carried out or is in flight. -/
structure Commands (s : Net) (moved coming : List Nat) : Prop where
  toStm : s.toStm = coming.map fun n => (motorMessage n).enc
  vends : moved ++ coming = s.shop.panel.out.filterMap dispensed
  commands : s.commands = moved.filterMap fun n : Nat => Firmware.inRange n

/-- Each click on the recommendation button was a call on the Jetson, or is in flight. -/
structure Triggers (s : Net) : Prop where
  toJet : s.toJet = List.replicate (s.clicks - s.calls.length) triggerMessage.enc
  calls : ∀ c ∈ s.calls, c = bytes "START"
  le : s.calls.length ≤ s.clicks

/-- What has been done and what is in flight: the requests, the commands, and what the kiosk is told. -/
structure Ledger where
  handled : List Request
  pending : List Request
  moved : List Nat
  coming : List Nat
  inbox : List Notice

variable (e : Site) (T : List Sql.Row) (s : Net)

/-- `l` accounts for everything sent and in flight. -/
structure Flow (l : Ledger) : Prop where
  requests : Requests T s l.handled l.pending
  notices : Notices e T s l.handled l.inbox
  motors : Commands s l.moved l.coming
  triggers : Triggers s

/-! ## What a step does to the ledger -/

theorem filterMap_snoc {α β : Type} (f : α → Option β) (l : List α) (x : α) :
    (l ++ [x]).filterMap f = l.filterMap f ++ (f x).toList := by
  rw [List.filterMap_append, List.filterMap_cons]
  cases f x <;> rfl

section Ledger

variable {e : Site} {T : List Sql.Row} {s t : Net} {handled pending : List Request} {inbox : List Notice}
  {moved coming : List Nat}

theorem Requests.congr (h : Requests T s handled pending) (hsql : t.toSql = s.toSql)
    (hout : t.shop.panel.out.filterMap sold = s.shop.panel.out.filterMap sold)
    (hsent : t.shop.widget.sent = s.shop.widget.sent) (hrows : t.shop.rows = s.shop.rows) :
    Requests T t handled pending :=
  ⟨hsql.trans h.toSql, h.sales.trans hout.symm, h.asked.trans hsent.symm, hrows.trans h.rows⟩

/-- A request is issued. -/
theorem Requests.issue (h : Requests T s handled pending) (r : Request) (hsql : t.toSql = s.toSql ++ [r.text])
    (hout : t.shop.panel.out.filterMap sold = s.shop.panel.out.filterMap sold ++ r.row.toList)
    (hsent : t.shop.widget.sent = s.shop.widget.sent ++ r.asked.toList) (hrows : t.shop.rows = s.shop.rows) :
    Requests T t handled (pending ++ [r]) where
  toSql := by rw [hsql, h.toSql, List.map_append, List.map_singleton]
  sales := by rw [← List.append_assoc, filterMap_snoc, h.sales, hout]
  asked := by rw [← List.append_assoc, filterMap_snoc, h.asked, hsent]
  rows := hrows.trans h.rows

/-- The first request is handled. -/
theorem Requests.handle {r : Request} (h : Requests T s handled (r :: pending))
    (hsql : t.toSql = pending.map Request.text)
    (hout : t.shop.panel.out = s.shop.panel.out) (hsent : t.shop.widget.sent = s.shop.widget.sent)
    (hrows : t.shop.rows = s.shop.rows ++ r.row.toList) : Requests T t (handled ++ [r]) pending where
  toSql := hsql
  sales := by rw [List.append_assoc, hout]; exact h.sales
  asked := by rw [List.append_assoc, hsent]; exact h.asked
  rows := by rw [hrows, h.rows, filterMap_snoc, List.append_assoc]

theorem Notices.congr (h : Notices e T s handled inbox) (hkiosk : t.toKiosk = s.toKiosk)
    (hshown : t.shop.widget.shown = s.shop.widget.shown) : Notices e T t handled inbox :=
  ⟨hkiosk.trans h.toKiosk, hshown ▸ h.dialogs⟩

/-- The kiosk is sent a notice, with what the desk has answered to the requests handled meanwhile. -/
theorem Notices.post (h : Notices e T s handled inbox) (n : Notice) {handled' : List Request}
    (hkiosk : t.toKiosk = s.toKiosk ++ [n.text]) (hshown : t.shop.widget.shown = s.shop.widget.shown)
    (hanswers : answers e.long T handled' = answers e.long T handled ++ n.answer.toList) :
    Notices e T t handled' (inbox ++ [n]) where
  toKiosk := by rw [hkiosk, h.toKiosk, List.map_append, List.map_singleton]
  dialogs := by rw [hshown, filterMap_snoc, hanswers, List.map_append, List.map_append, ← h.dialogs, List.append_assoc]

theorem Commands.congr (h : Commands s moved coming) (hstm : t.toStm = s.toStm)
    (hout : t.shop.panel.out.filterMap dispensed = s.shop.panel.out.filterMap dispensed)
    (hcommands : t.commands = s.commands) : Commands t moved coming :=
  ⟨hstm.trans h.toStm, h.vends.trans hout.symm, hcommands.trans h.commands⟩

theorem Triggers.congr (h : Triggers s) (hjet : t.toJet = s.toJet) (hcalls : t.calls = s.calls)
    (hclicks : t.clicks = s.clicks) : Triggers t := by
  obtain ⟨hjet', hcalls', hle⟩ := h
  rw [← hcalls, ← hclicks] at *
  exact ⟨hjet.trans hjet', hcalls', hle⟩

end Ledger

/-! ## What the kiosk sends -/

/-- The breed on both sides of the kiosk. -/
def breedName : Option (Fin 4) → String
  | none => ""
  | some c => Classification.className c

theorem breedName_texts : ∀ b : Option (Fin 4), bytes (Kiosk.dbBreed (breedName b)) = (breedWord b).text ∧
    Kiosk.Verbatim (breedName b) ∧ asString (Kiosk.ascii (breedName b)) = breedName b := by decide +kernel

theorem sold_db (p : Nat) (b : Option (Fin 4)) (ids : List Nat) :
    sold (.db p (breedName b) (Kiosk.describe ids)) = some (saleRow b ids) := by
  have hflags (k : Fin 6) : (Kiosk.describe ids).getD k 0 = flag ids k := by
    simp [Kiosk.describe, flag, List.getD]
  simp only [sold, (breedName_texts b).1, saleRow, hflags]

/-- The items of a slot that are still to be vended. -/
def todo : Kiosk.Frame → List Kiosk.Item
  | .vend _ todo _ => todo
  | .record _ => []

/-- The products in the cart and those of the open slots are the kiosk's. -/
structure Offered (p : Kiosk.Panel) : Prop where
  cart : ∀ it ∈ p.selectedProducts, it.productId ≤ 9
  frames : ∀ f ∈ p.frames, ∀ it ∈ todo f, it.productId ≤ 9

/-- Between `p` and `q` the kiosk sends nothing, a command for a motor, or the record of a cart, and the breed stays or
is cleared. -/
structure Sends (p q : Kiosk.Panel) : Prop where
  breed : q.breed = p.breed ∨ q.breed = ""
  offered : Offered q
  out : ∃ l, q.out = p.out ++ l ∧ (l = [] ∨ (∃ pay it, l = [.motor pay it] ∧ it.productId ≤ 9) ∨
    ∃ pay ids, l = [.db pay p.breed (Kiosk.describe ids)])

theorem sends_nothing {p q : Kiosk.Panel} (hb : q.breed = p.breed ∨ q.breed = "") (hq : Offered q)
    (ho : q.out = p.out) : Sends p q :=
  ⟨hb, hq, [], by rw [ho, List.append_nil], .inl rfl⟩

theorem sends_vendNext {p r : Kiosk.Panel} (hb : r.breed = p.breed) (ho : r.out = p.out) {pay v : Nat}
    {fs : List Kiosk.Frame} {its : List Kiosk.Item} (hr : Offered { r with frames := .vend pay its v :: fs }) :
    Sends p (r.vendNext pay v fs its) := by
  have hfs : ∀ f ∈ fs, ∀ it ∈ todo f, it.productId ≤ 9 := fun f hf => hr.frames f (List.mem_cons_of_mem _ hf)
  have hits : ∀ it ∈ its, it.productId ≤ 9 := hr.frames _ List.mem_cons_self
  cases its with
  | cons it its =>
    refine ⟨.inl hb, ⟨hr.cart, ?_⟩, _, congrArg (· ++ _) ho, .inr (.inl ⟨pay, it, rfl, hits it List.mem_cons_self⟩)⟩
    exact List.forall_mem_cons.2 ⟨fun x hx => hits x (List.mem_cons_of_mem _ hx), hfs⟩
  | nil =>
    refine ⟨.inl hb, ⟨hr.cart, ?_⟩, _, congrArg (· ++ _) ho,
      .inr (.inr ⟨pay, r.selectedProducts.map (·.productId), ?_⟩)⟩
    · exact List.forall_mem_cons.2 ⟨nofun, hfs⟩
    · rw [Kiosk.itemFlags_eq, hb]

/-- **What an event at the payment side sends.** -/
theorem kiosk_sends {p q : Kiosk.Panel} {a : Kiosk.Act} (hp : Offered p) (ha : ∀ b, a ≠ .breed b)
    (hst : Kiosk.step p a = some q) : Sends p q := by
  have hempty {r : Kiosk.Panel} (h : r.selectedProducts = []) (hf : ∀ f ∈ r.frames, f ∈ p.frames) : Offered r :=
    ⟨by rw [h]; nofun, fun f hf' => hp.frames f (hf f hf')⟩
  cases a with
  | product button =>
    obtain ⟨-, hq⟩ := Option.ite_none_left_eq_some.1 hst
    cases hq
    refine sends_nothing (.inl rfl) ⟨?_, hp.frames⟩ rfl
    exact List.forall_mem_append.2 ⟨hp.cart, List.forall_mem_singleton.2 button.isLt⟩
  | clr =>
    obtain ⟨-, hq⟩ := Option.ite_none_left_eq_some.1 hst
    cases hq
    exact sends_nothing (.inl rfl) (hempty rfl fun _ => id) rfl
  | pay =>
    obtain ⟨-, hq⟩ := Option.ite_none_left_eq_some.1 hst
    cases hq
    rw [Kiosk.Panel.onPbPaymentClicked]
    split
    · exact sends_nothing (.inr rfl) (hempty rfl fun _ => id) rfl
    · apply sends_vendNext
      · rfl
      · rfl
      · exact ⟨hp.cart, List.forall_mem_cons.2 ⟨hp.cart, hp.frames⟩⟩
  | breed b => exact absurd rfl (ha b)
  | ret =>
    obtain ⟨-, hq⟩ := Option.ite_none_left_eq_some.1 hst
    split at hq
    · cases hq
    · rename_i pay its v fs hf
      split at hq <;> cases hq
      · exact sends_nothing (.inl rfl) ⟨hp.cart, hp.frames⟩ rfl
      · exact sends_vendNext rfl rfl ⟨hp.cart, hf ▸ hp.frames⟩
    · rename_i pay fs hf
      cases hq
      exact sends_nothing (.inr rfl) (hempty rfl fun f hm => hf ▸ List.mem_cons_of_mem _ hm) rfl

/-! ## The invariant -/

variable (l : Ledger)

/-- `breed_msg` has its NUL, the breed is a class or none on both sides of the kiosk, the handler and the bridge are
between two lines, and the ledger accounts for everything. -/
structure Net.Sound : Prop where
  breedMsg : s.shop.breedMsg.buf[18]? = some 0
  breed : ∃ b, s.shop.panel.breed = breedName b ∧ s.shop.widget.breed = Kiosk.ascii (breedName b)
  offered : Offered s.shop.panel
  rx : s.rx.i = 0
  bridge : s.bridge.msg = [] ∧ s.bridge.server = .data ∧ s.bridge.ended = none
  flow : Flow e T s l
  coming : ∀ n ∈ l.coming, n ≤ 9
/-! ## Steps at the kiosk and at the classifier -/

section Steps

variable {e : Site} {T : List Sql.Row} {s t : Net} {l : Ledger}

theorem sound_start (e : Site) (T : List Sql.Row) : (Net.start T).Sound e T ⟨[], [], [], [], []⟩ where
  breedMsg := shopStart_open.breedMsg
  breed := ⟨none, rfl, rfl⟩
  offered := ⟨nofun, nofun⟩
  rx := rfl
  bridge := ⟨rfl, rfl, rfl⟩
  flow := ⟨⟨rfl, rfl, rfl, (List.append_nil T).symm⟩, ⟨rfl, rfl⟩, ⟨rfl, rfl, rfl⟩, ⟨rfl, nofun, le_refl 0⟩⟩
  coming := nofun

theorem step_kiosk {a : Kiosk.Act} (hst : Net.step e s (.kiosk a) = some t) :
    (∀ b, a ≠ .breed b) ∧ s.clicked a = some t := by
  cases a with
  | breed b => cases hst
  | _ => exact ⟨by simp, hst⟩

/-- **An event at the payment side.** -/
theorem sound_kiosk {a : Kiosk.Act} (h : s.Sound e T l) (hst : Net.step e s (.kiosk a) = some t) :
    ∃ l', t.Sound e T l' := by
  obtain ⟨ha, hst⟩ := step_kiosk hst
  obtain ⟨q, hq, hst⟩ := Option.bind_eq_some_iff.1 hst
  obtain ⟨w, hw, hst⟩ := Option.bind_eq_some_iff.1 hst
  cases hst
  obtain ⟨b, hp, hwb⟩ := h.breed
  obtain ⟨hreq, hnotices, hmotors, htriggers⟩ := h.flow
  obtain ⟨hbreed, hoffered, sent, hout, hl⟩ := kiosk_sends h.offered ha hq
  -- the widget sends and shows nothing, and its breed goes with the panel's
  have hwidget : w.sent = s.shop.widget.sent ∧ w.shown = s.shop.widget.shown ∧
      ∃ b', q.breed = breedName b' ∧ w.breed = Kiosk.ascii (breedName b') := by
    unfold Net.share at hw
    split at hw
    · rename_i hempty
      cases hw
      exact ⟨rfl, rfl, none, hempty, rfl⟩
    · rename_i hne
      cases hw
      exact ⟨rfl, rfl, b, (hbreed.resolve_right hne).trans hp, hwb⟩
  obtain ⟨hsent, hshown, hb'⟩ := hwidget
  have hdrop : q.out.drop s.shop.panel.out.length = sent := by rw [hout, List.drop_left]
  rw [hdrop]
  rcases hl with rfl | ⟨pay, it, rfl, hit⟩ | ⟨pay, ids, rfl⟩
  · have hsame : q.out = s.shop.panel.out := by rw [hout, List.append_nil]
    exact ⟨l, h.breedMsg, hb', hoffered, h.rx, h.bridge,
      ⟨hreq.congr (List.append_nil _) (congrArg _ hsame) hsent rfl, hnotices.congr rfl hshown,
        hmotors.congr (List.append_nil _) (congrArg _ hsame) rfl, htriggers.congr rfl rfl rfl⟩, h.coming⟩
  · refine ⟨{ l with coming := l.coming ++ [it.productId] }, h.breedMsg, hb', hoffered, h.rx, h.bridge,
      ⟨hreq.congr (List.append_nil _) ?_ hsent rfl, hnotices.congr rfl hshown, ⟨?_, ?_, hmotors.commands⟩,
        htriggers.congr rfl rfl rfl⟩, ?_⟩
    · rw [hout, filterMap_snoc, sold, Option.toList_none, List.append_nil]
    · rw [hmotors.toStm, List.map_append, List.map_singleton, ← text_motor pay it]
      rfl
    · rw [← List.append_assoc, hmotors.vends, hout, filterMap_snoc]
      rfl
    · exact List.forall_mem_append.2 ⟨h.coming, List.forall_mem_singleton.2 hit⟩
  · rw [hp] at hout ⊢
    obtain ⟨hword, hverbatim, -⟩ := breedName_texts b
    have htext := text_db pay hword hverbatim (Kiosk.describe_length ids)
    refine ⟨{ l with pending := l.pending ++ [.sale b ids] }, h.breedMsg, hb', hoffered, h.rx, h.bridge,
      ⟨hreq.issue (.sale b ids) ?_ ?_ ?_ rfl, hnotices.congr rfl hshown, hmotors.congr (List.append_nil _) ?_ rfl,
        htriggers.congr rfl rfl rfl⟩, h.coming⟩
    · exact congrArg (fun x => s.toSql ++ [x]) htext
    · rw [hout, filterMap_snoc, sold_db, Request.row]
    · rw [hsent]
      exact (List.append_nil _).symm
    · rw [hout, filterMap_snoc, dispensed, Option.toList_none, List.append_nil]

/-- **A click on the recommendation button.** -/
theorem sound_recommended (h : s.Sound e T l) : s.recommended.Sound e T l := by
  obtain ⟨hreq, hnotices, hmotors, hjet, hcalls, hle⟩ := h.flow
  have htext : localBytes (Kiosk.ascii "[KJD_JET]RECO") = triggerMessage.enc := by decide
  refine ⟨h.breedMsg, h.breed, h.offered, h.rx, h.bridge, ⟨hreq.congr rfl rfl rfl rfl, hnotices.congr rfl rfl,
    hmotors.congr rfl rfl rfl, ?_, hcalls, Nat.le_succ_of_le hle⟩, h.coming⟩
  simp only [Net.recommended, htext, hjet, Nat.succ_sub hle, Nat.succ_eq_add_one, List.replicate_succ']

/-- **An event loop of the recommendations returns.** -/
theorem sound_returned (h : s.Sound e T l) (hst : Net.step e s .returned = some t) : t.Sound e T l := by
  obtain ⟨u, hu, rfl⟩ := Option.map_eq_some_iff.1 hst
  obtain ⟨w, hw, rfl⟩ := Option.map_eq_some_iff.1 hu
  have hwidget : w.sent = s.shop.widget.sent ∧ w.shown = s.shop.widget.shown ∧ w.breed = s.shop.widget.breed := by
    simp only [Kiosk.Recommend.step] at hw
    split at hw <;> cases hw <;> exact ⟨rfl, rfl, rfl⟩
  obtain ⟨hsent, hshown, hbreed⟩ := hwidget
  obtain ⟨b, hp, hwb⟩ := h.breed
  obtain ⟨hreq, hnotices, hmotors, htriggers⟩ := h.flow
  exact ⟨h.breedMsg, ⟨b, hp, hbreed.trans hwb⟩, h.offered, h.rx, h.bridge, ⟨hreq.congr rfl rfl hsent rfl,
    hnotices.congr rfl hshown, hmotors.congr rfl rfl rfl, htriggers.congr rfl rfl rfl⟩, h.coming⟩

/-- **A breed is forwarded**, whatever the kiosk is doing. -/
theorem forwarded_eq (he : e.Ready) (h : s.Sound e T l) (c : Fin 4) :
    ∃ t, Net.step e s (.classified c) = some t ∧ t.Sound e T { l with inbox := l.inbox ++ [.breed c] } := by
  obtain ⟨hwritten, hbuf⟩ := breedMsg_store h.breedMsg c
  let v : Shop := { s.shop with breedMsg := s.shop.breedMsg.store (classified c) }
  obtain ⟨pa, hop⟩ := hop_enc he v (m := breedMessage c) (f := kjdJet) (i := slotJet) (j := slotQt) rfl rfl he.kiosk
    (show bytes "KJD_QT" ∉ special by decide) (messages_fit.1 c).1
  obtain ⟨hreq, hnotices, hmotors, htriggers⟩ := h.flow
  let u : Shop := { v with pArray := Function.update v.pArray slotJet pa }
  refine ⟨{ s with shop := u, toKiosk := s.toKiosk ++ [((breedMessage c).sentBy kjdJet).enc] }, ?_, hbuf, h.breed,
    h.offered, h.rx, h.bridge, ⟨hreq.congr rfl rfl rfl rfl, ?_, hmotors.congr rfl rfl rfl,
      htriggers.congr rfl rfl rfl⟩, h.coming⟩
  · simp only [Net.step, Net.forwarded, hwritten, Option.bind_eq_bind, Option.bind_some]
    rw [hop]
    rfl
  · exact hnotices.post (.breed c) rfl rfl (List.append_nil _).symm

end Steps

end PetVending.Wire
