import PetVending.Wire.Flow

/-!
# The whole site: deliveries, and where they end

- `arrives_eq`, `sql_eq`, `stm_eq`, `jet_eq`: what is in flight to a client can be delivered, keeps the invariant, and
  lowers `Net.load`;
- **`net_flow`**: the ledger accounts for everything in every run, so no sale, no command and no request is lost or
  comes twice, whatever slots are open;
- **`net_settles`**: once the kiosk is left alone, a bounded number of deliveries brings all that is in flight home, in
  any order.
-/

namespace PetVending.Wire

open CStr Server Transition
open Kiosk.Recommend (Widget)

/-! ## What is due -/

/-- The deliveries a message to the kiosk leads to: a breed is a request, and a request a reply. -/
def Notice.load : Notice → Nat
  | .breed _ => 3
  | .items _ => 1
  | .echo _ => 1

/-- The deliveries that are due when the kiosk is left alone. -/
def Net.load (s : Net) (l : Ledger) : Nat :=
  2 * (l.pending.length + l.coming.length) + (l.inbox.map Notice.load).sum + s.toJet.length

/-- The arrival of what is in flight. -/
def Net.Act.delivers : Net.Act → Bool
  | .arrives | .sql | .stm | .jet => true
  | .kiosk _ | .recommend | .returned | .classified _ => false

/-- From `s` to `t` something in flight is delivered, and nothing is clicked. -/
structure Delivered (s : Net) (l : Ledger) (t : Net) (l' : Ledger) : Prop where
  out : t.shop.panel.out = s.shop.panel.out
  fault : t.shop.panel.fault = s.shop.panel.fault
  clicks : t.clicks = s.clicks
  load : t.load l' < s.load l

/-- Nothing is in flight: the table has the sales of the kiosk, the machine was handed its commands, each click on the
recommendation button was a call, and each request has its dialog. -/
structure Net.Settled (T : List Sql.Row) (s : Net) : Prop where
  toSql : s.toSql = []
  toStm : s.toStm = []
  toJet : s.toJet = []
  toKiosk : s.toKiosk = []
  rows : s.shop.rows = T ++ s.shop.panel.out.filterMap sold
  commands : s.commands = (s.shop.panel.out.filterMap dispensed).filterMap fun n : Nat => Firmware.inRange n
  calls : s.calls = List.replicate s.clicks (bytes "START")
  dialogs : s.shop.widget.shown.length = s.shop.widget.sent.length

/-! ## A command on its way -/

section Rounds

variable {n : Nat} (hn : n ≤ 9)

include hn

theorem echo_fits : (echoMessage n).enc.length < Bluetooth.bufSize ∧ (motorMessage n).enc.length ≤ Server.bufSize - 1 ∧
    ((motorMessage n).sentBy kjdQt).line.length ≤ Firmware.cmdSize - 1 ∧
    Firmware.echo (bytes "KJD_QT") (bytes "MOTOR") (digits n) = (echoMessage n).enc := by
  have hall : ∀ n < 10, (echoMessage n).enc.length < Bluetooth.bufSize ∧
      (motorMessage n).enc.length ≤ Server.bufSize - 1 ∧
      ((motorMessage n).sentBy kjdQt).line.length ≤ Firmware.cmdSize - 1 ∧
      Firmware.echo (bytes "KJD_QT") (bytes "MOTOR") (digits n) = (echoMessage n).enc := by decide +kernel
  exact hall n (Nat.lt_succ_of_le hn)

/-- **A command of the kiosk** at the handler of the machine. -/
theorem motor_round {e : Site} (he : e.Complete) (s : Shop) (rx : Firmware.Rx) (hi : rx.i = 0) :
    ∃ pa rx', s.hop e slotQt slotStm (motorMessage n).enc =
        some ({ s with pArray := pa }, ((motorMessage n).sentBy kjdQt).enc) ∧
      Firmware.rxBytes rx (Firmware.recvMsg ((motorMessage n).sentBy kjdQt).enc) =
        .ok (rx', [⟨Firmware.inRange n, some (echoMessage n).enc⟩]) ∧ rx'.i = 0 := by
  obtain ⟨-, hfit, hline, hecho⟩ := echo_fits hn
  obtain ⟨pa, hop⟩ := hop_enc he.toReady s (m := motorMessage n) (f := kjdQt) (i := slotQt) (j := slotStm) rfl rfl
    he.stm (show bytes "KJD_STM" ∉ special by decide) hfit
  obtain ⟨rx', hi', hrx, hsplit⟩ := firmwareGets_enc ((motorMessage n).sentBy kjdQt) (show 2 ≤ 4 by decide) hline rx hi
  have hargs : Firmware.splitCmd rx'.btData =
      some (bytes "KJD_QT") :: some (bytes "MOTOR") :: some (digits n) :: [none, none] := hsplit
  have hcmd : (Firmware.echo (bytes "KJD_QT") (bytes "MOTOR") (digits n)).length < Firmware.cmdSize := by
    rw [Firmware.echo_fits_iff]
    have hdigits : (digits n).length ≤ 1 := (digits_length_le Nat.one_pos).2 (by omega)
    have hlen : (bytes "KJD_QT").length = 6 ∧ (bytes "MOTOR").length = 5 := ⟨rfl, rfl⟩
    omega
  rw [Firmware.bluetoothEvent_motor hargs hcmd, hecho, atoi_digits, toInt_of_lt (le_refl 32) (by omega)] at hrx
  exact ⟨_, rx', hop, hrx, hi'⟩

/-- **Its echo** on the bridge. -/
theorem bridge_round {b : Bluetooth.Bridge} (hm : b.msg = []) (hs : b.server = .data) (he : b.ended = none) :
    ∃ b', Bluetooth.step b (.read (.data (echoMessage n).enc) true) = some b' ∧
      b'.writes = b.writes ++ [(echoMessage n).enc] ∧ b'.msg = [] ∧ b'.server = .data ∧ b'.ended = none := by
  obtain ⟨hlen, -⟩ := echo_fits hn
  have hnul : 0 ∉ (echoMessage n).enc := fun h => Message.enc_ne_zero h rfl
  have hne : (echoMessage n).enc ≠ [] := by simp [Message.enc]
  have hlast : (echoMessage n).enc.getLast? = some 10 := by simp [Message.enc]
  have hstr : strAt ((echoMessage n).enc ++ [0]) 0 = (echoMessage n).enc :=
    strAt_nul [] fun c hc => Message.enc_ne_zero hc
  have hread : (echoMessage n).enc ≠ [] ∧ (echoMessage n).enc.length ≤ Bluetooth.bufSize - ([] : List Byte).length ∧
      0 ∉ (echoMessage n).enc := ⟨hne, hlen.le, hnul⟩
  let b' : Bluetooth.Bridge := { b with
    msg := []
    received := b.received ++ (echoMessage n).enc
    writes := b.writes ++ [(echoMessage n).enc] }
  refine ⟨b', ?_, rfl, rfl, hs, he⟩
  rw [Bluetooth.step, if_neg (not_not.2 he)]
  simp only [Bluetooth.Bridge.onRead, if_pos hread, Bluetooth.Bridge.forward, hm, List.nil_append, hlast, if_true,
    if_pos hlen, hs, hstr, and_self, b']

end Rounds

/-- **The echo at the kiosk** is no signal. -/
theorem notified_echo (s : Shop) (n : Nat) : s.notified ((echoMessage n).sentBy kjdStm).enc = some s := by
  have hkind : Kiosk.kinds (Kiosk.read (bytes "MOTOR")) = [] := by decide
  have hsignals : Kiosk.socketRecvUpdateSlot (Kiosk.fromUtf8 ((echoMessage n).sentBy kjdStm).enc) = some [] :=
    signals_enc (m := (echoMessage n).sentBy kjdStm) hkind
  simp [Shop.notified, hsignals, exec]

/-- **A trigger** at the Jetson client. -/
theorem trigger_round {e : Site} (he : e.Complete) (s : Shop) : ∃ pa text, s.hop e slotQt slotJet triggerMessage.enc =
    some ({ s with pArray := pa }, text) ∧ Jetson.recvMsg [text] = [bytes "START"] := by
  obtain ⟨pa, hop⟩ := hop_enc he.toReady s (m := triggerMessage) (f := kjdQt) (i := slotQt) (j := slotJet) rfl rfl
    he.jet (show bytes "KJD_JET" ∉ special by decide) (by decide)
  exact ⟨_, _, hop, by decide⟩

/-! ## Deliveries -/

section Steps

variable {e : Site} {T : List Sql.Row} {s t : Net} {l : Ledger}

/-- An arrival, by what it does to the widget. -/
theorem arrived_eq {text : List Byte} {rest : List (List Byte)} {w : Widget} (htext : s.toKiosk = text :: rest)
    (hn : s.shop.notified text = some { s.shop with widget := w }) (hf : s.shop.panel.fault = false) :
    Net.step e s .arrives = some { s with
      shop := { s.shop with widget := w, panel := { s.shop.panel with breed := asString w.breed } }
      toSql := s.toSql ++ (w.sent.drop s.shop.widget.sent.length).map localBytes
      toKiosk := rest } := by
  have hset : Kiosk.step s.shop.panel (.breed (asString w.breed)) =
      some { s.shop.panel with breed := asString w.breed } := by
    simp [Kiosk.step, hf]
  simp only [Net.step, htext, Net.arrived, hn, Option.bind_eq_bind, Option.bind_some, hset]
  rfl

/-- **A text in flight to the kiosk arrives**, unless the kiosk has gone on over a changed list. -/
theorem arrives_eq (h : s.Sound e T l) (hne : s.toKiosk ≠ []) (hf : s.shop.panel.fault = false) :
    ∃ t l', Net.step e s .arrives = some t ∧ t.Sound e T l' ∧ Delivered s l t l' := by
  obtain ⟨b, hp, hwb⟩ := h.breed
  obtain ⟨hreq, ⟨hkiosk, hdialogs⟩, hmotors, htriggers⟩ := h.flow
  have hcoming := h.coming
  obtain ⟨handled, pending, moved, coming, inbox⟩ := l
  have hname : asString s.shop.widget.breed = breedName b := by rw [hwb, (breedName_texts b).2.2]
  have hoffered (b : String) : Offered { s.shop.panel with breed := b } := ⟨h.offered.cart, h.offered.frames⟩
  have hnone : s.toSql ++ (s.shop.widget.sent.drop s.shop.widget.sent.length).map localBytes = s.toSql := by
    rw [List.drop_length, List.map_nil, List.append_nil]
  match inbox, hkiosk, hdialogs with
  | [], hkiosk, _ => exact absurd hkiosk hne
  | .breed c :: inbox, hkiosk, hdialogs =>
    refine ⟨_, ⟨handled, pending ++ [.reco c], moved, coming, inbox⟩, arrived_eq hkiosk (notified_breed s.shop c) hf,
      ⟨h.breedMsg, ⟨some c, asString_className c, rfl⟩, hoffered _, h.rx, h.bridge, ⟨?_, ⟨rfl, hdialogs⟩,
        hmotors.congr rfl rfl rfl, htriggers.congr rfl rfl rfl⟩, hcoming⟩, ⟨rfl, rfl, rfl, ?_⟩⟩
    · let breed := Kiosk.ascii (Classification.className c)
      have hreco : (asked s.shop.widget breed).sent.drop s.shop.widget.sent.length =
          [Kiosk.ascii "[KJD_SQL]DB_RECO@" ++ breed] := List.drop_left
      apply hreq.issue (.reco c)
      · simp only [breed, hreco, List.map_singleton, localBytes_reco, Request.text]
      · exact (List.append_nil _).symm
      · rfl
      · rfl
    · simp [Net.load, Notice.load]
      omega
  | .items m :: inbox, hkiosk, hdialogs =>
    refine ⟨_, ⟨handled, pending, moved, coming, inbox⟩, arrived_eq hkiosk (notified_dbBreed s.shop m) hf,
      ⟨h.breedMsg, ⟨b, hname, hwb⟩, hoffered _, h.rx, h.bridge, ⟨hreq.congr hnone rfl rfl rfl, ⟨rfl, ?_⟩,
        hmotors.congr rfl rfl rfl, htriggers.congr rfl rfl rfl⟩, hcoming⟩, ⟨rfl, rfl, rfl, ?_⟩⟩
    · simp only [List.filterMap_cons, Notice.answer, List.map_cons] at hdialogs
      simp only [Widget.displayRecommendationDialog, List.map_append, List.map_singleton, List.append_assoc,
        List.singleton_append]
      exact hdialogs
    · simp [Net.load, Notice.load]
  | .echo n :: inbox, hkiosk, hdialogs =>
    refine ⟨_, ⟨handled, pending, moved, coming, inbox⟩, arrived_eq hkiosk (notified_echo s.shop n) hf,
      ⟨h.breedMsg, ⟨b, hname, hwb⟩, hoffered _, h.rx, h.bridge, ⟨hreq.congr hnone rfl rfl rfl, ⟨rfl, hdialogs⟩,
        hmotors.congr rfl rfl rfl, htriggers.congr rfl rfl rfl⟩, hcoming⟩, ⟨rfl, rfl, rfl, ?_⟩⟩
    simp [Net.load, Notice.load]

/-- **A text in flight to the SQL client is served**: a record goes to the table, a request is answered from it. -/
theorem sql_eq (he : e.Ready) (h : s.Sound e T l) (hne : s.toSql ≠ []) :
    ∃ t l', Net.step e s .sql = some t ∧ t.Sound e T l' ∧ Delivered s l t l' := by
  obtain ⟨hreq, hnotices, hmotors, htriggers⟩ := h.flow
  have hcoming := h.coming
  obtain ⟨handled, pending, moved, coming, inbox⟩ := l
  match pending, hreq with
  | [], hreq => exact absurd hreq.toSql hne
  | .sale b ids :: pending, hreq =>
    have htext : s.toSql = (dbMessage (breedWord b) (Kiosk.describe ids)).enc :: pending.map Request.text := hreq.toSql
    obtain ⟨pa, sa, cmd, hop, hanswer, hcmd, hrow⟩ := sale_round he s.shop b ids
    let u : Shop := { s.shop with pArray := pa, sqlArray := sa, rows := s.shop.rows ++ [saleRow b ids] }
    refine ⟨{ s with shop := u, toSql := pending.map Request.text },
      ⟨handled ++ [.sale b ids], pending, moved, coming, inbox⟩, ?_, ⟨h.breedMsg, h.breed, h.offered, h.rx, h.bridge,
        ⟨?_, ⟨hnotices.toKiosk, ?_⟩, hmotors.congr rfl rfl rfl, htriggers.congr rfl rfl rfl⟩, hcoming⟩,
      ⟨rfl, rfl, rfl, ?_⟩⟩
    · simp only [Net.step, htext, Net.served, hop, hanswer, Option.bind_eq_bind, Option.bind_some, hcmd, if_true, hrow,
        u]
    · exact hreq.handle rfl rfl rfl rfl
    · rw [answers_append, answers, answers, List.append_nil]
      exact hnotices.dialogs
    · simp [Net.load]
  | .reco c :: pending, hreq =>
    have htext : s.toSql = (recoMessage c).enc :: pending.map Request.text := hreq.toSql
    obtain ⟨pa, sa, pa', hop, hanswer, hback⟩ := reco_round he s.shop c
    let m := Sql.topTwo (Sql.itemCounts e.long s.shop.rows)
    have hanswers : answers e.long T (handled ++ [.reco c]) = answers e.long T handled ++ [m] := by
      rw [answers_append, ← hreq.rows]
      rfl
    refine ⟨{ s with
        shop := { s.shop with pArray := pa', sqlArray := sa }
        toSql := pending.map Request.text
        toKiosk := s.toKiosk ++ [((dbBreedMessage m.1 m.2).sentBy kjdSql).enc] },
      ⟨handled ++ [.reco c], pending, moved, coming, inbox ++ [.items m]⟩, ?_, ⟨h.breedMsg, h.breed, h.offered, h.rx,
        h.bridge, ⟨?_, ?_, hmotors.congr rfl rfl rfl, htriggers.congr rfl rfl rfl⟩, hcoming⟩, ⟨rfl, rfl, rfl, ?_⟩⟩
    · simp only [Net.step, htext, Net.served, hop, hanswer, hback, Option.bind_eq_bind, Option.bind_some]
      rfl
    · exact hreq.handle rfl rfl rfl (List.append_nil _).symm
    · exact hnotices.post (.items m) rfl rfl hanswers
    · simp [Net.load, Notice.load]
      omega

/-- **A command in flight to the machine is carried out**, and its echo sent. -/
theorem stm_eq (he : e.Complete) (h : s.Sound e T l) (hne : s.toStm ≠ []) :
    ∃ t l', Net.step e s .stm = some t ∧ t.Sound e T l' ∧ Delivered s l t l' := by
  obtain ⟨hreq, hnotices, ⟨hstm, hvends, hcommands⟩, htriggers⟩ := h.flow
  have hcoming := h.coming
  obtain ⟨handled, pending, moved, coming, inbox⟩ := l
  match coming, hstm, hvends, hcoming with
  | [], hstm, _, _ => exact absurd hstm hne
  | n :: coming, hstm, hvends, hcoming =>
    have htext : s.toStm = (motorMessage n).enc :: coming.map fun n => (motorMessage n).enc := hstm
    obtain ⟨hn, hcoming⟩ := List.forall_mem_cons.1 hcoming
    obtain ⟨pa, rx, hop, hrx, hi⟩ := motor_round hn he s.shop s.rx h.rx
    obtain ⟨b, hstep, hwrites, hmsg, hserver, hended⟩ := bridge_round hn h.bridge.1 h.bridge.2.1 h.bridge.2.2
    obtain ⟨pa', hback⟩ := hop_enc he.toReady { s.shop with pArray := pa } (m := echoMessage n) (f := kjdStm)
      (i := slotStm) (j := slotQt) rfl rfl he.kiosk (show bytes "KJD_QT" ∉ special by decide)
      (Nat.le_pred_of_lt (echo_fits hn).1)
    have hevent : only [(⟨Firmware.inRange n, some (echoMessage n).enc⟩ : Firmware.Event)] =
        some ⟨Firmware.inRange n, some (echoMessage n).enc⟩ := rfl
    have hline : only (b.writes.drop s.bridge.writes.length) = some (echoMessage n).enc := by
      rw [hwrites, List.drop_left]
      rfl
    refine ⟨{ s with
        shop := { s.shop with pArray := Function.update pa slotStm pa' }
        rx := rx
        bridge := b
        toStm := coming.map fun n => (motorMessage n).enc
        toKiosk := s.toKiosk ++ [((echoMessage n).sentBy kjdStm).enc]
        commands := s.commands ++ (Firmware.inRange n).toList },
      ⟨handled, pending, moved ++ [n], coming, inbox ++ [.echo n]⟩, ?_,
      ⟨h.breedMsg, h.breed, h.offered, hi, ⟨hmsg, hserver, hended⟩, ⟨hreq.congr rfl rfl rfl rfl, ?_, ⟨rfl, ?_, ?_⟩,
        htriggers.congr rfl rfl rfl⟩, hcoming⟩, ⟨rfl, rfl, rfl, ?_⟩⟩
    · simp only [Net.step, htext, Net.vended, hop, hrx, Except.toOption, hevent, hstep, hline, hback,
        Option.bind_eq_bind, Option.bind_some]
      rfl
    · exact hnotices.post (.echo n) rfl rfl (List.append_nil _).symm
    · rw [List.append_assoc]
      exact hvends
    · rw [filterMap_snoc, hcommands]
    · simp [Net.load, Notice.load]
      omega

/-- **A trigger in flight is a call on the Jetson.** -/
theorem jet_eq (he : e.Complete) (h : s.Sound e T l) (hne : s.toJet ≠ []) :
    ∃ t, Net.step e s .jet = some t ∧ t.Sound e T l ∧ Delivered s l t l := by
  obtain ⟨hreq, hnotices, hmotors, ⟨hjet, hcalls, hle⟩⟩ := h.flow
  have hlt : 0 < s.clicks - s.calls.length := by
    apply Nat.pos_of_ne_zero
    intro hzero
    exact hne (by rw [hjet, hzero, List.replicate_zero])
  let rest := List.replicate (s.clicks - s.calls.length - 1) triggerMessage.enc
  have htext : s.toJet = triggerMessage.enc :: rest := by
    rw [hjet, ← List.replicate_succ, Nat.sub_add_cancel hlt]
  obtain ⟨pa, text, hop, hcall⟩ := trigger_round he s.shop
  refine ⟨{ s with
      shop := { s.shop with pArray := pa }
      toJet := rest
      calls := s.calls ++ [bytes "START"] }, ?_,
    ⟨h.breedMsg, h.breed, h.offered, h.rx, h.bridge, ⟨hreq.congr rfl rfl rfl rfl, hnotices.congr rfl rfl,
      hmotors.congr rfl rfl rfl, ⟨?_, ?_, ?_⟩⟩, h.coming⟩, ⟨rfl, rfl, rfl, ?_⟩⟩
  · simp only [Net.step, htext, Net.triggered, hop, hcall, Option.bind_eq_bind, Option.bind_some]
    rfl
  · simp only [rest, List.length_append, List.length_singleton, Nat.sub_sub]
  · exact List.forall_mem_append.2 ⟨hcalls, List.forall_mem_singleton.2 rfl⟩
  · rw [List.length_append, List.length_singleton]
    exact Nat.succ_le_of_lt (Nat.lt_of_sub_pos hlt)
  · simp [Net.load, htext]

theorem steady_of_arrives (hst : Net.step e s .arrives = some t) : s.shop.panel.fault = false := by
  match htext : s.toKiosk with
  | [] => simp [Net.step, htext] at hst
  | text :: rest =>
    simp only [Net.step, htext] at hst
    obtain ⟨u, hu, hst⟩ := Option.bind_eq_some_iff.1 hst
    obtain ⟨q, hq, -⟩ := Option.bind_eq_some_iff.1 hst
    obtain ⟨signals, -, hu⟩ := Option.bind_eq_some_iff.1 hu
    obtain ⟨w, -, hu⟩ := Option.bind_eq_some_iff.1 hu
    cases hu
    exact Bool.eq_false_iff.2 (Option.ite_none_left_eq_some.1 hq).1

/-- **Every delivery.** -/
theorem delivered_of_step (he : e.Complete) {a : Net.Act} (h : s.Sound e T l) (ha : a.delivers = true)
    (hst : Net.step e s a = some t) : ∃ l', t.Sound e T l' ∧ Delivered s l t l' := by
  have of_eq {u : Net} {l' : Ledger} (hu : Net.step e s a = some u) (hsound : u.Sound e T l' ∧ Delivered s l u l') :
      ∃ l', t.Sound e T l' ∧ Delivered s l t l' := by
    obtain rfl : t = u := Option.some.inj (hst.symm.trans hu)
    exact ⟨l', hsound⟩
  cases a with
  | arrives =>
    have hne : s.toKiosk ≠ [] := fun hnil => by simp [Net.step, hnil] at hst
    obtain ⟨u, l', hu, hsound⟩ := arrives_eq h hne (steady_of_arrives hst)
    exact of_eq hu hsound
  | sql =>
    have hne : s.toSql ≠ [] := fun hnil => by simp [Net.step, hnil] at hst
    obtain ⟨u, l', hu, hsound⟩ := sql_eq he.toReady h hne
    exact of_eq hu hsound
  | stm =>
    have hne : s.toStm ≠ [] := fun hnil => by simp [Net.step, hnil] at hst
    obtain ⟨u, l', hu, hsound⟩ := stm_eq he h hne
    exact of_eq hu hsound
  | jet =>
    have hne : s.toJet ≠ [] := fun hnil => by simp [Net.step, hnil] at hst
    obtain ⟨u, hu, hsound⟩ := jet_eq he h hne
    exact of_eq hu hsound
  | kiosk _ | recommend | returned | classified _ => cases ha

/-- **Every step.** -/
theorem sound_step (he : e.Complete) {a : Net.Act} (h : s.Sound e T l) (hst : Net.step e s a = some t) :
    ∃ l', t.Sound e T l' := by
  cases a with
  | kiosk a => exact sound_kiosk h hst
  | recommend =>
    cases hst
    exact ⟨l, sound_recommended h⟩
  | returned => exact ⟨l, sound_returned h hst⟩
  | classified c =>
    obtain ⟨u, hu, hsound⟩ := forwarded_eq he.toReady h c
    obtain rfl : t = u := Option.some.inj (hst.symm.trans hu)
    exact ⟨_, hsound⟩
  | arrives | sql | stm | jet =>
    obtain ⟨l', hsound, -⟩ := delivered_of_step he h rfl hst
    exact ⟨l', hsound⟩

/-- Deliveries one after the other. -/
theorem delivered_of_exec (he : e.Complete) {acts : List Net.Act} : ∀ {s : Net} {l : Ledger}, s.Sound e T l →
    (∀ a ∈ acts, a.delivers = true) → exec (Net.step e) s acts = some t →
    ∃ l', t.Sound e T l' ∧ t.shop.panel.out = s.shop.panel.out ∧ t.shop.panel.fault = s.shop.panel.fault ∧
      t.clicks = s.clicks ∧ acts.length + t.load l' ≤ s.load l := by
  induction acts with
  | nil =>
    intro s l h _ ht
    cases ht
    exact ⟨l, h, rfl, rfl, rfl, (Nat.zero_add _).le⟩
  | cons a acts ih =>
    intro s l h hacts ht
    obtain ⟨ha, hacts⟩ := List.forall_mem_cons.1 hacts
    obtain ⟨u, hu, ht⟩ := Option.bind_eq_some_iff.1 ht
    obtain ⟨k, hsound, hdel⟩ := delivered_of_step he h ha hu
    obtain ⟨l', hl', hout, hfault, hclicks, hload⟩ := ih hsound hacts ht
    refine ⟨l', hl', hout.trans hdel.out, hfault.trans hdel.fault, hclicks.trans hdel.clicks, ?_⟩
    have := hdel.load
    rw [List.length_cons]
    omega

theorem load_le (h : Flow e T s l) :
    s.load l ≤ 3 * (s.toSql.length + s.toStm.length + s.toJet.length + s.toKiosk.length) := by
  have hinbox : ∀ inbox : List Notice, (inbox.map Notice.load).sum ≤ 3 * inbox.length := by
    intro inbox
    induction inbox with
    | nil => exact le_refl 0
    | cons n inbox ih =>
      have hn : n.load ≤ 3 := by cases n <;> simp [Notice.load]
      rw [List.map_cons, List.sum_cons, List.length_cons]
      omega
  rw [h.requests.toSql, h.notices.toKiosk, h.motors.toStm, List.length_map, List.length_map, List.length_map, Net.load]
  have := hinbox l.inbox
  omega

theorem answers_length (w : Nat) (rs : List Request) : ∀ T : List Sql.Row,
    (answers w T rs).length = (rs.filterMap Request.asked).length := by
  induction rs with
  | nil => exact fun _ => rfl
  | cons r rs ih =>
    intro T
    cases r with
    | sale b ids => exact ih _
    | reco c => exact congrArg (· + 1) (ih T)

/-- **Where no delivery is left, all is done.** -/
theorem settled_of_stuck (he : e.Complete) (h : s.Sound e T l) (hf : s.shop.panel.fault = false)
    (hstuck : ∀ a, a.delivers = true → Net.step e s a = none) : s.Settled T := by
  have hsql : s.toSql = [] := by
    by_contra hne
    obtain ⟨t, -, ht, -⟩ := sql_eq he.toReady h hne
    rw [hstuck .sql rfl] at ht
    cases ht
  have hstm : s.toStm = [] := by
    by_contra hne
    obtain ⟨t, -, ht, -⟩ := stm_eq he h hne
    rw [hstuck .stm rfl] at ht
    cases ht
  have hjet : s.toJet = [] := by
    by_contra hne
    obtain ⟨t, ht, -⟩ := jet_eq he h hne
    rw [hstuck .jet rfl] at ht
    cases ht
  have hkiosk : s.toKiosk = [] := by
    by_contra hne
    obtain ⟨t, -, ht, -⟩ := arrives_eq h hne hf
    rw [hstuck .arrives rfl] at ht
    cases ht
  obtain ⟨hreq, hnotices, hmotors, htriggers⟩ := h.flow
  -- the ledger has nothing in flight either
  have hpending : l.pending = [] := List.map_eq_nil_iff.1 (hreq.toSql.symm.trans hsql)
  have hcoming : l.coming = [] := List.map_eq_nil_iff.1 (hmotors.toStm.symm.trans hstm)
  have hinbox : l.inbox = [] := List.map_eq_nil_iff.1 (hnotices.toKiosk.symm.trans hkiosk)
  have hsales := hreq.sales
  have hasked := hreq.asked
  have hvends := hmotors.vends
  have hdialogs := congrArg List.length hnotices.dialogs
  have hcalls : s.calls.length = s.clicks := by
    have hzero := htriggers.toJet.symm.trans hjet
    rw [List.replicate_eq_nil_iff, Nat.sub_eq_zero_iff_le] at hzero
    exact le_antisymm htriggers.le hzero
  simp only [hpending, hcoming, hinbox, List.append_nil, List.filterMap_nil, List.map_nil]
    at hsales hasked hvends hdialogs
  refine ⟨hsql, hstm, hjet, hkiosk, ?_, ?_, ?_, ?_⟩
  · rw [hreq.rows, hsales]
  · rw [hmotors.commands, hvends]
  · rw [← hcalls]
    exact List.eq_replicate_of_mem htriggers.calls
  · simpa [answers_length, hasked] using hdialogs

end Steps

/-! ## Runs -/

section Runs

variable {e : Site} (he : e.Complete) {T : List Sql.Row} {s : Net} (h : Reach (Net.step e) free (Net.start T) s)

include he h

theorem net_sound : ∃ l, s.Sound e T l :=
  h.inv (I := fun s => ∃ l, s.Sound e T l) ⟨_, sound_start e T⟩ fun _ _ _ ⟨_, hs⟩ _ hst => sound_step he hs hst

/-- **No sale, no request and no command is lost or comes twice**, and every dialog shows what a desk would have
answered. -/
theorem net_flow : ∃ l, Flow e T s l := by
  obtain ⟨l, hs⟩ := net_sound he h
  exact ⟨l, hs.flow⟩

end Runs

/-- All clients are online. -/
def site₁ : Site := ⟨online [slotQt, slotJet, slotSql, slotStm], true, [], 64, Sql.mysql₀, Classification.argsort₀⟩

theorem site₁_complete : site₁.Complete where
  ids := online_sameIds _
  kiosk := by decide
  sql := by decide
  long := by decide
  stm := by decide
  jet := by decide

/-- A cart is paid while the request for `c` is still in flight, and a second breed arrives before the answer. -/
def crossed (button : Fin 9) (c d : Fin 4) : List Net.Act :=
  [.recommend, .kiosk (.product button), .jet, .classified c, .arrives, .kiosk .pay, .kiosk .ret, .classified d,
    .arrives, .stm, .sql, .kiosk .ret, .sql, .arrives, .arrives]

theorem crossed_runs : ∃ s, exec (Net.step site₁) (Net.start []) (crossed 0 2 1) = some s ∧ s.toSql.length = 1 ∧
    s.shop.panel.fault = false := by
  have hrun : (exec (Net.step site₁) (Net.start []) (crossed 0 2 1)).any (fun s => s.toSql.length = 1 ∧
      s.shop.panel.fault = false) = true := by decide +kernel
  obtain ⟨s, hs, h⟩ := (Option.any_eq_true ..).1 hrun
  exact ⟨s, hs, of_decide_eq_true h⟩

theorem net_flow_crossed : ∃ s, exec (Net.step site₁) (Net.start []) (crossed 0 2 1) = some s ∧
    ∃ l, Flow site₁ [] s l := by
  obtain ⟨s, hs, -⟩ := crossed_runs
  exact ⟨s, hs, net_flow site₁_complete (reach_of_exec hs)⟩

/-- **The site settles.** When the kiosk is left alone after any run, what is in flight arrives in at most three
deliveries for each message, in whatever order they come, and then every sale is in the table, every command was carried
out, and every request has its dialog. -/
theorem net_settles {e : Site} (he : e.Complete) {T : List Sql.Row} {s t : Net}
    (h : Reach (Net.step e) free (Net.start T) s) (hf : s.shop.panel.fault = false)
    {acts : List Net.Act} (hacts : ∀ a ∈ acts, a.delivers = true) (ht : exec (Net.step e) s acts = some t) :
    acts.length ≤ 3 * (s.toSql.length + s.toStm.length + s.toJet.length + s.toKiosk.length) ∧
      t.shop.panel.out = s.shop.panel.out ∧ t.clicks = s.clicks ∧
      ((∀ a, a.delivers = true → Net.step e t a = none) → t.Settled T) := by
  obtain ⟨l, hs⟩ := net_sound he h
  obtain ⟨l', hl', hout, hfault, hclicks, hload⟩ := delivered_of_exec he hs hacts ht
  have hle := load_le hs.flow
  exact ⟨by omega, hout, hclicks, settled_of_stuck he hl' (hfault.trans hf)⟩

/-- The second request is answered, and its dialog shown. -/
theorem net_settles_crossed : ∃ s t, exec (Net.step site₁) (Net.start []) (crossed 0 2 1) = some s ∧
    exec (Net.step site₁) s [.sql, .arrives] = some t ∧ t.Settled [] := by
  have hrun : (exec (Net.step site₁) (Net.start []) (crossed 0 2 1)).any (fun s => s.shop.panel.fault = false ∧
      (exec (Net.step site₁) s [.sql, .arrives]).any fun t =>
        t.toSql = [] ∧ t.toStm = [] ∧ t.toJet = [] ∧ t.toKiosk = []) = true := by
    decide +kernel
  obtain ⟨s, hs, hrun⟩ := (Option.any_eq_true ..).1 hrun
  obtain ⟨hf, hrun⟩ := of_decide_eq_true hrun
  obtain ⟨t, ht, hidle⟩ := (Option.any_eq_true ..).1 hrun
  obtain ⟨hsql, hstm, hjet, hkiosk⟩ := of_decide_eq_true hidle
  obtain ⟨-, -, -, hsettled⟩ := net_settles site₁_complete (reach_of_exec hs) hf (by decide) ht
  refine ⟨s, t, hs, ht, hsettled fun a ha => ?_⟩
  cases a with
  | arrives => rw [Net.step, hkiosk]
  | sql => rw [Net.step, hsql]
  | stm => rw [Net.step, hstm]
  | jet => rw [Net.step, hjet]
  | kiosk _ | recommend | returned | classified _ => cases ha

end PetVending.Wire
