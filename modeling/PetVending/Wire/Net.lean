import PetVending.Bluetooth.Bridge
import PetVending.Firmware.Acknowledge
import PetVending.Jetson.Trigger
import PetVending.Wire.Visit

/-!
# The whole site: its steps

The kiosk, the SQL client, the Jetson client, and the vending machine behind its bridge, around the server. Messages
between them are in flight, and clicks, arrivals, answers and the returns of event loops come in any order.

Each message is alone in the read of every client it comes to, and in a notification of its own at the kiosk, also while
an event loop runs inside a slot there. So the runs in which texts are joined in one read, which the server and the
kiosk take for one message, are left out; and no two threads of the server are in `strtok` at a time.

- `Net`: the shop of `Visit`, the machine's handler, its bridge, and what is in flight;
- `Net.step`: an event at the kiosk, a classification, or the arrival of what is next in flight.
-/

namespace PetVending.Wire

open CStr Server Transition
open Kiosk.Recommend (Widget)

/-! ## Steps -/

/-- The shop, the handler and the bridge of the machine, and the texts in flight. `commands` are the numbers handed to
`osMessagePut`, `calls` the calls of `trigger_python_detection`, and `clicks` counts those on the recommendation
button. -/
structure Net where
  shop : Shop
  rx : Firmware.Rx
  bridge : Bluetooth.Bridge
  toSql : List (List Byte)
  toStm : List (List Byte)
  toJet : List (List Byte)
  toKiosk : List (List Byte)
  commands : List Nat
  calls : List (List Byte)
  clicks : Nat

namespace Net

/-- An event at the kiosk's payment side, a click on the recommendation button, the return of an event loop of its
recommendations, a breed from the classifier, and the arrival of what is next, alone in its read, at the kiosk, the SQL
client, the machine or the Jetson client. -/
inductive Act
  | kiosk (a : Kiosk.Act)
  | recommend
  | returned
  | classified (c : Fin 4)
  | arrives
  | sql
  | stm
  | jet

variable (e : Site)

/-- The two sides of the kiosk share `breed`: when a payment has ended, it is cleared on both. -/
def share (panel : Kiosk.Panel) (w : Widget) : Option Widget :=
  if panel.breed = "" then Kiosk.Recommend.step w .paid else some w

/-- An event at the payment side. -/
def clicked (s : Net) (a : Kiosk.Act) : Option Net := do
  let panel ← Kiosk.step s.shop.panel a
  let widget ← share panel s.shop.widget
  let sent := panel.out.drop s.shop.panel.out.length
  return { s with
    shop := { s.shop with panel := panel, widget := widget }
    toSql := s.toSql ++ dbTexts sent
    toStm := s.toStm ++ motorTexts sent }

/-- `on_pbRecommend_clicked` -/
def recommended (s : Net) : Net :=
  { s with toJet := s.toJet ++ [localBytes (Kiosk.ascii "[KJD_JET]RECO")], clicks := s.clicks + 1 }

/-- The classifier's message is forwarded, and relayed to the kiosk. -/
def forwarded (s : Net) (c : Fin 4) : Option Net := do
  let breedMsg := s.shop.breedMsg.store (classified c)
  let line ← breedMsg.written
  let (t, text) ← { s.shop with breedMsg := breedMsg }.hop e slotJet slotQt line
  return { s with shop := t, toKiosk := s.toKiosk ++ [text] }

/-- A text arrives at the kiosk, with the breed set on both sides. -/
def arrived (s : Net) (text : List Byte) : Option Net := do
  let t ← s.shop.notified text
  let panel ← Kiosk.step t.panel (.breed (asString t.widget.breed))
  let sent := t.widget.sent.drop s.shop.widget.sent.length
  return { s with shop := { t with panel := panel }, toSql := s.toSql ++ sent.map localBytes }

/-- A text is relayed to the SQL client, which records a sale or answers. -/
def served (s : Net) (text : List Byte) : Option Net := do
  let (t, text) ← s.shop.hop e slotQt slotSql text
  let (t, answer) ← t.sqlRound e text
  match answer with
  | .insert cmd =>
    if cmd.length < Sql.sqlCmdSize then
      some { s with shop := { t with rows := t.rows ++ e.mysql.execute cmd } }
    else none
  | .reply text => do
    let (t, text) ← t.hop e slotSql slotQt text
    return { s with shop := t, toKiosk := s.toKiosk ++ [text] }
  | .nothing => some { s with shop := t }

/-- A text is relayed to the machine; its handler hands a number to `osMessagePut`, and its echo goes back over the
bridge. -/
def vended (s : Net) (text : List Byte) : Option Net := do
  let (t, text) ← s.shop.hop e slotQt slotStm text
  let (rx, events) ← (Firmware.rxBytes s.rx (Firmware.recvMsg text)).toOption
  let event ← only events
  let echo ← event.reply
  let bridge ← Bluetooth.step s.bridge (.read (.data echo) true)
  let line ← only (bridge.writes.drop s.bridge.writes.length)
  let (t, text) ← t.hop e slotStm slotQt line
  return { s with
    shop := t
    rx := rx
    bridge := bridge
    toKiosk := s.toKiosk ++ [text]
    commands := s.commands ++ event.motorNumber.toList }

/-- A text is relayed to the Jetson client. -/
def triggered (s : Net) (text : List Byte) : Option Net := do
  let (t, text) ← s.shop.hop e slotQt slotJet text
  return { s with shop := t, calls := s.calls ++ Jetson.recvMsg [text] }

/-- One event of the site; a text that arrives is alone in its read. -/
def step (s : Net) : Act → Option Net
  | .kiosk (.breed _) => none
  | .kiosk a => s.clicked a
  | .recommend => some s.recommended
  | .returned => s.shop.returned.map fun t => { s with shop := t }
  | .classified c => s.forwarded e c
  | .arrives =>
    match s.toKiosk with
    | [] => none
    | text :: rest => { s with toKiosk := rest }.arrived text
  | .sql =>
    match s.toSql with
    | [] => none
    | text :: rest => { s with toSql := rest }.served e text
  | .stm =>
    match s.toStm with
    | [] => none
    | text :: rest => { s with toStm := rest }.vended e text
  | .jet =>
    match s.toJet with
    | [] => none
    | text :: rest => { s with toJet := rest }.triggered e text

/-- Nothing is in flight, and the table is `T`. -/
def start (T : List Sql.Row) : Net where
  shop := { shopStart with rows := T }
  rx := rxStart
  bridge := Bluetooth.bridgeStart
  toSql := []
  toStm := []
  toJet := []
  toKiosk := []
  commands := []
  calls := []
  clicks := 0

end Net

/-- All clients are logged in. -/
structure Site.Complete (e : Site) : Prop extends Site.Ready e where
  stm : (e.table slotStm).fd ≠ -1
  jet : (e.table slotJet).fd ≠ -1

end PetVending.Wire
