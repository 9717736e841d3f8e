import PetVending.Lib.Strtok
import PetVending.Lib.Transition
import PetVending.Lib.Decimal
import PetVending.Lib.Utf8
import PetVending.Lib.Quoted
import PetVending.Lib.Lines
import PetVending.Lib.Rank
import PetVending.Lib.Ring
import PetVending.Lib.Spans
import PetVending.Server.Table
import PetVending.Server.Login
import PetVending.Server.Relay
import PetVending.Server.Framing
import PetVending.Server.History
import PetVending.Server.Session
import PetVending.Server.Accounting
import PetVending.Server.Ownership
import PetVending.Server.SlotTable
import PetVending.Server.Occupancy
import PetVending.Server.Descriptors
import PetVending.Server.Tokenising
import PetVending.Server.Stores
import PetVending.Server.Formatting
import PetVending.Server.Replies
import PetVending.Server.Delivery
import PetVending.Server.Mutex
import PetVending.Jetson.Server
import PetVending.Jetson.Breed
import PetVending.Jetson.Trigger
import PetVending.Firmware.Motor
import PetVending.Firmware.Command
import PetVending.Firmware.Sensor
import PetVending.Firmware.Uart
import PetVending.Firmware.Acknowledge
import PetVending.Firmware.Queue
import PetVending.Firmware.Board
import PetVending.Firmware.Heap
import PetVending.Firmware.Arena
import PetVending.Firmware.Malloc
import PetVending.Firmware.HeapRuns
import PetVending.Sql.Reco
import PetVending.Sql.Insert
import PetVending.Wire.Message
import PetVending.Kiosk.Payment
import PetVending.Kiosk.Socket
import PetVending.Kiosk.Recommend
import PetVending.Kiosk.Dispatch
import PetVending.Tracking.Stepper
import PetVending.Tracking.Drift
import PetVending.Tracking.Servo
import PetVending.Wire.RoundTrip
import PetVending.Wire.Purchase
import PetVending.Bluetooth.Bridge
import PetVending.Classification.Confirm
import PetVending.Wire.Visit
import PetVending.Tracking.Inference
import PetVending.Wire.Net
import PetVending.Wire.Flow
import PetVending.Wire.Settling
import PetVending.Wire.Boot
import PetVending.Wire.Typed
import PetVending.Kiosk.Keyboard
