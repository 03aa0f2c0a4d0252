import OpenCalifornia.Lib.Flow
import OpenCalifornia.Lib.Machine
import OpenCalifornia.Thermostat.Basic
import OpenCalifornia.Thermostat.Bumpless
import OpenCalifornia.Thermostat.Control
import OpenCalifornia.Thermostat.Step
import OpenCalifornia.Thermostat.Pending
import OpenCalifornia.Thermostat.Invariant
import OpenCalifornia.Thermostat.Reading
import OpenCalifornia.Thermostat.Starts
import OpenCalifornia.Thermostat.OwnerOff
import OpenCalifornia.Thermostat.Stopping
import OpenCalifornia.Thermostat.Foreign
import OpenCalifornia.Thermostat.Firmware
import OpenCalifornia.Thermostat.FirmwareReading
import OpenCalifornia.Thermostat.Twin
import OpenCalifornia.Thermostat.Runner
import OpenCalifornia.Thermostat.Batches
import OpenCalifornia.Thermostat.Settings
import OpenCalifornia.Thermostat.Apply
import OpenCalifornia.Thermostat.Dwell
import OpenCalifornia.Thermostat.Overflow
import OpenCalifornia.Thermostat.Eta
import OpenCalifornia.Lib.Bits
import OpenCalifornia.Lib.Text
import OpenCalifornia.Lib.Dict
import OpenCalifornia.Control.Text
import OpenCalifornia.Control.Protocol
import OpenCalifornia.Control.Semantics
import OpenCalifornia.Control.Build
import OpenCalifornia.Control.Precondition
import OpenCalifornia.Control.Codec
import OpenCalifornia.Control.Planner
import OpenCalifornia.Control.Frames
import OpenCalifornia.Control.Coercions
import OpenCalifornia.Control.PyInt
import OpenCalifornia.Control.RoundTrip
import OpenCalifornia.Control.CodecTwin
import OpenCalifornia.Control.Wake
import OpenCalifornia.Control.BuildTwin
import OpenCalifornia.Control.LightTwin
import OpenCalifornia.Freshness.Settle
import OpenCalifornia.Freshness.Firmware
import OpenCalifornia.Freshness.Twin
import OpenCalifornia.AutoCamper.Decide
import OpenCalifornia.AutoCamper.Restore
import OpenCalifornia.AutoCamper.Firmware
import OpenCalifornia.AutoCamper.Parks
import OpenCalifornia.Lighting.Merge
import OpenCalifornia.Lighting.Firmware
import OpenCalifornia.Control.Agreement
import OpenCalifornia.Session.State
import OpenCalifornia.Session.Step
import OpenCalifornia.Session.Core
import OpenCalifornia.Session.Link
import OpenCalifornia.Session.Calls
import OpenCalifornia.Session.Runs
import OpenCalifornia.Session.Bonded
import OpenCalifornia.Session.Cooldown
import OpenCalifornia.Session.Wire
import OpenCalifornia.Session.Attribution
import OpenCalifornia.Session.ReadRuns
import OpenCalifornia.Session.Units
import OpenCalifornia.Transport.State
import OpenCalifornia.Transport.Queue
import OpenCalifornia.Transport.Track
import OpenCalifornia.Transport.Order
import OpenCalifornia.Transport.Runs
import OpenCalifornia.Transport.Link
import OpenCalifornia.Transport.Gap
import OpenCalifornia.Transport.Past
import OpenCalifornia.Transport.Calls
import OpenCalifornia.Transport.Events
import OpenCalifornia.Transport.Connects
import OpenCalifornia.Pairing.Machine
import OpenCalifornia.Lib.Ring
import OpenCalifornia.Pairing.Trace
import OpenCalifornia.Pairing.Runner
import OpenCalifornia.Wifi.State
import OpenCalifornia.Wifi.Core
import OpenCalifornia.Wifi.Phase
import OpenCalifornia.Wifi.Backed
import OpenCalifornia.Wifi.Fallback
import OpenCalifornia.Wifi.Causes
import OpenCalifornia.Wifi.Hotspot
import OpenCalifornia.Lora.Budget
import OpenCalifornia.Lora.Pack
import OpenCalifornia.Lora.Telemetry
import OpenCalifornia.Lora.Undo
import OpenCalifornia.Lib.Json
import OpenCalifornia.Lib.Flat
import OpenCalifornia.Json.Writer
import OpenCalifornia.Json.RoundTrip
import OpenCalifornia.Lib.Buffer
import OpenCalifornia.Lib.Crlf
import OpenCalifornia.Http.Parse
import OpenCalifornia.Http.Grammar
import OpenCalifornia.Http.Poll
import OpenCalifornia.Lib.Log
import OpenCalifornia.Ota.Manifest
import OpenCalifornia.Ota.Update
import OpenCalifornia.Lib.Paging
import OpenCalifornia.SdLog.Scan
import OpenCalifornia.SdLog.Pager
import OpenCalifornia.SdLog.Record
import OpenCalifornia.SdLog.Logger
import OpenCalifornia.SdLog.Recover
import OpenCalifornia.SdLog.Order
import OpenCalifornia.SdLog.Append
import OpenCalifornia.SdLog.Readback
import OpenCalifornia.SdLog.Files
import OpenCalifornia.SdLog.Paged
import OpenCalifornia.PiWake.State
import OpenCalifornia.PiWake.Runs
import OpenCalifornia.BleExp.State
import OpenCalifornia.BleExp.Steps
import OpenCalifornia.BleExp.Runs
import OpenCalifornia.Session.Stored
import OpenCalifornia.Session.Served
import OpenCalifornia.Control.Carried
import OpenCalifornia.Control.WakeTrip
import OpenCalifornia.Ingest.Thin
import OpenCalifornia.Ingest.Slots
import OpenCalifornia.Ingest.Selected
import OpenCalifornia.Captive.Responder
import OpenCalifornia.Captive.Replies
import OpenCalifornia.Time.Calendar
import OpenCalifornia.Time.UnitUtc
import OpenCalifornia.Sensors.Edits
import OpenCalifornia.Sensors.Seen
import OpenCalifornia.Lora.Interval
import OpenCalifornia.Reads.LastFrame
import OpenCalifornia.Supervisor.Wakes
import OpenCalifornia.Serve.Water
import OpenCalifornia.Control.Sequenced
import OpenCalifornia.Session.Knobs
import OpenCalifornia.Lib.Saves
import OpenCalifornia.Web.Body
import OpenCalifornia.Web.Kinds
import OpenCalifornia.Web.Bodies
import OpenCalifornia.Web.Settings
import OpenCalifornia.Web.LinkSettings
import OpenCalifornia.Wifi.Replaced
import OpenCalifornia.Web.AllOrNothing
import OpenCalifornia.Lib.Nested
import OpenCalifornia.Web.BeaconRecords
import OpenCalifornia.Lib.Slots
import OpenCalifornia.Lib.Crc
import OpenCalifornia.Bonds.Power
import OpenCalifornia.Bonds.Files
