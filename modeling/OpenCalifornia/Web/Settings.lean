import OpenCalifornia.BleExp.State
import OpenCalifornia.Json.Writer
import OpenCalifornia.Lib.Saves
import OpenCalifornia.PiWake.State
import OpenCalifornia.Session.Step
import OpenCalifornia.Web.Bodies
import OpenCalifornia.Wifi.State

/-! # The endpoints that set something

`web.c`'s handlers of POST `/api/wifi`, `/api/pi_wake_setting` and `/api/ble`, over the modules that
hold the settings. What each write to the store answers comes from outside; one that fails leaves
the old value. -/

namespace OpenCalifornia.Web
open Lib Lib.Bits
open Lib.Buffer (chars)
open Session (Mode)

/-- The modules, and the keys of the store that none of them keeps. -/
structure World where
  wifi : Wifi.State
  /-- `s_pending` of the first-time setup, and `setup_qr`. -/
  setupPending : Option Bool
  setupQr : Option (List Byte)
  pi : PiWake.State
  pwIgn : Option (List Byte)
  phMin : Option (List Byte)
  phSoc : Option (List Byte)
  ble : BleExp.Owner
  /-- `s_min`, and the `s_adv_at` of a seen advert. -/
  expMin : ℕ
  advAt : Option ℕ
  session : Session.State
  bleIdle : Option (List Byte)
  bleRest : Option (List Byte)

/-- What the platform answers during a request. -/
structure Env where
  wifi : Wifi.Env
  setupQr : Bool
  pwIgn : Bool
  phMin : Bool
  phSoc : Bool
  bleIdle : Bool
  bleRest : Bool
  /-- The transport, at each of the calls of the session. -/
  session : ℕ → Session.Env
  /-- `s_t->has_bond()` -/
  hasBond : Bool
  /-- There is a wall clock. -/
  clock : Bool
  up : ℕ

structure Reply where
  status : ℕ
  body : List Byte
  deriving DecidableEq

/-- `SET_CONST` with one of the `ERR_` texts -/
def refuse (status : ℕ) (error : String) : Reply :=
  ⟨status, chars ("\x7b\"ok\":false,\"error\":\"" ++ error ++ "\"\x7d")⟩

def okReply : Reply := ⟨200, chars "\x7b\"ok\":true\x7d"⟩

inductive WifiMode
  | off | setup | station
  deriving DecidableEq

/-- `cali_wifi_mode` -/
def wifiMode (w : Wifi.Sm) : WifiMode :=
  match w.st with
  | .setupAp | .setupApRetrying => .setup
  | .online => .station
  | .connecting | .retrying => if w.joinedOnce = .yes then .station else .off
  | .unprovisioned => .off

/-- `cali_setup_pending_set(1)`; a failed mark is not fatal. -/
def World.markSetup (w : World) (e : Env) : World :=
  if e.setupQr then { w with setupQr := some [1], setupPending := some true } else w

def apiWifiPost (e : Env) (body : List Byte) (w : World) : Reply × World :=
  let fromHotspot := wifiMode w.wifi.sm = .setup
  match parseCreds body with
  | none => (refuse 400 "json", w)
  | some k =>
    if k.ssid.len < 1 ∨ k.ssid.len > 32 then (refuse 400 "ssid", w)
    else if k.psk.len < 8 ∨ k.psk.len > 63 then (refuse 400 "psk", w)
    else if ¬ e.wifi.kvSet .ssid then (refuse 500 "store", w)
    else
      let kv := { w.wifi.kv with ssid := some k.ssid.buf }
      if ¬ e.wifi.kvSet .psk then (refuse 500 "store", { w with wifi := { w.wifi with kv } })
      else
        let kv := { kv with psk := some k.psk.buf }
        let w := { w with wifi := { w.wifi with kv } }
        let w := if fromHotspot then w.markSetup e else w
        (okReply, { w with wifi := w.wifi.setCreds e.wifi k.ssid.buf k.psk.buf })

/-- `parse_pi_setting`: `none` is bad JSON, and `range` a number out of range. -/
def parsePiSetting (body : List Byte) : Option PiSet :=
  (piSettingForm.parse body {}).bind fun r => if r.1 = 0 then none else some r.2

inductive PiOp
  | on (v : ℕ)
  | min (n : ℕ)
  | soc (n : ℕ)

/-- The members that are there, in the order of the setters. -/
def PiSet.ops (s : PiSet) : List PiOp :=
  (s.on.map PiOp.on).toList ++ ((s.min.map PiOp.min).toList ++ (s.soc.map PiOp.soc).toList)

/-- The setter of the member returns 0. -/
def PiOp.saved (e : Env) : PiOp → Bool
  | .on _ => e.pwIgn
  | .min n => decide (n ≤ PiWake.minMax) && e.phMin
  | .soc n => decide (n ≤ 100) && e.phSoc

/-- What the setter does then. -/
def PiOp.put : PiOp → World → World
  | .on v, w => { w with
      pi := w.pi.setEnabled (v ≠ 0) true
      pwIgn := some [if v ≠ 0 then 1 else 0] }
  | .min n, w => { w with
      pi := w.pi.setMin n true
      phMin := some [BitVec.ofNat 8 (n % 256), BitVec.ofNat 8 (n / 256)] }
  | .soc n, w => { w with
      pi := w.pi.setSoc n true
      phSoc := some [BitVec.ofNat 8 n] }

def piReply (w : World) : Reply :=
  ⟨200, chars "\x7b\"ok\":true,\"pi_wake\":" ++ (if w.pi.on then Json.trueText
    else Json.falseText) ++
    chars ",\"halt_after_min\":" ++ OpenCalifornia.Json.decimal w.pi.phMin ++
    chars ",\"halt_soc_pct\":" ++ OpenCalifornia.Json.decimal w.pi.phSoc ++ chars "\x7d"⟩

def apiPiWakeSetting (e : Env) (body : List Byte) (w : World) : Reply × World :=
  if wifiMode w.wifi.sm ≠ .station then (refuse 403 "setup_mode", w)
  else
    match parsePiSetting body with
    | none => (refuse 400 "bad_json", w)
    | some s =>
      if s.range then (refuse 400 "bad_value", w)
      else
        let r := Saves.run (PiOp.saved e) PiOp.put s.ops w
        if r.1 then (piReply r.2, r.2) else (refuse 500 "store", r.2)

/-- The transport at the `i`-th call of the session; the bond does not change during a request. -/
def Env.at (e : Env) (i : ℕ) : Session.Env := { e.session i with hasBond := e.hasBond }

/-- The modes that the owner sets. -/
def World.sets (w : World) (e : Session.Env) (evs : List BleExp.Ev) : World :=
  evs.foldl (fun w ev =>
    match ev with
    | .set mode _ => { w with session := w.session.setMode e mode }
    | _ => w) w

/-- `cali_ble_exp_stop` -/
def World.expStop (w : World) (e : Env) : World :=
  { w with ble := w.ble.stop.1 }.sets (e.at 0) w.ble.stop.2

/-- `cali_ble_exp_start` does not return 0. -/
def expRefused (phaseMin : ℕ) (fromH toH : ℤ) (clock : Bool) : Prop :=
  phaseMin < 1 ∨ 720 < phaseMin ∨ fromH < 0 ∨ 23 < fromH ∨ toH < 0 ∨ 23 < toH ∨ ¬ clock

instance (phaseMin : ℕ) (fromH toH : ℤ) (clock : Bool) :
    Decidable (expRefused phaseMin fromH toH clock) := by
  unfold expRefused
  infer_instance

def World.expStart (w : World) (e : Env) (phaseMin : ℕ) (fromH toH : ℤ) : World :=
  { w with ble := (w.ble.start phaseMin fromH toH e.clock).1, expMin := phaseMin }

def BleReq.n (b : BleReq) (i : ℕ) : ℕ := b.num.getD i 0

/-- The member `exp_min`, if it is there; `none` where the experiment does not start. -/
def World.expMember (w : World) (e : Env) (seen : ℕ) (b : BleReq) : Option World :=
  if seen.testBit 2 ∧ b.n 2 = 0 then some (w.expStop e)
  else if seen.testBit 2 then
    if expRefused (b.n 2) (b.n 3) (b.n 4) e.clock then none
    else some (w.expStart e (b.n 2) (b.n 3) (b.n 4))
  else some w

inductive BleOp
  | idle (n : ℕ)
  | rest (n : ℕ)

/-- The members that are stored and there, in the order of the setters. -/
def BleReq.ops (b : BleReq) (seen : ℕ) : List BleOp :=
  (if seen.testBit 5 then [.idle (b.n 5)] else []) ++ if seen.testBit 7 then [.rest (b.n 7)] else []

def BleOp.saved (e : Env) : BleOp → Bool
  | .idle n => decide (n ≤ BleExp.idleMaxMin) && e.bleIdle
  | .rest n => decide (n ≤ Session.restPollMaxMin) && e.bleRest

/-- `cali_ble_idle_set` and `cali_ble_rest_set` once the value is stored -/
def BleOp.put (e : Env) : BleOp → World → World
  | .idle n, w =>
    let r := w.ble.idleSet n true e.up w.session.mode
    { w with ble := r.1, bleIdle := some [BitVec.ofNat 8 n] }.sets (e.at 1) r.2
  | .rest n, w => { w with
      session := w.session.setRestPoll n
      bleRest := some [BitVec.ofNat 8 n] }

/-- The members that are not stored. -/
def World.bleRun (w : World) (e : Env) (seen : ℕ) (b : BleReq) : World :=
  let s := w.session
  let s := if seen.testBit 6 then { s with warmMs := b.n 6 } else s
  let s := match b.mode with
    | some (some mode) => s.setMode (e.at 2) mode
    | _ => s
  let s := if b.probe then s.startProbe (e.at 3) else s
  let s := if b.conn then s.connectButton (e.at 4) else s
  let s := if b.active then s.input (e.at 5) e.up else s
  { w with session := s }

/-- `num[i]` above its bound, or a mode that is none. -/
def BleReq.bad (b : BleReq) : Prop :=
  b.mode = some none ∨ b.n 2 > 720 ∨ b.n 3 > 23 ∨ b.n 4 > 23 ∨ b.n 5 > BleExp.idleMaxMin ∨
    b.n 6 > 5000 ∨ b.n 7 > Session.restPollMaxMin

instance (b : BleReq) : Decidable b.bad := by
  unfold BleReq.bad
  infer_instance

/-- The rest poll that `cali_ble_exp_init` takes from the store. -/
def bootRest (stored : Option (List Byte)) : ℕ :=
  match stored with
  | some [b] => if b.toNat ≤ Session.restPollMaxMin then b.toNat else Session.restPollDefaultMin
  | _ => Session.restPollDefaultMin

/-- A name of the source as a key or a text of the writer. -/
def name (s : String) (h : (0 : Byte) ∉ chars s := by decide) : OpenCalifornia.Json.Text :=
  ⟨chars s, h⟩

def modeText : Mode → OpenCalifornia.Json.Text
  | .hold => name "hold"
  | .quiet => name "quiet"
  | .off => name "off"

/-- A number for `cali_json_int`. -/
def intTree (n : ℤ) : OpenCalifornia.Json.Tree := .int (BitVec.ofInt 64 n)

/-- `exp_json` -/
def expTree (w : World) (now : ℕ) : OpenCalifornia.Json.Tree :=
  if ¬ w.ble.exp.on then .null
  else .obj [(name "on", .bool true), (name "phase_min", intTree w.expMin),
    (name "from", intTree w.ble.exp.fromH), (name "to", intTree w.ble.exp.toH),
    (name "phase", w.ble.exp.want.elim .null fun m => .str (modeText m)),
    (name "remaining_ms", w.ble.exp.want.elim .null fun _ =>
      intTree (w.ble.exp.phaseEnd - now : ℕ))]

/-- `cali_ble_exp_fields` with the diagnostics -/
def bleFields (w : World) (now : ℕ) : List (OpenCalifornia.Json.Text × OpenCalifornia.Json.Tree) :=
  [(name "mode", .str (modeText w.session.mode)),
    (name "probing", .bool w.session.probe),
    (name "exp", expTree w now),
    (name "idle_min", intTree w.ble.idle.probeMin),
    (name "rest_poll_min", intTree (w.session.restPollMs / 60000 : ℕ)),
    (name "unit_adv_seen_ms_ago", w.advAt.elim .null fun at' => intTree (w.ble.tickAt - at' : ℕ))]

/-- `NET_JSON_MAX` -/
def jsonMax : ℕ := 8192

/-- `finish_json` -/
def finishJson (ms : List (OpenCalifornia.Json.Text × OpenCalifornia.Json.Tree)) : Reply :=
  let r := OpenCalifornia.Json.document (fun _ => 0) jsonMax ms
  if r.2 < 0 then ⟨500, chars "response too large"⟩ else ⟨200, r.1.text⟩

def apiBle (e : Env) (body : List Byte) (w : World) : Reply × World :=
  if wifiMode w.wifi.sm ≠ .station then (refuse 403 "setup_mode", w)
  else
    match bleForm.parse body {} with
    | none => (refuse 400 "bad_json", w)
    | some (seen, b) =>
      if seen &&& 999 = 0 then (refuse 400 "bad_json", w)
      else if b.bad then (refuse 400 "bad_value", w)
      else if b.probe ∧ (¬ w.session.active ∨ w.session.probe) then (refuse 409 "busy", w)
      else if b.conn ∧ ¬ e.hasBond then (refuse 409 "not_paired", w)
      else
        match w.expMember e seen b with
        | none => (refuse 409 "no_time", w)
        | some w =>
          let r := Saves.run (BleOp.saved e) (BleOp.put e) (b.ops seen) w
          if r.1 then
            let w := r.2.bleRun e seen b
            (finishJson (bleFields w e.up), w)
          else (refuse 500 "store", r.2)

end OpenCalifornia.Web
