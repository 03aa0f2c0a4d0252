import Mathlib
import OpenCalifornia.Lib.Bits
import OpenCalifornia.Lib.Machine

/-! # The satellite's WiFi: its state machine and its runtime

`wifi_sm.c` decides, `wifi_run.c` carries out. What the platform answers to a call comes from
outside; the join that the platform runs and the calls of a step are kept beside the runtime's own
data. A time is in ms since boot and does not wrap. -/

namespace OpenCalifornia.Wifi
open Lib Lib.Bits Lib.Machine

def retryMinMs : ℕ := 1000
def retryMaxMs : ℕ := 60000
def setupAfterMs : ℕ := 300000
def apCloseMs : ℕ := 30000

inductive St
  | unprovisioned | setupAp | connecting | online | retrying | setupApRetrying
  deriving DecidableEq, Repr

/-- `joined_once`: typed in setup, joined or loaded from flash, `WIFI_REPLACING`. -/
inductive Joined
  | no | yes | replacing
  deriving DecidableEq, Repr

inductive Reason
  | none | notFound | auth | other
  deriving DecidableEq, Repr

/-- `WEV_*` -/
inductive Ev
  | bootWithCreds | bootNoCreds | credsSet | credsForget | gotIp | lost
  | failed (reason : Reason)
  | apStarted
  | tick (now : ℕ)
  | credsReplace
  deriving DecidableEq, Repr

/-- `WACT_*` -/
inductive Action
  | apStart | apStop | staStart | staStop | mdns | clearCreds
  | logReason (reason : Reason)
  | restorePrev
  deriving DecidableEq, Repr

/-- `cali_wifi_state_t` -/
structure Sm where
  st : St := .unprovisioned
  apUp : Bool := false
  joinedOnce : Joined := .no
  retryMs : ℕ := 0
  sinceMs : ℕ := 0
  nextTryMs : ℕ := 0
  deriving DecidableEq, Repr

def Sm.due (s : Sm) (now : ℕ) : Prop := s.nextTryMs ≤ now

instance (s : Sm) (now : ℕ) : Decidable (s.due now) := by unfold Sm.due; infer_instance

/-- The retry of `tick_retrying`, on schedule. -/
def Sm.retry (s : Sm) (now : ℕ) : Sm :=
  let retryMs := min (s.retryMs * 2) retryMaxMs
  { s with retryMs, nextTryMs := now + retryMs }

def Sm.tickRetrying (s : Sm) (now : ℕ) : Sm × List Action :=
  if s.sinceMs = 0 then ({ s with sinceMs := now, nextTryMs := now + s.retryMs }, [])
  else
    let (s, acts) := if s.due now then (s.retry now, [.staStart]) else (s, [])
    if s.st = .retrying ∧ setupAfterMs ≤ now - s.sinceMs then
      ({ s with st := .setupApRetrying, apUp := true }, acts ++ [.apStart])
    else (s, acts)

/-- `set` of the states in setup. -/
def Sm.setup : Sm := { st := .setupAp, apUp := true }

def Sm.goOnline (s : Sm) : Sm := { st := .online, apUp := s.apUp, joinedOnce := .yes }

/-- `cali_wifi_step` -/
def Sm.step (s : Sm) (ev : Ev) : Sm × List Action :=
  match ev, s.st with
  | .credsForget, _ => (.setup, [.staStop, .clearCreds, .apStart])
  | .credsReplace, st =>
    if (st = .connecting ∨ st = .online ∨ st = .retrying) ∧ s.joinedOnce ≠ .no then
      ({ st := .connecting, apUp := true, joinedOnce := .replacing },
        [.staStop, .apStart, .staStart])
    else (s, [])
  | .bootNoCreds, .unprovisioned => (.setup, [.apStart])
  | .bootWithCreds, .unprovisioned =>
    ({ st := .connecting, apUp := s.apUp, joinedOnce := .yes }, [.staStart])
  | .credsSet, .setupAp => ({ s with st := .connecting }, [.staStart])
  | .gotIp, .connecting => (s.goOnline, [.mdns])
  | .failed reason, .connecting =>
    if s.joinedOnce = .no then (.setup, [.logReason reason, .clearCreds])
    else
      ({ st := .retrying, apUp := s.apUp, joinedOnce := .yes, retryMs := retryMinMs },
        .logReason reason :: if s.joinedOnce = .replacing then [.restorePrev] else [])
  | .lost, .online =>
    ({ st := .retrying, apUp := s.apUp, joinedOnce := s.joinedOnce, retryMs := retryMinMs },
      [.staStop])
  | .tick now, .online =>
    if s.sinceMs = 0 then ({ s with sinceMs := now }, [])
    else if s.apUp ∧ s.sinceMs + apCloseMs ≤ now then ({ s with apUp := false }, [.apStop])
    else (s, [])
  | .gotIp, .retrying => (s.goOnline, [.mdns])
  | .gotIp, .setupApRetrying => (s.goOnline, [.mdns])
  | .credsSet, .setupApRetrying => ({ st := .connecting, apUp := s.apUp }, [.staStart])
  | .tick now, .retrying => s.tickRetrying now
  | .tick now, .setupApRetrying => s.tickRetrying now
  | _, _ => (s, [])

/-- Station credentials of the lengths that `creds_ok_len` accepts. -/
structure Creds where
  ssid : List Byte
  psk : List Byte
  ssid_len : 1 ≤ ssid.length ∧ ssid.length ≤ 32
  psk_len : psk = [] ∨ 8 ≤ psk.length ∧ psk.length ≤ 63
  deriving DecidableEq

/-- `creds_ok_len`, with the credentials it accepts. -/
def Creds.of? (ssid psk : List Byte) : Option Creds :=
  if h : (1 ≤ ssid.length ∧ ssid.length ≤ 32) ∧
      (psk = [] ∨ 8 ≤ psk.length ∧ psk.length ≤ 63) then some ⟨ssid, psk, h.1, h.2⟩
  else none

inductive Key
  | ssid | psk | ok
  deriving DecidableEq, Repr

/-- The three keys of the kv store. -/
structure Kv where
  ssid : Option (List Byte) := none
  psk : Option (List Byte) := none
  ok : Option Bool := none
  deriving DecidableEq

/-- `cali_net_ap_t` -/
structure Ap where
  ssid : List Byte
  rssi : ℤ
  secure : Bool
  deriving DecidableEq

/-- What the runtime asks of the platform, and what it does to the stored credentials. -/
inductive Call
  | apStart (ssid psk : List Byte) (ok : Bool)
  | apStop
  | dnsStart | dnsStop
  | staStart (c : Creds) (ok : Bool)
  | staStop
  | mdns
  | scan (ok : Bool)
  | cleared (c : Option Creds)
  | restored (c prev : Option Creds)
  deriving DecidableEq

structure State where
  sm : Sm := {}
  creds : Option Creds := none
  prev : Option Creds := none
  reverted : Bool := false
  credsOk : Bool := false
  ip : ℕ := 0
  rssi : ℤ := 0
  rssiAt : ℕ := 0
  scan : List Ap := []
  scanInFlight : Bool := false
  scanWanted : Bool := false
  scanned : Bool := false
  scanAt : ℕ := 0
  now : ℕ := 0
  joinFailed : Bool := false
  apRunning : Bool := false
  lastFail : Reason := .none
  kv : Kv := {}
  /-- The join that the platform runs and has not reported the outcome of. -/
  joining : Option Creds := none
  /-- The calls of this step, the newest first. -/
  calls : List Call := []

/-- What the platform and the pairing runner answer during one step. -/
structure Env where
  inFlow : Bool := false
  identity : Option (List Byte × List Byte) := none
  apStart : Bool := false
  staStart : Bool := false
  /-- A join that does not start leaves the one before it running. -/
  staKeeps : Bool := false
  scan : Bool := false
  rssi : ℤ := 0
  kvGet : Key → Bool := fun _ => true
  kvSet : Key → Bool := fun _ => true
  kvErase : Key → Bool := fun _ => true

def State.call (w : State) (c : Call) : State := { w with calls := c :: w.calls }

def State.setOk (w : State) (e : Env) (ok : Bool) : State :=
  if e.kvSet .ok then { w with kv := { w.kv with ok := some ok } } else w

def State.markUnjoined (w : State) (e : Env) : State := { w.setOk e false with credsOk := false }

def State.startScan (w : State) (e : Env) : State :=
  if w.scanInFlight then w
  else if e.inFlow then { w with scanWanted := true }
  else
    let w := { w.call (.scan e.scan) with scanWanted := false }
    if e.scan then { w with scanInFlight := true, scanned := true, scanAt := w.now } else w

/-- The hotspot, if its name and password are there, and the captive DNS. -/
def State.openAp (w : State) (e : Env) : State :=
  match e.identity with
  | none => w.call .dnsStart
  | some (ssid, psk) =>
    { (w.call (.apStart ssid psk e.apStart)).call .dnsStart with apRunning := e.apStart }

def State.apStart (w : State) (e : Env) : State :=
  (if w.apRunning then w else w.openAp e).startScan e

def State.apStop (w : State) : State :=
  { (w.call .apStop).call .dnsStop with apRunning := false }

/-- The station has one join: a start that succeeds ends the one before. -/
def State.staStart (w : State) (e : Env) : State :=
  match w.creds with
  | none => { w with joinFailed := true }
  | some c =>
    { w.call (.staStart c e.staStart) with
      joinFailed := w.joinFailed || !e.staStart
      joining := if e.staStart then some c else if e.staKeeps then w.joining else none }

def State.staStop (w : State) : State :=
  { w.call .staStop with ip := 0, rssi := 0, joining := none }

def State.clearCreds (w : State) (e : Env) : State :=
  let kv := { w.kv with
    ssid := if e.kvErase .ssid then none else w.kv.ssid
    psk := if e.kvErase .psk then none else w.kv.psk }
  { ({ w.call (.cleared w.creds) with kv } : State).markUnjoined e with creds := none }

def State.restorePrev (w : State) (e : Env) : State :=
  match w.prev with
  | none => w.call (.restored w.creds none)
  | some p =>
    let kv := { w.kv with
      ssid := if e.kvSet .ssid then some p.ssid else w.kv.ssid
      psk := if e.kvSet .psk then some p.psk else w.kv.psk }
    { ({ w.call (.restored w.creds (some p)) with kv } : State).setOk e true with
      creds := some p
      prev := none
      credsOk := true
      reverted := true }

def State.logReason (w : State) (reason : Reason) : State :=
  { w with lastFail := if reason = .none then .other else reason }

/-- `run_action` -/
def State.runAction (e : Env) (w : State) (a : Action) : State :=
  match a with
  | .apStart => w.apStart e
  | .apStop => w.apStop
  | .staStart => w.staStart e
  | .staStop => w.staStop
  | .mdns => w.call .mdns
  | .clearCreds => w.clearCreds e
  | .restorePrev => w.restorePrev e
  | .logReason reason => w.logReason reason

/-- `feed_skip` -/
def State.feedSkip (w : State) (e : Env) (ev : Ev) (skip : Option Action) : State :=
  let (sm, acts) := w.sm.step ev
  (acts.filter fun a => some a ≠ skip).foldl (State.runAction e) { w with sm }

def State.feed (w : State) (e : Env) (ev : Ev) : State := w.feedSkip e ev none

/-- `cali_net_event_t` -/
inductive NetEv
  | gotIp (ip : ℕ)
  | lost
  | failed (reason : Reason)
  | apStarted
  | scanDone (list : Option (List Ap))
  | apStopped

/-- `NET_SCAN_MAX` -/
def scanMax : ℕ := 16

/-- One entry for each network, the strongest. -/
def strongest (list : List Ap) : List Ap :=
  list.foldl (fun out ap =>
    match out.find? (·.ssid = ap.ssid) with
    | none => out ++ [ap]
    | some _ => out.map fun b => if b.ssid = ap.ssid ∧ b.rssi < ap.rssi then ap else b) []

/-- What follows a `GOT_IP` that the machine took. -/
def State.online (w : State) (e : Env) (ip : ℕ) : State :=
  let w := if w.credsOk = false ∧ e.kvSet .ok = true then { w.setOk e true with credsOk := true }
      else w
  { w with
    prev := none
    lastFail := if w.reverted then w.lastFail else .none
    ip
    rssi := e.rssi
    rssiAt := 0 }

/-- `on_net` -/
def State.onNet (w : State) (e : Env) : NetEv → State
  | .gotIp ip =>
    let w := ({ w with joining := none } : State).feed e .gotIp
    if w.sm.st = .online then w.online e ip else w
  | .lost =>
    let w := if w.sm.st = .online then { w with ip := 0, rssi := 0 } else w
    w.feed e .lost
  | .failed reason => ({ w with joining := none } : State).feed e (.failed reason)
  | .apStarted => w.feed e .apStarted
  | .scanDone none => { w with scanInFlight := false }
  | .scanDone (some list) =>
    { w with scanInFlight := false, scan := strongest (list.take scanMax) }
  | .apStopped => { w with apRunning := false }

def State.newAttempt (w : State) : State := { w with lastFail := .none, reverted := false }

def State.feedCredsSet (w : State) (e : Env) : State :=
  ({ w.newAttempt with prev := none } : State).feed e .credsSet

/-- What `cali_wifi_run_boot` reads from the store. -/
def Kv.load (kv : Kv) (e : Env) : Option Creds :=
  match kv.ssid, kv.psk with
  | some ssid, some psk => if e.kvGet .ssid ∧ e.kvGet .psk then Creds.of? ssid psk else none
  | _, _ => none

/-- A missing flag is trusted. -/
def Kv.joined (kv : Kv) (e : Env) : Bool := if e.kvGet .ok then kv.ok.getD true else true

/-- `cali_wifi_run_init` and `cali_wifi_run_boot` -/
def State.boot (kv : Kv) (e : Env) : State :=
  let creds := kv.load e
  let w : State := { kv, creds, credsOk := creds.isSome && kv.joined e }
  if creds.isSome ∧ ¬ kv.joined e then (w.feed e .bootNoCreds).feedCredsSet e
  else w.feed e (if creds.isSome then .bootWithCreds else .bootNoCreds)

def rssiEveryMs : ℕ := 1000

def State.tickRssi (w : State) (e : Env) (now : ℕ) : State :=
  if w.sm.st = .online ∧ (w.rssiAt = 0 ∨ rssiEveryMs ≤ now - w.rssiAt) then
    { w with rssi := e.rssi, rssiAt := now }
  else w

/-- A join that never started fails like a real one. -/
def State.tickFailed (w : State) (e : Env) : State :=
  if w.joinFailed then ({ w with joinFailed := false } : State).feed e (.failed .other) else w

/-- `cali_wifi_run_tick` -/
def State.tick (w : State) (e : Env) (now : ℕ) : State :=
  let w := (({ w with now } : State).tickFailed e).feed e (.tick now)
  let w := if w.scanWanted ∧ ¬ e.inFlow then w.startScan e else w
  w.tickRssi e now

/-- The same network again while it joins or is joined. -/
def State.keepsJoin (w : State) (ssid psk : List Byte) : Prop :=
  (w.sm.st = .connecting ∨ w.sm.st = .online) ∧
    w.creds.any (fun c => c.ssid = ssid ∧ c.psk = psk)

instance (w : State) (ssid psk : List Byte) : Decidable (w.keepsJoin ssid psk) := by
  unfold State.keepsJoin; infer_instance

/-- The credentials that a replacement leaves, if they joined. -/
def State.stash (w : State) : Option Creds :=
  if w.creds.isSome ∧ w.sm.joinedOnce = .yes ∧
      (w.sm.st = .connecting ∨ w.sm.st = .online ∨ w.sm.st = .retrying) then w.creds
  else w.prev

/-- The new credentials are in place; the machine is told. -/
def State.join (w : State) (e : Env) : State :=
  if w.sm.st = .setupAp ∨ w.sm.st = .setupApRetrying then w.feedCredsSet e
  else if w.prev.isSome ∧ w.sm.joinedOnce ≠ .no then
    (({ w with ip := 0, rssi := 0 } : State).newAttempt).feed e .credsReplace
  else if w.sm.st ≠ .unprovisioned then
    (({ w with ip := 0, rssi := 0 } : State).feedSkip e .credsForget
      (some .clearCreds)).feedCredsSet e
  else w

/-- `cali_wifi_run_set_creds` -/
def State.setCreds (w : State) (e : Env) (ssid psk : List Byte) : State :=
  if w.keepsJoin ssid psk then w
  else
    match Creds.of? ssid psk with
    | none => w
    | some c => (({ w with prev := w.stash, creds := some c } : State).markUnjoined e).join e

/-- `cali_wifi_run_forget` -/
def State.forget (w : State) (e : Env) : State :=
  ({ w with ip := 0, rssi := 0, reverted := false, prev := none } : State).feed e .credsForget

def scanMinIntervalMs : ℕ := 30000

/-- `cali_wifi_run_scan_auto` -/
def State.scanAuto (w : State) (e : Env) : State :=
  if ¬ w.scanned ∨ scanMinIntervalMs ≤ w.now - w.scanAt then w.startScan e else w

/-- What can happen to the runtime. New credentials come from the page or the console, which store
them first. -/
inductive Op
  | boot
  | net (ev : NetEv)
  | tick (now : ℕ)
  | setCreds (c : Creds)
  | forget
  | scan
  | scanAuto

def Kv.store (kv : Kv) (c : Creds) : Kv := { kv with ssid := some c.ssid, psk := some c.psk }

def Op.apply (op : Op) (e : Env) (w : State) : State :=
  match op with
  | .boot => .boot w.kv e
  | .net ev => w.onNet e ev
  | .tick now => w.tick e now
  | .setCreds c => ({ w with kv := w.kv.store c } : State).setCreds e c.ssid c.psk
  | .forget => w.forget e
  | .scan => w.startScan e
  | .scanAuto => w.scanAuto e

abbrev Input := Op × Env

def State.begin (w : State) : State := { w with calls := [] }

def step (i : Input) (w : State) : Option (List Call × State) :=
  let w := i.1.apply i.2 w.begin
  some (w.calls.reverse, w)

abbrev Rec := Record Input (List Call) State

end OpenCalifornia.Wifi
