import OpenCalifornia.Transport.Queue

/-! # The satellite's transport: scans, connects and links

The part of `ble_nimble.c` that NimBLE's GAP events drive, over the operation queue. An event that
goes to the sink ends a step, as in the queue: the sink's calls are steps of their own, and its
return is one too. -/

namespace OpenCalifornia.Transport.Gap
open Lib Lib.Bits Lib.Machine

def eAlready : ℤ := 2
def eBusy : ℤ := 15

/-- `BLE_HS_HCI_ERR` -/
def hciErr (code : ℤ) : ℤ := 0x200 + code

/-- `auth_failure`: the peer refused our key -/
def authFailure (status : ℤ) : Bool := status = hciErr 5 ∨ status = hciErr 6

/-- `BLE_STORE_MAX_BONDS` -/
def maxBonds : ℕ := 3

/-- What NimBLE's parser finds in an advert. -/
structure Fields where
  name : Option (List Byte)
  mfg : List Byte
  deriving DecidableEq, Repr

/-- The events of GAP that go to the sink. -/
inductive Tev
  | found (addr : ℕ)
  | connected
  | connectFail (status : ℤ)
  | disconnected (reason : ℤ)
  | passkeyReq
  | encOk
  | encFail (status : ℤ)
  | notify (shortId : ℕ) (data : List Byte)
  | adv (addr : ℕ) (rssi : ℤ) (data : List Byte) (name : Option (List Byte))
  | unitAdv
  deriving DecidableEq, Repr

/-- NimBLE's GAP events. A new link has its handle, a repeated pairing what `ble_gap_conn_find`
says of its peer. -/
inductive GapEvent
  | disc (addr : ℕ) (fields : Option Fields) (rssi : ℤ)
  | discComplete
  | connect (status : ℤ) (handle : ℕ)
  | disconnect (handle : ℕ) (reason : ℤ)
  | termFailure (handle : ℕ) (status : ℤ)
  | passkeyAction (handle : ℕ) (input : Bool)
  | encChange (handle : ℕ) (status : ℤ)
  | notifyRx (handle attr : ℕ) (data : List Byte)
  | repeatPairing (handle : ℕ) (peer : Option ℕ)
  deriving DecidableEq, Repr

/-- The calls of the transport's table. -/
inductive Call
  | startScan (name : List Byte)
  | stopScan
  | connectFound
  | connectBonded
  | pair
  | request (r : Request)
  | disconnect
  | removeBond
  | keepOnlyBond
  | scanWindow

/-- What happens at the transport's borders. -/
inductive Act
  | call (c : Call) (rc : ℤ)
  | event (ev : GapEvent)
  | tev (ev : Tev)
  | disc (rc : ℤ)
  | window (rc : ℤ)
  | discCancel (rc : ℤ)
  | connect (addr : ℕ) (rc : ℤ)
  | cancel (rc : ℤ)
  | terminate (handle : ℕ) (rc : ℤ)
  | security (handle : ℕ) (rc : ℤ)
  | overflow (peer : ℕ)
  | deleted (peer : ℕ)
  | gatt (a : Transport.Act)

/-- A link of NimBLE: whether `ble_gap_terminate` was called for it, and whether it took a call that
it has not answered. -/
structure Link where
  handle : ℕ
  asked : Bool := false
  ending : Bool := false
  deriving DecidableEq, Repr

structure State where
  name : List Byte := []
  scanning : Bool := false
  found : Option ℕ := none
  window : Bool := false
  connecting : Bool := false
  connectCancelled : Bool := false
  scanDeferred : Bool := false
  dyingConn : Option ℕ := none
  /-- `s_connect_deferred`, with the address and `encrypt` -/
  connectDeferred : Option (ℕ × Bool) := none
  encryptOnConnect : Bool := false
  probing : Bool := false
  probePeer : ℕ := 0
  conn : Option ℕ := none
  q : Transport.State := {}
  /-- The event whose sink has not returned yet; for CONNECTED with the link. -/
  sink : Option (Option ℕ) := none
  /-- NimBLE's connect procedure is open (`ble_gap_conn_active`). -/
  proc : Bool := false
  links : List Link := []
  /-- The peers in the bond store, the oldest first. -/
  bonds : List ℕ := []
  log : List Act := []

/-- The answers of NimBLE and of the bond store during one step. -/
structure Env where
  gatt : Transport.Env
  disc : ℤ := 0
  discCancel : ℤ := 0
  connect : ℤ := 0
  cancel : ℤ := 0
  terminate : ℤ := 0
  terminate_ne : terminate ≠ eAlready := by decide
  security : ℤ := 0
  /-- `is_peer`: the address is the bonded peer's, by identity or by its key -/
  isPeer : ℕ → ℕ → Bool := fun a peer => a = peer
  delete : ℕ → ℤ := fun _ => 0
  /-- What the registered `ble_store_util_status_rr` leaves of a full store. -/
  evict : List ℕ → List ℕ := List.tail

def State.act (w : State) (a : Act) : State := { w with log := a :: w.log }

def State.emit (w : State) (ev : Tev) (link : Option ℕ) : State :=
  { w.act (.tev ev) with sink := some link }

def State.onQueue (w : State) (f : Transport.State → Transport.State) : State :=
  let q := f { w.q with log := [], starts := 0 }
  { w with q := q, log := q.log.map Act.gatt ++ w.log }

def State.linkReset (w : State) : State :=
  { w.onQueue Transport.State.linkReset with conn := none, probing := false }

def State.cacheDrop (w : State) : State := { w with q := { w.q with cache := none } }

/-- `ble_store_util_delete_peer`, by NimBLE's own book of the bonds. It stands for the assumption
that the bond store works: a delete that is answered 0 takes out this peer and no other, a failed
one nothing. -/
def State.deletePeer (w : State) (e : Env) (peer : ℕ) : ℤ × State :=
  if e.delete peer = 0 then
    (0, { w.act (.deleted peer) with bonds := w.bonds.filter fun p => p ≠ peer })
  else (e.delete peer, w)

def State.forgetPeer (w : State) (e : Env) (peer : ℕ) : ℤ × State :=
  w.cacheDrop.deletePeer e peer

/-- NimBLE stores the keys of a new bond, in its own book. It stands for the same assumption: the
bond is there then, and a full store makes room first, by the callback that it was given. -/
def State.storeBond (w : State) (e : Env) (peer : ℕ) : State :=
  if peer ∈ w.bonds then w
  else
    let w : State :=
      if w.bonds.length < maxBonds then w
      else
        let left := e.evict w.bonds
        let gone := w.bonds.filter fun p => p ∉ left
        { w with bonds := left, log := gone.map Act.deleted ++ .overflow peer :: w.log }
    if w.bonds.length < maxBonds then { w with bonds := w.bonds ++ [peer] } else w

def State.scanNow (w : State) (e : Env) : ℤ × State :=
  let w := if w.scanning ∨ w.window then w.act (.discCancel e.discCancel) else w
  (e.disc, { w.act (.disc e.disc) with window := false, scanning := e.disc = 0 })

/-- `scan_deferred` -/
def State.deferredScan (w : State) (e : Env) : State :=
  if w.scanDeferred then (State.scanNow { w with scanDeferred := false } e).2 else w

/-- `ble_gap_terminate`, by NimBLE's own book of its links. It stands for the assumption that a
terminate that was accepted ends in one DISCONNECT or TERM_FAILURE (until then the link is `ending`)
and a refused one in none. -/
def State.terminate (w : State) (e : Env) (handle : ℕ) : ℤ × State :=
  match w.links.find? fun l => l.handle = handle with
  | none => (eNotconn, w.act (.terminate handle eNotconn))
  | some l =>
    if l.ending then (eAlready, w.act (.terminate handle eAlready))
    else
      (e.terminate, { w.act (.terminate handle e.terminate) with
        links := w.links.map fun l =>
          if l.handle = handle then { l with asked := true, ending := e.terminate = 0 } else l })

def State.disconnect (w : State) (e : Env) : ℤ × State :=
  if w.connectDeferred.isSome then (0, { w with connectDeferred := none, connecting := false })
  else if w.connecting then
    let w := { w.act (.cancel e.cancel) with connecting := false, connectCancelled := w.proc }
    (if e.cancel = eAlready ∨ w.connectCancelled then 0 else e.cancel, w)
  else
    match w.conn with
    | none => (0, w)
    | some handle =>
      let r := State.terminate { w.linkReset with dyingConn := some handle } e handle
      (if r.1 = eNotconn then 0 else r.1,
        if r.1 ≠ 0 ∧ r.1 ≠ eAlready then { r.2 with dyingConn := none } else r.2)

def State.startScan (w : State) (e : Env) (name : List Byte) : ℤ × State :=
  let w := { w with name := name.take 31, found := none }
  let w :=
    if w.connecting then (State.disconnect { w with encryptOnConnect := false } e).2 else w
  if w.connectCancelled then (0, { w with scanDeferred := true }) else w.scanNow e

def State.stopScan (w : State) (e : Env) : ℤ × State :=
  if w.scanning then
    (if e.discCancel = eAlready then 0 else e.discCancel,
      { w.act (.discCancel e.discCancel) with scanDeferred := false, scanning := false })
  else (0, { w with scanDeferred := false })

def State.connectTo (w : State) (e : Env) (addr : ℕ) (encrypt : Bool) : ℤ × State :=
  if w.conn.isSome ∨ w.connecting then (eAlready, w)
  else if w.connectCancelled then (eBusy, w)
  else if w.dyingConn.isSome then
    (0, { w with connectDeferred := some (addr, encrypt), connecting := true })
  else
    let w := if w.window then { w.act (.discCancel e.discCancel) with window := false } else w
    (e.connect, { w.act (.connect addr e.connect) with
      encryptOnConnect := encrypt
      connecting := e.connect = 0
      proc := w.proc ∨ e.connect = 0 })

/-- `connect_deferred` -/
def State.deferredConnect (w : State) (e : Env) : State :=
  match w.connectDeferred with
  | none => w
  | some (addr, encrypt) =>
    let r := State.connectTo { w with connectDeferred := none, connecting := false } e addr encrypt
    if r.1 ≠ 0 then r.2.emit (.connectFail r.1) none else r.2

def State.connectFound (w : State) (e : Env) : ℤ × State :=
  match w.found with
  | none => (eNoent, w)
  | some addr =>
    match w.bonds.find? fun p => e.isPeer addr p with
    | some peer => w.connectTo e peer false
    | none => w.connectTo e addr false

def State.connectBonded (w : State) (e : Env) : ℤ × State :=
  match w.bonds.head? with
  | none => (eNoent, w)
  | some peer => w.connectTo e peer true

def State.scanWindow (w : State) (e : Env) : ℤ × State :=
  if w.scanning ∨ w.connecting ∨ w.connectCancelled ∨ w.window then (-1, w)
  else (if e.disc = 0 then 0 else -1, { w.act (.window e.disc) with window := e.disc = 0 })

/-- `ble_gap_security_initiate` -/
def State.initiate (w : State) (e : Env) (handle : ℕ) : ℤ × State :=
  (e.security, w.act (.security handle e.security))

def State.pair (w : State) (e : Env) : ℤ × State :=
  match w.conn with
  | none => (eNotconn, w)
  | some handle =>
    let w := { w.cacheDrop with probing := false }
    match e.gatt.peer.filter fun peer => peer ∈ w.bonds with
    | some peer =>
      let r := State.initiate { w with probing := true, probePeer := peer } e handle
      (r.1, if r.1 ≠ 0 then { r.2 with probing := false } else r.2)
    | none => w.initiate e handle

/-- Delete the oldest bond until none is left or one cannot be deleted. -/
def State.removeBonds (e : Env) : ℕ → State → ℤ × State
  | 0, w => (0, w)
  | n + 1, w =>
    match w.bonds.head? with
    | none => (0, w)
    | some peer =>
      let r := w.forgetPeer e peer
      if r.1 ≠ 0 then r else removeBonds e n r.2

def State.removeBond (w : State) (e : Env) : ℤ × State :=
  let w := (w.cacheDrop.disconnect e).2
  State.removeBonds e w.bonds.length w

def State.keepOnlyBond (w : State) (e : Env) : ℤ × State :=
  match w.conn, e.gatt.peer with
  | some _, some peer =>
    (0, (w.bonds.filter fun p => p ≠ peer).foldl (fun w p => (w.deletePeer e p).2) w)
  | _, _ => (eNotconn, w)

def State.request (w : State) (e : Env) (r : Request) : ℤ × State :=
  ((Transport.State.request { w.q with log := [], starts := 0 } e.gatt r).1,
    w.onQueue fun q => (q.request e.gatt r).2)

def State.perform (w : State) (e : Env) : Call → ℤ × State
  | .startScan name => w.startScan e name
  | .stopScan => w.stopScan e
  | .connectFound => w.connectFound e
  | .connectBonded => w.connectBonded e
  | .pair => w.pair e
  | .request r => w.request e r
  | .disconnect => w.disconnect e
  | .removeBond => w.removeBond e
  | .keepOnlyBond => w.keepOnlyBond e
  | .scanWindow => w.scanWindow e

def State.call (w : State) (e : Env) (c : Call) : State :=
  let r := w.perform e c
  r.2.act (.call c r.1)

def State.advEvent (w : State) (e : Env) (addr : ℕ) (fields : Option Fields) (rssi : ℤ) : State :=
  match w.bonds.head?.filter fun peer => e.isPeer addr peer with
  | some _ => w.emit .unitAdv none
  | none =>
    match fields.filter fun f => 2 ≤ f.mfg.length with
    | some f => w.emit (.adv addr rssi f.mfg (f.name.map (·.take 23))) none
    | none => w

def State.nameMatches (w : State) (fields : Option Fields) : Bool :=
  fields.any fun f => f.name = some w.name

def State.onConnect (w : State) (e : Env) (status : ℤ) (handle : ℕ) : State :=
  let w := { w with connecting := false }
  if status = 0 ∧ w.connectCancelled then
    -- nobody wants this link
    (State.terminate { w with connectCancelled := false, dyingConn := some handle } e
      handle).2.deferredScan e
  else if status = 0 then
    let w := w.onQueue fun q => { q.linkReset.act .connected with conn := true }
    State.emit { w with conn := some handle, probing := false } .connected (some handle)
  else if w.connectCancelled then State.deferredScan { w with connectCancelled := false } e
  else w.emit (.connectFail status) none

/-- The rest of `on_connect`, once the sink of CONNECTED is back. -/
def State.encryptNow (w : State) (e : Env) (handle : ℕ) : State :=
  if w.encryptOnConnect ∧ w.conn = some handle then
    let r := State.initiate { w with encryptOnConnect := false } e handle
    if r.1 ≠ 0 then r.2.emit (.encFail r.1) none else r.2
  else w

def State.onDisconnect (w : State) (e : Env) (handle : ℕ) (reason : ℤ) : State :=
  if w.dyingConn = some handle then State.deferredConnect { w with dyingConn := none } e
  else if w.conn ≠ some handle then w
  else
    let w := if w.probing ∧ authFailure reason then (w.forgetPeer e w.probePeer).2 else w
    let w := w.onQueue fun q => q.linkReset.act (.disconnected reason)
    State.emit { w with conn := none, probing := false } (.disconnected reason) none

def State.onTermFailure (w : State) (handle : ℕ) (status : ℤ) : State :=
  if w.dyingConn ≠ some handle then w
  else if w.connectDeferred.isSome then
    State.emit { w with dyingConn := none, connectDeferred := none, connecting := false }
      (.connectFail status) none
  else { w with dyingConn := none }

def State.onPasskeyAction (w : State) (e : Env) (handle : ℕ) (input : Bool) : State :=
  if w.conn ≠ some handle then w
  else
    let w := { w with probing := false }
    if input then w.emit .passkeyReq none else (w.terminate e handle).2

/-- The result of an encryption goes to the sink. -/
def State.encResult (w : State) (status : ℤ) : State :=
  if status = 0 then w.emit .encOk none else w.emit (.encFail status) none

def State.onEncChange (w : State) (e : Env) (handle : ℕ) (status : ℤ) : State :=
  if w.conn ≠ some handle then w
  else if w.probing then
    if status = eNotconn then w
    else
      let w := { w with probing := false }
      if status ≠ 0 ∧ authFailure status then
        let r := w.forgetPeer e w.probePeer
        let r := if r.1 = 0 then r.2.initiate e handle else r
        if r.1 ≠ 0 then r.2.emit (.encFail r.1) none else r.2
      else w.encResult status
  else w.encResult status

def State.onNotifyRx (w : State) (handle attr : ℕ) (data : List Byte) : State :=
  if w.conn ≠ some handle then w
  else
    match w.q.chrs.find? fun c => c.valHandle = attr with
    | none => if w.q.discDone ∧ w.q.cache.isSome then w.cacheDrop else w
    | some c => w.emit (.notify c.shortId (data.take bufLen)) none

def State.onRepeatPairing (w : State) (e : Env) (peer : Option ℕ) : State :=
  match peer with
  | some peer => (State.forgetPeer { w with probing := false } e peer).2
  | none => { w with probing := false }

def State.gapCb (w : State) (e : Env) : GapEvent → State
  | .disc addr fields rssi =>
    if w.window then w.advEvent e addr fields rssi
    else if w.scanning ∧ w.found.isNone ∧ w.nameMatches fields then
      State.emit { w with found := some addr } (.found addr) none
    else w
  | .discComplete => { w with scanning := false, window := false }
  | .connect status handle => w.onConnect e status handle
  | .disconnect handle reason => w.onDisconnect e handle reason
  | .termFailure handle status => w.onTermFailure handle status
  | .passkeyAction handle input => w.onPasskeyAction e handle input
  | .encChange handle status => w.onEncChange e handle status
  | .notifyRx handle attr data => w.onNotifyRx handle attr data
  | .repeatPairing _ peer => w.onRepeatPairing e peer

def State.onReset (w : State) : State :=
  State.linkReset { w with
    scanning := false
    connecting := false
    window := false
    connectCancelled := false
    scanDeferred := false
    connectDeferred := none
    dyingConn := none }

/-- NimBLE's own books when it reports an event. -/
def State.took (w : State) : GapEvent → State
  | .connect status handle =>
    { w with
      proc := false
      links := if status = 0 then { handle := handle } :: w.links else w.links }
  | .disconnect handle _ => { w with links := w.links.filter fun l => l.handle ≠ handle }
  | .termFailure handle _ =>
    { w with links := w.links.map fun l =>
        if l.handle = handle then { l with ending := false } else l }
  | _ => w

/-- What NimBLE may report: the end of its connect procedure, with a new handle; the end of a link;
a terminate that failed after it was taken; and whatever else. -/
def State.May (w : State) : GapEvent → Bool
  | .connect status handle => w.proc && (status ≠ 0 || w.links.all fun l => l.handle ≠ handle)
  | .disconnect handle _ => w.links.any fun l => l.handle = handle
  | .termFailure handle _ => w.links.any fun l => l.handle = handle && l.ending
  | _ => true

/-- No sink runs: NimBLE's task may call back. -/
def State.quiet (w : State) : Bool := w.sink.isNone && w.q.depth = 0

inductive Op
  | call (c : Call)
  | gap (ev : GapEvent)
  | gatt (k : ℕ) (word : Word)
  | returned
  | bonded (peer : ℕ)
  | hostReset

/-- The sink that was called last returns. -/
def State.sinkReturned (w : State) (e : Env) : Option State :=
  if 0 < w.q.depth then
    some (w.onQueue fun q => Transport.State.kick { q with depth := q.depth - 1 } e.gatt)
  else
    match w.sink with
    | none => none
    | some none => some { w with sink := none }
    | some (some handle) => some (State.encryptNow { w with sink := none } e handle)

/-- A host reset comes after NimBLE has ended its procedure and its links. -/
def State.next (w : State) (e : Env) : Op → Option State
  | .call c => some (w.call e c)
  | .gap ev =>
    if w.quiet && w.May ev then some (((w.act (.event ev)).took ev).gapCb e ev) else none
  | .gatt k word =>
    if w.quiet then
      (Transport.State.next { w.q with log := [], starts := 0 } e.gatt
        (.callback k word)).map fun q =>
        { w with q := q, log := q.log.map Act.gatt ++ w.log }
    else none
  | .returned => w.sinkReturned e
  | .bonded peer => if w.quiet then some (w.storeBond e peer) else none
  | .hostReset => if w.quiet && !w.proc && w.links.isEmpty then some w.onReset else none

def step (i : Op × Env) (w : State) : Option (Unit × State) :=
  (w.next i.2 i.1).map fun w' => ((), w')

end OpenCalifornia.Transport.Gap
