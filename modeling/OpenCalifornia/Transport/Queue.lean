import OpenCalifornia.Transport.State

/-! # The satellite's transport: its operation queue

`op_finish` calls the event sink and kicks the queue when the sink returns. The sink may call the
transport again, so an event ends a step here: the sink's calls are steps of their own, and its
return is the step that kicks. -/

namespace OpenCalifornia.Transport
open Lib Lib.Bits Lib.Machine Control.Firmware

/-- A procedure asked for, with the callbacks' argument of this link. -/
def State.start (q : State) (e : Env) (c : Call) : ℤ × State :=
  let rc := e.start q.starts
  (rc, { q.act (.start c rc) with
    starts := q.starts + 1
    procs := if rc = 0 then q.procs ++ [⟨c, q.gen, q.link⟩] else q.procs })

/-- `op_finish`, `next` being the `op_kick` that ends it where no sink is called. -/
def State.opFinish (next : State → State) (q : State) (status : ℤ) (data : List Byte) : State :=
  if status = eNotconn then
    { q.act .gone with dying := true, gen := q.gen + 1, queue := [], busy := false }
  else
    match q.queue with
    | [] => q.act .underflow
    | o :: queue =>
      let q := if status = attErr 1 ∨ status = attErr 10 then { q with cache := none } else q
      let q := { q with queue := queue, busy := false }
      match o.report status data with
      | some r => { q.act (.report r) with depth := q.depth + 1 }
      | none => next (q.act (.ended o status))

/-- A counter of four bytes, the highest first. -/
def beBytes (n : ℕ) : List Byte :=
  [BitVec.ofNat 8 (n >>> 24), BitVec.ofNat 8 (n >>> 16), BitVec.ofNat 8 (n >>> 8),
    BitVec.ofNat 8 n]

def State.opIssue (q : State) (e : Env) (o : GattOp) (c : Chr) : ℤ × State :=
  match o.kind with
  | .read => q.start e (.read c.valHandle)
  | .write => q.start e (.write c.valHandle o.data)
  | _ => q.start e (.write c.valHandle (beBytes o.counter))

def State.cccdEnable (q : State) (e : Env) (cccd : ℕ) : ℤ × State :=
  q.start e (.write cccd [1, 0])

def State.discStart (next : State → State) (q : State) (e : Env) : ℤ × State :=
  let r := q.cacheTake e
  if r.1 then (0, r.2.opFinish next 0 []) else r.2.start e .discAllChrs

def State.opBegin (next : State → State) (q : State) (e : Env) (o : GattOp) : ℤ × State :=
  match o.kind with
  | .disc =>
    let q := { q with chrs := [], discDone := false }
    let r := q.start e .exchangeMtu
    if r.1 = 0 then r else r.2.discStart next e
  | .sub =>
    match q.findShort o.shortId with
    | some c =>
      if c.cccd ≠ 0 then q.cccdEnable e c.cccd
      else if c.endHandle = 0 then (eNoent, q)
      else if c.endHandle ≤ c.valHandle then (eNoent, q)
      else
        { q with cccd := 0, dscPast := false }.start e (.discAllDscs c.valHandle c.endHandle)
    | none => (eNoent, q)
  | _ =>
    match q.findShort o.shortId with
    | some c => q.opIssue e o c
    | none => if q.discDone then (eNoent, q) else q.start e (.discChrsByUuid o.shortId)

/-- `op_kick`. An operation that fails at once is finished and the next one is begun, so a turn for
each waiting operation is enough. -/
def State.opKick (e : Env) : ℕ → State → State
  | 0, q => q
  | n + 1, q =>
    if q.busy then q
    else
      match q.queue with
      | [] => q
      | o :: _ =>
        let r := State.opBegin (State.opKick e n) { q.act (.begin o) with busy := true } e o
        if r.1 ≠ 0 then r.2.opFinish (State.opKick e n) r.1 [] else r.2

/-- `op_kick` from outside. -/
def State.kick (q : State) (e : Env) : State := State.opKick e q.queue.length q

def State.opPush (q : State) (e : Env) (o : GattOp) : ℤ × State :=
  if ¬ q.conn ∨ q.dying then (eNotconn, q)
  else if q.queue.length ≥ opq then (eNomem, q)
  else if o.data.length > frameMax then (eInval, q)
  else (0, { q.act (.accept o) with queue := q.queue ++ [o] }.kick e)

/-- `op_finish` from a callback. -/
def State.finish (q : State) (e : Env) (status : ℤ) (data : List Byte) : State :=
  q.opFinish (fun q => q.kick e) status data

/-- A callback that goes on with another procedure, or fails the operation. -/
def State.orFinish (r : ℤ × State) (e : Env) : State :=
  if r.1 ≠ 0 then r.2.finish e r.1 [] else r.2

def State.onMtu (q : State) (e : Env) (status : ℤ) : State :=
  if status = eNotconn then q.finish e status []
  else State.orFinish (q.discStart (fun q => q.kick e) e) e

def State.onDiscChr (q : State) (e : Env) : Word → State
  | .chr uuid defHandle valHandle notifies =>
    match uuid with
    | some shortId => q.addChr ⟨shortId, defHandle, valHandle, 0, notifies, 0⟩
    | none => q
  | .dsc _ _ => q
  | .final status _ =>
    if status ≠ eDone then q.finish e status []
    else
      (({ q with chrs := endHandles q.chrs, discDone := true } : State).cacheStore e).finish e 0 []

def State.onLookup (q : State) (e : Env) : Word → State
  | .chr _ defHandle valHandle notifies =>
    match q.queue.head? with
    | some o => q.addChr ⟨o.shortId, defHandle, valHandle, 0, notifies, 0⟩
    | none => q
  | .dsc _ _ => q
  | .final status _ =>
    if status ≠ eDone then q.finish e status []
    else
      match q.queue.head? with
      | some o =>
        match q.findShort o.shortId with
        | some c => State.orFinish (q.opIssue e o c) e
        | none => q.finish e eNoent []
      | none => q.finish e eNoent []

/-- `on_dsc`. The first client configuration before the next declaration counts. -/
def State.onDsc (q : State) (e : Env) : Word → State
  | .chr _ _ _ _ => q
  | .dsc uuid handle =>
    if uuid = 0x2800 ∨ uuid = 0x2801 ∨ uuid = 0x2803 then { q with dscPast := true }
    else if ¬ q.dscPast ∧ q.cccd = 0 ∧ uuid = 0x2902 then { q with cccd := handle }
    else q
  | .final status _ =>
    if status ≠ eDone then q.finish e status []
    else if q.cccd = 0 then q.finish e eNoent []
    else
      let q : State :=
        match q.queue.head? with
        | some o =>
          match q.findShort o.shortId with
          | some _ =>
            let q : State := q.updateShort o.shortId fun c => { c with cccd := q.cccd }
            { q with cache := q.cache.map fun c : Cache => { c with table := q.chrs } }
          | none => q
        | none => q
      State.orFinish (q.cccdEnable e q.cccd) e

def State.onRead (q : State) (e : Env) : Word → State
  | .final status attr =>
    match attr with
    | some data =>
      if status = 0 then q.finish e 0 (data.take bufLen) else q.finish e status []
    | none => q.finish e (if status ≠ 0 then status else eUnknown) []
  | _ => q

def State.onWritten (q : State) (e : Env) : Word → State
  | .final status _ => q.finish e status []
  | _ => q

/-- A callback of NimBLE. One that was started for an earlier link is dropped. -/
def State.callback (q : State) (e : Env) (p : Proc) (w : Word) : State :=
  if p.gen ≠ q.gen then q
  else
    let q :=
      match w with
      | .final status attr => q.act (.final p.call status attr)
      | _ => q
    match p.call with
    | .exchangeMtu =>
      match w with
      | .final status _ => q.onMtu e status
      | _ => q
    | .discAllChrs => q.onDiscChr e w
    | .discChrsByUuid _ => q.onLookup e w
    | .discAllDscs _ _ => q.onDsc e w
    | .read _ => q.onRead e w
    | .write _ _ => q.onWritten e w

/-- The calls of the transport's table that use the queue. -/
inductive Request
  | discover
  | read (shortId : ℕ)
  | subscribe (shortId : ℕ)
  | writeHeartbeat (counter : ℕ)
  | write (shortId : ℕ) (data : List Byte)

def State.request (q : State) (e : Env) : Request → ℤ × State
  | .discover => q.opPush e { kind := .disc, shortId := 0 }
  | .read shortId => q.opPush e { kind := .read, shortId := shortId }
  | .subscribe shortId =>
    if q.discDone ∧ ¬ (q.findShort shortId).any Chr.notifies then (eNotsup, q)
    else q.opPush e { kind := .sub, shortId := shortId }
  | .writeHeartbeat counter =>
    q.opPush e { kind := .writeHb, shortId := heartbeatChar, counter := counter }
  | .write shortId data =>
    if ¬ writeOk shortId data.length then (eInval, q)
    else q.opPush e { kind := .write, shortId := shortId, data := data }

/-- What can happen to the transport. -/
inductive Input
  | connected
  | lost (reason : ℤ)
  | hostReset
  | disconnect
  | cacheDrop
  | request (r : Request)
  | returned
  | callback (k : ℕ) (w : Word)

/-- What a procedure says: a search names what it found and then ends with a status, the others end
at once. -/
def Call.says : Call → Word → Bool
  | .discAllChrs, .chr _ _ _ _ => true
  | .discChrsByUuid _, .chr _ _ _ _ => true
  | .discAllDscs _ _, .dsc _ _ => true
  | .discAllChrs, .final status _ => status ≠ 0
  | .discChrsByUuid _, .final status _ => status ≠ 0
  | .discAllDscs _ _, .final status _ => status ≠ 0
  | .exchangeMtu, .final _ _ => true
  | .read _, .final _ _ => true
  | .write _ _, .final _ _ => true
  | _, _ => false

def Word.isFinal : Word → Bool
  | .final _ _ => true
  | _ => false

/-- NimBLE calls back from its host task only, when no sink runs; a sink returns while one runs. -/
def State.next (q : State) (e : Env) : Input → Option State
  | .connected =>
    if q.depth = 0 then some { q.linkReset.act .connected with conn := true } else none
  | .lost reason =>
    if q.depth = 0 ∧ q.conn then some (q.linkReset.act (.disconnected reason)) else none
  | .hostReset => if q.depth = 0 then some q.linkReset else none
  | .disconnect => some (if q.conn then q.linkReset else q)
  | .cacheDrop => some { q with cache := none }
  | .request r => some (q.request e r).2
  | .returned => if 0 < q.depth then some ({ q with depth := q.depth - 1 }.kick e) else none
  | .callback k w =>
    match q.procs[k]? with
    | some p =>
      if q.depth = 0 ∧ p.call.says w then
        let q := if w.isFinal then { q with procs := q.procs.eraseIdx k } else q
        some (q.callback e p w)
      else none
    | none => none

/-- One input, with what it did. -/
def step (i : Input × Env) (q : State) : Option (List Act × State) :=
  (State.next { q with log := [], starts := 0 } i.2 i.1).map fun q' => (q'.log, q')

end OpenCalifornia.Transport
