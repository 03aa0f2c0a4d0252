import OpenCalifornia.Control.Planner
import OpenCalifornia.Lib.Machine

/-! # The satellite's transport: its data

The GATT operation queue of `ble_nimble.c`, the characteristic table and its cache. What NimBLE
answers comes from outside; the procedures it has started and not ended are kept beside the queue.
-/

namespace OpenCalifornia.Transport
open Lib Lib.Bits Lib.Machine

/-! The codes of `ble_hs.h`. -/

def eInval : ℤ := 3
def eNoent : ℤ := 5
def eNomem : ℤ := 6
def eNotconn : ℤ := 7
def eNotsup : ℤ := 8
def eDone : ℤ := 14
def eUnknown : ℤ := 17

/-- `BLE_HS_ATT_ERR` -/
def attErr (code : ℤ) : ℤ := 0x100 + code

def opq : ℕ := 48
def maxChrs : ℕ := 40
/-- `sizeof s_buf` -/
def bufLen : ℕ := 512
def heartbeatChar : ℕ := 0x1003

inductive Kind
  | disc | read | writeHb | sub | write
  deriving DecidableEq, Repr

/-- `struct op` -/
structure GattOp where
  kind : Kind
  shortId : ℕ
  counter : ℕ := 0
  data : List Byte := []
  deriving DecidableEq, Repr

/-- `struct chr` -/
structure Chr where
  shortId : ℕ
  defHandle : ℕ
  valHandle : ℕ
  endHandle : ℕ := 0
  notifies : Bool
  cccd : ℕ := 0
  deriving DecidableEq, Repr

/-- The cached table, and the peer that it is of. -/
structure Cache where
  peer : ℕ
  table : List Chr
  count : ℕ
  deriving DecidableEq, Repr

/-- The procedures of NimBLE that the transport starts. -/
inductive Call
  | exchangeMtu
  | discAllChrs
  | discChrsByUuid (shortId : ℕ)
  | discAllDscs (valHandle endHandle : ℕ)
  | read (handle : ℕ)
  | write (handle : ℕ) (data : List Byte)
  deriving DecidableEq, Repr

/-- A procedure that NimBLE started: its callback's argument, and the link that it runs on. -/
structure Proc where
  call : Call
  gen : ℕ
  link : ℕ
  deriving DecidableEq, Repr

/-- What NimBLE says to a callback: a characteristic, a descriptor, or the end of the procedure. -/
inductive Word
  | chr (uuid : Option ℕ) (defHandle valHandle : ℕ) (notifies : Bool)
  | dsc (uuid : ℕ) (handle : ℕ)
  | final (status : ℤ) (attr : Option (List Byte))

/-- The events that end an operation. -/
inductive Tev
  | discovered | read | heartbeat | written
  deriving DecidableEq, Repr

structure Report where
  ev : Tev
  status : ℤ
  charShort : ℕ
  data : List Byte
  deriving DecidableEq, Repr

/-- What `op_finish` reports of an operation. A subscription ends without an event. -/
def GattOp.report (o : GattOp) (status : ℤ) (data : List Byte) : Option Report :=
  match o.kind with
  | .disc => some ⟨.discovered, status, 0, []⟩
  | .read => some ⟨.read, status, o.shortId, if status ≠ 0 then [] else data⟩
  | .writeHb => some ⟨.heartbeat, status, heartbeatChar, []⟩
  | .sub => none
  | .write => some ⟨.written, status, o.shortId, []⟩

/-- What happens at the transport's borders and in its queue. -/
inductive Act
  | connected
  | disconnected (reason : ℤ)
  | reset
  | accept (o : GattOp)
  | begin (o : GattOp)
  | start (c : Call) (rc : ℤ)
  | final (c : Call) (status : ℤ) (attr : Option (List Byte))
  | report (r : Report)
  | ended (o : GattOp) (status : ℤ)
  | gone
  | underflow

structure State where
  conn : Bool := false
  dying : Bool := false
  /-- `s_gen`, which does not wrap within the life of a device -/
  gen : ℕ := 0
  chrs : List Chr := []
  discDone : Bool := false
  cccd : ℕ := 0
  dscPast : Bool := false
  queue : List GattOp := []
  busy : Bool := false
  cache : Option Cache := none
  /-- The number of links so far. -/
  link : ℕ := 0
  /-- The events whose sink has not returned yet. -/
  depth : ℕ := 0
  procs : List Proc := []
  /-- The procedures asked for in this step. -/
  starts : ℕ := 0
  log : List Act := []

/-- NimBLE's answers during one step: what each start returns, and the peer of the connection. A
connection that is gone answers so until its disconnect is reported. -/
structure Env where
  start : ℕ → ℤ
  peer : Option ℕ
  gone : ∀ k, start k = eNotconn → peer = none ∧ start (k + 1) = eNotconn

def State.act (q : State) (a : Act) : State := { q with log := a :: q.log }

def State.findShort (q : State) (shortId : ℕ) : Option Chr :=
  q.chrs.find? fun c => c.shortId = shortId

/-- Change the entry that `find_short` finds. -/
def State.updateShort (q : State) (shortId : ℕ) (f : Chr → Chr) : State :=
  match q.chrs.findIdx? fun c => c.shortId = shortId with
  | some i => { q with chrs := q.chrs.modify i f }
  | none => q

def State.addChr (q : State) (c : Chr) : State :=
  match q.findShort c.shortId with
  | some _ => q.updateShort c.shortId fun _ => c
  | none => if q.chrs.length ≥ maxChrs then q else { q with chrs := q.chrs ++ [c] }

/-- Where each characteristic's descriptors end. -/
def endHandles (chrs : List Chr) : List Chr :=
  chrs.map fun c => { c with
    endHandle := (chrs.filter fun d => d.defHandle > c.valHandle).foldl
      (fun e d => if d.defHandle - 1 < e then d.defHandle - 1 else e) 0xffff }

def State.cacheStore (q : State) (e : Env) : State :=
  match e.peer with
  | some peer => if q.chrs = [] then q else { q with cache := some ⟨peer, q.chrs, q.chrs.length⟩ }
  | none => q

def State.cacheTake (q : State) (e : Env) : Bool × State :=
  match q.cache, e.peer with
  | some c, some peer =>
    if c.peer = peer then
      (true, { q with chrs := c.table.take c.count, discDone := true })
    else (false, { q with cache := none })
  | _, _ => (false, q)

def State.linkReset (q : State) : State :=
  { q.act .reset with
    conn := false
    dying := false
    gen := q.gen + 1
    queue := []
    busy := false
    chrs := []
    discDone := false
    link := q.link + 1 }

end OpenCalifornia.Transport
