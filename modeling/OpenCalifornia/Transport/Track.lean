import OpenCalifornia.Lib.Monitor
import OpenCalifornia.Transport.Queue

/-! # The life of an operation

`Track` follows the acts of a run: the operations of the link that wait, the one that runs, its
procedure, and what NimBLE said last about it. `Track.allows` is the rule that each act has to
meet. -/

namespace OpenCalifornia.Transport
open Lib Lib.Bits Lib.Machine

/-- What NimBLE said last about the operation that runs. -/
inductive Said
  | nothing
  | refused (c : Call) (rc : ℤ)
  | final (c : Call) (status : ℤ) (attr : Option (List Byte))
  deriving DecidableEq, Repr

/-- The status and the data that an operation ends with. A search that ends without an error has
not found the characteristic, unless it is the discovery itself; the MTU exchange does not decide;
an operation that no procedure was asked for is about an unknown characteristic. -/
def Said.ends : Said → ℤ × List Byte
  | .nothing => (eNoent, [])
  | .refused .exchangeMtu _ => (0, [])
  | .refused _ rc => (rc, [])
  | .final .exchangeMtu _ _ => (0, [])
  | .final .discAllChrs status _ => (if status = eDone then 0 else status, [])
  | .final (.discChrsByUuid _) status _ => (if status = eDone then eNoent else status, [])
  | .final (.discAllDscs _ _) status _ => (if status = eDone then eNoent else status, [])
  | .final (.read _) status attr =>
    match attr with
    | some data => if status = 0 then (0, data.take bufLen) else (status, [])
    | none => (if status ≠ 0 then status else eUnknown, [])
  | .final (.write _ _) status _ => (status, [])

/-- The procedures that an operation asks for: its own characteristic is looked up, and a write
carries its own data. -/
def GattOp.Asks (o : GattOp) : Call → Prop
  | .exchangeMtu | .discAllChrs => o.kind = .disc
  | .discChrsByUuid shortId => shortId = o.shortId ∧ o.kind ≠ .disc ∧ o.kind ≠ .sub
  | .discAllDscs _ _ => o.kind = .sub
  | .read _ => o.kind = .read
  | .write _ data =>
    o.kind = .writeHb ∧ data = beBytes o.counter ∨ o.kind = .write ∧ data = o.data ∨
      o.kind = .sub ∧ data = [1, 0]

/-- The procedure that may follow: an operation goes on after the MTU exchange, after a lookup and
after a search for descriptors. -/
def Said.Leads : Said → Call → Prop
  | .nothing, _ => True
  | .refused .exchangeMtu _, .discAllChrs => True
  | .final .exchangeMtu _ _, .discAllChrs => True
  | .final (.discChrsByUuid _) _ _, .read _ => True
  | .final (.discChrsByUuid _) _ _, .write _ _ => True
  | .final (.discAllDscs _ _) _ _, .write _ _ => True
  | _, _ => False

structure Track where
  up : Bool := false
  /-- NimBLE has answered "not connected" on this link. -/
  notConn : Bool := false
  waiting : List GattOp := []
  running : Option GattOp := none
  pending : Option Call := none
  said : Said := .nothing

/-- The operations of the link that were accepted and have not ended, in order. -/
def Track.open_ (t : Track) : List GattOp := t.running.toList ++ t.waiting

/-- An operation is accepted on a link while there is room; the one that waits longest is begun
when none runs; it asks for its own procedures, one at a time; and it ends once, with what they
said. -/
def Track.allows (t : Track) : Act → Prop
  | .accept _ => t.up = true ∧ t.notConn = false ∧ t.open_.length < opq
  | .begin o => t.notConn = false ∧ t.running = none ∧ t.waiting.head? = some o
  | .start c _ => t.pending = none ∧ t.said.Leads c ∧ ∃ o, t.running = some o ∧ o.Asks c
  | .final c _ _ => t.pending = some c
  | .report r =>
    t.notConn = false ∧ t.pending = none ∧
      ∃ o, t.running = some o ∧ o.report t.said.ends.1 t.said.ends.2 = some r
  | .ended o status =>
    t.notConn = false ∧ t.pending = none ∧ t.running = some o ∧ o.kind = .sub ∧
      status = t.said.ends.1
  | .gone => t.notConn = true
  | .underflow => False
  | .connected | .disconnected _ => t.open_ = [] ∧ t.up = false
  | .reset => True

def Track.apply (t : Track) : Act → Track
  | .connected => { t with up := true }
  | .reset => {}
  | .accept o => { t with waiting := t.waiting ++ [o] }
  | .begin o => { t with running := some o, waiting := t.waiting.tail, said := .nothing }
  | .start c rc =>
    { t with
      pending := if rc = 0 then some c else none
      said := if rc = 0 then t.said else .refused c rc
      notConn := t.notConn ∨ rc = eNotconn }
  | .final c status attr =>
    { t with
      pending := none
      said := .final c status attr
      notConn := t.notConn ∨ status = eNotconn }
  | .report _ | .ended _ _ => { t with running := none }
  | .gone => { t with running := none, waiting := [], pending := none }
  | _ => t

def Track.monitor : Monitor Track Act := ⟨Track.apply, Track.allows⟩

/-- The acts so far met the rules, and the link's operations stand so now. -/
abbrev At (t₀ : Track) (log : List Act) (t : Track) : Prop := Track.monitor.At t₀ log t

/-- What decides about the queue; the characteristic table and the cache are left out. -/
structure Core where
  conn : Bool
  dying : Bool
  busy : Bool
  gen : ℕ
  link : ℕ
  queue : List GattOp
  procs : List Proc

def State.core (q : State) : Core where
  conn := q.conn
  dying := q.dying
  busy := q.busy
  gen := q.gen
  link := q.link
  queue := q.queue
  procs := q.procs

/-- The procedures that would call this link back. -/
def Core.current (q : Core) : List Call :=
  (q.procs.filter fun p => p.gen = q.gen).map Proc.call

/-- The procedures that NimBLE holds are of this link or of an earlier one, and only those of this
link carry its number. -/
def Core.Sorted (q : Core) : Prop :=
  ∀ p ∈ q.procs, p.gen ≤ q.gen ∧ p.link ≤ q.link ∧ (p.link = q.link ↔ p.gen = q.gen)

/-- Nothing runs. -/
structure Idle (t : Track) (q : Core) : Prop where
  up : t.up = q.conn
  gone : t.notConn = q.dying
  off : q.conn = false ∨ q.dying = true → q.queue = []
  room : q.queue.length ≤ opq
  sorted : q.Sorted
  busy : q.busy = false
  running : t.running = none
  waiting : t.waiting = q.queue
  pending : t.pending = none
  current : q.current = []

/-- The operation `o` runs. -/
structure Runs (t : Track) (q : Core) (o : GattOp) : Prop where
  up : t.up = true
  conn : q.conn = true
  dying : q.dying = false
  room : q.queue.length ≤ opq
  sorted : q.Sorted
  busy : q.busy = true
  running : t.running = some o
  queue : q.queue = o :: t.waiting

/-- The operation has no procedure: it is about to end or to go on. -/
structure Stopped (t : Track) (q : Core) (o : GattOp) : Prop extends Runs t q o where
  pending : t.pending = none
  current : q.current = []

/-- The operation waits for its procedure. -/
structure Waits (t : Track) (q : Core) (o : GattOp) (c : Call) : Prop extends Runs t q o where
  notConn : t.notConn = false
  pending : t.pending = some c
  current : q.current = [c]
  asks : o.Asks c

/-- An operation waits for its procedure, or nothing runs. -/
inductive Loose (t : Track) (q : State) : Prop
  | idle (h : Idle t q.core)
  | waits (o : GattOp) (c : Call) (h : Waits t q.core o c)

/-- Between two steps nothing is left to do, or a sink on its way back does it. -/
structure Tidy (t : Track) (q : State) : Prop where
  loose : Loose t q
  kick : q.busy = false → q.queue = [] ∨ 0 < q.depth

/-- The status and the data are what the operation ends with. -/
def Ends (t : Track) (status : ℤ) (data : List Byte) : Prop :=
  if status = eNotconn then t.notConn = true
  else t.notConn = false ∧ t.said.ends = (status, data)

theorem Core.not_current {q : Core} (h : q.current = []) : ∀ p ∈ q.procs, p.gen ≠ q.gen := by
  intro p hp hg
  have hm : p.call ∈ q.current :=
    List.mem_map_of_mem (List.mem_filter.mpr ⟨hp, decide_eq_true hg⟩)
  rw [h] at hm
  exact List.not_mem_nil hm

theorem Core.Sorted.bump {q : Core} (h : q.Sorted) {link : ℕ} (hl : q.link ≤ link)
    (hc : link = q.link → q.current = []) : ∀ p ∈ q.procs,
      p.gen ≤ q.gen + 1 ∧ p.link ≤ link ∧ (p.link = link ↔ p.gen = q.gen + 1) := by
  intro p hp
  obtain ⟨hg, hlk, hiff⟩ := h p hp
  refine ⟨by omega, by omega, iff_of_false (fun he => ?_) (by omega)⟩
  have hlink : link = q.link := by omega
  exact Core.not_current (hc hlink) p hp (hiff.mp (he.trans hlink))

theorem Core.current_bump {q : Core} (h : q.Sorted) :
    ({ q with gen := q.gen + 1 } : Core).current = [] := by
  unfold Core.current
  rw [List.map_eq_nil_iff, List.filter_eq_nil_iff]
  intro p hp
  have := (h p hp).1
  simp only [decide_eq_true_eq]
  omega

end OpenCalifornia.Transport
