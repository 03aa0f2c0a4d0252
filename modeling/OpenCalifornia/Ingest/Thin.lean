import Mathlib
import OpenCalifornia.Lib.Dict

/-! # Thinning of ingested frames

`Replay.close`, `Replay.thin` and the loop of `ingest` that feeds them. An interpretation is known
by its numeric fields (`influx.numeric_fields`). -/

namespace OpenCalifornia.Ingest
open Lib (Dict)

/-- `SLOT_MS` -/
def slotMs : ℤ := 30000

def slotOf (tsMs : ℤ) : ℤ := tsMs / slotMs

/-- `(fn, ts, interp)` -/
structure Point (α : Type) where
  fn : String
  ts : ℤ
  interp : α
  deriving DecidableEq, Repr

/-- The part of `Replay` that thins: the slot's point that waits, and the state codes of the last
point written, by function. -/
structure Replay (α β : Type) where
  pending : Dict (ℤ × α)
  codes : Dict (Dict β)
  thinned : ℕ
  deriving DecidableEq, Repr

def Replay.new {α β : Type} : Replay α β := ⟨[], [], 0⟩

/-- `dump`, and a `Replay` from it. -/
def Replay.reload {α β : Type} (r : Replay α β) : Replay α β := { r with thinned := 0 }

/-- A record as the loop sees it: whether buspi's own points cover it. -/
structure Rec (α : Type) where
  fn : String
  ts : ℤ
  interp : α
  cov : Bool
  deriving DecidableEq, Repr

section Replay

variable {α β : Type} (numericFields : α → Dict β)

/-- `state_codes` -/
def stateCodes (interp : α) : Dict β :=
  (numericFields interp).filter fun kv => kv.1.endsWith "_code" || kv.1 = "ignition_on"

/-- `_emit` -/
def emit (r : Replay α β) (fn : String) (ts : ℤ) (interp : α) : Point α × Replay α β :=
  (⟨fn, ts, interp⟩, { r with codes := r.codes.set fn (stateCodes numericFields interp) })

/-- `[self._emit(f, *self._pending.pop(f)) for f in done]` -/
def emitAll (r : Replay α β) : List String → List (Point α) × Replay α β
  | [] => ([], r)
  | f :: fs =>
    match r.pending.get f with
    | none => emitAll r fs -- not met: `done` lists keys of `_pending`
    | some (t, i) =>
      let (p, r) := emit numericFields { r with pending := r.pending.del f } f t i
      let (out, r) := emitAll r fs
      (p :: out, r)

def close (r : Replay α β) (tsMs : ℤ) : List (Point α) × Replay α β :=
  let done := (r.pending.map Prod.fst).filter fun f =>
    (r.pending.get f).any fun (t, _) => slotOf t < slotOf tsMs
  emitAll numericFields r (done.mergeSort fun a b => a ≤ b)

variable [DecidableEq β]

/-- `thin` behind its `close`: the points that it appends. -/
def thinRest (r : Replay α β) (fn : String) (tsMs : ℤ) (interp : α) :
    List (Point α) × Replay α β :=
  let pend := r.pending.get fn
  let prev := match pend with
    | some (_, i) => some (stateCodes numericFields i)
    | none => r.codes.get fn
  if prev.any fun prev => ¬ (stateCodes numericFields interp).same prev then
    let (before, r) := match pend with
      | some (t, i) =>
        let (p, r) := emit numericFields { r with pending := r.pending.del fn } fn t i
        ([p], r)
      | none => ([], r)
    let (p, r) := emit numericFields r fn tsMs interp
    (before ++ [p], r)
  else
    ([], { r with
      thinned := r.thinned + if pend.isSome then 1 else 0
      pending := r.pending.set fn (tsMs, interp) })

def thin (r : Replay α β) (fn : String) (tsMs : ℤ) (interp : α) : List (Point α) × Replay α β :=
  let (out, r) := close numericFields r tsMs
  let (rest, r) := thinRest numericFields r fn tsMs interp
  (out ++ rest, r)

/-- `replay.close(ts) if cov else replay.thin(fn, ts, interp)` -/
def ingestRec (r : Replay α β) (x : Rec α) : List (Point α) × Replay α β :=
  if x.cov then close numericFields r x.ts else thin numericFields r x.fn x.ts x.interp

/-- A page, whose points are written and whose replay state is saved. -/
def ingestPage (r : Replay α β) : List (Rec α) → List (Point α) × Replay α β
  | [] => ([], r)
  | x :: xs =>
    let (out, r) := ingestRec numericFields r x
    let (more, r) := ingestPage r xs
    (out ++ more, r)

/-- The pages of a run. -/
def ingestPages (r : Replay α β) : List (List (Rec α)) → List (Point α) × Replay α β
  | [] => ([], r)
  | page :: pages =>
    let (out, r) := ingestPage numericFields r page
    let (more, r) := ingestPages r pages
    (out ++ more, r)

/-- Run after run, each from the cursor that the last one left. -/
def ingestRuns (r : Replay α β) : List (List (List (Rec α))) → List (Point α) × Replay α β
  | [] => ([], r)
  | run :: runs =>
    let (out, r) := ingestPages numericFields r.reload run
    let (more, r) := ingestRuns r runs
    (out ++ more, r)

end Replay

end OpenCalifornia.Ingest
