import OpenCalifornia.Lib.Dict

/-! # A pass of reads

`read_all` on both paths of `device.py`: every state characteristic is read, up to three times,
while notifications come in. Which of them is later than a read is told by the object that was
cached. -/

namespace OpenCalifornia.Reads
open Lib

abbrev Frame := List ℕ

/-- A `bytes` object. -/
structure Obj where
  id : ℕ
  data : Frame
  deriving DecidableEq

/-- `bytes(data)`: a new object, or the one empty object there is. -/
def newBytes (n : ℕ) (data : Frame) : Obj := if data = [] then ⟨0, []⟩ else ⟨n, data⟩

/-- A row of the function table, with its characteristic in lower case. -/
structure Func where
  name : String
  stateChar : Option String

/-- The function table: a name is there once, and no two functions share a characteristic. -/
structure Funcs where
  rows : List Func
  names : (rows.map Func.name).Nodup
  chars : (rows.filterMap Func.stateChar).Nodup

/-- What the trace of a pass tells: a notification, a read that begins, a frame that was read. -/
inductive Ev
  | push (uuid : String) (b : Frame)
  | begins (name : String)
  | read (name : String) (data : Frame)
  deriving DecidableEq

/-- The variables of a pass: the cached notifications, the next new object, `seen`, `out` and what
happened so far. -/
structure Pass where
  notif : Dict Obj := []
  next : ℕ := 1
  seen : Dict (Option Obj) := []
  out : Dict Frame := []
  trace : List Ev := []

/-- `_handler` -/
def Pass.push (p : Pass) (u : String × Frame) : Pass :=
  { p with
    notif := p.notif.set u.1 (newBytes p.next u.2)
    next := p.next + 1
    trace := p.trace ++ [.push u.1 u.2] }

def Pass.pushes (p : Pass) (us : List (String × Frame)) : Pass := us.foldl Pass.push p

/-- One attempt at a read: the notifications while it is awaited, the answer or an exception,
whether the link is up then, and the notifications of the pause that follows an exception. -/
structure Attempt where
  during : List (String × Frame)
  answer : Option Frame
  up : Bool
  pause : List (String × Frame)

/-- What the unit and the link do in a pass. -/
structure World where
  attempt : String → ℕ → Attempt
  upAfter : String → Bool

variable (w : World)

/-- `_read_char_with_retry`, with so many attempts left. -/
def readCharWithRetry (name : String) : ℕ → ℕ → Pass → (Option Frame × Bool) × Pass
  | 0, _, p => ((none, w.upAfter name), p)
  | k + 1, i, p =>
    let a := w.attempt name i
    let p := p.pushes a.during
    match a.answer with
    | some data => ((some data, a.up), { p with trace := p.trace ++ [.read name data] })
    | none =>
      if a.up = false then ((none, false), p)
      else readCharWithRetry name k (i + 1) (p.pushes a.pause)

/-- The cached notification is noted. -/
def Pass.note (p : Pass) (name key : String) : Pass :=
  { p with seen := p.seen.set key (p.notif.get key), trace := p.trace ++ [.begins name] }

/-- The loop over the functions. -/
def readLoop : List Func → Pass → Pass
  | [], p => p
  | f :: fs, p =>
    match f.stateChar with
    | none => readLoop fs p
    | some key =>
      let r := readCharWithRetry w f.name 3 0 (p.note f.name key)
      let p := match r.1.1 with
        | some data => { r.2 with out := r.2.out.set f.name data }
        | none => r.2
      if r.1.2 = false then p else readLoop fs p

/-- One turn of `_later_pushes`. -/
def laterPush (p : Pass) (f : Func) : Pass :=
  match f.stateChar with
  | none => p
  | some key =>
    if f.name = "lighting" then p
    else
      match p.seen.get key, p.notif.get key with
      | some o, some cur => if some cur ≠ o then { p with out := p.out.set f.name cur.data } else p
      | _, _ => p

def laterPushes (funcs : Funcs) (p : Pass) : Pass := funcs.rows.foldl laterPush p

/-- The notifications of the subscription, before the pass. -/
def subscribed (earlier : List (String × Frame)) : Pass :=
  { Pass.pushes {} earlier with trace := [] }

/-- `PersistentSession.read_all` -/
def readAll (funcs : Funcs) (earlier : List (String × Frame)) : Pass :=
  laterPushes funcs (readLoop w funcs.rows (subscribed earlier))

/-- The turns of `_await_water_push`, with the notifications of each; none while the wait is off. -/
def awaitTurns (key : String) (seen0 : Option Frame) : List (List (String × Frame)) → Pass → Pass
  | [], p => p
  | us :: turns, p =>
    let p := p.pushes us
    match p.notif.get key with
    | some cur =>
      if some cur.data ≠ seen0 then { p with out := p.out.set "water" cur.data }
      else awaitTurns key seen0 turns p
    | none => awaitTurns key seen0 turns p

def awaitWaterPush (funcs : Funcs) (turns : List (List (String × Frame))) (p : Pass) : Pass :=
  match (funcs.rows.find? fun f => f.name = "water").bind Func.stateChar with
  | none => p
  | some key => awaitTurns key ((p.notif.get key).map Obj.data) turns p

/-- `CamperDevice._read_all_on` -/
def readAllOn (funcs : Funcs) (earlier : List (String × Frame))
    (turns : List (List (String × Frame))) : Pass :=
  awaitWaterPush funcs turns (readAll w funcs earlier)

/-- A frame of this function's characteristic that arrived. -/
def arrival (name key : String) : Ev → Option Frame
  | .push u b => if u = key then some b else none
  | .read n data => if n = name then some data else none
  | .begins _ => none

/-- The frame that arrived last among the read and the notifications of a pass. -/
def lastFrame (name key : String) (trace : List Ev) : Option Frame :=
  (trace.filterMap (arrival name key)).getLast?

/-- A characteristic in a pass: whether its read began, the notifications before that, those while
the read was under way, the answer, and the notifications behind it. -/
structure Course where
  begun : Bool := false
  before : List Frame := []
  during : List Frame := []
  answer : Option Frame := none
  after : List Frame := []
  deriving DecidableEq

def Course.next (name key : String) (c : Course) : Ev → Course
  | .push u b =>
    if u ≠ key then c
    else if c.begun = false then { c with before := c.before ++ [b] }
    else if c.answer = none then { c with during := c.during ++ [b] }
    else { c with after := c.after ++ [b] }
  | .begins n => if n = name then { c with begun := true } else c
  | .read n data => if n = name then { c with answer := some data } else c

def course (name key : String) (trace : List Ev) : Course :=
  trace.foldl (Course.next name key) {}

/-- The frame that is cached when the read begins. -/
def Course.cached (c : Course) (earlier : Option Frame) : Option Frame :=
  c.before.getLast?.or earlier

end OpenCalifornia.Reads
