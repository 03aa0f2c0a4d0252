import OpenCalifornia.Transport.Gap
import OpenCalifornia.Transport.Link

/-! # Connects, links and the scan that waits

`Past` follows what the transport was asked for and what it said: the connect that awaits its
report, the link that the sink was told of, the scan that is owed. -/

namespace OpenCalifornia.Transport.Gap
open Lib Lib.Machine

def Call.connects : Call → Bool
  | .connectFound | .connectBonded => true
  | _ => false

/-- The calls that give a link up. -/
def Call.drops : Call → Bool
  | .disconnect | .removeBond => true
  | _ => false

/-- The calls that give a connect up: a pairing scan ends the one that is open. -/
def Call.givesUp : Call → Bool
  | .startScan _ => true
  | c => c.drops

/-- The link that an event of NimBLE is about. -/
def GapEvent.handle : GapEvent → Option ℕ
  | .connect _ handle | .disconnect handle _ | .termFailure handle _ | .passkeyAction handle _
  | .encChange handle _ | .notifyRx handle _ _ | .repeatPairing handle _ => some handle
  | .disc _ _ _ | .discComplete => none

/-- The events that only a link of the sink's has. -/
def Tev.ofLink : Tev → Bool
  | .disconnected _ | .passkeyReq | .encOk | .encFail _ | .notify _ _ => true
  | _ => false

structure Past where
  /-- A connect was accepted, not given up and not reported yet. -/
  awaited : Bool := false
  /-- The link that was reported and not given up. -/
  up : Option ℕ := none
  /-- A connect procedure of NimBLE is open. -/
  proc : Bool := false
  /-- A pairing scan was asked for while such a procedure was open, and was not stopped. -/
  owed : Bool := false
  newest : Option GapEvent := none

def Past.apply (p : Past) : Act → Past
  | .call c rc =>
    { p with
      awaited := if c.connects ∧ rc = 0 then true else if c.givesUp then false else p.awaited
      up := if c.drops then none else p.up
      owed := match c with
        | .startScan _ => p.proc
        | .stopScan => false
        | _ => p.owed }
  | .event ev =>
    { p with
      newest := some ev
      proc := match ev with
        | .connect _ _ => false
        | _ => p.proc }
  | .tev .connected => { p with awaited := false, up := p.newest.bind GapEvent.handle }
  | .tev (.connectFail _) => { p with awaited := false }
  | .tev (.disconnected _) => { p with up := none }
  | .disc _ => { p with owed := false }
  | .connect _ rc => { p with proc := p.proc ∨ rc = 0 }
  | _ => p

/-- A connect is accepted when none awaits its report and no link is up. CONNECTED and CONNECT_FAIL
are for the connect that awaits it. What a link delivers comes from the link that is up. -/
def Past.allows (p : Past) : Act → Prop
  | .call c rc => c.connects = true → rc = 0 → p.awaited = false ∧ p.up = none
  | .tev .connected => p.awaited = true ∧ ∃ handle, p.newest = some (.connect 0 handle)
  | .tev (.connectFail _) => p.awaited = true
  | .tev ev => ev.ofLink = true → ∃ handle, p.up = some handle ∧
      p.newest.bind GapEvent.handle = some handle
  | .gatt (.report _) => p.up.isSome = true
  | _ => True

def Past.monitor : Monitor Past Act := ⟨Past.apply, Past.allows⟩

/-- The acts so far met the rules, and this is what they come to. -/
abbrev At (log : List Act) (p : Past) : Prop := Past.monitor.At {} log p

/-- The acts that change nothing of the past. -/
def Act.plain : Act → Bool
  | .window _ | .discCancel _ | .cancel _ | .terminate _ _ | .security _ _ | .overflow _
  | .deleted _ => true
  | .gatt (.report _) => false
  | .gatt _ => true
  | _ => false

variable {w w' : State} {p : Past} {log : List Act}

theorem plain_keeps {a : Act} (h : a.plain = true) (p : Past) : p.apply a = p ∧ p.allows a := by
  cases a with
  | window | discCancel | cancel | terminate | security | overflow | deleted => exact ⟨rfl, trivial⟩
  | gatt a =>
    cases a with
    | report r => cases h
    | _ => exact ⟨rfl, trivial⟩
  | _ => cases h

theorem At.plain (h : At log p) {a : Act} (ha : a.plain = true) : At (a :: log) p := by
  obtain ⟨happly, hallows⟩ := plain_keeps ha p
  have hat : At (a :: log) (p.apply a) := h.cons hallows
  rwa [happly] at hat

theorem At.gatt (h : At log p) {acts : List Transport.Act}
    (hacts : (∃ r, .report r ∈ acts) → p.up.isSome = true) : At (acts.map Act.gatt ++ log) p := by
  induction acts with
  | nil => exact h
  | cons a acts ih =>
    have hat := ih fun hr => hacts (hr.imp fun r hr => List.mem_cons_of_mem _ hr)
    cases a with
    | report r =>
      have hup := hacts ⟨r, List.mem_cons_self⟩
      exact hat.cons (a := .gatt (.report r)) hup
    | _ => exact hat.plain rfl

/-- What NimBLE's one connection slot is taken by. -/
structure Slot where
  connecting : Bool
  cancelled : Bool
  scanDeferred : Bool
  dyingConn : Option ℕ
  deferred : Bool
  conn : Option ℕ
  proc : Bool
  links : List Link

def State.slot (w : State) : Slot where
  connecting := w.connecting
  cancelled := w.connectCancelled
  scanDeferred := w.scanDeferred
  dyingConn := w.dyingConn
  deferred := w.connectDeferred.isSome
  conn := w.conn
  proc := w.proc
  links := w.links

structure Slot.Fits (s : Slot) : Prop where
  proc : s.proc = true ↔ s.connecting = true ∧ s.deferred = false ∨ s.cancelled = true
  one : s.connecting = true → s.cancelled = false
  free : s.connecting = true ∨ s.cancelled = true → s.conn = none
  dying : ∀ h, s.dyingConn = some h → s.conn = none ∧ s.proc = false ∧
    ∃ l ∈ s.links, l.handle = h ∧ l.ending = true
  deferred : s.deferred = true → s.connecting = true ∧ s.dyingConn.isSome = true
  scan : s.scanDeferred = true → s.cancelled = true
  asked : ∀ l ∈ s.links, l.asked = true ∨ s.conn = some l.handle
  handles : (s.links.map Link.handle).Nodup
  known : ∀ h, s.conn = some h → h ∈ s.links.map Link.handle
  ending : ∀ l ∈ s.links, l.ending = true →
    l.asked = true ∧ (s.conn = some l.handle ∨ s.dyingConn = some l.handle)

/-- The queue serves the link of the slot. -/
structure Serves (q : Transport.State) (conn : Option ℕ) : Prop where
  conn : q.conn = conn.isSome
  tidy : ∃ t, Tidy t q

/-- The state of the transport, and what it was asked for and said so far. -/
structure Kept (p : Past) (w : State) : Prop where
  at_ : At w.log p
  fits : w.slot.Fits
  serves : Serves w.q w.conn
  proc : p.proc = w.proc
  sink : ∀ h, w.sink = some (some h) → p.newest = some (.connect 0 h)

/-- The past is what the flags say. -/
structure Agrees (p : Past) (w : State) : Prop where
  awaited : p.awaited = w.connecting
  up : p.up = w.conn
  owed : p.owed = w.scanDeferred

def Inv (w : State) : Prop := ∃ p, Kept p w ∧ Agrees p w

/-- Only the rest of the state changed. -/
structure Same (w w' : State) : Prop where
  slot : w'.slot = w.slot
  core : w'.q.core = w.q.core
  depth : w'.q.depth = w.q.depth
  sink : w'.sink = w.sink
  log : ∀ p, At w.log p → At w'.log p

theorem Same.refl (w : State) : Same w w := ⟨rfl, rfl, rfl, rfl, fun _ h => h⟩

theorem Same.trans {w'' : State} (h : Same w w') (h' : Same w' w'') : Same w w'' where
  slot := h'.slot.trans h.slot
  core := h'.core.trans h.core
  depth := h'.depth.trans h.depth
  sink := h'.sink.trans h.sink
  log := fun p hp => h'.log p (h.log p hp)

theorem Serves.of_core {q q' : Transport.State} {conn : Option ℕ} (h : Serves q conn)
    (hcore : q'.core = q.core) (hdepth : q'.depth = q.depth) : Serves q' conn := by
  obtain ⟨t, ht⟩ := h.tidy
  exact ⟨(congrArg Core.conn hcore).trans h.conn, t, ht.of_core hcore hdepth⟩

theorem Serves.fresh {q : Transport.State} {conn : Option ℕ} (h : Serves q conn) :
    Serves { q with log := [], starts := 0 } conn := h.of_core rfl rfl

theorem Same.kept (h : Same w w') (hk : Kept p w) : Kept p w' where
  at_ := h.log p hk.at_
  fits := h.slot ▸ hk.fits
  serves := by
    have hconn : w'.conn = w.conn := congrArg Slot.conn h.slot
    rw [hconn]
    exact hk.serves.of_core h.core h.depth
  proc := hk.proc.trans (congrArg Slot.proc h.slot).symm
  sink := h.sink ▸ hk.sink

theorem Same.agrees (h : Same w w') (ha : Agrees p w) : Agrees p w' where
  awaited := ha.awaited.trans (congrArg Slot.connecting h.slot).symm
  up := ha.up.trans (congrArg Slot.conn h.slot).symm
  owed := ha.owed.trans (congrArg Slot.scanDeferred h.slot).symm

theorem Same.inv (h : Same w w') (hi : Inv w) : Inv w' := by
  obtain ⟨p, hk, ha⟩ := hi
  exact ⟨p, h.kept hk, h.agrees ha⟩

theorem act_same {a : Act} (ha : a.plain = true) : Same w (w.act a) :=
  ⟨rfl, rfl, rfl, rfl, fun _ h => h.plain ha⟩

theorem Kept.turn (h : Kept p w) (hup : p.up = w.conn) {q' : Transport.State}
    (hq : Turned { w.q with log := [], starts := 0 } q') :
    Kept p { w with q := q', log := q'.log.map Act.gatt ++ w.log } := by
  obtain ⟨t, ht⟩ := h.serves.tidy
  have hfresh : Tidy t { w.q with log := [], starts := 0 } := ht.of_core rfl rfl
  obtain ⟨t', -, ht'⟩ := hq.good t hfresh
  refine ⟨h.at_.gatt ?_, h.fits, ⟨hq.conn.trans h.serves.conn, t', ht'⟩, h.proc, h.sink⟩
  rintro ⟨r, hr⟩
  cases hc : w.q.conn with
  | true => rw [hup, ← h.serves.conn, hc]
  | false =>
    rw [hq.down t hfresh hc] at hr
    exact absurd hr List.not_mem_nil

theorem Serves.reset {q : Transport.State} {conn : Option ℕ} (h : Serves q conn) :
    Serves q.linkReset none := by
  obtain ⟨t, ht⟩ := h.tidy
  obtain ⟨-, hidle⟩ := linkReset_idle (t := t) (q := { q with log := [] }) .start ht.loose.sorted
  exact ⟨rfl, {}, .idle hidle, fun _ => .inl rfl⟩

end OpenCalifornia.Transport.Gap
