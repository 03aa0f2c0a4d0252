import OpenCalifornia.Lib.Monitor
import OpenCalifornia.Session.Step

/-! # The reads on the wire

What the platform sees of the session's reads. `Wire` follows the acts of a run: the reads that are
accepted and not completed, the one that is completed and not credited, the discovery, what the
running read pass has asked for, and the last frame of each characteristic. `Wire.allows` is the
rule that each act has to meet. -/

namespace OpenCalifornia.Session
open Lib Lib.Bits Lib.Machine Control.Firmware

structure Wire where
  up : Bool := false
  outstanding : List Asker := []
  /-- The completed read that is not credited yet, and whether it ended well. -/
  due : Option (Asker × Bool) := none
  discovering : Bool := false
  /-- The variant of the running pass, and the indices it has asked for, newest first. -/
  pass : Option (ℤ × List ℕ) := none
  /-- The link's first pass is still to come and has its 1004 already. -/
  pre : Bool := false
  /-- The last frame that came of each characteristic, with a read or a notification. -/
  frames : ℕ → Option (List Byte) := fun _ => none
  /-- The vehicle variant when the link was subscribed. -/
  variant : Option ℤ := none

/-- The frames after one of them was asked for or sent. -/
def heard (frames : ℕ → Option (List Byte)) (char : ℕ) (status : ℤ) (data : List Byte) :
    ℕ → Option (List Byte) :=
  if status = 0 then Function.update frames char (some (data.take frameMax)) else frames

/-- The variant that the last 1004 frame names, -1 without one. -/
def carVariant (frames : ℕ → Option (List Byte)) : ℤ :=
  fieldOf (frames vehicleChar) "vehicle" "CarVariant"

/-- A pass over a variant asks for every characteristic that the variant has, less the 1004 where it
was read before. -/
def passAsks (variant : ℤ) (pre : Bool) (i : ℕ) : Bool :=
  (readOrder[i]?).any fun c => ¬ (pre ∧ c.2 = vehicleChar) ∧ variantHas c.1 variant

def passIndices (variant : ℤ) (pre : Bool) : List ℕ :=
  (List.range readOrder.length).filter (passAsks variant pre)

/-- The characteristic that a read is for. -/
def Asker.char : Asker → ℕ
  | .variant => vehicleChar
  | .pass i => (readOrder[i]?).elim 0 Prod.snd
  | .water => waterChar
  | .heater => heaterChar

/-- What a pass has asked for, newest first, when it comes to the index `n`. -/
def asked (variant : ℤ) (pre : Bool) (n : ℕ) : List ℕ :=
  ((List.range n).filter (passAsks variant pre)).reverse

theorem asked_succ (variant : ℤ) (pre : Bool) (n : ℕ) : asked variant pre (n + 1) =
    if passAsks variant pre n then n :: asked variant pre n else asked variant pre n := by
  unfold asked
  rw [List.range_succ, List.filter_append, List.reverse_append]
  cases h : passAsks variant pre n <;> simp [h]

/-- A read starts on an idle wire, a completed read is credited to who asked for it before anything
else happens, a pass is over the variant that the link was subscribed for, and it ends when it has
asked for all that it has to. -/
def Wire.allows (w : Wire) : Act → Prop
  | .read asker _ =>
    w.due = none ∧ w.outstanding = [] ∧
      match asker with
      | .pass _ => w.pass.isSome
      | _ => w.pass = none
  | .complete asker _ _ => w.due = none ∧ asker ∈ w.outstanding
  | .credit asker ok => w.due = some (asker, ok)
  | .passStart variant =>
    w.due = none ∧ w.outstanding = [] ∧ w.pass = none ∧ w.variant = some variant
  | .passDone =>
    w.due = none ∧ w.outstanding = [] ∧
      w.pass.any fun (variant, asked) => asked.reverse = passIndices variant w.pre
  | .linkUp | .linkDown _ | .discover | .discovered | .subscribe _ | .notified .. | .forget =>
    w.due = none
  | _ => True

def Wire.apply (w : Wire) : Act → Wire
  | .linkUp => { up := true, frames := w.frames }
  | .linkDown _ => { frames := w.frames }
  | .discover => { w with discovering := true }
  | .discovered => { w with discovering := false }
  | .read asker accepted =>
    { w with
      outstanding := if accepted then w.outstanding ++ [asker] else w.outstanding
      pass :=
        match asker with
        | .pass i => w.pass.map fun (variant, asked) => (variant, i :: asked)
        | _ => w.pass }
  | .complete asker status data =>
    { w with
      outstanding := w.outstanding.erase asker
      due := some (asker, status = 0)
      frames := heard w.frames asker.char status data }
  | .notified char data =>
    { w with
      frames := if w.up ∧ char ∈ codecChars.map Prod.snd then heard w.frames char 0 data
        else w.frames }
  | .subscribe _ => { w with variant := some (carVariant w.frames) }
  | .forget => { w with frames := fun _ => none }
  | .credit asker ok =>
    { w with due := none, pre := w.pre ∨ (asker = .variant ∧ ok) }
  | .passStart variant => { w with pass := some (variant, []) }
  | .passDone => { w with pass := none, pre := false }
  | _ => w

theorem Wire.apply_complete (w : Wire) {asker : Asker} (h : w.outstanding = [asker]) (status : ℤ)
    (data : List Byte) : w.apply (.complete asker status data) = { w with
      outstanding := []
      due := some (asker, status = 0)
      frames := heard w.frames asker.char status data } := by
  have herase : w.outstanding.erase asker = [] := by rw [h, List.erase_cons_head]
  exact congrArg (fun out => { w with
    outstanding := out
    due := some (asker, status = 0)
    frames := heard w.frames asker.char status data }) herase

theorem Wire.apply_credit (w : Wire) {asker : Asker} (h : asker ≠ .variant) (ok : Bool) :
    w.apply (.credit asker ok) = { w with due := none } := by
  have hpre : decide (w.pre = true ∨ (asker = .variant ∧ ok = true)) = w.pre := by simp [h]
  exact congrArg (fun pre => { w with due := none, pre := pre }) hpre

theorem Wire.apply_credit_variant (w : Wire) (ok : Bool) :
    w.apply (.credit .variant ok) = { w with due := none, pre := w.pre || ok } := by
  have hpre : decide (w.pre = true ∨ (Asker.variant = .variant ∧ ok = true)) = (w.pre || ok) := by
    simp
  exact congrArg (fun pre => { w with due := none, pre := pre }) hpre

theorem Wire.apply_notified {w : Wire} {char : ℕ} {data : List Byte}
    (h : w.up = true ∧ char ∈ codecChars.map Prod.snd) :
    w.apply (.notified char data) = { w with frames := heard w.frames char 0 data } :=
  congrArg (fun frames => { w with frames := frames }) (if_pos h)

theorem Wire.apply_not_notified {w : Wire} {char : ℕ} {data : List Byte}
    (h : ¬ (w.up = true ∧ char ∈ codecChars.map Prod.snd)) : w.apply (.notified char data) = w :=
  congrArg (fun frames => { w with frames := frames }) (if_neg h)

/-- The wire as a monitor of the session's log. -/
def Wire.monitor : Monitor Wire Act := ⟨Wire.apply, Wire.allows⟩

/-- An act that the wire does not look at. -/
def Act.isPlain : Act → Bool
  | .connect .. | .disconnect | .heartbeat _ => true
  | _ => false

theorem Wire.apply_plain (w : Wire) {a : Act} (ha : a.isPlain = true) : w.apply a = w := by
  cases a <;> first | rfl | cases ha

theorem Wire.allows_plain (w : Wire) {a : Act} (ha : a.isPlain = true) : w.allows a := by
  cases a <;> trivial

/-- The reads that the session marks as running. -/
def State.running (s : State) : List Asker :=
  (if s.variantPending then [.variant] else []) ++ (if s.reading then [.pass s.readIdx] else []) ++
    (if s.rereading then [.water] else []) ++ if s.heaterReading then [.heater] else []

/-- The read part of a session, with what of its log concerns the wire. -/
structure Part where
  up : Bool
  warming : Bool
  reading : Bool
  readIdx : ℕ
  snapped : Bool
  rereading : Bool
  heaterReading : Bool
  variantPending : Bool
  vehiclePre : Bool
  linkVariant : ℤ
  frames : ℕ → Option (List Byte)
  acts : List Act

def State.part (s : State) : Part where
  up := s.link = .up
  warming := s.warming
  reading := s.reading
  readIdx := s.readIdx
  snapped := s.snapped
  rereading := s.rereading
  heaterReading := s.heaterReading
  variantPending := s.variantPending
  vehiclePre := s.vehiclePre
  linkVariant := s.linkVariant
  frames c := (s.slots c).frame
  acts := s.log.filter fun a => !a.isPlain

/-- The acts so far met the rules, and this is the wire now. -/
abbrev At (w₀ : Wire) (acts : List Act) (w : Wire) : Prop := Wire.monitor.At w₀ acts w

def Part.quiet (c : Part) : Prop :=
  c.warming = false ∧ c.reading = false ∧ c.snapped = false ∧ c.rereading = false ∧
    c.heaterReading = false ∧ c.variantPending = false ∧ c.vehiclePre = false

/-- The wire on which nothing runs. -/
def Part.wire (c : Part) : Wire := { up := c.up, frames := c.frames }

/-- What is between two calls of the session: no encrypted link, a discovery, the variant read, a
pass, or none of these, with perhaps a read again. -/
inductive Phase (c : Part) : Wire → Prop
  | down (up : c.up = false) (quiet : c.quiet) : Phase c c.wire
  | fresh (up : c.up = true) (quiet : c.quiet) : Phase c { c.wire with discovering := true }
  | variant (up : c.up = true) (pending : c.variantPending = true)
      (quiet : ({ c with variantPending := false } : Part).quiet) :
      Phase c { c.wire with outstanding := [.variant] }
  | reading (up : c.up = true) (runs : c.reading = true) (more : c.readIdx < readOrder.length)
      (quiet : c.warming = false ∧ c.rereading = false ∧ c.heaterReading = false ∧
        c.variantPending = false) :
      Phase c { c.wire with
        outstanding := [.pass c.readIdx]
        pass := some (c.linkVariant, asked c.linkVariant c.vehiclePre (c.readIdx + 1))
        pre := c.vehiclePre
        variant := some c.linkVariant }
  | idle (up : c.up = true) (quiet : c.reading = false ∧ c.variantPending = false)
      (one : c.rereading = true → c.heaterReading = false)
      (again : c.rereading = true ∨ c.heaterReading = true → c.snapped = true) {v : Option ℤ}
      (known : c.warming = true ∨ c.snapped = true → v = some c.linkVariant) :
      Phase c { c.wire with
        outstanding := (if c.rereading then [.water] else []) ++
          if c.heaterReading then [.heater] else []
        pre := c.vehiclePre
        variant := v }

theorem Phase.calm {c : Part} {v : Option ℤ} (up : c.up = true) (reading : c.reading = false)
    (pending : c.variantPending = false) (water : c.rereading = false)
    (heater : c.heaterReading = false)
    (known : c.warming = true ∨ c.snapped = true → v = some c.linkVariant) :
    Phase c { c.wire with pre := c.vehiclePre, variant := v } := by
  have h := Phase.idle up ⟨reading, pending⟩ (fun _ => heater)
    (fun hc => hc.elim (fun h => absurd (water.symm.trans h) (by rintro ⟨⟩))
      fun h => absurd (heater.symm.trans h) (by rintro ⟨⟩)) known
  rwa [water, heater] at h

/-- The state between two calls. -/
def Tidy (w₀ : Wire) (c : Part) : Prop := ∃ w, At w₀ c.acts w ∧ Phase c w

/-- A link that may be lost: every completed read was credited. -/
def Losable (w₀ : Wire) (c : Part) : Prop :=
  ∃ w, At w₀ c.acts w ∧ w.due = none ∧ w.frames = c.frames ∧ (c.up = false → w = c.wire)

theorem Phase.due {c : Part} {w : Wire} (h : Phase c w) : w.due = none := by
  cases h <;> rfl

theorem Phase.frames {c : Part} {w : Wire} (h : Phase c w) : w.frames = c.frames := by
  cases h <;> rfl

theorem Phase.linked {c : Part} {w : Wire} (h : Phase c w) : w.up = c.up := by
  cases h <;> rfl

theorem Tidy.losable {w₀ : Wire} {c : Part} (h : Tidy w₀ c) : Losable w₀ c := by
  obtain ⟨w, hat, hp⟩ := h
  refine ⟨w, hat, hp.due, hp.frames, fun hu => ?_⟩
  cases hp with
  | down => rfl
  | fresh up => exact absurd (up.symm.trans hu) (by rintro ⟨⟩)
  | variant up => exact absurd (up.symm.trans hu) (by rintro ⟨⟩)
  | reading up => exact absurd (up.symm.trans hu) (by rintro ⟨⟩)
  | idle up => exact absurd (up.symm.trans hu) (by rintro ⟨⟩)

theorem at_act {w₀ w : Wire} {s : State} (h : At w₀ s.part.acts w) {a : Act}
    (ha : a.isPlain = false) (hallow : w.allows a) : At w₀ (s.act a).part.acts (w.apply a) := by
  have hlog : (a :: s.log).filter (fun a => !a.isPlain) = a :: s.log.filter fun a => !a.isPlain :=
    List.filter_cons_of_pos (by rw [ha]; rfl)
  have hacts : (s.act a).part.acts = a :: s.part.acts := hlog
  rw [hacts]
  exact h.cons hallow

theorem act_plain {s : State} {a : Act} (ha : a.isPlain = true) : (s.act a).part = s.part := by
  have hacts : (a :: s.log).filter (fun a => !a.isPlain) = s.log.filter fun a => !a.isPlain :=
    List.filter_cons_of_neg (by rw [ha]; exact Bool.false_ne_true)
  exact congrArg (fun acts => { s.part with acts := acts }) hacts

end OpenCalifornia.Session
