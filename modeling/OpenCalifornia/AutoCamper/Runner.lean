import OpenCalifornia.AutoCamper.Firmware
import OpenCalifornia.Lib.Bits

/-! # The owner of the satellite's restore

`auto_camper_run.c`: the step on the readings of the link, the commands that a restore sends, and
the debt as it is stored. -/

namespace OpenCalifornia.AutoCamper.Runner
open Lib Lib.Bits Lib.Machine Firmware

def acWindowMs : ℤ := 120000
def acMaxFails : ℤ := 3
def acMinSoc : ℤ := 20
def acStepMs : ℕ := 30000

def cfg : AcCfg := ⟨acMinSoc, acMaxFails, acWindowMs⟩

/-- The fields of this link's frames, -1 where there is none. -/
structure Fields where
  terminalOneFive : ℤ := -1
  enable : ℤ := -1
  state : ℤ := -1
  usbCharger : ℤ := -1
  interiorLight : ℤ := -1
  outsideLight : ℤ := -1
  socTwoBattAfs : ℤ := -1
  sleepWarning : ℤ := -1
  warningLevelActive : ℤ := -1
  warningLevelTwo : ℤ := -1

/-- `cali_ac_ignition` -/
def Fields.ignition (f : Fields) : ℤ :=
  if f.terminalOneFive < 0 ∧ f.enable < 0 then -1 else bit (0 < f.terminalOneFive ∨ 0 < f.enable)

/-- The inputs of a step. -/
def Fields.reading (f : Fields) (now : ℕ) : AcIn :=
  let master := if 0 < f.state then 1 else f.state
  { ign := f.ignition
    master
    usb := if master < 0 then -1 else bit (0 < f.usbCharger)
    lights := if master < 0 then -1
      else bit (0 < master ∧ f.interiorLight = 0 ∧ f.outsideLight = 0)
    soc := if 0 ≤ f.socTwoBattAfs ∧ f.socTwoBattAfs ≤ 10 then f.socTwoBattAfs * 10 else -1
    warning := bit (0 < f.sleepWarning ∨ 0 < f.warningLevelActive ∨ 1 ≤ f.warningLevelTwo)
    now }

/-- The commands of a restore, in their order. -/
inductive What
  | master | usb | lights
deriving DecidableEq

/-- What `cali_ctl_submit` answers. -/
inductive Rc
  | pending
  /-- Busy, not ready or refused. -/
  | later
  | failed
deriving DecidableEq

deriving instance DecidableEq for AcIn

inductive Ev
  | stepped (inp : AcIn) (o : AcOut)
  | sent (what : What)
  | write (ok : Bool)
deriving DecidableEq

structure Owner where
  st : AcState := {}
  on : Bool := true
  resume : Bool := false
  next : ℕ := 0
  saved : List Byte := List.replicate 10 0
  /-- `s_chain`, as long as `s_n`. -/
  chain : List What := []
  i : ℕ := 0
  wait : Bool := false
  chainUntil : ℕ := 0
  now : ℕ := 0
  /-- The store: the toggle and the debt. -/
  kvOn : Option (List Byte) := none
  kvState : Option (List Byte) := none

/-- `pack` -/
def pack (st : AcState) (resume : Bool) : List Byte :=
  [.ofInt 8 st.owe, .ofInt 8 st.pre, .ofInt 8 st.preUsb, .ofInt 8 st.preLights,
    .ofInt 8 (bit (0 ≤ st.restoreUntil ∨ resume)),
    .ofInt 8 (if 255 < st.fails then 255 else st.fails),
    .ofInt 8 (st.prevIgn + 1), .ofInt 8 (st.prevMaster + 1), .ofInt 8 (st.prevUsb + 1),
    .ofInt 8 (st.prevLights + 1)]

/-- The debt of a stored word, and whether a window was open. -/
def unpack : List Byte → AcState × Bool
  | [owe, pre, preUsb, preLights, restoring, fails, prevIgn, prevMaster, prevUsb, prevLights] =>
    ({ owe := owe.toNat
       pre := pre.toNat
       preUsb := preUsb.toNat
       preLights := preLights.toNat
       restoreUntil := -1
       fails := fails.toNat
       prevIgn := prevIgn.toNat - 1
       prevMaster := prevMaster.toNat - 1
       prevUsb := prevUsb.toNat - 1
       prevLights := prevLights.toNat - 1 }, restoring ≠ 0 ∧ owe ≠ 0)
  | _ => ({}, false)

/-- `cali_ac_init` after a boot. -/
def boot (kvOn kvState : Option (List Byte)) : Owner :=
  let word := kvState.filter (·.length = 10)
  { st := (unpack (word.getD [])).1
    resume := (unpack (word.getD [])).2
    on := match kvOn with
      | some [b] => b ≠ 0
      | _ => true
    saved := word.getD (List.replicate 10 0)
    kvOn
    kvState }

/-- `save`, and whether it wrote. -/
def Owner.save (s : Owner) (ok : Bool) : Owner × Option Bool :=
  let b := pack s.st s.resume
  if b = s.saved then (s, none)
  else if ok then ({ s with saved := b, kvState := some b }, some true)
  else (s, some false)

/-- The debt is dropped, and with it the restore that is going out. -/
def Owner.clear (s : Owner) : Owner :=
  { s with
    st := { s.st with owe := 0, restoreUntil := -1, fails := 0 }
    resume := false
    chain := [] }

/-- `cali_ac_set_enabled`; the toggle is stored only after the debt. -/
def Owner.setEnabled (s : Owner) (on ok toggleOk : Bool) : Owner × List Ev :=
  let s := if ¬ on ∨ ¬ s.on then s.clear else s
  let (s, wrote) := { s with on }.save ok
  (if wrote ≠ some false ∧ toggleOk then { s with kvOn := some [if on then 1 else 0] } else s,
    wrote.toList.map Ev.write)

/-- `chain_done` -/
def Owner.chainDone (s : Owner) (ok : Bool) : Owner :=
  if ok then { s with wait := false, i := s.i + 1, chainUntil := s.now + acStepMs }
  else { s with wait := false, chain := [] }

/-- `chain_tick`; `rc` is what the sequencer answers. -/
def Owner.chainTick (s : Owner) (rc : Rc) : Owner × List Ev :=
  match s.chain[s.i]? with
  | none => (s, [])
  | some what =>
    if s.wait then (s, [])
    else match rc with
      | .pending => ({ s with wait := true }, [.sent what])
      | .later => if s.chainUntil ≤ s.now then ({ s with chain := [] }, []) else (s, [])
      | .failed => ({ s with chain := [] }, [])

/-- The edges are tracked while the feature is off. -/
def track (st : AcState) (inp : AcIn) : AcState :=
  let st := if 0 ≤ inp.ign then { st with prevIgn := inp.ign } else st
  if 0 ≤ inp.master then
    { st with prevMaster := inp.master, prevUsb := inp.usb, prevLights := inp.lights }
  else st

/-- The commands that bring the debt back. -/
def restoreChain (st : AcState) : List What :=
  .master :: (if st.pre ≠ 0 ∧ st.preUsb ≠ 0 then [.usb] else []) ++
    if st.pre ≠ 0 ∧ st.preLights ≠ 0 then [.lights] else []

/-- `step` -/
def Owner.step (s : Owner) (f : Fields) (now : ℕ) (ok : Bool) : Owner × List Ev :=
  let inp := f.reading now
  if ¬ s.on then
    let (s, wrote) := { s with st := track s.st inp }.save ok
    (s, wrote.toList.map Ev.write)
  else
    -- rebooted inside the window: a fresh one
    let st := if s.resume ∧ s.st.owe ≠ 0 then { s.st with restoreUntil := inp.now + acWindowMs }
      else s.st
    let (o, st) := acDecide cfg st inp
    let s := { s with st, resume := false }
    let s := if o.actuate ≠ 0 then
        { s with chain := restoreChain st, i := 0, wait := false, chainUntil := now + acStepMs }
      else s
    let (s, wrote) := s.save ok
    (s, .stepped inp o :: wrote.toList.map Ev.write)

/-- `cali_ac_tick` -/
def Owner.tick (s : Owner) (f : Fields) (now : ℕ) (ready : Bool) (rc : Rc) (ok : Bool) :
    Owner × List Ev :=
  let (s, sent) := { s with now }.chainTick rc
  if s.i < s.chain.length ∨ now < s.next ∨ ¬ ready then (s, sent)
  else
    let (s, evs) := { s with next := now + acStepMs }.step f now ok
    (s, sent ++ evs)

inductive Op
  | tick (f : Fields) (now : ℕ) (ready : Bool) (rc : Rc) (ok : Bool)
  | done (ok : Bool)
  | setEnabled (on ok toggleOk : Bool)
  | reboot

def Owner.apply (s : Owner) : Op → Owner × List Ev
  | .tick f now ready rc ok => s.tick f now ready rc ok
  | .done ok => (s.chainDone ok, [])
  | .setEnabled on ok toggleOk => s.setEnabled on ok toggleOk
  | .reboot => (boot s.kvOn s.kvState, [])

def step (op : Op) (s : Owner) : Option (List Ev × Owner) := some ((s.apply op).2, (s.apply op).1)

abbrev Rec := Record Op (List Ev) Owner

end OpenCalifornia.AutoCamper.Runner
