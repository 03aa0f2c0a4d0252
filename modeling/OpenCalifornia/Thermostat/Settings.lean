import Mathlib
import OpenCalifornia.Lib.Bits
import OpenCalifornia.Thermostat.Runner

/-! # The thermostat's settings

`thermostat_run.c`: the table of the settings, the stored configuration, the feature switch, and
`cali_thermo_apply`, which takes a parsed `POST /api/thermostat`. What a write to the store answers
comes from outside; a write that fails leaves the old value. The bytes of a record that the source
never names (its padding) are left out. -/

namespace OpenCalifornia.Thermostat.Settings
open Lib.Bits

/-- `cali_thermo_cfg_keys` -/
inductive Key
  | periodMs | kp | ki | ka | uOutMax | hyst | minDwellMs | bandHi | hotHoldMs | overheat | minLevel
  | staleAfterMs | heaterStaleMs | battMinDv | battHoldMs | verifyMs | runtimeMin | nightWaitMs
  | nightConfirmMs
  deriving DecidableEq

def Key.all : List Key :=
  [.periodMs, .kp, .ki, .ka, .uOutMax, .hyst, .minDwellMs, .bandHi, .hotHoldMs, .overheat,
    .minLevel, .staleAfterMs, .heaterStaleMs, .battMinDv, .battHoldMs, .verifyMs, .runtimeMin,
    .nightWaitMs, .nightConfirmMs]

instance : Fintype Key := ⟨⟨Key.all, by decide⟩, fun k => by cases k <;> decide⟩

def i32 : ℤ := 2147483647

/-- `LIM` -/
def Key.lim : Key → ℤ × ℤ
  | .kp | .ki | .ka | .uOutMax | .hyst => (0, i32)
  | .minLevel => (1, 10)
  | .battMinDv => (100, 150)
  | .runtimeMin => (10, 120)
  | _ => (1, i32)

/-- `cfg_ok` -/
def cfgOk (k : Key) (v : ℤ) : Prop := k.lim.1 ≤ v ∧ v ≤ k.lim.2

instance (k : Key) (v : ℤ) : Decidable (cfgOk k v) := inferInstanceAs (Decidable (_ ∧ _))

/-- `target_ok` -/
def targetOk (v : ℤ) : Prop := 500 ≤ v ∧ v ≤ 3000 ∧ v.tmod 50 = 0

instance (v : ℤ) : Decidable (targetOk v) := inferInstanceAs (Decidable (_ ∧ _))

/-- The text of a `char [CALI_THERMO_ALIAS_LEN]` up to its NUL, all of it where there is none. -/
abbrev Alias := List Byte

def aliasLen : ℕ := 17

/-- `alias_chars_ok` -/
def aliasCharsOk (a : Alias) : Prop :=
  a.length ≠ aliasLen ∧ ∀ c ∈ a, (97 ≤ c ∧ c ≤ 122) ∨ (48 ≤ c ∧ c ≤ 57) ∨ c = 95 ∨ c = 45

instance (a : Alias) : Decidable (aliasCharsOk a) := inferInstanceAs (Decidable (_ ∧ _))

/-- `cali_thermo_run_cfg_t` -/
structure RunCfg where
  s : Key → ℤ
  target : ℤ
  ref : Alias
  backup : Alias
  out : Alias
  outsideOn : ℤ
  night : ℤ

instance : DecidableEq RunCfg := fun a b =>
  decidable_of_iff ((a.s = b.s ∧ a.target = b.target) ∧ a.ref = b.ref ∧ a.backup = b.backup ∧
      a.out = b.out ∧ a.outsideOn = b.outsideOn ∧ a.night = b.night)
    (by cases a; cases b; simp [and_assoc])

/-- `CALI_THERMO_DEFAULTS` -/
def defaults : Key → ℤ
  | .periodMs => 60000
  | .kp => 1500
  | .ki => 50
  | .ka => 100
  | .uOutMax => 3000
  | .hyst => 500
  | .minDwellMs => 300000
  | .bandHi => 200
  | .hotHoldMs => 900000
  | .overheat => 400
  | .minLevel => 1
  | .staleAfterMs => 600000
  | .heaterStaleMs => 180000
  | .battMinDv => 119
  | .battHoldMs => 300000
  | .verifyMs => 10000
  | .runtimeMin => 120
  | .nightWaitMs => 300000
  | .nightConfirmMs => 30000

def RunCfg.default : RunCfg := ⟨defaults, 2000, [], [], [], 0, 0⟩

/-- `cfg_valid` -/
def RunCfg.valid (c : RunCfg) : Prop :=
  (∀ k, cfgOk k (c.s k)) ∧ targetOk c.target ∧ (c.outsideOn = 0 ∨ c.outsideOn = 1) ∧
    (c.night = 0 ∨ c.night = 1) ∧ aliasCharsOk c.ref ∧ aliasCharsOk c.backup ∧ aliasCharsOk c.out

instance (c : RunCfg) : Decidable c.valid := inferInstanceAs (Decidable (_ ∧ _))

/-- The settings as `cali_thermo_step` takes them. -/
def RunCfg.cfg (c : RunCfg) : Cfg where
  periodMs := c.s .periodMs
  kp := c.s .kp
  ki := c.s .ki
  ka := c.s .ka
  uOutMax := c.s .uOutMax
  hyst := c.s .hyst
  minDwellMs := c.s .minDwellMs
  bandHi := c.s .bandHi
  hotHoldMs := c.s .hotHoldMs
  overheat := c.s .overheat
  minLevel := c.s .minLevel
  staleAfterMs := c.s .staleAfterMs
  heaterStaleMs := c.s .heaterStaleMs
  battMinDv := c.s .battMinDv
  battHoldMs := c.s .battHoldMs
  verifyMs := c.s .verifyMs
  nightWaitMs := c.s .nightWaitMs
  nightConfirmMs := c.s .nightConfirmMs

/-- What the store has under `CALI_THERMO_CFG_KEY`. -/
inductive Blob
  | missing
  | v1 (c : RunCfg)
  | v2 (c : RunCfg)
  | other

/-- `th_on` and `th_cfg` -/
structure Kv where
  on : Option (List Byte)
  cfg : Blob

/-- `cfg_from_v1`: the first record has no night settings. -/
def RunCfg.fromV1 (c : RunCfg) : RunCfg :=
  { c with
    s := fun k => if k = .nightWaitMs ∨ k = .nightConfirmMs then defaults k else c.s k
    night := RunCfg.default.night }

/-- The configuration that a boot takes. -/
def Kv.loaded (kv : Kv) : RunCfg :=
  match kv.cfg with
  | .v2 c => if c.valid then c else .default
  | .v1 c => if c.fromV1.valid then c.fromV1 else .default
  | .missing | .other => .default

def Kv.switch (kv : Kv) : Bool :=
  match kv.on with
  | some [b] => b ≠ 0
  | _ => false

structure State where
  run : Runner.State
  cfg : RunCfg
  eta : Option ℤ := none
  etaFirst : Bool := false
  rev : BitVec 32 := 0
  kv : Kv

/-- `cali_thermo_run_init` -/
def init (kv : Kv) : State where
  run := Runner.init kv.switch
  cfg := kv.loaded
  kv := kv

/-- `cali_thermo_set_enabled`; `saved` is what the store answers. -/
def State.setEnabled (w : State) (on saved : Bool) : Bool × State :=
  (saved, { w with
    run := w.run.setEnabled on
    kv := if saved then { w.kv with on := some [if on then 1 else 0] } else w.kv })

/-- `cali_thermo_patch_t`: the members that the body gives. -/
structure Patch where
  enabled : Option Bool := none
  mode : Option String := none
  target : Option ℤ := none
  runtimeMin : Option ℤ := none
  ref : Option { a : Alias // a.length < aliasLen } := none
  backup : Option { a : Alias // a.length < aliasLen } := none
  out : Option { a : Alias // a.length < aliasLen } := none
  outsideOn : Option Bool := none
  cfg : Option (Key → Option ℤ) := none
  rev : Option ℤ := none
  confirm : Option Bool := none
  night : Option Bool := none

/-- `CALI_THERMO_E_*` -/
inductive Err
  | stale | value | sensor | confirm | store
  deriving DecidableEq

/-- What `cali_sensors_type` answers for an alias. -/
abbrev Sensors := Alias → Option String

/-- `sensor_ok` -/
def sensorOk (types : Sensors) (a : Alias) : Prop := a = [] ∨ types a = some "govee"

instance (types : Sensors) (a : Alias) : Decidable (sensorOk types a) :=
  inferInstanceAs (Decidable (_ ∨ _))

/-- `plain_off` -/
def Patch.plainOff (p : Patch) : Bool :=
  p.enabled.isNone && p.mode = some "OFF" && p.target.isNone && p.runtimeMin.isNone &&
    p.ref.isNone && p.backup.isNone && p.out.isNone && p.outsideOn.isNone && p.cfg.isNone &&
    p.confirm.isNone && p.night.isNone

/-- `auto_req` -/
def Patch.autoReq (p : Patch) : Bool := p.mode = some "AUTO"

/-- The checks, before anything changes. -/
def State.refuses (w : State) (types : Sensors) (p : Patch) : Option Err :=
  if p.plainOff = false ∧ ∃ r ∈ p.rev, r ≠ w.rev.toNat then some .stale
  else if p.autoReq = false ∧ ∃ m ∈ p.mode, m ≠ "OFF" then some .value
  else if (∃ v ∈ p.target, ¬ targetOk v) ∨
    ∃ v ∈ p.runtimeMin, ¬ cfgOk .runtimeMin v then some .value
  else if ∃ f ∈ p.cfg, ∃ k, ∃ v ∈ f k, ¬ cfgOk k v then some .value
  else if (∃ a ∈ p.ref, ¬ sensorOk types a.1) ∨ (∃ a ∈ p.backup, ¬ sensorOk types a.1) ∨
      ∃ a ∈ p.out, ¬ sensorOk types a.1 then some .sensor
  else if (p.enabled.isSome ∨ p.cfg.isSome ∨ p.autoReq) ∧ p.confirm ≠ some true then some .confirm
  else none

/-- A cast to `int32_t`. -/
def narrow (v : ℤ) : ℤ := v.bmod (2 ^ 32)

/-- A `snprintf` into a `char [CALI_THERMO_ALIAS_LEN]`. -/
def copied (a : Alias) : Alias := a.take (aliasLen - 1)

/-- The value given for a setting; `cfg` comes after `runtime_min`. -/
def Patch.value (p : Patch) (k : Key) : Option ℤ :=
  (p.cfg.bind (· k)).or (if k = .runtimeMin then p.runtimeMin else none)

/-- A truth value as an `int`. -/
def flag (b : Bool) : ℤ := if b then 1 else 0

/-- The configuration with what the request names. -/
def RunCfg.patched (c : RunCfg) (p : Patch) : RunCfg where
  s k := (p.value k).elim (c.s k) narrow
  target := p.target.elim c.target narrow
  ref := p.ref.elim c.ref (copied ·.1)
  backup := p.backup.elim c.backup (copied ·.1)
  out := p.out.elim c.out (copied ·.1)
  outsideOn := p.outsideOn.elim c.outsideOn flag
  night := p.night.elim c.night flag

/-- What the store answers: for the configuration, for the switch, and for the switch put back off.
-/
structure Saves where
  cfg : Bool
  on : Bool
  off : Bool

/-- A configuration that is stored is taken; the estimate was for the old target. -/
def State.take (w : State) (n : RunCfg) : State :=
  if n = w.cfg then w
  else { w with
    eta := if n.target ≠ w.cfg.target then none else w.eta
    etaFirst := if n.target ≠ w.cfg.target then false else w.etaFirst
    cfg := n
    kv := { w.kv with cfg := .v2 n } }

/-- The switch that the request names; an enable that could not be stored stays off. -/
def State.putSwitch (w : State) (sv : Saves) : Option Bool → Bool × State
  | none => (true, w)
  | some on =>
    let (saved, w) := w.setEnabled on sv.on
    if saved then (true, w) else (false, if on then (w.setEnabled false sv.off).2 else w)

/-- The owner's request of an accepted body. -/
def State.putMode (w : State) (p : Patch) : State :=
  if p.autoReq then { w with run := w.run.request .auto }
  else if p.mode.isSome then { w with run := w.run.request .off }
  else w

/-- `cali_thermo_apply` -/
def State.apply (w : State) (types : Sensors) (sv : Saves) (p : Patch) : Option Err × State :=
  match w.refuses types p with
  | some e => (some e, w)
  | none =>
    let n := w.cfg.patched p
    if n ≠ w.cfg ∧ sv.cfg = false then (some .store, w)
    else
      let (saved, w) := (w.take n).putSwitch sv p.enabled
      if saved then
        let w := w.putMode p
        (none, { w with rev := w.rev + 1 })
      else (some .store, w)

/-- What happens between two boots. A step's estimate comes from outside. -/
inductive Op
  | apply (types : Sensors) (sv : Saves) (p : Patch)
  | setEnabled (on saved : Bool)
  | request (r : Request)
  | tick (e : Runner.Env) (now : ℕ) (eta : Option ℤ) (etaFirst : Bool)
  | done (e : Runner.Env) (rc : Runner.Rc)

/-- The settings that the step reads are those in memory. -/
def State.env (w : State) (e : Runner.Env) : Runner.Env :=
  { e with
    cfg := w.cfg.cfg
    input := { e.input with
      target := w.cfg.target
      runtimeMin := w.cfg.s .runtimeMin
      outsideOn := w.cfg.outsideOn ≠ 0
      night := w.cfg.night ≠ 0 } }

def step (op : Op) (w : State) : Option (Option Err × State) :=
  match op with
  | .apply types sv p => some (w.apply types sv p)
  | .setEnabled on saved => some (none, (w.setEnabled on saved).2)
  | .request r => some (none, { w with run := w.run.request r })
  | .tick e now eta etaFirst =>
    (w.run.tick (w.env e) now).map fun run => (none, { w with run, eta, etaFirst })
  | .done e rc =>
    (Runner.Op.apply (.done rc) (w.env e) w.run).map fun run => (none, { w with run })

end OpenCalifornia.Thermostat.Settings
