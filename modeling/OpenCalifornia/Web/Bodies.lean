import OpenCalifornia.Session.State
import OpenCalifornia.Web.Kinds

/-! # The bodies of the POST endpoints

A body's form is its keys and what the value of each does to the handler's record. What the
handlers ask of a string that was kept with its length, they ask of the whole string. -/

namespace OpenCalifornia.Web
open Lib.Bits Lib.Json Lib.Flat
open Lib.Buffer (chars)

/-- A set of keys that fit the key buffer and the bits of an `int`. -/
structure Keys where
  names : List (List Byte)
  few : names.length ≤ 30 := by decide
  nodup : names.Nodup := by decide
  short : ∀ k ∈ names, k.length < keyCap := by decide

inductive Field (σ : Type)
  | one (k : Kind) (put : k.Val → σ → σ)
  /-- An object inside the body, and what becomes of the bits of its keys. -/
  | object (keys : Keys) (k : Kind) (put : ℕ → k.Val → σ → σ) (done : ℕ → σ → σ)

structure Form (σ : Type) where
  keys : Keys
  fields : List (Field σ)
  paired : fields.length = keys.names.length := by rfl

variable {σ : Type}

/-- A value of the kind `k`, kept by `put`. -/
def parsePut (k : Kind) (put : k.Val → σ → σ) (x : σ) (s : List Byte) : Option (σ × List Byte) :=
  (k.parse s).map fun r => (put r.1 x, r.2)

def Field.parse : Field σ → σ → List Byte → Option (σ × List Byte)
  | .one k put => parsePut k put
  | .object keys k put done => fun x s =>
    (parseObj keys.names (fun i => parsePut k (put i)) x s).map fun r => (done r.1 r.2.1, r.2.2)

def Form.field (f : Form σ) (i : ℕ) (x : σ) (s : List Byte) : Option (σ × List Byte) :=
  f.fields[i]?.bind fun d => d.parse x s

def Form.parse (f : Form σ) (body : List Byte) (x : σ) : Option (ℕ × σ) :=
  parseBody f.keys.names f.field body x

def Puts (k : Kind) (put : k.Val → σ → σ) (s : List Byte) (x y : σ) (r : List Byte) : Prop :=
  ∃ u sc v, Ws s u ∧ Token u sc r ∧ k.reads sc = some v ∧ y = put v x

def Field.Grammar : Field σ → List Byte → σ → σ → List Byte → Prop
  | .one k put => Puts k put
  | .object keys k put done => fun s x y r =>
    ∃ is z, is.Nodup ∧ Object keys.names (fun i => Puts k (put i)) s is x z r ∧
      y = done (mark 0 is) z

def Form.Grammar (f : Form σ) (i : ℕ) (s : List Byte) (x y : σ) (r : List Byte) : Prop :=
  ∃ d, f.fields[i]? = some d ∧ d.Grammar s x y r

/-- The body is an object of the form's keys `is`, in this order. -/
def Form.Takes (f : Form σ) (body : List Byte) (is : List ℕ) (x y : σ) : Prop :=
  Body f.keys.names f.Grammar body is x y

theorem parsePut_iff {k : Kind} {put : k.Val → σ → σ} {s r : List Byte} {x y : σ} :
    (parsePut k put x s = some (y, r) → Puts k put s x y r) ∧
      (Puts k put s x y r → Ends r → parsePut k put x s = some (y, r)) := by
  constructor
  · intro h
    obtain ⟨⟨v, r'⟩, hp, h⟩ := Option.map_eq_some_iff.mp h
    obtain ⟨rfl, rfl⟩ := Prod.mk.inj h
    obtain ⟨u, sc, hws, ht, hr⟩ := k.scans.sound hp
    exact ⟨u, sc, v, hws, ht, hr, rfl⟩
  · rintro ⟨u, sc, v, hws, ht, hr, rfl⟩ he
    exact Option.map_eq_some_iff.mpr ⟨(v, r), k.scans.complete hws ht he hr, rfl⟩

theorem Puts.length_le {k : Kind} {put : k.Val → σ → σ} {s r : List Byte} {x y : σ}
    (h : Puts k put s x y r) : r.length ≤ s.length := by
  obtain ⟨u, sc, v, hws, ht, -⟩ := h
  exact ht.length_lt.le.trans hws.length_le

theorem exact_puts {k : Kind} {put : ℕ → k.Val → σ → σ} :
    Exact (fun i => parsePut k (put i)) (fun i => Puts k (put i)) :=
  ⟨fun h => parsePut_iff.1 h, fun h he => parsePut_iff.2 h he, fun h => h.length_le⟩

theorem Form.exact (f : Form σ) : Exact f.field f.Grammar where
  sound := by
    intro i x s y r h
    obtain ⟨d, hd, h⟩ := Option.bind_eq_some_iff.mp h
    refine ⟨d, hd, ?_⟩
    cases d with
    | one k put => exact parsePut_iff.1 h
    | object keys k put done =>
      obtain ⟨⟨b, z, r'⟩, ho, h⟩ := Option.map_eq_some_iff.mp h
      obtain ⟨rfl, rfl⟩ := Prod.mk.inj h
      obtain ⟨is, hnodup, hobj, rfl⟩ := (parseObj_iff keys.nodup keys.short exact_puts).mp ho
      exact ⟨is, z, hnodup, hobj, rfl⟩
  complete := by
    rintro i x s y r ⟨d, hd, h⟩ he
    refine Option.bind_eq_some_iff.mpr ⟨d, hd, ?_⟩
    cases d with
    | one k put => exact parsePut_iff.2 h he
    | object keys k put done =>
      obtain ⟨is, z, hnodup, hobj, rfl⟩ := h
      exact Option.map_eq_some_iff.mpr ⟨(mark 0 is, z, r),
        (parseObj_iff keys.nodup keys.short exact_puts).mpr ⟨is, hnodup, hobj, rfl⟩, rfl⟩
  shrinks := by
    rintro i x s y r ⟨d, hd, h⟩
    cases d with
    | one k put => exact h.length_le
    | object keys k put done =>
      obtain ⟨is, z, -, hobj, rfl⟩ := h
      exact hobj.length_le fun h => h.length_le

theorem Form.parse_iff (f : Form σ) {body : List Byte} {x y : σ} {seen : ℕ} :
    f.parse body x = some (seen, y) ↔ ∃ is, f.Takes body is x y ∧ seen = mark 0 is :=
  parseBody_iff f.keys.nodup f.keys.short f.exact

structure Creds where
  ssid : Cut := ⟨[], 0⟩
  psk : Cut := ⟨[], 0⟩
  deriving DecidableEq

def credsForm : Form Creds where
  keys := { names := [chars "ssid", chars "psk"] }
  fields := [.one (.long 33) fun v k => { k with ssid := v },
    .one (.long 64) fun v k => { k with psk := v }]

/-- `parse_creds` -/
def parseCreds (body : List Byte) : Option Creds :=
  (credsForm.parse body {}).bind fun r => if r.1 = 3 then some r.2 else none

/-- `cmd_t` -/
structure Cmd where
  fn : List Byte := []
  what : List Byte := []
  value : List Byte := []
  confirm : Bool := false
  clock : Option Clock := none
  deriving DecidableEq

def commandForm : Form Cmd where
  keys := { names := [chars "function", chars "what", chars "value", chars "confirm",
    chars "local_now"] }
  fields := [.one (.strict 24) fun v c => { c with fn := v },
    .one (.strict 32) fun v c => { c with what := v },
    .one (.value 64) fun v c => { c with value := v },
    .one .bool fun v c => { c with confirm := v },
    .one .localNow fun v c => { c with clock := v }]

/-- `parse_command` -/
def parseCommand (body : List Byte) : Option Cmd := (commandForm.parse body {}).map Prod.snd

/-- `pair_req_t` -/
structure PairReq where
  action : Cut := ⟨[], 0⟩
  value : Option Cut := none
  confirm : Bool := false
  deriving DecidableEq

def pairingForm : Form PairReq where
  keys := { names := [chars "action", chars "value", chars "confirm"] }
  fields := [.one (.long 12) fun v r => { r with action := v },
    .one .pairValue fun v r => { r with value := v },
    .one .bool fun v r => { r with confirm := v }]

/-- `parse_pairing` -/
def parsePairing (body : List Byte) : Option PairReq := (pairingForm.parse body {}).map Prod.snd

/-- `channel_field` -/
def channelForm : Form Cut where
  keys := { names := [chars "channel"] }
  fields := [.one (.long 8) fun v _ => v]

/-- `bool_field`, of the bodies with one key -/
def boolForm (key : List Byte) (h : key.length < keyCap := by decide) : Form Bool where
  keys := ⟨[key], Nat.le_add_left 1 29, List.nodup_singleton key, List.forall_mem_singleton.mpr h⟩
  fields := [.one .bool fun v _ => v]

def enabledForm : Form Bool := boolForm (chars "enabled")

def doneForm : Form Bool := boolForm (chars "done")

/-- `exp_field` -/
def experimentalForm : Form (Bool × Bool) where
  keys := { names := [chars "sensors", chars "lora"] }
  fields := [.one .bool fun v x => (v, x.2), .one .bool fun v x => (x.1, v)]

/-- `cali_thermo_patch_t` -/
structure ThermoPatch where
  enabled : Bool := false
  outsideOn : Bool := false
  confirm : Bool := false
  night : Bool := false
  mode : List Byte := []
  target : ℤ := 0
  runtimeMin : ℤ := 0
  rev : ℤ := 0
  ref : List Byte := []
  backup : List Byte := []
  out : List Byte := []
  cfgHas : ℕ := 0
  cfg : List ℤ := List.replicate 19 0
  deriving DecidableEq

/-- `cali_thermo_cfg_keys` -/
def thermoCfgKeys : Keys where
  names := [chars "period_ms", chars "kp", chars "ki", chars "ka", chars "u_out_max", chars "hyst",
    chars "min_dwell_ms", chars "band_hi", chars "hot_hold_ms", chars "overheat", chars "min_level",
    chars "stale_after_ms", chars "heater_stale_ms", chars "batt_min_dv", chars "batt_hold_ms",
    chars "verify_ms", chars "runtime_min", chars "night_wait_ms", chars "night_confirm_ms"]

/-- A text that the `char mode[8]` does not hold is none of the modes. -/
def thermoMode (v : Cut) : List Byte := if v.len ≥ 8 then chars "?" else v.buf

def thermoForm : Form ThermoPatch where
  keys := { names := [chars "enabled", chars "mode", chars "target", chars "runtime_min",
    chars "ref", chars "backup", chars "out", chars "outside_on", chars "cfg", chars "rev",
    chars "confirm", chars "night"] }
  fields := [.one .bool fun v p => { p with enabled := v },
    .one (.long 8) fun v p => { p with mode := thermoMode v },
    .one .int fun v p => { p with target := v },
    .one .int fun v p => { p with runtimeMin := v },
    .one .aliasText fun v p => { p with ref := v },
    .one .aliasText fun v p => { p with backup := v },
    .one .aliasText fun v p => { p with out := v },
    .one .bool fun v p => { p with outsideOn := v },
    .object thermoCfgKeys .int (fun i v p => { p with cfg := p.cfg.set i v })
      fun seen p => { p with cfgHas := seen },
    .one .int fun v p => { p with rev := v },
    .one .bool fun v p => { p with confirm := v },
    .one .bool fun v p => { p with night := v }]

/-- `ble_req_t`; a mode that is none of the three is `some none`. -/
structure BleReq where
  num : List ℕ := [0, 0, 0, 22, 6, 0, 0, 0, 0, 0]
  mode : Option (Option Session.Mode) := none
  probe : Bool := false
  conn : Bool := false
  active : Bool := false
  deriving DecidableEq

def bleMode (v : Cut) : Option Session.Mode :=
  if v.len ≥ 8 then none
  else if v.buf = chars "hold" then some .hold
  else if v.buf = chars "quiet" then some .quiet
  else if v.buf = chars "off" then some .off
  else none

/-- `b->num[i]` -/
def bleNum (i : ℕ) : Field BleReq := .one .uint fun v b => { b with num := b.num.set i v }

def bleForm : Form BleReq where
  keys := { names := [chars "mode", chars "probe", chars "exp_min", chars "from", chars "to",
    chars "idle_min", chars "warm_ms", chars "rest_poll_min", chars "connect", chars "active"] }
  fields := [.one (.long 8) fun v b => { b with mode := some (bleMode v) },
    .one .bool fun v b => { b with probe := v },
    bleNum 2, bleNum 3, bleNum 4, bleNum 5, bleNum 6, bleNum 7,
    .one .bool fun v b => { b with conn := v },
    .one .bool fun v b => { b with active := v }]

/-- `pi_set_t`: `none` is the -1 of a key that is not there. -/
structure PiSet where
  on : Option ℕ := none
  min : Option ℕ := none
  soc : Option ℕ := none
  range : Bool := false
  deriving DecidableEq

/-- `pi_setting_field` after the parsing, against the `MAX` of its key -/
def piClamp (max v : ℕ) : ℕ := if v > max then max else v

def PiSet.check (s : PiSet) (max v : ℕ) : PiSet := { s with range := s.range || decide (v > max) }

def piSettingForm : Form PiSet where
  keys := { names := [chars "enabled", chars "halt_after_min", chars "halt_soc_pct"] }
  fields := [.one .bool fun v s => { s with on := some v.toNat },
    .one .uint fun v s => { s.check 1440 v with min := some (piClamp 1440 v) },
    .one .uint fun v s => { s.check 100 v with soc := some (piClamp 100 v) }]

/-- `cali_display_cfg_t`, and `dfs` of the request -/
structure DispReq where
  autoOn : Bool
  proxWake : Bool
  minPct : ℤ
  maxPct : ℤ
  offset : ℤ
  motionWake : Bool
  dfs : Option Bool := none
  deriving DecidableEq

def displayForm : Form DispReq where
  keys := { names := [chars "auto", chars "prox_wake", chars "min", chars "max", chars "offset",
    chars "motion_wake", chars "dfs"] }
  fields := [.one .bool fun v d => { d with autoOn := v },
    .one .bool fun v d => { d with proxWake := v },
    .one (.pct false) fun v d => { d with minPct := v },
    .one (.pct false) fun v d => { d with maxPct := v },
    .one (.pct true) fun v d => { d with offset := v },
    .one .bool fun v d => { d with motionWake := v },
    .one .bool fun v d => { d with dfs := some v }]

/-- `sens_req_t` -/
structure SensReq where
  id : ℕ := 0
  name : Cut := ⟨[], 0⟩
  key : Cut := ⟨[], 0⟩
  deriving DecidableEq

def sensorsForm : Form SensReq where
  keys := { names := [chars "add", chars "remove", chars "id", chars "alias", chars "key"] }
  fields := [.one .uint fun v r => { r with id := v },
    .one .uint fun v r => { r with id := v },
    .one .uint fun v r => { r with id := v },
    .one (.long 17) fun v r => { r with name := v },
    .one (.long 33) fun v r => { r with key := v }]

/-- `is_action` -/
def isAction (r : PairReq) (name : List Byte) : Prop := r.action.len < 12 ∧ r.action.buf = name

/-- The passkey test of `api_pairing`, with its `strspn`. -/
def passkeyOk (r : PairReq) : Prop :=
  ∃ v, r.value = some v ∧ v.len = 6 ∧ (v.buf.takeWhile isDigit).length = 6

/-- The channel of `api_ota`, `true` for the latest. -/
def otaChannel (c : Cut) : Option Bool :=
  if c.len = 6 ∧ c.buf = chars "latest" then some true
  else if c.len = 6 ∧ c.buf = chars "stable" then some false
  else none

/-- The lengths that `api_wifi_post` lets pass. -/
def Creds.lengthsOk (k : Creds) : Prop :=
  (1 ≤ k.ssid.len ∧ k.ssid.len ≤ 32) ∧ 8 ≤ k.psk.len ∧ k.psk.len ≤ 63

/-- The lengths that `api_sensors` lets pass. -/
def SensReq.lengthsOk (r : SensReq) : Prop := ¬ r.name.len > 16 ∧ ¬ r.key.len > 32

/-- What `parse_str` keeps of a text. -/
def cut (cap : ℕ) (t : List Byte) : Cut := ⟨t.take (cap - 1), t.length⟩

def modeName : Session.Mode → List Byte
  | .hold => chars "hold"
  | .quiet => chars "quiet"
  | .off => chars "off"

/-- Each test on what is kept of a text is the test on the text. -/
structure Whole (t : List Byte) : Prop where
  creds : ∀ u, Creds.lengthsOk ⟨cut 33 t, cut 64 u⟩ ↔
    (1 ≤ t.length ∧ t.length ≤ 32 ∧ (cut 33 t).buf = t) ∧
      8 ≤ u.length ∧ u.length ≤ 63 ∧ (cut 64 u).buf = u
  action : ∀ name, isAction { action := cut 12 t } name ↔ t.length < 12 ∧ t = name
  passkey : passkeyOk { value := some (cut 8 t) } ↔ t.length = 6 ∧ ∀ c ∈ t, isDigit c = true
  latest : otaChannel (cut 8 t) = some true ↔ t = chars "latest"
  stable : otaChannel (cut 8 t) = some false ↔ t = chars "stable"
  ble : ∀ m, bleMode (cut 8 t) = some m ↔ t = modeName m
  thermo : ∀ name, name = chars "AUTO" ∨ name = chars "OFF" →
    (thermoMode (cut 8 t) = name ↔ t = name)
  sensors : ∀ u, SensReq.lengthsOk { name := cut 17 t, key := cut 33 u } ↔
    (t.length ≤ 16 ∧ (cut 17 t).buf = t) ∧ u.length ≤ 32 ∧ (cut 33 u).buf = u

theorem cut_buf {cap : ℕ} {t : List Byte} (h : t.length < cap) : (cut cap t).buf = t := take_whole h

/-- A shorter name is the text itself where the length tells that the text was kept. -/
theorem cut_eq_iff {cap n : ℕ} {t name : List Byte} (hn : n < cap) (hname : name.length = n) :
    (cut cap t).len = n ∧ (cut cap t).buf = name ↔ t = name := by
  constructor
  · rintro ⟨hl, hb⟩
    rwa [cut_buf (hl.trans_lt hn)] at hb
  · rintro rfl
    exact ⟨hname, cut_buf (hname.trans_lt hn)⟩

theorem otaChannel_cut (t : List Byte) : otaChannel (cut 8 t) =
    if t = chars "latest" then some true else if t = chars "stable" then some false else none := by
  have hlatest := @cut_eq_iff 8 6 t (chars "latest") (by decide) (by decide)
  have hstable := @cut_eq_iff 8 6 t (chars "stable") (by decide) (by decide)
  simp only [otaChannel, hlatest, hstable]

theorem takeWhile_length_iff {t : List Byte} {n : ℕ} (h : t.length = n) :
    (t.takeWhile isDigit).length = n ↔ ∀ c ∈ t, isDigit c = true := by
  rw [← List.takeWhile_eq_self_iff]
  constructor
  · intro hl
    exact (List.takeWhile_prefix isDigit).eq_of_length (hl.trans h.symm)
  · intro heq
    rw [heq, h]

theorem bleMode_iff {t : List Byte} {m : Session.Mode} :
    bleMode (cut 8 t) = some m ↔ t = modeName m := by
  unfold bleMode
  by_cases h : (cut 8 t).len ≥ 8
  · rw [if_pos h]
    constructor
    · intro h
      simp at h
    · rintro rfl
      cases m <;> exact absurd h (by decide)
  · rw [if_neg h, cut_buf (Nat.not_le.mp h)]
    constructor
    · intro hm
      split_ifs at hm with h₁ h₂ h₃
      · exact Option.some.inj hm ▸ h₁
      · exact Option.some.inj hm ▸ h₂
      · exact Option.some.inj hm ▸ h₃
    · rintro rfl
      cases m <;> decide

theorem whole (t : List Byte) : Whole t where
  creds := by
    intro u
    constructor
    · rintro ⟨⟨h₁, h₂⟩, h₃, h₄⟩
      exact ⟨⟨h₁, h₂, cut_buf (Nat.lt_succ_of_le h₂)⟩, h₃, h₄, cut_buf (Nat.lt_succ_of_le h₄)⟩
    · rintro ⟨⟨h₁, h₂, -⟩, h₃, h₄, -⟩
      exact ⟨⟨h₁, h₂⟩, h₃, h₄⟩
  action := by
    intro name
    exact and_congr_right fun h => by rw [cut_buf h]
  passkey := by
    constructor
    · rintro ⟨v, hv, hlen, hspan⟩
      obtain rfl := Option.some.inj hv
      have hlen : t.length = 6 := hlen
      rw [cut_buf (by omega), takeWhile_length_iff hlen] at hspan
      exact ⟨hlen, hspan⟩
    · rintro ⟨hlen, hall⟩
      refine ⟨_, rfl, hlen, ?_⟩
      rw [cut_buf (by omega)]
      exact (takeWhile_length_iff hlen).mpr hall
  latest := by
    rw [otaChannel_cut]
    split_ifs with h <;> simp [h]
  stable := by
    have hne : chars "latest" ≠ chars "stable" := by decide
    rw [otaChannel_cut]
    split_ifs with h h'
    · simp [h, hne]
    · simp [h']
    · simp [h']
  ble := fun _ => bleMode_iff
  thermo := by
    intro name hname
    have hlen : name.length < 8 ∧ chars "?" ≠ name := by
      obtain rfl | rfl := hname <;> decide
    unfold thermoMode
    split_ifs with h
    · constructor
      · exact fun heq => absurd heq hlen.2
      · rintro rfl
        exact absurd hlen.1 (Nat.not_lt.mpr h)
    · rw [cut_buf (Nat.not_le.mp h)]
  sensors := by
    intro u
    constructor
    · rintro ⟨h₁, h₂⟩
      have h₁ : t.length ≤ 16 := Nat.not_lt.mp h₁
      have h₂ : u.length ≤ 32 := Nat.not_lt.mp h₂
      exact ⟨⟨h₁, cut_buf (Nat.lt_succ_of_le h₁)⟩, h₂, cut_buf (Nat.lt_succ_of_le h₂)⟩
    · rintro ⟨⟨h₁, -⟩, h₂, -⟩
      exact ⟨Nat.not_lt.mpr h₁, Nat.not_lt.mpr h₂⟩

def keepsText (cap : ℕ) (sc : Scalar) (v : List Byte) : Prop :=
  ∀ t, sc = .str t → t.length < cap ∧ v = t

def keepsCut (cap : ℕ) (sc : Scalar) (v : Cut) : Prop :=
  ∀ t, sc = .str t → v.len = t.length ∧ (t.length < cap → v.buf = t)

/-- The value is in each range inside the bound where the integer is. -/
def keepsRanges (bound : ℕ) (sc : Scalar) (v : ℤ) : Prop :=
  ∀ neg ds, sc = .int neg ds → ∀ lo hi : ℤ, -bound < lo → hi < bound →
    (lo ≤ v ∧ v ≤ hi ↔ lo ≤ trueInt neg ds ∧ trueInt neg ds ≤ hi)

def keepsClock (sc : Scalar) (v : Option Clock) : Prop :=
  (v = none ↔ sc = .null) ∧ ∀ c, v = some c →
    (c.bad = false ↔ ∃ neg ds, sc = .int neg ds ∧ (localNowMin : ℤ) ≤ trueInt neg ds) ∧
      ∀ neg ds, sc = .int neg ds → ∃ n, c.now = some n ∧ ∀ hi < llongMax, n ≤ hi ↔ ofDigits ds ≤ hi

/-- Strings are kept whole or with their length, and integers up to any later range check. -/
def Kind.Keeps : (k : Kind) → Scalar → k.Val → Prop
  | .strict cap => keepsText cap
  | .long cap => keepsCut cap
  | .bool => fun sc v => sc = .bool v
  | .uint => fun sc v => ∃ ds, sc = .int false ds ∧ v = ofDigits ds
  | .int => keepsRanges i64Past
  | .value cap => fun sc v => keepsText cap sc v ∧
    ∀ neg ds, sc = .int neg ds → (sign neg ++ ds).length < cap ∧ v = sign neg ++ ds
  | .localNow => keepsClock
  | .aliasText => fun sc v => ∀ t, sc = .str t →
    v = if 1 ≤ t.length ∧ t.length < aliasLen then t else noAlias
  | .pct _ => keepsRanges 127
  | .pairValue => fun sc v => (v.isSome ↔ ∃ t, sc = .str t) ∧ ∀ c, v = some c → keepsCut 8 sc c

theorem keepsRanges_of {bound : ℕ} {sc : Scalar} {v : ℤ}
    (h : ∀ neg ds, sc = .int neg ds → (-(bound : ℤ) < trueInt neg ds ∧ trueInt neg ds < bound ∧
      v = trueInt neg ds) ∨ ((bound : ℤ) ≤ trueInt neg ds ∧ (bound : ℤ) ≤ v) ∨
      (trueInt neg ds ≤ -bound ∧ v ≤ -bound)) : keepsRanges bound sc v := by
  intro neg ds hsc lo hi hlo hhi
  obtain ⟨-, -, rfl⟩ | ⟨h₁, h₂⟩ | ⟨h₁, h₂⟩ := h neg ds hsc
  · exact Iff.rfl
  · constructor <;> rintro ⟨-, h⟩ <;> omega
  · constructor <;> rintro ⟨h, -⟩ <;> omega

theorem keeps_i64 {sc : Scalar} {v : ℤ} (h : readsI64 sc = some v) : keepsRanges i64Past sc v := by
  refine keepsRanges_of ?_
  rintro neg ds rfl
  obtain ⟨-, h⟩ := Option.ite_none_left_eq_some.mp h
  have hpast : i64Past = 4611686018427387900 := rfl
  unfold trueInt at *
  cases neg with
  | true =>
    simp only [if_true] at *
    split_ifs at h <;> have h := Option.some.inj h <;> omega
  | false =>
    simp only [Bool.false_eq_true, if_false] at *
    split_ifs at h <;> have h := Option.some.inj h <;> omega

theorem keeps_pct {withSign : Bool} {sc : Scalar} {v : ℤ} (h : readsPct withSign sc = some v) :
    keepsRanges 127 sc v := by
  refine keepsRanges_of ?_
  rintro neg ds rfl
  obtain ⟨-, h⟩ := Option.ite_none_right_eq_some.mp h
  have h := Option.some.inj h
  omega

theorem keeps_clock {sc : Scalar} {v : Option Clock} (h : readsLocalNow sc = some v) :
    keepsClock sc v := by
  have hmin : localNowMin = 1767225600 := rfl
  cases sc with
  | null =>
    obtain rfl := Option.some.inj h
    exact ⟨by simp, by rintro c h; simp at h⟩
  | int neg ds =>
    obtain ⟨-, h⟩ := Option.ite_none_left_eq_some.mp h
    obtain rfl := Option.some.inj h
    refine ⟨by simp, ?_⟩
    intro c hc
    obtain rfl := Option.some.inj hc
    constructor
    · simp only [Bool.or_eq_false_iff, decide_eq_false_iff_not, Scalar.int.injEq]
      constructor
      · rintro ⟨rfl, hlate⟩
        exact ⟨false, ds, ⟨rfl, rfl⟩, Int.ofNat_le.mpr (Nat.not_lt.mp hlate)⟩
      · rintro ⟨neg', ds', ⟨rfl, rfl⟩, hlate⟩
        cases neg with
        | true =>
          simp only [trueInt, if_true] at hlate
          omega
        | false => exact ⟨rfl, Nat.not_lt.mpr (Int.ofNat_le.mp hlate)⟩
    · intro neg' ds' hsc
      obtain ⟨rfl, rfl⟩ := Scalar.int.inj hsc
      refine ⟨_, rfl, fun hi hlt => ?_⟩
      omega
  | real neg ds =>
    obtain ⟨-, h⟩ := Option.ite_none_left_eq_some.mp h
    obtain rfl := Option.some.inj h
    exact ⟨by simp, by rintro c hc; obtain rfl := Option.some.inj hc; simp⟩
  | _ =>
    obtain rfl := Option.some.inj h
    exact ⟨by simp, by rintro c hc; obtain rfl := Option.some.inj hc; simp⟩

theorem keeps_text {cap : ℕ} {t v : List Byte}
    (h : (if t.length < cap then some t else none) = some v) :
    keepsText cap (.str t) v := by
  obtain ⟨hlen, h⟩ := Option.ite_none_right_eq_some.mp h
  intro t' ht
  obtain rfl := Scalar.str.inj ht
  exact ⟨hlen, (Option.some.inj h).symm⟩

theorem keeps_cut {cap : ℕ} (t : List Byte) : keepsCut cap (.str t) (cut cap t) := by
  intro t' ht
  obtain rfl := Scalar.str.inj ht
  exact ⟨rfl, cut_buf⟩

theorem keeps_alias {sc : Scalar} {v : List Byte} (h : readsAlias sc = some v) :
    ∀ t, sc = .str t → v = if 1 ≤ t.length ∧ t.length < aliasLen then t else noAlias := by
  rintro t rfl
  rw [← Option.some.inj h]
  have hiff : (t = [] ∨ t.length ≥ aliasLen) ↔ ¬ (1 ≤ t.length ∧ t.length < aliasLen) := by
    rw [← List.length_eq_zero_iff]
    omega
  simp only [hiff, ite_not]

theorem keeps_pairValue {sc : Scalar} {v : Option Cut} (h : readsPairValue sc = some v) :
    (v.isSome ↔ ∃ t, sc = .str t) ∧ ∀ c, v = some c → keepsCut 8 sc c := by
  cases sc with
  | str t =>
    obtain rfl := Option.some.inj h
    refine ⟨by simp, fun c hc => ?_⟩
    exact Option.some.inj hc ▸ keeps_cut t
  | _ =>
    simp only [readsPairValue, Option.map_eq_some_iff] at h
    obtain ⟨w, -, rfl⟩ := h
    exact ⟨by simp, fun c hc => by simp at hc⟩

theorem Kind.keeps {k : Kind} {sc : Scalar} {v : k.Val} (h : k.reads sc = some v) :
    k.Keeps sc v := by
  cases k with
  | strict cap =>
    cases sc with
    | str t => exact keeps_text h
    | _ => simp [Kind.reads, readsStr] at h
  | long cap =>
    cases sc with
    | str t => exact Option.some.inj h ▸ keeps_cut t
    | _ => simp [Kind.reads, readsCut] at h
  | bool =>
    cases sc with
    | bool b => exact congrArg Scalar.bool (Option.some.inj h)
    | _ => simp [Kind.reads, readsBool] at h
  | uint =>
    cases sc with
    | int neg ds =>
      cases neg with
      | true => simp [Kind.reads, readsUint] at h
      | false =>
        obtain ⟨-, h⟩ := Option.ite_none_left_eq_some.mp h
        exact ⟨ds, rfl, (Option.some.inj h).symm⟩
    | _ => simp [Kind.reads, readsUint] at h
  | int => exact keeps_i64 h
  | value cap =>
    cases sc with
    | str t => exact ⟨keeps_text h, fun neg ds h => by simp at h⟩
    | null => exact ⟨fun t h => by simp at h, fun neg ds h => by simp at h⟩
    | int neg ds =>
      obtain ⟨hgood, h⟩ := Option.ite_none_left_eq_some.mp h
      refine ⟨fun t h => by simp at h, fun neg' ds' hsc => ?_⟩
      obtain ⟨rfl, rfl⟩ := Scalar.int.inj hsc
      exact ⟨Nat.not_le.mp (not_or.mp hgood).2, (Option.some.inj h).symm⟩
    | _ => simp [Kind.reads, readsValue] at h
  | localNow => exact keeps_clock h
  | aliasText => exact keeps_alias h
  | pct withSign => exact keeps_pct h
  | pairValue => exact keeps_pairValue h

/-- Every body is read as its form says, with each value kept and each later test a true one. -/
theorem bodies_exact (f : Form σ) (body : List Byte) (x : σ) :
    (∀ seen y, f.parse body x = some (seen, y) ↔ ∃ is, f.Takes body is x y ∧ seen = mark 0 is) ∧
      (∀ (k : Kind) (sc : Scalar) (v : k.Val), k.reads sc = some v → k.Keeps sc v) ∧
        ∀ t, Whole t :=
  ⟨fun _ _ => f.parse_iff, fun _ _ _ h => Kind.keeps h, whole⟩

/-- A target, a mode, two numbers of the inner object and no reference sensor. -/
def thermoBody : List Byte :=
  chars "\x7b \"target\":215,\"mode\" :\"cozy\"," ++
    chars "\"cfg\":\x7b\"kp\":-30,\"hyst\":2\x7d,\"ref\":null \x7d"

theorem bodies_exact_thermo : ∃ is, thermoForm.Takes thermoBody is {}
    { target := 215, mode := chars "cozy", cfgHas := 34,
      cfg := ((List.replicate 19 0).set 1 (-30)).set 5 2 } ∧ 278 = mark 0 is :=
  ((bodies_exact thermoForm thermoBody {}).1 278 _).mp (by decide +kernel)

example :
    parseCommand (chars "\x7b\"what\" :\"light\", \"function\":\"l\\\"\" ,\"value\":-0 \x7d") =
      some { fn := chars "l\"", what := chars "light", value := chars "-0" } := by decide +kernel

/-- A key of 24 bytes, one more than the key buffer holds. -/
def longKey : List Byte := List.replicate 24 0x61

/-- The least percentage of the display, and the same member as an integer. -/
def minForm : Form ℤ where
  keys := { names := [chars "min"] }
  fields := [.one (.pct false) fun v _ => v]

def minIntForm : Form ℤ where
  keys := { names := [chars "min"] }
  fields := [.one .int fun v _ => v]

/-- A body with a longer key is in the grammar of its keys, and is refused. A display percentage
with leading zeros is not in the grammar of integers, and is taken. -/
theorem long_key_refused : (¬ ∀ (names : List (List Byte)) (body : List Byte),
    names.length ≤ 30 → names.Nodup →
      ((∃ seen y, parseBody names (fun _ => parsePut .bool fun v (_ : Bool) => v) body false =
          some (seen, y)) ↔
        ∃ is y, Body names (fun _ => Puts .bool fun v (_ : Bool) => v) body is false y)) ∧
    ¬ ∀ body seen y, minForm.parse body 0 = some (seen, y) →
    ∃ is, minIntForm.Takes body is 0 y := by
  refine ⟨fun h => ?_, fun h => ?_⟩
  · have hkey : Str (quote :: (longKey ++ quote :: colon :: (trueText ++ [closing]))) longKey
        (colon :: (trueText ++ [closing])) := ⟨_, .nil, decode_iff.mp (by decide)⟩
    have htrue : Puts .bool (fun v (_ : Bool) => v) (trueText ++ [closing]) false true [closing] :=
      ⟨_, .bool true, true, .nil, .bool (b := true), rfl, rfl⟩
    obtain ⟨seen, y, hparse⟩ := (h [longKey]
      (opening :: quote :: (longKey ++ quote :: colon :: (trueText ++ [closing]))) (by decide)
      (List.nodup_singleton _)).mpr
        ⟨[0], true, List.nodup_singleton 0, [], .full .nil (.last hkey .nil rfl htrue .nil), .nil⟩
    have hnone : parseBody [longKey] (fun _ => parsePut .bool fun v (_ : Bool) => v)
        (opening :: quote :: (longKey ++ quote :: colon :: (trueText ++ [closing]))) false =
        none := by decide
    rw [hnone] at hparse
    cases hparse
  · obtain ⟨is, htakes⟩ := h (chars "\x7b\"min\":007\x7d") 1 7 (by decide +kernel)
    have hparse : minIntForm.parse (chars "\x7b\"min\":007\x7d") 0 = some (mark 0 is, 7) :=
      minIntForm.parse_iff.mpr ⟨is, htakes, rfl⟩
    have hnone : minIntForm.parse (chars "\x7b\"min\":007\x7d") 0 = none := by decide +kernel
    rw [hnone] at hparse
    cases hparse

end OpenCalifornia.Web
