import Mathlib
import OpenCalifornia.Lib.Cache
import OpenCalifornia.Lib.Machine
import OpenCalifornia.Sensors.Config

/-! # The sensors and those seen nearby

The adverts and the edits of `sensors.c`. An edit changes the list in place, stores it whole and
takes the change back where that fails. -/

namespace OpenCalifornia.Sensors
open Lib (Cache)

def offlineS : ℕ := 600
def recMinMs : ℕ := 60000

/-- The checksum of an address, what `sscanf` makes of its text, the fields that a type decodes from
an advert under a key, and a number as text. -/
structure Env (F : Type) where
  crc32 : List ℕ → ℕ
  parseAddr : String → Option (List ℕ)
  decode : ℕ → List ℕ → List ℕ → Option (List F)
  fmtNum : F → Option String

/-- `cali_tevent_t` of an advert. -/
structure Advert where
  data : List ℕ
  status : ℤ
  addr : String
  rssi : ℤ
  name : List Char

/-- `cali_sensor_reading_t`; no field: no reading yet. -/
structure Reading (F : Type) where
  f : List F
  atMs : ℕ

/-- A row of `s_val`. -/
structure Val (F : Type) where
  r : Reading F
  nextRecMs : ℕ

def Val.zero {F : Type} : Val F := ⟨⟨[], 0⟩, 0⟩

/-- A row of `s_seen`; id 0: free row. -/
structure SeenRow where
  id : ℕ
  type : ℕ
  addrType : ℕ
  addr : List ℕ
  rssi : ℤ
  model : List Char
  adv : List ℕ
  atMs : ℕ
  deriving DecidableEq, Repr

def SeenRow.zero : SeenRow := ⟨0, 0, 0, List.replicate 6 0, 0, [], [], 0⟩

/-- The seen table: a row in use is for one address of one address type. -/
def seenRows : Cache SeenRow (ℕ × List ℕ) where
  used r := r.id ≠ 0
  key r := (r.addrType, r.addr)
  age r := r.atMs

/-- The variables of `sensors.c`, and what is stored under `sens_list`. -/
structure State (F : Type) where
  cfg : SensList
  val : List (Val F)
  seen : List SeenRow
  stored : Option SensList

/-- A record of the diagnostics. -/
structure ExtRec where
  dev : List Char
  type : List Char
  fields : List (String × String)

variable {F : Type} (env : Env F)

def sensId (addr : List ℕ) : ℕ := env.crc32 addr % 2 ^ 16 ||| 1

def modelOf (name : List Char) : List Char :=
  let u := (name.reverse.findIdx? (· = '_')).map fun i => name.length - 1 - i
  let n := u.getD name.length
  let n := if u.isNone ∧ n = 10 ∧ "GV".toList.isPrefixOf name then 6 else n
  name.take (min n 23)

/-- The difference of two `uint64_t`. -/
def since (nowMs atMs : ℕ) : ℕ := (nowMs + 2 ^ 64 - atMs) % 2 ^ 64

def load (s : State F) : State F :=
  { s with cfg := loadList s.stored, val := List.replicate sensMax .zero }

def init (s : State F) : State F := { load s with seen := List.replicate sensMax .zero }

/-- The state at power on. -/
def boot (stored : Option SensList) : State F :=
  init ⟨.zero, List.replicate sensMax .zero, List.replicate sensMax .zero, stored⟩

/-- `store`, which the flash lets through or not. -/
def store (s : State F) (ok : Bool) : Bool × State F :=
  if ok then (true, { s with stored := some s.cfg }) else (false, s)

/-- The row that an advert writes. -/
def seenRow (e : Advert) (ty : ℕ) (addr : List ℕ) (nowMs : ℕ) : SeenRow where
  id := sensId env addr
  type := ty
  addrType := (e.status % 256).toNat
  addr := addr
  rssi := e.rssi
  model := modelOf e.name
  adv := e.data.take 31
  atMs := nowMs

/-- An advert is one of this sensor. -/
def Cfg.sends (c : Cfg) (e : Advert) (ty : ℕ) (addr : List ℕ) : Bool :=
  c.type = ty ∧ c.addrType = (e.status % 256).toNat ∧ c.addr = addr

/-- The fields that are numbers. -/
def recFields (ty : ℕ) (f : List F) : List (String × String) :=
  ((typeAt ty).fields.zip f).filterMap fun x => (env.fmtNum x.2).map fun v => (x.1, v)

/-- A reading of the configured sensor `i`, and the record it makes where one is due. -/
def reading (s : State F) (i : ℕ) (e : Advert) (ty nowMs : ℕ) : Option ExtRec × State F :=
  let c := s.cfg.at' i
  match env.decode ty e.data c.key with
  | none => (none, s)
  | some f =>
    let v := s.val.getD i .zero
    if nowMs ≥ v.nextRecMs then
      (some ⟨c.sensAlias, (typeAt ty).id, recFields env ty f⟩,
        { s with val := s.val.set i ⟨⟨f, nowMs⟩, (nowMs + recMinMs) % 2 ^ 64⟩ })
    else (none, { s with val := s.val.set i ⟨⟨f, nowMs⟩, v.nextRecMs⟩ })

/-- `cali_sensors_on_adv` -/
def onAdv (s : State F) (e : Advert) (nowMs : ℕ) : Option ExtRec × State F :=
  match typeOf e.data, env.parseAddr e.addr with
  | some ty, some addr =>
    match (List.range s.cfg.n).find? fun i => (s.cfg.at' i).sends e ty addr with
    | some i => reading env s i e ty nowMs
    | none =>
      let row := seenRows.pick ((e.status % 256).toNat, addr) s.seen
      (none, { s with seen := s.seen.set row (seenRow env e ty addr nowMs) })
  | _, _ => (none, s)

/-- `CALI_SENS_E_*` -/
inductive Res
  | ok | alias | key | keyMismatch | unknown | full | store
  deriving DecidableEq, Repr

def isHexDigit (c : Char) : Bool := c ∈ "0123456789abcdefABCDEF".toList

def hexValue (c : Char) : ℕ :=
  if c.isDigit then c.toNat - '0'.toNat
  else if c.isLower then c.toNat - 'a'.toNat + 10
  else c.toNat - 'A'.toNat + 10

/-- Two digits a byte. -/
def keyBytes (hex : List Char) : List ℕ :=
  (List.range 16).map fun i =>
    16 * hexValue (hex.getD (2 * i) '0') + hexValue (hex.getD (2 * i + 1) '0')

/-- The key of an entry; a type that needs none has zeros. -/
def entryKey (t : SensType) (keyHex : Option (List Char)) : List ℕ :=
  if t.needsKey then keyBytes (keyHex.getD []) else List.replicate 16 0

/-- The first row of this id that the API shows. -/
def findSeen (s : State F) (id nowMs : ℕ) : Option ℕ :=
  s.seen.findIdx? fun r => r.id ≠ 0 ∧ r.id = id ∧ since nowMs r.atMs < offlineS * 1000

/-- The alias of a sensor to add: the default one is only for the first of its type. -/
def newAlias (s : State F) (ty : ℕ) : Option (List Char) → Option (List Char)
  | some a => some a
  | none => if s.cfg.list.any fun c => c.type = ty then none else some (typeAt ty).id

/-- The checks of `cali_sensors_add`, up to the entry it makes of a seen row. -/
def newEntry (s : State F) (id : ℕ) (sensAlias keyHex : Option (List Char)) (nowMs : ℕ) :
    Except Res (ℕ × Cfg) :=
  match findSeen s id nowMs with
  | none => .error .unknown
  | some row =>
    let r := s.seen.getD row .zero
    let t := typeAt r.type
    match newAlias s r.type sensAlias with
    | none => .error .alias
    | some a =>
      if aliasOk s.cfg a (-1) = false then .error .alias
      else if (t.needsKey ∨ keyHex.isSome) ∧
          keyHex.any (fun k => k.length = 32 ∧ k.all isHexDigit) = false then .error .key
      else
        let key := entryKey t keyHex
        if t.needsKey ∧ r.adv.getD 9 0 ≠ key.getD 0 0 then .error .keyMismatch
        else if s.cfg.n = sensMax then .error .full
        else .ok (row, ⟨r.type, r.addrType, r.addr, key, a⟩)

/-- `cali_sensors_add` -/
def add (s : State F) (id : ℕ) (sensAlias keyHex : Option (List Char)) (nowMs : ℕ) (ok : Bool) :
    Res × State F :=
  match newEntry s id sensAlias keyHex nowMs with
  | .error e => (e, s)
  | .ok (row, c) =>
    let r := store { s with cfg := s.cfg.push c } ok
    if r.1 = false then (.store, { r.2 with cfg := r.2.cfg.pop })
    else (.ok, { r.2 with
      val := r.2.val.set (r.2.cfg.n - 1) .zero
      seen := r.2.seen.set row { r.2.seen.getD row .zero with id := 0 } })

def cfgById (s : State F) (id : ℕ) : Option ℕ :=
  (List.range s.cfg.n).find? fun i => sensId env (s.cfg.at' i).addr = id

/-- `cali_sensors_remove` -/
def remove (s : State F) (id : ℕ) (ok : Bool) : Res × State F :=
  match cfgById env s id with
  | none => (.unknown, s)
  | some i =>
    let r := store { s with
      cfg := s.cfg.removeAt i
      val := memmove s.val i (i + 1) (s.cfg.n - 1 - i) } ok
    if r.1 = false then (.store, load r.2) else (.ok, r.2)

/-- `cali_sensors_rename` -/
def rename (s : State F) (id : ℕ) (sensAlias : Option (List Char)) (ok : Bool) : Res × State F :=
  match cfgById env s id, sensAlias with
  | none, _ => (.unknown, s)
  | some _, none => (.alias, s)
  | some i, some a =>
    if aliasOk s.cfg a i = false then (.alias, s)
    else
      let old := (s.cfg.at' i).sensAlias
      let r := store { s with cfg := s.cfg.setAlias i a } ok
      if r.1 = false then (.store, { r.2 with cfg := r.2.cfg.setAlias i old }) else (.ok, r.2)

inductive Op
  | adv (e : Advert) (nowMs : ℕ)
  | add (id : ℕ) (sensAlias keyHex : Option (List Char)) (nowMs : ℕ) (ok : Bool)
  | remove (id : ℕ) (ok : Bool)
  | rename (id : ℕ) (sensAlias : Option (List Char)) (ok : Bool)
  | restart

/-- An edit returns its result. -/
def step : Op → State F → Option (Res × State F)
  | .adv e nowMs, s => some (.ok, (onAdv env s e nowMs).2)
  | .add id a k nowMs ok, s => some (add s id a k nowMs ok)
  | .remove id ok, s => some (remove env s id ok)
  | .rename id a ok, s => some (rename env s id a ok)
  | .restart, s => some (.ok, init s)

end OpenCalifornia.Sensors
