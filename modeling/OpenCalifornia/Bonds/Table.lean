import OpenCalifornia.Lib.Slots
import OpenCalifornia.Lib.Machine

/-! # The bond store

`ble_store_kv.c`: tables of NimBLE's value structs in memory, each mirrored to its slots in the
kv-store. What is in a struct beside its key is copied only. The three tables keep to their own
slots. -/

namespace OpenCalifornia.Bonds
open Lib Lib.Machine

/-- `ble_addr_t` -/
structure Addr where
  type : BitVec 8
  val : BitVec 48
  deriving DecidableEq

/-- `ble_store_value_sec` -/
structure Sec (ρ : Type) where
  peerAddr : Addr
  rest : ρ

/-- `ble_store_value_cccd` -/
structure Cccd (ρ : Type) where
  peerAddr : Addr
  chrValHandle : BitVec 16
  rest : ρ

/-- `ble_store_key_sec` -/
structure SecKey where
  peerAddr : Addr
  idx : ℕ

/-- `ble_store_key_cccd` -/
structure CccdKey where
  peerAddr : Addr
  chrValHandle : BitVec 16
  idx : ℕ

/-- What the store takes from NimBLE: `BLE_ADDR_ANY`, `ble_store_key_from_value_sec` and
`ble_store_key_from_value_cccd`, whose keys have what belongs to the key of the value and ask for
its first record. -/
class Nimble where
  any : Addr
  secKey {ρ : Type} (v : Sec ρ) : SecKey
  cccdKey {ρ : Type} (v : Cccd ρ) : CccdKey
  secKey_eq {ρ : Type} (v : Sec ρ) : secKey v = ⟨v.peerAddr, 0⟩
  cccdKey_eq {ρ : Type} (v : Cccd ρ) : cccdKey v = ⟨v.peerAddr, v.chrValHandle, 0⟩

variable [Nimble]

/-- `BLE_ADDR_ANY` -/
def Addr.any : Addr := Nimble.any

inductive Tab
  | our
  | peer
  | cccd
  deriving DecidableEq

variable {ρ : Type}

def Rec (ρ : Type) : Tab → Type
  | .our => Sec ρ
  | .peer => Sec ρ
  | .cccd => Cccd ρ

def Key : Tab → Type
  | .our => SecKey
  | .peer => SecKey
  | .cccd => CccdKey

/-- What two records that NimBLE would treat as one have in common. -/
def Id : Tab → Type
  | .our => Addr
  | .peer => Addr
  | .cccd => Addr × BitVec 16

instance : (t : Tab) → DecidableEq (Id t)
  | .our => inferInstanceAs (DecidableEq Addr)
  | .peer => inferInstanceAs (DecidableEq Addr)
  | .cccd => inferInstanceAs (DecidableEq (Addr × BitVec 16))

/-- `sec_same_key`, `cccd_same_key`: the records with equal ones. -/
def ident : (t : Tab) → Rec ρ t → Id t
  | .our => Sec.peerAddr
  | .peer => Sec.peerAddr
  | .cccd => fun c => (c.peerAddr, c.chrValHandle)

/-- `ble_store_key_from_value_sec`, `ble_store_key_from_value_cccd` -/
def keyFromValue : (t : Tab) → Rec ρ t → Key t
  | .our => Nimble.secKey
  | .peer => Nimble.secKey
  | .cccd => Nimble.cccdKey

def findSec (key : SecKey) (vals : List (Sec ρ)) : Option ℕ :=
  if key.peerAddr = Addr.any then if key.idx < vals.length then some key.idx else none
  else if key.idx = 0 then vals.findIdx? fun v => v.peerAddr = key.peerAddr
  else none

/-- The loop of `find_cccd`, from record `i` on. -/
def findCccdFrom (key : CccdKey) : List (Cccd ρ) → ℕ → ℕ → Option ℕ
  | [], _, _ => none
  | c :: cs, i, skipped =>
    if key.peerAddr ≠ Addr.any ∧ c.peerAddr ≠ key.peerAddr then findCccdFrom key cs (i + 1) skipped
    else if key.chrValHandle ≠ 0 ∧ c.chrValHandle ≠ key.chrValHandle then
      findCccdFrom key cs (i + 1) skipped
    else if skipped < key.idx then findCccdFrom key cs (i + 1) (skipped + 1)
    else some i

def findCccd (key : CccdKey) (vals : List (Cccd ρ)) : Option ℕ := findCccdFrom key vals 0 0

def find : (t : Tab) → Key t → List (Rec ρ t) → Option ℕ
  | .our => findSec
  | .peer => findSec
  | .cccd => findCccd

/-- What `cali_kv_get` answers for a slot. -/
inductive Slot (α : Type)
  | missing
  | cleared
  | corrupt
  | record (a : α)

variable {α κ : Type} [DecidableEq κ]

def Slot.used : Slot α → Bool
  | .missing => false
  | .cleared => false
  | .corrupt => true
  | .record _ => true

def Slot.record? : Slot α → Option α
  | .record a => some a
  | _ => none

/-- `kv_table`: the records in memory, and the slots that hold data. -/
structure Table (α : Type) where
  vals : List α := []
  usedSlots : Finset ℕ := ∅

/-- A table and its slots. -/
structure Mirror (α : Type) where
  table : Table α
  slots : ℕ → Slot α

def loadedDup (key : α → κ) (t : Table α) (a : α) : Bool := t.vals.any fun b => key b = key a

/-- The loop of `table_load` at a slot. -/
def loadSlot (key : α → κ) (slots : ℕ → Slot α) (t : Table α) (n : ℕ) : Table α :=
  match slots n with
  | .missing => t
  | .cleared => t
  | .corrupt => { t with usedSlots := insert n t.usedSlots }
  | .record a =>
    if loadedDup key t a then { t with usedSlots := insert n t.usedSlots }
    else { vals := t.vals ++ [a], usedSlots := insert n t.usedSlots }

def tableLoad (key : α → κ) (max : ℕ) (slots : ℕ → Slot α) : Table α :=
  (List.range max).foldl (loadSlot key slots) {}

/-- `cali_kv_set` of a slot: a write that fails leaves it as it was. -/
def Mirror.kvSet (m : Mirror α) (n : ℕ) (x : Slot α) (ok : Bool) : Mirror α :=
  if ok then { m with slots := Function.update m.slots n x } else m

/-- The loop of `table_persist` at a slot. The flag says that no write has failed. -/
def persistSlot (ok : ℕ → Bool) (r : Mirror α × Bool) (n : ℕ) : Mirror α × Bool :=
  let (m, rc) := r
  match m.table.vals[n]? with
  | some a =>
    let m := m.kvSet n (.record a) (ok n)
    if ok n then
      ({ m with table := { m.table with usedSlots := insert n m.table.usedSlots } }, rc)
    else (m, false)
  | none =>
    if n ∈ m.table.usedSlots then
      let m := m.kvSet n .cleared (ok n)
      if ok n then
        ({ m with table := { m.table with usedSlots := m.table.usedSlots.erase n } }, rc)
      else (m, false)
    else (m, rc)

/-- `table_persist` up to slot `j`. -/
def Mirror.persist (m : Mirror α) (ok : ℕ → Bool) (j : ℕ) : Mirror α × Bool :=
  (List.range j).foldl (persistSlot ok) (m, true)

def Table.deleteAt (t : Table α) (idx : ℕ) : Table α := { t with vals := t.vals.eraseIdx idx }

/-- `table_put` before it persists, or `BLE_HS_ESTORE_CAP`. -/
def Table.put (max : ℕ) (t : Table α) (idx : Option ℕ) (a : α) : Option (Table α) :=
  match idx with
  | none => if max ≤ t.vals.length then none else some { t with vals := t.vals ++ [a] }
  | some i => some { t with vals := t.vals.set i a }

inductive Rc
  | ok
  | noent
  | storeCap
  | storeFail
  | notsup
  deriving DecidableEq

structure Limits where
  maxBonds : ℕ
  maxCccds : ℕ

def Limits.max (l : Limits) : Tab → ℕ
  | .our => l.maxBonds
  | .peer => l.maxBonds
  | .cccd => l.maxCccds

abbrev Store (ρ : Type) := (t : Tab) → Mirror (Rec ρ t)

/-- A value of a type that is kept, or of another type. -/
inductive Value (ρ : Type)
  | of (t : Tab) (v : Rec ρ t)
  | other

inductive Query
  | of (t : Tab) (k : Key t)
  | other

/-- A value has an address of its own, and a handle where one belongs to its key: the zero ones
match any. -/
def Proper : (t : Tab) → Rec ρ t → Prop
  | .our => fun v => v.peerAddr ≠ Addr.any
  | .peer => fun v => v.peerAddr ≠ Addr.any
  | .cccd => fun v => v.peerAddr ≠ Addr.any ∧ v.chrValHandle ≠ 0

instance : (t : Tab) → (v : Rec ρ t) → Decidable (Proper t v)
  | .our, v => inferInstanceAs (Decidable (Sec.peerAddr v ≠ Addr.any))
  | .peer, v => inferInstanceAs (Decidable (Sec.peerAddr v ≠ Addr.any))
  | .cccd, v =>
    inferInstanceAs (Decidable (Cccd.peerAddr v ≠ Addr.any ∧ Cccd.chrValHandle v ≠ 0))

def Value.Proper : Value ρ → Prop
  | .of t v => Bonds.Proper t v
  | .other => True

instance : (v : Value ρ) → Decidable v.Proper
  | .of t v => inferInstanceAs (Decidable (Bonds.Proper t v))
  | .other => inferInstanceAs (Decidable True)

def storeRead (s : Store ρ) : Query → Except Rc (Value ρ)
  | .of t k =>
    match (find t k (s t).table.vals).bind fun i => (s t).table.vals[i]? with
    | some v => .ok (.of t v)
    | none => .error .noent
  | .other => .error .notsup

/-- The table that a write or a delete leaves in memory, to be persisted. -/
inductive Change (ρ : Type)
  | answer (rc : Rc)
  | persist (t : Tab) (table : Table (Rec ρ t))

def writeChange (l : Limits) (s : Store ρ) : Value ρ → Change ρ
  | .of t v =>
    match (s t).table.put (l.max t) (find t (keyFromValue t v) (s t).table.vals) v with
    | some table => .persist t table
    | none => .answer .storeCap
  | .other => .answer .notsup

def deleteChange (s : Store ρ) : Query → Change ρ
  | .of t k =>
    match find t k (s t).table.vals with
    | some idx => .persist t ((s t).table.deleteAt idx)
    | none => .answer .noent
  | .other => .answer .noent

/-- The change is persisted up to slot `j t`. -/
def Change.carry (s : Store ρ) (ok : ℕ → Bool) (j : Tab → ℕ) : Change ρ → Rc × Store ρ
  | .answer rc => (rc, s)
  | .persist t table =>
    let (m, done) := Mirror.persist { s t with table } ok (j t)
    (if done then .ok else .storeFail, Function.update s t m)

def storeWrite (l : Limits) (s : Store ρ) (v : Value ρ) (ok : ℕ → Bool) : Rc × Store ρ :=
  (writeChange l s v).carry s ok l.max

def storeDelete (l : Limits) (s : Store ρ) (k : Query) (ok : ℕ → Bool) : Rc × Store ρ :=
  (deleteChange s k).carry s ok l.max

/-- `cali_ble_store_init`: what was in memory is lost. -/
def storeInit (l : Limits) (s : Store ρ) : Store ρ := fun t =>
  { s t with table := tableLoad (ident t) (l.max t) (s t).slots }

/-- A write, a delete, a boot, and a write or a delete in which the power goes after the first `j`
slots are done: the kv-store replaces a value as a whole. -/
inductive Op (ρ : Type)
  | write (v : Value ρ) (ok : ℕ → Bool)
  | delete (k : Query) (ok : ℕ → Bool)
  | boot
  | writeCut (v : Value ρ) (ok : ℕ → Bool) (j : ℕ)
  | deleteCut (k : Query) (ok : ℕ → Bool) (j : ℕ)

/-- The next boot reads what a change that was cut short has left. -/
def cut (l : Limits) (s : Store ρ) (c : Change ρ) (ok : ℕ → Bool) (j : ℕ) : Rc × Store ρ :=
  let (rc, s) := c.carry s ok fun t => min j (l.max t)
  (rc, storeInit l s)

def step (l : Limits) : Op ρ → Store ρ → Option (Rc × Store ρ)
  | .write v ok, s => if v.Proper then some (storeWrite l s v ok) else none
  | .delete k ok, s => some (storeDelete l s k ok)
  | .boot, s => some (.ok, storeInit l s)
  | .writeCut v ok j, s => if v.Proper then some (cut l s (writeChange l s v) ok j) else none
  | .deleteCut k ok j, s => some (cut l s (deleteChange s k) ok j)

end OpenCalifornia.Bonds
