import Mathlib
import OpenCalifornia.Lib.Registry

/-! # The configured sensors

The type table of `sensors.c` and its sensor list: an array of fixed size of which the first `n`
entries count. What is stored is the whole array. -/

namespace OpenCalifornia.Sensors
open Lib (Registry)

def sensMax : ℕ := 16

/-- The value at `p[0..2]` and the battery behind it: a temperature and a humidity, in tenths. -/
def govee24 (p : List ℕ) : ℤ × ℕ × ℕ :=
  let base := p.getD 0 0 * 2 ^ 16 + p.getD 1 0 * 2 ^ 8 + p.getD 2 0
  let t := base % 2 ^ 23
  (if base / 2 ^ 23 % 2 = 1 then -((t / 1000 : ℕ) : ℤ) else (t / 1000 : ℕ), t % 1000,
    p.getD 3 0 % 128)

/-- `match_govee_0001` -/
def matchGovee0001 (adv : List ℕ) : Bool :=
  if (adv.length ≠ 2 + 6 ∧ adv.length ≠ 2 + 8) ∨ adv.getD 2 0 ≠ 1 ∨ adv.getD 3 0 ≠ 1 then false
  else
    let r := govee24 (adv.drop (2 + 2))
    (-400 : ℤ) ≤ r.1 ∧ r.1 ≤ 800 ∧ r.2.1 ≤ 1000 ∧ r.2.2 ≤ 100

def vicMinLen : ℕ := 10

/-- 1 for a solar charger, 2 for a battery, 0 for neither. -/
def victronTypeOf (adv : List ℕ) : ℕ :=
  if adv.length < vicMinLen ∨ adv.getD 2 0 ≠ 0x10 then 0
  else
    let model := adv.getD 4 0 + 2 ^ 8 * adv.getD 5 0
    if model = 0xA3A4 ∨ model = 0xA3A5 then 2
    else if adv.getD 6 0 = 0x01 then 1
    else if adv.getD 6 0 = 0x02 then 2
    else 0

/-- A row of `TYPES`, without its decoder. -/
structure SensType where
  id : List Char
  mfr : ℕ
  needsKey : Bool
  fields : List String
  matchAdv : Option (List ℕ → Bool)

def goveeF : List String := ["temp_c", "humidity", "battery"]

def mpptF : List String :=
  ["battery_current", "battery_voltage", "charge_state", "error_code", "load_current", "pv_power",
    "yield_today_kwh"]

def vbattF : List String := ["battery_voltage", "temperature_c"]

def types : List SensType :=
  [⟨"govee".toList, 0xEC88, false, goveeF, none⟩,
    ⟨"victron_mppt".toList, 0x02E1, true, mpptF, some fun adv => victronTypeOf adv = 1⟩,
    ⟨"victron_battery".toList, 0x02E1, true, vbattF, some fun adv => victronTypeOf adv = 2⟩,
    ⟨"govee".toList, 0x0001, false, goveeF, some matchGovee0001⟩]

def typeAt (i : ℕ) : SensType := types.getD i ⟨[], 0, false, [], none⟩

def typeOf (adv : List ℕ) : Option ℕ :=
  if adv.length < 2 then none
  else
    let mfr := adv.getD 0 0 + 2 ^ 8 * adv.getD 1 0
    types.findIdx? fun t => t.mfr = mfr ∧ t.matchAdv.all fun m => m adv

/-- `sens_cfg_t`; the alias is a string. -/
structure Cfg where
  type : ℕ
  addrType : ℕ
  addr : List ℕ
  key : List ℕ
  sensAlias : List Char
  deriving DecidableEq, Repr

def Cfg.zero : Cfg := ⟨0, 0, List.replicate 6 0, List.replicate 16 0, []⟩

/-- `sens_list_t` -/
structure SensList where
  n : ℕ
  e : List Cfg
  length_e : e.length = sensMax
  deriving DecidableEq

namespace SensList

def zero : SensList := ⟨0, List.replicate sensMax .zero, List.length_replicate⟩

def at' (c : SensList) (i : ℕ) : Cfg := c.e.getD i .zero

/-- The entries that count. -/
def list (c : SensList) : List Cfg := c.e.take c.n

/-- An entry is assigned. -/
def put (c : SensList) (i : ℕ) (x : Cfg) : SensList :=
  ⟨c.n, c.e.set i x, by rw [List.length_set, c.length_e]⟩

end SensList

/-- `memmove(&l[dst], &l[src], count)` -/
def memmove {α : Type} (l : List α) (dst src count : ℕ) : List α :=
  l.mapIdx fun j x => if dst ≤ j ∧ j < dst + count then l.getD (j - dst + src) x else x

/-- One turn of the loop in `load`: the count and the array so far. -/
def loadEntry (x : ℕ × SensList) (i : ℕ) : ℕ × SensList :=
  let c := x.2.at' i
  if c.type ≥ types.length then x
  else (x.1 + 1, x.2.put x.1 { c with sensAlias := c.sensAlias.take 16 })

/-- The array as it is read from the store; missing or damaged = empty. -/
def readList : Option SensList → SensList
  | none => .zero
  | some c => if c.n > sensMax then .zero else c

def loadList (stored : Option SensList) : SensList :=
  let c := readList stored
  let r := (List.range c.n).foldl loadEntry (0, c)
  { r.2 with n := r.1 }

/-- The alphabet of an alias. -/
def isAliasChar (c : Char) : Bool :=
  c ∈ "abcdefghijklmnopqrstuvwxyz0123456789_-".toList

def ValidAlias (a : List Char) : Prop := 1 ≤ a.length ∧ a.length ≤ 16 ∧ a.all isAliasChar = true

instance (a : List Char) : Decidable (ValidAlias a) := inferInstanceAs (Decidable (_ ∧ _))

/-- `alias_ok(alias, self) == 0` -/
def aliasOk (c : SensList) (a : List Char) (self : ℤ) : Bool :=
  ValidAlias a ∧ (List.range c.n).all fun i => (i : ℤ) = self ∨ (c.at' i).sensAlias ≠ a

namespace SensList

/-- `s_cfg.e[s_cfg.n++] = x` -/
def push (c : SensList) (x : Cfg) : SensList := { c.put c.n x with n := c.n + 1 }

/-- `memset(&s_cfg.e[--s_cfg.n], 0, ...)` -/
def pop (c : SensList) : SensList := { c.put (c.n - 1) .zero with n := c.n - 1 }

/-- The entries behind `i` move up, and the place of the last one is cleared. -/
def removeAt (c : SensList) (i : ℕ) : SensList :=
  let n := c.n - 1
  { (⟨n, memmove c.e i (i + 1) (n - i), by rw [memmove, List.length_mapIdx, c.length_e]⟩ :
      SensList).put n .zero with n := n }

def setAlias (c : SensList) (i : ℕ) (a : List Char) : SensList :=
  c.put i { c.at' i with sensAlias := a }

end SensList

/-- A list of sensors as it should be. -/
abbrev Configured := Registry Cfg.sensAlias ValidAlias sensMax

theorem length_list {c : SensList} (h : c.n ≤ sensMax) : c.list.length = c.n := by
  rw [SensList.list, List.length_take, c.length_e, Nat.min_eq_left h]

theorem getElem?_list {c : SensList} (h : c.n ≤ sensMax) {i : ℕ} (hi : i < c.n) :
    c.list[i]? = some (c.at' i) := by
  rw [SensList.list, List.getElem?_take_of_lt hi, SensList.at', List.getD_eq_getElem?_getD,
    List.getElem?_eq_getElem (by rw [c.length_e]; omega), Option.getD_some]

theorem mem_list {c : SensList} (h : c.n ≤ sensMax) {x : Cfg} :
    x ∈ c.list ↔ ∃ i, i < c.n ∧ c.at' i = x := by
  rw [List.mem_iff_getElem?]
  constructor
  · rintro ⟨i, hi⟩
    have hlt : i < c.n := length_list h ▸ (List.getElem?_eq_some_iff.mp hi).1
    rw [getElem?_list h hlt] at hi
    exact ⟨i, hlt, Option.some.inj hi⟩
  · rintro ⟨i, hi, hx⟩
    exact ⟨i, by rw [getElem?_list h hi, hx]⟩

theorem list_push {c : SensList} (h : c.n < sensMax) (x : Cfg) :
    (c.push x).list = c.list ++ [x] := by
  have hlen : c.n < c.e.length := by rw [c.length_e]; exact h
  simp only [SensList.push, SensList.put, SensList.list]
  rw [List.take_add_one, List.take_set_of_le (Nat.le_refl _), List.getElem?_set_self hlen,
    Option.toList_some]

theorem list_pop_push (c : SensList) (x : Cfg) : (c.push x).pop.list = c.list := by
  simp only [SensList.pop, SensList.push, SensList.put, SensList.list, Nat.add_sub_cancel]
  rw [List.take_set_of_le (Nat.le_refl _), List.take_set_of_le (Nat.le_refl _)]

theorem getElem?_memmove {α : Type} (l : List α) (dst src count j : ℕ) :
    (memmove l dst src count)[j]? =
      l[j]?.map fun x => if dst ≤ j ∧ j < dst + count then l.getD (j - dst + src) x else x := by
  rw [memmove, List.getElem?_mapIdx]

theorem list_removeAt {c : SensList} (h : c.n ≤ sensMax) {i : ℕ} (hi : i < c.n) :
    (c.removeAt i).list = c.list.eraseIdx i := by
  simp only [SensList.removeAt, SensList.put, SensList.list]
  rw [List.take_set_of_le (Nat.le_refl _)]
  refine List.ext_getElem? fun j => ?_
  have hlen := c.length_e
  rw [List.getElem?_eraseIdx]
  by_cases hj : j < c.n - 1
  · have hmem : c.e[j]? = some (c.at' j) := by
      rw [← getElem?_list h (by omega), SensList.list, List.getElem?_take_of_lt (by omega)]
    rw [List.getElem?_take_of_lt hj, getElem?_memmove, hmem, Option.map_some]
    by_cases hji : j < i
    · rw [if_neg (by omega), if_pos hji, List.getElem?_take_of_lt (by omega), hmem]
    · rw [if_pos (by omega), if_neg hji, show j - i + (i + 1) = j + 1 by omega,
        List.getElem?_take_of_lt (by omega), List.getD_eq_getElem?_getD,
        List.getElem?_eq_getElem (by omega), Option.getD_some]
  · rw [List.getElem?_eq_none (by simp only [List.length_take]; omega), if_neg (by omega),
      List.getElem?_eq_none (by simp only [List.length_take]; omega)]

theorem list_put {c : SensList} (i : ℕ) (x : Cfg) : (c.put i x).list = c.list.set i x := by
  rw [SensList.list, SensList.put, SensList.list, List.take_set]

theorem put_at {c : SensList} (i : ℕ) : c.put i (c.at' i) = c := by
  obtain ⟨n, e, h⟩ := c
  simp only [SensList.put, SensList.at', SensList.mk.injEq, true_and]
  by_cases hi : i < e.length
  · rw [List.getD_eq_getElem?_getD, List.getElem?_eq_getElem hi, Option.getD_some,
      List.set_getElem_self]
  · exact List.set_eq_of_length_le (by omega)

theorem setAlias_setAlias {c : SensList} {i : ℕ} (hi : i < sensMax) (a : List Char) :
    (c.setAlias i a).setAlias i (c.at' i).sensAlias = c := by
  have hat : (c.put i { c.at' i with sensAlias := a }).at' i = { c.at' i with sensAlias := a } := by
    rw [SensList.at', SensList.put, List.getD_eq_getElem?_getD,
      List.getElem?_set_self (by rw [c.length_e]; exact hi), Option.getD_some]
  rw [SensList.setAlias, SensList.setAlias, hat]
  calc (c.put i { c.at' i with sensAlias := a }).put i (c.at' i)
      = c.put i (c.at' i) := by
        simp only [SensList.put, List.set_set]
    _ = c := put_at i

def Cfg.known (c : Cfg) : Bool := c.type < types.length

def Cfg.terminated (c : Cfg) : Cfg := { c with sensAlias := c.sensAlias.take 16 }

/-- The loop writes at or before the entry that it reads, so what is still to read is as it was. -/
theorem loadEntry_range (c : SensList) {m : ℕ} (hm : m ≤ sensMax) :
    let r := (List.range m).foldl loadEntry (0, c)
    r.1 ≤ m ∧ (∀ i, m ≤ i → r.2.at' i = c.at' i) ∧
      r.2.e.take r.1 = ((c.e.take m).filter Cfg.known).map Cfg.terminated := by
  induction m with
  | zero => simp
  | succ m ih =>
    obtain ⟨hk, hrest, htake⟩ := ih (by omega)
    rw [List.range_succ, List.foldl_append, List.foldl_cons, List.foldl_nil]
    generalize hr : (List.range m).foldl loadEntry (0, c) = r at hk hrest htake ⊢
    have hlen : m < c.e.length := by rw [c.length_e]; omega
    have hat : c.e[m]? = some (c.at' m) := by
      rw [SensList.at', List.getD_eq_getElem?_getD, List.getElem?_eq_getElem hlen,
        Option.getD_some]
    have hstep : (c.e.take (m + 1)).filter Cfg.known =
        (c.e.take m).filter Cfg.known ++ [c.at' m].filter Cfg.known := by
      rw [List.take_add_one, hat, Option.toList_some, List.filter_append]
    simp only [loadEntry, hrest m (Nat.le_refl _)]
    by_cases hknown : (c.at' m).type ≥ types.length
    · rw [if_pos hknown, hstep]
      have hno : Cfg.known (c.at' m) = false := decide_eq_false (by omega)
      refine ⟨by omega, fun i hi => hrest i (by omega), ?_⟩
      rw [List.filter_singleton, hno, cond_false, List.append_nil]
      exact htake
    · rw [if_neg hknown, hstep]
      have hyes : Cfg.known (c.at' m) = true := decide_eq_true (by omega)
      refine ⟨by dsimp only; omega, fun i hi => ?_, ?_⟩
      · have hne : r.1 ≠ i := by omega
        rw [← hrest i (by omega)]
        simp only [SensList.at', SensList.put, List.getD_eq_getElem?_getD]
        rw [List.getElem?_set_ne hne]
      · have hlt : r.1 < r.2.e.length := by rw [r.2.length_e]; omega
        simp only [SensList.put]
        rw [List.filter_singleton, hyes, cond_true, List.map_append, ← htake, List.take_add_one,
          List.take_set_of_le (Nat.le_refl _), List.getElem?_set_self hlt]
        rfl

theorem readList_le (stored : Option SensList) : (readList stored).n ≤ sensMax := by
  rcases stored with _ | c
  · exact Nat.zero_le _
  · rw [readList]
    split_ifs with hn
    · exact Nat.zero_le _
    · omega

theorem loadList_le (stored : Option SensList) : (loadList stored).n ≤ sensMax :=
  Nat.le_trans (loadEntry_range _ (readList_le stored)).1 (readList_le stored)

theorem list_loadList (stored : Option SensList) :
    (loadList stored).list = ((readList stored).list.filter Cfg.known).map Cfg.terminated :=
  (loadEntry_range _ (readList_le stored)).2.2

theorem loadList_known {stored : Option SensList} :
    ∀ x ∈ (loadList stored).list, x.type < types.length := by
  intro x hx
  rw [list_loadList, List.mem_map] at hx
  obtain ⟨y, hy, rfl⟩ := hx
  exact of_decide_eq_true (List.mem_filter.mp hy).2

theorem loadList_eq {c : SensList} (h : c.n ≤ sensMax)
    (hknown : ∀ x ∈ c.list, x.type < types.length)
    (hfits : ∀ x ∈ c.list, x.sensAlias.length ≤ 16) : (loadList (some c)).list = c.list := by
  have hall : c.list.filter Cfg.known = c.list :=
    List.filter_eq_self.mpr fun x hx => decide_eq_true (hknown x hx)
  rw [list_loadList, readList, if_neg (by omega), hall]
  refine (List.map_congr_left fun x hx => ?_).trans (List.map_id _)
  rw [Cfg.terminated, List.take_of_length_le (hfits x hx)]
  rfl

end OpenCalifornia.Sensors
