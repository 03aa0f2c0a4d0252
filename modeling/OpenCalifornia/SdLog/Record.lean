import OpenCalifornia.SdLog.Pager
import OpenCalifornia.Session.State

/-! # Records

`cali_sdlog_format` writes one record as a JSON line. -/

namespace OpenCalifornia.SdLog
open Lib Lib.Bits Lib.Buffer

inductive Ev
  | notify | read | connect | disconnect | snap | text
deriving DecidableEq

inductive TSrc
  | none | ntp | unit

/-- `CALI_SDLOG_DATA_MAX` -/
def dataMax : ℕ := 288

/-- `cali_sdlog_rec_t` as it is queued: a frame, or the body of a text record as the diagnostics
write it. -/
structure Rec where
  up : BitVec 64
  ts : BitVec 64
  tsrc : TSrc
  ev : Ev
  chr : BitVec 16
  data : List Byte
  fits : data.length ≤ if ev = .text then dataMax - 1 else Control.Firmware.frameMax
  printable : ev = .text → ∀ c ∈ data, 0x20 ≤ c.toNat

def Ev.name : Ev → List Byte
  | .notify => chars "notify"
  | .read => chars "read"
  | .connect => chars "connect"
  | .disconnect => chars "disconnect"
  | .snap => chars "snap"
  | .text => []

def fnOf (c : BitVec 16) : Option String :=
  (Session.codecChars.find? (·.2 = c.toNat)).map Prod.fst

/-- The name of a function in quotes. -/
def fnText (c : BitVec 16) : List Byte :=
  (fnOf c).elim (chars "null") fun f => chars "\"" ++ chars f ++ chars "\""

/-- `%02x` -/
def hex (c : Byte) : List Byte := [Json.hexDigit (c.toNat / 16), Json.hexDigit (c.toNat % 16)]

/-- `%04x` -/
def hex16 (c : BitVec 16) : List Byte :=
  hex (BitVec.ofNat 8 (c.toNat / 256)) ++ hex (BitVec.ofNat 8 (c.toNat % 256))

def tsText (r : Rec) : List Byte :=
  match r.tsrc with
  | .none => chars "null"
  | _ => Json.lld r.ts

def srcText (r : Rec) : List Byte :=
  match r.tsrc with
  | .ntp => chars "\"ntp\""
  | .unit => chars "\"unit\""
  | .none => chars "null"

/-- The card never holds the address of the unit. -/
def linkText (ev : Ev) : List Byte :=
  chars "\"ev\":\"" ++ ev.name ++ chars "\",\"addr\":null"

def frameText (r : Rec) : List Byte :=
  chars "\"ev\":\"" ++ r.ev.name ++ chars "\",\"char\":\"" ++ hex16 r.chr ++
    chars "\",\"fn\":" ++ fnText r.chr ++ chars ",\"hex\":\"" ++ r.data.flatMap hex ++ chars "\""

def evText (r : Rec) : List Byte :=
  match r.ev with
  | .text => r.data
  | .connect | .disconnect => linkText r.ev
  | .notify | .read | .snap => frameText r

/-- The fields behind the number. -/
def fields (boot : BitVec 32) (r : Rec) : List Byte :=
  chars "\"boot\":" ++ Json.decimal boot.toNat ++ chars ",\"up\":" ++ Json.decimal r.up.toNat ++
    chars ",\"ts\":" ++ tsText r ++ chars ",\"tsrc\":" ++ srcText r ++ chars "," ++ evText r ++
    chars "\x7d"

def line (seq : ℕ) (boot : BitVec 32) (r : Rec) : List Byte :=
  seqKey ++ Json.decimal seq ++ 0x2C :: fields boot r ++ [newline]

/-- `none` is the -1: a piece of the line that does not fit makes the rest not fit either. -/
def format (cap seq : ℕ) (boot : BitVec 32) (r : Rec) : Option (List Byte) :=
  if (line seq boot r).length < cap then some (line seq boot r) else none

def Clean (s : List Byte) : Prop := ∀ c ∈ s, c ≠ 0 ∧ c ≠ newline

instance (s : List Byte) : Decidable (Clean s) :=
  inferInstanceAs (Decidable (∀ c ∈ s, c ≠ 0 ∧ c ≠ newline))

theorem Clean.append {s t : List Byte} (hs : Clean s) (ht : Clean t) : Clean (s ++ t) := by
  intro c hc
  rcases List.mem_append.mp hc with hc | hc
  · exact hs c hc
  · exact ht c hc

theorem clean_decimal (n : ℕ) : Clean (Json.decimal n) := fun c hc =>
  (digit_facts ((Json.decimal_digits n).2.1 c hc)).2.2.2

theorem clean_lld (v : BitVec 64) : Clean (Json.lld v) := by
  rw [Json.lld]
  split_ifs
  · exact List.forall_mem_cons.mpr ⟨by decide, clean_decimal _⟩
  · exact clean_decimal _

theorem clean_hex (c : Byte) : Clean (hex c) := by
  have hdigit : ∀ k < 16, Json.hexDigit k ≠ 0 ∧ Json.hexDigit k ≠ newline := by decide
  have hlt := c.isLt
  intro d hd
  rcases List.mem_cons.mp hd with rfl | hd
  · exact hdigit _ (by omega)
  · rw [List.mem_singleton.mp hd]
    exact hdigit _ (by omega)

theorem fnText_facts (c : BitVec 16) : Clean (fnText c) ∧ (fnText c).length ≤ 23 := by
  have hall : ∀ p ∈ Session.codecChars, Clean (chars p.1) ∧ (chars p.1).length ≤ 21 := by
    simp [Session.codecChars, Clean, chars, newline]
  have hquote : Clean (chars "\"") ∧ (chars "\"").length = 1 := by simp [Clean, chars, newline]
  rw [fnText, fnOf]
  cases hfind : Session.codecChars.find? (·.2 = c.toNat) with
  | none => exact ⟨by decide, by decide⟩
  | some p =>
    obtain ⟨hclean, hlen⟩ := hall p (List.mem_of_find?_eq_some hfind)
    refine ⟨(hquote.1.append hclean).append hquote.1, ?_⟩
    simp only [Option.map_some, Option.elim_some, List.length_append, hquote.2]
    omega

theorem clean_hexes (s : List Byte) : Clean (s.flatMap hex) := by
  intro c hc
  obtain ⟨d, -, hd⟩ := List.mem_flatMap.mp hc
  exact clean_hex d c hd

theorem clean_data {r : Rec} (hev : r.ev = .text) : Clean r.data := by
  intro c hc
  have hprint := r.printable hev c hc
  constructor <;> (rintro rfl; exact absurd hprint (by decide))

theorem linkText_facts (ev : Ev) : Clean (linkText ev) ∧ (linkText ev).length ≤ 287 := by
  cases ev <;> simp [linkText, Ev.name, Clean, chars, newline]

theorem name_facts (ev : Ev) : Clean ev.name ∧ ev.name.length ≤ 10 := by
  cases ev <;> simp [Ev.name, Clean, chars, newline]

theorem clean_frameText (r : Rec) : Clean (frameText r) := by
  rw [frameText, hex16]
  apply_rules [Clean.append, (fnText_facts r.chr).1, clean_hexes, clean_hex, (name_facts r.ev).1]
  all_goals decide

theorem clean_evText (r : Rec) : Clean (evText r) := by
  rw [evText]
  cases hev : r.ev with
  | text => exact clean_data hev
  | connect | disconnect => exact (linkText_facts _).1
  | notify | read | snap => exact clean_frameText r

theorem clean_fields (boot : BitVec 32) (r : Rec) : Clean (fields boot r) := by
  have hts : Clean (tsText r) := by
    rw [tsText]
    cases r.tsrc with
    | none => exact (by decide : Clean (chars "null"))
    | ntp | unit => exact clean_lld r.ts
  have hsrc : Clean (srcText r) := by
    rw [srcText]
    cases r.tsrc <;> decide
  rw [fields]
  apply_rules [Clean.append, clean_decimal, clean_evText]
  all_goals decide

theorem length_frameText {r : Rec} (hev : r.ev ≠ .text) : (frameText r).length ≤ 287 := by
  have hfits := r.fits
  rw [if_neg hev, Control.Firmware.frameMax] at hfits
  have hfn := (fnText_facts r.chr).2
  have hname := (name_facts r.ev).2
  have hhex : (r.data.flatMap hex).length = r.data.length * 2 := by
    induction r.data with
    | nil => rfl
    | cons c s ih =>
      rw [List.flatMap_cons, List.length_append, ih, List.length_cons,
        show (hex c).length = 2 from rfl]
      omega
  have hfix : (chars "\"ev\":\"").length = 6 ∧ (chars "\",\"char\":\"").length = 10 ∧
      (chars "\",\"fn\":").length = 7 ∧ (chars ",\"hex\":\"").length = 8 ∧
      (chars "\"").length = 1 := by decide
  simp only [frameText, hex16, List.length_append, hhex, hfix, show ∀ c,
    (hex c).length = 2 from fun _ => rfl]
  omega

theorem length_evText (r : Rec) : (evText r).length ≤ 287 := by
  have hfits := r.fits
  rw [evText]
  cases hev : r.ev with
  | text =>
    rw [hev, if_pos rfl, dataMax] at hfits
    exact hfits
  | connect | disconnect => exact (linkText_facts _).2
  | notify | read | snap => exact length_frameText (by rw [hev]; decide)

theorem length_line {seq : ℕ} (hseq : seq ≤ uint32Max) (boot : BitVec 32) (r : Rec) :
    (line seq boot r).length < lineMax := by
  rw [uint32Max] at hseq
  have hs := length_decimal (k := 10) (by decide) (show seq < 10 ^ 10 by omega)
  have hb := length_decimal (k := 10) (by decide) (show boot.toNat < 10 ^ 10 by omega)
  have hu := length_decimal (k := 20) (by decide) (show r.up.toNat < 10 ^ 20 by omega)
  have hev := length_evText r
  have hts : (tsText r).length ≤ 31 := by
    rw [tsText]
    cases r.tsrc with
    | none => exact (by decide : (chars "null").length ≤ 31)
    | ntp | unit => exact Nat.le_of_lt_succ (Json.length_lld r.ts)
  have hsrc : (srcText r).length ≤ 6 := by
    rw [srcText]
    cases r.tsrc <;> decide
  have hfix : seqKey.length = 7 ∧ (chars "\"boot\":").length = 7 ∧ (chars ",\"up\":").length = 6 ∧
      (chars ",\"ts\":").length = 6 ∧ (chars ",\"tsrc\":").length = 8 ∧ (chars ",").length = 1 ∧
      (chars "\x7d").length = 1 := by decide
  simp only [line, fields, lineMax, List.length_append, List.length_cons, List.length_nil, hfix]
  omega

theorem format_eq {seq : ℕ} (hseq : seq ≤ uint32Max) (boot : BitVec 32) (r : Rec) :
    format lineMax seq boot r = some (line seq boot r) :=
  if_pos (length_line hseq boot r)

theorem isLine_line {seq : ℕ} (hseq : seq ≤ uint32Max) (boot : BitVec 32) (r : Rec) :
    IsLine seq (line seq boot r) :=
  ⟨fields boot r, rfl, clean_fields boot r, length_line hseq boot r⟩

end OpenCalifornia.SdLog
