import Mathlib
import OpenCalifornia.Lib.Bits

/-! # JSON texts

A parser of RFC 8259 over bytes. Bytes from 0x80 up stand in strings as they are, and an escape
`\u` stands for the UTF-8 bytes of its character. A number is kept as `m * 10 ^ e`. -/

namespace OpenCalifornia.Lib.Json
open Bits

inductive Value
  | null
  | bool (b : Bool)
  | num (m e : ℤ)
  | str (s : List Byte)
  | arr (vs : List Value)
  | obj (ms : List (List Byte × Value))

def isWs (c : Byte) : Bool := c = 0x20 ∨ c = 0x09 ∨ c = 0x0A ∨ c = 0x0D

def skipWs (s : List Byte) : List Byte := s.dropWhile isWs

def isDigit (c : Byte) : Bool := 0x30 ≤ c.toNat ∧ c.toNat ≤ 0x39

def ofDigits (ds : List Byte) : ℕ := ds.foldl (fun v c => v * 10 + (c.toNat - 0x30)) 0

/-- One digit or more. -/
def digits (s : List Byte) : Option (List Byte × List Byte) :=
  if s.takeWhile isDigit = [] then none else some (s.takeWhile isDigit, s.dropWhile isDigit)

/-- No leading zero. -/
def int (s : List Byte) : Option (List Byte × List Byte) :=
  (digits s).filter fun r => r.1.head? ≠ some 0x30 ∨ r.1.length = 1

def frac (s : List Byte) : Option (List Byte × List Byte) :=
  match s with
  | c :: t => if c = 0x2E then digits t else some ([], s)
  | [] => some ([], s)

def exponent (s : List Byte) : Option (ℤ × List Byte) :=
  match s with
  | c :: t =>
    if c = 0x65 ∨ c = 0x45 then
      match t with
      | d :: u =>
        if d = 0x2D then (digits u).map fun r => (-(ofDigits r.1 : ℤ), r.2)
        else (digits (if d = 0x2B then u else t)).map fun r => ((ofDigits r.1 : ℤ), r.2)
      | [] => none
    else some (0, s)
  | [] => some (0, s)

/-- A number without its sign. -/
def unsigned (s : List Byte) : Option ((ℤ × ℤ) × List Byte) :=
  (int s).bind fun i => (frac i.2).bind fun f => (exponent f.2).map fun e =>
    ((((ofDigits (i.1 ++ f.1) : ℕ) : ℤ), e.1 - f.1.length), e.2)

def number (s : List Byte) : Option (Value × List Byte) :=
  match s with
  | c :: t =>
    if c = 0x2D then (unsigned t).map fun r => (.num (-r.1.1) r.1.2, r.2)
    else (unsigned s).map fun r => (.num r.1.1 r.1.2, r.2)
  | [] => none

def hexVal (c : Byte) : Option ℕ :=
  if isDigit c then some (c.toNat - 0x30)
  else if 0x41 ≤ c.toNat ∧ c.toNat ≤ 0x46 then some (c.toNat - 0x41 + 10)
  else if 0x61 ≤ c.toNat ∧ c.toNat ≤ 0x66 then some (c.toNat - 0x61 + 10)
  else none

def hex4 : List Byte → Option (ℕ × List Byte)
  | a :: b :: c :: d :: s =>
    (hexVal a).bind fun a => (hexVal b).bind fun b => (hexVal c).bind fun c =>
      (hexVal d).map fun d => (((a * 16 + b) * 16 + c) * 16 + d, s)
  | _ => none

def utf8 (n : ℕ) : List Byte :=
  if n < 0x80 then [BitVec.ofNat 8 n]
  else if n < 0x800 then [BitVec.ofNat 8 (0xC0 + n / 64), BitVec.ofNat 8 (0x80 + n % 64)]
  else if n < 0x10000 then
    [BitVec.ofNat 8 (0xE0 + n / 4096), BitVec.ofNat 8 (0x80 + n / 64 % 64),
      BitVec.ofNat 8 (0x80 + n % 64)]
  else
    [BitVec.ofNat 8 (0xF0 + n / 262144), BitVec.ofNat 8 (0x80 + n / 4096 % 64),
      BitVec.ofNat 8 (0x80 + n / 64 % 64), BitVec.ofNat 8 (0x80 + n % 64)]

/-- What follows `\u`: one unit, or the two halves of a pair. -/
def unicode (s : List Byte) : Option (List Byte × List Byte) :=
  (hex4 s).bind fun u =>
    if u.1 < 0xD800 ∨ 0xDFFF < u.1 then some (utf8 u.1, u.2)
    else
      match u.2 with
      | a :: b :: t =>
        if u.1 ≤ 0xDBFF ∧ a = 0x5C ∧ b = 0x75 then
          (hex4 t).bind fun l =>
            if 0xDC00 ≤ l.1 ∧ l.1 ≤ 0xDFFF then
              some (utf8 (0x10000 + (u.1 - 0xD800) * 0x400 + (l.1 - 0xDC00)), l.2)
            else none
        else none
      | _ => none

/-- What follows a backslash. -/
def escape : List Byte → Option (List Byte × List Byte)
  | [] => none
  | c :: s =>
    if c = 0x22 ∨ c = 0x5C ∨ c = 0x2F then some ([c], s)
    else if c = 0x62 then some ([0x08], s)
    else if c = 0x66 then some ([0x0C], s)
    else if c = 0x6E then some ([0x0A], s)
    else if c = 0x72 then some ([0x0D], s)
    else if c = 0x74 then some ([0x09], s)
    else if c = 0x75 then unicode s
    else none

/-- A string after its opening quote. -/
def chars : ℕ → List Byte → Option (List Byte × List Byte)
  | n + 1, c :: s =>
    if c = 0x22 then some ([], s)
    else if c = 0x5C then
      (escape s).bind fun e => (chars n e.2).map fun r => (e.1 ++ r.1, r.2)
    else if c.toNat < 0x20 then none
    else (chars n s).map fun r => (c :: r.1, r.2)
  | _, _ => none

def string (s : List Byte) : Option (List Byte × List Byte) :=
  match s with
  | c :: t => if c = 0x22 then chars t.length t else none
  | [] => none

def literal (name : List Byte) (v : Value) (s : List Byte) : Option (Value × List Byte) :=
  if name.isPrefixOf s then some (v, s.drop name.length) else none

def trueText : List Byte := [0x74, 0x72, 0x75, 0x65]
def falseText : List Byte := [0x66, 0x61, 0x6C, 0x73, 0x65]
def nullText : List Byte := [0x6E, 0x75, 0x6C, 0x6C]

/-- The token `c` after white space. -/
def token (c : Byte) (s : List Byte) : Option (List Byte) :=
  match skipWs s with
  | d :: t => if d = c then some t else none
  | [] => none

mutual

def value : ℕ → List Byte → Option (Value × List Byte)
  | 0, _ => none
  | n + 1, s =>
    match skipWs s with
    | [] => none
    | c :: t =>
      if c = 0x7B then
        match token 0x7D t with
        | some u => some (.obj [], u)
        | none => (members n t).map fun r => (.obj r.1, r.2)
      else if c = 0x5B then
        match token 0x5D t with
        | some u => some (.arr [], u)
        | none => (elements n t).map fun r => (.arr r.1, r.2)
      else if c = 0x22 then (string (c :: t)).map fun r => (.str r.1, r.2)
      else if c = 0x74 then literal trueText (.bool true) (c :: t)
      else if c = 0x66 then literal falseText (.bool false) (c :: t)
      else if c = 0x6E then literal nullText .null (c :: t)
      else number (c :: t)

def elements : ℕ → List Byte → Option (List Value × List Byte)
  | 0, _ => none
  | n + 1, s =>
    (value n s).bind fun v =>
      match token 0x2C v.2 with
      | some t => (elements n t).map fun r => (v.1 :: r.1, r.2)
      | none => (token 0x5D v.2).map fun t => ([v.1], t)

def members : ℕ → List Byte → Option (List (List Byte × Value) × List Byte)
  | 0, _ => none
  | n + 1, s =>
    (string (skipWs s)).bind fun k => (token 0x3A k.2).bind fun t => (value n t).bind fun v =>
      match token 0x2C v.2 with
      | some t => (members n t).map fun r => ((k.1, v.1) :: r.1, r.2)
      | none => (token 0x7D v.2).map fun t => ([(k.1, v.1)], t)

end

/-- A JSON text: one value, between white space. -/
def parse (s : List Byte) : Option Value :=
  (value (2 * s.length + 1) s).bind fun r => if skipWs r.2 = [] then some r.1 else none

variable {c d : Byte} {s rest : List Byte} {n : ℕ}

theorem skipWs_cons (hc : isWs c = false) : skipWs (c :: s) = c :: s :=
  List.dropWhile_cons_of_neg (by rw [hc]; exact Bool.false_ne_true)

theorem token_here (hc : isWs c = false) : token c (c :: s) = some s := by
  rw [token, skipWs_cons hc]
  exact if_pos rfl

theorem token_other (hd : isWs d = false) (h : d ≠ c) : token c (d :: s) = none := by
  rw [token, skipWs_cons hd]
  exact if_neg h

/-- The next byte, if there is one, ends a value inside a container. -/
def Stops (s : List Byte) : Prop := ∀ c, s.head? = some c → c = 0x2C ∨ c = 0x5D ∨ c = 0x7D

theorem stops_cons (h : c = 0x2C ∨ c = 0x5D ∨ c = 0x7D) : Stops (c :: s) := by
  intro d hd
  exact Option.some.inj hd ▸ h

theorem digits_append {ds : List Byte} (hne : ds ≠ []) (hds : ∀ c ∈ ds, isDigit c = true)
    (hrest : Stops rest) : digits (ds ++ rest) = some (ds, rest) := by
  have hno : rest.takeWhile isDigit = [] ∧ rest.dropWhile isDigit = rest := by
    cases rest with
    | nil => exact ⟨rfl, rfl⟩
    | cons c rest =>
      have hc : isDigit c = false := by
        obtain rfl | rfl | rfl := hrest c rfl <;> rfl
      exact ⟨List.takeWhile_cons_of_neg (by simp [hc]), List.dropWhile_cons_of_neg (by simp [hc])⟩
  have htake : (ds ++ rest).takeWhile isDigit = ds := by
    rw [List.takeWhile_append_of_pos hds, hno.1, List.append_nil]
  have hdrop : (ds ++ rest).dropWhile isDigit = rest := by
    rw [List.dropWhile_append_of_pos hds, hno.2]
  rw [digits, htake, hdrop, if_neg hne]

theorem unsigned_append {ds : List Byte} (hne : ds ≠ []) (hds : ∀ c ∈ ds, isDigit c = true)
    (hzero : ds.head? ≠ some 0x30 ∨ ds.length = 1) (hrest : Stops rest) :
    unsigned (ds ++ rest) = some ((((ofDigits ds : ℕ) : ℤ), 0), rest) := by
  have hint : int (ds ++ rest) = some (ds, rest) := by
    rw [int, digits_append hne hds hrest]
    exact Option.filter_some_pos (decide_eq_true hzero)
  have hfrac : frac rest = some ([], rest) := by
    cases rest with
    | nil => rfl
    | cons c rest =>
      have hc : c ≠ 0x2E := by
        obtain rfl | rfl | rfl := hrest c rfl <;> decide
      exact if_neg hc
  have hexp : exponent rest = some (0, rest) := by
    cases rest with
    | nil => rfl
    | cons c rest =>
      have hc : ¬ (c = 0x65 ∨ c = 0x45) := by
        obtain rfl | rfl | rfl := hrest c rfl <;> decide
      exact if_neg hc
  simp [unsigned, hint, hfrac, hexp]

theorem chars_plain (h₁ : c ≠ 0x22) (h₂ : c ≠ 0x5C) (h₃ : ¬ c.toNat < 0x20) :
    chars (n + 1) (c :: s) = (chars n s).map fun r => (c :: r.1, r.2) := by
  rw [chars, if_neg h₁, if_neg h₂, if_neg h₃]

theorem chars_escape {b : List Byte} (h : escape s = some (b, rest)) :
    chars (n + 1) (0x5C :: s) = (chars n rest).map fun r => (b ++ r.1, r.2) := by
  rw [chars, if_neg (by decide), if_pos rfl, h]
  rfl

end OpenCalifornia.Lib.Json
