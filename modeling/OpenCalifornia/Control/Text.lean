import OpenCalifornia.Lib.Text

/-! # The control values

The value of a command is a string. What Python's `str` and `int` make of an ASCII string, and
the exceptions of the builders with the data of their texts. -/

namespace OpenCalifornia.Control
open Lib.Text

abbrev Text := List Char

instance : LawfulBEq Text := inferInstance

/-- What a raised exception says, one constructor per `raise`. -/
inductive Complaint
  | notOnOff (value : Text)
  | notAnInt (value : Text)
  | intRange (label : String) (lo hi : ℤ) (value : Text)
  | notHhmm (value : Text)
  | timeRange (value : Text)
  | wakeupNeeds
  | wakeupTimeUnknown
  | wakeupTakes (value : Text)
  | wakeupRamp (word : Text)
  | saveProfile (value : Text)
  | unknownColour (word : Text)
  | brightness (value : Text)
  | profileEight
  | colorRetired
  | unknownControl (what : String)
  | permanentOff
  | coolerUnknown
  | outsideFrame (field : String)
  | noValue (field : String)
  | outOfWidth (field : String) (value : ℤ)
  | notAllowed (field : String) (value : ℤ)
  | unresolved (fields : List String)
  deriving DecidableEq, Repr

inductive Raise
  | valueError (why : Complaint)
  | commandError (why : Complaint)
  | overflowError
  deriving DecidableEq, Repr

abbrev Py := Except Raise

/-- The blanks of `str.strip` and `str.split`. -/
def isSpace (c : Char) : Bool :=
  (9 ≤ c.toNat ∧ c.toNat ≤ 13) ∨ (28 ≤ c.toNat ∧ c.toNat ≤ 32)

/-- `Py_ISSPACE`, the blanks around the digits that `int` skips. -/
def isIntSpace (c : Char) : Bool := (9 ≤ c.toNat ∧ c.toNat ≤ 13) ∨ c.toNat = 32

def lower (s : Text) : Text := s.map Char.toLower

def split (s : Text) : List Text := words isSpace s

/-- `str(value).strip().lower()`. -/
def key (value : Text) : Text := lower (strip isSpace value)

def digit (c : Char) : ℕ := c.toNat - '0'.toNat

/-- `sys.int_info.default_max_str_digits`. -/
def maxStrDigits : ℕ := 4300

/-- Digits with single underscores between them: the number, how many digits, and what follows.
The scan begins as if after an underscore, so that a digit has to come first. -/
def scanDigits (prev : Char) (s : Text) (v n : ℕ) : Option (ℕ × ℕ × Text) :=
  match s with
  | [] => if prev = '_' then none else some (v, n, [])
  | c :: s =>
    if c.isDigit then scanDigits c s (v * 10 + digit c) (n + 1)
    else if prev = '_' then none
    else if c = '_' then scanDigits c s v n
    else some (v, n, c :: s)

/-- The digits of a number and the blanks after them. -/
def intBody (neg : Bool) (s : Text) : Option ℤ :=
  match scanDigits '_' s 0 0 with
  | none => none
  | some (v, n, rest) =>
    if rest.dropWhile isIntSpace = [] ∧ n ≤ maxStrDigits then some (if neg then -(v : ℤ) else v)
    else none

/-- `int(value)`. -/
def int? (value : Text) : Option ℤ :=
  match value.dropWhile isIntSpace with
  | '+' :: s => intBody false s
  | '-' :: s => intBody true s
  | s => intBody false s

def int (value : Text) : Py ℤ :=
  match int? value with
  | some v => .ok v
  | none => .error (.valueError (.notAnInt value))

def intRange (value : Text) (lo hi : ℤ) (label : String) : Py ℤ := do
  let v ← int value
  if lo ≤ v ∧ v ≤ hi then .ok v else .error (.valueError (.intRange label lo hi value))

def hhmm (value : Text) : Py (ℕ × ℕ) :=
  match (strip isSpace value).splitOn ':' with
  | [h, m] => do
    let hh ← int h
    let mm ← int m
    if (0 ≤ hh ∧ hh ≤ 23) ∧ 0 ≤ mm ∧ mm ≤ 59 then .ok (hh.toNat, mm.toNat)
    else .error (.valueError (.timeRange value))
  | _ => .error (.valueError (.notHhmm value))

def onWords : List Text := ["on".toList, "true".toList, "1".toList]

def offWords : List Text := ["off".toList, "false".toList, "0".toList]

def isOnoff (value : Text) : Bool := key value ∈ onWords ++ offWords

def truthy (value : Text) : Py Bool :=
  if key value ∈ onWords then .ok true
  else if key value ∈ offWords then .ok false
  else .error (.commandError (.notOnOff value))

example : int? "-1_0 ".toList = some (-10) ∧ int? "1__0".toList = none := by decide

end OpenCalifornia.Control
