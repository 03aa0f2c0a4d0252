import OpenCalifornia.Lib.Nested
import OpenCalifornia.Web.Settings

/-! # The usage beacon

`api_ux` of `web.c`. The body is parsed twice: first to check it, then to write one record of the SD
log for each event. A record is a document of the JSON writer without its braces, and the message of
an error is cut until it fits. -/

namespace OpenCalifornia.Web
open Lib.Bits Lib.Json Lib.Flat
open Lib.Buffer (chars)
open Lib.Nested (leftBracket rightBracket)

def parseEnum (set : List (List Byte)) (s : List Byte) : Option (ℕ × List Byte) :=
  (parseStr 16 s).bind fun r =>
    if r.1.len ≥ 16 then none else (indexOf r.1.buf set).map fun i => (i, r.2)

/-- A byte of an id. -/
def isId (c : Byte) : Bool :=
  (0x61 ≤ c.toNat && c.toNat ≤ 0x7A) || isDigit c || c = 0x5F || c = 0x2E || c = 0x2D

/-- Printable ASCII. -/
def isPrint (c : Byte) : Bool := 0x20 ≤ c.toNat && c.toNat ≤ 0x7E

/-- `ux_chars` returns 0. -/
def uxChars (k : Cut) (max : ℕ) (allowed : Byte → Bool) : Prop :=
  1 ≤ k.len ∧ k.len ≤ max ∧ k.buf.all allowed

instance (k : Cut) (max : ℕ) (allowed : Byte → Bool) : Decidable (uxChars k max allowed) := by
  unfold uxChars
  infer_instance

/-- `parse_str`, and `ux_chars` on what it read. -/
def parseUxText (max : ℕ) (allowed : Byte → Bool) (s : List Byte) :
    Option (List Byte × List Byte) :=
  (parseStr (max + 1) s).bind fun r =>
    if uxChars r.1 max allowed then some (r.1.buf, r.2) else none

def uxIntMax : ℕ := 600000

def uxIntStep (v : ℕ) (c : Byte) : Option ℕ :=
  if v * 10 + (c.toNat - 0x30) > uxIntMax then none else some (v * 10 + (c.toNat - 0x30))

/-- A byte that goes on with a fraction or an exponent. -/
def isReal (c : Byte) : Bool := c = 0x2E || c = 0x65 || c = 0x45

def parseUxInt (s : List Byte) : Option (ℕ × List Byte) :=
  let s := skipWs s
  let ds := s.takeWhile isDigit
  if ds = [] ∨ padded ds then none
  else (ds.foldlM uxIntStep 0).bind fun v =>
    if (s.dropWhile isDigit).head?.any isReal then none else some (v, s.dropWhile isDigit)

def uxMsgMax : ℕ := 200
def uxValueMax : ℕ := 32

def uxKeys : Keys where
  names := [chars "screen", chars "fn", chars "control", chars "ttfb", chars "dcl", chars "tiles",
    chars "msg", chars "type", chars "value"]

def uxTypes : List (List Byte) := [chars "view", chars "control", chars "timing", chars "error"]

/-- `UX_NEEDS`: screen, fn and control, ttfb, dcl and tiles, msg. -/
def uxNeeds : List ℕ := [1, 2 ||| 4, 8 ||| 16 ||| 32, 64]

def uxUa : List (List Byte) := [chars "ios", chars "android", chars "mac", chars "other"]

def uxOrigin : List (List Byte) := [chars "lan", chars "busnet", chars "buspi"]

/-- `ux_ev_t`; `type` is -1 without the key. -/
structure UxEv where
  id : ℕ → List Byte := fun _ => []
  num : ℕ → ℕ := fun _ => 0
  msg : List Byte := []
  value : List Byte := []
  type : Option ℕ := none

/-- `ux_event_field` -/
def uxEventField (k : ℕ) (e : UxEv) (s : List Byte) : Option (UxEv × List Byte) :=
  if k ≤ 2 then
    (parseUxText 32 isId s).map fun r => ({ e with id := Function.update e.id k r.1 }, r.2)
  else if k ≤ 5 then
    (parseUxInt s).map fun r => ({ e with num := Function.update e.num (k - 3) r.1 }, r.2)
  else if k = 6 then (parseUxText uxMsgMax isPrint s).map fun r => ({ e with msg := r.1 }, r.2)
  else if k = 7 then (parseEnum uxTypes s).map fun r => ({ e with type := some r.1 }, r.2)
  else (parseUxText uxValueMax isPrint s).map fun r => ({ e with value := r.1 }, r.2)

/-- `ux_hdr_t` -/
structure UxHdr where
  sid : List Byte := []
  ua : ℕ := 0
  standalone : Bool := false
  origin : ℕ := 0

/-- The keys of an event are those of its type; a value is only a control's. -/
def uxShape (seen type : ℕ) : Prop :=
  ¬ (seen.testBit 8 ∧ type ≠ 1) ∧ seen &&& 255 = 128 ||| uxNeeds.getD type 0

instance (seen type : ℕ) : Decidable (uxShape seen type) := by
  unfold uxShape
  infer_instance

def sdlogDataMax : ℕ := 288

/-- The C string in a buffer. -/
def cString (s : List Byte) : OpenCalifornia.Json.Text :=
  ⟨s.takeWhile (· ≠ 0), fun h => by simpa using List.mem_takeWhile_imp h⟩

def strTree (s : List Byte) : OpenCalifornia.Json.Tree := .str (cString s)

/-- `UX_KEYS[k]` of an event, with the message cut. -/
def uxMember (e : UxEv) (cut k : ℕ) : OpenCalifornia.Json.Tree :=
  if k ≤ 2 then strTree (e.id k)
  else if k ≤ 5 then intTree (e.num (k - 3))
  else strTree (e.msg.take cut)

/-- The members of a record. -/
def uxMembers (h : UxHdr) (seen type : ℕ) (e : UxEv) (cut : ℕ) :
    List (OpenCalifornia.Json.Text × OpenCalifornia.Json.Tree) :=
  [(name "ev", strTree (chars "ux")), (name "sid", strTree h.sid),
    (name "ua_class", strTree (uxUa.getD h.ua [])), (name "standalone", .bool h.standalone),
    (name "origin", strTree (uxOrigin.getD h.origin [])),
    (name "type", strTree (uxTypes.getD type []))] ++
    ((List.range 7).filter seen.testBit).map
      (fun k => (cString (uxKeys.names.getD k []), uxMember e cut k)) ++
    if seen.testBit 8 then [(name "value", strTree e.value)] else []

/-- `(size_t)n - 2 < CALI_SDLOG_DATA_MAX`, with a `size_t` of 32 bits. -/
def fitsLog (n : ℤ) : Prop := (n - 2) % 2 ^ 32 < sdlogDataMax

instance (n : ℤ) : Decidable (fitsLog n) := inferInstanceAs (Decidable (_ < _))

/-- The loop that cuts the message, and what it hands to `cali_sdlog_text`. -/
def uxRecord (h : UxHdr) (seen type : ℕ) (e : UxEv) (cut : ℕ) : Option (List Byte) :=
  let r := OpenCalifornia.Json.document (fun _ => 0) (sdlogDataMax + 1)
      (uxMembers h seen type e cut)
  if (0 < r.2 ∧ fitsLog r.2) ∨ cut = 0 then
    if 2 < r.2 ∧ fitsLog r.2 then some ((r.1.text.take (r.2.toNat - 1)).tail) else none
  else uxRecord h seen type e (if cut > 8 then cut - 8 else 0)
termination_by cut
decreasing_by split_ifs <;> omega

/-- `ux_event`; `log` holds the records, the newest last. -/
def uxEvent (h : UxHdr) (emit : Bool) (log : List (List Byte)) (s : List Byte) :
    Option (List (List Byte) × List Byte) :=
  (parseObj uxKeys.names uxEventField {} s).bind fun r =>
    r.2.1.type.bind fun type =>
      if uxShape r.1 type then
        some (if emit then log ++ (uxRecord h r.1 type r.2.1 r.2.1.msg.length).toList
          else log, r.2.2)
      else none

/-- The events that are left until `UX_EVENTS_MAX`. -/
def uxEvents (h : UxHdr) (emit : Bool) : ℕ → List (List Byte) → List Byte →
    Option (List (List Byte) × List Byte)
  | 0, _, _ => none
  | n + 1, log, s => (uxEvent h emit log s).bind fun r =>
    match expect comma r.2 with
    | some s => uxEvents h emit n r.1 s
    | none => (expect rightBracket r.2).map fun s => (r.1, s)

def uxEventsMax : ℕ := 16

def isHex (c : Byte) : Bool := isDigit c || (0x61 ≤ c.toNat && c.toNat ≤ 0x66)

/-- The header and the log. -/
abbrev UxPass := UxHdr × List (List Byte)

/-- `ux_field` -/
def uxField (emit : Bool) (k : ℕ) (x : UxPass) (s : List Byte) : Option (UxPass × List Byte) :=
  if k = 0 then
    (parseStr 33 s).bind fun r =>
      if r.1.len < 8 ∨ r.1.len > 32 then none
      else if r.1.buf.all isHex then some (({ x.1 with sid := r.1.buf }, x.2), r.2)
      else none
  else if k = 1 then (parseEnum uxUa s).map fun r => (({ x.1 with ua := r.1 }, x.2), r.2)
  else if k = 2 then (parseBool s).map fun r => (({ x.1 with standalone := r.1 }, x.2), r.2)
  else if k = 3 then (parseEnum uxOrigin s).map fun r => (({ x.1 with origin := r.1 }, x.2), r.2)
  else (expect leftBracket s).bind fun s =>
    (uxEvents x.1 emit uxEventsMax x.2 s).map fun r => ((x.1, r.1), r.2)

def uxBodyKeys : Keys where
  names := [chars "sid", chars "ua_class", chars "standalone", chars "origin", chars "events"]

/-- `ux_parse` -/
def uxParse (emit : Bool) (body : List Byte) (x : UxPass) : Option UxPass :=
  (parseBody uxBodyKeys.names (uxField emit) body x).bind fun r =>
    if r.1 = 31 then some r.2 else none

def uxBodyMax : ℕ := 2048

/-- `api_ux`: the answer, and the calls of `cali_sdlog_text`. What the second pass returns is not
looked at. -/
def apiUx (mode : WifiMode) (uxOn : Bool) (body : List Byte) : ℕ × List (List Byte) :=
  if mode ≠ .station then (403, [])
  else if body.length > uxBodyMax then (413, [])
  else if ¬ uxOn then (204, [])
  else
    match uxParse false body ({}, []) with
    | none => (400, [])
    | some x =>
      match uxParse true body x with
      | none => (204, [])
      | some y => (204, y.2)

end OpenCalifornia.Web
