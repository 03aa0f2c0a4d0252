import OpenCalifornia.Lib.Buffer
import OpenCalifornia.Web.Body

/-! # The values of a POST body

Each kind of member has a parser of its own. What a scalar of JSON is read as by it is the kind's
own table, and the parser finds just the scalars that the table knows. -/

namespace OpenCalifornia.Web
open Lib.Bits Lib.Json Lib.Flat

def parseBool (s : List Byte) : Option (Bool × List Byte) :=
  let s := skipWs s
  if trueText.isPrefixOf s then some (true, s.drop 4)
  else if falseText.isPrefixOf s then some (false, s.drop 5)
  else none

/-- `*p0 == '0' && c->p - p0 > 1` -/
def padded (ds : List Byte) : Prop := ds.head? = some 0x30 ∧ 1 < ds.length

instance (ds : List Byte) : Decidable (padded ds) := inferInstanceAs (Decidable (_ ∧ _))

def uintStep (v : ℕ) (c : Byte) : Option ℕ :=
  if v * 10 + (c.toNat - 0x30) > 65535 then none else some (v * 10 + (c.toNat - 0x30))

def parseUint (s : List Byte) : Option (ℕ × List Byte) :=
  let s := skipWs s
  let ds := s.takeWhile isDigit
  (ds.foldlM uintStep 0).bind fun v =>
    if ds = [] ∨ padded ds then none else some (v, s.dropWhile isDigit)

/-- The sign that may stand before the digits. -/
def signed (s : List Byte) : Bool × List Byte :=
  if s.head? = some minus then (true, s.tail) else (false, s)

/-- The copy of the digits ends with an error when it reaches `cap`. -/
def parseValue (cap : ℕ) (s : List Byte) : Option (List Byte × List Byte) :=
  let s := skipWs s
  if s.head? = some quote then
    (parseStr cap s).bind fun r => if r.1.len < cap then some (r.1.buf, r.2) else none
  else if nullText.isPrefixOf s then some ([], s.drop 4)
  else
    let neg := (signed s).1
    let s := (signed s).2
    let ds := s.takeWhile isDigit
    if ds = [] ∨ padded ds ∨ (sign neg ++ ds).length ≥ cap then none
    else some (sign neg ++ ds, s.dropWhile isDigit)

def localNowMin : ℕ := 1767225600

def llongMax : ℕ := 2 ^ 63 - 1

def nowStep (v : ℕ) (c : Byte) : ℕ :=
  let d := c.toNat - 0x30
  if v > (llongMax - d) / 10 then llongMax else v * 10 + d

/-- One digit or more. -/
def skipDigits (s : List Byte) : Option (List Byte) :=
  if s.takeWhile isDigit = [] then none else some (s.dropWhile isDigit)

/-- A point and digits, or what there is; with whether there is none. -/
def skipFrac (s : List Byte) : Option (Bool × List Byte) :=
  if s.head? = some 0x2E then (skipDigits s.tail).map fun r => (false, r) else some (true, s)

def skipSign (s : List Byte) : List Byte :=
  if s.head? = some 0x2B ∨ s.head? = some minus then s.tail else s

def skipExp (s : List Byte) : Option (Bool × List Byte) :=
  if s.head? = some 0x65 ∨ s.head? = some 0x45 then
    (skipDigits (skipSign s.tail)).map fun r => (false, r)
  else some (true, s)

/-- `local_now` and `local_now_bad` of a member that is not null. Only a number sets the first. -/
structure Clock where
  now : Option ℕ
  bad : Bool
  deriving DecidableEq

def parseLocalNow (s : List Byte) : Option (Option Clock × List Byte) :=
  let s := skipWs s
  if nullText.isPrefixOf s then some (none, s.drop 4)
  else if s.head? = some quote then (parseStr 2 s).map fun r => (some ⟨none, true⟩, r.2)
  else
    match parseBool s with
    | some r => some (some ⟨none, true⟩, r.2)
    | none =>
      let neg := (signed s).1
      let s := (signed s).2
      let ds := s.takeWhile isDigit
      if ds = [] ∨ padded ds then none
      else
        (skipFrac (s.dropWhile isDigit)).bind fun f => (skipExp f.2).map fun e =>
          let v := ds.foldl nowStep 0
          (some ⟨some v, !(f.1 && e.1) || neg || decide (v < localNowMin)⟩, e.2)

def i64Step (v : ℤ) (c : Byte) : ℤ :=
  if v < 2 ^ 62 / 10 then v * 10 + (c.toNat - 0x30 : ℕ) else 2 ^ 62

def parseI64 (s : List Byte) : Option (ℤ × List Byte) :=
  let s := skipWs s
  let neg := (signed s).1
  let s := (signed s).2
  let ds := s.takeWhile isDigit
  let v := ds.foldl i64Step 0
  if ds = [] ∨ padded ds then none else some (if neg then -v else v, s.dropWhile isDigit)

/-- `CALI_THERMO_ALIAS_LEN` -/
def aliasLen : ℕ := 17

/-- What names no sensor. -/
def noAlias : List Byte := [0x21]

def parseAlias (s : List Byte) : Option (List Byte × List Byte) :=
  let s := skipWs s
  if nullText.isPrefixOf s then some ([], s.drop 4)
  else (parseStr aliasLen s).map fun r =>
    (if r.1.len = 0 ∨ r.1.len ≥ aliasLen then noAlias else r.1.buf, r.2)

/-- Three digits at most. -/
def parsePct (withSign : Bool) (s : List Byte) : Option (ℤ × List Byte) :=
  let s := skipWs s
  let neg := withSign && (signed s).1
  let s := if withSign then (signed s).2 else s
  let ds := (s.take 3).takeWhile isDigit
  let v : ℤ := if ofDigits ds > 127 then 127 else ofDigits ds
  if ds = [] then none else some (if neg then -v else v, s.drop ds.length)

/-- The member `value` of `pairing_field`: a string is kept, anything else only checked. -/
def parsePairValue (s : List Byte) : Option (Option Cut × List Byte) :=
  let s := skipWs s
  if s.head? = some quote then (parseStr 8 s).map fun r => (some r.1, r.2)
  else (parseValue 64 s).map fun r => (none, r.2)

inductive Kind
  /-- A string that is refused at `cap` bytes and more. -/
  | strict (cap : ℕ)
  /-- A string that is kept with its length, for the handler to refuse. -/
  | long (cap : ℕ)
  | bool
  | uint
  | int
  | value (cap : ℕ)
  | localNow
  | aliasText
  | pct (withSign : Bool)
  | pairValue

/-- What a member of the kind is read as. -/
def Kind.Val : Kind → Type
  | .strict _ => List Byte
  | .long _ => Cut
  | .bool => Bool
  | .uint => ℕ
  | .int => ℤ
  | .value _ => List Byte
  | .localNow => Option Clock
  | .aliasText => List Byte
  | .pct _ => ℤ
  | .pairValue => Option Cut

def Kind.parse : (k : Kind) → List Byte → Option (k.Val × List Byte)
  | .strict cap => fun s =>
    (parseStr cap s).bind fun r => if r.1.len ≥ cap then none else some (r.1.buf, r.2)
  | .long cap => parseStr cap
  | .bool => parseBool
  | .uint => parseUint
  | .int => parseI64
  | .value cap => parseValue cap
  | .localNow => parseLocalNow
  | .aliasText => parseAlias
  | .pct withSign => parsePct withSign
  | .pairValue => parsePairValue

/-- The integer with this sign and these digits. -/
def trueInt (neg : Bool) (ds : List Byte) : ℤ := if neg then -(ofDigits ds : ℤ) else ofDigits ds

/-- The first integer that `parse_i64` does not keep. -/
def i64Past : ℕ := 4611686018427387900

def readsStr (cap : ℕ) : Scalar → Option (List Byte)
  | .str t => if t.length < cap then some t else none
  | _ => none

def readsCut (cap : ℕ) : Scalar → Option Cut
  | .str t => some ⟨t.take (cap - 1), t.length⟩
  | _ => none

def readsBool : Scalar → Option Bool
  | .bool b => some b
  | _ => none

def readsUint : Scalar → Option ℕ
  | .int false ds => if padded ds ∨ 65535 < ofDigits ds then none else some (ofDigits ds)
  | _ => none

def readsI64 : Scalar → Option ℤ
  | .int neg ds =>
    if padded ds then none
    else if ofDigits ds < i64Past then some (trueInt neg ds)
    else some (if neg then -2 ^ 62 else 2 ^ 62)
  | _ => none

def readsValue (cap : ℕ) : Scalar → Option (List Byte)
  | .str t => if t.length < cap then some t else none
  | .null => some []
  | .int neg ds =>
    if padded ds ∨ (sign neg ++ ds).length ≥ cap then none else some (sign neg ++ ds)
  | _ => none

def readsLocalNow : Scalar → Option (Option Clock)
  | .null => some none
  | .int neg ds =>
    if padded ds then none
    else some (some ⟨some (min (ofDigits ds) llongMax), neg || decide (ofDigits ds < localNowMin)⟩)
  | .real _ ds =>
    if padded ds then none else some (some ⟨some (min (ofDigits ds) llongMax), true⟩)
  | _ => some (some ⟨none, true⟩)

def readsAlias : Scalar → Option (List Byte)
  | .null => some []
  | .str t => some (if t = [] ∨ t.length ≥ aliasLen then noAlias else t)
  | _ => none

def readsPct (withSign : Bool) : Scalar → Option ℤ
  | .int neg ds =>
    if ds.length ≤ 3 ∧ (neg → withSign) then some (max (-127) (min 127 (trueInt neg ds))) else none
  | _ => none

def readsPairValue : Scalar → Option (Option Cut)
  | .str t => some (some ⟨t.take 7, t.length⟩)
  | v => (readsValue 64 v).map fun _ => none

/-- What each kind makes of a scalar; nothing where the scalar is not of the kind. -/
def Kind.reads : (k : Kind) → Scalar → Option k.Val
  | .strict cap => readsStr cap
  | .long cap => readsCut cap
  | .bool => readsBool
  | .uint => readsUint
  | .int => readsI64
  | .value cap => readsValue cap
  | .localNow => readsLocalNow
  | .aliasText => readsAlias
  | .pct withSign => readsPct withSign
  | .pairValue => readsPairValue

variable {s u r ds : List Byte} {neg : Bool} {c : Byte} {n : ℕ}

/-- The next byte, if there is one, is no digit. -/
def NoDigit (s : List Byte) : Prop := ∀ c, s.head? = some c → isDigit c = false

theorem ends_noDigit (h : Ends r) : NoDigit r := by
  obtain ⟨c, u, rfl, hc⟩ := h
  have hws : ∀ c, isWs c = true → isDigit c = false := by decide
  intro d hd
  obtain rfl := Option.some.inj hd
  obtain hc | rfl | rfl := hc
  · exact hws c hc
  · rfl
  · rfl

theorem noDigit_dropWhile (s : List Byte) : NoDigit (s.dropWhile isDigit) := by
  intro c hc
  have := List.head?_dropWhile_not isDigit s
  rw [hc] at this
  simpa using this

theorem takeWhile_digits (h : Digits ds) (hr : NoDigit r) :
    (ds ++ r).takeWhile isDigit = ds ∧ (ds ++ r).dropWhile isDigit = r := by
  have hno : r.takeWhile isDigit = [] ∧ r.dropWhile isDigit = r := by
    cases r with
    | nil => exact ⟨rfl, rfl⟩
    | cons c r =>
      have hc := hr c rfl
      exact ⟨List.takeWhile_cons_of_neg (by simp [hc]), List.dropWhile_cons_of_neg (by simp [hc])⟩
  rw [List.takeWhile_append_of_pos h.2, List.dropWhile_append_of_pos h.2, hno.1, hno.2,
    List.append_nil]
  exact ⟨rfl, rfl⟩

theorem digits_takeWhile (h : s.takeWhile isDigit ≠ []) : Digits (s.takeWhile isDigit) :=
  ⟨h, fun _ hc => List.mem_takeWhile_imp hc⟩

theorem digits_head (h : Digits ds) : ∃ c t, ds = c :: t ∧ isDigit c = true := by
  cases ds with
  | nil => exact absurd rfl h.1
  | cons c t => exact ⟨c, t, rfl, h.2 c (List.mem_cons_self ..)⟩

theorem signed_eq (s : List Byte) : s = sign (signed s).1 ++ (signed s).2 := by
  unfold signed
  split_ifs with h
  · cases s with
    | nil => simp at h
    | cons c s =>
      obtain rfl := Option.some.inj h
      rfl
  · rfl

theorem signed_digits (h : Digits ds) : signed (sign neg ++ (ds ++ r)) = (neg, ds ++ r) := by
  cases neg with
  | true => rfl
  | false =>
    obtain ⟨c, t, rfl, hc⟩ := digits_head h
    have hne : c ≠ minus := by
      rintro rfl
      exact absurd hc (by decide)
    exact if_neg fun h => hne (Option.some.inj h)

theorem token_signed (h : (signed s).2.takeWhile isDigit ≠ []) :
    Token s (.int (signed s).1 ((signed s).2.takeWhile isDigit))
      ((signed s).2.dropWhile isDigit) := by
  have heq : s = sign (signed s).1 ++
      ((signed s).2.takeWhile isDigit ++ (signed s).2.dropWhile isDigit) := by
    rw [List.takeWhile_append_dropWhile]
    exact signed_eq s
  have htok := @Token.int (signed s).1 _ ((signed s).2.dropWhile isDigit)
    (digits_takeWhile h)
  rwa [← heq] at htok

/-- The parser finds the scalars that `reads` knows, behind white space and up to their ends. -/
structure Scans {α : Type} (parse : List Byte → Option (α × List Byte))
    (reads : Scalar → Option α) : Prop where
  sound : ∀ {s v r}, parse s = some (v, r) → ∃ u sc, Ws s u ∧ Token u sc r ∧ reads sc = some v
  complete : ∀ {s u sc v r}, Ws s u → Token u sc r → Ends r → reads sc = some v →
    parse s = some (v, r)

theorem skipWs_skipWs (s : List Byte) : skipWs (skipWs s) = skipWs s := (ws_skipWs s).skipWs_eq.symm

theorem Scans.of {α : Type} {parse : List Byte → Option (α × List Byte)}
    {reads : Scalar → Option α} (hskip : ∀ s, parse (skipWs s) = parse s)
    (sound : ∀ {u v r}, skipWs u = u → parse u = some (v, r) →
      ∃ sc, Token u sc r ∧ reads sc = some v)
    (complete : ∀ {u sc v r}, skipWs u = u → Token u sc r → Ends r → reads sc = some v →
      parse u = some (v, r)) : Scans parse reads where
  sound := by
    intro s v r h
    rw [← hskip] at h
    obtain ⟨sc, ht, hr⟩ := sound (skipWs_skipWs s) h
    exact ⟨_, sc, ws_skipWs s, ht, hr⟩
  complete := by
    intro s u sc v r hws ht he hr
    obtain ⟨c, t, rfl, hc⟩ := ht.head
    rw [← hskip, Ws.skipWs hws hc]
    exact complete (skipWs_cons hc) ht he hr

theorem parseStr_skip {cap : ℕ} (s : List Byte) : parseStr cap (skipWs s) = parseStr cap s := by
  unfold parseStr expect token
  rw [skipWs_skipWs]

theorem parseStr_token {cap : ℕ} {k : Cut} (hu : skipWs u = u) (h : parseStr cap u = some (k, r)) :
    ∃ t, Token u (.str t) r ∧ k = ⟨t.take (cap - 1), t.length⟩ := by
  obtain ⟨t, ⟨u', hq, ht⟩, hk⟩ := parseStr_iff.mp h
  have hu' : u = quote :: u' := hu.symm.trans (Ws.skipWs hq rfl)
  exact ⟨t, hu' ▸ .str ht, hk⟩

theorem token_parseStr {cap : ℕ} {t : List Byte} (h : Chars s t r) :
    parseStr cap (quote :: s) = some (⟨t.take (cap - 1), t.length⟩, r) :=
  parseStr_iff.mpr ⟨t, ⟨s, .nil, h⟩, rfl⟩

theorem scans_cut (cap : ℕ) : Scans (parseStr cap) (readsCut cap) := by
  refine .of parseStr_skip ?_ ?_
  · intro u v r hu h
    obtain ⟨t, ht, rfl⟩ := parseStr_token hu h
    exact ⟨_, ht, rfl⟩
  · intro u sc v r hu h he hr
    cases h with
    | str h =>
      rw [token_parseStr h]
      exact congrArg (fun v => some (v, r)) (Option.some.inj hr)
    | _ => simp [readsCut] at hr

theorem Scans.bind {α β : Type} {parse : List Byte → Option (α × List Byte)}
    {reads : Scalar → Option α} (h : Scans parse reads) (g : α → Option β) :
    Scans (fun s => (parse s).bind fun r => (g r.1).map fun v => (v, r.2))
      (fun sc => (reads sc).bind g) where
  sound := by
    intro s v r hp
    obtain ⟨⟨k, r'⟩, hk, hp⟩ := Option.bind_eq_some_iff.mp hp
    obtain ⟨w, hw, hp⟩ := Option.map_eq_some_iff.mp hp
    obtain ⟨rfl, rfl⟩ := Prod.mk.inj hp
    obtain ⟨u, sc, hws, ht, hr⟩ := h.sound hk
    exact ⟨u, sc, hws, ht, Option.bind_eq_some_iff.mpr ⟨k, hr, hw⟩⟩
  complete := by
    intro s u sc v r hws ht he hr
    obtain ⟨k, hk, hv⟩ := Option.bind_eq_some_iff.mp hr
    rw [h.complete hws ht he hk, Option.bind_some, hv]
    rfl

theorem scans_strict (cap : ℕ) : Scans (Kind.parse (.strict cap)) (readsStr cap) := by
  have hparse : Kind.parse (.strict cap) = fun s => (parseStr cap s).bind fun r =>
      (if r.1.len ≥ cap then none else some r.1.buf).map fun v => (v, r.2) := by
    funext s
    refine congrArg ((parseStr cap s).bind ·) (funext fun r => ?_)
    split_ifs <;> rfl
  have hreads : readsStr cap = fun sc => (readsCut cap sc).bind fun k =>
      if k.len ≥ cap then none else some k.buf := by
    funext sc
    cases sc with
    | str t =>
      simp only [readsStr, readsCut, Option.bind_some]
      split_ifs with h₁ h₂ h₂
      · exact absurd h₁ (Nat.not_lt.mpr h₂)
      · rw [take_whole h₁]
      · rfl
      · exact absurd (Nat.not_le.mp h₂) h₁
    | _ => rfl
  rw [hparse, hreads]
  exact (scans_cut cap).bind fun k => if k.len ≥ cap then none else some k.buf

theorem prefix_split {name : List Byte} (h : name.isPrefixOf u = true) :
    u = name ++ u.drop name.length := by
  obtain ⟨t, rfl⟩ := List.isPrefixOf_iff_prefix.mp h
  rw [List.drop_left]

theorem scans_bool : Scans parseBool readsBool := by
  refine .of (fun s => by unfold parseBool; rw [skipWs_skipWs]) ?_ ?_
  · intro u v r hu h
    unfold parseBool at h
    rw [hu] at h
    dsimp only at h
    split_ifs at h with ht hf
    · obtain ⟨rfl, rfl⟩ := Prod.mk.inj (Option.some.inj h)
      have htok := Token.bool (b := true) (r := u.drop 4)
      exact ⟨.bool true, (prefix_split ht).symm ▸ htok, rfl⟩
    · obtain ⟨rfl, rfl⟩ := Prod.mk.inj (Option.some.inj h)
      have htok := Token.bool (b := false) (r := u.drop 5)
      exact ⟨.bool false, (prefix_split hf).symm ▸ htok, rfl⟩
  · intro u sc v r hu h he hr
    cases h with
    | @bool b =>
      obtain rfl := Option.some.inj hr
      cases b <;> rfl
    | _ => simp [readsBool] at hr

theorem ofDigits_concat (ds : List Byte) (c : Byte) :
    ofDigits (ds ++ [c]) = ofDigits ds * 10 + (c.toNat - 0x30) := by
  unfold ofDigits
  rw [List.foldl_append]
  rfl

theorem digit_le (h : isDigit c = true) : c.toNat - 0x30 ≤ 9 := by
  simp only [isDigit, decide_eq_true_eq] at h
  omega

theorem foldlM_uintStep (ds : List Byte) :
    ds.foldlM uintStep 0 = if 65535 < ofDigits ds then none else some (ofDigits ds) := by
  induction ds using List.reverseRecOn with
  | nil => rfl
  | append_singleton ds c ih =>
    rw [List.foldlM_append, ih, ofDigits_concat]
    by_cases h : 65535 < ofDigits ds
    · rw [if_pos h, if_pos (by omega)]
      rfl
    · rw [if_neg h]
      simp [uintStep]

theorem foldl_i64Step (hds : ∀ c ∈ ds, isDigit c = true) :
    ds.foldl i64Step 0 = if ofDigits ds < i64Past then (ofDigits ds : ℤ) else 2 ^ 62 := by
  induction ds using List.reverseRecOn with
  | nil => rfl
  | append_singleton ds c ih =>
    have hc := digit_le (hds c (by simp))
    rw [List.foldl_append, ih fun c hc => hds c (by simp [hc]), ofDigits_concat]
    simp only [List.foldl_cons, List.foldl_nil, i64Step, i64Past]
    split_ifs <;> omega

theorem foldl_nowStep (hds : ∀ c ∈ ds, isDigit c = true) :
    ds.foldl nowStep 0 = min (ofDigits ds) llongMax := by
  induction ds using List.reverseRecOn with
  | nil => rfl
  | append_singleton ds c ih =>
    have hc := digit_le (hds c (by simp))
    rw [List.foldl_append, ih fun c hc => hds c (by simp [hc]), ofDigits_concat]
    have hmax : llongMax = 9223372036854775807 := rfl
    simp only [List.foldl_cons, List.foldl_nil, nowStep]
    split_ifs <;> omega

theorem scans_uint : Scans parseUint readsUint := by
  refine .of (fun s => by unfold parseUint; rw [skipWs_skipWs]) ?_ ?_
  · intro u v r hu h
    unfold parseUint at h
    rw [hu] at h
    dsimp only at h
    obtain ⟨w, hw, h⟩ := Option.bind_eq_some_iff.mp h
    rw [foldlM_uintStep] at hw
    obtain ⟨hbig, hw⟩ := Option.ite_none_left_eq_some.mp hw
    obtain ⟨hgood, h⟩ := Option.ite_none_left_eq_some.mp h
    obtain ⟨rfl, rfl⟩ := Prod.mk.inj (Option.some.inj h)
    obtain ⟨hne, hpad⟩ := not_or.mp hgood
    have htok := @Token.int false _ (u.dropWhile isDigit) (digits_takeWhile hne)
    have heq := u.takeWhile_append_dropWhile (p := isDigit)
    refine ⟨_, heq ▸ htok, ?_⟩
    rw [readsUint, if_neg (not_or.mpr ⟨hpad, hbig⟩), hw]
  · intro u sc v r hu h he hr
    cases h with
    | @int neg ds _ hds =>
      cases neg with
      | true => simp [readsUint] at hr
      | false =>
        obtain ⟨hgood, h⟩ := Option.ite_none_left_eq_some.mp hr
        obtain rfl := Option.some.inj h
        obtain ⟨hpad, hbig⟩ := not_or.mp hgood
        obtain ⟨htake, hdrop⟩ := takeWhile_digits hds (ends_noDigit he)
        unfold parseUint
        rw [hu]
        dsimp only [sign]
        simp only [Bool.false_eq_true, if_false, List.nil_append]
        rw [htake, hdrop, foldlM_uintStep, if_neg hbig, Option.bind_some,
          if_neg (not_or.mpr ⟨hds.1, hpad⟩)]
    | _ => simp [readsUint] at hr

theorem scans_i64 : Scans parseI64 readsI64 := by
  have hvalue : ∀ {neg : Bool} {ds : List Byte}, Digits ds → ¬ padded ds →
      readsI64 (.int neg ds) =
        some (if neg then -ds.foldl i64Step 0 else ds.foldl i64Step 0) := by
    intro neg ds hds hpad
    rw [readsI64, if_neg hpad, foldl_i64Step hds.2]
    unfold trueInt
    split_ifs <;> rfl
  refine .of (fun s => by unfold parseI64; rw [skipWs_skipWs]) ?_ ?_
  · intro u v r hu h
    unfold parseI64 at h
    rw [hu] at h
    obtain ⟨hgood, h⟩ := Option.ite_none_left_eq_some.mp h
    obtain ⟨rfl, rfl⟩ := Prod.mk.inj (Option.some.inj h)
    obtain ⟨hne, hpad⟩ := not_or.mp hgood
    exact ⟨_, token_signed hne, hvalue (digits_takeWhile hne) hpad⟩
  · intro u sc v r hu h he hr
    cases h with
    | @int neg ds _ hds =>
      have hpad : ¬ padded ds := by
        intro hpad
        rw [readsI64, if_pos hpad] at hr
        simp at hr
      obtain ⟨htake, hdrop⟩ := takeWhile_digits hds (ends_noDigit he)
      rw [hvalue hds hpad] at hr
      unfold parseI64
      dsimp only
      rw [hu, signed_digits hds]
      dsimp only
      rw [htake, hdrop, if_neg (not_or.mpr ⟨hds.1, hpad⟩), Option.some.inj hr]
    | _ => simp [readsI64] at hr

theorem Scans.here {α : Type} {parse : List Byte → Option (α × List Byte)}
    {reads : Scalar → Option α} {v : α} (h : Scans parse reads) (hu : skipWs u = u)
    (hp : parse u = some (v, r)) : ∃ sc, Token u sc r ∧ reads sc = some v := by
  obtain ⟨w, sc, hws, ht, hr⟩ := h.sound hp
  obtain ⟨c, t, rfl, hc⟩ := ht.head
  exact ⟨sc, (hu.symm.trans (Ws.skipWs hws hc)) ▸ ht, hr⟩

theorem number_head (hds : Digits ds) : (sign neg ++ (ds ++ r)).head? ≠ some quote ∧
    nullText.isPrefixOf (sign neg ++ (ds ++ r)) = false ∧
    trueText.isPrefixOf (sign neg ++ (ds ++ r)) = false ∧
    falseText.isPrefixOf (sign neg ++ (ds ++ r)) = false := by
  have hstart : ∃ c t, sign neg ++ (ds ++ r) = c :: t ∧ (c = minus ∨ isDigit c = true) := by
    obtain ⟨c, t, rfl, hc⟩ := digits_head hds
    cases neg with
    | true => exact ⟨minus, _, rfl, .inl rfl⟩
    | false => exact ⟨c, t ++ r, rfl, .inr hc⟩
  have hother : ∀ c, c = minus ∨ isDigit c = true → c ≠ quote ∧ c ≠ 0x6E ∧ c ≠ 0x74 ∧ c ≠ 0x66 := by
    decide
  obtain ⟨c, t, heq, hc⟩ := hstart
  obtain ⟨hq, hn, ht, hf⟩ := hother c hc
  have hno : ∀ {d : Byte} {name : List Byte}, c ≠ d → (d :: name).isPrefixOf (c :: t) = false := by
    intro d name h
    rw [List.isPrefixOf_cons_cons, beq_eq_false_iff_ne.mpr h.symm, Bool.false_and]
  rw [heq]
  exact ⟨fun h => hq (Option.some.inj h), hno hn, hno ht, hno hf⟩

theorem token_null (h : nullText.isPrefixOf u = true) : Token u .null (u.drop 4) := by
  have htok := Token.null (r := u.drop 4)
  exact (prefix_split h).symm ▸ htok

theorem scans_value (cap : ℕ) : Scans (parseValue cap) (readsValue cap) := by
  refine .of (fun s => by unfold parseValue; rw [skipWs_skipWs]) ?_ ?_
  · intro u v r hu h
    unfold parseValue at h
    rw [hu] at h
    dsimp only at h
    split_ifs at h with hq hnull hbad
    · obtain ⟨⟨k, r'⟩, hk, h⟩ := Option.bind_eq_some_iff.mp h
      obtain ⟨hlen, h⟩ := Option.ite_none_right_eq_some.mp h
      obtain ⟨rfl, rfl⟩ := Prod.mk.inj (Option.some.inj h)
      obtain ⟨t, ht, rfl⟩ := parseStr_token hu hk
      exact ⟨_, ht, (if_pos hlen).trans (congrArg some (take_whole hlen).symm)⟩
    · obtain ⟨rfl, rfl⟩ := Prod.mk.inj (Option.some.inj h)
      exact ⟨_, token_null hnull, rfl⟩
    · obtain ⟨rfl, rfl⟩ := Prod.mk.inj (Option.some.inj h)
      obtain ⟨hne, hgood⟩ := not_or.mp hbad
      exact ⟨_, token_signed hne, if_neg hgood⟩
  · intro u sc v r hu h he hr
    cases h with
    | null =>
      obtain rfl := Option.some.inj hr
      rfl
    | str h =>
      obtain ⟨hlen, hv⟩ := Option.ite_none_right_eq_some.mp hr
      obtain rfl := Option.some.inj hv
      unfold parseValue
      rw [hu]
      dsimp only
      rw [if_pos List.head?_cons, token_parseStr h, Option.bind_some, if_pos hlen, take_whole hlen]
    | @int neg ds _ hds =>
      obtain ⟨hgood, hv⟩ := Option.ite_none_left_eq_some.mp hr
      obtain rfl := Option.some.inj hv
      obtain ⟨hq, hnull, -⟩ := @number_head r _ neg hds
      obtain ⟨htake, hdrop⟩ := takeWhile_digits hds (ends_noDigit he)
      unfold parseValue
      dsimp only
      rw [hu, if_neg hq, hnull, signed_digits hds]
      dsimp only
      rw [htake, hdrop, if_neg (by simp), if_neg (not_or.mpr ⟨hds.1, hgood⟩)]
    | _ => simp [readsValue] at hr

theorem scans_alias : Scans parseAlias readsAlias := by
  refine .of (fun s => by unfold parseAlias; rw [skipWs_skipWs]) ?_ ?_
  · intro u v r hu h
    unfold parseAlias at h
    rw [hu] at h
    dsimp only at h
    split_ifs at h with hnull
    · obtain ⟨rfl, rfl⟩ := Prod.mk.inj (Option.some.inj h)
      exact ⟨_, token_null hnull, rfl⟩
    · obtain ⟨⟨k, r'⟩, hk, h⟩ := Option.map_eq_some_iff.mp h
      obtain ⟨t, ht, rfl⟩ := parseStr_token hu hk
      obtain ⟨rfl, rfl⟩ := Prod.mk.inj h
      refine ⟨_, ht, congrArg some ?_⟩
      simp only [List.length_eq_zero_iff]
      split_ifs with hbad
      · rfl
      · exact (take_whole (Nat.not_le.mp (not_or.mp hbad).2)).symm
  · intro u sc v r hu h he hr
    cases h with
    | null =>
      obtain rfl := Option.some.inj hr
      rfl
    | @str s t _ h =>
      obtain rfl := Option.some.inj hr
      have hnull : nullText.isPrefixOf (quote :: s) = false := rfl
      unfold parseAlias
      rw [hu]
      dsimp only
      rw [hnull, if_neg (by simp), token_parseStr h]
      simp only [Option.map_some, List.length_eq_zero_iff]
      split_ifs with hbad
      · rfl
      · rw [take_whole (Nat.not_le.mp (not_or.mp hbad).2)]
    | _ => simp [readsAlias] at hr

theorem scans_pairValue : Scans parsePairValue readsPairValue := by
  refine .of (fun s => by unfold parsePairValue; rw [skipWs_skipWs]) ?_ ?_
  · intro u v r hu h
    unfold parsePairValue at h
    rw [hu] at h
    dsimp only at h
    split_ifs at h with hq
    · obtain ⟨⟨k, r'⟩, hk, h⟩ := Option.map_eq_some_iff.mp h
      obtain ⟨t, ht, rfl⟩ := parseStr_token hu hk
      obtain ⟨rfl, rfl⟩ := Prod.mk.inj h
      exact ⟨_, ht, rfl⟩
    · obtain ⟨⟨w, r'⟩, hw, h⟩ := Option.map_eq_some_iff.mp h
      obtain ⟨rfl, rfl⟩ := Prod.mk.inj h
      obtain ⟨sc, ht, hr⟩ := (scans_value 64).here hu hw
      refine ⟨sc, ht, ?_⟩
      cases ht with
      | str => exact absurd rfl hq
      | _ => exact congrArg (Option.map fun _ => none) hr
  · intro u sc v r hu h he hr
    cases h with
    | @str s t _ h =>
      obtain rfl := Option.some.inj hr
      unfold parsePairValue
      rw [hu]
      dsimp only
      rw [if_pos List.head?_cons, token_parseStr h]
      rfl
    | null =>
      obtain rfl := Option.some.inj hr
      rfl
    | @int neg ds _ hds =>
      obtain ⟨w, hw, rfl⟩ := Option.map_eq_some_iff.mp hr
      obtain ⟨hq, -⟩ := @number_head r _ neg hds
      unfold parsePairValue
      dsimp only
      rw [hu, if_neg hq, (scans_value 64).complete .nil (.int hds) he hw]
      rfl
    | _ => simp [readsPairValue, readsValue] at hr

theorem noDigit_take (h : NoDigit r) (n : ℕ) : NoDigit (r.take n) := by
  intro c hc
  cases n with
  | zero => simp at hc
  | succ n =>
    cases r with
    | nil => simp at hc
    | cons d r => exact h c hc

theorem take_digits (hds : Digits ds) (hlen : ds.length ≤ n) (hr : NoDigit r) :
    ((ds ++ r).take n).takeWhile isDigit = ds := by
  rw [List.take_append, List.take_of_length_le hlen]
  exact (takeWhile_digits hds (noDigit_take hr _)).1

theorem pct_value (neg : Bool) (n : ℕ) (h : n = ofDigits ds) :
    max (-127) (min 127 (trueInt neg ds)) =
      if neg then -(if n > 127 then 127 else (n : ℤ)) else (if n > 127 then 127 else (n : ℤ)) := by
  subst h
  unfold trueInt
  split_ifs <;> omega

theorem pct_sign {withSign : Bool} (hsign : neg = true → withSign = true) (hds : Digits ds) :
    (withSign && (signed (sign neg ++ (ds ++ r))).1) = neg ∧
      (if withSign then (signed (sign neg ++ (ds ++ r))).2 else sign neg ++ (ds ++ r)) =
      ds ++ r := by
  rw [signed_digits hds]
  cases withSign with
  | true => exact ⟨rfl, rfl⟩
  | false =>
    have hneg : neg = false := by
      by_contra h
      exact absurd (hsign (eq_true_of_ne_false h)) Bool.false_ne_true
    rw [hneg]
    exact ⟨rfl, rfl⟩

theorem scans_pct (withSign : Bool) : Scans (parsePct withSign) (readsPct withSign) := by
  refine .of (fun s => by unfold parsePct; rw [skipWs_skipWs]) ?_ ?_
  · intro u v r hu h
    unfold parsePct at h
    rw [hu] at h
    dsimp only at h
    obtain ⟨hne, h⟩ := Option.ite_none_left_eq_some.mp h
    obtain ⟨hv, rfl⟩ := Prod.mk.inj (Option.some.inj h)
    generalize hneg : (withSign && (signed u).1) = neg at *
    generalize hs : (if withSign then (signed u).2 else u) = s at *
    have hprefix : (s.take 3).takeWhile isDigit <+: s :=
      (List.takeWhile_prefix _).trans (List.take_prefix 3 s)
    have hsplit := List.prefix_iff_eq_append.mp hprefix
    have heq : u = sign neg ++ s := by
      rw [← hneg, ← hs]
      cases withSign with
      | true => exact signed_eq u
      | false => rfl
    have htok := @Token.int neg _ (s.drop ((s.take 3).takeWhile isDigit).length)
      (digits_takeWhile hne)
    rw [hsplit, ← heq] at htok
    refine ⟨_, htok, ?_⟩
    have hlen : ((s.take 3).takeWhile isDigit).length ≤ 3 :=
      (List.takeWhile_prefix _).length_le.trans (List.length_take_le 3 s)
    have hsign : neg = true → withSign = true := by
      rintro rfl
      exact (Bool.and_eq_true_iff.mp hneg).1
    rw [readsPct, if_pos ⟨hlen, hsign⟩, pct_value neg _ rfl, hv]
  · intro u sc v r hu h he hr
    cases h with
    | @int neg ds _ hds =>
      obtain ⟨⟨hlen, hsign⟩, hv⟩ := Option.ite_none_right_eq_some.mp hr
      obtain ⟨hn, hs⟩ := pct_sign (r := r) hsign hds
      unfold parsePct
      dsimp only
      rw [hu, hn, hs, take_digits hds hlen (ends_noDigit he), if_neg hds.1, List.drop_left,
        ← Option.some.inj hv, pct_value neg _ rfl]
    | _ => simp [readsPct] at hr

theorem skipDigits_iff : skipDigits s = some r ↔ ∃ ds, Digits ds ∧ s = ds ++ r ∧ NoDigit r := by
  unfold skipDigits
  rw [Option.ite_none_left_eq_some]
  constructor
  · rintro ⟨hne, hr⟩
    obtain rfl := Option.some.inj hr
    exact ⟨_, digits_takeWhile hne, List.takeWhile_append_dropWhile.symm, noDigit_dropWhile s⟩
  · rintro ⟨ds, hds, rfl, hr⟩
    obtain ⟨htake, hdrop⟩ := takeWhile_digits hds hr
    rw [htake, hdrop]
    exact ⟨hds.1, rfl⟩

theorem eq_of_head {s : List Byte} (h : s.head? = some c) : s = c :: s.tail := by
  obtain ⟨t, rfl⟩ := List.head?_eq_some_iff.mp h
  rfl

/-- The sign of an exponent. -/
def ExpSign (sg : List Byte) : Prop := sg = [] ∨ sg = [0x2B] ∨ sg = [minus]

theorem skipSign_eq (s : List Byte) : ∃ sg, ExpSign sg ∧ s = sg ++ skipSign s := by
  unfold skipSign
  split_ifs with h
  · obtain h | h := h
    · exact ⟨[0x2B], .inr (.inl rfl), eq_of_head h⟩
    · exact ⟨[minus], .inr (.inr rfl), eq_of_head h⟩
  · exact ⟨[], .inl rfl, rfl⟩

theorem skipSign_digits {sg : List Byte} (hsg : ExpSign sg) (hds : Digits ds) :
    skipSign (sg ++ (ds ++ r)) = ds ++ r := by
  obtain rfl | rfl | rfl := hsg
  · obtain ⟨c, t, rfl, hc⟩ := digits_head hds
    have hother : ∀ c, isDigit c = true → c ≠ 0x2B ∧ c ≠ minus := by decide
    obtain ⟨hp, hm⟩ := hother c hc
    refine if_neg (not_or.mpr ⟨?_, ?_⟩)
    · exact fun h => hp (Option.some.inj h)
    · exact fun h => hm (Option.some.inj h)
  · rfl
  · rfl

/-- A point with digits. -/
def Frac (s r : List Byte) : Prop := ∃ ds, Digits ds ∧ s = 0x2E :: (ds ++ r)

def Exp (s r : List Byte) : Prop := ∃ e sg ds, (e = 0x65 ∨ e = 0x45) ∧ ExpSign sg ∧ Digits ds ∧
  s = e :: (sg ++ (ds ++ r))

theorem skipFrac_iff {b : Bool} : skipFrac s = some (b, r) ↔
    b = true ∧ s.head? ≠ some 0x2E ∧ r = s ∨ b = false ∧ Frac s r ∧ NoDigit r := by
  unfold skipFrac Frac
  split_ifs with h
  · obtain ⟨t, rfl⟩ := List.head?_eq_some_iff.mp h
    simp only [List.tail_cons, Option.map_eq_some_iff, skipDigits_iff, Prod.mk.injEq,
      List.cons.injEq,
      List.head?_cons, ne_eq, not_true_eq_false, false_and, and_false, false_or, true_and]
    constructor
    · rintro ⟨t', ⟨ds, hds, ht, hr⟩, rfl, rfl⟩
      exact ⟨rfl, ⟨ds, hds, ht⟩, hr⟩
    · rintro ⟨rfl, ⟨ds, hds, ht⟩, hr⟩
      exact ⟨r, ⟨ds, hds, ht, hr⟩, rfl, rfl⟩
  · simp only [Option.some.injEq, Prod.mk.injEq]
    constructor
    · rintro ⟨rfl, rfl⟩
      exact .inl ⟨rfl, h, rfl⟩
    · rintro (⟨rfl, -, rfl⟩ | ⟨-, ⟨ds, -, rfl⟩, -⟩)
      · exact ⟨rfl, rfl⟩
      · exact absurd rfl h

theorem skipExp_iff {b : Bool} : skipExp s = some (b, r) ↔
    b = true ∧ (s.head? ≠ some 0x65 ∧ s.head? ≠ some 0x45) ∧ r = s ∨
      b = false ∧ Exp s r ∧ NoDigit r := by
  unfold skipExp Exp
  split_ifs with h
  · constructor
    · intro hs
      obtain ⟨t, ht, hs⟩ := Option.map_eq_some_iff.mp hs
      obtain ⟨rfl, rfl⟩ := Prod.mk.inj hs
      obtain ⟨ds, hds, htail, hr⟩ := skipDigits_iff.mp ht
      obtain ⟨sg, hsg, heq⟩ := skipSign_eq s.tail
      rw [htail] at heq
      refine .inr ⟨rfl, ?_, hr⟩
      obtain h | h := h
      · exact ⟨_, sg, ds, .inl rfl, hsg, hds, (eq_of_head h).trans (congrArg _ heq)⟩
      · exact ⟨_, sg, ds, .inr rfl, hsg, hds, (eq_of_head h).trans (congrArg _ heq)⟩
    · rintro (⟨-, hno, -⟩ | ⟨rfl, ⟨e, sg, ds, -, hsg, hds, rfl⟩, hr⟩)
      · exact absurd h (not_or.mpr hno)
      · rw [List.tail_cons, skipSign_digits hsg hds, skipDigits_iff.mpr ⟨ds, hds, rfl, hr⟩]
        rfl
  · simp only [Option.some.injEq, Prod.mk.injEq]
    constructor
    · rintro ⟨rfl, rfl⟩
      exact .inl ⟨rfl, not_or.mp h, rfl⟩
    · rintro (⟨rfl, -, rfl⟩ | ⟨-, ⟨e, sg, ds, he, -, -, rfl⟩, -⟩)
      · exact ⟨rfl, rfl⟩
      · obtain rfl | rfl := he
        · exact absurd (.inl rfl) h
        · exact absurd (.inr rfl) h

theorem tail_iff : Tail s r ↔ Frac s r ∨ Exp s r ∨ ∃ t, Frac s t ∧ Exp t r := by
  constructor
  · intro h
    cases h with
    | frac h => exact .inl ⟨_, h, rfl⟩
    | exp he hs h => exact .inr (.inl ⟨_, _, _, he, hs, h, rfl⟩)
    | both hf he hs h => exact .inr (.inr ⟨_, ⟨_, hf, rfl⟩, _, _, _, he, hs, h, rfl⟩)
  · rintro (⟨ds, hds, rfl⟩ | ⟨e, sg, ds, he, hsg, hds, rfl⟩ |
      ⟨t, ⟨fs, hfs, rfl⟩, e, sg, ds, he, hsg, hds, rfl⟩)
    · exact .frac hds
    · exact .exp he hsg hds
    · exact .both hfs he hsg hds

theorem tail_sound {b e : Bool} {t : List Byte} (hf : skipFrac s = some (b, t))
    (he : skipExp t = some (e, r)) : (b && e) = true ∧ r = s ∨ (b && e) = false ∧ Tail s r := by
  obtain ⟨rfl, -, rfl⟩ | ⟨rfl, hfrac, -⟩ := skipFrac_iff.mp hf
  · obtain ⟨rfl, -, rfl⟩ | ⟨rfl, hexp, -⟩ := skipExp_iff.mp he
    · exact .inl ⟨rfl, rfl⟩
    · exact .inr ⟨rfl, tail_iff.mpr (.inr (.inl hexp))⟩
  · obtain ⟨rfl, -, rfl⟩ | ⟨rfl, hexp, -⟩ := skipExp_iff.mp he
    · exact .inr ⟨rfl, tail_iff.mpr (.inl hfrac)⟩
    · exact .inr ⟨rfl, tail_iff.mpr (.inr (.inr ⟨t, hfrac, hexp⟩))⟩

theorem exp_head (h : Exp s r) : NoDigit s ∧ s.head? ≠ some 0x2E := by
  obtain ⟨e, sg, ds, he, -, -, rfl⟩ := h
  obtain rfl | rfl := he <;> exact ⟨fun c hc => Option.some.inj hc ▸ rfl, by simp⟩

theorem ends_head (h : Ends r) :
    r.head? ≠ some 0x2E ∧ r.head? ≠ some 0x65 ∧ r.head? ≠ some 0x45 := by
  obtain ⟨c, u, rfl, hc⟩ := h
  have hother : ∀ c, isWs c = true ∨ c = comma ∨ c = closing → c ≠ 0x2E ∧ c ≠ 0x65 ∧ c ≠ 0x45 := by
    decide
  obtain ⟨h₁, h₂, h₃⟩ := hother c hc
  exact ⟨fun h => h₁ (Option.some.inj h), fun h => h₂ (Option.some.inj h),
    fun h => h₃ (Option.some.inj h)⟩

theorem tail_complete (h : Tail s r) (hr : Ends r) : NoDigit s ∧
    ∃ b e t, skipFrac s = some (b, t) ∧ skipExp t = some (e, r) ∧ (b && e) = false := by
  obtain ⟨hdot, he⟩ := ends_head hr
  have hno := ends_noDigit hr
  have hpoint : ∀ {s t}, Frac s t → NoDigit s := by
    rintro s t ⟨ds, -, rfl⟩ c hc
    exact Option.some.inj hc ▸ rfl
  obtain hfrac | hexp | ⟨t, hfrac, hexp⟩ := tail_iff.mp h
  · exact ⟨hpoint hfrac, false, true, r, skipFrac_iff.mpr (.inr ⟨rfl, hfrac, hno⟩),
      skipExp_iff.mpr (.inl ⟨rfl, he, rfl⟩), rfl⟩
  · obtain ⟨hs, hdot⟩ := exp_head hexp
    exact ⟨hs, true, false, s, skipFrac_iff.mpr (.inl ⟨rfl, hdot, rfl⟩),
      skipExp_iff.mpr (.inr ⟨rfl, hexp, hno⟩), rfl⟩
  · exact ⟨hpoint hfrac, false, false, t,
      skipFrac_iff.mpr (.inr ⟨rfl, hfrac, (exp_head hexp).1⟩),
      skipExp_iff.mpr (.inr ⟨rfl, hexp, hno⟩), rfl⟩

theorem min_lt_localNowMin (n : ℕ) : min n llongMax < localNowMin ↔ n < localNowMin := by
  have hmax : llongMax = 9223372036854775807 := rfl
  have hmin : localNowMin = 1767225600 := rfl
  omega

theorem scans_localNow : Scans parseLocalNow readsLocalNow := by
  refine .of (fun s => by unfold parseLocalNow; rw [skipWs_skipWs]) ?_ ?_
  · intro u v r hu h
    unfold parseLocalNow at h
    rw [hu] at h
    dsimp only at h
    by_cases hnull : nullText.isPrefixOf u = true
    · rw [if_pos hnull] at h
      obtain ⟨rfl, rfl⟩ := Prod.mk.inj (Option.some.inj h)
      exact ⟨_, token_null hnull, rfl⟩
    rw [if_neg hnull] at h
    by_cases hq : u.head? = some quote
    · rw [if_pos hq] at h
      obtain ⟨⟨k, r'⟩, hk, h⟩ := Option.map_eq_some_iff.mp h
      obtain ⟨t, ht, rfl⟩ := parseStr_token hu hk
      obtain ⟨rfl, rfl⟩ := Prod.mk.inj h
      exact ⟨_, ht, rfl⟩
    · rw [if_neg hq] at h
      cases hb : parseBool u with
      | some b =>
        rw [hb] at h
        obtain ⟨rfl, rfl⟩ := Prod.mk.inj (Option.some.inj h)
        obtain ⟨sc, ht, hr⟩ := scans_bool.here hu hb
        cases sc with
        | bool b => exact ⟨_, ht, rfl⟩
        | _ => simp [readsBool] at hr
      | none =>
        rw [hb] at h
        obtain ⟨hbad, h⟩ := Option.ite_none_left_eq_some.mp h
        obtain ⟨hne, hpad⟩ := not_or.mp hbad
        obtain ⟨⟨b, t⟩, hf, h⟩ := Option.bind_eq_some_iff.mp h
        obtain ⟨⟨e, r'⟩, he, h⟩ := Option.map_eq_some_iff.mp h
        obtain ⟨rfl, rfl⟩ := Prod.mk.inj h
        have hds := digits_takeWhile hne
        rw [foldl_nowStep hds.2]
        obtain ⟨hint, rfl⟩ | ⟨hreal, htail⟩ := tail_sound hf he
        · refine ⟨_, token_signed hne, ?_⟩
          rw [readsLocalNow, if_neg hpad, hint]
          simp only [min_lt_localNowMin, Bool.not_true, Bool.false_or]
        · have htok := @Token.real (signed u).1 _ _ _ hds htail
          rw [List.takeWhile_append_dropWhile, ← signed_eq] at htok
          refine ⟨_, htok, ?_⟩
          rw [readsLocalNow, if_neg hpad, hreal]
          rfl
  · intro u sc v r hu h he hr
    have hnumber : ∀ {neg : Bool} {ds t : List Byte} {b e : Bool} {t' : List Byte}, Digits ds →
        ¬ padded ds → NoDigit t → skipFrac t = some (b, t') → skipExp t' = some (e, r) →
        skipWs (sign neg ++ (ds ++ t)) = sign neg ++ (ds ++ t) →
        parseLocalNow (sign neg ++ (ds ++ t)) = some (some ⟨some (min (ofDigits ds) llongMax),
          !(b && e) || neg || decide (ofDigits ds < localNowMin)⟩, r) := by
      intro neg ds t b e t' hds hpad ht hf he hu
      obtain ⟨hq, hnull, htrue, hfalse⟩ := @number_head t _ neg hds
      obtain ⟨htake, hdrop⟩ := takeWhile_digits hds ht
      have hbool : parseBool (sign neg ++ (ds ++ t)) = none := by
        unfold parseBool
        dsimp only
        rw [hu, htrue, hfalse]
        rfl
      unfold parseLocalNow
      dsimp only
      rw [hu, hnull, if_neg (by simp), if_neg hq, hbool, signed_digits hds]
      dsimp only
      rw [htake, hdrop, if_neg (not_or.mpr ⟨hds.1, hpad⟩), hf, Option.bind_some, he,
        foldl_nowStep hds.2]
      simp only [min_lt_localNowMin, Option.map_some]
    cases h with
    | null =>
      obtain rfl := Option.some.inj hr
      rfl
    | @str s t _ h =>
      obtain rfl := Option.some.inj hr
      have hnull : nullText.isPrefixOf (quote :: s) = false := rfl
      unfold parseLocalNow
      dsimp only
      rw [hu, hnull, if_neg (by simp), if_pos List.head?_cons, token_parseStr h]
      rfl
    | @bool b =>
      obtain rfl := Option.some.inj hr
      cases b <;> rfl
    | @int neg ds _ hds =>
      obtain ⟨hpad, hv⟩ := Option.ite_none_left_eq_some.mp hr
      obtain ⟨hdot, hexp⟩ := ends_head he
      rw [hnumber hds hpad (ends_noDigit he) (skipFrac_iff.mpr (.inl ⟨rfl, hdot, rfl⟩))
        (skipExp_iff.mpr (.inl ⟨rfl, hexp, rfl⟩)) hu, ← Option.some.inj hv]
      rfl
    | real hds htail =>
      obtain ⟨hpad, hv⟩ := Option.ite_none_left_eq_some.mp hr
      obtain ⟨hno, b, e, t, hf, hx, hreal⟩ := tail_complete htail he
      rw [hnumber hds hpad hno hf hx hu, ← Option.some.inj hv, hreal]
      rfl

theorem Kind.scans (k : Kind) : Scans k.parse k.reads := by
  cases k with
  | strict cap => exact scans_strict cap
  | long cap => exact scans_cut cap
  | bool => exact scans_bool
  | uint => exact scans_uint
  | int => exact scans_i64
  | value cap => exact scans_value cap
  | localNow => exact scans_localNow
  | aliasText => exact scans_alias
  | pct withSign => exact scans_pct withSign
  | pairValue => exact scans_pairValue

example : parsePct false (Lib.Buffer.chars "0070") = some (7, Lib.Buffer.chars "0") := by decide

end OpenCalifornia.Web
