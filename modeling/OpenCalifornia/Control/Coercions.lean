import OpenCalifornia.Control.Planner

/-! # The value coercions agree

On a value without the four separators that only Python counts as blanks, and shorter than the
firmware's buffer, every coercion of the planner gives what the builders' coercion gives. A
value that the planner's coercion accepts has no such separator. -/

namespace OpenCalifornia.Control.Firmware
open Lib Lib.Bits Lib.Text

/-- The characters 28 to 31, blanks for `str.strip` and `str.split` only. -/
def isSep (c : Char) : Bool := 28 ≤ c.toNat ∧ c.toNat ≤ 31

def Clean (s : Text) : Prop := ∀ c ∈ s, isSep c = false

instance (s : Text) : Decidable (Clean s) :=
  decidable_of_iff (s.all (fun c => !isSep c) = true) (by simp [Clean])

theorem isSpace_eq {c : Char} (h : isSep c = false) : isSpace c = isWs c := by
  simp only [isSep, decide_eq_false_iff_not] at h
  rw [isSpace, isWs, decide_eq_decide]
  omega

theorem isSep_of_isWs {c : Char} (h : isWs c = true) : isSep c = false := by
  simp only [isWs, decide_eq_true_eq] at h
  simp only [isSep, decide_eq_false_iff_not]
  omega

theorem isSep_of_isDigit {c : Char} (h : c.isDigit = true) : isSep c = false := by
  have h48 : 48 ≤ c.toNat := by
    simp only [Char.isDigit, Bool.and_eq_true, decide_eq_true_eq] at h
    exact h.1
  simp only [isSep, decide_eq_false_iff_not]
  omega

theorem toNat_toLower {c : Char} (h : 'A' ≤ c ∧ c ≤ 'Z') : c.toLower.toNat = c.toNat + 32 := by
  have h' : c.val ≥ 'A'.val ∧ c.val ≤ 'Z'.val := h
  have h2 : c.val.toNat ≤ 90 := h.2
  have hd : ('a'.val - 'A'.val).toNat = 32 := by decide
  have hadd : (c.val + ('a'.val - 'A'.val)).toNat = c.val.toNat + 32 := by
    rw [UInt32.toNat_add, hd]
    omega
  rw [Char.toLower, dif_pos h']
  exact hadd

theorem toLower_of_not {c : Char} (h : ¬ ('A' ≤ c ∧ c ≤ 'Z')) : c.toLower = c := by
  have h' : ¬ (c.val ≥ 'A'.val ∧ c.val ≤ 'Z'.val) := h
  rw [Char.toLower, dif_neg h']

theorem lower_eq (c : Char) : lower c = c.toLower := by
  unfold lower
  by_cases h : 'A' ≤ c ∧ c ≤ 'Z'
  · have h1 : 65 ≤ c.toNat := h.1
    have hn : c.toNat - 'A'.toNat + 'a'.toNat = c.toLower.toNat := by
      have hA : 'A'.toNat = 65 := rfl
      have ha : 'a'.toNat = 97 := rfl
      rw [hA, ha, toNat_toLower h]
      omega
    rw [if_pos h, hn, Char.ofNat_toNat]
  · rw [if_neg h, toLower_of_not h]

theorem toLower_eq_underscore {c : Char} : c.toLower = '_' ↔ c = '_' := by
  by_cases h : 'A' ≤ c ∧ c ≤ 'Z'
  · have h1 : 65 ≤ c.toNat := h.1
    have h2 : c.toNat ≤ 90 := h.2
    have hn := toNat_toLower h
    have hu : '_'.toNat = 95 := rfl
    constructor
    · intro he
      rw [he] at hn
      omega
    · intro he
      rw [he] at h2
      omega
  · rw [toLower_of_not h]

theorem isSep_toLower (c : Char) : isSep c.toLower = isSep c := by
  by_cases h : 'A' ≤ c ∧ c ≤ 'Z'
  · have h1 : 65 ≤ c.toNat := h.1
    have hn := toNat_toLower h
    rw [isSep, isSep, decide_eq_decide]
    omega
  · rw [toLower_of_not h]

theorem map_lower (s : Text) : s.map lower = Control.lower s := by
  rw [Control.lower]
  exact List.map_congr_left fun c _ => lower_eq c

theorem Clean.strip {s : Text} (h : Clean s) : strip isSpace s = strip isWs s :=
  strip_congr fun c hc => isSpace_eq (h c hc)

theorem Clean.split {s : Text} (h : Clean s) : split s = words isWs s :=
  words_congr fun c hc => isSpace_eq (h c hc)

theorem length_strip (p : Char → Bool) (s : Text) : (Lib.Text.strip p s).length ≤ s.length :=
  ((List.rdropWhile_prefix p _).length_le).trans (List.dropWhile_suffix p).length_le

theorem norm_eq_key {s : Text} (h : Clean s) (hl : s.length < valueMax) :
    norm s valueMax = key s := by
  have hlen : ((Lib.Text.strip isWs s).map lower).length ≤ valueMax - 1 := by
    have := length_strip isWs s
    rw [List.length_map]
    omega
  rw [norm, copy, List.take_of_length_le hlen, key, h.strip, map_lower]

/-- A `long` holds every number between its ends and saturates at them. -/
def clamp (z : ℤ) : ℤ := max longMin (min longMax z)

/-- The digit loop holds the number, or has saturated because the number is too large. -/
def Holds (V : ℕ) (v : ℤ) (sat : Bool) : Prop :=
  (sat = false ∧ v = V ∧ (V : ℤ) ≤ longMax) ∨ (sat = true ∧ longMax < (V : ℤ))

theorem digit_lt {c : Char} (h : c.isDigit = true) :
    48 ≤ c.toNat ∧ c.toNat ≤ 57 ∧ c ≠ '_' := by
  simp only [Char.isDigit, Bool.and_eq_true, decide_eq_true_eq] at h
  refine ⟨h.1, h.2, ?_⟩
  rintro rfl
  exact absurd h.2 (by decide)

theorem Holds.push {V : ℕ} {v : ℤ} {sat : Bool} {c : Char} (h : Holds V v sat)
    (hc : c.isDigit = true) :
    ∃ v' sat', Holds (V * 10 + digit c) v' sat' ∧ ∀ s n,
      digits (c :: s) v sat n = digits s v' sat' (n + 1) := by
  obtain ⟨h48, h57, -⟩ := digit_lt hc
  have hd : digit c = c.toNat - 48 := rfl
  have h0 : '0'.toNat = 48 := rfl
  have hM : longMax = 2147483647 := rfl
  by_cases hv : v > (longMax - (c.toNat - '0'.toNat : ℤ)) / 10
  · refine ⟨v, true, Or.inr ⟨rfl, ?_⟩, fun s n => by rw [digits, if_pos hc, if_pos hv]⟩
    cases h with
    | inl h => omega
    | inr h => omega
  · refine ⟨v * 10 + (c.toNat - '0'.toNat : ℤ), sat, ?_,
      fun s n => by rw [digits, if_pos hc, if_neg hv]⟩
    cases h with
    | inl h =>
      left
      refine ⟨h.1, ?_, ?_⟩
      · omega
      · omega
    | inr h =>
      right
      refine ⟨h.1, ?_⟩
      omega

theorem scanDigits_stop {s : Text} {V n : ℕ} (h : s.head?.any Char.isDigit = false) :
    scanDigits '_' s V n = none := by
  cases s with
  | nil => rfl
  | cons c s =>
    have hc : ¬ c.isDigit = true := by simpa using h
    rw [scanDigits, if_neg hc, if_pos rfl]

/-- The two digit loops, character by character. An underscore has been read only before a
digit; the first character counts as one after an underscore. -/
theorem digits_scan (s : Text) (prev : Char) (V : ℕ) (v : ℤ) (sat : Bool) (n : ℕ)
    (hv : Holds V v sat) (hu : prev = '_' → n = 0 ∨ s.head?.any Char.isDigit = true)
    (hd : prev ≠ '_' → n ≠ 0) :
    (∃ V' n' rest v' sat', scanDigits prev s V n = some (V', n', rest) ∧
      digits s v sat n = (v', sat', n', rest) ∧ Holds V' v' sat' ∧ n' ≠ 0) ∨
    (∃ v' sat' n' rest, scanDigits prev s V n = none ∧ digits s v sat n = (v', sat', n', rest) ∧
      (n' = 0 ∨ rest.head? = some '_')) := by
  induction s generalizing prev V v sat n with
  | nil =>
    by_cases hp : prev = '_'
    · right
      have hn : n = 0 := by simpa using hu hp
      exact ⟨v, sat, n, [], by rw [scanDigits, if_pos hp], rfl, Or.inl hn⟩
    · left
      exact ⟨V, n, [], v, sat, by rw [scanDigits, if_neg hp], rfl, hv, hd hp⟩
  | cons c s ih =>
    by_cases hc : c.isDigit = true
    · obtain ⟨v', sat', hv', hstep⟩ := hv.push hc
      rw [scanDigits, if_pos hc, hstep]
      exact ih c _ v' sat' (n + 1) hv' (fun h => absurd h (digit_lt hc).2.2) fun _ => by omega
    · by_cases hp : prev = '_'
      · right
        have hn : n = 0 := by simpa [hc] using hu hp
        refine ⟨v, sat, n, c :: s, by rw [scanDigits, if_neg hc, if_pos hp], ?_, Or.inl hn⟩
        rw [digits, if_neg hc, if_neg (by simp [hn])]
      · have hn := hd hp
        by_cases hc' : c = '_'
        · subst hc'
          rw [scanDigits, if_neg hc, if_neg hp, if_pos rfl]
          by_cases hs : s.head?.any Char.isDigit = true
          · rw [digits, if_neg hc, if_pos ⟨rfl, hn, hs⟩]
            exact ih '_' V v sat n hv (fun _ => Or.inr hs) fun h => absurd rfl h
          · right
            refine ⟨v, sat, n, '_' :: s, scanDigits_stop (by simpa using hs), ?_, Or.inr rfl⟩
            rw [digits, if_neg hc, if_neg fun h => hs h.2.2]
        · left
          refine ⟨V, n, c :: s, v, sat, ?_, ?_, hv, hn⟩
          · rw [scanDigits, if_neg hc, if_neg hp, if_neg hc']
          · rw [digits, if_neg hc, if_neg fun h => hc' h.1]

theorem scanDigits_length {prev : Char} {s rest : Text} {V n V' n' : ℕ}
    (h : scanDigits prev s V n = some (V', n', rest)) : n' + rest.length ≤ n + s.length := by
  induction s generalizing prev V n with
  | nil =>
    rw [scanDigits] at h
    split at h
    · simp at h
    · simp only [Option.some.injEq, Prod.mk.injEq] at h
      simp [h.2.1, h.2.2.symm]
  | cons c s ih =>
    rw [scanDigits] at h
    split at h
    · have := ih h
      simp only [List.length_cons]
      omega
    · split at h
      · simp at h
      · split at h
        · have := ih h
          simp only [List.length_cons]
          omega
        · simp only [Option.some.injEq, Prod.mk.injEq] at h
          simp [h.2.1, h.2.2.symm]

/-- The sign in front of a number, and what follows it. -/
def signed (s : Text) : Bool × Text :=
  match s with
  | '+' :: s => (false, s)
  | '-' :: s => (true, s)
  | s => (false, s)

theorem length_signed (s : Text) : (signed s).2.length ≤ s.length := by
  unfold signed
  split <;> simp

theorem int_signed (s : Text) :
    int? s = intBody (signed (s.dropWhile isIntSpace)).1 (signed (s.dropWhile isIntSpace)).2 := by
  unfold int? signed
  generalize s.dropWhile isIntSpace = t
  split
  · rfl
  · rfl
  · split <;> simp_all

theorem pyInt_signed (s : Text) :
    pyInt s = pyIntBody (signed (s.dropWhile isWs)).1 (signed (s.dropWhile isWs)).2 := by
  unfold pyInt signed
  generalize s.dropWhile isWs = t
  split
  · rfl
  · rfl
  · split <;> simp_all

/-- `intBody` with any number of digits. -/
def intBodyAny (neg : Bool) (s : Text) : Option ℤ :=
  match scanDigits '_' s 0 0 with
  | none => none
  | some (v, _, rest) =>
    if rest.dropWhile isIntSpace = [] then some (if neg then -(v : ℤ) else v) else none

/-- `int(value)` with the limit on the number of digits lifted. -/
def intAny (value : Text) : Option ℤ :=
  intBodyAny (signed (value.dropWhile isIntSpace)).1 (signed (value.dropWhile isIntSpace)).2

theorem pyIntBody_any (neg : Bool) (s : Text) :
    pyIntBody neg s = (intBodyAny neg s).map clamp := by
  have hM : longMax = 2147483647 := rfl
  have hm : longMin = -2147483648 := rfl
  unfold pyIntBody intBodyAny
  cases digits_scan s '_' 0 0 false 0 (Or.inl ⟨rfl, rfl, by decide⟩) (fun _ => Or.inl rfl)
    fun h => absurd rfl h with
  | inl h =>
    obtain ⟨V, n, rest, v, sat, hscan, hdig, hv, hn⟩ := h
    rw [hscan, hdig]
    dsimp only
    by_cases hrest : rest.dropWhile isWs = []
    · have hok : rest.dropWhile isIntSpace = [] := hrest
      rw [if_neg fun h => h.elim hn fun h => h hrest, if_pos hok, Option.map_some]
      cases hv with
      | inl hv =>
        obtain ⟨hsat, hv, hle⟩ := hv
        rw [hsat, hv, if_neg Bool.false_ne_true]
        cases neg <;> simp [clamp, hM, hm] <;> omega
      | inr hv =>
        obtain ⟨hsat, hgt⟩ := hv
        rw [hsat, if_pos rfl]
        cases neg <;> simp [clamp, hM, hm] <;> omega
    · have hrest' : ¬ rest.dropWhile isIntSpace = [] := hrest
      rw [if_pos (Or.inr hrest), if_neg hrest', Option.map_none]
  | inr h =>
    obtain ⟨v, sat, n, rest, hscan, hdig, hend⟩ := h
    rw [hscan, hdig]
    dsimp only
    cases hend with
    | inl hn => rw [if_pos (Or.inl hn), Option.map_none]
    | inr hu =>
      cases rest with
      | nil => simp at hu
      | cons c rest =>
        have hc : c = '_' := by simpa using hu
        have hd : (c :: rest).dropWhile isWs = c :: rest :=
          List.dropWhile_cons_of_neg (by rw [hc]; decide)
        rw [if_pos (Or.inr (by rw [hd]; simp)), Option.map_none]

theorem pyInt_clamped (s : Text) : pyInt s = (intAny s).map clamp := by
  have hws : s.dropWhile isIntSpace = s.dropWhile isWs := rfl
  rw [pyInt_signed, intAny, hws, pyIntBody_any]

/-- How many digits `int` counts. -/
def digitCount (value : Text) : ℕ :=
  ((scanDigits '_' (signed (value.dropWhile isIntSpace)).2 0 0).map fun r => r.2.1).getD 0

theorem digitCount_le (s : Text) : digitCount s ≤ s.length := by
  have hdrop : (s.dropWhile isIntSpace).length ≤ s.length := (List.dropWhile_suffix _).length_le
  have hsign := length_signed (s.dropWhile isIntSpace)
  unfold digitCount
  cases hscan : scanDigits '_' (signed (s.dropWhile isIntSpace)).2 0 0 with
  | none => simp
  | some r =>
    obtain ⟨V, n, rest⟩ := r
    have hlen := scanDigits_length hscan
    simp only [Option.map_some, Option.getD_some]
    omega

theorem int_limited (s : Text) :
    int? s = if digitCount s ≤ maxStrDigits then intAny s else none := by
  rw [int_signed]
  unfold intAny digitCount intBody intBodyAny
  cases scanDigits '_' (signed (s.dropWhile isIntSpace)).2 0 0 with
  | none => simp
  | some r =>
    simp only [Option.map_some, Option.getD_some]
    by_cases hn : r.2.1 ≤ maxStrDigits
    · simp only [hn, and_true, if_true]
    · simp only [hn, and_false, if_false]

theorem pyInt_eq {s : Text} (hl : s.length ≤ maxStrDigits) : pyInt s = (int? s).map clamp := by
  rw [pyInt_clamped, int_limited, if_pos ((digitCount_le s).trans hl)]

theorem toOption_bind {ε α β : Type} (m : Except ε α) (k : α → Except ε β) :
    (m >>= k).toOption = m.toOption.bind fun a => (k a).toOption := by
  cases m <;> rfl

theorem toOption_int (s : Text) : (int s).toOption = int? s := by
  unfold int
  cases int? s <;> rfl

theorem valueMax_le : valueMax ≤ maxStrDigits := by decide

theorem intRange_eq {s : Text} {lo hi : ℤ} (label : String) (hl : s.length < valueMax)
    (hlo : longMin < lo) (hhi : hi < longMax) :
    (Control.intRange s lo hi label).toOption = intRange s lo hi := by
  have hlen : s.length ≤ maxStrDigits := le_trans hl.le valueMax_le
  rw [Control.intRange, toOption_bind, toOption_int, intRange, pyInt_eq hlen]
  have hM : longMax = 2147483647 := rfl
  have hm : longMin = -2147483648 := rfl
  cases int? s with
  | none => rfl
  | some z =>
    rw [Option.bind_some, Option.map_some]
    by_cases h : lo ≤ z ∧ z ≤ hi
    · have hc : clamp z = z := by
        unfold clamp
        omega
      rw [if_pos h, hc, Option.filter_some, if_pos (by simpa using h)]
      rfl
    · have hc : ¬ (lo ≤ clamp z ∧ clamp z ≤ hi) := by
        unfold clamp
        omega
      rw [if_neg h, Option.filter_some, if_neg (by simpa using hc)]
      rfl

theorem key_cases (s : Text) : (truthy s).toOption =
    if key s ∈ onWords then some true else if key s ∈ offWords then some false else none := by
  unfold truthy
  split
  · rfl
  · split <;> rfl

theorem onoff_eq {s : Text} (h : Clean s) (hl : s.length < valueMax) :
    onoff s = (truthy s).toOption := by
  rw [key_cases, onoff, norm_eq_key h hl]
  rfl

theorem isOnoff_eq {s : Text} (h : Clean s) (hl : s.length < valueMax) :
    isOnoff s = (onoff s).isSome := by
  rw [onoff_eq h hl, key_cases, isOnoff]
  by_cases h1 : key s ∈ onWords
  · simp [h1]
  · by_cases h2 : key s ∈ offWords
    · simp [h1, h2]
    · simp [h1, h2]

theorem scanDigits_append {w : Text} (hw : ∀ c ∈ w, isIntSpace c = true) (s : Text) (prev : Char)
    (V n : ℕ) : scanDigits prev (s ++ w) V n =
      (scanDigits prev s V n).map fun r => (r.1, r.2.1, r.2.2 ++ w) := by
  induction s generalizing prev V n with
  | nil =>
    cases w with
    | nil =>
      rw [List.append_nil]
      cases h : scanDigits prev [] V n with
      | none => rfl
      | some r => simp
    | cons c w =>
      have hc := hw c (by simp)
      have hd : ¬ c.isDigit = true := by
        intro hd
        have := digit_lt hd
        simp only [isIntSpace, decide_eq_true_eq] at hc
        omega
      have hu : c ≠ '_' := by
        rintro rfl
        exact absurd hc (by decide)
      rw [List.nil_append]
      by_cases hp : prev = '_'
      · simp only [scanDigits, if_neg hd, if_pos hp, Option.map_none]
      · simp only [scanDigits, if_neg hd, if_neg hp, if_neg hu, Option.map_some, List.nil_append]
  | cons c s ih =>
    rw [List.cons_append, scanDigits, scanDigits]
    split
    · exact ih c _ _
    · split
      · rfl
      · split
        · exact ih c _ _
        · rfl

theorem intBody_append {w : Text} (hw : ∀ c ∈ w, isIntSpace c = true) (neg : Bool) (s : Text) :
    intBody neg (s ++ w) = intBody neg s := by
  unfold intBody
  rw [scanDigits_append hw]
  cases scanDigits '_' s 0 0 with
  | none => rfl
  | some r =>
    obtain ⟨V, n, rest⟩ := r
    have hiff : (rest ++ w).dropWhile isIntSpace = [] ↔ rest.dropWhile isIntSpace = [] := by
      rw [List.dropWhile_eq_nil_iff, List.dropWhile_eq_nil_iff]
      constructor
      · exact fun h c hc => h c (List.mem_append_left _ hc)
      · exact fun h c hc => (List.mem_append.mp hc).elim (h c) (hw c)
    simp only [Option.map_some, hiff]

theorem int_append {w : Text} (hw : ∀ c ∈ w, isIntSpace c = true) (s : Text) :
    int? (s ++ w) = int? s := by
  unfold int?
  cases hs : s.dropWhile isIntSpace with
  | nil =>
    have hall : ∀ c ∈ s ++ w, isIntSpace c = true := fun c hc =>
      (List.mem_append.mp hc).elim (List.dropWhile_eq_nil_iff.mp hs c) (hw c)
    rw [List.dropWhile_eq_nil_iff.mpr hall]
  | cons c t =>
    have hc : isIntSpace c = false := by
      have := List.head_dropWhile_not isIntSpace (l := s) (by simp [hs])
      simpa [hs] using this
    have hpre : s = s.takeWhile isIntSpace ++ c :: t := by
      rw [← hs, List.takeWhile_append_dropWhile]
    have hdrop : (s ++ w).dropWhile isIntSpace = c :: (t ++ w) := by
      rw [hpre, List.append_assoc, List.cons_append, dropWhile_append_cons hc,
        List.dropWhile_eq_nil_iff.mpr fun x hx => List.mem_takeWhile_imp hx]
      rfl
    rw [hdrop]
    by_cases hp : c = '+'
    · subst hp
      exact intBody_append hw false t
    · by_cases hm : c = '-'
      · subst hm
        exact intBody_append hw true t
      · have hb := intBody_append hw false (c :: t)
        rw [List.cons_append] at hb
        split
        · next h => exact absurd (List.cons.inj h).1 hp
        · next h => exact absurd (List.cons.inj h).1 hm
        · split
          · next h => exact absurd (List.cons.inj h).1 hp
          · next h => exact absurd (List.cons.inj h).1 hm
          · exact hb

theorem int_dropWhile (s : Text) : int? (s.dropWhile isWs) = int? s := by
  have hidem : (s.dropWhile isWs).dropWhile isWs = s.dropWhile isWs := by
    cases hs : s.dropWhile isWs with
    | nil => rfl
    | cons c t =>
      have := List.head_dropWhile_not isWs (l := s) (by simp [hs])
      exact List.dropWhile_cons_of_neg (by simpa [hs] using this)
  have hws : ∀ t : Text, t.dropWhile isIntSpace = t.dropWhile isWs := fun _ => rfl
  unfold int?
  rw [hws, hws, hidem]

theorem int_rdropWhile (s : Text) : int? (s.rdropWhile isWs) = int? s := by
  have hsplit := List.rdropWhile_append_rtakeWhile (p := isWs) (l := s)
  have hw : ∀ c ∈ s.rtakeWhile isWs, isIntSpace c = true := fun c hc =>
    List.mem_takeWhile_imp (List.mem_reverse.mp hc)
  have := int_append hw (s.rdropWhile isWs)
  rw [hsplit] at this
  exact this.symm

theorem copy_eq {s : Text} (hl : s.length < valueMax) : copy valueMax s = s :=
  List.take_of_length_le (by omega)

theorem isWs_colon : isWs ':' = false := by decide

theorem mem_rdropWhile {s : Text} {c : Char} (h : c ∈ s) (hc : isWs c = false) :
    c ∈ s.rdropWhile isWs := by
  cases mem_dropWhile_or (p := isWs) (List.mem_reverse.mpr h) with
  | inl h => simp [hc] at h
  | inr h => exact List.mem_reverse.mpr h

/-- The two hour and minute ranges of `_hhmm`, over the number before and after the colon. -/
def hhmmOf (a b : Text) : Option (ℕ × ℕ) :=
  (int? a).bind fun hh => (int? b).bind fun mm =>
    if (0 ≤ hh ∧ hh ≤ 23) ∧ 0 ≤ mm ∧ mm ≤ 59 then some (hh.toNat, mm.toNat) else none

theorem hhmm_colon {s a b : Text} (h : Clean s) (hcut : cut ':' s = some (a, b)) :
    (Control.hhmm s).toOption = if ':' ∈ b then none else hhmmOf a b := by
  obtain ⟨hs, ha⟩ := cut_eq_some hcut
  have hstrip : strip isSpace s = a.dropWhile isWs ++ ':' :: b.rdropWhile isWs := by
    rw [h.strip, hs, strip_append_cons isWs_colon]
  have ha' : ∀ x ∈ a.dropWhile isWs, (x == ':') = false := by
    intro x hx
    have hne : x ≠ ':' := fun he => ha (he ▸ (List.dropWhile_suffix isWs).subset hx)
    simpa using hne
  have hsplit : (strip isSpace s).splitOn ':' =
      a.dropWhile isWs :: (b.rdropWhile isWs).splitOn ':' := by
    rw [hstrip]
    exact List.splitOnP_append_cons_of_forall_mem ha' _ (by simp) _
  unfold Control.hhmm
  rw [hsplit]
  by_cases hb : ':' ∈ b
  · rw [if_pos hb]
    cases hc : cut ':' (b.rdropWhile isWs) with
    | none => exact absurd (mem_rdropWhile hb isWs_colon) (cut_eq_none.mp hc)
    | some xy =>
      obtain ⟨x, y⟩ := xy
      rw [splitOn_of_cut_some hc]
      obtain ⟨z, zs, hz⟩ := List.exists_cons_of_ne_nil (List.splitOn_ne_nil ':' y)
      rw [hz]
      rfl
  · have hb' : cut ':' (b.rdropWhile isWs) = none :=
      cut_eq_none.mpr fun hm => hb ((List.rdropWhile_prefix isWs b).subset hm)
    rw [if_neg hb, splitOn_of_cut_none hb']
    dsimp only
    rw [toOption_bind, toOption_int, int_dropWhile, hhmmOf]
    congr 1
    funext hh
    rw [toOption_bind, toOption_int, int_rdropWhile]
    congr 1
    funext mm
    split <;> rfl

theorem hhmmOf_eq {a b : Text} (ha : a.length < valueMax) (hb : b.length < valueMax) :
    ((intRange a 0 23).bind fun h => (intRange b 0 59).bind fun m => some (h, m)) =
      (hhmmOf a b).map fun hm => ((hm.1 : ℤ), (hm.2 : ℤ)) := by
  have h1 := @intRange_eq a 0 23 "" ha (by decide) (by decide)
  have h2 := @intRange_eq b 0 59 "" hb (by decide) (by decide)
  rw [Control.intRange, toOption_bind, toOption_int] at h1 h2
  rw [← h1, ← h2, hhmmOf]
  cases int? a with
  | none => rfl
  | some x =>
    cases int? b with
    | none =>
      simp only [Option.bind_some]
      split <;> rfl
    | some y =>
      simp only [Option.bind_some]
      by_cases hx : 0 ≤ x ∧ x ≤ 23
      · by_cases hy : 0 ≤ y ∧ y ≤ 59
        · have hxn : ((x.toNat : ℕ) : ℤ) = x := by omega
          have hyn : ((y.toNat : ℕ) : ℤ) = y := by omega
          simp [hx, hy, Except.toOption]
        · simp [hx, hy, Except.toOption]
      · simp [hx, Except.toOption]

theorem hhmm_eq {s : Text} (h : Clean s) (hl : s.length < valueMax) :
    hhmm s = (Control.hhmm s).toOption.map fun hm => ((hm.1 : ℤ), (hm.2 : ℤ)) := by
  unfold hhmm
  rw [copy_eq hl]
  cases hcut : cut ':' s with
  | none =>
    have hno : cut ':' (strip isSpace s) = none := by
      apply cut_eq_none.mpr
      intro hm
      exact cut_eq_none.mp hcut ((List.dropWhile_suffix isSpace).subset
        ((List.rdropWhile_prefix isSpace _).subset hm))
    rw [Control.hhmm, splitOn_of_cut_none hno]
    rfl
  | some ab =>
    obtain ⟨a, b⟩ := ab
    have hs := (cut_eq_some hcut).1
    have hlen : a.length + (b.length + 1) = s.length := by
      rw [hs, List.length_append, List.length_cons]
    rw [hhmm_colon h hcut]
    by_cases hb : ':' ∈ b
    · simp [hb]
    · rw [if_neg hb]
      simp only [Option.bind_eq_bind, Option.bind_some, if_neg hb]
      exact hhmmOf_eq (by omega) (by omega)

theorem lookup_map {β γ : Type} (f : β → γ) (k : Text) (l : List (Text × β)) :
    (l.map fun e => (e.1, f e.2)).lookup k = (l.lookup k).map f := by
  induction l with
  | nil => rfl
  | cons e l ih =>
    rw [List.map_cons, List.lookup_cons, List.lookup_cons, ih]
    cases k == e.1 <;> rfl

theorem coolerModes_lookup (k : Text) :
    coolerModes.lookup k = (caliCoolerModes.lookup k).map (Nat.cast : ℕ → ℤ) :=
  lookup_map _ k caliCoolerModes

theorem energyModes_lookup (k : Text) :
    energyModes.lookup k = (caliEnergyModes.lookup k).map (Nat.cast : ℕ → ℤ) :=
  lookup_map _ k caliEnergyModes

theorem lightColors_lookup (k : Text) :
    lightColors.lookup k = (caliLightColors.lookup k).map (Nat.cast : ℕ → ℤ) :=
  lookup_map _ k caliLightColors

theorem dashed_lower (s : Text) :
    dashed (Control.lower s) = s.map fun c => if c = '_' then '-' else lower c := by
  rw [dashed, Control.lower, List.map_map]
  apply List.map_congr_left
  intro c _
  simp only [Function.comp_apply, toLower_eq_underscore, lower_eq]

theorem saveArgs_eq {s : Text} (h : Clean s) (hl : s.length < valueMax) :
    (saveProfileArgs s).toOption = (saveArgs s).map fun a => (a.1, a.2.map (Nat.cast : ℕ → ℤ)) := by
  have hint : ∀ t ∈ words isWs s,
      (Control.intRange t 1 7 "save_profile favorite").toOption = intRange t 1 7 := fun t ht =>
    intRange_eq _ (lt_of_le_of_lt (mem_words ht).1 hl) (by decide) (by decide)
  unfold saveProfileArgs saveArgs
  rw [h.split, copy_eq hl]
  rw [← tokens_eq_words] at hint ⊢
  cases h0 : nextToken isWs s with
  | none =>
    rw [tokens_of_none h0]
    rfl
  | some r0 =>
    obtain ⟨t0, r0⟩ := r0
    rw [tokens_of_some h0] at hint ⊢
    dsimp only
    cases h1 : nextToken isWs r0 with
    | none =>
      rw [tokens_of_none h1]
      dsimp only
      rw [toOption_bind, hint t0 (by simp)]
      cases intRange t0 1 7 <;> rfl
    | some r1 =>
      obtain ⟨t1, r1⟩ := r1
      rw [tokens_of_some h1]
      dsimp only
      cases h2 : nextToken isWs r1 with
      | none =>
        rw [tokens_of_none h2]
        dsimp only
        rw [toOption_bind, hint t0 (by simp), dashed_lower, lightColors_lookup]
        cases intRange t0 1 7 with
        | none => rfl
        | some n =>
          cases caliLightColors.lookup (t1.map fun c => if c = '_' then '-' else lower c) <;> rfl
      | some r2 =>
        rw [tokens_of_some h2]
        rfl

theorem scanDigits_mem {prev : Char} {s rest : Text} {V n V' n' : ℕ}
    (h : scanDigits prev s V n = some (V', n', rest)) :
    ∀ c ∈ s, c.isDigit = true ∨ c = '_' ∨ c ∈ rest := by
  induction s generalizing prev V n with
  | nil => simp
  | cons x s ih =>
    rw [scanDigits] at h
    intro c hc
    split at h
    · next hx =>
      cases List.mem_cons.mp hc with
      | inl he => exact Or.inl (he ▸ hx)
      | inr hc => exact ih h c hc
    · split at h
      · simp at h
      · split at h
        · next hx =>
          cases List.mem_cons.mp hc with
          | inl he => exact Or.inr (Or.inl (he.trans hx))
          | inr hc => exact ih h c hc
        · simp only [Option.some.injEq, Prod.mk.injEq] at h
          exact Or.inr (Or.inr (h.2.2 ▸ hc))

theorem clean_of_dropWhile {s : Text} (h : Clean (s.dropWhile isWs)) : Clean s := by
  intro c hc
  cases mem_dropWhile_or (p := isWs) hc with
  | inl hw => exact isSep_of_isWs hw
  | inr hd => exact h c hd

theorem clean_of_intBody {neg : Bool} {s : Text} {z : ℤ} (h : intBody neg s = some z) :
    Clean s := by
  unfold intBody at h
  cases hscan : scanDigits '_' s 0 0 with
  | none => simp [hscan] at h
  | some r =>
    obtain ⟨V, n, rest⟩ := r
    rw [hscan] at h
    dsimp only at h
    have hrest : rest.dropWhile isWs = [] := by
      by_contra hne
      rw [if_neg fun h => hne h.1] at h
      simp at h
    intro c hc
    cases scanDigits_mem hscan c hc with
    | inl hd => exact isSep_of_isDigit hd
    | inr hc =>
      cases hc with
      | inl hu => exact hu ▸ by decide
      | inr hr => exact isSep_of_isWs (List.dropWhile_eq_nil_iff.mp hrest c hr)

theorem clean_of_int {s : Text} {z : ℤ} (h : int? s = some z) : Clean s := by
  have hcons : ∀ {c t}, isSep c = false → Clean t → Clean (c :: t) := fun hc ht x hx =>
    (List.mem_cons.mp hx).elim (fun he => he ▸ hc) (ht x)
  apply clean_of_dropWhile
  unfold int? at h
  have hws : s.dropWhile isIntSpace = s.dropWhile isWs := rfl
  rw [hws] at h
  split at h
  · next hs => exact hs ▸ hcons (by decide) (clean_of_intBody h)
  · next hs => exact hs ▸ hcons (by decide) (clean_of_intBody h)
  · exact clean_of_intBody h

theorem clean_of_pyInt {s : Text} {z : ℤ} (hl : s.length < valueMax) (h : pyInt s = some z) :
    Clean s := by
  rw [pyInt_eq (le_trans hl.le valueMax_le), Option.map_eq_some_iff] at h
  obtain ⟨y, hy, -⟩ := h
  exact clean_of_int hy

theorem clean_of_intRange {s : Text} {lo hi z : ℤ} (hl : s.length < valueMax)
    (h : intRange s lo hi = some z) : Clean s :=
  clean_of_pyInt hl (Option.filter_eq_some_iff.mp h).1

theorem Clean.append_cons {a b : Text} {c : Char} (ha : Clean a) (hc : isSep c = false)
    (hb : Clean b) : Clean (a ++ c :: b) := by
  intro x hx
  cases List.mem_append.mp hx with
  | inl h => exact ha x h
  | inr h => exact (List.mem_cons.mp h).elim (fun he => he ▸ hc) (hb x)

theorem clean_of_hhmm {s : Text} {h m : ℤ} (hl : s.length < valueMax)
    (hs : hhmm s = some (h, m)) : Clean s := by
  unfold hhmm at hs
  rw [copy_eq hl] at hs
  cases hcut : cut ':' s with
  | none => simp [hcut] at hs
  | some ab =>
    obtain ⟨a, b⟩ := ab
    have hsplit := (cut_eq_some hcut).1
    have hlen : a.length + (b.length + 1) = s.length := by
      rw [hsplit, List.length_append, List.length_cons]
    simp only [hcut, Option.bind_eq_bind, Option.bind_some] at hs
    split at hs
    · simp at hs
    · obtain ⟨x, hx, hs⟩ := Option.bind_eq_some_iff.mp hs
      obtain ⟨y, hy, -⟩ := Option.bind_eq_some_iff.mp hs
      rw [hsplit]
      exact (clean_of_intRange (by omega) hx).append_cons (by decide)
        (clean_of_intRange (by omega) hy)

theorem clean_of_norm {s t : Text} (hl : s.length < valueMax) (h : norm s valueMax = t)
    (ht : Clean t) : Clean s := by
  have hlen : ((strip isWs s).map lower).length ≤ valueMax - 1 := by
    have := length_strip isWs s
    rw [List.length_map]
    omega
  rw [norm, copy, List.take_of_length_le hlen] at h
  intro c hc
  cases mem_strip_or (p := isWs) hc with
  | inl hw => exact isSep_of_isWs hw
  | inr hs =>
    have := ht (lower c) (h ▸ List.mem_map_of_mem hs)
    rwa [lower_eq, isSep_toLower] at this

theorem clean_of_onoff {s : Text} {b : Bool} (hl : s.length < valueMax) (h : onoff s = some b) :
    Clean s := by
  have htok : ∀ t ∈ onTokens ++ offTokens, Clean t := by decide
  unfold onoff at h
  by_cases h1 : norm s valueMax ∈ onTokens
  · exact clean_of_norm hl rfl (htok _ (List.mem_append_left _ h1))
  · by_cases h2 : norm s valueMax ∈ offTokens
    · exact clean_of_norm hl rfl (htok _ (List.mem_append_right _ h2))
    · simp [h1, h2] at h

theorem mem_of_lookup {β : Type} {k : Text} {l : List (Text × β)} {v : β}
    (h : l.lookup k = some v) : k ∈ l.map (·.1) := by
  induction l with
  | nil => simp at h
  | cons e l ih =>
    rw [List.lookup_cons] at h
    cases hk : k == e.1 with
    | true =>
      have hk' : k = e.1 := by simpa using hk
      simp [hk']
    | false =>
      rw [hk] at h
      exact List.mem_cons_of_mem _ (ih h)

theorem clean_of_lookup {β : Type} {s : Text} {l : List (Text × β)} {v : β}
    (hl : s.length < valueMax) (hk : ∀ t ∈ l.map (·.1), Clean t)
    (h : l.lookup (norm s valueMax) = some v) : Clean s :=
  clean_of_norm hl rfl (hk _ (mem_of_lookup h))

theorem clean_of_words {s : Text} (h : ∀ w ∈ words isWs s, Clean w) : Clean s := by
  intro c hc
  cases mem_words_or (p := isWs) hc with
  | inl hw => exact isSep_of_isWs hw
  | inr hw =>
    obtain ⟨w, hw, hcw⟩ := hw
    exact h w hw c hcw

theorem clean_of_colour {t : Text} {v : ℕ}
    (h : caliLightColors.lookup (t.map fun c => if c = '_' then '-' else lower c) = some v) :
    Clean t := by
  have hkeys : ∀ k ∈ caliLightColors.map (·.1), Clean k := by decide
  intro c hc
  have hmem : (if c = '_' then '-' else lower c) ∈
      t.map fun c => if c = '_' then '-' else lower c := List.mem_map_of_mem hc
  have := hkeys _ (mem_of_lookup h) _ hmem
  by_cases hu : c = '_'
  · exact hu ▸ by decide
  · rwa [if_neg hu, lower_eq, isSep_toLower] at this

theorem clean_of_saveArgs {s : Text} {r : ℤ × Option ℕ} (hl : s.length < valueMax)
    (h : saveArgs s = some r) : Clean s := by
  have hlen : ∀ t ∈ words isWs s, t.length < valueMax := fun t ht =>
    lt_of_le_of_lt (mem_words ht).1 hl
  apply clean_of_words
  unfold saveArgs at h
  rw [copy_eq hl] at h
  rw [← tokens_eq_words] at hlen ⊢
  cases h0 : nextToken isWs s with
  | none => simp [h0] at h
  | some r0 =>
    obtain ⟨t0, r0⟩ := r0
    rw [h0] at h
    rw [tokens_of_some h0] at hlen ⊢
    dsimp only at h
    have hl0 := hlen t0 (by simp)
    cases h1 : nextToken isWs r0 with
    | none =>
      rw [h1, Option.map_eq_some_iff] at h
      obtain ⟨n, hn, -⟩ := h
      rw [tokens_of_none h1]
      intro w hw
      rw [List.mem_singleton.mp hw]
      exact clean_of_intRange hl0 hn
    | some r1 =>
      obtain ⟨t1, r1⟩ := r1
      rw [h1] at h
      dsimp only at h
      by_cases h2 : (nextToken isWs r1).isSome = true
      · rw [if_pos h2] at h
        simp at h
      · rw [if_neg h2] at h
        obtain ⟨n, hn, h⟩ := Option.bind_eq_some_iff.mp h
        obtain ⟨v, hv, -⟩ := Option.bind_eq_some_iff.mp h
        have h2' : nextToken isWs r1 = none := by simpa using h2
        rw [tokens_of_some h1, tokens_of_none h2']
        intro w hw
        cases List.mem_cons.mp hw with
        | inl hw => exact hw ▸ clean_of_intRange hl0 hn
        | inr hw => exact List.mem_singleton.mp hw ▸ clean_of_colour hv

end OpenCalifornia.Control.Firmware
