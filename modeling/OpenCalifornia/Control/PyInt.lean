import OpenCalifornia.Control.Coercions
import OpenCalifornia.Lib.CInt

/-! # `py_int` against `int`

Over ASCII text of any length: the two accept the same numbers and agree on them, and where the
number is past the type of the firmware's a check of a range cannot tell the difference. Python
counts the digits and refuses from its limit on; the firmware has no such limit. -/

namespace OpenCalifornia.Control.Firmware
open Lib Lib.Text
open Lib.CInt

/-- What a C string can hold of ASCII. -/
abbrev Ascii := { s : Text // ∀ c ∈ s, 0 < c.toNat ∧ c.toNat < 128 }

/-- The values that the digit loop computes: the digit, the largest number that takes it, and the
number that has taken it. -/
def loopVals (s : Text) (v : ℤ) (n : ℕ) : List Val :=
  match s with
  | [] => []
  | c :: s =>
    if c.isDigit then
      let d : ℤ := c.toNat - '0'.toNat
      i32 d :: i32 (longMax - d) :: i32 ((longMax - d) / 10) ::
        if v > (longMax - d) / 10 then loopVals s v (n + 1)
        else i32 (v * 10) :: i32 (v * 10 + d) :: loopVals s (v * 10 + d) (n + 1)
    else if c = '_' ∧ n ≠ 0 ∧ s.head?.any Char.isDigit then loopVals s v n
    else []

/-- All of them, the negated number and the counter `digits` at its end. -/
def pyIntVals (s : Text) : List Val :=
  let t := (signed (s.dropWhile isWs)).2
  loopVals t 0 0 ++ [i32 (-(digits t 0 false 0).1), i32 (digits t 0 false 0).2.2.1]

theorem loopVals_fit (s : Text) (v : ℤ) (n : ℕ) (hv : 0 ≤ v ∧ v ≤ longMax) :
    AllFit (loopVals s v n) := by
  have hM : longMax = 2147483647 := rfl
  induction s generalizing v n with
  | nil => exact allFit_nil
  | cons c s ih =>
    unfold loopVals
    by_cases hc : c.isDigit = true
    · obtain ⟨h48, h57, -⟩ := digit_lt hc
      have h0 : '0'.toNat = 48 := rfl
      rw [if_pos hc]
      simp only [allFit_cons, fits_i32]
      refine ⟨by omega, by omega, by omega, ?_⟩
      by_cases hbig : v > (longMax - (c.toNat - '0'.toNat : ℤ)) / 10
      · rw [if_pos hbig]
        exact ih v (n + 1) hv
      · rw [if_neg hbig]
        simp only [allFit_cons, fits_i32]
        exact ⟨by omega, by omega, ih _ (n + 1) (by omega)⟩
    · rw [if_neg hc]
      split
      · exact ih v n hv
      · exact allFit_nil

/-- What the digit loop leaves: a number in the type, and a counter of characters read. -/
theorem digits_bound (s : Text) (v : ℤ) (sat : Bool) (n : ℕ) (hv : 0 ≤ v ∧ v ≤ longMax) :
    (0 ≤ (digits s v sat n).1 ∧ (digits s v sat n).1 ≤ longMax) ∧
      (digits s v sat n).2.2.1 ≤ n + s.length := by
  have hM : longMax = 2147483647 := rfl
  induction s generalizing v sat n with
  | nil => exact ⟨hv, le_rfl⟩
  | cons c s ih =>
    have hlen : (c :: s).length = s.length + 1 := rfl
    unfold digits
    by_cases hc : c.isDigit = true
    · obtain ⟨h48, h57, -⟩ := digit_lt hc
      have h0 : '0'.toNat = 48 := rfl
      rw [if_pos hc]
      by_cases hbig : v > (longMax - (c.toNat - '0'.toNat : ℤ)) / 10
      · have h := ih v true (n + 1) hv
        simp only [if_pos hbig]
        exact ⟨h.1, by omega⟩
      · have h := ih (v * 10 + (c.toNat - '0'.toNat : ℤ)) sat (n + 1) (by omega)
        simp only [if_neg hbig]
        exact ⟨h.1, by omega⟩
    · rw [if_neg hc]
      split
      · have h := ih v sat n hv
        exact ⟨h.1, by omega⟩
      · exact ⟨hv, Nat.le_add_right _ _⟩

theorem pyIntVals_fit {s : Text} (hs : s.length < 2 ^ 31) : AllFit (pyIntVals s) := by
  have hM : longMax = 2147483647 := rfl
  have hdrop : (s.dropWhile isWs).length ≤ s.length := (List.dropWhile_suffix _).length_le
  have hsign := length_signed (s.dropWhile isWs)
  obtain ⟨hv, hn⟩ :=
    digits_bound (signed (s.dropWhile isWs)).2 0 false 0 ⟨le_rfl, by decide⟩
  simp only [pyIntVals, allFit_append, allFit_cons, allFit_nil, fits_i32, and_true]
  exact ⟨loopVals_fit _ _ _ ⟨le_rfl, by decide⟩, by omega, by omega⟩

theorem clamp_ge {z lo : ℤ} (hlo : longMin < lo) (hhi : lo ≤ longMax) :
    lo ≤ clamp z ↔ lo ≤ z := by
  unfold clamp
  omega

theorem clamp_le {z hi : ℤ} (hlo : longMin ≤ hi) (hhi : hi < longMax) :
    clamp z ≤ hi ↔ z ≤ hi := by
  have hM : longMax = 2147483647 := rfl
  have hm : longMin = -2147483648 := rfl
  unfold clamp
  omega

theorem clamp_of_mem {z : ℤ} (hlo : longMin ≤ z) (hhi : z ≤ longMax) : clamp z = z := by
  unfold clamp
  omega

/-- `py_int` reads `s` as `int` does. -/
structure ReadsAsPython (s : Text) : Prop where
  /-- No value wraps, the accumulator and the counter included. -/
  fits : AllFit (pyIntVals s)
  /-- The same strings are accepted. -/
  accepts : (pyInt s).isSome = (intAny s).isSome
  /-- The same number, if it is in the type. -/
  exact : ∀ z, intAny s = some z → longMin ≤ z → z ≤ longMax → pyInt s = some z
  /-- A check against two bounds, or against one of them. -/
  checks : ∀ z, intAny s = some z → ∃ n, pyInt s = some n ∧ ∀ lo hi,
    longMin < lo → lo ≤ longMax → longMin ≤ hi → hi < longMax →
      (lo ≤ n ↔ lo ≤ z) ∧ (n ≤ hi ↔ z ≤ hi) ∧ (lo ≤ n ∧ n ≤ hi ↔ lo ≤ z ∧ z ≤ hi)
  /-- `int` itself, up to its limit on the digits and past it. -/
  python : int? s = if digitCount s ≤ maxStrDigits then intAny s else none

theorem pyInt_reads (s : Ascii) (hs : s.val.length < 2 ^ 31) : ReadsAsPython s.val where
  fits := pyIntVals_fit hs
  accepts := by rw [pyInt_clamped, Option.isSome_map]
  exact z hz hlo hhi := by rw [pyInt_clamped, hz, Option.map_some, clamp_of_mem hlo hhi]
  checks z hz := by
    refine ⟨clamp z, by rw [pyInt_clamped, hz, Option.map_some], fun lo hi h₁ h₂ h₃ h₄ => ?_⟩
    have hge : lo ≤ clamp z ↔ lo ≤ z := clamp_ge h₁ h₂
    have hle : clamp z ≤ hi ↔ z ≤ hi := clamp_le h₃ h₄
    exact ⟨hge, hle, and_congr hge hle⟩
  python := int_limited s.val

theorem pyInt_reads_signed :
    ['-', '1', '_', '0', ' '].length < 2 ^ 31 ∧ ReadsAsPython ['-', '1', '_', '0', ' '] :=
  ⟨by simp, pyInt_reads ⟨['-', '1', '_', '0', ' '], by simp⟩ (by simp)⟩

theorem scanDigits_digits {s : Text} (hs : ∀ c ∈ s, c.isDigit = true) (V n : ℕ) {prev : Char}
    (h : s ≠ [] ∨ prev ≠ '_') : ∃ V', scanDigits prev s V n = some (V', n + s.length, []) := by
  induction s generalizing prev V n with
  | nil => exact ⟨V, if_neg (h.resolve_left fun h => h rfl)⟩
  | cons c s ih =>
    have hc := hs c (by simp)
    obtain ⟨V', hV⟩ := ih (fun x hx => hs x (by simp [hx])) (V * 10 + digit c) (n + 1)
      (Or.inr (digit_lt hc).2.2)
    refine ⟨V', ?_⟩
    rw [scanDigits, if_pos hc, hV, List.length_cons]
    congr 3
    omega

theorem ones_isDigit (k : ℕ) : ∀ c ∈ List.replicate k '1', c.isDigit = true := by
  intro c hc
  rw [List.eq_of_mem_replicate hc]
  decide

theorem ones_read (k : ℕ) : ∃ V, intAny (List.replicate (k + 1) '1') = some V ∧
    digitCount (List.replicate (k + 1) '1') = k + 1 := by
  have hdrop : (List.replicate (k + 1) '1').dropWhile isIntSpace = List.replicate (k + 1) '1' := by
    rw [List.replicate_succ]
    exact List.dropWhile_cons_of_neg (by decide)
  have hsign : signed (List.replicate (k + 1) '1') = (false, List.replicate (k + 1) '1') := by
    rw [List.replicate_succ]
    rfl
  obtain ⟨V, hV⟩ := @scanDigits_digits _ (ones_isDigit (k + 1)) 0 0 '_' (Or.inl (by simp))
  refine ⟨V, ?_, ?_⟩
  · rw [intAny, hdrop, hsign, intBodyAny, hV]
    rfl
  · rw [digitCount, hdrop, hsign, hV, List.length_replicate]
    exact Nat.zero_add _

/-- A number of 4301 digits: Python refuses it, the firmware takes it. -/
theorem digits_past_limit : ∃ s : Ascii,
    s.val.length = 4301 ∧ int? s.val = none ∧ (pyInt s.val).isSome = true := by
  refine ⟨⟨List.replicate 4301 '1', fun c hc => ?_⟩, List.length_replicate, ?_, ?_⟩
  · rw [List.eq_of_mem_replicate hc]
    decide
  · obtain ⟨V, -, hcount⟩ := ones_read 4300
    rw [int_limited, hcount]
    rfl
  · obtain ⟨V, hV, -⟩ := ones_read 4300
    rw [pyInt_clamped, hV]
    rfl

end OpenCalifornia.Control.Firmware
