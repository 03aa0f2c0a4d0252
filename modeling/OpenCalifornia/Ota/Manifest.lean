import Mathlib
import OpenCalifornia.Lib.Bits

/-! # The manifest of an update

`value_of`, `hex_str`, `parse_manifest` and `is_running` of `ota.c`: a scan for keys in a text that
may hold anything. A C string is the list of its bytes up to the NUL. -/

namespace OpenCalifornia.Ota
open Lib Lib.Bits

/-- `CALI_OTA_SLOT_SIZE` -/
def slotSize : ℕ := 0x300000

def shaKey : List Byte := [0x73, 0x68, 0x61]
def sha256Key : List Byte := [0x73, 0x68, 0x61, 0x32, 0x35, 0x36]
def sizeKey : List Byte := [0x73, 0x69, 0x7A, 0x65]

def isBlank (c : Byte) : Bool := c = 0x20 ∨ c = 0x09 ∨ c = 0x0D ∨ c = 0x0A

/-- The rest of the loop of `value_of` behind a quote: what follows the key, its colon and blanks.
-/
def afterKey (key s : List Byte) : Option (List Byte) :=
  if (key ++ [0x22]).isPrefixOf s then
    match (s.drop (key.length + 1)).dropWhile isBlank with
    | c :: v => if c = 0x3A then some (v.dropWhile isBlank) else none
    | [] => none
  else none

def valueOf (key : List Byte) : List Byte → Option (List Byte)
  | [] => none
  | c :: s => if c = 0x22 then (afterKey key s).or (valueOf key s) else valueOf key s

def isHex (c : Byte) : Bool := (0x30 ≤ c.toNat ∧ c.toNat ≤ 0x39) ∨ (0x61 ≤ c.toNat ∧ c.toNat ≤ 0x66)

/-- `hex_str`: the digits between the quotes. -/
def hexStr (v : Option (List Byte)) (n : ℕ) : Option (List Byte) :=
  match v with
  | some (c :: s) =>
    if c = 0x22 ∧ (s.take n).all isHex ∧ (s.take n).length = n ∧ s[n]? = some 0x22 then
      some (s.take n)
    else none
  | _ => none

def isDigit (c : Byte) : Bool := 0x30 ≤ c.toNat ∧ c.toNat ≤ 0x39

def digitsVal (ds : List Byte) : ℕ := ds.foldl (fun v c => v * 10 + (c.toNat - 0x30)) 0

/-- `ULONG_MAX` of the chip -/
def ulongMax : ℕ := 2 ^ 32 - 1

/-- `strtoul` at a digit: a number that does not fit becomes the largest one. -/
def strtoul (v : List Byte) : ℕ := min (digitsVal (v.takeWhile isDigit)) ulongMax

structure Manifest where
  sha : List Byte
  sha256 : List Byte
  size : ℕ
  deriving DecidableEq, Repr

/-- `parse_manifest`, of the bytes in the buffer. -/
def parseManifest (body : List Byte) : Option Manifest :=
  let text := body.takeWhile (· ≠ 0)
  match hexStr (valueOf shaKey text) 40, hexStr (valueOf sha256Key text) 64,
    valueOf sizeKey text with
  | some sha, some sha256, some (c :: v) =>
    if c.toNat < 0x31 ∨ c.toNat > 0x39 then none
    else if strtoul (c :: v) > slotSize then none
    else some ⟨sha, sha256, strtoul (c :: v)⟩
  | _, _, _ => none

/-- `is_running`, for the version `fw` of the running build. -/
def isRunning (fw sha : List Byte) : Bool :=
  (fw.takeWhile isHex).length ≥ 7 ∧ fw.takeWhile isHex = fw ∧ fw.isPrefixOf sha

/-- The text starts with the key in quotes, a colon, and then `v`. -/
def KeyAt (key s v : List Byte) : Prop :=
  ∃ w₁ w₂, s = 0x22 :: (key ++ 0x22 :: (w₁ ++ 0x3A :: (w₂ ++ v))) ∧ (∀ c ∈ w₁, isBlank c = true) ∧
    (∀ c ∈ w₂, isBlank c = true) ∧ ∀ c, v.head? = some c → isBlank c = false

/-- `v` follows the first such key. -/
def FirstKey (key text v : List Byte) : Prop :=
  ∃ pre s, text = pre ++ s ∧ KeyAt key s v ∧
    ∀ pre' s' v', text = pre' ++ s' → pre'.length < pre.length → ¬ KeyAt key s' v'

/-- The manifest stands in the text, up to its first NUL. -/
structure Promises (body : List Byte) (m : Manifest) : Prop where
  sha : ∃ rest, FirstKey shaKey (body.takeWhile (· ≠ 0)) (0x22 :: (m.sha ++ 0x22 :: rest))
  sha_hex : m.sha.length = 40 ∧ ∀ c ∈ m.sha, isHex c = true
  sha256 : ∃ rest, FirstKey sha256Key (body.takeWhile (· ≠ 0)) (0x22 :: (m.sha256 ++ 0x22 :: rest))
  sha256_hex : m.sha256.length = 64 ∧ ∀ c ∈ m.sha256, isHex c = true
  size : ∃ ds rest, FirstKey sizeKey (body.takeWhile (· ≠ 0)) (ds ++ rest) ∧
    (∀ c ∈ ds, isDigit c = true) ∧ (∀ c, rest.head? = some c → isDigit c = false) ∧
    digitsVal ds = m.size
  size_range : 1 ≤ m.size ∧ m.size ≤ slotSize

variable {key s v : List Byte} {body : List Byte} {m : Manifest}

theorem head_dropWhile (p : Byte → Bool) (s : List Byte) (c : Byte)
    (hc : (s.dropWhile p).head? = some c) : p c = false := by
  have hnot := List.head?_dropWhile_not p s
  rw [hc] at hnot
  simpa using hnot

theorem dropWhile_split (p : Byte → Bool) (s : List Byte) : ∃ w, s = w ++ s.dropWhile p ∧
    (∀ c ∈ w, p c = true) ∧ ∀ c, (s.dropWhile p).head? = some c → p c = false :=
  ⟨s.takeWhile p, List.takeWhile_append_dropWhile.symm, fun _ hc => List.mem_takeWhile_imp hc,
    head_dropWhile p s⟩

theorem dropWhile_append_blank {w : List Byte} (hw : ∀ c ∈ w, isBlank c = true)
    (hv : ∀ c, v.head? = some c → isBlank c = false) : (w ++ v).dropWhile isBlank = v := by
  rw [List.dropWhile_append_of_pos hw]
  cases v with
  | nil => rfl
  | cons c v => exact List.dropWhile_cons_of_neg (by simp [hv c rfl])

theorem afterKey_iff : afterKey key s = some v ↔ KeyAt key (0x22 :: s) v := by
  constructor
  · intro h
    unfold afterKey at h
    split_ifs at h with hkey
    obtain ⟨t, rfl⟩ := List.isPrefixOf_iff_prefix.mp hkey
    have hlen : key.length + 1 = (key ++ [0x22]).length := by simp
    rw [hlen, List.drop_left] at h
    obtain ⟨w₁, ht, hw₁, -⟩ := dropWhile_split isBlank t
    cases hd : t.dropWhile isBlank with
    | nil =>
      rw [hd] at h
      cases h
    | cons c u =>
      rw [hd] at h ht
      dsimp only at h
      split_ifs at h with hc
      obtain ⟨w₂, hu, hw₂, hv⟩ := dropWhile_split isBlank u
      rw [Option.some.inj h] at hu hv
      exact ⟨w₁, w₂, by rw [ht, hu, hc]; simp, hw₁, hw₂, hv⟩
  · rintro ⟨w₁, w₂, hs, hw₁, hw₂, hv⟩
    have hs : s = (key ++ [0x22]) ++ (w₁ ++ 0x3A :: (w₂ ++ v)) := by
      simpa using (List.cons.inj hs).2
    have hlen : key.length + 1 = (key ++ [0x22]).length := by simp
    unfold afterKey
    rw [if_pos (List.isPrefixOf_iff_prefix.mpr ⟨_, hs.symm⟩), hs, hlen, List.drop_left,
      dropWhile_append_blank hw₁ fun c hc => by cases hc; rfl]
    dsimp only
    rw [if_pos rfl, dropWhile_append_blank hw₂ hv]

theorem firstKey_of_valueOf (h : valueOf key s = some v) : FirstKey key s v := by
  induction s with
  | nil => cases h
  | cons c s ih =>
    rw [valueOf] at h
    by_cases hhere : ∃ v', KeyAt key (c :: s) v'
    · obtain ⟨v', hv'⟩ := hhere
      obtain ⟨w₁, w₂, hs, -⟩ := id hv'
      have hc : c = 0x22 := (List.cons.inj hs).1
      subst hc
      rw [if_pos rfl, afterKey_iff.mpr hv', Option.some_or] at h
      exact ⟨[], _, rfl, Option.some.inj h ▸ hv',
        fun pre' _ _ _ hlt => absurd hlt (Nat.not_lt_zero _)⟩
    · have hrest : valueOf key s = some v := by
        split_ifs at h with hc
        · subst hc
          have hnone : afterKey key s = none := by
            by_contra hsome
            obtain ⟨v', hv'⟩ := Option.ne_none_iff_exists'.mp hsome
            exact hhere ⟨v', afterKey_iff.mp hv'⟩
          rwa [hnone, Option.none_or] at h
        · exact h
      obtain ⟨pre, t, hs, hkey, hfirst⟩ := ih hrest
      refine ⟨c :: pre, t, by rw [hs]; rfl, hkey, fun pre' s' v' hs' hlt hkey' => ?_⟩
      cases pre' with
      | nil => exact hhere ⟨v', hs' ▸ hkey'⟩
      | cons d pre' =>
        exact hfirst pre' s' v' (List.cons.inj hs').2 (Nat.lt_of_succ_lt_succ hlt) hkey'

theorem hexStr_some {o : Option (List Byte)} {n : ℕ} {ds : List Byte} (h : hexStr o n = some ds) :
    (∃ rest, o = some (0x22 :: (ds ++ 0x22 :: rest))) ∧ ds.length = n ∧
    ∀ c ∈ ds, isHex c = true := by
  unfold hexStr at h
  split at h
  · rename_i c s
    split_ifs at h with hcond
    obtain ⟨hc, hall, hlen, hend⟩ := hcond
    obtain rfl := Option.some.inj h
    obtain ⟨hn, hget⟩ := List.getElem?_eq_some_iff.mp hend
    refine ⟨⟨s.drop (n + 1), ?_⟩, hlen, List.all_eq_true.mp hall⟩
    rw [hc, ← hget, ← List.drop_eq_getElem_cons hn, List.take_append_drop]
  · cases h

theorem digitsVal_pos {c : Byte} (hc : ¬ (c.toNat < 0x31 ∨ c.toNat > 0x39)) :
    1 ≤ digitsVal ((c :: s).takeWhile isDigit) := by
  have hgrow : ∀ (ds : List Byte) (v : ℕ), 1 ≤ v →
      1 ≤ ds.foldl (fun v c => v * 10 + (c.toNat - 0x30)) v := by
    intro ds
    induction ds with
    | nil => exact fun v hv => hv
    | cons d ds ih =>
      intro v hv
      have hnext : 1 ≤ v * 10 + (d.toNat - 0x30) := by omega
      exact ih _ hnext
  have hdigit : isDigit c = true := decide_eq_true (by omega)
  rw [List.takeWhile_cons_of_pos hdigit, digitsVal, List.foldl_cons]
  have hfirst : 1 ≤ 0 * 10 + (c.toNat - 0x30) := by omega
  exact hgrow _ _ hfirst

theorem promises_of_parse (h : parseManifest body = some m) : Promises body m := by
  unfold parseManifest at h
  dsimp only at h
  split at h
  · rename_i sha sha256 c v hsha hsha256 hsize
    split_ifs at h with hlead hbig
    obtain rfl := Option.some.inj h
    obtain ⟨⟨r₁, h₁⟩, hlen₁, hhex₁⟩ := hexStr_some hsha
    obtain ⟨⟨r₂, h₂⟩, hlen₂, hhex₂⟩ := hexStr_some hsha256
    have hsmall : strtoul (c :: v) = digitsVal ((c :: v).takeWhile isDigit) := by
      unfold strtoul at hbig ⊢
      have hmax : slotSize < ulongMax := by decide
      omega
    have hkey := firstKey_of_valueOf hsize
    rw [← List.takeWhile_append_dropWhile (p := isDigit) (l := c :: v)] at hkey
    exact {
      sha := ⟨r₁, firstKey_of_valueOf h₁⟩
      sha_hex := ⟨hlen₁, hhex₁⟩
      sha256 := ⟨r₂, firstKey_of_valueOf h₂⟩
      sha256_hex := ⟨hlen₂, hhex₂⟩
      size := ⟨_, _, hkey, fun _ hc => List.mem_takeWhile_imp hc, head_dropWhile _ _, hsmall.symm⟩
      size_range := ⟨(digitsVal_pos hlead).trans_eq hsmall.symm, Nat.le_of_not_lt hbig⟩ }
  · cases h

end OpenCalifornia.Ota
