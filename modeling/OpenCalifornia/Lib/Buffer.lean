import Mathlib
import OpenCalifornia.Lib.Bits

/-! # Arrays of bytes as C uses them

An access outside the array has no value. A string of C is read up to its NUL. -/

namespace OpenCalifornia.Lib.Buffer
open Bits

variable {b s t : List Byte} {i j n : ℕ} {c : Byte}

def chars (s : String) : List Byte := s.toList.map fun c => BitVec.ofNat 8 c.toNat

def store (b : List Byte) (i : ℕ) (c : Byte) : Option (List Byte) :=
  if i < b.length then some (b.set i c) else none

def memcpy (b : List Byte) (i : ℕ) (s : List Byte) : Option (List Byte) :=
  if i + s.length ≤ b.length then some (b.take i ++ s ++ b.drop (i + s.length)) else none

/-- `memcmp(b + i, s, |s|) == 0` -/
def memcmp (b : List Byte) (i : ℕ) (s : List Byte) : Option Bool :=
  if i + s.length ≤ b.length then some (decide ((b.drop i).take s.length = s)) else none

/-- `memchr(b + i, c, n) != NULL` -/
def memchr (b : List Byte) (i : ℕ) (c : Byte) (n : ℕ) : Option Bool :=
  if i + n ≤ b.length then some (decide (c ∈ (b.drop i).take n)) else none

def cstr (b : List Byte) (i : ℕ) : Option (List Byte) :=
  if 0 ∈ b.drop i then some ((b.drop i).takeWhile (· ≠ 0)) else none

/-- The index `strchr(b + i, c)` points to. -/
def strchr (b : List Byte) (i : ℕ) (c : Byte) : Option (Option ℕ) :=
  (cstr b i).map fun s => if c ∈ s then some (i + s.idxOf c) else none

/-- `while (i < to && p(b[i])) i++`, where `n` is what is left up to `to`. -/
def skip (p : Byte → Bool) (b : List Byte) : ℕ → ℕ → Option ℕ
  | 0, i => some i
  | n + 1, i => b[i]?.bind fun c => if p c then skip p b n (i + 1) else some i

/-- The bytes `s` stand in `b` from `i` on. -/
def At (b : List Byte) (i : ℕ) (s : List Byte) : Prop := s <+: b.drop i

@[simp] theorem at_nil : At b i [] := List.nil_prefix

theorem at_cons : At b i (c :: s) ↔ b[i]? = some c ∧ At b (i + 1) s := by
  by_cases hi : i < b.length
  · rw [At, List.drop_eq_getElem_cons hi, List.cons_prefix_cons, List.getElem?_eq_getElem hi,
      Option.some.injEq, At]
    exact and_congr_left' eq_comm
  · rw [At, List.drop_eq_nil_of_le (by omega), List.getElem?_eq_none (by omega)]
    simp

theorem at_append : At b i (s ++ t) ↔ At b i s ∧ At b (i + s.length) t := by
  induction s generalizing i with
  | nil => simp
  | cons c s ih =>
    rw [List.cons_append, at_cons, at_cons, ih, and_assoc, List.length_cons, Nat.add_right_comm,
      Nat.add_assoc]

theorem At.le (h : At b i s) (hi : i ≤ b.length) : i + s.length ≤ b.length := by
  have hlen := h.length_le
  rw [List.length_drop] at hlen
  omega

theorem At.lt (h : At b i (c :: s)) : i + s.length < b.length := by
  have hlen := h.length_le
  rw [List.length_drop, List.length_cons] at hlen
  omega

theorem At.take (h : At b i s) : (b.drop i).take s.length = s :=
  (List.prefix_iff_eq_take.mp h).symm

theorem At.drop (h : At b i s) (hn : n ≤ s.length) : At b (i + n) (s.drop n) := by
  rw [← List.take_append_drop n s, at_append, List.length_take_of_le hn] at h
  exact h.2

theorem length_dropWhile (p : Byte → Bool) (s : List Byte) :
    (s.takeWhile p).length + (s.dropWhile p).length = s.length := by
  rw [← List.length_append, List.takeWhile_append_dropWhile]

theorem At.dropWhile (h : At b i s) (p : Byte → Bool) :
    At b (i + (s.takeWhile p).length) (s.dropWhile p) := by
  rw [← List.takeWhile_append_dropWhile (p := p) (l := s)] at h
  exact (at_append.mp h).2

theorem At.of_prefix (h : At b i t) (hs : s <+: t) : At b i s := hs.trans h

theorem At.set (h : At b i s) (hj : j < i ∨ i + s.length ≤ j) : At (b.set j c) i s := by
  induction s generalizing i with
  | nil => exact at_nil
  | cons d s ih =>
    obtain ⟨hd, hs⟩ := at_cons.mp h
    rw [List.length_cons] at hj
    refine at_cons.mpr ⟨?_, ih hs (by omega)⟩
    rwa [List.getElem?_set_ne (by omega)]

theorem at_set_self (hi : i < b.length) : At (b.set i c) i [c] :=
  at_cons.mpr ⟨List.getElem?_set_self hi, at_nil⟩

/-- `b'` differs from `b` in the bytes from `lo` up to `hi` at most. -/
structure Within (b b' : List Byte) (lo hi : ℕ) : Prop where
  length : b'.length = b.length
  outside : ∀ {i s}, At b i s → i + s.length ≤ lo ∨ hi ≤ i → At b' i s

theorem Within.refl (b : List Byte) (lo hi : ℕ) : Within b b lo hi := ⟨rfl, fun h _ => h⟩

theorem Within.set (b : List Byte) (c : Byte) {lo hi : ℕ} (hlo : lo ≤ i) (hhi : i < hi) :
    Within b (b.set i c) lo hi where
  length := List.length_set
  outside h hout := h.set (by omega)

theorem Within.trans {b₁ b₂ b₃ : List Byte} {lo hi : ℕ} (h : Within b₁ b₂ lo hi)
    (h' : Within b₂ b₃ lo hi) : Within b₁ b₃ lo hi where
  length := h'.length.trans h.length
  outside hat hout := h'.outside (h.outside hat hout) hout

theorem store_eq (hi : i < b.length) : store b i c = some (b.set i c) := if_pos hi

theorem memcpy_eq (h : At b 0 s) (ht : s.length + t.length ≤ b.length) :
    ∃ b', memcpy b s.length t = some b' ∧ b'.length = b.length ∧ At b' 0 (s ++ t) := by
  have hs : b.take s.length = s := by simpa using h.take
  refine ⟨_, if_pos ht, ?_, ?_⟩
  · simp only [List.length_append, List.length_take, List.length_drop]
    omega
  · rw [hs, At, List.drop_zero]
    exact List.prefix_append _ _

theorem memcmp_eq (h : At b i s) (hi : i ≤ b.length) (ht : t.length ≤ s.length) :
    memcmp b i t = some (decide (t <+: s)) := by
  have hle := h.le hi
  have hpre : (b.drop i).take t.length = s.take t.length := by
    rw [← h.take, List.take_take, Nat.min_eq_left ht]
  rw [memcmp, if_pos (by omega), hpre, Option.some.injEq, decide_eq_decide,
    List.prefix_iff_eq_take]
  exact eq_comm

theorem memchr_eq (h : At b i s) (hi : i ≤ b.length) :
    memchr b i c s.length = some (decide (c ∈ s)) := by
  rw [memchr, if_pos (h.le hi), h.take]

theorem takeWhile_append_cons {p : Byte → Bool} (hc : p c = false) (s t : List Byte) :
    (s ++ c :: t).takeWhile p = s.takeWhile p := by
  induction s with
  | nil => simp [hc]
  | cons d s ih => rw [List.cons_append, List.takeWhile_cons, List.takeWhile_cons, ih]

theorem cstr_at (h : At b i (s ++ [0])) : cstr b i = some (s.takeWhile (· ≠ 0)) := by
  obtain ⟨rest, hrest⟩ := h
  have hmem : (0 : Byte) ∈ b.drop i := by
    rw [← hrest]
    simp
  rw [cstr, if_pos hmem, ← hrest, List.append_assoc, List.singleton_append,
    takeWhile_append_cons (by simp)]

/-- The string `s` stands at `i`, and its NUL below `hi`. -/
structure Str (b : List Byte) (i : ℕ) (s : List Byte) (hi : ℕ) : Prop where
  at_nul : At b i (s ++ [0])
  nul : 0 ∉ s
  lt : i + s.length < hi

namespace Str

variable {b' : List Byte} {lo hi : ℕ}

theorem cstr_eq (h : Str b i s hi) : cstr b i = some s := by
  rw [cstr_at h.at_nul, List.takeWhile_eq_self_iff.mpr]
  intro c hc
  simpa using fun h0 : c = 0 => h.nul (h0 ▸ hc)

theorem strchr_eq (h : Str b i (s ++ c :: t) hi) (hc : c ∉ s) :
    strchr b i c = some (some (i + s.length)) := by
  have hidx : (s ++ c :: t).idxOf c = s.length := by
    rw [List.idxOf_append, if_neg hc, List.idxOf_cons_self, Nat.zero_add]
  rw [strchr, h.cstr_eq, Option.map_some, if_pos (by simp), hidx]

theorem strchr_none (h : Str b i s hi) (hc : c ∉ s) : strchr b i c = some none := by
  rw [strchr, h.cstr_eq, Option.map_some, if_neg hc]

theorem rest (h : Str b i (s ++ c :: t) hi) : Str b (i + s.length + 1) t hi where
  at_nul := by
    have hat := h.at_nul
    rw [List.append_assoc, at_append, List.cons_append, at_cons] at hat
    exact hat.2.2
  nul hmem := h.nul (List.mem_append_right _ (List.mem_cons_of_mem _ hmem))
  lt := by
    have hlt := h.lt
    rw [List.length_append, List.length_cons] at hlt
    omega

theorem set (h : Str b i s hi) (hj : j < i ∨ i + s.length < j) : Str (b.set j c) i s hi where
  at_nul := h.at_nul.set (by
    rw [List.length_append, List.length_singleton]
    omega)
  nul := h.nul
  lt := h.lt

theorem cut (h : Str b i (s ++ c :: t) hi) :
    Str (b.set (i + s.length) 0) i s hi ∧ Str (b.set (i + s.length) 0) (i + s.length + 1) t hi := by
  have hat := h.at_nul
  rw [List.append_assoc, at_append] at hat
  have hlt := h.lt
  rw [List.length_append, List.length_cons] at hlt
  have hin := hat.2.lt
  have hs : Str (b.set (i + s.length) 0) i s hi :=
    ⟨at_append.mpr ⟨hat.1.set (Or.inr le_rfl), at_set_self (by omega)⟩,
      fun hmem => h.nul (List.mem_append_left _ hmem), by omega⟩
  exact ⟨hs, h.rest.set (Or.inl (by omega))⟩

end Str

theorem skip_eq (p : Byte → Bool) (h : At b i s) :
    skip p b s.length i = some (i + (s.takeWhile p).length) := by
  induction s generalizing i with
  | nil => rfl
  | cons c s ih =>
    obtain ⟨hc, hs⟩ := at_cons.mp h
    rw [List.length_cons, skip, hc, Option.bind_some, List.takeWhile_cons, ih hs]
    by_cases hp : p c
    · simp only [hp, if_true, List.length_cons, Option.some.injEq]
      omega
    · simp [hp]

end OpenCalifornia.Lib.Buffer
