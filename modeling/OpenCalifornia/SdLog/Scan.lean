import OpenCalifornia.Json.RoundTrip
import OpenCalifornia.Lib.Buffer

/-! # Reading a segment

Both the recovery and the pager of `sdlog.c` read a segment with `fgets` into a buffer of
`CALI_SDLOG_LINE_MAX` bytes, and see of each piece what stands before its first NUL. -/

namespace OpenCalifornia.SdLog
open Lib Lib.Bits Lib.Buffer

def lineMax : ℕ := 416

def uint32Max : ℕ := 2 ^ 32 - 1

def newline : Byte := 0x0A

def seqKey : List Byte := chars "\x7b\"seq\":"

/-- At most `n` bytes, up to a newline. -/
def fgets : ℕ → List Byte → List Byte × List Byte
  | 0, s => ([], s)
  | _ + 1, [] => ([], [])
  | n + 1, c :: s => if c = newline then ([c], s) else ((fgets n s).1.cons c, (fgets n s).2)

def chunksFrom : ℕ → List Byte → List (List Byte)
  | 0, _ => []
  | _ + 1, [] => []
  | n + 1, c :: s => (fgets (lineMax - 1) (c :: s)).1 ::
      chunksFrom n (fgets (lineMax - 1) (c :: s)).2

/-- What one `fgets` after the other gives of a file. -/
def chunks (s : List Byte) : List (List Byte) := chunksFrom s.length s

/-- The string in `line`; its length is what `strlen` gives. -/
def text (chunk : List Byte) : List Byte := chunk.takeWhile (· ≠ 0)

def isSpace (c : Byte) : Bool := c = 0x20 ∨ 0x09 ≤ c.toNat ∧ c.toNat ≤ 0x0D

/-- `strtoull(s, NULL, 10)` -/
def strtoull (s : List Byte) : ℕ :=
  let t := s.dropWhile isSpace
  let u := if t.head? = some 0x2D ∨ t.head? = some 0x2B then t.tail else t
  let v := Json.ofDigits (u.takeWhile Json.isDigit)
  if 2 ^ 64 ≤ v then 2 ^ 64 - 1
  else if t.head? = some 0x2D then (2 ^ 64 - v) % 2 ^ 64
  else v

def complete (t : List Byte) : Bool := t.getLast? = some newline

/-- The number of a line that both take for a record. -/
def lineSeq (whole : Bool) (t : List Byte) : Option ℕ :=
  if complete t ∧ whole ∧ seqKey.isPrefixOf t then some (strtoull (t.drop 7)) else none

/-- A record as the pager sends it. -/
structure Entry where
  seq : ℕ
  line : List Byte
deriving DecidableEq

/-- The records in the pieces, where `whole` says whether the first piece starts a line. -/
def entries : Bool → List (List Byte) → List Entry
  | _, [] => []
  | whole, c :: cs =>
    match lineSeq whole (text c) with
    | some v => if v ≤ uint32Max then ⟨v, text c⟩ :: entries (complete (text c)) cs
        else entries (complete (text c)) cs
    | none => entries (complete (text c)) cs

def readable (s : List Byte) : List Entry := entries true (chunks s)

variable {s t l : List Byte} {n : ℕ} {whole : Bool} {cs ds : List (List Byte)}

/-- Empty, or the end of a line is its end. -/
def Closed (s : List Byte) : Prop := ∀ c, s.getLast? = some c → c = newline

theorem fgets_append (n : ℕ) (s : List Byte) : (fgets n s).1 ++ (fgets n s).2 = s := by
  induction n generalizing s with
  | zero => rfl
  | succ n ih =>
    cases s with
    | nil => rfl
    | cons c s =>
      rw [fgets]
      by_cases hc : c = newline
      · rw [if_pos hc]
        rfl
      · rw [if_neg hc, List.cons_append, ih]

theorem fgets_ne_nil (c : Byte) (s : List Byte) : (fgets (n + 1) (c :: s)).1 ≠ [] := by
  rw [fgets]
  by_cases hc : c = newline
  · rw [if_pos hc]
    exact List.cons_ne_nil _ _
  · rw [if_neg hc]
    exact List.cons_ne_nil _ _

theorem length_fgets (c : Byte) (s : List Byte) :
    (fgets (n + 1) (c :: s)).2.length < (c :: s).length := by
  have happ := congrArg List.length (fgets_append (n + 1) (c :: s))
  have hpos := List.length_pos_iff.mpr (fgets_ne_nil (n := n) c s)
  rw [List.length_append] at happ
  omega

theorem chunksFrom_congr {m : ℕ} (hn : s.length ≤ n) (hm : s.length ≤ m) :
    chunksFrom n s = chunksFrom m s := by
  induction n generalizing s m with
  | zero =>
    rw [List.length_eq_zero_iff.mp (Nat.le_zero.mp hn)]
    cases m <;> rfl
  | succ n ih =>
    cases s with
    | nil => cases m <;> rfl
    | cons c s =>
      have hlen := length_fgets (n := lineMax - 2) c s
      rw [List.length_cons] at hn hm hlen
      obtain ⟨m, rfl⟩ : ∃ k, m = k + 1 := ⟨m - 1, by omega⟩
      rw [chunksFrom, chunksFrom, ih (m := m)]
      · exact Nat.le_trans (Nat.lt_succ_iff.mp hlen) (by omega)
      · exact Nat.le_trans (Nat.lt_succ_iff.mp hlen) (by omega)

theorem chunks_cons (c : Byte) (s : List Byte) : chunks (c :: s) =
    (fgets (lineMax - 1) (c :: s)).1 :: chunks (fgets (lineMax - 1) (c :: s)).2 := by
  have hlen : (fgets (lineMax - 1) (c :: s)).2.length < (c :: s).length := length_fgets c s
  rw [List.length_cons] at hlen
  rw [chunks, List.length_cons, chunksFrom, chunks,
    chunksFrom_congr (Nat.lt_succ_iff.mp hlen) le_rfl]

theorem flatten_chunks (s : List Byte) : (chunks s).flatten = s := by
  induction hk : s.length using Nat.strong_induction_on generalizing s with
  | _ k ih =>
    cases s with
    | nil => rfl
    | cons c s =>
      rw [chunks_cons, List.flatten_cons, ih _ (hk ▸ length_fgets c s) _ rfl, fgets_append]

theorem ne_nil_of_mem_chunks (hl : l ∈ chunks s) : l ≠ [] := by
  induction hk : s.length using Nat.strong_induction_on generalizing s with
  | _ k ih =>
    cases s with
    | nil => cases hl
    | cons c s =>
      rw [chunks_cons] at hl
      cases hl with
      | head => exact fgets_ne_nil c s
      | tail _ hl => exact ih _ (hk ▸ length_fgets c s) hl rfl

theorem length_fgets_le (n : ℕ) (s : List Byte) : (fgets n s).1.length ≤ n := by
  induction n generalizing s with
  | zero => exact le_rfl
  | succ n ih =>
    cases s with
    | nil => exact Nat.zero_le _
    | cons c s =>
      rw [fgets]
      by_cases hc : c = newline
      · rw [if_pos hc]
        exact Nat.le_add_left 1 n
      · rw [if_neg hc]
        exact Nat.succ_le_succ (ih s)

theorem length_of_mem_chunks (hl : l ∈ chunks s) : l.length < lineMax := by
  induction hk : s.length using Nat.strong_induction_on generalizing s with
  | _ k ih =>
    cases s with
    | nil => cases hl
    | cons c s =>
      rw [chunks_cons] at hl
      cases hl with
      | head => exact Nat.lt_of_le_of_lt (length_fgets_le _ _) (by decide)
      | tail _ hl => exact ih _ (hk ▸ length_fgets c s) hl rfl

theorem closed_nil : Closed [] := fun _ h => by cases h

theorem Closed.tail {c : Byte} (h : Closed (c :: s)) : Closed s := by
  cases s with
  | nil => exact closed_nil
  | cons d s => exact fun e he => h e (by rwa [List.getLast?_cons_cons])

theorem closed_append (s : List Byte) : Closed (s ++ [newline]) := by
  intro c hc
  rw [List.getLast?_concat] at hc
  exact (Option.some.inj hc).symm

theorem fgets_closed (hs : Closed s) (hne : s ≠ []) (t : List Byte) :
    fgets n (s ++ t) = ((fgets n s).1, (fgets n s).2 ++ t) ∧ Closed (fgets n s).2 := by
  induction n generalizing s with
  | zero => exact ⟨rfl, hs⟩
  | succ n ih =>
    cases s with
    | nil => exact absurd rfl hne
    | cons c s =>
      rw [List.cons_append, fgets, fgets]
      by_cases hc : c = newline
      · rw [if_pos hc, if_pos hc]
        exact ⟨rfl, hs.tail⟩
      · have hne' : s ≠ [] := by
          rintro rfl
          exact hc (hs c rfl)
        obtain ⟨heq, hclosed⟩ := ih hs.tail hne'
        rw [if_neg hc, if_neg hc, heq]
        exact ⟨rfl, hclosed⟩

theorem chunks_append (hs : Closed s) (t : List Byte) : chunks (s ++ t) = chunks s ++ chunks t := by
  induction hk : s.length using Nat.strong_induction_on generalizing s with
  | _ k ih =>
    cases s with
    | nil => rfl
    | cons c s =>
      obtain ⟨heq, hclosed⟩ := fgets_closed (n := lineMax - 1) hs (List.cons_ne_nil _ _) t
      rw [List.cons_append, chunks_cons, chunks_cons, ← List.cons_append, heq,
        ih _ (hk ▸ length_fgets c s) hclosed rfl]
      rfl

theorem chunks_line (hl : newline ∉ l) (hlen : l.length + 1 < lineMax) :
    chunks (l ++ [newline]) = [l ++ [newline]] := by
  have hall : ∀ (n : ℕ) (l : List Byte), newline ∉ l → l.length < n →
      fgets n (l ++ [newline]) = (l ++ [newline], []) := by
    intro n
    induction n with
    | zero => exact fun l _ h => absurd h (Nat.not_lt_zero _)
    | succ n ih =>
      intro l hl hlen
      cases l with
      | nil => rfl
      | cons c l =>
        rw [List.mem_cons, not_or] at hl
        rw [List.cons_append, fgets, if_neg (Ne.symm hl.1),
          ih l hl.2 (by simpa using hlen)]
  obtain ⟨c, s, hcs⟩ := List.exists_cons_of_ne_nil (List.append_ne_nil_of_right_ne_nil l
    (List.cons_ne_nil newline []))
  have hfgets := hall (lineMax - 1) l hl (by omega)
  rw [hcs] at hfgets ⊢
  rw [chunks_cons, hfgets]
  rfl

/-- Whether the next piece starts a line. -/
def after (whole : Bool) (cs : List (List Byte)) : Bool :=
  cs.foldl (fun _ c => complete (text c)) whole

theorem after_append (whole : Bool) (cs ds : List (List Byte)) :
    after whole (cs ++ ds) = after (after whole cs) ds := List.foldl_append

theorem entries_append (whole : Bool) (cs ds : List (List Byte)) :
    entries whole (cs ++ ds) = entries whole cs ++ entries (after whole cs) ds := by
  induction cs generalizing whole with
  | nil => rfl
  | cons c cs ih =>
    rw [List.cons_append, entries, entries, ih]
    cases hv : lineSeq whole (text c) with
    | none => rfl
    | some v =>
      by_cases hmax : v ≤ uint32Max
      · simp only [if_pos hmax, List.cons_append]
        rfl
      · simp only [if_neg hmax]
        rfl

theorem text_eq (h : 0 ∉ l) : text l = l := by
  refine List.takeWhile_eq_self_iff.mpr fun c hc => ?_
  simpa using fun h0 : c = 0 => h (h0 ▸ hc)

/-- A line of the log. -/
def IsLine (seq : ℕ) (l : List Byte) : Prop :=
  ∃ body, l = seqKey ++ Json.decimal seq ++ 0x2C :: body ++ [newline] ∧
    (∀ c ∈ body, c ≠ 0 ∧ c ≠ newline) ∧ l.length < lineMax

theorem digit_facts {c : Byte} (h : Json.isDigit c) :
    isSpace c = false ∧ c ≠ 0x2D ∧ c ≠ 0x2B ∧ c ≠ 0 ∧ c ≠ newline := by
  rw [Json.isDigit, decide_eq_true_eq] at h
  refine ⟨?_, ?_, ?_, ?_, ?_⟩
  · rw [isSpace, decide_eq_false_iff_not]
    rintro (rfl | hc)
    · exact absurd h.1 (by decide)
    · omega
  all_goals
    rintro rfl
    exact absurd h (by decide)

theorem strtoull_decimal (hn : n < 2 ^ 64) (s : List Byte) :
    strtoull (Json.decimal n ++ 0x2C :: s) = n := by
  obtain ⟨hne, hdigits, -⟩ := Json.decimal_digits n
  have hdec := Json.ofDigits_decimal n
  obtain ⟨c, ds, hcs⟩ := List.exists_cons_of_ne_nil hne
  have hc := digit_facts (hdigits c (hcs ▸ List.mem_cons_self))
  have hskip : (Json.decimal n ++ 0x2C :: s).dropWhile isSpace = Json.decimal n ++ 0x2C :: s := by
    rw [hcs, List.cons_append, List.dropWhile_cons_of_neg (by simp [hc.1])]
  have hhead : (Json.decimal n ++ 0x2C :: s).head? = some c := by
    rw [hcs]
    rfl
  have htake : (Json.decimal n ++ 0x2C :: s).takeWhile Json.isDigit = Json.decimal n := by
    rw [takeWhile_append_cons (by decide), List.takeWhile_eq_self_iff.mpr hdigits]
  have hsign : ¬ (some c = some 0x2D ∨ some c = some 0x2B) := by
    rw [Option.some.injEq, Option.some.injEq, not_or]
    exact ⟨hc.2.1, hc.2.2.1⟩
  rw [strtoull, hskip, hhead, if_neg hsign, htake, hdec, if_neg (by omega),
    if_neg fun h => hsign (Or.inl h)]

theorem IsLine.plain {seq : ℕ} (h : IsLine seq l) :
    ∃ m, l = m ++ [newline] ∧ newline ∉ m ∧ 0 ∉ m ∧ seqKey <+: l ∧ l.length < lineMax := by
  obtain ⟨body, rfl, hbody, hlen⟩ := h
  obtain ⟨-, hdigits, -⟩ := Json.decimal_digits seq
  have hall : ∀ c ∈ seqKey ++ Json.decimal seq ++ 0x2C :: body, c ≠ 0 ∧ c ≠ newline := by
    intro c hc
    rw [List.append_assoc, List.mem_append, List.mem_append, List.mem_cons] at hc
    rcases hc with hc | hc | rfl | hc
    · exact (by decide : ∀ c ∈ seqKey, c ≠ 0 ∧ c ≠ newline) c hc
    · exact (digit_facts (hdigits c hc)).2.2.2
    · decide
    · exact hbody c hc
  refine ⟨seqKey ++ Json.decimal seq ++ 0x2C :: body, by simp, fun hc => (hall _ hc).2 rfl,
    fun hc => (hall _ hc).1 rfl, ?_, hlen⟩
  rw [List.append_assoc, List.append_assoc]
  exact List.prefix_append _ _

theorem IsLine.chunks {seq : ℕ} (h : IsLine seq l) :
    SdLog.chunks l = [l] ∧ Closed l ∧ text l = l := by
  obtain ⟨m, hm, hnl, hnul, -, hlen⟩ := h.plain
  rw [hm, List.length_append, List.length_singleton] at hlen
  refine ⟨hm ▸ chunks_line hnl hlen, hm ▸ closed_append m, text_eq fun h0 => ?_⟩
  rw [hm, List.mem_append, List.mem_singleton] at h0
  exact h0.elim hnul (by decide)

theorem IsLine.complete {seq : ℕ} (h : IsLine seq l) : SdLog.complete l = true := by
  obtain ⟨m, rfl, -⟩ := h.plain
  rw [SdLog.complete, List.getLast?_concat, decide_eq_true_eq]

theorem IsLine.lineSeq {seq : ℕ} (h : IsLine seq l) (hseq : seq < 2 ^ 64) :
    SdLog.lineSeq true l = some seq := by
  have hcomplete := h.complete
  obtain ⟨m, -, -, -, hprefix, -⟩ := h.plain
  obtain ⟨body, hl, -⟩ := h
  have hdrop : l.drop 7 = Json.decimal seq ++ 0x2C :: (body ++ [newline]) := by
    rw [hl, List.append_assoc, List.append_assoc]
    exact List.drop_left' (by decide)
  rw [SdLog.lineSeq, if_pos ⟨hcomplete, rfl, List.isPrefixOf_iff_prefix.mpr hprefix⟩, hdrop,
    strtoull_decimal hseq]

/-- Lines as the records from `n` on. -/
def numbered : ℕ → List (List Byte) → List Entry
  | _, [] => []
  | n, l :: ls => ⟨n, l⟩ :: numbered (n + 1) ls

/-- The records from `n` on, one line each. -/
def Lines : ℕ → List (List Byte) → Prop
  | _, [] => True
  | n, l :: ls => IsLine n l ∧ Lines (n + 1) ls

variable {ls : List (List Byte)}

theorem readable_line {seq : ℕ} (h : IsLine seq l) (hseq : seq ≤ uint32Max) (t : List Byte) :
    readable (l ++ t) = ⟨seq, l⟩ :: readable t := by
  obtain ⟨hchunks, hclosed, htext⟩ := h.chunks
  have hlt : seq < 2 ^ 64 := by
    rw [uint32Max] at hseq
    omega
  rw [readable, chunks_append hclosed, hchunks, List.singleton_append, entries, htext,
    h.lineSeq hlt, h.complete]
  simp only [if_pos hseq]
  rfl

theorem readable_lines (h : Lines n ls) (hmax : n + ls.length ≤ uint32Max + 1) (t : List Byte) :
    readable (ls.flatten ++ t) = numbered n ls ++ readable t := by
  induction ls generalizing n with
  | nil => rfl
  | cons l ls ih =>
    rw [List.length_cons] at hmax
    rw [List.flatten_cons, List.append_assoc, readable_line h.1 (by omega), ih h.2 (by omega)]
    rfl

theorem entries_of_incomplete (h : ∀ c ∈ cs, complete (text c) = false) :
    entries whole cs = [] := by
  induction cs generalizing whole with
  | nil => rfl
  | cons c cs ih =>
    obtain ⟨hc, hcs⟩ := List.forall_mem_cons.mp h
    rw [entries, lineSeq, if_neg fun hall => by simp [hc] at hall]
    exact ih hcs

theorem readable_torn (h : newline ∉ s) : readable s = [] := by
  refine entries_of_incomplete fun c hc => ?_
  have hsub : newline ∉ text c := fun hmem => h (by
    rw [← flatten_chunks s]
    exact List.mem_flatten_of_mem hc ((List.takeWhile_prefix _).subset hmem))
  rw [complete, decide_eq_false_iff_not]
  exact fun hlast => hsub (List.mem_of_getLast? hlast)

end OpenCalifornia.SdLog
