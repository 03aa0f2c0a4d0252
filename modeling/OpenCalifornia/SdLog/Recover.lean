import OpenCalifornia.SdLog.Logger

/-! # Recovery

What `recover` makes of the bytes of a segment, line by line. It measures each piece with `strlen`,
so a NUL makes it lose count. -/

namespace OpenCalifornia.SdLog
open Lib Lib.Bits Lib.Buffer

/-- The lines of a file, each with its newline; the last one may lack it. -/
def pieces : List Byte → List (List Byte)
  | [] => []
  | c :: s =>
    if c = newline then [c] :: pieces s
    else
      match pieces s with
      | [] => [[c]]
      | l :: ls => (c :: l) :: ls

def number (l : List Byte) : ℕ := strtoull (l.drop 7)

/-- A complete record of the segment `first`. -/
def IsRecord (first : ℕ) (l : List Byte) : Prop :=
  l.getLast? = some newline ∧ 0 ∉ l ∧ l.length < lineMax ∧ seqKey <+: l ∧
    first ≤ number l ∧ number l < uint32Max

instance (first : ℕ) (l : List Byte) : Decidable (IsRecord first l) :=
  inferInstanceAs (Decidable (_ ∧ _))

/-- How much of a line `strlen` counts. -/
def seen (l : List Byte) : ℕ := ((chunks l).map fun c => (text c).length).sum

/-- `recover` on one line. -/
def recoverLine (first : ℕ) (r : Recovery) (l : List Byte) : Recovery where
  good := if r.whole ∧ IsRecord first l then r.pos + l.length else r.good
  pos := r.pos + seen l
  next := if r.whole ∧ IsRecord first l then number l + 1 else r.next
  whole := after r.whole (chunks l)

variable {s t l m : List Byte} {ls : List (List Byte)} {first n : ℕ} {r : Recovery}

theorem flatten_pieces (s : List Byte) : (pieces s).flatten = s := by
  induction s with
  | nil => rfl
  | cons c s ih =>
    rw [pieces]
    split_ifs with hc
    · rw [List.flatten_cons, ih]
      rfl
    · cases hp : pieces s with
      | nil =>
        rw [hp] at ih
        rw [← ih]
        rfl
      | cons l ls =>
        rw [hp] at ih
        rw [← ih]
        rfl

/-- A newline stands at the end of a line only. -/
def Single (l : List Byte) : Prop := newline ∉ l.dropLast

theorem pieces_line (hm : newline ∉ m) (s : List Byte) :
    pieces (m ++ newline :: s) = (m ++ [newline]) :: pieces s := by
  induction m with
  | nil => exact if_pos rfl
  | cons c m ih =>
    rw [List.mem_cons, not_or] at hm
    rw [List.cons_append, pieces, if_neg (Ne.symm hm.1), ih hm.2]
    rfl

theorem pieces_torn (hm : newline ∉ m) (hne : m ≠ []) : pieces m = [m] := by
  induction m with
  | nil => exact absurd rfl hne
  | cons c m ih =>
    rw [List.mem_cons, not_or] at hm
    rw [pieces, if_neg (Ne.symm hm.1)]
    cases m with
    | nil => rfl
    | cons d m => rw [ih hm.2 (List.cons_ne_nil _ _)]

theorem text_cases (s : List Byte) :
    s = [] ∨ newline ∉ s ∧ s ≠ [] ∨ ∃ m u, newline ∉ m ∧ s = m ++ newline :: u := by
  induction s with
  | nil => exact Or.inl rfl
  | cons c s ih =>
    right
    by_cases hc : c = newline
    · exact Or.inr ⟨[], s, List.not_mem_nil, by rw [hc]; rfl⟩
    · rcases ih with rfl | ⟨hs, -⟩ | ⟨m, u, hm, rfl⟩
      · exact Or.inl ⟨by simpa using Ne.symm hc, List.cons_ne_nil _ _⟩
      · exact Or.inl ⟨by simpa using ⟨Ne.symm hc, hs⟩, List.cons_ne_nil _ _⟩
      · exact Or.inr ⟨c :: m, u, by simpa using ⟨Ne.symm hc, hm⟩, rfl⟩

theorem pieces_induction {P : List Byte → Prop} (s : List Byte) (nil : P [])
    (torn : ∀ m, newline ∉ m → m ≠ [] → P m)
    (line : ∀ m u, newline ∉ m → P u → P (m ++ newline :: u)) : P s := by
  induction hk : s.length using Nat.strong_induction_on generalizing s with
  | _ k ih =>
    rcases text_cases s with rfl | ⟨hs, hne⟩ | ⟨m, u, hm, rfl⟩
    · exact nil
    · exact torn s hs hne
    · exact line m u hm (ih u.length (by simp at hk; omega) u rfl)

theorem single_line (hm : newline ∉ m) : Single (m ++ [newline]) := by
  rwa [Single, List.dropLast_concat]

theorem single_torn (hm : newline ∉ m) : Single m := fun h => hm (List.mem_of_mem_dropLast h)

theorem single_of_mem_pieces (hl : l ∈ pieces s) : Single l := by
  induction s using pieces_induction with
  | nil => cases hl
  | torn m hm hne =>
    rw [pieces_torn hm hne, List.mem_singleton] at hl
    exact hl ▸ single_torn hm
  | line m u hm ih =>
    rw [pieces_line hm] at hl
    cases hl with
    | head => exact single_line hm
    | tail _ hl => exact ih hl

theorem chunks_pieces (s : List Byte) : chunks s = (pieces s).flatMap chunks := by
  induction s using pieces_induction with
  | nil => rfl
  | torn m hm hne => rw [pieces_torn hm hne, List.flatMap_singleton]
  | line m u hm ih =>
    have hsplit : m ++ newline :: u = (m ++ [newline]) ++ u := by simp
    rw [pieces_line hm, List.flatMap_cons, ← ih, hsplit, chunks_append (closed_append m)]

/-- A piece that is not the last of its line has no newline, and fills the buffer. -/
theorem fgets_rest (hs : newline ∉ (fgets n s).1) (hne : (fgets n s).2 ≠ []) :
    (fgets n s).1.length = n := by
  induction n generalizing s with
  | zero => rfl
  | succ n ih =>
    cases s with
    | nil => exact absurd rfl hne
    | cons c s =>
      rw [fgets] at hs hne ⊢
      by_cases hc : c = newline
      · rw [if_pos hc] at hs
        exact absurd (by rw [hc]; exact List.mem_cons_self) hs
      · rw [if_neg hc] at hs hne ⊢
        rw [List.length_cons, ih (fun h => hs (List.mem_cons_of_mem _ h)) hne]

theorem Single.parts (h : Single s) (hne : (fgets n s).2 ≠ []) :
    newline ∉ (fgets n s).1 ∧ Single (fgets n s).2 := by
  have happ := fgets_append n s
  rw [Single, ← happ, List.dropLast_append_of_ne_nil hne, List.mem_append, not_or] at h
  exact h

theorem incomplete (hs : newline ∉ s) : complete (text s) = false := by
  rw [complete, decide_eq_false_iff_not]
  exact fun h => hs ((List.takeWhile_prefix _).subset (List.mem_of_getLast? h))

theorem recoverChunk_none (h : lineSeq r.whole (text l) = none) : recoverChunk first r l =
    ⟨r.good, r.pos + (text l).length, r.next, complete (text l)⟩ := by
  rw [recoverChunk, h]

theorem seen_cons (c : Byte) (s : List Byte) : seen (c :: s) =
    (text (fgets (lineMax - 1) (c :: s)).1).length + seen (fgets (lineMax - 1) (c :: s)).2 := by
  rw [seen, chunks_cons, List.map_cons, List.sum_cons, seen]

theorem after_cons (whole : Bool) (c : List Byte) (cs : List (List Byte)) :
    after whole (c :: cs) = after (complete (text c)) cs := rfl

theorem recover_rest (hs : Single s) (hr : r.whole = false) :
    (chunks s).foldl (recoverChunk first) r =
      ⟨r.good, r.pos + seen s, r.next, after false (chunks s)⟩ := by
  induction hk : s.length using Nat.strong_induction_on generalizing s r with
  | _ k ih =>
    cases s with
    | nil => rw [← hr]; rfl
    | cons c s =>
      have hnone : lineSeq r.whole (text (fgets (lineMax - 1) (c :: s)).1) = none := by
        rw [lineSeq, hr, if_neg fun h => by simp at h]
      rw [seen_cons, chunks_cons, List.foldl_cons, recoverChunk_none hnone]
      by_cases hrest : (fgets (lineMax - 1) (c :: s)).2 = []
      · rw [hrest]
        rfl
      · obtain ⟨hpart, hsingle⟩ := hs.parts hrest
        rw [ih _ (hk ▸ length_fgets c s) hsingle (incomplete hpart) rfl, Nat.add_assoc, after_cons,
          incomplete hpart]

theorem text_of_complete (hs : Single s) (h : complete (text s) = true) : text s = s := by
  rw [complete, decide_eq_true_eq] at h
  have hmem := List.mem_of_getLast? h
  obtain ⟨u, hu⟩ := List.takeWhile_prefix (l := s) (· ≠ (0 : Byte))
  by_cases hnil : u = []
  · rw [hnil, List.append_nil] at hu
    exact hu
  · rw [Single, ← hu, List.dropLast_append_of_ne_nil hnil] at hs
    exact absurd (List.mem_append_left _ hmem) hs

theorem IsRecord.text (h : IsRecord first l) : SdLog.text l = l := text_eq h.2.1

theorem recover_piece (hs : Single l) (hlen : l.length < lineMax) (r : Recovery) :
    recoverChunk first r l =
      ⟨if r.whole ∧ IsRecord first l then r.pos + l.length else r.good, r.pos + (text l).length,
        if r.whole ∧ IsRecord first l then number l + 1 else r.next, complete (text l)⟩ := by
  cases hv : lineSeq r.whole (text l) with
  | none =>
    have hnot : ¬ (r.whole ∧ IsRecord first l) := by
      rintro ⟨hwhole, hrec⟩
      have hcomplete : complete l = true := by simpa [complete] using hrec.1
      rw [hrec.text, lineSeq, if_pos ⟨hcomplete, hwhole,
        List.isPrefixOf_iff_prefix.mpr hrec.2.2.2.1⟩]
        at hv
      cases hv
    rw [recoverChunk_none hv, if_neg hnot, if_neg hnot]
  | some v =>
    have hcond := hv
    rw [lineSeq] at hcond
    split_ifs at hcond with hall
    obtain ⟨hcomplete, hwhole, hprefix⟩ := hall
    have htext := text_of_complete hs hcomplete
    rw [htext] at hcomplete hprefix hcond
    have hnumber : number l = v := Option.some.inj hcond
    have hnul : 0 ∉ l := fun h0 => by
      rw [← htext] at h0
      exact absurd (List.mem_takeWhile_imp h0) (by decide)
    have hiff : (r.whole ∧ IsRecord first l) ↔ first ≤ v ∧ v < uint32Max := by
      rw [← hnumber]
      constructor
      · exact fun h => h.2.2.2.2.2
      · exact fun h => ⟨hwhole, by simpa [complete] using hcomplete, hnul, hlen,
          List.isPrefixOf_iff_prefix.mp hprefix, h⟩
    rw [recoverChunk, hv]
    simp only [hiff]
    rw [htext, hnumber]
    by_cases hrange : first ≤ v ∧ v < uint32Max
    · simp only [if_pos hrange]
    · simp only [if_neg hrange]

theorem recover_line (hs : Single s) (r : Recovery) :
    (chunks s).foldl (recoverChunk first) r = recoverLine first r s := by
  cases s with
  | nil =>
    have hnot : ¬ (r.whole ∧ IsRecord first []) := fun h => by cases h.2.1
    rw [recoverLine, if_neg hnot, if_neg hnot]
    rfl
  | cons c s =>
    have happ := fgets_append (lineMax - 1) (c :: s)
    have hseen := seen_cons c s
    by_cases hrest : (fgets (lineMax - 1) (c :: s)).2 = []
    · rw [hrest, List.append_nil] at happ
      have hlen : (c :: s).length < lineMax := by
        have hle := length_fgets_le (lineMax - 1) (c :: s)
        rw [happ] at hle
        exact Nat.lt_of_le_of_lt hle (by decide)
      have hchunks : chunks (c :: s) = [c :: s] := by
        rw [chunks_cons, hrest, happ]
        rfl
      rw [hrest, happ] at hseen
      rw [hchunks, List.foldl_cons, List.foldl_nil, recover_piece hs hlen, recoverLine,
        hseen, hchunks]
      rfl
    · obtain ⟨hpart, hsingle⟩ := hs.parts hrest
      have hlong : ¬ (c :: s).length < lineMax := by
        have hlen := congrArg List.length happ
        have hpos := List.length_pos_iff.mpr hrest
        rw [List.length_append, fgets_rest hpart hrest] at hlen
        have hmax : 0 < lineMax := by decide
        omega
      have hnot : ¬ (r.whole ∧ IsRecord first (c :: s)) := fun h => hlong h.2.2.2.1
      have hnone : lineSeq r.whole (text (fgets (lineMax - 1) (c :: s)).1) = none := by
        rw [lineSeq, incomplete hpart, if_neg fun h => by simp at h]
      rw [chunks_cons, List.foldl_cons, recoverChunk_none hnone, incomplete hpart,
        recover_rest hsingle rfl, recoverLine, if_neg hnot, if_neg hnot, hseen, chunks_cons,
        after_cons, incomplete hpart, Nat.add_assoc]

theorem recover_eq (first : ℕ) (s : List Byte) :
    recover first s = (pieces s).foldl (recoverLine first) { next := first } := by
  have hall : ∀ (ls : List (List Byte)) (r : Recovery), (∀ l ∈ ls, Single l) →
      (ls.flatMap chunks).foldl (recoverChunk first) r = ls.foldl (recoverLine first) r := by
    intro ls
    induction ls with
    | nil => exact fun r _ => rfl
    | cons l ls ih =>
      intro r h
      obtain ⟨hl, hls⟩ := List.forall_mem_cons.mp h
      rw [List.flatMap_cons, List.foldl_append, recover_line hl, List.foldl_cons, ih _ hls]
  rw [recover, chunks_pieces, hall _ _ fun l hl => single_of_mem_pieces hl]

theorem length_text_le (l : List Byte) : (text l).length ≤ l.length :=
  (List.takeWhile_prefix _).length_le

theorem sum_facts {f : List Byte → ℕ} (hf : ∀ l, f l ≤ l.length ∧ (f l = l.length ↔ 0 ∉ l))
    (ls : List (List Byte)) : (ls.map f).sum ≤ ls.flatten.length ∧
      ((ls.map f).sum = ls.flatten.length ↔ 0 ∉ ls.flatten) := by
  induction ls with
  | nil => exact ⟨le_rfl, by simp⟩
  | cons l ls ih =>
    have hl := hf l
    rw [List.map_cons, List.sum_cons, List.flatten_cons, List.length_append, List.mem_append,
      not_or, ← hl.2, ← ih.2]
    omega

theorem seen_facts (s : List Byte) : seen s ≤ s.length ∧ (seen s = s.length ↔ 0 ∉ s) := by
  have htext : ∀ l, (text l).length ≤ l.length ∧ ((text l).length = l.length ↔ 0 ∉ l) := by
    refine fun l => ⟨length_text_le l, fun h h0 => ?_, fun h => by rw [text_eq h]⟩
    have heq : text l = l := (List.takeWhile_prefix _).eq_of_length h
    rw [← heq] at h0
    exact absurd (List.mem_takeWhile_imp h0) (by decide)
  have hfacts := sum_facts htext (chunks s)
  rwa [flatten_chunks] at hfacts

theorem recoverLine_mono (first : ℕ) (r : Recovery) (ls : List (List Byte)) (h : r.good ≤ r.pos) :
    (ls.foldl (recoverLine first) r).good ≤ (ls.foldl (recoverLine first) r).pos ∧
      (ls.foldl (recoverLine first) r).pos = r.pos + (ls.map seen).sum ∧
      (ls.foldl (recoverLine first) r).whole = after r.whole (ls.flatMap chunks) := by
  induction ls generalizing r with
  | nil => exact ⟨h, rfl, rfl⟩
  | cons l ls ih =>
    have hstep : (recoverLine first r l).good ≤ (recoverLine first r l).pos := by
      rw [recoverLine]
      dsimp only
      split_ifs with hrec
      · have hall := (seen_facts l).2.mpr hrec.2.2.1
        omega
      · omega
    obtain ⟨hle, hpos, hwhole⟩ := ih _ hstep
    rw [List.foldl_cons]
    refine ⟨hle, ?_, ?_⟩
    · rw [hpos, List.map_cons, List.sum_cons, ← Nat.add_assoc]
      rfl
    · rw [hwhole, List.flatMap_cons, after_append]
      rfl

theorem recoverLine_none (r : Recovery) (h : ∀ l ∈ ls, ¬ IsRecord first l) :
    (ls.foldl (recoverLine first) r).good = r.good ∧
      (ls.foldl (recoverLine first) r).next = r.next := by
  induction ls generalizing r with
  | nil => exact ⟨rfl, rfl⟩
  | cons l ls ih =>
    obtain ⟨hl, hls⟩ := List.forall_mem_cons.mp h
    obtain ⟨hgood, hnext⟩ := ih (recoverLine first r l) hls
    rw [List.foldl_cons, hgood, hnext, recoverLine]
    simp [hl]

/-- `l` is the last record, between `ls` and `rest`. -/
structure Last (first : ℕ) (bytes : List Byte) (ls : List (List Byte)) (l : List Byte)
    (rest : List (List Byte)) : Prop where
  split : pieces bytes = ls ++ l :: rest
  record : IsRecord first l
  none : ∀ m ∈ rest, ¬ IsRecord first m

/-- The segment ends behind its last complete record, all before it is there, and the next number
is one above. -/
def Recovered (first : ℕ) (bytes kept : List Byte) (next : ℕ) : Prop :=
  (∃ ls l rest, Last first bytes ls l rest ∧ kept = (ls ++ [l]).flatten ∧ next = number l + 1) ∨
    (∀ l ∈ pieces bytes, ¬ IsRecord first l) ∧ kept = [] ∧ next = first

/-- The bytes that recovery leaves. -/
def kept (first : ℕ) (bytes : List Byte) : List Byte :=
  if (recover first bytes).good < (recover first bytes).pos then
    bytes.take (recover first bytes).good
  else bytes

/-- Nothing stands behind the last record, and the line before it ends without a NUL in its last
piece; or there is no NUL up to the last record, and behind it some piece that does not begin with
one. -/
def Measured (first : ℕ) (bytes : List Byte) : Prop :=
  (∃ ls l rest, Last first bytes ls l rest ∧
    (rest = [] ∧ after true (ls.flatMap chunks) = true ∨
      0 ∉ ls.flatten ∧ ∃ m ∈ rest, 0 < seen m)) ∨
    (∀ l ∈ pieces bytes, ¬ IsRecord first l) ∧ (bytes = [] ∨ ∃ m ∈ pieces bytes, 0 < seen m)

variable {bytes : List Byte} {rest : List (List Byte)}

theorem exists_last (first : ℕ) (bytes : List Byte) :
    (∀ l ∈ pieces bytes, ¬ IsRecord first l) ∨ ∃ ls l rest, Last first bytes ls l rest := by
  have hall : ∀ ps : List (List Byte), (∀ l ∈ ps, ¬ IsRecord first l) ∨
      ∃ ls l rest, ps = ls ++ l :: rest ∧ IsRecord first l ∧ ∀ m ∈ rest, ¬ IsRecord first m := by
    intro ps
    induction ps with
    | nil => exact Or.inl fun l hl => by cases hl
    | cons p ps ih =>
      rcases ih with hnone | ⟨ls, l, rest, hps, hl, hrest⟩
      · by_cases hp : IsRecord first p
        · exact Or.inr ⟨[], p, ps, rfl, hp, hnone⟩
        · exact Or.inl (List.forall_mem_cons.mpr ⟨hp, hnone⟩)
      · exact Or.inr ⟨p :: ls, l, rest, by rw [hps]; rfl, hl, hrest⟩
  rcases hall (pieces bytes) with hnone | ⟨ls, l, rest, hps, hl, hrest⟩
  · exact Or.inl hnone
  · exact Or.inr ⟨ls, l, rest, hps, hl, hrest⟩

theorem Last.unique {ls' rest' : List (List Byte)} {l' : List Byte} (h : Last first bytes ls l rest)
    (h' : Last first bytes ls' l' rest') : ls = ls' ∧ l = l' ∧ rest = rest' := by
  have heq := h.split.symm.trans h'.split
  rcases List.append_eq_append_iff.mp heq with ⟨mid, hls', hmid⟩ | ⟨mid, hls, hmid⟩
  · cases mid with
    | nil => simp_all
    | cons m mid =>
      obtain ⟨-, hrest⟩ := List.cons.inj hmid
      exact absurd h'.record (h.none l' (by rw [hrest]; simp))
  · cases mid with
    | nil => simp_all
    | cons m mid =>
      obtain ⟨-, hrest⟩ := List.cons.inj hmid
      exact absurd h.record (h'.none l (by rw [hrest]; simp))

theorem Last.recover (h : Last first bytes ls l rest) :
    (recover first bytes).pos = (ls.map seen).sum + l.length + (rest.map seen).sum ∧
      (if after true (ls.flatMap chunks) = true
        then (recover first bytes).good = (ls.map seen).sum + l.length ∧
          (recover first bytes).next = number l + 1
        else (recover first bytes).good ≤ (ls.map seen).sum) := by
  have hseen : seen l = l.length := (seen_facts l).2.mpr h.record.2.1
  rw [recover_eq, h.split, List.foldl_append, List.foldl_cons]
  obtain ⟨hle, hpos, hwhole⟩ := recoverLine_mono first { next := first } ls le_rfl
  generalize ls.foldl (recoverLine first) { next := first } = r at hle hpos hwhole
  obtain ⟨hgood, hnext⟩ := recoverLine_none (recoverLine first r l) h.none
  have hle' : (recoverLine first r l).good ≤ (recoverLine first r l).pos := by
    rw [recoverLine]
    dsimp only
    split_ifs <;> omega
  obtain ⟨-, hpos', -⟩ := recoverLine_mono first (recoverLine first r l) rest hle'
  have hstep : (recoverLine first r l).pos = (ls.map seen).sum + l.length := by
    rw [recoverLine]
    dsimp only at hpos ⊢
    omega
  refine ⟨by rw [hpos', hstep], ?_⟩
  rw [hgood, hnext, ← hwhole]
  split_ifs with hw
  · rw [recoverLine, if_pos ⟨hw, h.record⟩, if_pos ⟨hw, h.record⟩]
    dsimp only at hpos ⊢
    exact ⟨by omega, rfl⟩
  · rw [recoverLine, if_neg fun hand => hw hand.1]
    dsimp only at hpos ⊢
    omega

theorem ends_of_pieces (h : pieces bytes = ls ++ l :: rest) :
    ∀ m ∈ ls, m.getLast? = some newline := by
  have hall : ∀ s, ∀ m ∈ (pieces s).dropLast, m.getLast? = some newline := by
    intro s
    induction s using pieces_induction with
    | nil => exact fun m hm => by cases hm
    | torn m hm hne =>
      rw [pieces_torn hm hne]
      exact fun m hm => by cases hm
    | line m u hm ih =>
      rw [pieces_line hm]
      intro m' hm'
      cases hu : pieces u with
      | nil =>
        rw [hu] at hm'
        cases hm'
      | cons p ps =>
        rw [hu, List.dropLast_cons_of_ne_nil (List.cons_ne_nil _ _)] at hm'
        cases hm' with
        | head => exact List.getLast?_concat
        | tail _ hm' => exact ih m' (hu ▸ hm')
  intro m hm
  refine hall bytes m ?_
  rw [h, List.dropLast_append_of_ne_nil (List.cons_ne_nil _ _)]
  exact List.mem_append_left _ hm

theorem after_clean (hend : ∀ m ∈ ls, m.getLast? = some newline) (hnul : 0 ∉ ls.flatten) :
    after true (ls.flatMap chunks) = true := by
  induction ls with
  | nil => rfl
  | cons m ls ih =>
    obtain ⟨hm, hls⟩ := List.forall_mem_cons.mp hend
    rw [List.flatten_cons, List.mem_append, not_or] at hnul
    have hne : chunks m ≠ [] := by
      intro h
      have hflat := flatten_chunks m
      rw [h, List.flatten_nil] at hflat
      rw [← hflat] at hm
      cases hm
    have hlast : complete (text ((chunks m).getLast hne)) = true := by
      have hc := List.getLast_mem hne
      have hflat := flatten_chunks m
      rw [← List.dropLast_append_getLast hne, List.flatten_append, List.flatten_singleton] at hflat
      have hnul' : 0 ∉ (chunks m).getLast hne := fun h0 => hnul.1 (by
        rw [← hflat]
        exact List.mem_append_right _ h0)
      rw [← hflat, List.getLast?_append_of_ne_nil _ (ne_nil_of_mem_chunks hc)] at hm
      rw [text_eq hnul', complete, hm]
      decide
    rw [List.flatMap_cons, after_append, ← ih hls hnul.2]
    congr 1
    rw [← List.dropLast_append_getLast hne, after_append]
    exact hlast

theorem exists_seen (ls : List (List Byte)) : 0 < (ls.map seen).sum ↔ ∃ m ∈ ls, 0 < seen m := by
  induction ls with
  | nil => simp
  | cons m ls ih =>
    have hor : (∃ x ∈ m :: ls, 0 < seen x) ↔ 0 < seen m ∨ ∃ x ∈ ls, 0 < seen x := by simp
    rw [List.map_cons, List.sum_cons, hor, ← ih]
    omega

theorem ne_nil_of_mem_pieces (hl : l ∈ pieces s) : l ≠ [] := by
  induction s using pieces_induction with
  | nil => cases hl
  | torn m hm hne =>
    rw [pieces_torn hm hne, List.mem_singleton] at hl
    exact hl ▸ hne
  | line m u hm ih =>
    rw [pieces_line hm] at hl
    cases hl with
    | head => exact List.append_ne_nil_of_right_ne_nil _ (List.cons_ne_nil _ _)
    | tail _ hl => exact ih hl

theorem recovered_iff (first : ℕ) (bytes : List Byte) :
    Recovered first bytes (kept first bytes) (recover first bytes).next ↔ Measured first bytes := by
  rcases exists_last first bytes with hnone | ⟨ls, l, rest, hlast⟩
  · have hno : ¬ ∃ ls l rest, Last first bytes ls l rest := by
      rintro ⟨ls, l, rest, h⟩
      exact hnone l (by rw [h.split]; simp) h.record
    obtain ⟨hgood, hnext⟩ := recoverLine_none { next := first } hnone
    obtain ⟨-, hpos, -⟩ := recoverLine_mono first { next := first } (pieces bytes) le_rfl
    rw [← recover_eq] at hgood hnext hpos
    dsimp only at hgood hnext hpos
    have hiff : kept first bytes = [] ↔ bytes = [] ∨ ∃ m ∈ pieces bytes, 0 < seen m := by
      rw [kept, hgood, ← exists_seen, hpos, Nat.zero_add, List.take_zero]
      split_ifs with hlt
      · exact ⟨fun _ => Or.inr hlt, fun _ => rfl⟩
      · exact ⟨Or.inl, fun h => h.resolve_right hlt⟩
    constructor
    · rintro (⟨ls, l, rest, h, -⟩ | ⟨-, hk, -⟩)
      · exact absurd ⟨ls, l, rest, h⟩ hno
      · exact Or.inr ⟨hnone, hiff.mp hk⟩
    · rintro (⟨ls, l, rest, h, -⟩ | ⟨-, hk⟩)
      · exact absurd ⟨ls, l, rest, h⟩ hno
      · exact Or.inr ⟨hnone, hiff.mpr hk, hnext⟩
  · have hbytes : bytes = (ls ++ [l]).flatten ++ rest.flatten := by
      rw [← flatten_pieces bytes, hlast.split]
      simp
    have hsome : ¬ ∀ m ∈ pieces bytes, ¬ IsRecord first m := fun h =>
      h l (by rw [hlast.split]; simp) hlast.record
    have hlpos := List.length_pos_iff.mpr (ne_nil_of_mem_pieces (s := bytes) (l := l)
      (by rw [hlast.split]; simp))
    have hA : (ls ++ [l]).flatten.length = ls.flatten.length + l.length := by simp
    obtain ⟨hsum, hclean⟩ := sum_facts seen_facts ls
    obtain ⟨hpos, hrun⟩ := hlast.recover
    have hkept : Recovered first bytes (kept first bytes) (recover first bytes).next ↔
        kept first bytes = (ls ++ [l]).flatten ∧ (recover first bytes).next = number l + 1 := by
      constructor
      · rintro (⟨ls', l', rest', h, hk, hn⟩ | ⟨h, -⟩)
        · obtain ⟨rfl, rfl, rfl⟩ := hlast.unique h
          exact ⟨hk, hn⟩
        · exact absurd h hsome
      · exact fun h => Or.inl ⟨ls, l, rest, hlast, h⟩
    have hmeasured : Measured first bytes ↔ rest = [] ∧ after true (ls.flatMap chunks) = true ∨
        0 ∉ ls.flatten ∧ ∃ m ∈ rest, 0 < seen m := by
      constructor
      · rintro (⟨ls', l', rest', h, hm⟩ | ⟨h, -⟩)
        · obtain ⟨rfl, rfl, rfl⟩ := hlast.unique h
          exact hm
        · exact absurd h hsome
      · exact fun h => Or.inl ⟨ls, l, rest, hlast, h⟩
    rw [hkept, hmeasured, kept, hpos, ← exists_seen]
    by_cases hw : after true (ls.flatMap chunks) = true
    · rw [if_pos hw] at hrun
      obtain ⟨hgood, hnext⟩ := hrun
      rw [hgood, hnext, and_iff_left rfl, and_iff_left hw]
      by_cases hrest : rest = []
      · rw [if_neg (by rw [hrest]; simp)]
        exact ⟨fun _ => Or.inl hrest, fun _ => by rw [hbytes, hrest]; simp⟩
      · have htail : 0 < rest.flatten.length := by
          obtain ⟨m, rest', rfl⟩ := List.exists_cons_of_ne_nil hrest
          have hm := List.length_pos_iff.mpr (ne_nil_of_mem_pieces (s := bytes) (l := m)
            (by rw [hlast.split]; simp))
          rw [List.flatten_cons, List.length_append]
          omega
        have hblen := congrArg List.length hbytes
        rw [List.length_append, hA] at hblen
        rw [or_iff_right hrest, ← hclean]
        split_ifs with hlt
        · constructor
          · intro htake
            have hlen := congrArg List.length htake
            rw [List.length_take, hA] at hlen
            exact ⟨by omega, by omega⟩
          · rintro ⟨hall, -⟩
            rw [hall, ← hA, hbytes]
            exact List.take_left
        · constructor
          · intro heq
            have hlen := congrArg List.length heq
            omega
          · exact fun h => absurd h.2 (by omega)
    · rw [if_neg hw] at hrun
      have hshort : ¬ 0 ∉ ls.flatten := fun h => hw (after_clean (ends_of_pieces hlast.split) h)
      rw [if_pos (by omega)]
      constructor
      · rintro ⟨htake, -⟩
        have hlen := congrArg List.length htake
        rw [List.length_take, hA] at hlen
        omega
      · rintro (⟨-, h⟩ | ⟨h, -⟩)
        · exact absurd h hw
        · exact absurd h hshort

end OpenCalifornia.SdLog
