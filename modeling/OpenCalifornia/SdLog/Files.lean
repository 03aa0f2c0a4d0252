import OpenCalifornia.SdLog.Readback

/-! # The files of the logger

Whatever the SD task did before, and wherever a power loss cut the open segment, the segments hold
consecutive numbers, and the deleted ones held all below. -/

namespace OpenCalifornia.SdLog
open Lib Lib.Bits Lib.Buffer Lib.Paging

variable {d : Dir} {n m first k : ℕ} {bytes torn l : List Byte} {lines A : List (List Byte)}
  {closed a b : List (List (List Byte))} {log log' : Log} {gone : List ℕ}
    {boot : BitVec 32} {r : Rec}

theorem lines_append (n : ℕ) (ls ls' : List (List Byte)) :
    Lines n (ls ++ ls') ↔ Lines n ls ∧ Lines (n + ls.length) ls' := by
  induction ls generalizing n with
  | nil => exact ⟨fun h => ⟨trivial, h⟩, fun h => h.2⟩
  | cons l ls ih =>
    rw [List.cons_append, Lines, Lines, ih, and_assoc, List.length_cons, Nat.add_right_comm,
      Nat.add_assoc]

theorem Lines.clean (h : Lines n lines) : 0 ∉ lines.flatten := by
  induction lines generalizing n with
  | nil => exact List.not_mem_nil
  | cons l lines ih =>
    obtain ⟨m, rfl, -, hnul, -⟩ := h.1.plain
    rw [List.flatten_cons, List.mem_append, List.mem_append, List.mem_singleton]
    rintro ((h0 | h0) | h0)
    · exact hnul h0
    · exact absurd h0 (by decide)
    · exact ih h.2 h0

theorem Lines.take (h : Lines n lines) (k : ℕ) : ∃ c torn, c ≤ lines.length ∧
    lines.flatten.take k = (lines.take c).flatten ++ torn ∧ newline ∉ torn ∧ 0 ∉ torn := by
  induction lines generalizing n k with
  | nil => exact ⟨0, [], le_rfl, by simp, List.not_mem_nil, List.not_mem_nil⟩
  | cons l lines ih =>
    by_cases hk : l.length ≤ k
    · obtain ⟨c, torn, hc, htake, htorn⟩ := ih h.2 (k - l.length)
      refine ⟨c + 1, torn, Nat.succ_le_succ hc, ?_, htorn⟩
      rw [List.flatten_cons, List.take_append, List.take_of_length_le hk, htake,
        List.take_succ_cons, List.flatten_cons, List.append_assoc]
    · obtain ⟨m, rfl, hnl, hnul, -⟩ := h.1.plain
      rw [List.length_append, List.length_singleton] at hk
      refine ⟨0, m.take k, Nat.zero_le _, ?_, fun hm => hnl (List.mem_of_mem_take hm),
        fun hm => hnul (List.mem_of_mem_take hm)⟩
      rw [List.flatten_cons, List.append_assoc, List.take_append_of_le_length (by omega)]
      rfl

theorem number_line (h : IsLine n l) (hn : n < 2 ^ 64) : number l = n := by
  obtain ⟨body, rfl, -⟩ := h
  rw [number, List.append_assoc, List.append_assoc, List.drop_left' (by decide)]
  exact strtoull_decimal hn _

theorem isRecord_iff (h : IsLine n l) (hn : n ≤ uint32Max) (hfirst : first ≤ n) :
    IsRecord first l ↔ n < uint32Max := by
  have hnumber := number_line h (by rw [uint32Max] at hn; omega)
  obtain ⟨m, rfl, -, hnul, hkey, hlen⟩ := h.plain
  refine ⟨fun hrecord => hnumber ▸ hrecord.2.2.2.2.2, fun hlt => ⟨List.getLast?_concat, ?_, hlen,
    hkey, hnumber.symm ▸ hfirst, hnumber.symm ▸ hlt⟩⟩
  rw [List.mem_append, List.mem_singleton]
  exact fun h0 => h0.elim hnul (by decide)

theorem pieces_lines (h : Lines n lines) (torn : List Byte) :
    pieces (lines.flatten ++ torn) = lines ++ pieces torn := by
  induction lines generalizing n with
  | nil => rfl
  | cons l lines ih =>
    obtain ⟨m, rfl, hnl, -⟩ := h.1.plain
    rw [List.flatten_cons, List.append_assoc, List.append_assoc, List.singleton_append,
      pieces_line hnl, ih h.2]
    rfl

theorem measured_of_clean (first : ℕ) (h : 0 ∉ bytes) : Measured first bytes := by
  have hseen : ∀ m ∈ pieces bytes, 0 < seen m := by
    intro m hm
    have hnul : 0 ∉ m := fun h0 => h (by
      rw [← flatten_pieces bytes]
      exact List.mem_flatten_of_mem hm h0)
    rw [(seen_facts m).2.mpr hnul]
    exact List.length_pos_iff.mpr (ne_nil_of_mem_pieces hm)
  rcases exists_last first bytes with hnone | ⟨ls, l, rest, hlast⟩
  · refine Or.inr ⟨hnone, ?_⟩
    cases hp : pieces bytes with
    | nil =>
      have hflat := flatten_pieces bytes
      rw [hp] at hflat
      exact Or.inl hflat.symm
    | cons m ms =>
      exact Or.inr ⟨m, List.mem_cons_self, hseen m (by rw [hp]; exact List.mem_cons_self)⟩
  · have hclean : 0 ∉ ls.flatten := fun h0 => h (by
      rw [← flatten_pieces bytes, hlast.split, List.flatten_append]
      exact List.mem_append_left _ h0)
    refine Or.inl ⟨ls, l, rest, hlast, ?_⟩
    cases rest with
    | nil => exact Or.inl ⟨rfl, after_clean (ends_of_pieces hlast.split) hclean⟩
    | cons m rest =>
      exact Or.inr ⟨hclean, m, List.mem_cons_self, hseen m (by rw [hlast.split]; simp)⟩

theorem good_of_clean (first : ℕ) (h : 0 ∉ bytes) :
    (recover first bytes).good = (kept first bytes).length := by
  obtain ⟨hle, hpos, -⟩ := recoverLine_mono first { next := first } (pieces bytes) le_rfl
  have hsum := (sum_facts seen_facts (pieces bytes)).2.mpr (by rwa [flatten_pieces])
  rw [flatten_pieces] at hsum
  rw [← recover_eq] at hle hpos
  dsimp only at hpos
  rw [kept]
  split_ifs with hlt
  · rw [List.length_take]
    omega
  · omega

theorem recover_lines (h : Lines first lines) (hfits : first + lines.length ≤ 2 ^ 32)
    (htorn : newline ∉ torn ∧ 0 ∉ torn) :
    ∃ c ≤ lines.length, kept first (lines.flatten ++ torn) = (lines.take c).flatten ∧
      (recover first (lines.flatten ++ torn)).next = first + c ∧
      (recover first (lines.flatten ++ torn)).good = (lines.take c).flatten.length ∧
      (first ≤ uint32Max → first + c ≤ uint32Max) := by
  have hclean : 0 ∉ lines.flatten ++ torn := fun h0 =>
    (List.mem_append.mp h0).elim h.clean htorn.2
  have hcut : ∃ A B, lines = A ++ B ∧ (first ≤ uint32Max → first + A.length ≤ uint32Max) ∧
      (first + A.length ≤ uint32Max ∨ A = []) ∧ ∀ l ∈ B, ¬ IsRecord first l := by
    by_cases hmax : first + lines.length ≤ uint32Max
    · exact ⟨lines, [], by simp, fun _ => hmax, Or.inl hmax, fun l hl => (by cases hl)⟩
    rcases List.eq_nil_or_concat lines with rfl | ⟨A, l, rfl⟩
    · exact ⟨[], [], rfl, fun hle => hle, Or.inr rfl, fun l hl => (by cases hl)⟩
    · rw [List.concat_eq_append] at h hfits hmax ⊢
      rw [List.length_append, List.length_singleton] at hfits hmax
      rw [uint32Max] at hmax
      refine ⟨A, [l], rfl, fun _ => ?_, Or.inl ?_, fun m hm => ?_⟩
      · rw [uint32Max]
        omega
      · rw [uint32Max]
        omega
      · -- the highest number has no next one
        have hline := ((lines_append first A [l]).mp h).2.1
        rw [List.mem_singleton.mp hm, isRecord_iff hline (by rw [uint32Max]; omega) (by omega),
          uint32Max]
        omega
  obtain ⟨A, B, rfl, hmax, hle, hB⟩ := hcut
  refine ⟨A.length, by simp, ?_⟩
  rw [List.take_left, good_of_clean first hclean]
  have hlines := ((lines_append first A B).mp h).1
  have hrest : ∀ m ∈ B ++ pieces torn, ¬ IsRecord first m := by
    intro m hm
    rcases List.mem_append.mp hm with hm | hm
    · exact hB m hm
    · intro hrecord
      by_cases hnil : torn = []
      · rw [hnil] at hm
        cases hm
      · rw [pieces_torn htorn.1 hnil, List.mem_singleton] at hm
        exact htorn.1 (hm ▸ List.mem_of_getLast? hrecord.1)
  have hpieces : pieces ((A ++ B).flatten ++ torn) = A ++ (B ++ pieces torn) := by
    rw [pieces_lines h, List.append_assoc]
  have hrecovered := (recovered_iff first _).mpr (measured_of_clean first hclean)
  suffices hboth : kept first ((A ++ B).flatten ++ torn) = A.flatten ∧
      (recover first ((A ++ B).flatten ++ torn)).next = first + A.length from
    ⟨hboth.1, hboth.2, congrArg _ hboth.1, hmax⟩
  rcases List.eq_nil_or_concat A with rfl | ⟨A, l, rfl⟩
  · rcases hrecovered with ⟨ls, l, rest, hlast, -⟩ | ⟨-, hk, hnext⟩
    · have hmem : l ∈ pieces (([] ++ B).flatten ++ torn) := by
        rw [hlast.split]
        simp
      rw [hpieces] at hmem
      exact absurd hlast.record (hrest l hmem)
    · exact ⟨hk, hnext⟩
  · rw [List.concat_eq_append] at *
    have hline := ((lines_append first A [l]).mp hlines).2.1
    have hbound := hle.resolve_right (by simp)
    rw [List.length_append, List.length_singleton] at hbound ⊢
    have hlast : Last first ((A ++ [l] ++ B).flatten ++ torn) A l (B ++ pieces torn) :=
      ⟨by rw [hpieces, List.append_assoc, List.singleton_append],
        (isRecord_iff hline (by omega) (by omega)).mpr (by omega), hrest⟩
    rcases hrecovered with ⟨ls, l', rest, hlast', hk, hnext⟩ | ⟨hnone, -⟩
    · obtain ⟨rfl, rfl, rfl⟩ := hlast.unique hlast'
      refine ⟨hk, ?_⟩
      rw [hnext, number_line hline (by rw [uint32Max] at hbound; omega)]
      omega
    · exact absurd hlast.record (hnone l (by rw [hlast.split]; simp))

/-- Segments of lines, each named for its first record. -/
def segments : ℕ → List (List (List Byte)) → Dir
  | _, [] => []
  | n, ls :: rest => ⟨n, ls.flatten⟩ :: segments (n + ls.length) rest

/-- The segments before the open one, and the open one with the begin of a line at its end. -/
def files (n : ℕ) (closed : List (List (List Byte))) (lines : List (List Byte))
    (torn : List Byte) : Dir :=
  segments n closed ++ [⟨n + closed.flatten.length, lines.flatten ++ torn⟩]

/-- What the logger keeps true of its files. -/
structure Shape (n : ℕ) (closed : List (List (List Byte))) (lines : List (List Byte))
    (torn : List Byte) : Prop where
  first : 1 ≤ n
  full : ∀ ls ∈ closed, ls ≠ []
  numbers : Lines n (closed.flatten ++ lines)
  named : n + closed.flatten.length ≤ uint32Max
  fits : n + closed.flatten.length + lines.length ≤ 2 ^ 32
  torn : newline ∉ torn ∧ 0 ∉ torn

theorem segments_append (n : ℕ) (a b : List (List (List Byte))) :
    segments n (a ++ b) = segments n a ++ segments (n + a.flatten.length) b := by
  induction a generalizing n with
  | nil => rfl
  | cons ls a ih =>
    rw [List.cons_append, segments, segments, ih, List.flatten_cons, List.length_append,
      Nat.add_assoc]
    rfl

theorem files_cons (n : ℕ) (ls : List (List Byte)) (closed : List (List (List Byte)))
    (lines : List (List Byte)) (torn : List Byte) : files n (ls :: closed) lines torn =
      ⟨n, ls.flatten⟩ :: files (n + ls.length) closed lines torn := by
  rw [files, files, List.flatten_cons, List.length_append, Nat.add_assoc]
  rfl

theorem readable_torn_lines (h : Lines n lines) (hfits : n + lines.length ≤ 2 ^ 32)
    (htorn : newline ∉ torn) : readable (lines.flatten ++ torn) = numbered n lines := by
  rw [readable_lines h hfits, readable_torn htorn, List.append_nil]

/-- Names go up, and the numbers in a segment are below the names behind it. -/
def Below (s t : Seg) : Prop := s.first < t.first ∧ ∀ e ∈ readable s.bytes, e.seq < t.first

theorem segments_facts (hfull : ∀ ls ∈ closed, ls ≠ []) (h : Lines n closed.flatten)
    (hfits : n + closed.flatten.length ≤ 2 ^ 32) :
    (segments n closed).Pairwise Below ∧
      contents (segments n closed) = numbered n closed.flatten ∧
      (∀ s ∈ segments n closed, n ≤ s.first) ∧
      ∀ s ∈ segments n closed, ∀ (lines : List (List Byte)) (torn : List Byte),
        Below s ⟨n + closed.flatten.length, lines.flatten ++ torn⟩ := by
  induction closed generalizing n with
  | nil =>
    exact ⟨List.Pairwise.nil, rfl, fun s hs => (by cases hs), fun s hs => (by cases hs)⟩
  | cons ls closed ih =>
    obtain ⟨hls, hfull⟩ := List.forall_mem_cons.mp hfull
    rw [List.flatten_cons, lines_append] at h
    rw [List.flatten_cons, List.length_append] at hfits
    obtain ⟨hpw, hcontents, hnames, hlast⟩ := ih hfull h.2 (by omega)
    have hread : readable ls.flatten = numbered n ls := by
      have hlines := readable_torn_lines h.1 (by omega) (List.not_mem_nil : newline ∉ [])
      rwa [List.append_nil] at hlines
    have hpos := List.length_pos_iff.mpr hls
    refine ⟨List.pairwise_cons.mpr ⟨fun s hs => ⟨?_, fun e he => ?_⟩, hpw⟩, ?_, ?_, ?_⟩
    · have hle := hnames s hs
      dsimp only
      omega
    · have hle := hnames s hs
      have hbounds := numbered_bounds (hread ▸ he)
      omega
    · rw [segments, contents_cons, hread, hcontents, List.flatten_cons, numbered_append]
    · refine List.forall_mem_cons.mpr ⟨le_rfl, fun s hs => ?_⟩
      have hle := hnames s hs
      omega
    · rw [List.flatten_cons, List.length_append, ← Nat.add_assoc]
      refine List.forall_mem_cons.mpr ⟨fun lines torn => ⟨?_, fun e he => ?_⟩, hlast⟩
      · dsimp only
        omega
      · have hbounds := numbered_bounds (hread ▸ he)
        dsimp only
        omega

theorem Shape.below (h : Shape n closed lines torn) :
    (files n closed lines torn).Pairwise Below := by
  have hlines := (lines_append _ _ _).mp h.numbers
  have hfits := h.fits
  obtain ⟨hpw, -, -, hlast⟩ := segments_facts h.full hlines.1 (by omega)
  refine List.pairwise_append.mpr ⟨hpw, List.pairwise_singleton _ _, fun s hs t ht => ?_⟩
  rw [List.mem_singleton.mp ht]
  exact hlast s hs lines torn

theorem Shape.sorted (h : Shape n closed lines torn) : Sorted (files n closed lines torn) := by
  have hlines := (lines_append _ _ _).mp h.numbers
  have hfits := h.fits
  have hnamed := h.named
  have hfirst := h.first
  obtain ⟨-, -, hnames, hlast⟩ := segments_facts h.full hlines.1 (by omega)
  refine ⟨h.below.imp fun hst => hst.1, fun s hs => ?_⟩
  rw [segName, decide_eq_true_eq]
  rcases List.mem_append.mp hs with hs | hs
  · have hle := hnames s hs
    have hlt := (hlast s hs [] []).1
    dsimp only at hlt
    omega
  · rw [List.mem_singleton.mp hs]
    dsimp only
    omega

theorem Shape.holds (h : Shape n closed lines torn) :
    contents (files n closed lines torn) = numbered n (closed.flatten ++ lines) := by
  have hlines := (lines_append _ _ _).mp h.numbers
  have hfits := h.fits
  obtain ⟨-, hcontents, -⟩ := segments_facts h.full hlines.1 (by omega)
  rw [files, contents_append, hcontents, numbered_append, contents_cons,
    readable_torn_lines hlines.2 hfits h.torn.1]
  exact congrArg _ (List.append_nil _)

/-- The complete lines of the files. -/
def stored (d : Dir) : List Entry :=
  d.flatMap fun s =>
    ((pieces s.bytes).filter fun l => l.getLast? = some newline).map fun l => ⟨number l, l⟩

theorem stored_append (d d' : Dir) : stored (d ++ d') = stored d ++ stored d' := List.flatMap_append

theorem stored_lines (h : Lines n lines) (hfits : n + lines.length ≤ 2 ^ 32)
    (htorn : newline ∉ torn) (m : ℕ) : stored [⟨m, lines.flatten ++ torn⟩] = numbered n lines := by
  have hnone : (pieces torn).filter (fun l => l.getLast? = some newline) = [] := by
    refine List.filter_eq_nil_iff.mpr fun l hl => ?_
    by_cases hnil : torn = []
    · rw [hnil] at hl
      cases hl
    · rw [pieces_torn htorn hnil, List.mem_singleton] at hl
      rw [decide_eq_true_eq, hl]
      exact fun hlast => htorn (List.mem_of_getLast? hlast)
  rw [stored, List.flatMap_cons, List.flatMap_nil, List.append_nil, pieces_lines h,
    List.filter_append, hnone, List.append_nil]
  clear hnone
  induction lines generalizing n with
  | nil => rfl
  | cons l lines ih =>
    rw [List.length_cons] at hfits
    have hnumber := number_line h.1 (by omega)
    obtain ⟨m', hm', -⟩ := h.1.plain
    rw [List.filter_cons_of_pos (by rw [hm', List.getLast?_concat, decide_eq_true_eq]),
      List.map_cons, hnumber, numbered, ih h.2 (by omega)]

theorem Shape.stores (h : Shape n closed lines torn) :
    stored (files n closed lines torn) = numbered n (closed.flatten ++ lines) := by
  have hall : ∀ (closed : List (List (List Byte))) (n : ℕ), Lines n closed.flatten →
      n + closed.flatten.length ≤ 2 ^ 32 →
      stored (segments n closed) = numbered n closed.flatten := by
    intro closed
    induction closed with
    | nil => exact fun n _ _ => rfl
    | cons ls closed ih =>
      intro n h hfits
      rw [List.flatten_cons, lines_append] at h
      rw [List.flatten_cons, List.length_append] at hfits
      have hseg := stored_lines h.1 (by omega) (List.not_mem_nil : newline ∉ []) n
      rw [List.append_nil] at hseg
      rw [segments, ← List.singleton_append, stored_append, hseg, ih _ h.2 (by omega),
        List.flatten_cons, numbered_append]
  obtain ⟨hclosed, hlines⟩ := (lines_append _ _ _).mp h.numbers
  have hfits := h.fits
  rw [files, stored_append, hall closed n hclosed (by omega), stored_lines hlines hfits h.torn.1,
    numbered_append]

/-- The log of such files. -/
def logOf (n : ℕ) (closed : List (List (List Byte))) (lines : List (List Byte)) : Log where
  dir := files n closed lines []
  next := (n + closed.flatten.length + lines.length) % 2 ^ 32
  segFirst := n + closed.flatten.length
  segBytes := lines.flatten.length

theorem Shape.fresh (h : Shape n closed lines []) (hne : lines ≠ [])
    (hlt : n + closed.flatten.length + lines.length < 2 ^ 32) :
    Shape n (closed ++ [lines]) [] [] ∧
      (⟨(files n closed lines []).append (n + closed.flatten.length + lines.length) [],
        n + closed.flatten.length + lines.length, n + closed.flatten.length + lines.length, 0⟩ :
        Log) =
        logOf n (closed ++ [lines]) [] := by
  have hflat : (closed ++ [lines]).flatten = closed.flatten ++ lines := by
    rw [List.flatten_append, List.flatten_singleton]
  have hlen : n + closed.flatten.length + lines.length =
      n + (closed ++ [lines]).flatten.length := by
    rw [hflat, List.length_append, Nat.add_assoc]
  rw [hlen] at hlt ⊢
  have hshape : Shape n (closed ++ [lines]) [] [] := by
    refine ⟨h.first, ?_, ?_, ?_, hlt.le, h.torn⟩
    · intro ls hls
      rcases List.mem_append.mp hls with hls | hls
      · exact h.full ls hls
      · exact List.mem_singleton.mp hls ▸ hne
    · rw [hflat, List.append_nil]
      exact h.numbers
    · exact Nat.lt_succ_iff.mp hlt
  have hdir : files n closed lines [] ++ [⟨n + (closed ++ [lines]).flatten.length, []⟩] =
      files n (closed ++ [lines]) [] [] := by
    rw [files, files, segments_append, List.append_nil]
    rfl
  have hnames : ∀ s ∈ files n closed lines [], s.first <
      n + (closed ++ [lines]).flatten.length := by
    intro s hs
    have hpw := hshape.below
    rw [← hdir] at hpw
    exact ((List.pairwise_append.mp hpw).2.2 s hs _ (List.mem_singleton_self _)).1
  refine ⟨hshape, ?_⟩
  rw [append_new hnames, hdir, logOf, List.length_nil, Nat.add_zero, Nat.mod_eq_of_lt hlt]
  rfl

/-- No segment is larger than it may be. -/
def Small (closed : List (List (List Byte))) (lines : List (List Byte)) : Prop :=
  ∀ ls ∈ closed ++ [lines], ls.flatten.length ≤ segmentBytes

theorem Shape.roll (h : Shape n closed lines [])
    (hlt : n + closed.flatten.length + lines.length < 2 ^ 32) (l : List Byte) :
    ∃ closed' lines', Shape n closed' lines' [] ∧
      (logOf n closed lines).roll l = logOf n closed' lines' ∧
      closed'.flatten.length + lines'.length = closed.flatten.length + lines.length ∧
      (Small closed lines → l.length ≤ segmentBytes → Small closed' (lines' ++ [l])) := by
  rw [Log.roll]
  split_ifs with hfull
  · have hne : lines ≠ [] := by
      rintro rfl
      exact absurd hfull.1 (Nat.lt_irrefl 0)
    obtain ⟨hshape, heq⟩ := h.fresh hne hlt
    refine ⟨closed ++ [lines], [], hshape, ?_, by simp, fun hsmall hl ls hls => ?_⟩
    · rw [← heq]
      simp only [logOf, Nat.mod_eq_of_lt hlt]
    · rcases List.mem_append.mp hls with hls | hls
      · exact hsmall ls hls
      · obtain rfl := List.mem_singleton.mp hls
        simpa using hl
  · refine ⟨closed, lines, h, rfl, rfl, fun hsmall hl ls hls => ?_⟩
    have hroom : lines.flatten.length = 0 ∨ lines.flatten.length + l.length ≤ segmentBytes := by
      have hfull : ¬ (0 < lines.flatten.length ∧
        segmentBytes < lines.flatten.length + l.length) := hfull
      omega
    rcases List.mem_append.mp hls with hls | hls
    · exact hsmall ls (List.mem_append_left _ hls)
    · obtain rfl := List.mem_singleton.mp hls
      rw [List.flatten_append, List.flatten_singleton, List.length_append]
      omega

theorem Shape.write (h : Shape n closed lines []) (hnext : (logOf n closed lines).next ≠ 0)
    (boot : BitVec 32) (r : Rec) : ∃ closed' lines', Shape n closed' lines' [] ∧
      (logOf n closed lines).write boot r = logOf n closed' lines' ∧
      closed'.flatten.length + lines'.length = closed.flatten.length + lines.length + 1 ∧
      (Small closed lines → Small closed' lines') := by
  have hfits := h.fits
  have hpos := h.first
  have hlt : n + closed.flatten.length + lines.length < 2 ^ 32 := by
    refine lt_of_le_of_ne hfits fun heq => hnext ?_
    rw [logOf, heq]
    rfl
  have hseq : n + closed.flatten.length + lines.length ≤ uint32Max := Nat.lt_succ_iff.mp hlt
  have hmod : (logOf n closed lines).next = n + closed.flatten.length + lines.length :=
    Nat.mod_eq_of_lt hlt
  have hline := isLine_line hseq boot r
  rw [Log.write, hmod, format_eq hseq]
  have hshort : (line (n + closed.flatten.length + lines.length) boot r).length ≤ segmentBytes :=
    (length_line hseq boot r).le.trans (by decide)
  generalize line (n + closed.flatten.length + lines.length) boot r = l at hline hshort
  obtain ⟨closed', lines', hshape, hroll, hlen, hsmall⟩ := h.roll hlt l
  have htotal : n + closed.flatten.length + lines.length =
      n + closed'.flatten.length + lines'.length := by omega
  rw [htotal] at hline hlt
  have happ := append_eq hshape.sorted l
  refine ⟨closed', lines' ++ [l], ⟨h.first, hshape.full, ?_, hshape.named, ?_, h.torn⟩, ?_, ?_,
    fun hs => hsmall hs hshort⟩
  · rw [← List.append_assoc]
    refine (lines_append _ _ _).mpr ⟨hshape.numbers, ?_, trivial⟩
    rw [List.length_append, ← Nat.add_assoc]
    exact hline
  · rw [List.length_append, List.length_singleton]
    omega
  · dsimp only
    rw [hroll]
    simp only [logOf, files] at happ ⊢
    rw [happ]
    simp only [List.append_nil, List.flatten_append, List.flatten_singleton, List.length_append,
      List.length_singleton, Nat.mod_add_mod, Nat.add_assoc]
  · rw [List.length_append, List.length_singleton, ← Nat.add_assoc, hlen]

theorem Shape.reopen (h : Shape n closed lines torn) : ∃ closed' lines', Shape n closed' lines' [] ∧
    openLog (files n closed lines torn) = logOf n closed' lines' := by
  have hlines := ((lines_append _ _ _).mp h.numbers).2
  obtain ⟨c, hc, hkept, hnext, hgood, hmax⟩ := recover_lines hlines h.fits h.torn
  have hfits := hmax h.named
  have hlen : (lines.take c).length = c := List.length_take_of_le hc
  have hshape : Shape n closed (lines.take c) [] := by
    refine ⟨h.first, h.full, ?_, h.named, ?_, List.not_mem_nil, List.not_mem_nil⟩
    · have hnumbers := h.numbers
      rw [← List.take_append_drop c lines, ← List.append_assoc] at hnumbers
      exact ((lines_append _ _ _).mp hnumbers).1
    · rw [hlen]
      exact hfits.trans (Nat.le_succ _)
  have hlt : n + closed.flatten.length + (lines.take c).length < 2 ^ 32 := by
    rw [hlen]
    exact Nat.lt_succ_iff.mpr hfits
  have hopen := openLog_eq h.sorted
  rw [hkept, hnext, hgood] at hopen
  rw [files, hopen]
  split_ifs with hfull
  · have hne : lines.take c ≠ [] := by
      intro hnil
      rw [hnil] at hfull
      exact absurd hfull (by decide)
    obtain ⟨hshape', heq⟩ := hshape.fresh hne hlt
    rw [hlen, files, List.append_nil] at heq
    exact ⟨_, _, hshape', heq⟩
  · refine ⟨_, _, hshape, ?_⟩
    rw [logOf, Nat.mod_eq_of_lt hlt, hlen, files, List.append_nil]

theorem findSeg_oldest {s : Seg} (hs : segName s.first = true) {skip : ℕ} (hskip : s.first ≠ skip)
    (hd : ∀ t ∈ d, s.first < t.first) : findSeg (s :: d) true skip = s.first := by
  have hpos : s.first ≠ 0 := by
    rw [segName, decide_eq_true_eq] at hs
    exact hs.1
  have hall : ∀ d : Dir, (∀ t ∈ d, s.first < t.first) → d.foldl (fun best t =>
      if segName t.first ∧ t.first ≠ skip ∧
          (best = 0 ∨ if true then t.first < best else best < t.first) then t.first
      else best) s.first = s.first := by
    intro d hd
    induction d with
    | nil => rfl
    | cons t d ih =>
      obtain ⟨ht, hd⟩ := List.forall_mem_cons.mp hd
      rw [List.foldl_cons, if_neg, ih hd]
      rintro ⟨-, -, hzero | hlt⟩
      · exact hpos hzero
      · rw [if_pos rfl] at hlt
        omega
  rw [findSeg, List.foldl_cons, if_pos ⟨hs, hskip, Or.inl rfl⟩]
  exact hall d hd

theorem Shape.delete (h : Shape n closed lines []) :
    closed = [] ∧ (logOf n closed lines).deleteOldest = logOf n closed lines ∨
      ∃ ls rest, closed = ls :: rest ∧ Shape (n + ls.length) rest lines [] ∧
        (logOf n closed lines).deleteOldest = logOf (n + ls.length) rest lines := by
  cases closed with
  | nil =>
    refine Or.inl ⟨rfl, ?_⟩
    have hnone : findSeg (logOf n [] lines).dir true (logOf n [] lines).segFirst = 0 :=
      if_neg fun hcond => hcond.2.1 rfl
    rw [Log.deleteOldest, hnone]
    exact if_pos (Or.inl rfl)
  | cons ls rest =>
    refine Or.inr ⟨ls, rest, rfl, ?_⟩
    obtain ⟨hls, hfull⟩ := List.forall_mem_cons.mp h.full
    have hpos := List.length_pos_iff.mpr hls
    have hlen : n + (ls :: rest).flatten.length = n + ls.length + rest.flatten.length := by
      rw [List.flatten_cons, List.length_append, Nat.add_assoc]
    have hnumbers := h.numbers
    rw [List.flatten_cons, List.append_assoc, lines_append] at hnumbers
    have hshape : Shape (n + ls.length) rest lines [] :=
      ⟨h.first.trans (Nat.le_add_right _ _), hfull, hnumbers.2, hlen ▸ h.named, hlen ▸ h.fits,
        h.torn⟩
    refine ⟨hshape, ?_⟩
    have hdir : (logOf n (ls :: rest) lines).dir =
        ⟨n, ls.flatten⟩ :: files (n + ls.length) rest lines [] := files_cons n ls rest lines []
    have hsorted := h.sorted
    rw [files_cons] at hsorted
    have hlater := (List.pairwise_cons.mp hsorted.ascending).1
    have hseg : (logOf n (ls :: rest) lines).segFirst = n + ls.length + rest.flatten.length := hlen
    have hold : findSeg (logOf n (ls :: rest) lines).dir true
        (logOf n (ls :: rest) lines).segFirst =
        n := by
      rw [hdir, hseg]
      exact findSeg_oldest (hsorted.named _ List.mem_cons_self) (by dsimp only; omega) hlater
    have hfilter : (logOf n (ls :: rest) lines).dir.filter (·.first ≠ n) =
        files (n + ls.length) rest lines [] := by
      rw [hdir, List.filter_cons_of_neg (by simp), List.filter_eq_self.mpr]
      intro t ht
      have hlt := hlater t ht
      dsimp only at hlt
      simp
      omega
    have hfirst := h.first
    rw [Log.deleteOldest, hold, if_neg (by rw [hseg]; omega), hfilter]
    simp only [logOf, hlen]

/-- The files as they are on the card when it has `k` bytes of the open segment. -/
def Log.seen (log : Log) (k : ℕ) : Dir := log.dir.edit log.segFirst (·.take k)

/-- The numbers in the segments of `d` that are not in `d'`. -/
def missing (d d' : Dir) : List ℕ :=
  (stored (d.filter fun s => ¬ d'.any (·.first = s.first))).map Entry.seq

/-- What the SD task does: it opens the empty card, writes records while there is a number for
them, and deletes the oldest segment; a power loss leaves a part of the open one. `gone` are the
numbers in the segments that were deleted. -/
inductive Reachable : Log → List ℕ → Prop
  | start : Reachable (openLog []) []
  | write {log : Log} {gone : List ℕ} (h : Reachable log gone) (boot : BitVec 32) (r : Rec)
      (hnext : log.next ≠ 0) : Reachable (log.write boot r) gone
  | delete {log : Log} {gone : List ℕ} (h : Reachable log gone) :
      Reachable log.deleteOldest (gone ++ missing log.dir log.deleteOldest.dir)
  | reopen {log : Log} {gone : List ℕ} (h : Reachable log gone) (k : ℕ) :
      Reachable (openLog (log.seen k)) gone
  | order {log : Log} {gone : List ℕ} {d : Dir} (h : Reachable log gone) (hp : log.dir.Perm d) :
      Reachable { log with dir := d } gone

theorem Shape.seen (h : Shape n closed lines []) (k : ℕ) :
    ∃ lines' torn, Shape n closed lines' torn ∧
    (logOf n closed lines).seen k = files n closed lines' torn := by
  obtain ⟨hclosed, hlines⟩ := (lines_append _ _ _).mp h.numbers
  obtain ⟨c, torn, hc, htake, htorn⟩ := hlines.take k
  refine ⟨lines.take c, torn, ⟨h.first, h.full, ?_, h.named, ?_, htorn⟩, ?_⟩
  · have hnumbers := h.numbers
    rw [← List.take_append_drop c lines, ← List.append_assoc] at hnumbers
    exact ((lines_append _ _ _).mp hnumbers).1
  · have hfits := h.fits
    rw [List.length_take_of_le hc]
    omega
  · refine (edit_eq h.sorted (·.take k)).trans ?_
    dsimp only
    rw [List.append_nil, htake]
    rfl

theorem stored_perm {d' : Dir} (hp : d.Perm d') : (stored d).Perm (stored d') :=
  hp.flatMap_right _

theorem missing_perm {d' e e' : Dir} (h : d.Perm e) (h' : d'.Perm e') :
    (missing d d').Perm (missing e e') := by
  have hsame : (fun s : Seg => decide ¬ d'.any (·.first = s.first)) =
      fun s : Seg => decide ¬ e'.any (·.first = s.first) := by
    funext s
    simp only [List.any_eq_true, h'.mem_iff]
  rw [missing, missing, hsame]
  exact (stored_perm (h.filter _)).map _

theorem Log.Same.delete (h : log.Same log') : log.deleteOldest.Same log'.deleteOldest := by
  rw [Log.deleteOldest, Log.deleteOldest, h.segFirst, findSeg_perm h.dir]
  split_ifs
  · exact h
  · refine ⟨?_, h.dir.filter _, h.next, rfl, h.segBytes⟩
    exact h.distinct.sublist (List.filter_sublist.map Seg.first)

/-- In any order the files of some lines, the deleted segments holding all numbers below. -/
def Written (log : Log) (gone : List ℕ) : Prop :=
  ∃ n closed lines, Shape n closed lines [] ∧ log.Same (logOf n closed lines) ∧
    gone.Perm (List.range' 1 (n - 1))

theorem missing_head {ls : List (List Byte)} (h : Shape n (ls :: closed) lines []) :
    missing (files n (ls :: closed) lines []) (files (n + ls.length) closed lines []) =
      List.range' n ls.length := by
  have hlines := ((lines_append _ _ _).mp h.numbers).1
  have hfits := h.fits
  rw [List.flatten_cons, lines_append] at hlines
  rw [List.flatten_cons, List.length_append] at hfits
  have hsorted := h.sorted
  rw [files_cons] at hsorted ⊢
  have hlater := (List.pairwise_cons.mp hsorted.ascending).1
  have hnone : (files (n + ls.length) closed lines []).filter
      (fun s => ¬ (files (n + ls.length) closed lines []).any (·.first = s.first)) = [] :=
    List.filter_eq_nil_iff.mpr fun s hs => by simpa using ⟨s, hs, rfl⟩
  have hhead : ¬ (files (n + ls.length) closed lines []).any (·.first = n) = true := by
    simp only [List.any_eq_true, decide_eq_true_eq, not_exists, not_and]
    intro t ht
    have hlt := hlater t ht
    dsimp only at hlt
    omega
  have hstored := stored_lines hlines.1 (by omega) (List.not_mem_nil : newline ∉ []) n
  rw [List.append_nil] at hstored
  rw [missing, List.filter_cons_of_pos (by simpa using hhead), hnone, hstored]
  clear hstored hnone hhead hlater hsorted hlines hfits h
  induction ls generalizing n with
  | nil => rfl
  | cons l ls ih => rw [numbered, List.map_cons, ih, List.length_cons, List.range'_succ]

theorem Written.delete (h : Written log gone) :
    Written log.deleteOldest (gone ++ missing log.dir log.deleteOldest.dir) := by
  obtain ⟨n, closed, lines, hshape, hsame, hgone⟩ := h
  have hdelete := hsame.delete
  have hmissing := missing_perm hsame.dir hdelete.dir
  rcases hshape.delete with ⟨rfl, heq⟩ | ⟨ls, rest, rfl, hshape', heq⟩
  · rw [heq] at hdelete hmissing
    have hnone : missing (logOf n [] lines).dir (logOf n [] lines).dir = [] := by
      have hnil : (logOf n [] lines).dir.filter
          (fun s => ¬ (logOf n [] lines).dir.any (·.first = s.first)) = [] :=
        List.filter_eq_nil_iff.mpr fun s hs => by simpa using ⟨s, hs, rfl⟩
      rw [missing, hnil]
      rfl
    rw [hnone] at hmissing
    refine ⟨n, [], lines, hshape, hdelete, ?_⟩
    rw [hmissing.eq_nil, List.append_nil]
    exact hgone
  · rw [heq] at hdelete hmissing
    refine ⟨n + ls.length, rest, lines, hshape', hdelete, ?_⟩
    have hboth := hgone.append (hmissing.trans (List.Perm.of_eq (missing_head hshape)))
    have hpos := hshape.first
    have hrange : List.range' 1 (n - 1) ++ List.range' n ls.length =
        List.range' 1 (n + ls.length - 1) := by
      have happ := List.range'_append_1 (s := 1) (m := n - 1) (n := ls.length)
      rw [show 1 + (n - 1) = n by omega] at happ
      rw [happ]
      congr 1
      omega
    rwa [hrange] at hboth

theorem Reachable.written (h : Reachable log gone) : Written log gone := by
  induction h with
  | start =>
    refine ⟨1, [], [], ⟨le_rfl, fun ls hls => (by cases hls), trivial, by decide, by decide,
      List.not_mem_nil, List.not_mem_nil⟩,
        ⟨List.nodup_singleton _, List.Perm.refl _, rfl, rfl, rfl⟩,
      List.Perm.refl _⟩
  | write h boot r hnext ih =>
    obtain ⟨n, closed, lines, hshape, hsame, hgone⟩ := ih
    obtain ⟨closed', lines', hshape', heq, -⟩ := hshape.write (hsame.next ▸ hnext) boot r
    exact ⟨n, closed', lines', hshape', heq ▸ hsame.write boot r, hgone⟩
  | delete h ih => exact ih.delete
  | reopen h k ih =>
    obtain ⟨n, closed, lines, hshape, hsame, hgone⟩ := ih
    obtain ⟨seen, torn, hseen, hfiles⟩ := hshape.seen k
    obtain ⟨closed', lines', hshape', heq⟩ := hseen.reopen
    refine ⟨n, closed', lines', hshape',
      heq ▸ hfiles ▸ open_same (hsame.distinct.edit _ _) ?_, hgone⟩
    rw [Log.seen, Log.seen, hsame.segFirst]
    exact edit_perm hsame.dir _ _
  | order h hp ih =>
    obtain ⟨n, closed, lines, hshape, hsame, hgone⟩ := ih
    exact ⟨n, closed, lines, hshape, ⟨hsame.distinct.perm hp, hp.symm.trans hsame.dir, hsame.next,
      hsame.segFirst, hsame.segBytes⟩, hgone⟩

end OpenCalifornia.SdLog
