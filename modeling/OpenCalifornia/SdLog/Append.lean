import OpenCalifornia.SdLog.Order

/-! # What is logged after a recovery

The records that follow are returned by the pager when the segment that is left holds no number
above theirs. -/

namespace OpenCalifornia.SdLog
open Lib Lib.Bits Lib.Buffer Lib.Paging

variable {d older pre post : Dir} {first next₀ n since : ℕ} {bytes k l : List Byte}
  {lines : List (List Byte)} {log : Log} {X : List Entry} {boot : BitVec 32} {r : Rec}
    {rs : List Rec}

theorem contents_append (d d' : Dir) : contents (d ++ d') = contents d ++ contents d' :=
  List.flatMap_append

theorem numbered_append (n : ℕ) (ls ls' : List (List Byte)) :
    numbered n (ls ++ ls') = numbered n ls ++ numbered (n + ls.length) ls' := by
  induction ls generalizing n with
  | nil => rfl
  | cons l ls ih =>
    rw [List.cons_append, numbered, numbered, ih, List.length_cons, Nat.add_right_comm,
      Nat.add_assoc]
    rfl

theorem numbered_bounds {e : Entry} (he : e ∈ numbered n lines) :
    n ≤ e.seq ∧ e.seq < n + lines.length := by
  induction lines generalizing n with
  | nil => cases he
  | cons l lines ih =>
    rw [List.length_cons]
    cases he with
    | head => exact ⟨le_rfl, by dsimp only; omega⟩
    | tail _ he =>
      have hbounds := ih he
      omega

/-- The log once `lines` came behind the records `X`, from the number `next₀` on. -/
structure Grown (X : List Entry) (first next₀ : ℕ) (lines : List (List Byte)) (log : Log) :
    Prop where
  sorted : Sorted log.dir
  chained : ∀ s ∈ log.dir, ∀ t ∈ log.dir, s.first < t.first →
    (t.first ≤ first ∨ ∀ e ∈ X, e.seq < next₀) → ∀ e ∈ readable s.bytes, e.seq < t.first
  contents : contents log.dir = X ++ numbered next₀ lines
  newest : ∃ pre s, log.dir = pre ++ [s] ∧ s.first = log.segFirst ∧ Closed s.bytes ∧
    after true (chunks s.bytes) = true
  next : log.next = (next₀ + lines.length) % 2 ^ 32
  segFirst : first ≤ log.segFirst ∧ log.segFirst ≤ next₀ + lines.length ∧
    (0 < log.segBytes → log.segFirst < next₀ + lines.length)

theorem Sorted.congr {d' : Dir} (h : Sorted d) (heq : d'.map Seg.first = d.map Seg.first) :
    Sorted d' := by
  refine ⟨List.pairwise_map.mp (heq ▸ List.pairwise_map.mpr h.ascending), fun s hs => ?_⟩
  have hmem : s.first ∈ d.map Seg.first := heq ▸ List.mem_map_of_mem hs
  obtain ⟨t, ht, hfirst⟩ := List.mem_map.mp hmem
  exact hfirst ▸ h.named t ht

theorem Sorted.concat (h : Sorted d) {s : Seg} (hlt : ∀ t ∈ d, t.first < s.first)
    (hs : segName s.first = true) : Sorted (d ++ [s]) := by
  refine ⟨List.pairwise_append.mpr ⟨h.ascending, List.pairwise_singleton _ _, ?_⟩, ?_⟩
  · intro t ht u hu
    exact List.mem_singleton.mp hu ▸ hlt t ht
  · intro t ht
    rcases List.mem_append.mp ht with ht | ht
    · exact h.named t ht
    · exact List.mem_singleton.mp ht ▸ hs

theorem readable_append (hclosed : Closed k) (hafter : after true (chunks k) = true)
    (t : List Byte) : readable (k ++ t) = readable k ++ readable t := by
  rw [readable, chunks_append hclosed, entries_append, hafter, readable, readable]

theorem after_line {seq : ℕ} (hclosed : Closed k) (h : IsLine seq l) :
    Closed (k ++ l) ∧ after true (chunks (k ++ l)) = true := by
  obtain ⟨hchunks, hl, htext⟩ := h.chunks
  obtain ⟨m, rfl, -⟩ := h.plain
  refine ⟨fun c hc => ?_, ?_⟩
  · rw [← List.append_assoc, List.getLast?_concat] at hc
    exact (Option.some.inj hc).symm
  · rw [chunks_append hclosed, hchunks, after_append, after, List.foldl_cons, List.foldl_nil, htext,
      h.complete]

theorem Grown.names_le (h : Grown X first next₀ lines log) :
    ∀ s ∈ log.dir, s.first ≤ log.segFirst := by
  obtain ⟨pre, t, hdir, hfirst, -⟩ := h.newest
  have hsorted := h.sorted.ascending
  rw [hdir] at hsorted ⊢
  intro s hs
  rcases List.mem_append.mp hs with hs | hs
  · exact hfirst ▸ ((List.pairwise_append.mp hsorted).2.2 s hs t (List.mem_singleton_self t)).le
  · exact hfirst ▸ (List.mem_singleton.mp hs ▸ le_rfl)

theorem Grown.fresh (h : Grown X first next₀ lines log) (hlt : next₀ + lines.length < 2 ^ 32)
    (hsegFirst : log.segFirst < next₀ + lines.length) :
    Grown X first next₀ lines
      { log with dir := log.dir.append log.next [], segFirst := log.next, segBytes := 0 } := by
  have hnext : log.next = next₀ + lines.length := by rw [h.next, Nat.mod_eq_of_lt hlt]
  have hold := h.segFirst.1
  have hnames : ∀ s ∈ log.dir, s.first < log.next := fun s hs => by
    have hle := h.names_le s hs
    omega
  have hdir := append_new hnames []
  have hname : segName log.next = true := by
    rw [segName, decide_eq_true_eq, uint32Max]
    omega
  refine ⟨?_, ?_, ?_, ⟨log.dir, ⟨log.next, []⟩, hdir, rfl, closed_nil, rfl⟩,
    h.next, ?_⟩
  · dsimp only
    rw [hdir]
    exact h.sorted.concat hnames hname
  · dsimp only
    rw [hdir]
    intro s hs t ht hst hcond e he
    rcases List.mem_append.mp hs with hs | hs
    · rcases List.mem_append.mp ht with ht | ht
      · exact h.chained s hs t ht hst hcond e he
      · have hmem : e ∈ X ++ numbered next₀ lines := by
          rw [← h.contents]
          exact List.mem_flatMap_of_mem hs he
        obtain rfl := List.mem_singleton.mp ht
        dsimp only at hcond ⊢
        rcases List.mem_append.mp hmem with hX | hnew
        · have hbelow := (hcond.resolve_left (by omega)) e hX
          omega
        · have hbounds := numbered_bounds hnew
          omega
    · obtain rfl := List.mem_singleton.mp hs
      cases he
  · dsimp only
    rw [hdir, contents_append, h.contents]
    exact List.append_nil _
  · dsimp only
    exact ⟨by omega, by omega, fun hpos => absurd hpos (Nat.lt_irrefl 0)⟩

theorem Grown.roll (h : Grown X first next₀ lines log) (hlt : next₀ + lines.length < 2 ^ 32)
    (l : List Byte) : Grown X first next₀ lines (log.roll l) := by
  rw [Log.roll]
  split_ifs with hfull
  · exact h.fresh hlt (h.segFirst.2.2 hfull.1)
  · exact h

theorem Grown.write (h : Grown X first next₀ lines log) (hlt : next₀ + lines.length < 2 ^ 32)
    (boot : BitVec 32) (r : Rec) :
    Grown X first next₀ (lines ++ [line (next₀ + lines.length) boot r]) (log.write boot r) := by
  have hnext : log.next = next₀ + lines.length := by rw [h.next, Nat.mod_eq_of_lt hlt]
  have hseq : next₀ + lines.length ≤ uint32Max := by
    rw [uint32Max]
    omega
  have hline := isLine_line hseq boot r
  have hroll := h.roll hlt (line (next₀ + lines.length) boot r)
  rw [Log.write, hnext, format_eq hseq]
  dsimp only
  generalize line (next₀ + lines.length) boot r = l at hline hroll
  have hrollnext : (log.roll l).next = next₀ + lines.length := by
    rw [hroll.next, Nat.mod_eq_of_lt hlt]
  generalize log.roll l = log at hroll hrollnext
  have hle := hroll.names_le
  obtain ⟨hsorted, hchained, hcontents, ⟨pre, s, hdir, hfirst, hclosed, hafter⟩, -, hseg⟩ := hroll
  rw [hdir] at hsorted hchained hcontents hle
  have happ : log.dir.append log.segFirst l = pre ++ [⟨s.first, s.bytes ++ l⟩] := by
    rw [hdir, ← hfirst, append_eq hsorted]
  have hread : readable (s.bytes ++ l) = readable s.bytes ++ [⟨next₀ + lines.length, l⟩] := by
    have hone := readable_line hline hseq []
    rw [List.append_nil] at hone
    rw [readable_append hclosed hafter, hone]
    rfl
  refine ⟨?_, ?_, ?_, ⟨pre, ⟨s.first, s.bytes ++ l⟩, happ, hfirst, after_line hclosed hline⟩, ?_,
    ?_⟩
  · dsimp only
    rw [happ]
    exact hsorted.congr (by simp)
  · dsimp only
    rw [happ]
    intro x hx t ht hxt hcond e he
    -- the segment that is written to is the last one
    have hpre : x ∈ pre := by
      refine (List.mem_append.mp hx).resolve_right fun hx => ?_
      obtain rfl := List.mem_singleton.mp hx
      have htle : t.first ≤ log.segFirst := by
        rcases List.mem_append.mp ht with ht | ht
        · exact hle t (List.mem_append_left _ ht)
        · rw [List.mem_singleton.mp ht, ← hfirst]
      dsimp only at hxt
      omega
    rcases List.mem_append.mp ht with ht | ht
    · exact hchained x (List.mem_append_left _ hpre) t (List.mem_append_left _ ht) hxt hcond e he
    · obtain rfl := List.mem_singleton.mp ht
      exact hchained x (List.mem_append_left _ hpre) s (by simp) hxt hcond e he
  · dsimp only
    rw [happ, contents_append, numbered_append, ← List.append_assoc, ← hcontents, contents_append]
    simp only [contents_cons, hread, List.append_assoc]
    rfl
  · dsimp only
    rw [hrollnext, List.length_append, List.length_singleton, Nat.add_assoc]
  · dsimp only
    rw [List.length_append, List.length_singleton]
    omega

/-- The lines of records from the number `n` on. -/
def records (boot : BitVec 32) : ℕ → List Rec → List (List Byte)
  | _, [] => []
  | n, r :: rs => line n boot r :: records boot (n + 1) rs

theorem Grown.writes (h : Grown X first next₀ lines log) (boot : BitVec 32) (rs : List Rec)
    (hfit : next₀ + lines.length + rs.length ≤ 2 ^ 32) :
    Grown X first next₀ (lines ++ records boot (next₀ + lines.length) rs)
      (rs.foldl (·.write boot) log) := by
  induction rs generalizing lines log with
  | nil =>
    rw [records, List.append_nil]
    exact h
  | cons r rs ih =>
    rw [List.length_cons] at hfit
    have hstep := ih (h.write (by omega) boot r) (by
      rw [List.length_append, List.length_singleton]
      omega)
    rw [List.length_append, List.length_singleton, ← Nat.add_assoc, List.append_assoc] at hstep
    exact hstep

theorem numbered_records {i : ℕ} (hr : rs[i]? = some r) (boot : BitVec 32) (n : ℕ) :
    ∃ A B, numbered n (records boot n rs) = A ++ ⟨n + i, line (n + i) boot r⟩ :: B ∧
      ∀ e ∈ A, e.seq < n + i := by
  induction rs generalizing n i with
  | nil => cases hr
  | cons r' rs ih =>
    cases i with
    | zero =>
      obtain rfl : r' = r := by simpa using hr
      exact ⟨[], numbered (n + 1) (records boot (n + 1) rs), rfl, fun e he => (by cases he)⟩
    | succ i =>
      obtain ⟨A, B, hsplit, hA⟩ := ih (by simpa using hr) (n + 1)
      rw [show n + 1 + i = n + (i + 1) by omega] at hsplit hA
      refine ⟨⟨n, line n boot r'⟩ :: A, B, by rw [records, numbered, hsplit]; rfl, ?_⟩
      exact List.forall_mem_cons.mpr ⟨by dsimp only; omega, hA⟩

/-- The numbers in a segment are below the names of the segments behind it. -/
def Chained (d : Dir) : Prop :=
  ∀ s ∈ d, ∀ t ∈ d, s.first < t.first → ∀ e ∈ readable s.bytes, e.seq < t.first

theorem record_piece (h : IsRecord first l) (hl : Single l) :
    chunks l = [l] ∧ complete (text l) = true := by
  obtain ⟨m, rfl⟩ : ∃ m, l = m ++ [newline] := List.getLast?_eq_some_iff.mp h.1
  rw [Single, List.dropLast_concat] at hl
  have hlen := h.2.2.1
  rw [List.length_append, List.length_singleton] at hlen
  exact ⟨chunks_line hl hlen, by rw [h.text, complete, List.getLast?_concat, decide_eq_true_eq]⟩

theorem Measured.facts (hm : Measured first bytes) (hfirst : first ≤ uint32Max) :
    Closed (kept first bytes) ∧ after true (chunks (kept first bytes)) = true ∧
      first ≤ (recover first bytes).next ∧ (recover first bytes).next ≤ uint32Max ∧
      (0 < (recover first bytes).good → first < (recover first bytes).next) := by
  rcases (recovered_iff first bytes).mpr hm with ⟨ls, l, rest, hlast, hk, hnext⟩ |
    ⟨hnone, hk, hnext⟩
  · have hrecord := hlast.record
    have hsingle := single_of_mem_pieces (s := bytes) (l := l) (by rw [hlast.split]; simp)
    obtain ⟨hchunks, hcomplete⟩ := record_piece hrecord hsingle
    have hflat : kept first bytes = ls.flatten ++ l := by
      rw [hk, List.flatten_append, List.flatten_singleton]
    have hclosed : Closed ls.flatten := by
      have hall := ends_of_pieces hlast.split
      rcases List.eq_nil_or_concat ls with rfl | ⟨ls', m, rfl⟩
      · exact closed_nil
      · intro c hc
        obtain ⟨m', hm'⟩ := List.getLast?_eq_some_iff.mp (hall m (by simp))
        rw [List.concat_eq_append, List.flatten_append, List.flatten_singleton, hm',
          ← List.append_assoc, List.getLast?_concat] at hc
        exact (Option.some.inj hc).symm
    obtain ⟨m, hm'⟩ := List.getLast?_eq_some_iff.mp hrecord.1
    refine ⟨fun c hc => ?_, ?_, ?_, ?_, fun _ => ?_⟩
    · rw [hflat, hm', ← List.append_assoc, List.getLast?_concat] at hc
      exact (Option.some.inj hc).symm
    · rw [hflat, chunks_append hclosed, hchunks, after_append, after, List.foldl_cons,
        List.foldl_nil, hcomplete]
    all_goals
      have hrange := hrecord.2.2.2.2
      omega
  · have hgood := (recoverLine_none { next := first } hnone).1
    rw [← recover_eq] at hgood
    rw [hk, hnext, hgood]
    exact ⟨closed_nil, rfl, le_rfl, hfirst, fun h => absurd h (Nat.lt_irrefl 0)⟩

theorem openLog_eq (h : Sorted (older ++ [⟨first, bytes⟩])) :
    openLog (older ++ [⟨first, bytes⟩]) =
      if segmentBytes ≤ (recover first bytes).good then
        ⟨Dir.append (older ++ [⟨first, kept first bytes⟩]) (recover first bytes).next [],
          (recover first bytes).next, (recover first bytes).next, 0⟩
      else ⟨older ++ [⟨first, kept first bytes⟩], (recover first bytes).next, first,
        (recover first bytes).good⟩ := by
  have hpos := h.pos (s := ⟨first, bytes⟩) (by simp)
  have hnewest : findSeg (older ++ [⟨first, bytes⟩]) false 0 = first := findSeg_newest h
  have hread : Dir.read (older ++ [⟨first, bytes⟩]) first = some bytes := read_eq h
  have hedit : ∀ f : List Byte → List Byte, Dir.edit (older ++ [⟨first, bytes⟩]) first f =
      older ++ [⟨first, f bytes⟩] := fun f => edit_eq h f
  have hkept : (if (recover first bytes).good < (recover first bytes).pos
      then Dir.edit (older ++ [⟨first, bytes⟩]) first (·.take (recover first bytes).good)
      else older ++ [⟨first, bytes⟩]) = older ++ [⟨first, kept first bytes⟩] := by
    rw [hedit, kept]
    split_ifs <;> rfl
  have hsorted : Sorted (older ++ [⟨first, kept first bytes⟩]) := h.congr (by simp)
  have happ : Dir.append (older ++ [⟨first, kept first bytes⟩]) first [] =
      older ++ [⟨first, kept first bytes⟩] := by
    have heq := append_eq hsorted []
    rwa [List.append_nil] at heq
  simp only [openLog, hnewest, hread, Option.getD_some, hkept, happ]
  rw [if_pos (show first ≠ 0 by dsimp only at hpos; omega)]

theorem Chained.kept (h : Chained (older ++ [⟨first, bytes⟩]))
    (hs : Sorted (older ++ [⟨first, bytes⟩])) (k : List Byte) :
    Chained (older ++ [⟨first, k⟩]) := by
  have hlast := (List.pairwise_append.mp hs.ascending).2.2
  intro s hmem t ht hst e he
  rcases List.mem_append.mp hmem with hmem | hmem
  · rcases List.mem_append.mp ht with ht | ht
    · exact h s (by simp [hmem]) t (by simp [ht]) hst e he
    · obtain rfl := List.mem_singleton.mp ht
      exact h s (by simp [hmem]) ⟨first, bytes⟩ (by simp) hst e he
  · obtain rfl := List.mem_singleton.mp hmem
    rcases List.mem_append.mp ht with ht | ht
    · have hlt := hlast t ht ⟨first, bytes⟩ (by simp)
      dsimp only at hlt hst
      omega
    · obtain rfl := List.mem_singleton.mp ht
      exact absurd hst (Nat.lt_irrefl _)

theorem open_grown (h : Sorted (older ++ [⟨first, bytes⟩]))
    (hc : Chained (older ++ [⟨first, bytes⟩])) (hm : Measured first bytes) :
    Grown (contents older ++ readable (kept first bytes)) first (recover first bytes).next []
      (openLog (older ++ [⟨first, bytes⟩])) := by
  have hpos := h.pos (s := ⟨first, bytes⟩) (by simp)
  obtain ⟨hclosed, hafter, hle, hmax, hgood⟩ := hm.facts hpos.2
  have hsorted : Sorted (older ++ [⟨first, kept first bytes⟩]) := h.congr (by simp)
  have hchain := hc.kept h (kept first bytes)
  have hcontents : contents (older ++ [⟨first, kept first bytes⟩]) =
      contents older ++ readable (kept first bytes) := by
    rw [contents_append, contents_cons]
    exact congrArg _ (List.append_nil _)
  have hmod : (recover first bytes).next = ((recover first bytes).next + 0) % 2 ^ 32 := by
    rw [uint32Max] at hmax
    omega
  have hopen : Grown (contents older ++ readable (kept first bytes)) first
      (recover first bytes).next []
      ⟨older ++ [⟨first, kept first bytes⟩], (recover first bytes).next, first,
        (recover first bytes).good⟩ :=
    ⟨hsorted, fun s hs t ht hst _ => hchain s hs t ht hst,
      hcontents.trans (List.append_nil _).symm, ⟨older, _, rfl, rfl, hclosed, hafter⟩, hmod,
      le_rfl, hle, hgood⟩
  rw [openLog_eq h]
  split_ifs with hfull
  · have hfresh := hgood (hfull.trans_lt' (by decide))
    exact hopen.fresh (by rw [uint32Max] at hmax; exact Nat.lt_succ_iff.mpr hmax) hfresh
  · exact hopen

theorem read_append_nil (h : ∃ s ∈ d, s.first = first) (n : ℕ) :
    (d.append n []).read first = d.read first := by
  rw [Dir.append]
  split_ifs with hany
  · have hid : d.edit n (· ++ []) = d := by
      rw [Dir.edit]
      refine (List.map_congr_left fun s _ => ?_).trans (List.map_id d)
      split_ifs
      · rw [List.append_nil]
        rfl
      · rfl
    rw [hid]
  · obtain ⟨s, hs, hfirst⟩ := h
    have hsome : (d.find? (·.first = first)).isSome := by
      rw [List.find?_isSome]
      exact ⟨s, hs, by simpa using hfirst⟩
    rw [Dir.read, Dir.read, List.find?_append, Option.or_of_isSome hsome]

theorem open_read (h : Sorted (older ++ [⟨first, bytes⟩])) :
    (openLog (older ++ [⟨first, bytes⟩])).dir.read first = some (kept first bytes) ∧
      (openLog (older ++ [⟨first, bytes⟩])).next = (recover first bytes).next := by
  have hsorted : Sorted (older ++ [⟨first, kept first bytes⟩]) := h.congr (by simp)
  have hread : Dir.read (older ++ [⟨first, kept first bytes⟩]) first = some (kept first bytes) :=
    read_eq hsorted
  rw [openLog_eq h]
  split_ifs
  · exact ⟨(read_append_nil ⟨⟨first, kept first bytes⟩, by simp, rfl⟩ _).trans hread, rfl⟩
  · exact ⟨hread, rfl⟩

end OpenCalifornia.SdLog
