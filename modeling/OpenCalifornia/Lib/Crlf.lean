import OpenCalifornia.Lib.Bits

/-! # Lines that end in CR LF

A head is a list of lines and an empty line behind them. It ends with the first two line ends in a
row, at the same place for all that begins with it. -/

namespace OpenCalifornia.Lib.Crlf
open Bits

variable {l s t u : List Byte} {ls hs : List (List Byte)} {c d : Byte} {h n : ℕ}

def crlf : List Byte := [0x0D, 0x0A]

/-- No line ends in it. -/
def Free (l : List Byte) : Prop := ¬ crlf <:+: l

def unlines (ls : List (List Byte)) : List Byte := ls.flatMap (· ++ crlf)

/-- What stands between the line ends. -/
def lines : List Byte → List (List Byte)
  | c :: d :: s =>
    if c = 0x0D ∧ d = 0x0A then [] :: lines s else (lines (d :: s)).modifyHead (c :: ·)
  | s => [s]

/-- The end of the first empty line. -/
def headEnd : List Byte → Option ℕ
  | [] => none
  | c :: s => if crlf ++ crlf <+: c :: s then some 4 else (headEnd s).map (· + 1)

@[simp] theorem unlines_nil : unlines [] = [] := rfl

@[simp] theorem unlines_cons (l : List Byte) (ls : List (List Byte)) :
    unlines (l :: ls) = l ++ crlf ++ unlines ls := List.flatMap_cons

theorem crlf_starts : crlf <+: c :: d :: s ↔ c = 0x0D ∧ d = 0x0A := by
  rw [crlf, List.cons_prefix_cons, List.cons_prefix_cons]
  simp [eq_comm]

theorem free_nil : Free [] := by
  rw [Free, List.infix_nil]
  exact List.cons_ne_nil _ _

theorem free_cons : Free (c :: l) ↔ ¬ crlf <+: c :: l ∧ Free l := by
  rw [Free, Free, List.infix_cons_iff, not_or]

theorem not_crlf_starts (hl : Free (c :: l)) (t : List Byte) : ¬ crlf <+: c :: l ++ crlf ++ t := by
  intro hp
  cases l with
  | nil =>
    have hd := (crlf_starts (s := 0x0A :: t)).mp hp
    exact absurd hd.2 (by decide)
  | cons d l =>
    have hcd := crlf_starts.mp hp
    exact (free_cons.mp hl).1 (crlf_starts.mpr hcd)

theorem lines_ne_nil (s : List Byte) : lines s ≠ [] := by
  fun_induction lines s with
  | case1 c d s hc ih => exact List.cons_ne_nil _ _
  | case2 c d s hc ih => simpa [List.modifyHead_eq_nil_iff] using ih
  | case3 s hs => exact List.cons_ne_nil _ _

theorem unlines_modifyHead (c : Byte) (hls : ls ≠ []) :
    unlines (ls.modifyHead (c :: ·)) = c :: unlines ls := by
  cases ls with
  | nil => exact absurd rfl hls
  | cons l ls => rfl

theorem unlines_lines (s : List Byte) : unlines (lines s) = s ++ crlf := by
  fun_induction lines s with
  | case1 c d s hc ih =>
    rw [unlines_cons, ih, hc.1, hc.2]
    rfl
  | case2 c d s hc ih =>
    rw [unlines_modifyHead c (lines_ne_nil _), ih]
    rfl
  | case3 s hs => simp

theorem crlf_starts_of_lines {m : List Byte} (hlines : lines (d :: s) = m :: ls)
    (hp : crlf <+: c :: m) : c = 0x0D ∧ d = 0x0A := by
  have hs := unlines_lines (d :: s)
  rw [hlines, unlines_cons] at hs
  cases m with
  | nil => exact absurd hp.length_le (by simp [crlf])
  | cons e m =>
    have he : e = d := (List.cons.inj hs).1
    rw [← he]
    exact crlf_starts.mp hp

theorem free_of_mem_lines (hl : l ∈ lines s) : Free l := by
  fun_induction lines s generalizing l with
  | case1 c d s hc ih =>
    cases hl with
    | head => exact free_nil
    | tail _ hl => exact ih hl
  | case2 c d s hc ih =>
    cases hlines : lines (d :: s) with
    | nil => exact absurd hlines (lines_ne_nil _)
    | cons m ls =>
      rw [hlines] at hl ih
      cases hl with
      | head =>
        exact free_cons.mpr ⟨fun hp => hc (crlf_starts_of_lines hlines hp), ih List.mem_cons_self⟩
      | tail _ hl => exact ih (List.mem_cons_of_mem _ hl)
  | case3 s hs =>
    rw [List.mem_singleton] at hl
    rw [hl]
    intro hin
    match s, hs with
    | [], _ => exact free_nil hin
    | [c], _ => exact absurd hin.length_le (by simp [crlf])
    | c :: d :: s, hs => exact hs c d s rfl

theorem free_append_inj {m : List Byte} (hl : Free l) (hm : Free m)
    (h : l ++ crlf ++ t = m ++ crlf ++ u) : l = m ∧ t = u := by
  induction l generalizing m with
  | nil =>
    cases m with
    | nil => exact ⟨rfl, List.append_cancel_left h⟩
    | cons c m => exact absurd (h ▸ List.prefix_append _ _) (not_crlf_starts hm u)
  | cons c l ih =>
    cases m with
    | nil => exact absurd (h ▸ List.prefix_append _ _) (not_crlf_starts hl t)
    | cons d m =>
      obtain ⟨hcd, htail⟩ := List.cons.inj h
      obtain ⟨hlm, htu⟩ := ih (free_cons.mp hl).2 (free_cons.mp hm).2 htail
      exact ⟨by rw [hcd, hlm], htu⟩

theorem unlines_inj (hls : ∀ l ∈ ls, Free l) (hhs : ∀ l ∈ hs, Free l)
    (h : unlines ls = unlines hs) : ls = hs := by
  induction ls generalizing hs with
  | nil =>
    cases hs with
    | nil => rfl
    | cons m hs => simp [crlf] at h
  | cons l ls ih =>
    cases hs with
    | nil => simp [crlf] at h
    | cons m hs =>
      rw [unlines_cons, unlines_cons] at h
      obtain ⟨hl, hls⟩ := List.forall_mem_cons.mp hls
      obtain ⟨hm, hhs⟩ := List.forall_mem_cons.mp hhs
      obtain ⟨hlm, htail⟩ := free_append_inj hl hm h
      rw [hlm, ih hls hhs htail]

theorem headEnd_bounds (hh : headEnd s = some h) : 4 ≤ h ∧ h ≤ s.length := by
  induction s generalizing h with
  | nil => exact absurd hh (by simp [headEnd])
  | cons c s ih =>
    rw [headEnd] at hh
    by_cases hp : crlf ++ crlf <+: c :: s
    · rw [if_pos hp, Option.some.injEq] at hh
      have hlen := hp.length_le
      simp only [crlf, List.length_append, List.length_cons, List.length_nil] at hlen ⊢
      omega
    · rw [if_neg hp] at hh
      obtain ⟨k, hk, rfl⟩ := Option.map_eq_some_iff.mp hh
      have hle := ih hk
      rw [List.length_cons]
      omega

theorem headEnd_append (hh : headEnd s = some h) (t : List Byte) : headEnd (s ++ t) = some h := by
  induction s generalizing h with
  | nil => exact absurd hh (by simp [headEnd])
  | cons c s ih =>
    have hlen := headEnd_bounds hh
    rw [headEnd] at hh
    rw [List.cons_append, headEnd, ← List.cons_append]
    by_cases hp : crlf ++ crlf <+: c :: s
    · rw [if_pos hp] at hh
      rw [if_pos (hp.trans (List.prefix_append _ _)), hh]
    · rw [if_neg hp] at hh
      obtain ⟨k, hk, rfl⟩ := Option.map_eq_some_iff.mp hh
      have hnp : ¬ crlf ++ crlf <+: c :: s ++ t := by
        intro hpt
        refine hp (List.prefix_of_prefix_length_le hpt (List.prefix_append _ _) ?_)
        simp only [crlf, List.length_append, List.length_cons, List.length_nil] at hlen ⊢
        omega
      rw [if_neg hnp, ih hk]
      rfl

theorem headEnd_take (hh : headEnd s = some h) (hn : h ≤ n) : headEnd (s.take n) = some h := by
  induction s generalizing h n with
  | nil => exact absurd hh (by simp [headEnd])
  | cons c s ih =>
    have hb := headEnd_bounds hh
    obtain ⟨n, rfl⟩ : ∃ k, n = k + 1 := ⟨n - 1, by omega⟩
    rw [headEnd] at hh
    rw [List.take_succ_cons, headEnd, ← List.take_succ_cons]
    by_cases hp : crlf ++ crlf <+: c :: s
    · rw [if_pos hp, Option.some.injEq] at hh
      have h4 : (crlf ++ crlf).length ≤ n + 1 := by
        simp only [crlf, List.length_append, List.length_cons, List.length_nil]
        omega
      rw [if_pos (List.prefix_take_iff.mpr ⟨hp, h4⟩), hh]
    · rw [if_neg hp] at hh
      obtain ⟨k, hk, rfl⟩ := Option.map_eq_some_iff.mp hh
      rw [if_neg fun ht => hp (ht.trans (List.take_prefix _ _)), ih hk (by omega)]
      rfl

theorem headEnd_line (hl : Free l) (u : List Byte) :
    headEnd (l ++ crlf ++ u) =
      if crlf <+: u then some (l.length + 4) else (headEnd u).map (· + (l.length + 2)) := by
  induction l with
  | nil =>
    by_cases hu : crlf <+: u
    · rw [if_pos hu]
      have hp : crlf ++ crlf <+: 0x0D :: 0x0A :: u := by
        rw [show (0x0D :: 0x0A :: u : List Byte) = crlf ++ u from rfl]
        exact (List.prefix_append_right_inj _).mpr hu
      exact if_pos hp
    · have hp : ¬ crlf ++ crlf <+: 0x0D :: 0x0A :: u := by
        rw [show (0x0D :: 0x0A :: u : List Byte) = crlf ++ u from rfl]
        exact fun h => hu ((List.prefix_append_right_inj _).mp h)
      have hq : ¬ crlf ++ crlf <+: 0x0A :: u := by
        intro h
        exact absurd (List.cons_prefix_cons.mp h).1 (by decide)
      rw [if_neg hu, show ([] ++ crlf ++ u : List Byte) = 0x0D :: 0x0A :: u from rfl, headEnd,
        if_neg hp, headEnd, if_neg hq, Option.map_map]
      rfl
  | cons c l ih =>
    have hp : ¬ crlf ++ crlf <+: c :: (l ++ crlf ++ u) := fun h =>
      not_crlf_starts hl u ((List.prefix_append _ _).trans h)
    rw [List.cons_append, List.cons_append, headEnd, if_neg hp, ih (free_cons.mp hl).2]
    by_cases hu : crlf <+: u
    · rw [if_pos hu, if_pos hu]
      rfl
    · rw [if_neg hu, if_neg hu, Option.map_map]
      rfl

/-- A head ends behind its lines when none of them but the first is empty, and only then. -/
theorem headEnd_unlines (hl : Free l) (hhs : ∀ m ∈ hs, Free m) (t : List Byte) :
    headEnd (unlines (l :: hs) ++ crlf ++ t) = some ((unlines (l :: hs)).length + 2) ↔
      ∀ m ∈ hs, m ≠ [] := by
  induction hs generalizing l with
  | nil =>
    rw [unlines_cons, unlines_nil, List.append_nil, List.append_assoc, headEnd_line hl,
      if_pos (List.prefix_append _ _)]
    simp [crlf]
  | cons m hs ih =>
    obtain ⟨hm, hrest⟩ := List.forall_mem_cons.mp hhs
    have hsplit : unlines (l :: m :: hs) ++ crlf ++ t =
        l ++ crlf ++ (unlines (m :: hs) ++ crlf ++ t) := by
      simp [List.append_assoc]
    have hlen : (unlines (l :: m :: hs)).length = (unlines (m :: hs)).length + (l.length + 2) := by
      simp only [unlines_cons, crlf, List.length_append, List.length_cons, List.length_nil]
      omega
    rw [hsplit, headEnd_line hl, hlen]
    cases m with
    | nil =>
      rw [if_pos (by simp)]
      simp [crlf]
    | cons c m =>
      have hnp : ¬ crlf <+: unlines ((c :: m) :: hs) ++ crlf ++ t := by
        rw [unlines_cons, List.append_assoc, List.append_assoc]
        exact not_crlf_starts hm _
      rw [if_neg hnp, List.forall_mem_cons, ← ih hm hrest, Option.map_eq_some_iff]
      constructor
      · rintro ⟨k, hk, hsum⟩
        rw [hk]
        exact ⟨List.cons_ne_nil _ _, congrArg some (by omega)⟩
      · rintro ⟨-, hk⟩
        exact ⟨_, hk, by omega⟩

theorem headEnd_split (hh : headEnd s = some h) : s.take h = s.take (h - 4) ++ crlf ++ crlf := by
  induction s generalizing h with
  | nil => exact absurd hh (by simp [headEnd])
  | cons c s ih =>
    rw [headEnd] at hh
    by_cases hp : crlf ++ crlf <+: c :: s
    · rw [if_pos hp, Option.some.injEq] at hh
      rw [← hh]
      exact (List.prefix_iff_eq_take.mp hp).symm
    · rw [if_neg hp] at hh
      obtain ⟨k, hk, rfl⟩ := Option.map_eq_some_iff.mp hh
      have hb := headEnd_bounds hk
      have hsub : k + 1 - 4 = k - 4 + 1 := by omega
      rw [hsub, List.take_succ_cons, List.take_succ_cons, ih hk]
      rfl

theorem lines_of_headEnd (hh : headEnd s = some h) :
    ∃ l hs, lines (s.take (h - 4)) = l :: hs ∧ s = unlines (l :: hs) ++ crlf ++ s.drop h ∧
      h = (unlines (l :: hs)).length + 2 ∧ Free l ∧ ∀ m ∈ hs, Free m ∧ m ≠ [] := by
  cases hlines : lines (s.take (h - 4)) with
  | nil => exact absurd hlines (lines_ne_nil _)
  | cons l hs =>
    have hfree : ∀ m ∈ l :: hs, Free m := fun m hm => free_of_mem_lines (hlines ▸ hm)
    obtain ⟨hl, hhs⟩ := List.forall_mem_cons.mp hfree
    have htake : s.take h = unlines (l :: hs) ++ crlf := by
      rw [headEnd_split hh, ← unlines_lines (s.take (h - 4)), hlines]
    have hsplit : s = unlines (l :: hs) ++ crlf ++ s.drop h := by
      rw [← htake, List.take_append_drop]
    have hlen : h = (unlines (l :: hs)).length + 2 := by
      have hcongr := congrArg List.length htake
      rw [List.length_take_of_le (headEnd_bounds hh).2, List.length_append] at hcongr
      exact hcongr
    have hne : ∀ m ∈ hs, m ≠ [] := by
      refine (headEnd_unlines hl hhs (s.drop h)).mp ?_
      rw [← hsplit, hh, ← hlen]
    exact ⟨l, hs, rfl, hsplit, hlen, hl, fun m hm => ⟨hhs m hm, hne m hm⟩⟩

theorem headEnd_of_lines (hl : Free l) (hhs : ∀ m ∈ hs, Free m ∧ m ≠ [])
    (hs' : s = unlines (l :: hs) ++ crlf ++ t) :
    headEnd s = some ((unlines (l :: hs)).length + 2) ∧
      lines (s.take ((unlines (l :: hs)).length + 2 - 4)) = l :: hs := by
  have hend : headEnd s = some ((unlines (l :: hs)).length + 2) := by
    rw [hs']
    exact (headEnd_unlines hl (fun m hm => (hhs m hm).1) t).mpr fun m hm => (hhs m hm).2
  refine ⟨hend, ?_⟩
  obtain ⟨l', hs'', hlines, hsplit, hlen, hl', hhs'⟩ := lines_of_headEnd hend
  rw [hlines]
  refine unlines_inj (List.forall_mem_cons.mpr ⟨hl', fun m hm => (hhs' m hm).1⟩)
    (List.forall_mem_cons.mpr ⟨hl, fun m hm => (hhs m hm).1⟩) ?_
  rw [hs', List.append_assoc, List.append_assoc] at hsplit
  exact (List.append_inj_left hsplit (by omega)).symm

end OpenCalifornia.Lib.Crlf
