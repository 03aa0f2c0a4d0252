import OpenCalifornia.SdLog.Recover

/-! # The order of the directory

Nothing the log does depends on the order in which `readdir` gives the files. -/

namespace OpenCalifornia.SdLog
open Lib Lib.Bits Lib.Paging

variable {d d' : Dir} {first : ℕ} {boot : BitVec 32} {log log' : Log}

/-- There is one file of each name. -/
def Distinct (d : Dir) : Prop := (d.map Seg.first).Nodup

theorem Distinct.perm (h : Distinct d) (hp : d.Perm d') : Distinct d' :=
  (hp.map Seg.first).nodup_iff.mp h

theorem exists_sorted (h : Distinct d) (hnamed : ∀ s ∈ d, segName s.first = true) :
    ∃ d', d.Perm d' ∧ Sorted d' := by
  have hp := List.mergeSort_perm d (fun s t => decide (s.first ≤ t.first))
  have hle : (d.mergeSort fun s t => decide (s.first ≤ t.first)).Pairwise (·.first ≤ ·.first) := by
    have hsort : (d.mergeSort fun s t => decide (s.first ≤ t.first)).Pairwise
        fun s t => decide (s.first ≤ t.first) = true :=
      List.pairwise_mergeSort (fun a b c hab hbc => by simp at *; omega)
        (fun a b => by simp; omega) d
    exact hsort.imp fun hst => by simpa using hst
  have hne : (d.mergeSort fun s t => decide (s.first ≤ t.first)).Pairwise (·.first ≠ ·.first) :=
    List.pairwise_map.mp (h.perm hp.symm)
  exact ⟨_, hp.symm, (hle.and hne).imp fun hst => lt_of_le_of_ne hst.1 hst.2,
    fun s hs => hnamed s (hp.mem_iff.mp hs)⟩

theorem Sorted.newest (h : Sorted d) {s : Seg} (hs : s ∈ d) (hmax : ∀ t ∈ d, t.first ≤ s.first) :
    ∃ older, d = older ++ [s] := by
  obtain ⟨older, newer, rfl⟩ := List.mem_iff_append.mp hs
  cases newer with
  | nil => exact ⟨older, rfl⟩
  | cons t newer =>
    have hlt := (List.pairwise_cons.mp (List.pairwise_append.mp h.ascending).2.1).1 t
        List.mem_cons_self
    exact absurd (hmax t (by simp)) (by omega)

theorem segNear_perm (hp : d.Perm d') (ref : ℕ) (above : Bool) :
    segNear d ref above = segNear d' ref above := by
  have hcomm : RightCommutative fun (best : ℕ) (s : Seg) =>
      if segName s.first ∧ (if above then ref < s.first ∧ (best = 0 ∨ s.first < best)
        else s.first ≤ ref ∧ best < s.first) then s.first else best := by
    refine ⟨fun best s t => ?_⟩
    simp only [segName, decide_eq_true_eq]
    cases above <;> grind
  exact hp.foldl_eq 0

theorem findSeg_perm (hp : d.Perm d') (wantOldest : Bool) (skip : ℕ) :
    findSeg d wantOldest skip = findSeg d' wantOldest skip := by
  have hcomm : RightCommutative fun (best : ℕ) (s : Seg) =>
      if segName s.first ∧ s.first ≠ skip ∧
          (best = 0 ∨ if wantOldest then s.first < best else best < s.first) then s.first
      else best := by
    refine ⟨fun best s t => ?_⟩
    simp only [segName, decide_eq_true_eq]
    cases wantOldest <;> grind
  exact hp.foldl_eq 0

theorem find_perm (h : Distinct d) (hp : d.Perm d') (first : ℕ) :
    d.find? (·.first = first) = d'.find? (·.first = first) := by
  have hsome : ∀ {d : Dir} {s : Seg}, Distinct d →
      (d.find? (·.first = first) = some s ↔ s ∈ d ∧ s.first = first) := by
    intro d s hd
    constructor
    · intro hs
      exact ⟨List.mem_of_find?_eq_some hs, by simpa using List.find?_some hs⟩
    · rintro ⟨hs, rfl⟩
      cases hfind : d.find? (·.first = s.first) with
      | none => exact absurd (by simp) (List.find?_eq_none.mp hfind s hs)
      | some t =>
        have ht : t.first = s.first := by simpa using List.find?_some hfind
        rw [List.inj_on_of_nodup_map hd (List.mem_of_find?_eq_some hfind) hs ht]
  refine Option.ext fun s => ?_
  rw [hsome h, hsome (h.perm hp), hp.mem_iff]

theorem read_perm (h : Distinct d) (hp : d.Perm d') (first : ℕ) : d.read first = d'.read first := by
  rw [Dir.read, Dir.read, find_perm h hp]

theorem pageSegs_perm (h : Distinct d) (hp : d.Perm d') (max room k seg : ℕ) (o : Out) :
    pageSegs d max room k seg o = pageSegs d' max room k seg o := by
  induction k generalizing seg o with
  | zero => rfl
  | succ k ih =>
    rw [pageSegs, pageSegs, find_perm h hp, segNear_perm hp]
    simp only [ih]

theorem page_perm (h : Distinct d) (hp : d.Perm d') (boot : BitVec 32) (cap max since : ℕ) :
    page d boot cap max since = page d' boot cap max since := by
  have hstart : pageStart d since = pageStart d' since := by
    rw [pageStart, pageStart, segNear_perm hp, segNear_perm hp]
  rw [page, page, hstart, hp.length_eq]
  simp only [pageSegs_perm h hp]

theorem map_edit (d : Dir) (first : ℕ) (f : List Byte → List Byte) :
    (d.edit first f).map Seg.first = d.map Seg.first := by
  rw [Dir.edit, List.map_map]
  refine List.map_congr_left fun s _ => ?_
  rw [Function.comp_apply]
  split_ifs <;> rfl

theorem edit_perm (hp : d.Perm d') (first : ℕ) (f : List Byte → List Byte) :
    (d.edit first f).Perm (d'.edit first f) := hp.map _

theorem Distinct.edit (h : Distinct d) (first : ℕ) (f : List Byte → List Byte) :
    Distinct (d.edit first f) := by
  rw [Distinct, map_edit]
  exact h

theorem append_perm (hp : d.Perm d') (first : ℕ) (l : List Byte) :
    (d.append first l).Perm (d'.append first l) := by
  have hany : (d.any (·.first = first)) = d'.any (·.first = first) :=
    Bool.eq_iff_iff.mpr (by simp only [List.any_eq_true, hp.mem_iff])
  rw [Dir.append, Dir.append, hany]
  split_ifs
  · exact edit_perm hp first _
  · exact hp.append_right _

theorem Distinct.append (h : Distinct d) (first : ℕ) (l : List Byte) :
    Distinct (d.append first l) := by
  rw [Dir.append]
  split_ifs with hany
  · exact h.edit first _
  · rw [Distinct, List.map_append, List.nodup_append]
    refine ⟨h, List.nodup_singleton _, ?_⟩
    rintro n hn m hm rfl
    obtain ⟨s, hs, rfl⟩ := List.mem_map.mp hn
    rw [List.map_singleton, List.mem_singleton] at hm
    exact hany (by simpa using ⟨s, hs, hm⟩)

/-- The same log but for the order of the files. -/
structure Log.Same (log log' : Log) : Prop where
  distinct : Distinct log.dir
  dir : log.dir.Perm log'.dir
  next : log.next = log'.next
  segFirst : log.segFirst = log'.segFirst
  segBytes : log.segBytes = log'.segBytes

theorem open_same (h : Distinct d) (hp : d.Perm d') : (openLog d).Same (openLog d') := by
  rw [openLog, openLog, findSeg_perm hp, read_perm h hp]
  by_cases hnew : findSeg d' false 0 ≠ 0
  · simp only [if_pos hnew]
    generalize recover (findSeg d' false 0) _ = r
    have hcut : Distinct (if r.good < r.pos then d.edit (findSeg d' false 0) (·.take r.good)
        else d) ∧
        (if r.good < r.pos then d.edit (findSeg d' false 0) (·.take r.good) else d).Perm
          (if r.good < r.pos then d'.edit (findSeg d' false 0) (·.take r.good) else d') := by
      split_ifs
      · exact ⟨h.edit _ _, edit_perm hp _ _⟩
      · exact ⟨h, hp⟩
    by_cases hfull : segmentBytes ≤ r.good
    · simp only [if_pos hfull]
      exact ⟨hcut.1.append _ _, append_perm hcut.2 _ _, rfl, rfl, rfl⟩
    · simp only [if_neg hfull]
      exact ⟨hcut.1.append _ _, append_perm hcut.2 _ _, rfl, rfl, rfl⟩
  · simp only [if_neg hnew]
    exact ⟨h.append _ _, append_perm hp _ _, rfl, rfl, rfl⟩

theorem Log.Same.roll (h : log.Same log') (l : List Byte) : (log.roll l).Same (log'.roll l) := by
  rw [Log.roll, Log.roll, h.segBytes, h.next]
  split_ifs
  · exact ⟨h.distinct.append _ _, append_perm h.dir _ _, rfl, rfl, rfl⟩
  · exact h

theorem Log.Same.write (h : log.Same log') (boot : BitVec 32) (r : Rec) :
    (log.write boot r).Same (log'.write boot r) := by
  rw [Log.write, Log.write, h.next]
  cases format lineMax log'.next boot r with
  | none => exact h
  | some l =>
    have hroll := h.roll l
    refine ⟨hroll.distinct.append _ _, ?_, ?_, hroll.segFirst, ?_⟩
    · dsimp only
      rw [hroll.segFirst]
      exact append_perm hroll.dir _ _
    · dsimp only
      rw [hroll.next]
    · dsimp only
      rw [hroll.segBytes]

theorem Log.Same.writes (h : log.Same log') (boot : BitVec 32) (rs : List Rec) :
    (rs.foldl (·.write boot) log).Same (rs.foldl (·.write boot) log') := by
  induction rs generalizing log log' with
  | nil => exact h
  | cons r rs ih => exact ih (h.write boot r)

end OpenCalifornia.SdLog
