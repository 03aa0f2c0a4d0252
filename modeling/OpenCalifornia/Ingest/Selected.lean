import OpenCalifornia.Ingest.Slots

/-! # Which records are written

Of a function's gap records: the last one of each slot that a record of a later slot has ended, and
each one whose state codes differ from those before it, with the one before it. -/

namespace OpenCalifornia.Ingest
open Lib (Dict)

/-- The entries that are due by what stands before and behind them. -/
def select {γ : Type} (due : List γ → γ → List γ → Prop) [∀ pre x post, Decidable (due pre x post)]
    (pre : List γ) : List γ → List γ
  | [] => []
  | x :: post => (if due pre x post then [x] else []) ++ select due (pre ++ [x]) post

theorem select_sublist {γ : Type} (due : List γ → γ → List γ → Prop)
    [∀ pre x post, Decidable (due pre x post)] (pre l : List γ) :
    (select due pre l).Sublist l := by
  induction l generalizing pre with
  | nil => exact .slnil
  | cons x l ih =>
    rw [select]
    split_ifs
    · exact (ih _).cons_cons x
    · exact (ih _).cons x

theorem mem_select {γ : Type} {due : List γ → γ → List γ → Prop}
    [∀ pre x post, Decidable (due pre x post)] {pre l : List γ} {x : γ}
    (h : x ∈ select due pre l) :
    ∃ l₁ l₂, l = l₁ ++ x :: l₂ ∧ due (pre ++ l₁) x l₂ := by
  induction l generalizing pre with
  | nil => exact absurd h List.not_mem_nil
  | cons y l ih =>
    rw [select, List.mem_append] at h
    rcases h with h | h
    · split_ifs at h with hd
      · obtain rfl := List.mem_singleton.mp h
        exact ⟨[], l, rfl, by simpa using hd⟩
      · exact absurd h List.not_mem_nil
    · obtain ⟨l₁, l₂, rfl, hd⟩ := ih h
      exact ⟨y :: l₁, l₂, rfl, by simpa using hd⟩

variable {α β : Type} (numericFields : α → Dict β) [DecidableEq β]

def Rec.slot (x : Rec α) : ℤ := slotOf x.ts

def Rec.point (x : Rec α) : Point α := ⟨x.fn, x.ts, x.interp⟩

def gaps (f : String) (l : List (Rec α)) : List (Rec α) := l.filter fun x => x.gapOf f

/-- The state codes of the next gap record differ. -/
def ChangesNext (f : String) (x : Rec α) (post : List (Rec α)) : Prop :=
  ∃ y ∈ (gaps f post).head?, differs numericFields x.interp y.interp

def LastOfSlot (f : String) (x : Rec α) (post : List (Rec α)) : Prop :=
  ∀ y ∈ post, y.gapOf f → y.slot ≠ x.slot

/-- Let go by what follows: by a change, or by a record of a later slot. -/
def Leaves (f : String) (x : Rec α) (post : List (Rec α)) : Prop :=
  ChangesNext numericFields f x post ∨ LastOfSlot f x post ∧ ∃ y ∈ post, x.slot < y.slot

/-- The state codes differ from those of the gap record before it. -/
def Changed (f : String) (pre : List (Rec α)) (x : Rec α) : Prop :=
  ∃ y ∈ (gaps f pre).getLast?, differs numericFields y.interp x.interp

def Due (f : String) (pre : List (Rec α)) (x : Rec α) (post : List (Rec α)) : Prop :=
  x.gapOf f ∧ (Changed numericFields f pre x ∨ Leaves numericFields f x post)

instance (i j : α) : Decidable (differs numericFields i j) :=
  inferInstanceAs (Decidable (_ = _))

instance (f : String) (x : Rec α) (post : List (Rec α)) :
    Decidable (ChangesNext numericFields f x post) :=
  inferInstanceAs (Decidable (∃ y ∈ (gaps f post).head?, _))

instance (f : String) (x : Rec α) (post : List (Rec α)) : Decidable (LastOfSlot f x post) :=
  inferInstanceAs (Decidable (∀ y ∈ post, _ → _))

instance (f : String) (x : Rec α) (post : List (Rec α)) :
    Decidable (Leaves numericFields f x post) :=
  inferInstanceAs (Decidable (_ ∨ (_ ∧ _)))

instance (f : String) (pre : List (Rec α)) (x : Rec α) :
    Decidable (Changed numericFields f pre x) :=
  inferInstanceAs (Decidable (∃ y ∈ (gaps f pre).getLast?, _))

instance (f : String) (pre : List (Rec α)) (x : Rec α) (post : List (Rec α)) :
    Decidable (Due numericFields f pre x post) :=
  inferInstanceAs (Decidable (_ ∧ _))

/-- No gap record of the function is older than a record before it. -/
def InOrder (f : String) (l : List (Rec α)) : Prop :=
  l.Pairwise fun x y => y.gapOf f → x.ts ≤ y.ts

instance (f : String) (l : List (Rec α)) : Decidable (InOrder f l) :=
  inferInstanceAs (Decidable (l.Pairwise _))

theorem slot_mono {x y : Rec α} (h : x.ts ≤ y.ts) : x.slot ≤ y.slot :=
  Int.ediv_le_ediv (by decide) h

variable {numericFields} {f : String} {x y : Rec α} {xs : List (Rec α)}

@[simp] theorem gaps_cons_of_gap (h : x.gapOf f) : gaps f (x :: xs) = x :: gaps f xs := by
  simp [gaps, h]

@[simp] theorem gaps_cons_of_not (h : ¬ x.gapOf f) : gaps f (x :: xs) = gaps f xs := by
  simp [gaps, h]

theorem leaves_of_later (ho : InOrder f (y :: xs)) (h : x.slot < y.slot) :
    Leaves numericFields f x (y :: xs) := by
  refine .inr ⟨fun z hz hg => ?_, y, List.mem_cons_self, h⟩
  have hy : y.slot ≤ z.slot := by
    rcases List.mem_cons.mp hz with rfl | hz
    · exact le_rfl
    · exact slot_mono (List.rel_of_pairwise_cons ho hz hg)
  exact (h.trans_le hy).ne'

theorem leaves_cons_other (h : ¬ x.slot < y.slot) (hg : ¬ y.gapOf f) :
    Leaves numericFields f x (y :: xs) ↔ Leaves numericFields f x xs := by
  simp only [Leaves, ChangesNext, LastOfSlot, gaps_cons_of_not hg, List.forall_mem_cons,
    List.exists_mem_cons_iff]
  have hy : (y.gapOf f → y.slot ≠ x.slot) ↔ True := iff_true_intro fun h => absurd h hg
  simp only [hy, h, true_and, false_or]

theorem leaves_cons_gap (h : ¬ x.slot < y.slot) (hg : y.gapOf f) (hxy : x.ts ≤ y.ts) :
    Leaves numericFields f x (y :: xs) ↔ differs numericFields x.interp y.interp := by
  have hs : y.slot = x.slot := le_antisymm (not_lt.mp h) (slot_mono hxy)
  simp only [Leaves, ChangesNext, LastOfSlot, gaps_cons_of_gap hg, List.head?_cons, Option.mem_def,
    Option.some.injEq, exists_eq_left', List.forall_mem_cons]
  exact or_iff_left fun hn => hn.1.1 hg hs

variable (numericFields f) in
/-- A view behind the last gap record: it was written, or it waits. -/
inductive At : Option (Rec α) → View α β → Prop
  | written (last : Option (Rec α)) :
      At last ⟨none, last.map fun r => stateCodes numericFields r.interp⟩
  | waits {r : Rec α} (hr : r.gapOf f) (codes : Option (Dict β)) :
      At (some r) ⟨some (r.ts, r.interp), codes⟩

variable (numericFields f) in
/-- The record that waits, where what follows lets it go. -/
def leaving (v : View α β) (last : Option (Rec α)) (post : List (Rec α)) : List (Point α) :=
  if v.pending.isSome then
    (last.toList.filter fun r => Leaves numericFields f r post).map Rec.point
  else []

variable (numericFields f) in
def duePoint (pre : List (Rec α)) (x : Rec α) (post : List (Rec α)) : List (Point α) :=
  if Due numericFields f pre x post then [x.point] else []

variable {last : Option (Rec α)} {v : View α β} {pre : List (Rec α)} {r : Rec α}

theorem leaving_written (last : Option (Rec α)) (c : Option (Dict β)) (post : List (Rec α)) :
    leaving numericFields f (⟨none, c⟩ : View α β) last post = [] := rfl

theorem leaving_waits (r : Rec α) (c : Option (Dict β)) (post : List (Rec α)) :
    leaving numericFields f (⟨some (r.ts, r.interp), c⟩ : View α β) (some r) post =
      if Leaves numericFields f r post then [r.point] else [] := by
  by_cases h : Leaves numericFields f r post <;> simp [leaving, h]

theorem take_changed {t : ℤ} {i j : α} (hp : v.prev numericFields = some
    (stateCodes numericFields i)) (hd : differs numericFields i j) :
    v.take numericFields f t j =
      ((v.release numericFields f).1 ++ [⟨f, t, j⟩],
      ⟨none, some (stateCodes numericFields j)⟩) := by
  refine if_pos ?_
  rw [hp]
  simpa [differs] using hd

theorem take_unchanged {t : ℤ} {j : α} (hp : v.prev numericFields =
      last.map fun r => stateCodes numericFields r.interp)
    (hd : ∀ r ∈ last, ¬ differs numericFields r.interp j) :
    v.take numericFields f t j = ([], ⟨some (t, j), v.codes⟩) := by
  refine if_neg ?_
  rw [hp]
  cases last with
  | none => simp
  | some r => simpa [differs] using hd r rfl

theorem due_iff (hx : x.gapOf f) (hd : ¬ Changed numericFields f pre x) :
    Due numericFields f pre x xs ↔ Leaves numericFields f x xs :=
  ⟨fun h => h.2.resolve_left hd, fun h => ⟨hx, .inr h⟩⟩

variable (numericFields xs) in
theorem take_written (hx : x.gapOf f) (hl : (gaps f pre).getLast? = last) :
    let s := View.take numericFields f
      ⟨none, last.map fun r => stateCodes numericFields r.interp⟩ x.ts x.interp
    At numericFields f (some x) s.2 ∧
      s.1 ++ leaving numericFields f s.2 (some x) xs = duePoint numericFields f pre x xs := by
  obtain ⟨rfl, hc⟩ := id hx
  by_cases hd : Changed numericFields x.fn pre x
  · have hdue : Due numericFields x.fn pre x xs := ⟨hx, .inl hd⟩
    obtain ⟨y, hy, hyx⟩ := hd
    rw [hl] at hy
    obtain rfl := Option.mem_def.mp hy
    rw [take_changed rfl hyx, duePoint, if_pos hdue]
    exact ⟨.written (some x), rfl⟩
  · rw [take_unchanged rfl fun r hr h => hd ⟨r, by rwa [hl], h⟩]
    refine ⟨.waits hx _, ?_⟩
    simp only [List.nil_append, leaving_waits, duePoint, due_iff hx hd]

variable (numericFields xs) in
theorem take_waits (hx : x.gapOf f) (hl : (gaps f pre).getLast? = some r) (c : Option (Dict β)) :
    let s := View.take numericFields f ⟨some (r.ts, r.interp), c⟩ x.ts x.interp
    At numericFields f (some x) s.2 ∧
      s.1 ++ leaving numericFields f s.2 (some x) xs =
        (if differs numericFields r.interp x.interp then [(⟨f, r.ts, r.interp⟩ : Point α)]
          else []) ++
          duePoint numericFields f pre x xs := by
  obtain ⟨rfl, hc⟩ := id hx
  have hch : Changed numericFields x.fn pre x ↔ differs numericFields r.interp x.interp := by
    simp [Changed, hl]
  by_cases hd : differs numericFields r.interp x.interp
  · have hdue : Due numericFields x.fn pre x xs := ⟨hx, .inl (hch.mpr hd)⟩
    rw [take_changed rfl hd, if_pos hd, duePoint, if_pos hdue]
    exact ⟨.written (some x), rfl⟩
  · have hprev : (⟨some (r.ts, r.interp), c⟩ : View α β).prev numericFields =
        (some r).map fun r => stateCodes numericFields r.interp := rfl
    rw [take_unchanged hprev (by simpa using hd), if_neg hd]
    refine ⟨.waits hx _, ?_⟩
    simp only [List.nil_append, leaving_waits, duePoint, due_iff hx fun h => hd (hch.mp h)]

variable (xs) in
theorem next_points (hv : At numericFields f last v) (hl : (gaps f pre).getLast? = last)
    (ho : InOrder f (pre ++ x :: xs)) :
    At numericFields f (gaps f (pre ++ [x])).getLast? (v.next numericFields f x).2 ∧
      (v.next numericFields f x).1 ++
          leaving numericFields f (v.next numericFields f x).2 (gaps f (pre ++ [x])).getLast? xs =
        leaving numericFields f v last (x :: xs) ++ duePoint numericFields f pre x xs := by
  have hox : InOrder f (x :: xs) := (List.pairwise_append.mp ho).2.1
  by_cases hx : x.gapOf f
  · have hlast : (gaps f (pre ++ [x])).getLast? = some x := by simp [gaps, hx]
    rw [hlast]
    cases hv with
    | written =>
      have h := take_written numericFields xs hx hl
      simp only [View.next, View.close, if_pos hx, leaving_written, List.nil_append]
      exact h
    | waits hr c =>
      rename_i r
      have hrx : r.ts ≤ x.ts := by
        have hm : r ∈ gaps f pre := List.mem_of_getLast? hl
        exact (List.pairwise_append.mp ho).2.2 r (List.mem_filter.mp hm).1 x List.mem_cons_self hx
      obtain ⟨rfl, -⟩ := id hr
      by_cases hs : r.slot < x.slot
      · have h := take_written numericFields xs hx hl
        have hs' : slotOf r.ts < slotOf x.ts := hs
        rw [leaving_waits, if_pos (leaves_of_later hox hs)]
        simp only [View.next, View.close, if_pos hx, Option.any_some, hs', decide_true, if_true,
          View.release]
        simp only [Option.map_some] at h
        exact ⟨h.1, by rw [List.append_assoc, h.2]; rfl⟩
      · have h := take_waits numericFields xs hx hl c
        have hs' : ¬ slotOf r.ts < slotOf x.ts := hs
        rw [leaving_waits]
        simp only [leaves_cons_gap hs hx hrx, View.next, View.close, if_pos hx,
          Option.any_some, hs', decide_false, Bool.false_eq_true, if_false, List.nil_append]
        exact h
  · have hlast : (gaps f (pre ++ [x])).getLast? = last := by simpa [gaps, hx] using hl
    have hdue : duePoint numericFields f pre x xs = [] := if_neg fun h => hx h.1
    rw [hlast, hdue, List.append_nil]
    cases hv with
    | written =>
      simp only [View.next, View.close, if_neg hx]
      exact ⟨.written _, rfl⟩
    | waits hr c =>
      rename_i r
      obtain ⟨rfl, -⟩ := id hr
      by_cases hs : r.slot < x.slot
      · have hs' : slotOf r.ts < slotOf x.ts := hs
        rw [leaving_waits, if_pos (leaves_of_later hox hs)]
        simp only [View.next, View.close, if_neg hx, Option.any_some, hs', decide_true, if_true,
          View.release]
        exact ⟨.written (some r), rfl⟩
      · have hs' : ¬ slotOf r.ts < slotOf x.ts := hs
        simp only [View.next, View.close, if_neg hx, Option.any_some, hs', decide_false,
          Bool.false_eq_true, if_false, List.nil_append, leaving_waits, leaves_cons_other hs hx]
        exact ⟨.waits hr c, trivial⟩

variable (numericFields pre) in
theorem run_points (hv : At numericFields f last v) (hl : (gaps f pre).getLast? = last)
    (ho : InOrder f (pre ++ xs)) :
    (v.run numericFields f xs).1 = leaving numericFields f v last xs ++
      (select (Due numericFields f) pre xs).map Rec.point := by
  induction xs generalizing pre v last with
  | nil =>
    cases hv with
    | written => rfl
    | waits => simp [View.run, select, leaving, Leaves, ChangesNext, gaps]
  | cons x xs ih =>
    obtain ⟨hv', he⟩ := next_points xs hv hl ho
    have hrest := ih _ hv' rfl (by simpa using ho)
    have hsel : (if Due numericFields f pre x xs then [x] else []).map Rec.point =
        duePoint numericFields f pre x xs := by
      rw [duePoint]
      split_ifs <;> rfl
    rw [run_cons, select, List.map_append, hsel, hrest, ← List.append_assoc, he, List.append_assoc]

theorem select_inOrder (ho : InOrder f xs) :
    (select (Due numericFields f) [] xs).Pairwise fun x y => x.ts ≤ y.ts := by
  refine List.Pairwise.imp_of_mem ?_ (ho.sublist (select_sublist _ _ _))
  intro x y _ hy hxy
  obtain ⟨_, _, -, hdue⟩ := mem_select hy
  exact hxy hdue.1

/-- Of every function, over the pages of any runs: what was written is what the records say. -/
theorem points_selected (numericFields : α → Dict β) (runs : List (List (List (Rec α))))
    (f : String) (ho : InOrder f runs.flatten.flatten) :
    let points := (ingestRuns numericFields .new runs).1.filter fun p => p.fn = f
    points = (select (Due numericFields f) [] runs.flatten.flatten).map Rec.point ∧
      points.Pairwise fun p q => p.ts ≤ q.ts := by
  intro points
  have hs := seen_ingestRuns numericFields f .new runs
  have hrun := run_points numericFields [] (.written none) rfl ho
  have he : points = (select (Due numericFields f) [] runs.flatten.flatten).map Rec.point := by
    rw [leaving_written, List.nil_append] at hrun
    exact (Prod.ext_iff.mp hs).1.trans hrun
  refine ⟨he, ?_⟩
  rw [he, List.pairwise_map]
  exact select_inOrder ho

def quiet (ts : ℤ) (cov : Bool) : Rec (Dict ℤ) := ⟨"cooler", ts, [], cov⟩

/-- Two records of a slot, a covered record of the next slot, and a run later one more. -/
theorem points_selected_quiet :
    let points := (ingestRuns id .new
      [[[quiet 1000 false], [quiet 2000 false, quiet 31000 true]], [[quiet 61000 false]]]).1.filter
        fun p => p.fn = "cooler"
    points = [⟨"cooler", 2000, []⟩] ∧ points.Pairwise fun p q => p.ts ≤ q.ts := by
  have h := points_selected id
    [[[quiet 1000 false], [quiet 2000 false, quiet 31000 true]], [[quiet 61000 false]]] "cooler"
    (by decide)
  exact ⟨h.1.trans (by decide), h.2⟩

/-- A record whose slot nothing has ended is not written. -/
theorem open_slot_waits :
    ¬ ∀ (xs : List (Rec (Dict ℤ))) (f : String), InOrder f xs →
      ((ingestRuns id .new [[xs]]).1.filter fun p => p.fn = f) =
        (select (fun pre x post => x.gapOf f ∧
          (Changed id f pre x ∨ ChangesNext id f x post ∨ LastOfSlot f x post)) [] xs).map
          Rec.point := by
  intro h
  have hn := h [quiet 1000 false] "cooler" (by decide)
  have hw : (ingestRuns id .new [[[quiet 1000 false]]]).1 = [] := by
    simp [ingestRuns, ingestPages, ingestPage, ingestRec, thin, close, emitAll, thinRest,
      Replay.new, Replay.reload, quiet]
  rw [hw] at hn
  revert hn
  decide

end OpenCalifornia.Ingest
