import OpenCalifornia.Ingest.Thin

/-! # The points of a function

Each function is thinned on its own: of the replay state a record changes only what belongs to its
function, and what waits in a slot that has ended. What is written is told by the records alone. -/

namespace OpenCalifornia.Ingest
open Lib (Dict)

variable {α β : Type} (numericFields : α → Dict β)

/-- What the replay state holds of a function. -/
structure View (α β : Type) where
  pending : Option (ℤ × α)
  codes : Option (Dict β)

def Replay.view (r : Replay α β) (f : String) : View α β := ⟨r.pending.get f, r.codes.get f⟩

/-- The points of a function and its view afterwards. -/
abbrev Seen (α β : Type) := List (Point α) × View α β

def seen (f : String) (x : List (Point α) × Replay α β) : Seen α β :=
  (x.1.filter fun p => p.fn = f, x.2.view f)

/-- The waiting point is written. -/
def View.release (f : String) (v : View α β) : Seen α β :=
  match v.pending with
  | none => ([], v)
  | some (t, i) => ([⟨f, t, i⟩], ⟨none, some (stateCodes numericFields i)⟩)

def View.close (f : String) (v : View α β) (tsMs : ℤ) : Seen α β :=
  if v.pending.any fun (t, _) => slotOf t < slotOf tsMs then v.release numericFields f else ([], v)

theorem release_none {v : View α β} (h : v.pending = none) (f : String) :
    v.release numericFields f = ([], v) := by
  obtain ⟨p, c⟩ := v
  subst h
  rfl

theorem view_emit (r : Replay α β) (f g : String) (t : ℤ) (i : α) :
    (emit numericFields { r with pending := r.pending.del g } g t i).2.view f =
      if g = f then ⟨none, some (stateCodes numericFields i)⟩ else r.view f := by
  simp only [emit, Replay.view, Lib.Dict.get_del, Lib.Dict.get_set]
  split_ifs <;> rfl

theorem seen_emitAll (f : String) (r : Replay α β) (fs : List String) :
    seen f (emitAll numericFields r fs) =
      if f ∈ fs then (r.view f).release numericFields f else ([], r.view f) := by
  induction fs generalizing r with
  | nil => rfl
  | cons g fs ih =>
    cases hg : r.pending.get g with
    | none =>
      simp only [emitAll, hg, ih, List.mem_cons]
      by_cases hf : f = g
      · subst hf
        rw [release_none numericFields hg]
        simp only [true_or, ite_self]
      · simp only [hf, false_or]
    | some x =>
      obtain ⟨t, i⟩ := x
      have ih' := ih (emit numericFields { r with pending := r.pending.del g } g t i).2
      rw [view_emit] at ih'
      simp only [seen, Prod.ext_iff] at ih'
      simp only [emitAll, hg, List.mem_cons, seen, List.filter_cons]
      by_cases hf : f = g
      · subst hf
        rw [if_pos rfl, release_none numericFields rfl, ite_self] at ih'
        simp only [true_or, if_true, View.release, Replay.view, hg]
        simp only [emit, decide_true, if_true, Prod.mk.injEq] at ih' ⊢
        exact ⟨by rw [ih'.1], ih'.2⟩
      · have hne : ¬ g = f := fun h => hf h.symm
        rw [if_neg hne] at ih'
        simp only [hf, false_or]
        simp only [emit, hne, decide_false, Bool.false_eq_true, if_false] at ih' ⊢
        exact Prod.ext ih'.1 ih'.2

theorem seen_close (f : String) (r : Replay α β) (tsMs : ℤ) :
    seen f (close numericFields r tsMs) = (r.view f).close numericFields f tsMs := by
  rw [close, seen_emitAll, View.close]
  have hm : f ∈ ((r.pending.map Prod.fst).filter fun f =>
        (r.pending.get f).any fun (t, _) => slotOf t < slotOf tsMs).mergeSort (fun a b => a ≤ b) ↔
      ((r.view f).pending.any fun (t, _) => slotOf t < slotOf tsMs) = true := by
    rw [List.mem_mergeSort, List.mem_filter, Replay.view]
    refine and_iff_right_of_imp fun h => ?_
    by_contra hn
    rw [Lib.Dict.get_eq_none.mpr hn] at h
    exact absurd h Bool.false_ne_true
  by_cases h : ((r.view f).pending.any fun (t, _) => slotOf t < slotOf tsMs) = true
  · rw [if_pos (hm.mpr h), if_pos h]
  · rw [if_neg fun h' => h (hm.mp h'), if_neg h]

/-- The state codes of the function's previous point. -/
def View.prev (v : View α β) : Option (Dict β) :=
  match v.pending with
  | some (_, i) => some (stateCodes numericFields i)
  | none => v.codes

variable [DecidableEq β]

/-- The state codes differ. -/
def differs (i j : α) : Prop :=
  (stateCodes numericFields j).same (stateCodes numericFields i) = false

/-- What follows `close` in `thin`. -/
def View.take (f : String) (v : View α β) (tsMs : ℤ) (interp : α) : Seen α β :=
  if (v.prev numericFields).any fun prev => ¬ (stateCodes numericFields interp).same prev then
    ((v.release numericFields f).1 ++ [⟨f, tsMs, interp⟩],
      ⟨none, some (stateCodes numericFields interp)⟩)
  else ([], ⟨some (tsMs, interp), v.codes⟩)

theorem seen_thinRest_self (r : Replay α β) (f : String) (tsMs : ℤ) (interp : α) :
    seen f (thinRest numericFields r f tsMs interp) =
      (r.view f).take numericFields f tsMs interp := by
  cases hp : r.pending.get f with
  | none =>
    simp only [thinRest, hp, View.take, View.prev, Replay.view]
    by_cases hd : ((r.codes.get f).any fun prev =>
        ¬ (stateCodes numericFields interp).same prev) = true
    · rw [if_pos hd, if_pos hd]
      simp [seen, emit, Replay.view, View.release, hp]
    · rw [if_neg hd, if_neg hd]
      simp [seen, Replay.view]
  | some x =>
    obtain ⟨t, i⟩ := x
    simp only [thinRest, hp, View.take, View.prev, Replay.view]
    by_cases hd : ((some (stateCodes numericFields i)).any fun prev =>
        ¬ (stateCodes numericFields interp).same prev) = true
    · rw [if_pos hd, if_pos hd]
      simp [seen, emit, Replay.view, View.release]
    · rw [if_neg hd, if_neg hd]
      simp [seen, Replay.view]

theorem seen_thinRest_ne {r : Replay α β} {f fn : String} (hne : fn ≠ f) (tsMs : ℤ) (interp : α) :
    seen f (thinRest numericFields r fn tsMs interp) = ([], r.view f) := by
  cases hp : r.pending.get fn with
  | none =>
    simp only [thinRest, hp]
    by_cases hd : ((r.codes.get fn).any fun prev =>
        ¬ (stateCodes numericFields interp).same prev) = true
    · rw [if_pos hd]
      simp [seen, emit, Replay.view, hne]
    · rw [if_neg hd]
      simp [seen, Replay.view, hne]
  | some x =>
    obtain ⟨t, i⟩ := x
    simp only [thinRest, hp]
    by_cases hd : ((some (stateCodes numericFields i)).any fun prev =>
        ¬ (stateCodes numericFields interp).same prev) = true
    · rw [if_pos hd]
      simp [seen, emit, Replay.view, hne]
    · rw [if_neg hd]
      simp [seen, Replay.view, hne]

/-- A gap record of the function. -/
def Rec.gapOf (x : Rec α) (f : String) : Prop := x.fn = f ∧ x.cov = false

instance (x : Rec α) (f : String) : Decidable (x.gapOf f) := inferInstanceAs (Decidable (_ ∧ _))

/-- A record, as the function sees it. -/
def View.next (f : String) (v : View α β) (x : Rec α) : Seen α β :=
  let (out, v) := v.close numericFields f x.ts
  if x.gapOf f then
    let (rest, v) := v.take numericFields f x.ts x.interp
    (out ++ rest, v)
  else (out, v)

theorem seen_ingestRec (f : String) (r : Replay α β) (x : Rec α) :
    seen f (ingestRec numericFields r x) = (r.view f).next numericFields f x := by
  have hc := seen_close numericFields f r x.ts
  simp only [seen, Prod.ext_iff] at hc
  by_cases hg : x.gapOf f
  · obtain ⟨rfl, hcov⟩ := id hg
    have ht := seen_thinRest_self numericFields (close numericFields r x.ts).2 x.fn x.ts x.interp
    simp only [seen, Prod.ext_iff, hc.2] at ht
    simp only [ingestRec, hcov, Bool.false_eq_true, if_false, thin, View.next, if_pos hg, seen,
      List.filter_append, hc.1, ht.1, ht.2]
  · simp only [View.next, if_neg hg]
    by_cases hcov : x.cov = true
    · simp only [ingestRec, hcov, if_true, seen]
      exact Prod.ext hc.1 hc.2
    · have hne : x.fn ≠ f := fun h => hg ⟨h, by simpa using hcov⟩
      have ht := seen_thinRest_ne numericFields (r := (close numericFields r x.ts).2) hne x.ts
        x.interp
      simp only [seen, Prod.ext_iff, hc.2] at ht
      simp only [ingestRec, hcov, Bool.false_eq_true, if_false, thin, seen, List.filter_append,
        hc.1, ht.1, ht.2, List.append_nil]

def View.run (f : String) (v : View α β) : List (Rec α) → Seen α β
  | [] => ([], v)
  | x :: xs =>
    let (out, v) := v.next numericFields f x
    let (more, v) := View.run f v xs
    (out ++ more, v)

theorem run_cons (f : String) (v : View α β) (x : Rec α) (xs : List (Rec α)) :
    v.run numericFields f (x :: xs) =
      ((v.next numericFields f x).1 ++ ((v.next numericFields f x).2.run numericFields f xs).1,
        ((v.next numericFields f x).2.run numericFields f xs).2) := rfl

theorem run_append (f : String) (v : View α β) (xs ys : List (Rec α)) :
    v.run numericFields f (xs ++ ys) =
      ((v.run numericFields f xs).1 ++ ((v.run numericFields f xs).2.run numericFields f ys).1,
        ((v.run numericFields f xs).2.run numericFields f ys).2) := by
  induction xs generalizing v with
  | nil => rfl
  | cons x xs ih => simp only [List.cons_append, run_cons, ih, List.append_assoc]

theorem seen_ingestPage (f : String) (r : Replay α β) (page : List (Rec α)) :
    seen f (ingestPage numericFields r page) = (r.view f).run numericFields f page := by
  induction page generalizing r with
  | nil => rfl
  | cons x xs ih =>
    have hx := seen_ingestRec numericFields f r x
    have hxs := ih (ingestRec numericFields r x).2
    simp only [seen, Prod.ext_iff] at hx hxs
    simp only [ingestPage, run_cons, seen, List.filter_append, hx.1, hxs.1, hxs.2, hx.2]

theorem seen_ingestPages (f : String) (r : Replay α β) (pages : List (List (Rec α))) :
    seen f (ingestPages numericFields r pages) =
      (r.view f).run numericFields f pages.flatten := by
  induction pages generalizing r with
  | nil => rfl
  | cons page pages ih =>
    have hp := seen_ingestPage numericFields f r page
    have hps := ih (ingestPage numericFields r page).2
    simp only [seen, Prod.ext_iff] at hp hps
    simp only [ingestPages, List.flatten_cons, run_append, seen, List.filter_append, hp.1, hps.1,
      hps.2, hp.2]

theorem seen_ingestRuns (f : String) (r : Replay α β) (runs : List (List (List (Rec α)))) :
    seen f (ingestRuns numericFields r runs) =
      (r.view f).run numericFields f runs.flatten.flatten := by
  induction runs generalizing r with
  | nil => rfl
  | cons run runs ih =>
    have hr : seen f (ingestPages numericFields r.reload run) =
        (r.view f).run numericFields f run.flatten := seen_ingestPages numericFields f r.reload run
    have hrs := ih (ingestPages numericFields r.reload run).2
    simp only [seen, Prod.ext_iff] at hr hrs
    simp only [ingestRuns, List.flatten_cons, List.flatten_append, run_append, seen,
      List.filter_append, hr.1, hrs.1, hrs.2, hr.2]

end OpenCalifornia.Ingest
