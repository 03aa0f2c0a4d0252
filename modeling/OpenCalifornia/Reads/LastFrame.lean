import Mathlib
import OpenCalifornia.Reads.Pass

/-! # The last frame wins, or not

One characteristic is followed through a pass: its cached notification, the one that was noted when
its read began, and its frame in `out`. -/

namespace OpenCalifornia.Reads
open Lib

variable {name key : String} {earlier : Option Frame} {p : Pass} {c : Course} {t : List Ev}

theorem course_append (t : List Ev) (e : Ev) :
    course name key (t ++ [e]) = (course name key t).next name key e := by
  rw [course, List.foldl_append]
  rfl

theorem lastFrame_append (t : List Ev) (e : Ev) :
    lastFrame name key (t ++ [e]) = (arrival name key e).or (lastFrame name key t) := by
  rw [lastFrame, List.filterMap_append, List.getLast?_append]
  cases he : arrival name key e with
  | none => simp [he, lastFrame]
  | some b => simp [he]

/-- An object that `bytes` has made before the `n`th. -/
def Obj.Made (o : Obj) (n : ℕ) : Prop := o.id < n ∧ (o.data = [] → o.id = 0)

theorem newBytes_data (n : ℕ) (b : Frame) : (newBytes n b).data = b := by
  unfold newBytes
  split_ifs with h
  · exact h.symm
  · rfl

theorem newBytes_made (n : ℕ) (b : Frame) : (newBytes n b).Made (n + 1) := by
  unfold newBytes
  split_ifs with h
  · exact ⟨Nat.succ_pos n, fun _ => rfl⟩
  · exact ⟨Nat.lt_succ_self n, fun hb => absurd hb h⟩

theorem newBytes_eq_iff {n : ℕ} {o : Option Obj} (ho : ∀ x, o = some x → x.Made n) (b : Frame) :
    some (newBytes n b) = o ↔ b = [] ∧ o.map Obj.data = some [] := by
  refine ⟨fun h => ?_, ?_⟩
  · have hmade := ho _ h.symm
    by_cases hb : b = []
    · rw [← h, Option.map_some, newBytes_data, hb]
      exact ⟨rfl, rfl⟩
    · rw [newBytes, if_neg hb] at hmade
      exact absurd hmade.1 (Nat.lt_irrefl n)
  · rintro ⟨hb, hdata⟩
    obtain ⟨x, rfl, hx⟩ := Option.map_eq_some_iff.mp hdata
    have hid := (ho x rfl).2 hx
    rw [newBytes, if_pos hb, ← hx, ← hid]

/-- The object that is cached, seen from the one noted when the read began. -/
def Cached (c : Course) (earlier : Option Frame) (o cur : Option Obj) : Prop :=
  match (c.during ++ c.after).getLast? with
  | none => cur = o
  | some b => ∃ x, cur = some x ∧ x.data = b ∧ (some x = o ↔ b = [] ∧ c.cached earlier = some [])

/-- Before the read begins nothing is noted or returned. -/
structure Idle (name key : String) (earlier : Option Frame) (p : Pass) (c : Course) : Prop where
  seen : p.seen.get key = none
  out : p.out.get name = none
  during : c.during = []
  answer : c.answer = none
  after : c.after = []
  notif : (p.notif.get key).map Obj.data = c.cached earlier

structure Active (name key : String) (earlier : Option Frame) (p : Pass) (c : Course)
    (o : Option Obj) : Prop where
  seen : p.seen.get key = some o
  noted : o.map Obj.data = c.cached earlier
  made : ∀ x, o = some x → x.Made p.next
  out : p.out.get name = c.answer
  notif : Cached c earlier o (p.notif.get key)
  after : c.answer = none → c.after = []

/-- What holds of a characteristic all through a pass. -/
structure Inv (name key : String) (earlier : Option Frame) (p : Pass) : Prop where
  made : ∀ x, p.notif.get key = some x → x.Made p.next
  last : lastFrame name key p.trace = (course name key p.trace).after.getLast?.or
    ((course name key p.trace).answer.or ((course name key p.trace).during.getLast?.or
      (course name key p.trace).before.getLast?))
  idle : (course name key p.trace).begun = false → Idle name key earlier p (course name key p.trace)
  active : (course name key p.trace).begun = true →
    ∃ o, Active name key earlier p (course name key p.trace) o

theorem Obj.Made.mono {o : Obj} {n m : ℕ} (h : o.Made n) (hnm : n ≤ m) : o.Made m :=
  ⟨Nat.lt_of_lt_of_le h.1 hnm, h.2⟩

theorem Inv.push_other (h : Inv name key earlier p) {u : String × Frame} (hu : u.1 ≠ key) :
    Inv name key earlier (p.push u) := by
  have hcourse : course name key (p.push u).trace = course name key p.trace := by
    simp only [Pass.push, course_append, Course.next]
    rw [if_pos hu]
  have hlast : lastFrame name key (p.push u).trace = lastFrame name key p.trace := by
    simp only [Pass.push, lastFrame_append, arrival]
    rw [if_neg hu, Option.none_or]
  have hget : (p.push u).notif.get key = p.notif.get key := by
    rw [Pass.push, Dict.get_set, if_neg hu]
  have hnext : p.next ≤ (p.push u).next := Nat.le_succ _
  refine ⟨fun x hx => ?_, ?_, fun hb => ?_, fun hb => ?_⟩
  · rw [hget] at hx
    exact (h.made x hx).mono hnext
  · rw [hlast, hcourse]
    exact h.last
  · rw [hcourse] at hb ⊢
    obtain ⟨h₁, h₂, h₃, h₄, h₅, h₆⟩ := h.idle hb
    exact ⟨h₁, h₂, h₃, h₄, h₅, hget ▸ h₆⟩
  · rw [hcourse] at hb ⊢
    obtain ⟨o, h₁, h₂, h₃, h₄, h₅, h₆⟩ := h.active hb
    exact ⟨o, h₁, h₂, fun x hx => (h₃ x hx).mono hnext, h₄, hget ▸ h₅, h₆⟩

theorem Inv.push_self (h : Inv name key earlier p) (b : Frame) :
    Inv name key earlier (p.push (key, b)) := by
  have htrace : (p.push (key, b)).trace = p.trace ++ [.push key b] := rfl
  have hget : (p.push (key, b)).notif.get key = some (newBytes p.next b) := by
    rw [Pass.push, Dict.get_set, if_pos rfl]
  have hlast : lastFrame name key (p.trace ++ [.push key b]) = some b := by
    rw [lastFrame_append]
    simp only [arrival, if_true, Option.some_or]
  have hnext : p.next ≤ p.next + 1 := Nat.le_succ _
  have hmade : ∀ x, (p.push (key, b)).notif.get key = some x → x.Made (p.next + 1) := by
    intro x hx
    rw [hget] at hx
    exact Option.some.inj hx ▸ newBytes_made _ b
  have hcourse : course name key (p.trace ++ [.push key b]) =
      (course name key p.trace).next name key (.push key b) := course_append _ _
  cases hb : (course name key p.trace).begun with
  | false =>
    obtain ⟨h₁, h₂, h₃, h₄, h₅, h₆⟩ := h.idle hb
    simp only [Course.next, ne_eq, not_true, if_false, hb, if_true] at hcourse
    refine ⟨hmade, ?_, fun _ => ?_, fun hbegun => ?_⟩
    · rw [htrace, hlast, hcourse]
      simp [h₃, h₄, h₅]
    · rw [htrace, hcourse]
      refine ⟨h₁, h₂, h₃, h₄, h₅, ?_⟩
      rw [hget, Option.map_some, newBytes_data]
      simp [Course.cached]
    · rw [htrace, hcourse] at hbegun
      simp at hbegun
  | true =>
    obtain ⟨o, h₁, h₂, h₃, h₄, h₅, h₆⟩ := h.active hb
    have hsame := newBytes_eq_iff h₃ b
    rw [h₂] at hsame
    have hmade' : ∀ x, o = some x → x.Made (p.next + 1) := fun x hx => (h₃ x hx).mono hnext
    simp only [Course.next, ne_eq, not_true, if_false, hb, Bool.true_eq_false] at hcourse
    cases ha : (course name key p.trace).answer with
    | none =>
      rw [if_pos ha] at hcourse
      refine ⟨hmade, ?_, fun hbegun => ?_, fun _ => ⟨o, ?_⟩⟩
      · rw [htrace, hlast, hcourse]
        simp [ha, h₆ ha]
      · rw [htrace, hcourse] at hbegun
        simp at hbegun
      · rw [htrace, hcourse]
        refine ⟨h₁, h₂, hmade', h₄, ?_, h₆⟩
        simp only [Cached, h₆ ha, List.append_nil, List.getLast?_concat]
        exact ⟨_, hget, newBytes_data _ _, hsame⟩
    | some data =>
      rw [if_neg (by rw [ha]; exact Option.some_ne_none _)] at hcourse
      refine ⟨hmade, ?_, fun hbegun => ?_, fun _ => ⟨o, ?_⟩⟩
      · rw [htrace, hlast, hcourse]
        simp
      · rw [htrace, hcourse] at hbegun
        simp at hbegun
      · rw [htrace, hcourse]
        refine ⟨h₁, h₂, hmade', h₄, ?_, fun hnone => ?_⟩
        · simp only [Cached, ← List.append_assoc, List.getLast?_concat]
          exact ⟨_, hget, newBytes_data _ _, hsame⟩
        · simp [ha] at hnone

theorem Inv.push (h : Inv name key earlier p) (u : String × Frame) :
    Inv name key earlier (p.push u) := by
  obtain ⟨uuid, b⟩ := u
  by_cases hu : uuid = key
  · subst hu
    exact h.push_self b
  · exact h.push_other hu

theorem push_frame (p : Pass) (u : String × Frame) (name key : String) :
    (p.push u).out = p.out ∧ (p.push u).seen = p.seen ∧
      (course name key (p.push u).trace).begun = (course name key p.trace).begun ∧
      (course name key (p.push u).trace).answer = (course name key p.trace).answer := by
  refine ⟨rfl, rfl, ?_⟩
  simp only [Pass.push, course_append, Course.next]
  split_ifs <;> exact ⟨rfl, rfl⟩

theorem pushes_frame (p : Pass) (us : List (String × Frame)) (name key : String) :
    (p.pushes us).out = p.out ∧ (p.pushes us).seen = p.seen ∧
      (course name key (p.pushes us).trace).begun = (course name key p.trace).begun ∧
      (course name key (p.pushes us).trace).answer = (course name key p.trace).answer := by
  induction us generalizing p with
  | nil => exact ⟨rfl, rfl, rfl, rfl⟩
  | cons u us ih =>
    obtain ⟨h₁, h₂, h₃, h₄⟩ := ih (p.push u)
    obtain ⟨g₁, g₂, g₃, g₄⟩ := push_frame p u name key
    exact ⟨h₁.trans g₁, h₂.trans g₂, h₃.trans g₃, h₄.trans g₄⟩

theorem Inv.pushes (h : Inv name key earlier p) (us : List (String × Frame)) :
    Inv name key earlier (p.pushes us) := by
  induction us generalizing p with
  | nil => exact h
  | cons u us ih => exact ih (h.push u)

theorem Inv.note_self (h : Inv name key earlier p)
    (hidle : (course name key p.trace).begun = false) :
    Inv name key earlier (p.note name key) ∧
      (course name key (p.note name key).trace).begun = true ∧
      (course name key (p.note name key).trace).answer = none := by
  obtain ⟨h₁, h₂, h₃, h₄, h₅, h₆⟩ := h.idle hidle
  have hcourse : course name key (p.note name key).trace =
      { course name key p.trace with begun := true } := by
    simp only [Pass.note, course_append, Course.next, if_true]
  have hlast : lastFrame name key (p.note name key).trace = lastFrame name key p.trace := by
    simp only [Pass.note, lastFrame_append, arrival, Option.none_or]
  refine ⟨⟨h.made, ?_, fun hb => ?_, fun _ => ⟨p.notif.get key, ?_⟩⟩, ?_, ?_⟩
  · rw [hlast, hcourse]
    exact h.last
  · rw [hcourse] at hb
    cases hb
  · rw [hcourse]
    refine ⟨?_, h₆, h.made, h₂.trans h₄.symm, ?_, fun _ => h₅⟩
    · rw [Pass.note, Dict.get_set, if_pos rfl]
    · simp only [Cached, h₃, h₅, List.append_nil, List.getLast?_nil, Pass.note]
  · rw [hcourse]
  · rw [hcourse]
    exact h₄

theorem Inv.note_other (h : Inv name key earlier p) {name' key' : String} (hname : name' ≠ name)
    (hkey : key' ≠ key) :
    Inv name key earlier (p.note name' key') ∧
      course name key (p.note name' key').trace = course name key p.trace := by
  have hcourse : course name key (p.note name' key').trace = course name key p.trace := by
    simp only [Pass.note, course_append, Course.next]
    rw [if_neg hname]
  have hlast : lastFrame name key (p.note name' key').trace = lastFrame name key p.trace := by
    simp only [Pass.note, lastFrame_append, arrival, Option.none_or]
  have hseen : (p.note name' key').seen.get key = p.seen.get key := by
    rw [Pass.note, Dict.get_set, if_neg hkey]
  refine ⟨⟨h.made, ?_, fun hb => ?_, fun hb => ?_⟩, hcourse⟩
  · rw [hlast, hcourse]
    exact h.last
  · rw [hcourse] at hb ⊢
    obtain ⟨h₁, h₂, h₃, h₄, h₅, h₆⟩ := h.idle hb
    exact ⟨hseen.trans h₁, h₂, h₃, h₄, h₅, h₆⟩
  · rw [hcourse] at hb ⊢
    obtain ⟨o, h₁, h₂, h₃, h₄, h₅, h₆⟩ := h.active hb
    exact ⟨o, hseen.trans h₁, h₂, h₃, h₄, h₅, h₆⟩

/-- A frame that was read goes to `out`. -/
def Pass.answered (p : Pass) (name : String) (data : Frame) : Pass :=
  { p with out := p.out.set name data, trace := p.trace ++ [.read name data] }

theorem Inv.answered_self (h : Inv name key earlier p) (data : Frame)
    (hbegun : (course name key p.trace).begun = true)
    (hnone : (course name key p.trace).answer = none) :
    Inv name key earlier (p.answered name data) := by
  obtain ⟨o, h₁, h₂, h₃, h₄, h₅, h₆⟩ := h.active hbegun
  have hcourse : course name key (p.answered name data).trace =
      { course name key p.trace with answer := some data } := by
    simp only [Pass.answered, course_append, Course.next, if_true]
  refine ⟨h.made, ?_, fun hb => ?_, fun _ => ⟨o, ?_⟩⟩
  · rw [hcourse]
    simp only [Pass.answered, lastFrame_append, arrival, if_true, Option.some_or, h₆ hnone,
      List.getLast?_nil, Option.none_or]
  · rw [hcourse] at hb
    simp only [hbegun, Bool.true_eq_false] at hb
  · rw [hcourse]
    refine ⟨h₁, h₂, h₃, ?_, h₅, fun hn => by cases hn⟩
    rw [Pass.answered, Dict.get_set, if_pos rfl]

theorem Inv.answered_other (h : Inv name key earlier p) {name' : String} (hname : name' ≠ name)
    (data : Frame) :
    Inv name key earlier (p.answered name' data) ∧
      course name key (p.answered name' data).trace = course name key p.trace := by
  have hcourse : course name key (p.answered name' data).trace = course name key p.trace := by
    simp only [Pass.answered, course_append, Course.next]
    rw [if_neg hname]
  have hlast : lastFrame name key (p.answered name' data).trace = lastFrame name key p.trace := by
    simp only [Pass.answered, lastFrame_append, arrival]
    rw [if_neg hname, Option.none_or]
  have hout : (p.answered name' data).out.get name = p.out.get name := by
    rw [Pass.answered, Dict.get_set, if_neg hname]
  refine ⟨⟨h.made, ?_, fun hb => ?_, fun hb => ?_⟩, hcourse⟩
  · rw [hlast, hcourse]
    exact h.last
  · rw [hcourse] at hb ⊢
    obtain ⟨h₁, h₂, h₃, h₄, h₅, h₆⟩ := h.idle hb
    exact ⟨h₁, hout.trans h₂, h₃, h₄, h₅, h₆⟩
  · rw [hcourse] at hb ⊢
    obtain ⟨o, h₁, h₂, h₃, h₄, h₅, h₆⟩ := h.active hb
    exact ⟨o, h₁, h₂, h₃, hout.trans h₄, h₅, h₆⟩

variable {w : World}

theorem pushes_append (p : Pass) (us vs : List (String × Frame)) :
    p.pushes (us ++ vs) = (p.pushes us).pushes vs := List.foldl_append

/-- Whatever attempts it takes, a read is notifications and at most one answer behind them. -/
theorem read_spec (name : String) (k i : ℕ) (p : Pass) :
    ∃ us, (readCharWithRetry w name k i p).2 =
      match (readCharWithRetry w name k i p).1.1 with
      | none => p.pushes us
      | some data => { p.pushes us with trace := (p.pushes us).trace ++ [.read name data] } := by
  induction k generalizing i p with
  | zero => exact ⟨[], rfl⟩
  | succ k ih =>
    rw [readCharWithRetry]
    dsimp only
    split
    · rename_i data _
      exact ⟨(w.attempt name i).during, rfl⟩
    · split_ifs
      · exact ⟨(w.attempt name i).during, rfl⟩
      · obtain ⟨us, hus⟩ := ih (i + 1)
          ((p.pushes (w.attempt name i).during).pushes (w.attempt name i).pause)
        refine ⟨(w.attempt name i).during ++ (w.attempt name i).pause ++ us, ?_⟩
        rw [hus]
        simp only [pushes_append]

theorem readLoop_cons (f : Func) (fs : List Func) (p : Pass) {key' : String}
    (hf : f.stateChar = some key') :
    ∃ us q, (q = (p.note f.name key').pushes us ∨
        ∃ data, q = ((p.note f.name key').pushes us).answered f.name data) ∧
      (readLoop w (f :: fs) p = q ∨ readLoop w (f :: fs) p = readLoop w fs q) := by
  obtain ⟨us, hus⟩ := read_spec (w := w) f.name 3 0 (p.note f.name key')
  rw [readLoop, hf]
  dsimp only
  rw [hus]
  cases (readCharWithRetry w f.name 3 0 (p.note f.name key')).1.1 with
  | none =>
    refine ⟨us, _, Or.inl rfl, ?_⟩
    split_ifs
    · exact Or.inl rfl
    · exact Or.inr rfl
  | some data =>
    refine ⟨us, _, Or.inr ⟨data, rfl⟩, ?_⟩
    split_ifs
    · exact Or.inl rfl
    · exact Or.inr rfl

theorem Inv.readLoop {fs : List Func} (h : Inv name key earlier p)
    (hnames : (fs.map Func.name).Nodup) (hself : ∀ f ∈ fs, f.name = name → f.stateChar = some key)
    (hother : ∀ f ∈ fs, f.name ≠ name → f.stateChar ≠ some key)
    (hidle : name ∈ fs.map Func.name → (course name key p.trace).begun = false) :
    Inv name key earlier (readLoop w fs p) := by
  induction fs generalizing p with
  | nil => exact h
  | cons f fs ih =>
    rw [List.map_cons, List.nodup_cons] at hnames
    obtain ⟨hself₀, hself⟩ := List.forall_mem_cons.mp hself
    obtain ⟨hother₀, hother⟩ := List.forall_mem_cons.mp hother
    cases hf : f.stateChar with
    | none =>
      rw [readLoop, hf]
      exact ih h hnames.2 hself hother fun hmem => hidle (List.mem_cons_of_mem _ hmem)
    | some key' =>
      obtain ⟨us, q, hq, hloop⟩ := readLoop_cons (w := w) f fs p hf
      have hstep : Inv name key earlier q ∧
          (name ∈ fs.map Func.name → (course name key q.trace).begun = false) := by
        by_cases hname : f.name = name
        · obtain rfl : key' = key := Option.some.inj (hf.symm.trans (hself₀ hname))
          subst hname
          obtain ⟨hnote, hbegun, hnone⟩ := h.note_self (hidle List.mem_cons_self)
          obtain ⟨-, -, hb, ha⟩ := pushes_frame (p.note f.name key') us f.name key'
          refine ⟨?_, fun hmem => absurd hmem hnames.1⟩
          rcases hq with rfl | ⟨data, rfl⟩
          · exact hnote.pushes us
          · exact (hnote.pushes us).answered_self data (hb.trans hbegun) (ha.trans hnone)
        · have hkey : key' ≠ key := fun hk => hother₀ hname (hk ▸ hf)
          obtain ⟨hnote, hcourse⟩ := h.note_other hname hkey
          obtain ⟨-, -, hb, -⟩ := pushes_frame (p.note f.name key') us name key
          have hbegun : name ∈ fs.map Func.name →
              (course name key ((p.note f.name key').pushes us).trace).begun = false := by
            intro hmem
            rw [hb, hcourse]
            exact hidle (List.mem_cons_of_mem _ hmem)
          rcases hq with rfl | ⟨data, rfl⟩
          · exact ⟨hnote.pushes us, hbegun⟩
          · obtain ⟨hread, hsame⟩ := (hnote.pushes us).answered_other hname data
            exact ⟨hread, fun hmem => hsame ▸ hbegun hmem⟩
      rcases hloop with hstop | hgo
      · rw [hstop]
        exact hstep.1
      · rw [hgo]
        exact ih hstep.1 hnames.2 hself hother hstep.2

theorem laterPush_frame (p : Pass) (f : Func) :
    (laterPush p f).notif = p.notif ∧ (laterPush p f).seen = p.seen ∧
      (laterPush p f).trace = p.trace ∧
      ∀ n, n ≠ f.name → (laterPush p f).out.get n = p.out.get n := by
  unfold laterPush
  split
  · exact ⟨rfl, rfl, rfl, fun _ _ => rfl⟩
  · split_ifs
    · exact ⟨rfl, rfl, rfl, fun _ _ => rfl⟩
    · split
      · split_ifs
        · refine ⟨rfl, rfl, rfl, fun n hn => ?_⟩
          rw [Dict.get_set, if_neg hn.symm]
        · exact ⟨rfl, rfl, rfl, fun _ _ => rfl⟩
      · exact ⟨rfl, rfl, rfl, fun _ _ => rfl⟩

theorem later_frame (fs : List Func) (p : Pass) :
    (fs.foldl laterPush p).notif = p.notif ∧ (fs.foldl laterPush p).seen = p.seen ∧
      (fs.foldl laterPush p).trace = p.trace ∧
      ∀ n, n ∉ fs.map Func.name → (fs.foldl laterPush p).out.get n = p.out.get n := by
  induction fs generalizing p with
  | nil => exact ⟨rfl, rfl, rfl, fun _ _ => rfl⟩
  | cons f fs ih =>
    obtain ⟨h₁, h₂, h₃, h₄⟩ := ih (laterPush p f)
    obtain ⟨g₁, g₂, g₃, g₄⟩ := laterPush_frame p f
    refine ⟨h₁.trans g₁, h₂.trans g₂, h₃.trans g₃, fun n hn => ?_⟩
    rw [List.map_cons, List.mem_cons, not_or] at hn
    exact (h₄ n hn.2).trans (g₄ n hn.1)

theorem later_self {funcs : Funcs} {f : Func} (hf : f ∈ funcs.rows) (p : Pass) :
    ∃ q : Pass, q.notif = p.notif ∧ q.seen = p.seen ∧ q.out.get f.name = p.out.get f.name ∧
      (laterPushes funcs p).out.get f.name = (laterPush q f).out.get f.name := by
  obtain ⟨pre, post, hrows⟩ := List.append_of_mem hf
  have hnames := funcs.names
  rw [hrows, List.map_append, List.map_cons, List.nodup_append] at hnames
  obtain ⟨-, hpost, hpre⟩ := hnames
  obtain ⟨h₁, h₂, -, h₄⟩ := later_frame pre p
  obtain ⟨-, -, -, g₄⟩ := later_frame post (laterPush (pre.foldl laterPush p) f)
  refine ⟨pre.foldl laterPush p, h₁, h₂, h₄ _ fun hmem => ?_, ?_⟩
  · exact hpre _ hmem _ List.mem_cons_self rfl
  · rw [laterPushes, hrows, List.foldl_append, List.foldl_cons]
    exact g₄ _ (List.nodup_cons.mp hpost).1

/-- The frame that a pass returns for a characteristic: of the notifications since its read began
the last one, where its object is another one, and otherwise the answer. -/
def Course.result (c : Course) (earlier : Option Frame) : Option Frame :=
  if c.begun = false then none
  else
    match (c.during ++ c.after).getLast? with
    | none => c.answer
    | some b => if b = [] ∧ c.cached earlier = some [] then c.answer else some b

theorem Inv.result {f : Func} {funcs : Funcs} (hf : f ∈ funcs.rows) (hkey : f.stateChar = some key)
    (hlight : f.name ≠ "lighting") (h : Inv f.name key earlier p) :
    (laterPushes funcs p).out.get f.name = (course f.name key p.trace).result earlier := by
  obtain ⟨q, hnotif, hseen, hout, hlater⟩ := later_self hf p
  rw [hlater, laterPush, hkey, Course.result]
  dsimp only
  rw [if_neg hlight, hnotif, hseen]
  cases hb : (course f.name key p.trace).begun with
  | false =>
    have hidle := h.idle hb
    rw [hidle.seen, if_pos rfl]
    exact hout.trans hidle.out
  | true =>
    obtain ⟨o, hact⟩ := h.active hb
    have hanswer := hout.trans hact.out
    rw [hact.seen, if_neg (by decide)]
    have hcached := hact.notif
    unfold Cached at hcached
    cases hlast : ((course f.name key p.trace).during ++ (course f.name key
      p.trace).after).getLast? with
    | none =>
      rw [hlast] at hcached
      dsimp only at hcached
      rw [hcached]
      cases o with
      | none => exact hanswer
      | some x =>
        dsimp only
        rw [if_neg (by simp)]
        exact hanswer
    | some b =>
      rw [hlast] at hcached
      obtain ⟨x, hx, rfl, hsame⟩ := hcached
      rw [hx]
      dsimp only
      by_cases hxo : some x = o
      · rw [if_neg (not_not.mpr hxo), if_pos (hsame.mp hxo)]
        exact hanswer
      · rw [if_pos hxo, if_neg fun hn => hxo (hsame.mpr hn), Dict.get_set, if_pos rfl]

theorem made_pushes (us : List (String × Frame)) {p : Pass}
    (h : ∀ x, p.notif.get key = some x → x.Made p.next) :
    ∀ x, (p.pushes us).notif.get key = some x → x.Made (p.pushes us).next := by
  induction us generalizing p with
  | nil => exact h
  | cons u us ih =>
    refine ih fun x hx => ?_
    rw [Pass.push, Dict.get_set] at hx
    split_ifs at hx with hu
    · exact Option.some.inj hx ▸ newBytes_made _ _
    · exact (h x hx).mono (Nat.le_succ _)

/-- The frame that is cached for a characteristic when a pass begins. -/
def cachedAt (earlier : List (String × Frame)) (key : String) : Option Frame :=
  ((subscribed earlier).notif.get key).map Obj.data

theorem inv_subscribed (us : List (String × Frame)) (name key : String) :
    Inv name key (cachedAt us key) (subscribed us) := by
  obtain ⟨hout, hseen, -⟩ := pushes_frame {} us name key
  refine ⟨made_pushes us (fun x hx => by cases hx), rfl, fun _ => ?_, fun hb => by cases hb⟩
  exact ⟨congrArg (Dict.get · key) hseen, congrArg (Dict.get · name) hout, rfl, rfl, rfl, rfl⟩

theorem inv_pass (w : World) (funcs : Funcs) (us : List (String × Frame)) {f : Func}
    (hf : f ∈ funcs.rows) (hkey : f.stateChar = some key) :
    Inv f.name key (cachedAt us key) (readLoop w funcs.rows (subscribed us)) := by
  have hsame : ∀ g ∈ funcs.rows, g.name = f.name → g = f := fun g hg hname =>
    List.inj_on_of_nodup_map funcs.names hg hf hname
  refine (inv_subscribed us f.name key).readLoop funcs.names (fun g hg hname => ?_)
    (fun g hg hname hchar => ?_) fun _ => rfl
  · rw [hsame g hg hname]
    exact hkey
  · -- two functions of one characteristic
    obtain ⟨i, hi, hgi⟩ := List.mem_iff_getElem.mp hg
    obtain ⟨j, hj, hfj⟩ := List.mem_iff_getElem.mp hf
    have hpair := List.pairwise_filterMap.mp funcs.chars
    rcases Nat.lt_trichotomy i j with hlt | heq | hgt
    · have hne := List.pairwise_iff_getElem.mp hpair i j hi hj hlt
      rw [hgi, hfj] at hne
      exact hne key hchar key hkey rfl
    · subst heq
      exact hname (hgi.symm.trans hfj ▸ rfl)
    · have hne := List.pairwise_iff_getElem.mp hpair j i hj hi hgt
      rw [hgi, hfj] at hne
      exact hne key hkey key hchar rfl

/-- What a pass returns for a characteristic is the frame that arrived last, and nothing where none
arrived. -/
def LastWins (name key : String) (p : Pass) : Prop := p.out.get name = lastFrame name key p.trace

/-- While a read that succeeds is under way no notification comes, or another one follows the
answer, or it brings the same bytes. Where a read fails or never begins, a notification before it is
followed by one while it is under way. An empty frame is the same object as one noted before: while
a successful read is under way it does no harm, where it is the last frame the answer has to be
empty too. -/
def Course.Clear (c : Course) (earlier : Option Frame) : Prop :=
  match c.answer with
  | some data =>
    (c.after = [] → ∀ b, c.during.getLast? = some b →
      b = data ∨ b = [] ∧ c.cached earlier = some []) ∧
    (c.after.getLast? = some [] → c.cached earlier = some [] → data = [])
  | none =>
    (c.during = [] → c.before = []) ∧
      (c.during.getLast? = some [] → c.cached earlier ≠ some [])

theorem failed_iff (hafter : c.after = []) (ha : c.answer = none)
    (hidle : c.begun = false → c.during = []) :
    c.result earlier = c.during.getLast?.or c.before.getLast? ↔
      (c.during = [] → c.before = []) ∧
        (c.during.getLast? = some [] → c.cached earlier ≠ some []) := by
  unfold Course.result
  rw [hafter, List.append_nil, ha]
  rcases List.eq_nil_or_concat c.during with hnil | ⟨l, b, hcons⟩
  · have hbefore : none = c.before.getLast? ↔ c.before = [] :=
      eq_comm.trans List.getLast?_eq_none_iff
    simpa [hnil] using hbefore
  · have hb : c.begun = true := by
      by_contra hb
      rw [hidle (by simpa using hb)] at hcons
      simp at hcons
    rw [hb, hcons, List.concat_eq_append, List.getLast?_concat]
    simp only [Bool.true_eq_false, if_false, Option.some_or]
    split_ifs with hempty
    · simp [hempty]
    · simp only [true_iff]
      exact ⟨fun h => absurd h (by simp), fun hb hc => hempty ⟨Option.some.inj hb, hc⟩⟩

theorem wins_iff (hafter : c.answer = none → c.after = [])
    (hidle : c.begun = false → c.answer = none ∧ c.during = []) :
    c.result earlier =
        c.after.getLast?.or (c.answer.or (c.during.getLast?.or c.before.getLast?)) ↔
      c.Clear earlier := by
  unfold Course.Clear
  cases ha : c.answer with
  | none =>
    rw [hafter ha, List.getLast?_nil, Option.none_or, Option.none_or]
    exact failed_iff (hafter ha) ha fun hb => (hidle hb).2
  | some data =>
    have hb : c.begun = true := by
      by_contra hb
      have hnone := (hidle (by simpa using hb)).1.symm.trans ha
      cases hnone
    unfold Course.result
    rw [hb, ha]
    simp only [Bool.true_eq_false, if_false, Option.some_or]
    rcases List.eq_nil_or_concat c.after with hnil | ⟨l, a, hcons⟩
    · rw [hnil, List.append_nil]
      cases c.during.getLast? with
      | none => simp
      | some b =>
        simp only [List.getLast?_nil, Option.none_or, Option.some.injEq, forall_const]
        split_ifs with hempty
        · simp [hempty]
        · simp only [Option.some.injEq, forall_eq', hempty, or_false, false_implies, and_true]
    · rw [hcons, List.concat_eq_append, ← List.append_assoc, List.getLast?_concat,
        List.getLast?_concat]
      simp only [Option.some_or, Option.some.injEq]
      split_ifs with hempty
      · obtain ⟨rfl, hc⟩ := hempty
        exact ⟨fun h => ⟨fun hn => absurd hn (by simp), fun _ _ => Option.some.inj h⟩,
          fun h => congrArg some (h.2 rfl hc)⟩
      · simp only [true_iff]
        exact ⟨fun h => absurd h (by simp), fun ha hc => absurd ⟨ha, hc⟩ hempty⟩

theorem awaitTurns_spec (name key : String) (seen0 : Option Frame)
    (turns : List (List (String × Frame))) {p : Pass} (hp : (p.notif.get key).map Obj.data = seen0 ∨
      lastFrame name key p.trace = (p.notif.get key).map Obj.data) :
    let q := awaitTurns key seen0 turns p
    (∀ n, n ≠ "water" → q.out.get n = p.out.get n) ∧
      (q.out.get "water" = p.out.get "water" ∨
        ∃ b, q.out.get "water" = some b ∧ lastFrame name key q.trace = some b) := by
  induction turns generalizing p with
  | nil => exact ⟨fun _ _ => rfl, Or.inl rfl⟩
  | cons us turns ih =>
    have hout := (pushes_frame p us name key).1
    have hturn : ((p.pushes us).notif.get key).map Obj.data = seen0 ∨
        lastFrame name key (p.pushes us).trace = ((p.pushes us).notif.get key).map Obj.data := by
      clear ih hout
      induction us generalizing p with
      | nil => exact hp
      | cons u us ihu =>
        refine ihu ?_
        simp only [Pass.push, lastFrame_append, arrival, Dict.get_set]
        split_ifs
        · exact Or.inr (by rw [Option.some_or, Option.map_some, newBytes_data])
        · rw [Option.none_or]
          exact hp
    rw [awaitTurns]
    dsimp only
    split
    · rename_i cur hcur
      split_ifs with hnew
      · rw [hcur, Option.map_some] at hturn
        refine ⟨fun n hn => ?_, Or.inr ⟨cur.data, ?_, hturn.resolve_left hnew⟩⟩
        · rw [Dict.get_set, if_neg hn.symm, hout]
        · rw [Dict.get_set, if_pos rfl]
      · rw [← hout]
        exact ih hturn
    · rw [← hout]
      exact ih hturn

/-- A pass returns the frame that arrived last of a characteristic just where no notification came
in between the moment its cached one was noted and the answer, if another did not follow, and where
none came before a read that failed or did not begin. So it is on both paths. The wait for water,
where it is on, takes the last notification of water or leaves what is there. -/
theorem last_frame_wins (w : World) (funcs : Funcs) (us : List (String × Frame)) {f : Func}
    (hf : f ∈ funcs.rows) (hkey : f.stateChar = some key) (hlight : f.name ≠ "lighting") :
    (LastWins f.name key (readAll w funcs us) ↔
      (course f.name key (readAll w funcs us).trace).Clear (cachedAt us key)) ∧
    readAllOn w funcs us [] = readAll w funcs us ∧
    ∀ turns, (f.name ≠ "water" →
        (readAllOn w funcs us turns).out.get f.name = (readAll w funcs us).out.get f.name) ∧
      (f.name = "water" →
        (readAllOn w funcs us turns).out.get f.name = (readAll w funcs us).out.get f.name ∨
          ∃ b, (readAllOn w funcs us turns).out.get f.name = some b ∧
            lastFrame f.name key (readAllOn w funcs us turns).trace = some b) := by
  have hinv := inv_pass w funcs us hf hkey
  have hresult := hinv.result hf hkey hlight
  have htrace : (readAll w funcs us).trace = (readLoop w funcs.rows (subscribed us)).trace :=
    (later_frame funcs.rows _).2.2.1
  refine ⟨?_, ?_, fun turns => ?_⟩
  · have hout : (readAll w funcs us).out.get f.name = _ := hresult
    rw [LastWins, htrace, hout, hinv.last]
    refine wins_iff (fun hnone => ?_) fun hb => ⟨(hinv.idle hb).answer, (hinv.idle hb).during⟩
    cases hb : (course f.name key (readLoop w funcs.rows (subscribed us)).trace).begun with
    | false => exact (hinv.idle hb).after
    | true =>
      obtain ⟨o, hact⟩ := hinv.active hb
      exact hact.after hnone
  · rw [readAllOn, awaitWaterPush]
    split <;> rfl
  · rw [readAllOn, awaitWaterPush]
    split
    · exact ⟨fun _ => rfl, fun _ => Or.inl rfl⟩
    · rename_i key' hkey'
      obtain ⟨hother, hwater⟩ := awaitTurns_spec f.name key' _ turns
        (p := readAll w funcs us) (Or.inl rfl)
      refine ⟨hother f.name, fun hname => ?_⟩
      obtain ⟨g, hg, hchar⟩ := Option.bind_eq_some_iff.mp hkey'
      have hgname : g.name = "water" := by simpa using List.find?_some hg
      have hgf : g = f := List.inj_on_of_nodup_map funcs.names (List.mem_of_find?_eq_some hg) hf
        (hgname.trans hname.symm)
      obtain rfl : key' = key := Option.some.inj (hchar.symm.trans (hgf ▸ hkey))
      rw [hname] at hwater ⊢
      exact hwater

def coolerFuncs : Funcs := ⟨[⟨"cooler", some "1102"⟩], by decide, by decide⟩

def vanFuncs : Funcs :=
  ⟨[⟨"cooler", some "1102"⟩, ⟨"airheater", some "1702"⟩], by decide, by decide⟩

/-- The first attempt fails, a notification comes in the pause, and the second attempt reads another
frame. -/
def retryWorld : World where
  attempt _ i := if i = 0 then ⟨[], none, true, [("1102", [1])]⟩ else ⟨[], some [2], true, []⟩
  upAfter _ := true

/-- The heater notifies while the cooler is read, and its own reads fail. -/
def deafWorld : World where
  attempt name _ :=
    if name = "cooler" then ⟨[("1702", [7])], some [2], true, []⟩ else ⟨[], none, true, []⟩
  upAfter _ := true

theorem retried_read_loses :
    ((readAll retryWorld coolerFuncs []).out.get "cooler" = some [1] ∧
      lastFrame "cooler" "1102" (readAll retryWorld coolerFuncs []).trace = some [2] ∧
      ¬ LastWins "cooler" "1102" (readAll retryWorld coolerFuncs []) ∧
      ¬ LastWins "cooler" "1102" (readAllOn retryWorld coolerFuncs [] [])) ∧
    (readAll deafWorld vanFuncs []).out.get "airheater" = none ∧
      lastFrame "airheater" "1702" (readAll deafWorld vanFuncs []).trace = some [7] := by
  have hout : (readAll retryWorld coolerFuncs []).out.get "cooler" = some [1] := by decide
  have hlast : lastFrame "cooler" "1102" (readAll retryWorld coolerFuncs []).trace = some [2] := by
    decide
  have hno : ¬ LastWins "cooler" "1102" (readAll retryWorld coolerFuncs []) := by
    intro h
    have heq := hout.symm.trans (h.trans hlast)
    exact absurd (Option.some.inj heq) (by decide)
  exact ⟨⟨hout, hlast, hno, hno⟩, by decide, by decide⟩

/-- The cooler's second attempt reads, and a notification follows while the heater is read, whose
reads all fail. -/
def busyWorld : World where
  attempt name i :=
    if name = "cooler" then if i = 0 then ⟨[], none, true, []⟩ else ⟨[], some [2], true, []⟩
    else if i = 0 then ⟨[("1102", [3])], none, true, []⟩ else ⟨[], none, true, []⟩
  upAfter _ := true

theorem last_frame_wins_busy :
    lastFrame "cooler" "1102" (readAll busyWorld vanFuncs [("1102", [9])]).trace = some [3] ∧
    LastWins "cooler" "1102" (readAll busyWorld vanFuncs [("1102", [9])]) ∧
    lastFrame "airheater" "1702" (readAll busyWorld vanFuncs [("1102", [9])]).trace = none ∧
    LastWins "airheater" "1702" (readAll busyWorld vanFuncs [("1102", [9])]) := by
  have hcooler : course "cooler" "1102" (readAll busyWorld vanFuncs [("1102", [9])]).trace =
      ⟨true, [], [], some [2], [[3]]⟩ := by decide
  have hheater : course "airheater" "1702"
      (readAll busyWorld vanFuncs [("1102", [9])]).trace = ⟨true, [], [], none, []⟩ := by decide
  refine ⟨by decide, (last_frame_wins busyWorld vanFuncs [("1102", [9])]
    (f := ⟨"cooler", some "1102"⟩) List.mem_cons_self rfl (by decide)).1.mpr ?_, by decide,
    (last_frame_wins busyWorld vanFuncs [("1102", [9])] (f := ⟨"airheater", some "1702"⟩)
      (List.mem_cons_of_mem _ List.mem_cons_self) rfl (by decide)).1.mpr ?_⟩
  · rw [hcooler]
    exact ⟨(by rintro ⟨⟩), (by rintro ⟨⟩)⟩
  · rw [hheater]
    exact ⟨fun _ => rfl, (by rintro ⟨⟩)⟩

end OpenCalifornia.Reads
