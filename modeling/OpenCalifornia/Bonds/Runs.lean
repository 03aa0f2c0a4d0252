import OpenCalifornia.Bonds.Find
import OpenCalifornia.Bonds.Mirror

/-! # Bonds over boots and lost power

Every operation changes the record of one key of one table. A boot after the power was lost reads
the table from before the operation or from after it, and a deleted record does not come back. -/

namespace OpenCalifornia.Bonds
open Lib Lib.Machine

section Kept

variable [Nimble] {ρ : Type} {l : Limits} {s s' : Store ρ} {t : Tab} {k : Id t} {j : Tab → ℕ}
  {ok : ℕ → Bool}

/-- The record of a key. -/
def Store.get (s : Store ρ) (t : Tab) (k : Id t) : Option (Rec ρ t) :=
  Slots.get (ident t) k (s t).table.vals

/-- What a write or a delete does to a table in memory. -/
structure Edits (l : Limits) (s : Store ρ) (t : Tab) (k : Id t) (table : Table (Rec ρ t)) :
    Prop where
  edit : Slots.Edit (ident t) (s t).table.vals k table.vals
  length_le : table.vals.length ≤ l.max t
  used : table.usedSlots = (s t).table.usedSlots

theorem writeChange_of (l : Limits) (s : Store ρ) (v : Rec ρ t) :
    writeChange l s (.of t v) = .answer .storeCap ∨
      ∃ table, writeChange l s (.of t v) = .persist t table := by
  unfold writeChange
  dsimp only
  split
  · exact .inr ⟨_, rfl⟩
  · exact .inl rfl

theorem deleteChange_of (s : Store ρ) (q : Key t) :
    deleteChange s (.of t q) = .answer .noent ∨
    ∃ table, deleteChange s (.of t q) = .persist t table := by
  unfold deleteChange
  dsimp only
  split
  · exact .inr ⟨_, rfl⟩
  · exact .inl rfl

theorem write_edits (h : Sound (ident t) (l.max t) (s t)) {v : Rec ρ t} (hv : Proper t v)
    {table : Table (Rec ρ t)} (hc : writeChange l s (.of t v) = .persist t table) :
    Edits l s t (ident t v) table ∧ Slots.get (ident t) (ident t v) table.vals = some v := by
  unfold writeChange at hc
  dsimp only at hc
  rw [find_keyFromValue hv] at hc
  cases hfind : (s t).table.vals.findIdx? fun b => ident t b = ident t v with
  | none =>
    have hother : ∀ b ∈ (s t).table.vals, ident t b ≠ ident t v := fun b hb =>
      of_decide_eq_false (List.findIdx?_eq_none_iff.mp hfind b hb)
    rw [hfind] at hc
    unfold Table.put at hc
    dsimp only at hc
    by_cases hfull : l.max t ≤ (s t).table.vals.length
    · rw [if_pos hfull] at hc
      cases hc
    · rw [if_neg hfull] at hc
      cases hc
      refine ⟨⟨.add rfl hother, ?_, rfl⟩, ?_⟩
      · show ((s t).table.vals ++ [v]).length ≤ l.max t
        rw [List.length_append, List.length_singleton]
        omega
      · rw [Slots.get_append, Slots.get_eq_none.mpr hother, Option.none_or, Slots.get_singleton,
          if_pos rfl]
  | some i =>
    obtain ⟨hlt, hsame, -⟩ := List.findIdx?_eq_some_iff_getElem.mp hfind
    have hget : (s t).table.vals[i]? = some (s t).table.vals[i] := List.getElem?_eq_getElem hlt
    rw [hfind] at hc
    cases hc
    have hedit : Slots.Edit (ident t) (s t).table.vals (ident t v) ((s t).table.vals.set i v) :=
      .set hget (of_decide_eq_true hsame) rfl
    refine ⟨⟨hedit, ?_, rfl⟩, Slots.get_of_mem (hedit.nodup h.nodup) (List.mem_set hlt v)⟩
    show ((s t).table.vals.set i v).length ≤ l.max t
    rw [List.length_set]
    exact h.length_le

theorem delete_edits (h : Sound (ident t) (l.max t) (s t)) {q : Key t} {table : Table (Rec ρ t)}
    (hc : deleteChange s (.of t q) = .persist t table) :
    ∃ b, storeRead s (.of t q) = .ok (.of t b) ∧ Edits l s t (ident t b) table ∧
      Slots.get (ident t) (ident t b) table.vals = none := by
  unfold deleteChange at hc
  dsimp only at hc
  cases hfind : find t q (s t).table.vals with
  | none =>
    rw [hfind] at hc
    cases hc
  | some i =>
    obtain ⟨b, hget⟩ : ∃ b, (s t).table.vals[i]? = some b :=
      ⟨_, List.getElem?_eq_getElem (find_lt hfind)⟩
    rw [hfind] at hc
    cases hc
    refine ⟨b, ?_, ⟨.del hget rfl, ?_, rfl⟩, Slots.get_eraseIdx_self h.nodup hget⟩
    · unfold storeRead
      dsimp only
      rw [hfind, Option.bind_some, hget]
    · exact (List.eraseIdx_sublist _ i).length_le.trans h.length_le

/-- The change of an operation; a boot has none. -/
def Op.change (l : Limits) (s : Store ρ) : Op ρ → Change ρ
  | .write v _ => writeChange l s v
  | .writeCut v _ _ => writeChange l s v
  | .delete q _ => deleteChange s q
  | .deleteCut q _ _ => deleteChange s q
  | .boot => .answer .ok

/-- The operation writes the record of a key. -/
def Op.Writes (t : Tab) (k : Id t) : Op ρ → Prop
  | .write v _ => ∃ a, v = .of t a ∧ ident t a = k
  | .writeCut v _ _ => ∃ a, v = .of t a ∧ ident t a = k
  | _ => False

/-- The operation deletes the record of a key: the one that its query reads. -/
def Op.Deletes (s : Store ρ) (t : Tab) (k : Id t) : Op ρ → Prop
  | .delete q _ => ∃ a, storeRead s q = .ok (.of t a) ∧ ident t a = k
  | .deleteCut q _ _ => ∃ a, storeRead s q = .ok (.of t a) ∧ ident t a = k
  | _ => False

/-- How far a change was carried: to its end, or to a boot after the power was lost. -/
inductive Done (l : Limits) (s : Store ρ) (c : Change ρ) : Rc × Store ρ → Prop
  | whole (ok : ℕ → Bool) : Done l s c (c.carry s ok l.max)
  | cut (ok : ℕ → Bool) (j : ℕ) : Done l s c (cut l s c ok j)

variable {op : Op ρ} {r : Rc × Store ρ}

theorem step_done (h : step l op s = some r) : Done l s (op.change l s) r := by
  cases op with
  | write v ok =>
    obtain ⟨-, h⟩ := Option.ite_none_right_eq_some.mp h
    obtain rfl := Option.some.inj h
    exact .whole ok
  | delete q ok =>
    obtain rfl := Option.some.inj h
    exact .whole ok
  | boot =>
    obtain rfl := Option.some.inj h
    exact .cut (fun _ => true) 0
  | writeCut v ok j =>
    obtain ⟨-, h⟩ := Option.ite_none_right_eq_some.mp h
    obtain rfl := Option.some.inj h
    exact .cut ok j
  | deleteCut q ok j =>
    obtain rfl := Option.some.inj h
    exact .cut ok j

/-- What holds of every table in every run. -/
def AllSound (l : Limits) (s : Store ρ) : Prop := ∀ t, Sound (ident t) (l.max t) (s t)

theorem change_edits (hs : AllSound l s) (h : step l op s = some r) {table : Table (Rec ρ t)}
    (hc : op.change l s = .persist t table) : ∃ k, Edits l s t k table ∧
      (op.Writes t k ∨ op.Deletes s t k ∧ Slots.get (ident t) k table.vals = none) := by
  have hwrite : ∀ v : Value ρ, v.Proper → writeChange l s v = .persist t table →
      ∃ a, v = .of t a ∧ Edits l s t (ident t a) table := by
    intro v hv hc
    cases v with
    | of t' a =>
      obtain rfl : t' = t := by
        rcases writeChange_of l s a with h' | ⟨table', h'⟩
        · cases h'.symm.trans hc
        · exact (Change.persist.inj (h'.symm.trans hc)).1
      exact ⟨a, rfl, (write_edits (hs t') hv hc).1⟩
    | other => cases hc
  have hdelete : ∀ q : Query, deleteChange s q = .persist t table →
      ∃ a, storeRead s q = .ok (.of t a) ∧ Edits l s t (ident t a) table ∧
        Slots.get (ident t) (ident t a) table.vals = none := by
    intro q hc
    cases q with
    | of t' k =>
      obtain rfl : t' = t := by
        rcases deleteChange_of s k with h' | ⟨table', h'⟩
        · cases h'.symm.trans hc
        · exact (Change.persist.inj (h'.symm.trans hc)).1
      exact delete_edits (hs t') hc
    | other => cases hc
  cases op with
  | write v ok =>
    obtain ⟨hv, -⟩ := Option.ite_none_right_eq_some.mp h
    obtain ⟨a, ha, hedits⟩ := hwrite v hv hc
    exact ⟨_, hedits, .inl ⟨a, ha, rfl⟩⟩
  | writeCut v ok j =>
    obtain ⟨hv, -⟩ := Option.ite_none_right_eq_some.mp h
    obtain ⟨a, ha, hedits⟩ := hwrite v hv hc
    exact ⟨_, hedits, .inl ⟨a, ha, rfl⟩⟩
  | delete q ok =>
    obtain ⟨a, ha, hedits, hnone⟩ := hdelete q hc
    exact ⟨_, hedits, .inr ⟨⟨a, ha, rfl⟩, hnone⟩⟩
  | deleteCut q ok j =>
    obtain ⟨a, ha, hedits, hnone⟩ := hdelete q hc
    exact ⟨_, hedits, .inr ⟨⟨a, ha, rfl⟩, hnone⟩⟩
  | boot => cases hc

omit [Nimble] in
theorem Edits.persisted {table : Table (Rec ρ t)} (he : Edits l s t k table)
    (h : Sound (ident t) (l.max t) (s t)) (ok : ℕ → Bool) {j : ℕ} (hj : j ≤ l.max t) :
    Persisted (l.max t) { s t with table } j (Mirror.persist { s t with table } ok j) := by
  refine persist_spec (fun n hn hu => ?_) ok hj
  show n ∈ table.usedSlots
  rw [he.used]
  exact h.covered n hn hu

/-- What a step does to a table. -/
inductive Moves (l : Limits) (s : Store ρ) (op : Op ρ) (t : Tab) : Rc → Mirror (Rec ρ t) → Prop
  | keep {rc : Rc} : Moves l s op t rc (s t)
  | boot {rc : Rc} : Moves l s op t rc ((s t).boot (ident t) (l.max t))
  | whole {k : Id t} {table : Table (Rec ρ t)} {m : Mirror (Rec ρ t)} {done : Bool}
      (hc : op.change l s = .persist t table) (he : Edits l s t k table)
      (hk : op.Writes t k ∨ op.Deletes s t k ∧ Slots.get (ident t) k table.vals = none)
      (hm : Persisted (l.max t) { s t with table } (l.max t) (m, done)) :
      Moves l s op t (if done then .ok else .storeFail) m
  | cut {k : Id t} {table : Table (Rec ρ t)} {m : Mirror (Rec ρ t)} {done : Bool} {j : ℕ}
      (hc : op.change l s = .persist t table) (he : Edits l s t k table)
      (hk : op.Writes t k ∨ op.Deletes s t k ∧ Slots.get (ident t) k table.vals = none)
      (hj : j ≤ l.max t) (hm : Persisted (l.max t) { s t with table } j (m, done)) :
      Moves l s op t (if done then .ok else .storeFail) (m.boot (ident t) (l.max t))

theorem step_moves (hs : AllSound l s) (h : step l op s = some r) (t : Tab) :
    Moves l s op t r.1 (r.2 t) := by
  have hdone := step_done h
  cases hc : op.change l s with
  | answer rc =>
    rw [hc] at hdone
    cases hdone with
    | whole ok => exact .keep
    | cut ok j => exact .boot
  | persist t' table =>
    obtain ⟨k, he, hk⟩ := change_edits hs h hc
    rw [hc] at hdone
    by_cases ht : t = t'
    · subst ht
      cases hdone with
      | whole ok =>
        have hm := he.persisted (hs t) ok le_rfl
        have hat : ((Change.persist t table).carry s ok l.max).2 t =
            (Mirror.persist { s t with table } ok (l.max t)).1 := Function.update_self _ _ _
        rw [hat]
        exact .whole hc he hk hm
      | cut ok j =>
        have hm := he.persisted (hs t) ok (Nat.min_le_right j (l.max t))
        have hat : (cut l s (.persist t table) ok j).2 t =
            (Mirror.persist { s t with table } ok (min j (l.max t))).1.boot (ident t) (l.max t) :=
          congrArg (Mirror.boot (ident t) (l.max t)) (Function.update_self _ _ _)
        rw [hat]
        exact .cut hc he hk (Nat.min_le_right j (l.max t)) hm
    · cases hdone with
      | whole ok =>
        have hat : ((Change.persist t' table).carry s ok l.max).2 t = s t :=
          Function.update_of_ne ht _ _
        rw [hat]
        exact .keep
      | cut ok j =>
        have hat : (cut l s (.persist t' table) ok j).2 t = (s t).boot (ident t) (l.max t) :=
          congrArg (Mirror.boot (ident t) (l.max t)) (Function.update_of_ne ht _ _)
        rw [hat]
        exact .boot

variable {rc : Rc} {m : Mirror (Rec ρ t)}

theorem Moves.sound (h : Moves l s op t rc m) (hs : Sound (ident t) (l.max t) (s t)) :
    Sound (ident t) (l.max t) m := by
  cases h with
  | keep => exact hs
  | boot => exact boot_sound _ _ _
  | whole _ he _ hm =>
    have hvals := hm.vals
    refine ⟨?_, ?_, hm.covered⟩
    · rw [hvals]
      exact he.edit.nodup hs.nodup
    · rw [hvals]
      exact he.length_le
  | cut => exact boot_sound _ _ _

theorem step_sound (hs : AllSound l s) (h : step l op s = some r) : AllSound l r.2 :=
  fun t => (step_moves hs h t).sound (hs t)

omit [Nimble] in
theorem init_sound (l : Limits) (s : Store ρ) : AllSound l (storeInit l s) :=
  fun t => boot_sound _ _ (s t)

theorem Moves.kept (h : Moves l s op t rc m) (hs : Synced (ident t) (l.max t) (s t))
    (hrc : rc ≠ .storeFail) (hw : ¬ op.Writes t k) (hd : ¬ op.Deletes s t k) :
    Synced (ident t) (l.max t) m ∧ Slots.get (ident t) k m.table.vals = s.get t k := by
  have hne : ∀ {k' : Id t} {table : Table (Rec ρ t)}, (op.Writes t k' ∨
      op.Deletes s t k' ∧ Slots.get (ident t) k' table.vals = none) → k ≠ k' := by
    rintro k' table (hk | ⟨hk, -⟩) rfl
    · exact hw hk
    · exact hd hk
  cases h with
  | keep => exact ⟨hs, rfl⟩
  | boot => exact ⟨boot_synced _ _ _, boot_get k |>.trans (hs.get_eq k)⟩
  | @whole k' table m done _ he hk hm =>
    cases done with
    | false => exact absurd rfl hrc
    | true =>
      have hvals := hm.vals
      have hslots := hm.written rfl
      refine ⟨?_, ?_⟩
      · show Slots.Mirrors _ (recordAt m.slots) _ m.table.vals
        rw [hslots, hvals]
        exact Slots.mirrors_written _ he.length_le
      · rw [hvals]
        exact he.edit.get_of_ne (hne hk)
  | @cut k' table m done j _ he hk hj hm =>
    cases done with
    | false => exact absurd rfl hrc
    | true =>
      refine ⟨boot_synced _ _ _, ?_⟩
      rw [boot_get, hm.written rfl]
      exact hs.get_cut_of_ne he.edit (hne hk) hj

variable {tr : List (Record (Op ρ) Rc (Store ρ))}

theorem run_sound (h : Run (step l) s tr s') (hs : AllSound l s) : AllSound l s' :=
  h.invariant hs fun _ _ _ _ hs hstep => step_sound hs hstep

theorem run_kept (h : Run (step l) s tr s') (hs : AllSound l s)
    (hy : Synced (ident t) (l.max t) (s t)) (hrc : ∀ r ∈ tr, r.out ≠ .storeFail)
    (hno : ∀ r ∈ tr, ¬ r.inp.Writes t k ∧ ¬ r.inp.Deletes r.pre t k) :
    Synced (ident t) (l.max t) (s' t) ∧ s'.get t k = s.get t k := by
  induction h with
  | nil => exact ⟨hy, rfl⟩
  | @cons tr s' s'' i o hrun hstep ih =>
    have htail := ih (fun r hr => hrc r (List.mem_cons_of_mem _ hr))
      fun r hr => hno r (List.mem_cons_of_mem _ hr)
    obtain ⟨hw, hd⟩ := hno _ List.mem_cons_self
    have hmoves := step_moves (run_sound hrun hs) hstep t
    obtain ⟨hsynced, hget⟩ := hmoves.kept htail.1 (hrc _ List.mem_cons_self) hw hd
    exact ⟨hsynced, hget.trans htail.2⟩

theorem read_keyFromValue {v : Rec ρ t} (hv : Proper t v) (hget : s.get t (ident t v) = some v) :
    storeRead s (.of t (keyFromValue t v)) = .ok (.of t v) := by
  unfold storeRead
  dsimp only
  rw [find_keyFromValue hv, ← List.find?_eq_bind_findIdx?_getElem?]
  unfold Store.get Slots.get at hget
  rw [hget]

omit [Nimble] in
theorem carry_ok {table : Table (Rec ρ t)} (he : Edits l s t k table) (hs : AllSound l s)
    (h : (Change.persist t table).carry s ok l.max = (.ok, s')) :
    (s' t).table.vals = table.vals ∧
      recordAt (s' t).slots = Slots.written (recordAt (s t).slots) table.vals (l.max t) := by
  have hm := he.persisted (hs t) ok le_rfl
  generalize hp : Mirror.persist { s t with table } ok (l.max t) = p at hm
  have hcarry : (Change.persist t table).carry s ok l.max =
      (if p.2 then .ok else .storeFail, Function.update s t p.1) := by
    rw [← hp]
    rfl
  obtain ⟨hrc, rfl⟩ := Prod.mk.inj (hcarry.symm.trans h)
  have hdone : p.2 = true := by
    by_contra hnot
    rw [if_neg hnot] at hrc
    cases hrc
  rw [Function.update_self]
  exact ⟨hm.vals, hm.written hdone⟩

omit [Nimble] in
theorem synced_of_written {vals : List (Rec ρ t)} (hlen : vals.length ≤ l.max t)
    (hvals : (s' t).table.vals = vals)
    (hslots : recordAt (s' t).slots = Slots.written (recordAt (s t).slots) vals (l.max t)) :
    Synced (ident t) (l.max t) (s' t) := by
  unfold Synced
  rw [hvals, hslots]
  exact Slots.mirrors_written _ hlen

/-- After a write that was answered 0, its record is in the table and in the slots. -/
theorem write_synced (hs : AllSound l s) {v : Rec ρ t}
    (h : step l (.write (.of t v) ok) s = some (.ok, s')) :
    Proper t v ∧ Synced (ident t) (l.max t) (s' t) ∧ s'.get t (ident t v) = some v := by
  obtain ⟨hv, h⟩ := Option.ite_none_right_eq_some.mp h
  have hw : (writeChange l s (.of t v)).carry s ok l.max = (.ok, s') := Option.some.inj h
  rcases writeChange_of l s v with hc | ⟨table, hc⟩
  · rw [hc] at hw
    cases (Prod.mk.inj hw).1
  · obtain ⟨he, hget⟩ := write_edits (hs t) hv hc
    rw [hc] at hw
    obtain ⟨hvals, hslots⟩ := carry_ok he hs hw
    refine ⟨hv, synced_of_written he.length_le hvals hslots, ?_⟩
    unfold Store.get
    rw [hvals]
    exact hget

/-- A record whose write was answered 0 is what is read for its key, over every boot and every loss
of power, until an operation on that key. -/
theorem written_is_read {s₀ s₁ s₂ : Store ρ} {tr₀ : List (Record (Op ρ) Rc (Store ρ))}
    (h₀ : Run (step l) (storeInit l s₀) tr₀ s) {v : Rec ρ t}
    (hw : step l (.write (.of t v) ok) s = some (.ok, s₁)) (h : Run (step l) s₁ tr s₂)
    (hrc : ∀ r ∈ tr, r.out ≠ .storeFail)
    (hno : ∀ r ∈ tr, ¬ r.inp.Writes t (ident t v) ∧ ¬ r.inp.Deletes r.pre t (ident t v)) :
    storeRead s₂ (.of t (keyFromValue t v)) = .ok (.of t v) := by
  have hs := run_sound h₀ (init_sound l s₀)
  obtain ⟨hv, hsynced, hget⟩ := write_synced hs hw
  have hkept := run_kept h (step_sound hs hw) hsynced hrc hno
  exact read_keyFromValue hv (hkept.2.trans hget)

end Kept

/-- The header of NimBLE. -/
instance : Nimble where
  any := ⟨0, 0⟩
  secKey v := ⟨v.peerAddr, 0⟩
  cccdKey v := ⟨v.peerAddr, v.chrValHandle, 0⟩
  secKey_eq _ := rfl
  cccdKey_eq _ := rfl

/-- Room for three bonds and eight descriptors. -/
def small : Limits := ⟨3, 8⟩

def blank : Store ℕ := fun _ => ⟨{}, fun _ => .missing⟩

def unpaired : Store ℕ := storeInit small blank

def bondOf (n : ℕ) : Rec ℕ .our := (⟨⟨0, BitVec.ofNat 48 n⟩, n⟩ : Sec ℕ)

def noFailure : ℕ → Bool := fun _ => true

def oneBond : Store ℕ := (storeWrite small unpaired (.of .our (bondOf 1)) noFailure).2

def twoBonds : Store ℕ := (storeWrite small oneBond (.of .our (bondOf 2)) noFailure).2

/-- The power goes when the delete of the first bond has moved the second one to its slot. -/
def firstCut : Store ℕ :=
  (cut small twoBonds (deleteChange twoBonds (.of .our (keyFromValue .our (bondOf 1))))
    noFailure 1).2

theorem written_is_read_second :
    storeRead firstCut (.of .our (keyFromValue .our (bondOf 2))) = .ok (.of .our (bondOf 2)) := by
  have h₀ : Run (step small) (storeInit small blank) _ oneBond :=
    .cons (i := .write (.of .our (bondOf 1)) noFailure) (o := .ok) .nil rfl
  have h : Run (step small) twoBonds [⟨.deleteCut (.of .our (keyFromValue .our (bondOf 1)))
      noFailure 1, twoBonds, .ok, firstCut⟩] firstCut := .cons .nil rfl
  have hfirst : storeRead twoBonds (.of .our (keyFromValue .our (bondOf 1))) =
      .ok (.of .our (bondOf 1)) := rfl
  have hw : step small (.write (.of .our (bondOf 2)) noFailure) oneBond = some (.ok, twoBonds) :=
    rfl
  refine written_is_read h₀ hw h
    (List.forall_mem_cons.mpr ⟨Rc.noConfusion, List.forall_mem_nil _⟩)
    (List.forall_mem_cons.mpr ⟨⟨id, fun hd => ?_⟩, List.forall_mem_nil _⟩)
  obtain ⟨a, ha, hk⟩ := hd
  cases hfirst.symm.trans ha
  exact absurd hk (by decide)

section Gone

variable [Nimble] {ρ : Type} {l : Limits} {s s' : Store ρ} {t : Tab} {k : Id t} {ok : ℕ → Bool}
  {op : Op ρ} {rc : Rc} {m : Mirror (Rec ρ t)} {tr : List (Record (Op ρ) Rc (Store ρ))}

/-- No record of the key, in the table or in the slots. -/
structure Absent (l : Limits) (t : Tab) (k : Id t) (m : Mirror (Rec ρ t)) : Prop where
  table : Slots.get (ident t) k m.table.vals = none
  slots : ∀ n < l.max t, ∀ a, recordAt m.slots n = some a → ident t a ≠ k

omit [Nimble] in
theorem Absent.boot (h : Absent l t k m) : Absent l t k (m.boot (ident t) (l.max t)) := by
  refine ⟨(boot_get k).trans (Slots.get_eq_none.mpr fun a ha => ?_), h.slots⟩
  obtain ⟨n, hn, hat⟩ := Slots.mem_records.mp ha
  exact h.slots n hn a hat

omit [Nimble] in
theorem Absent.persisted {table : Table (Rec ρ t)} {j : ℕ} {r : Mirror (Rec ρ t) × Bool}
    (h : Absent l t k (s t)) (hget : Slots.get (ident t) k table.vals = none)
    (hm : Persisted (l.max t) { s t with table } j r) : Absent l t k r.1 := by
  refine ⟨by rw [hm.vals]; exact hget, fun n hn a ha => ?_⟩
  have hold : recordAt (s t).slots n = some a → ident t a ≠ k := h.slots n hn a
  rcases Nat.lt_or_ge n j with hj | hj
  · rcases hm.each n hj with hsame | hnew
    · exact hold (hsame.symm.trans ha)
    · exact Slots.get_eq_none.mp hget a (List.mem_of_getElem? (hnew.symm.trans ha))
  · exact hold ((congrArg Slot.record? (hm.rest n hj)).symm.trans ha)

theorem Moves.absent (h : Moves l s op t rc m) (ha : Absent l t k (s t)) (hw : ¬ op.Writes t k) :
    Absent l t k m := by
  have hnone : ∀ {k' : Id t} {table : Table (Rec ρ t)}, Edits l s t k' table → (op.Writes t k' ∨
      op.Deletes s t k' ∧ Slots.get (ident t) k' table.vals = none) →
      Slots.get (ident t) k table.vals = none := by
    intro k' table he hk
    by_cases hkk : k = k'
    · subst hkk
      rcases hk with hk | ⟨-, hk⟩
      · exact absurd hk hw
      · exact hk
    · exact (he.edit.get_of_ne hkk).trans ha.table
  cases h with
  | keep => exact ha
  | boot => exact ha.boot
  | whole _ he hk hm => exact ha.persisted (hnone he hk) hm
  | cut _ he hk hj hm => exact (ha.persisted (hnone he hk) hm).boot

theorem run_absent (h : Run (step l) s tr s') (hs : AllSound l s) (ha : Absent l t k (s t))
    (hno : ∀ r ∈ tr, ¬ r.inp.Writes t k) : Absent l t k (s' t) := by
  induction h with
  | nil => exact ha
  | @cons tr s' s'' i o hrun hstep ih =>
    have htail := ih fun r hr => hno r (List.mem_cons_of_mem _ hr)
    exact (step_moves (run_sound hrun hs) hstep t).absent htail (hno _ List.mem_cons_self)

/-- After a delete that was answered 0, the record is gone from the table and from the slots. -/
theorem delete_absent (hs : AllSound l s) {q : Key t} {a : Rec ρ t}
    (hr : storeRead s (.of t q) = .ok (.of t a))
    (h : step l (.delete (.of t q) ok) s = some (.ok, s')) : Absent l t (ident t a) (s' t) := by
  have hd : (deleteChange s (.of t q)).carry s ok l.max = (.ok, s') := Option.some.inj h
  rcases deleteChange_of s q with hc | ⟨table, hc⟩
  · rw [hc] at hd
    cases (Prod.mk.inj hd).1
  · obtain ⟨b, hb, he, hget⟩ := delete_edits (hs t) hc
    rw [hb] at hr
    cases hr
    rw [hc] at hd
    obtain ⟨hvals, hslots⟩ := carry_ok he hs hd
    refine ⟨by rw [hvals]; exact hget, fun n hn c hat => ?_⟩
    rw [hslots, Slots.written, if_pos hn] at hat
    exact Slots.get_eq_none.mp hget c (List.mem_of_getElem? hat)

/-- A bond whose delete was answered 0 is not read again, whatever fails and however often the power
goes, until it is written. -/
theorem deleted_stays {s₀ s₁ s₂ : Store ρ} {tr₀ : List (Record (Op ρ) Rc (Store ρ))}
    (h₀ : Run (step l) (storeInit l s₀) tr₀ s) {q : Key t} {a : Rec ρ t}
    (hr : storeRead s (.of t q) = .ok (.of t a))
    (hd : step l (.delete (.of t q) ok) s = some (.ok, s₁)) (h : Run (step l) s₁ tr s₂)
    (hno : ∀ r ∈ tr, ¬ r.inp.Writes t (ident t a)) (q' : Key t) (b : Rec ρ t)
    (hb : storeRead s₂ (.of t q') = .ok (.of t b)) : ident t b ≠ ident t a := by
  have hs := run_sound h₀ (init_sound l s₀)
  have habsent := run_absent h (step_sound hs hd) (delete_absent hs hr hd) hno
  refine Slots.get_eq_none.mp habsent.table b ?_
  unfold storeRead at hb
  dsimp only at hb
  split at hb
  · rename_i v hv
    obtain ⟨i, -, hi⟩ := Option.bind_eq_some_iff.mp hv
    cases hb
    exact List.mem_of_getElem? hi
  · cases hb

end Gone

def secondOnly : Store ℕ :=
  (storeDelete small twoBonds (.of .our (keyFromValue .our (bondOf 1))) noFailure).2

/-- The write of a third bond is cut short before its slot. -/
def thirdCut : Store ℕ :=
  (cut small secondOnly (writeChange small secondOnly (.of .our (bondOf 3))) noFailure 1).2

theorem twoBonds_run : Run (step small) (storeInit small blank)
    [⟨.write (.of .our (bondOf 2)) noFailure, oneBond, .ok, twoBonds⟩,
      ⟨.write (.of .our (bondOf 1)) noFailure, unpaired, .ok, oneBond⟩] twoBonds :=
  .cons (.cons .nil rfl) rfl

theorem deleted_stays_first :
    storeRead thirdCut (.of .our (⟨.any, 0⟩ : SecKey)) = .ok (.of .our (bondOf 2)) ∧
      ident .our (bondOf 2) ≠ ident .our (bondOf 1) := by
  have hd : step small (.delete (.of .our (keyFromValue .our (bondOf 1))) noFailure) twoBonds =
      some (.ok, secondOnly) := rfl
  have h : Run (step small) secondOnly
      [⟨.writeCut (.of .our (bondOf 3)) noFailure 1, secondOnly, .ok, thirdCut⟩] thirdCut :=
    .cons .nil rfl
  refine ⟨rfl, deleted_stays twoBonds_run rfl hd h (List.forall_mem_cons.mpr ⟨fun hw => ?_,
    List.forall_mem_nil _⟩) (⟨.any, 0⟩ : SecKey) (bondOf 2) rfl⟩
  obtain ⟨a, ha, hk⟩ := hw
  cases ha
  exact absurd hk (by decide)

end OpenCalifornia.Bonds
