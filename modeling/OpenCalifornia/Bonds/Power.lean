import OpenCalifornia.Bonds.Runs

/-! # A change that is cut short

Once an operation on a table was answered 0, its slots hold just the table, and the next change of
it is made or not made when the power goes. -/

namespace OpenCalifornia.Bonds
open Lib Lib.Machine

variable {ρ : Type} {l : Limits} {s s' : Store ρ} {t : Tab} {k : Id t} {op : Op ρ} {rc : Rc}
  {m : Mirror (Rec ρ t)} {tr : List (Record (Op ρ) Rc (Store ρ))}

/-- The slots hold the table and nothing else. -/
def Exact (l : Limits) (t : Tab) (m : Mirror (Rec ρ t)) : Prop :=
  ∀ n < l.max t, recordAt m.slots n = m.table.vals[n]?

/-- An operation on the table that is carried to its end. -/
def Op.Settles (t : Tab) : Op ρ → Prop
  | .write v _ => ∃ a, v = .of t a
  | .delete q _ => ∃ k, q = .of t k
  | _ => False

def Op.On (t : Tab) : Op ρ → Prop
  | .write v _ => ∃ a, v = .of t a
  | .writeCut v _ _ => ∃ a, v = .of t a
  | .delete q _ => ∃ k, q = .of t k
  | .deleteCut q _ _ => ∃ k, q = .of t k
  | .boot => False

theorem exact_of_carry {table : Table (Rec ρ t)} {ok : ℕ → Bool} (he : Edits l s t k table)
    (hs : AllSound l s) (h : (Change.persist t table).carry s ok l.max = (.ok, s')) :
    Exact l t (s' t) := by
  obtain ⟨hvals, hslots⟩ := carry_ok he hs h
  intro n hn
  rw [hslots, hvals, Slots.written, if_pos hn]

theorem Exact.records (h : Exact l t m) (hs : Sound (ident t) (l.max t) m) :
    Slots.records (recordAt m.slots) (l.max t) = m.table.vals := by
  rw [Slots.records_congr h, Slots.records_getElem, List.take_of_length_le hs.length_le]

theorem Exact.boot_vals (h : Exact l t m) (hs : Sound (ident t) (l.max t) m) :
    (m.boot (ident t) (l.max t)).table.vals = m.table.vals := by
  show (tableLoad (ident t) (l.max t) m.slots).vals = _
  rw [tableLoad_vals, h.records hs, Slots.firsts_of_nodup hs.nodup]

theorem Exact.boot (h : Exact l t m) (hs : Sound (ident t) (l.max t) m) :
    Exact l t (m.boot (ident t) (l.max t)) := by
  intro n hn
  rw [h.boot_vals hs]
  exact h n hn

theorem Exact.synced (h : Exact l t m) (hs : Sound (ident t) (l.max t) m) :
    Synced (ident t) (l.max t) m := by
  have hfirsts := @Slots.mirrors_firsts _ _ _ (ident t) (recordAt m.slots) (l.max t)
  rwa [h.records hs, Slots.firsts_of_nodup hs.nodup] at hfirsts

theorem Exact.alike (h : Exact l t m) (hs : Sound (ident t) (l.max t) m) :
    Slots.Alike (ident t) (recordAt m.slots) (l.max t) := by
  intro n hn n' hn' a b ha hb hkey
  rw [h n hn] at ha
  rw [h n' hn'] at hb
  exact List.inj_on_of_nodup_map hs.nodup (List.mem_of_getElem? ha) (List.mem_of_getElem? hb) hkey

theorem Op.Writes.on (h : op.Writes t k) : op.On t := by
  cases op with
  | write v ok => exact h.imp fun _ h => h.1
  | writeCut v ok j => exact h.imp fun _ h => h.1
  | delete q ok => exact h.elim
  | deleteCut q ok j => exact h.elim
  | boot => exact h

/-- The store after a change that no write of failed. -/
def Change.made (l : Limits) (s : Store ρ) (c : Change ρ) : Store ρ :=
  (c.carry s (fun _ => true) l.max).2

theorem carry_get {table : Table (Rec ρ t)} (he : Edits l s t k table) (hs : AllSound l s)
    (ok : ℕ → Bool) (k' : Id t) : ((Change.persist t table).carry s ok l.max).2.get t k' =
      Slots.get (ident t) k' table.vals := by
  have hm := he.persisted (hs t) ok le_rfl
  have hat : ((Change.persist t table).carry s ok l.max).2 t =
      (Mirror.persist { s t with table } ok (l.max t)).1 := Function.update_self _ _ _
  unfold Store.get
  rw [hat, hm.vals]

theorem carry_rc {table : Table (Rec ρ t)} (s : Store ρ) (ok : ℕ → Bool) :
    ((Change.persist t table).carry s ok l.max).1 = .ok ∨
      ((Change.persist t table).carry s ok l.max).1 = .storeFail := by
  show (if _ then Rc.ok else .storeFail) = _ ∨ (if _ then Rc.ok else .storeFail) = _
  split_ifs
  · exact .inl rfl
  · exact .inr rfl

theorem findIdx?_eq_none_iff_get {v : Rec ρ t} :
    ((s t).table.vals.findIdx? fun b => ident t b = ident t v) = none ↔
      s.get t (ident t v) = none := by
  rw [List.findIdx?_eq_none_iff, Store.get, Slots.get_eq_none]
  exact forall₂_congr fun b _ => decide_eq_false_iff_not

section Cut
variable [Nimble]

theorem settles_exact (hs : AllSound l s) (hop : op.Settles t) (h : step l op s = some (.ok, s')) :
    Exact l t (s' t) := by
  cases op with
  | write v ok =>
    obtain ⟨a, rfl⟩ := hop
    obtain ⟨hv, h⟩ := Option.ite_none_right_eq_some.mp h
    have hw : (writeChange l s (.of t a)).carry s ok l.max = (.ok, s') := Option.some.inj h
    rcases writeChange_of l s a with hc | ⟨table, hc⟩
    · rw [hc] at hw
      cases (Prod.mk.inj hw).1
    · rw [hc] at hw
      exact exact_of_carry (write_edits (hs t) hv hc).1 hs hw
  | delete q ok =>
    obtain ⟨k, rfl⟩ := hop
    have hd : (deleteChange s (.of t k)).carry s ok l.max = (.ok, s') := Option.some.inj h
    rcases deleteChange_of s k with hc | ⟨table, hc⟩
    · rw [hc] at hd
      cases (Prod.mk.inj hd).1
    · obtain ⟨b, -, he, -⟩ := delete_edits (hs t) hc
      rw [hc] at hd
      exact exact_of_carry he hs hd
  | boot => exact hop.elim
  | writeCut v ok j => exact hop.elim
  | deleteCut q ok j => exact hop.elim

theorem query_of_read {q : Query} {a : Rec ρ t} (h : storeRead s q = .ok (.of t a)) :
    ∃ k, q = .of t k := by
  cases q with
  | of t' k =>
    unfold storeRead at h
    dsimp only at h
    split at h
    · cases h
      exact ⟨k, rfl⟩
    · cases h
  | other => cases h

theorem Op.Deletes.on (h : op.Deletes s t k) : op.On t := by
  cases op with
  | write v ok => exact h.elim
  | writeCut v ok j => exact h.elim
  | delete q ok =>
    obtain ⟨a, ha, -⟩ := h
    exact query_of_read ha
  | deleteCut q ok j =>
    obtain ⟨a, ha, -⟩ := h
    exact query_of_read ha
  | boot => exact h

theorem Moves.exact (h : Moves l s op t rc m) (hs : Sound (ident t) (l.max t) (s t))
    (hex : Exact l t (s t)) (hop : ¬ op.On t) : Exact l t m := by
  cases h with
  | keep => exact hex
  | boot => exact hex.boot hs
  | whole _ _ hk _ => exact absurd (hk.elim Op.Writes.on fun h => h.1.on) hop
  | cut _ _ hk _ _ => exact absurd (hk.elim Op.Writes.on fun h => h.1.on) hop

theorem run_exact (h : Run (step l) s tr s') (hs : AllSound l s) (hex : Exact l t (s t))
    (hop : ∀ r ∈ tr, ¬ r.inp.On t) : Exact l t (s' t) := by
  induction h with
  | nil => exact hex
  | @cons tr s' s'' i o hrun hstep ih =>
    have hs' := run_sound hrun hs
    have htail := ih fun r hr => hop r (List.mem_cons_of_mem _ hr)
    exact (step_moves hs' hstep t).exact (hs' t) htail (hop _ List.mem_cons_self)

theorem Moves.atomic (h : Moves l s op t rc m) (hs : AllSound l s) (hex : Exact l t (s t))
    (hrc : rc ≠ .storeFail) : (∀ k, Slots.get (ident t) k m.table.vals = s.get t k) ∨
      ∀ k, Slots.get (ident t) k m.table.vals = ((op.change l s).made l s).get t k := by
  have hsynced := hex.synced (hs t)
  cases h with
  | keep => exact .inl fun k => rfl
  | boot => exact .inl fun k => (boot_get k).trans (hsynced.get_eq k)
  | @whole k' table m done hc he hk hm =>
    refine .inr fun k => ?_
    rw [hc, Change.made, carry_get he hs]
    exact congrArg (Slots.get (ident t) k) hm.vals
  | @cut k' table m done j hc he hk hj hm =>
    cases done with
    | false => exact absurd rfl hrc
    | true =>
      have hget : ∀ k, Slots.get (ident t) k (m.boot (ident t) (l.max t)).table.vals =
          Slots.get (ident t) k (Slots.records
            (Slots.written (recordAt (s t).slots) table.vals j) (l.max t)) := by
        intro k
        rw [boot_get, hm.written rfl]
      refine (hsynced.cut_atomic (hex.alike (hs t)) he.edit (hs t).nodup hj).imp
        (fun h k => (hget k).trans (h k)) fun h k => ?_
      rw [hc, Change.made, carry_get he hs]
      exact (hget k).trans (h k)

/-- After an operation on a table was answered 0 and none on it since, the next operation on it is
made or not made, wherever in it the power goes. -/
theorem power_cut {s₀ s₁ s₂ s₃ : Store ρ} {tr₀ : List (Record (Op ρ) Rc (Store ρ))} {op' : Op ρ}
    (h₀ : Run (step l) (storeInit l s₀) tr₀ s) (hop : op.Settles t)
    (hset : step l op s = some (.ok, s₁)) (h : Run (step l) s₁ tr s₂)
    (hquiet : ∀ r ∈ tr, ¬ r.inp.On t) (hcut : step l op' s₂ = some (rc, s₃))
    (hrc : rc ≠ .storeFail) :
    (∀ k, s₃.get t k = s₂.get t k) ∨ ∀ k, s₃.get t k = ((op'.change l s₂).made l s₂).get t k := by
  have hs := run_sound h₀ (init_sound l s₀)
  have hs₁ := step_sound hs hset
  have hs₂ := run_sound h hs₁
  have hex := run_exact h hs₁ (settles_exact hs hop hset) hquiet
  exact (step_moves hs₂ hcut t).atomic hs₂ hex hrc

end Cut

theorem power_cut_first : (∀ k, firstCut.get .our k = twoBonds.get .our k) ∨
    ∀ k, firstCut.get .our k = ((deleteChange twoBonds
      (.of .our (keyFromValue .our (bondOf 1)))).made small twoBonds).get .our k := by
  have h₀ : Run (step small) (storeInit small blank) _ oneBond :=
    .cons (i := .write (.of .our (bondOf 1)) noFailure) (o := .ok) .nil rfl
  have hset : step small (.write (.of .our (bondOf 2)) noFailure) oneBond = some (.ok, twoBonds) :=
    rfl
  have hcut : step small (.deleteCut (.of .our (keyFromValue .our (bondOf 1))) noFailure 1)
      twoBonds =
      some (.ok, firstCut) := rfl
  have hop : Op.Settles .our (.write (.of .our (bondOf 2)) noFailure) := ⟨bondOf 2, rfl⟩
  exact power_cut h₀ hop hset .nil (List.forall_mem_nil _) hcut Rc.noConfusion

section Reads
variable [Nimble]

/-- What every state of a run says: each identity has one record at most, as many as there is room
for, and a query reads the records that match it, one for each index. -/
theorem reads_table {s₀ : Store ρ} (h : Run (step l) (storeInit l s₀) tr s) (t : Tab) :
    ((s t).table.vals.map (ident t)).Nodup ∧ (s t).table.vals.length ≤ l.max t ∧
      ∀ q, storeRead s (.of t q) = (matching t q (s t).table.vals)[Key.index t q]?.elim
        (.error .noent) fun a => .ok (.of t a) := by
  have hs := run_sound h (init_sound l s₀) t
  refine ⟨hs.nodup, hs.length_le, fun q => ?_⟩
  unfold storeRead
  dsimp only
  rw [← find_eq q hs.nodup]
  cases (find t q (s t).table.vals).bind ((s t).table.vals[·]?) with
  | none => rfl
  | some a => rfl

end Reads

theorem reads_table_two : storeRead twoBonds (.of .our (⟨.any, 1⟩ : SecKey)) =
    (matching .our (⟨.any, 1⟩ : SecKey) (twoBonds .our).table.vals)[1]?.elim (.error .noent)
      fun a => .ok (.of .our a) :=
  (reads_table twoBonds_run .our).2.2 (⟨.any, 1⟩ : SecKey)

section Writes
variable [Nimble]

theorem writeChange_cap (hs : Sound (ident t) (l.max t) (s t)) {v : Rec ρ t} (hv : Proper t v) :
    writeChange l s (.of t v) = .answer .storeCap ↔
      s.get t (ident t v) = none ∧ (s t).table.vals.length = l.max t := by
  unfold writeChange
  dsimp only
  rw [find_keyFromValue hv, ← findIdx?_eq_none_iff_get]
  cases hfind : (s t).table.vals.findIdx? fun b => ident t b = ident t v with
  | some i =>
    refine iff_of_false (fun hc => ?_) fun h => ?_
    · cases hc
    · cases h.1
  | none =>
    unfold Table.put
    dsimp only
    by_cases hfull : l.max t ≤ (s t).table.vals.length
    · rw [if_pos hfull]
      exact iff_of_true rfl ⟨rfl, hs.length_le.antisymm hfull⟩
    · rw [if_neg hfull]
      refine iff_of_false (fun hc => ?_) fun h => hfull h.2.ge
      cases hc

/-- A write sets the record of its key, whatever writes of the kv-store fail; without room for a new
key it changes nothing. -/
theorem write_sets {s₀ : Store ρ} (h : Run (step l) (storeInit l s₀) tr s) {v : Rec ρ t}
    (hv : Proper t v) (ok : ℕ → Bool) :
    if s.get t (ident t v) = none ∧ (s t).table.vals.length = l.max t then
      storeWrite l s (.of t v) ok = (.storeCap, s)
    else ((storeWrite l s (.of t v) ok).1 = .ok ∨ (storeWrite l s (.of t v) ok).1 = .storeFail) ∧
      (storeWrite l s (.of t v) ok).2.get t (ident t v) = some v ∧
      ∀ k, k ≠ ident t v → (storeWrite l s (.of t v) ok).2.get t k = s.get t k := by
  have hs := run_sound h (init_sound l s₀)
  have hcap := writeChange_cap (hs t) hv
  unfold storeWrite
  split_ifs with hfull
  · rw [hcap.mpr hfull]
    rfl
  · rcases writeChange_of l s v with hc | ⟨table, hc⟩
    · exact absurd (hcap.mp hc) hfull
    · obtain ⟨he, hget⟩ := write_edits (hs t) hv hc
      rw [hc]
      refine ⟨carry_rc s ok, (carry_get he hs ok _).trans hget, fun k hk => ?_⟩
      exact (carry_get he hs ok k).trans (he.edit.get_of_ne hk)

end Writes

theorem write_sets_third :
    (storeWrite small twoBonds (.of .our (bondOf 3)) fun _ => false).2.get .our
      (ident .our (bondOf 3)) = some (bondOf 3) := by
  have hv : Proper .our (bondOf 3) := by decide
  have hset := write_sets twoBonds_run hv fun _ => false
  rw [if_neg (by rintro ⟨-, hfull⟩; cases hfull)] at hset
  exact hset.2.1

section Deletes
variable [Nimble]

/-- A delete takes out the record that its query reads, whatever writes of the kv-store fail; where
it reads none it changes nothing. -/
theorem delete_erases {s₀ : Store ρ} (h : Run (step l) (storeInit l s₀) tr s) (q : Key t)
    (ok : ℕ → Bool) :
    storeRead s (.of t q) = .error .noent ∧ storeDelete l s (.of t q) ok = (.noent, s) ∨
      ∃ a, storeRead s (.of t q) = .ok (.of t a) ∧
        ((storeDelete l s (.of t q) ok).1 = .ok ∨ (storeDelete l s (.of t q) ok).1 = .storeFail) ∧
        (storeDelete l s (.of t q) ok).2.get t (ident t a) = none ∧
        ∀ k, k ≠ ident t a → (storeDelete l s (.of t q) ok).2.get t k = s.get t k := by
  have hs := run_sound h (init_sound l s₀)
  unfold storeDelete
  rcases deleteChange_of s q with hc | ⟨table, hc⟩
  · refine .inl ⟨?_, by rw [hc]; rfl⟩
    unfold deleteChange at hc
    unfold storeRead
    dsimp only at hc ⊢
    cases hfind : find t q (s t).table.vals with
    | none => rfl
    | some i =>
      rw [hfind] at hc
      cases hc
  · obtain ⟨a, ha, he, hget⟩ := delete_edits (hs t) hc
    rw [hc]
    exact .inr ⟨a, ha, carry_rc s ok, (carry_get he hs ok _).trans hget, fun k hk =>
      (carry_get he hs ok k).trans (he.edit.get_of_ne hk)⟩

end Deletes

theorem delete_erases_first :
    (storeDelete small twoBonds (.of .our (keyFromValue .our (bondOf 1))) fun _ => false).2.get .our
      (ident .our (bondOf 1)) = none := by
  obtain ⟨hnone, -⟩ | ⟨a, ha, -, hget, -⟩ :=
    delete_erases twoBonds_run (keyFromValue .our (bondOf 1)) fun _ => false
  · cases hnone
  · cases ha
    exact hget

end OpenCalifornia.Bonds
