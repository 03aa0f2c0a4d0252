import OpenCalifornia.Bonds.Table

/-! # A table and its slots

What a boot reads, and what a persist leaves in the slots however far it came. -/

namespace OpenCalifornia.Bonds
open Lib

variable {α κ : Type} [DecidableEq κ] {key : α → κ} {max j : ℕ} {ok : ℕ → Bool} {m : Mirror α}

/-- The records in the slots. -/
def recordAt (slots : ℕ → Slot α) (n : ℕ) : Option α := (slots n).record?

theorem Slot.record?_of_unused {x : Slot α} (h : x.used = false) : x.record? = none := by
  cases x with
  | missing => rfl
  | cleared => rfl
  | corrupt => rfl
  | record a => cases h

theorem loadSlot_vals (slots : ℕ → Slot α) (t : Table α) (n : ℕ) :
    (loadSlot key slots t n).vals = (recordAt slots n).toList.foldl (Slots.push key) t.vals := by
  unfold loadSlot recordAt
  cases slots n with
  | missing => rfl
  | cleared => rfl
  | corrupt => rfl
  | record a =>
    show _ = Slots.push key t.vals a
    unfold Slots.push loadedDup
    dsimp only
    split_ifs <;> rfl

theorem loadSlot_used (slots : ℕ → Slot α) (t : Table α) (n i : ℕ) :
    i ∈ (loadSlot key slots t n).usedSlots ↔ i ∈ t.usedSlots ∨ i = n ∧ (slots n).used = true := by
  unfold loadSlot
  cases slots n with
  | missing => simp [Slot.used]
  | cleared => simp [Slot.used]
  | corrupt => simp [Slot.used, or_comm]
  | record a =>
    dsimp only
    split_ifs <;> simp [Slot.used, or_comm]

theorem tableLoad_succ (slots : ℕ → Slot α) (n : ℕ) :
    tableLoad key (n + 1) slots = loadSlot key slots (tableLoad key n slots) n := by
  rw [tableLoad, List.range_succ, List.foldl_append]
  rfl

theorem tableLoad_vals (key : α → κ) (max : ℕ) (slots : ℕ → Slot α) :
    (tableLoad key max slots).vals = Slots.firsts key (Slots.records (recordAt slots) max) := by
  induction max with
  | zero => rfl
  | succ n ih =>
    rw [tableLoad_succ, loadSlot_vals, ih, Slots.records_succ, Slots.firsts, Slots.firsts,
      List.foldl_append]

theorem mem_tableLoad_used (slots : ℕ → Slot α) (i : ℕ) :
    i ∈ (tableLoad key max slots).usedSlots ↔ i < max ∧ (slots i).used = true := by
  induction max with
  | zero => simp [tableLoad]
  | succ n ih =>
    rw [tableLoad_succ, loadSlot_used, ih, Nat.lt_succ_iff_lt_or_eq, or_and_right]
    refine or_congr_right (and_congr_right fun h => ?_)
    rw [h]

/-- Every slot with data in it is known to be in use. -/
def Covered (max : ℕ) (m : Mirror α) : Prop :=
  ∀ n < max, (m.slots n).used = true → n ∈ m.table.usedSlots

/-- What the first `j` slots are after a persist. -/
structure Persisted (max : ℕ) (m : Mirror α) (j : ℕ) (r : Mirror α × Bool) : Prop where
  vals : r.1.table.vals = m.table.vals
  rest : ∀ n, j ≤ n → r.1.slots n = m.slots n
  each : ∀ n < j, recordAt r.1.slots n = recordAt m.slots n ∨
    recordAt r.1.slots n = m.table.vals[n]?
  done : r.2 = true → ∀ n < j, recordAt r.1.slots n = m.table.vals[n]?
  covered : Covered max r.1

theorem persistSlot_spec {r : Mirror α × Bool} (h : Persisted max m j r) (hj : j < max) :
    Persisted max m (j + 1) (persistSlot ok r j) := by
  obtain ⟨m', rc⟩ := r
  obtain ⟨hvals, hrest, heach, hdone, hcovered⟩ := h
  -- a slot that is left alone: its write failed, or there was nothing to write
  have hkeep : ∀ rc', (rc' = true → rc = true ∧ recordAt m'.slots j = m.table.vals[j]?) →
      Persisted max m (j + 1) (m', rc') := by
    intro rc' hrc
    refine ⟨hvals, fun n hn => hrest n (Nat.le_of_succ_le hn), fun n hn => ?_, fun hr n hn => ?_,
      hcovered⟩
    · rcases Nat.lt_succ_iff_lt_or_eq.mp hn with hn | rfl
      · exact heach n hn
      · exact .inl (congrArg Slot.record? (hrest n le_rfl))
    · rcases Nat.lt_succ_iff_lt_or_eq.mp hn with hn | rfl
      · exact hdone (hrc hr).1 n hn
      · exact (hrc hr).2
  -- a slot that is written
  have hwrite : ∀ (x : Slot α) (used : Finset ℕ), x.record? = m.table.vals[j]? →
      (∀ n, n ≠ j → n ∈ m'.table.usedSlots → n ∈ used) → (x.used = true → j ∈ used) →
      Persisted max m (j + 1)
        (⟨{ m'.table with usedSlots := used }, Function.update m'.slots j x⟩, rc) := by
    intro x used hx hother hself
    have hat : recordAt (Function.update m'.slots j x) j = m.table.vals[j]? := by
      rw [recordAt, Function.update_self, hx]
    have hne : ∀ n, n ≠ j → Function.update m'.slots j x n = m'.slots n :=
      fun n hn => Function.update_of_ne hn _ _
    have hold : ∀ n < j, recordAt (Function.update m'.slots j x) n = recordAt m'.slots n :=
      fun n hn => congrArg Slot.record? (hne n (Nat.ne_of_lt hn))
    refine ⟨hvals, fun n hn => ?_, fun n hn => ?_, fun hr n hn => ?_, fun n hn hused => ?_⟩
    · exact (hne n (Nat.ne_of_gt hn)).trans (hrest n (Nat.le_of_succ_le hn))
    · rcases Nat.lt_succ_iff_lt_or_eq.mp hn with hn | rfl
      · exact (heach n hn).imp (hold n hn).trans (hold n hn).trans
      · exact .inr hat
    · rcases Nat.lt_succ_iff_lt_or_eq.mp hn with hn | rfl
      · exact (hold n hn).trans (hdone hr n hn)
      · exact hat
    · by_cases hnj : n = j
      · subst hnj
        exact hself ((congrArg Slot.used (Function.update_self n x m'.slots)).symm.trans hused)
      · exact hother n hnj (hcovered n hn ((congrArg Slot.used (hne n hnj)).symm.trans hused))
  unfold persistSlot Mirror.kvSet
  dsimp only
  rw [hvals]
  cases ha : m.table.vals[j]? with
  | some a =>
    rw [ha] at hkeep hwrite
    dsimp only
    cases hok : ok j with
    | true =>
      exact hwrite (.record a) _ rfl (fun n _ hn => Finset.mem_insert_of_mem hn)
        fun _ => Finset.mem_insert_self _ _
    | false => exact hkeep false fun h => absurd h Bool.false_ne_true
  | none =>
    rw [ha] at hkeep hwrite
    dsimp only
    by_cases hused : j ∈ m'.table.usedSlots
    · rw [if_pos hused]
      cases hok : ok j with
      | true =>
        exact hwrite .cleared _ rfl (fun n hn hmem => Finset.mem_erase.mpr ⟨hn, hmem⟩)
          fun h => absurd h Bool.false_ne_true
      | false => exact hkeep false fun h => absurd h Bool.false_ne_true
    · rw [if_neg hused]
      refine hkeep rc fun h => ⟨h, Slot.record?_of_unused (Bool.eq_false_iff.mpr fun hu => ?_)⟩
      exact hused (hcovered j hj hu)

theorem persist_spec (h : Covered max m) (ok : ℕ → Bool) (hj : j ≤ max) :
    Persisted max m j (m.persist ok j) := by
  induction j with
  | zero =>
    exact ⟨rfl, fun _ _ => rfl, fun n hn => absurd hn n.not_lt_zero,
      fun _ n hn => absurd hn n.not_lt_zero, h⟩
  | succ j ih =>
    have hsucc : m.persist ok (j + 1) = persistSlot ok (m.persist ok j) j := by
      rw [Mirror.persist, List.range_succ, List.foldl_append]
      rfl
    rw [hsucc]
    exact persistSlot_spec (ih (Nat.le_of_succ_le hj)) hj

theorem Persisted.written {r : Mirror α × Bool} (h : Persisted max m j r) (hr : r.2 = true) :
    recordAt r.1.slots = Slots.written (recordAt m.slots) m.table.vals j := by
  funext n
  unfold Slots.written
  split_ifs with hn
  · exact h.done hr n hn
  · exact congrArg Slot.record? (h.rest n (Nat.le_of_not_lt hn))

/-- The table in memory, whatever the slots are. -/
structure Sound (key : α → κ) (max : ℕ) (m : Mirror α) : Prop where
  nodup : (m.table.vals.map key).Nodup
  length_le : m.table.vals.length ≤ max
  covered : Covered max m

/-- The table and its slots say the same. -/
def Synced (key : α → κ) (max : ℕ) (m : Mirror α) : Prop :=
  Slots.Mirrors key (recordAt m.slots) max m.table.vals

def Mirror.boot (key : α → κ) (max : ℕ) (m : Mirror α) : Mirror α :=
  { m with table := tableLoad key max m.slots }

theorem boot_sound (key : α → κ) (max : ℕ) (m : Mirror α) : Sound key max (m.boot key max) where
  nodup := by
    show ((tableLoad key max m.slots).vals.map key).Nodup
    rw [tableLoad_vals]
    exact Slots.nodup_firsts _
  length_le := by
    show (tableLoad key max m.slots).vals.length ≤ max
    rw [tableLoad_vals]
    exact (Slots.length_firsts_le _).trans (Slots.length_records_le _ _)
  covered := fun n hn hu => (mem_tableLoad_used m.slots n).mpr ⟨hn, hu⟩

theorem boot_synced (key : α → κ) (max : ℕ) (m : Mirror α) : Synced key max (m.boot key max) := by
  show Slots.Mirrors key _ max (tableLoad key max m.slots).vals
  rw [tableLoad_vals]
  exact Slots.mirrors_firsts _ _

theorem boot_get (k : κ) : Slots.get key k (m.boot key max).table.vals =
    Slots.get key k (Slots.records (recordAt m.slots) max) := by
  show Slots.get key k (tableLoad key max m.slots).vals = _
  rw [tableLoad_vals, Slots.get_firsts]

theorem persist_synced (h : Covered max m) (hlen : m.table.vals.length ≤ max)
    (hr : (m.persist ok max).2 = true) :
    Synced key max (m.persist ok max).1 ∧
      recordAt (m.persist ok max).1.slots =
        Slots.written (recordAt m.slots) m.table.vals max := by
  have hspec := persist_spec h ok le_rfl
  have hslots := hspec.written hr
  refine ⟨?_, hslots⟩
  unfold Synced
  rw [hslots, hspec.vals]
  exact Slots.mirrors_written _ hlen

end OpenCalifornia.Bonds
