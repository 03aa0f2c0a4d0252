import OpenCalifornia.Bonds.Power
import OpenCalifornia.Kv.Host

/-! # The slots as files

A table that is persisted to the files of the host goes through the same slots as the mirror does.
-/

namespace OpenCalifornia.Bonds
open Lib Lib.Bits Kv

/-- A value struct and its bytes. -/
structure Layout (α : Type) where
  size : ℕ
  bytes : α → List Byte
  value : List Byte → α
  length_bytes : ∀ a, (bytes a).length = size
  value_bytes : ∀ a, value (bytes a) = a
  size_pos : 0 < size
  size_le : size ≤ fileMax - 8

variable {α : Type} (L : Layout α) {t t' : Tab} {n n' max j : ℕ} {d : Dir}

def tablePrefix : Tab → List Char
  | .our => ['s', 'e', 'c', '_', 'o', 'u', 'r', '_']
  | .peer => ['s', 'e', 'c', '_', 'p', 'e', 'e', 'r', '_']
  | .cccd => ['c', 'c', 'c', 'd', '_']

def slotKey (t : Tab) (n : ℕ) : List Char := tablePrefix t ++ Nat.toDigits 10 n

/-- What `table_load` makes of an answer. -/
def Layout.slot : Got → Slot α
  | .missing => .missing
  | .corrupt => .corrupt
  | .value v =>
    if v = [] then .cleared else if v.length = L.size then .record (L.value v) else .corrupt

/-- The slots of a table in the directory. -/
def Layout.slots (t : Tab) (max : ℕ) (d : Dir) (n : ℕ) : Slot α :=
  if n < max then L.slot (kvGet d (slotKey t n) L.size true) else .missing

/-- `table_persist` at a slot, on the files. -/
def persistFile (t : Tab) (fate : ℕ → SetFate) (r : (Table α × Dir) × Bool) (n : ℕ) :
    (Table α × Dir) × Bool :=
  let ((table, d), rc) := r
  match table.vals[n]? with
  | some a =>
    let (answer, d) := kvSet d (slotKey t n) (L.bytes a) (fate n)
    if answer = some true then (({ table with usedSlots := insert n table.usedSlots }, d), rc)
    else ((table, d), false)
  | none =>
    if n ∈ table.usedSlots then
      let (answer, d) := kvSet d (slotKey t n) [] (fate n)
      if answer = some true then (({ table with usedSlots := table.usedSlots.erase n }, d), rc)
      else ((table, d), false)
    else ((table, d), rc)

/-- The most slots that a table may have. -/
def slotsMax : ℕ := 32

theorem slotKey_ok (t : Tab) (hn : n < slotsMax) : keyOk (slotKey t n) = true := by
  have hall : ∀ n < 32, keyOk (slotKey .our n) = true ∧ keyOk (slotKey .peer n) = true ∧
      keyOk (slotKey .cccd n) = true := by decide
  obtain ⟨hour, hpeer, hcccd⟩ := hall n hn
  cases t with
  | our => exact hour
  | peer => exact hpeer
  | cccd => exact hcccd

theorem slotKey_inj (hn : n < slotsMax) (hn' : n' < slotsMax) (h : slotKey t n = slotKey t' n') :
    t = t' ∧ n = n' := by
  have hdigits : ∀ n < 32, ∀ n' < 32, Nat.toDigits 10 n = Nat.toDigits 10 n' → n = n' := by decide
  have hhead : ∀ i < 5, (tablePrefix t)[i]? = (tablePrefix t')[i]? := by
    intro i hi
    have hlen : ∀ t : Tab, i < (tablePrefix t).length := by
      intro t
      cases t <;> exact hi.trans_le (by decide)
    have hat := congrArg (·[i]?) h
    dsimp only [slotKey] at hat
    rwa [List.getElem?_append_left (hlen t), List.getElem?_append_left (hlen t')] at hat
  have htab : t = t' := by
    have h₀ := hhead 0 (by decide)
    have h₄ := hhead 4 (by decide)
    revert h₀ h₄
    cases t <;> cases t' <;> decide
  subst htab
  exact ⟨rfl, hdigits n hn n' hn' (List.append_cancel_left h)⟩

variable {L}

theorem slot_get (h : n < max) (hmax : max ≤ slotsMax) : L.slots t max d n =
    L.slot ((d (kvName (slotKey t n))).elim .missing fun raw => readRecord raw L.size) := by
  rw [Layout.slots, if_pos h, kvGet_eq (slotKey_ok t (h.trans_le hmax))]

theorem slot_value (a : α) : L.slot (.value (L.bytes a)) = .record a := by
  have hne : L.bytes a ≠ [] := by
    intro h
    have hlen := L.length_bytes a
    rw [h] at hlen
    exact absurd hlen (Nat.ne_of_lt L.size_pos)
  show (if _ then Slot.cleared else _) = _
  rw [if_neg hne, if_pos (L.length_bytes a), L.value_bytes]

/-- What is written to a slot. -/
def Layout.buf (L : Layout α) : Option α → List Byte
  | some a => L.bytes a
  | none => []

def slotWritten : Option α → Slot α
  | some a => .record a
  | none => .cleared

theorem slot_record (x : Option α) : L.slot (readRecord (record (L.buf x)) L.size) =
    slotWritten x := by
  have hmax : 8 ≤ fileMax := by decide
  cases x with
  | some a =>
    have hlen := L.length_bytes a
    have hsize := L.size_le
    have hread : readRecord (record (L.bytes a)) L.size = .value (L.bytes a) :=
      readRecord_eq_value.mpr ⟨rfl, hlen.le, by omega⟩
    exact (congrArg L.slot hread).trans (slot_value a)
  | none =>
    have hread : readRecord (record []) L.size = .value [] :=
      readRecord_eq_value.mpr ⟨rfl, Nat.zero_le _, hmax⟩
    exact congrArg L.slot hread

theorem length_buf_le (x : Option α) : (L.buf x).length ≤ fileMax - 8 := by
  cases x with
  | some a => exact (L.length_bytes a).le.trans L.size_le
  | none => exact Nat.zero_le _

theorem slots_kvSet (hmax : max ≤ slotsMax) (hn : n < slotsMax) (x : Option α) (fate : SetFate)
    (d : Dir) : L.slots t max (kvSet d (slotKey t n) (L.buf x) fate).2 =
      if n < max ∧ fate.lands then Function.update (L.slots t max d) n (slotWritten x)
      else L.slots t max d := by
  have hfits := length_buf_le (L := L) x
  funext i
  by_cases hi : i < max
  · have hfile := kvSet_file (slotKey_ok t (hi.trans_le hmax)) d (slotKey t n) (L.buf x) fate
    rw [slot_get hi hmax, hfile]
    by_cases hin : i = n
    · subst hin
      cases hlands : fate.lands with
      | true =>
        rw [if_pos ⟨rfl, hfits, rfl⟩, if_pos ⟨hi, rfl⟩, Function.update_self]
        exact slot_record x
      | false =>
        rw [if_neg fun h => Bool.noConfusion h.2.2, if_neg fun h => Bool.noConfusion h.2]
        exact (slot_get hi hmax).symm
    · have hold : L.slots t max d i = (if n < max ∧ fate.lands then
          Function.update (L.slots t max d) n (slotWritten x) else L.slots t max d) i := by
        split_ifs
        · exact (Function.update_of_ne hin _ _).symm
        · rfl
      rw [if_neg fun h => hin (slotKey_inj hn (hi.trans_le hmax) h.1).2.symm, ← hold]
      exact (slot_get hi hmax).symm
  · have hold : (if n < max ∧ fate.lands then
        Function.update (L.slots t max d) n (slotWritten x) else L.slots t max d) i =
        Slot.missing := by
      split_ifs with h
      · rw [Function.update_of_ne (fun hin : i = n => hi (hin.trans_lt h.1))]
        exact if_neg hi
      · exact if_neg hi
    rw [hold]
    exact if_neg hi

theorem slots_kvSet_ne {β : Type} (L' : Layout β) (htab : t' ≠ t) (hmax : max ≤ slotsMax)
    (hn : n < slotsMax) (x : Option α) (fate : SetFate) (d : Dir) :
    L'.slots t' max (kvSet d (slotKey t n) (L.buf x) fate).2 = L'.slots t' max d := by
  funext i
  by_cases hi : i < max
  · have hfile := kvSet_file (slotKey_ok t' (hi.trans_le hmax)) d (slotKey t n) (L.buf x) fate
    rw [slot_get hi hmax, hfile,
      if_neg fun h => htab (slotKey_inj hn (hi.trans_le hmax) h.1).1.symm]
    exact (slot_get hi hmax).symm
  · exact (if_neg hi).trans (if_neg hi).symm

/-- The set is answered: the power stays. -/
def Answers : SetFate → Prop
  | .done => True
  | .noOpen => True
  | .failed _ => True
  | .lostBefore _ => False
  | .lostAfter => False

theorem kvSet_answer {fate : SetFate} (hf : Answers fate) (hn : n < slotsMax) (d : Dir)
    (x : Option α) : (kvSet d (slotKey t n) (L.buf x) fate).1 = some fate.lands := by
  have hfits := length_buf_le (L := L) x
  have hkey := slotKey_ok t hn
  unfold kvSet
  rw [if_neg fun h => h.elim (fun hk => Bool.noConfusion (hkey.symm.trans hk))
    fun hlong => by omega]
  cases fate with
  | done => rfl
  | noOpen => rfl
  | failed tmp => rfl
  | lostBefore tmp => exact hf.elim
  | lostAfter => exact hf.elim

/-- A table and its slots in the directory. -/
def Layout.mirror (L : Layout α) (t : Tab) (max : ℕ) (r : (Table α × Dir) × Bool) :
    Mirror α × Bool :=
  (⟨r.1.1, L.slots t max r.1.2⟩, r.2)

theorem persistFile_slot {fate : ℕ → SetFate} (hf : ∀ n, Answers (fate n)) (hmax : max ≤ slotsMax)
    (hn : n < max) (r : (Table α × Dir) × Bool) : L.mirror t max (persistFile L t fate r n) =
      persistSlot (fun n => (fate n).lands) (L.mirror t max r) n := by
  obtain ⟨⟨table, d⟩, rc⟩ := r
  have hanswer := fun x : Option α => kvSet_answer (t := t) (L := L) (hf n) (hn.trans_le hmax) d x
  have hslots := fun x : Option α =>
    slots_kvSet (L := L) (t := t) hmax (hn.trans_le hmax) x (fate n) d
  have hlands : (n < max ∧ (fate n).lands = true) ↔ (fate n).lands = true := and_iff_right hn
  unfold persistFile persistSlot Mirror.kvSet
  dsimp only [Layout.mirror]
  cases hget : table.vals[n]? with
  | some a =>
    have hans : (kvSet d (slotKey t n) (L.bytes a) (fate n)).1 = some (fate n).lands :=
      hanswer (some a)
    have hslot : L.slots t max (kvSet d (slotKey t n) (L.bytes a) (fate n)).2 =
        if n < max ∧ (fate n).lands then Function.update (L.slots t max d) n (.record a)
        else L.slots t max d := hslots (some a)
    dsimp only
    by_cases hok : (fate n).lands = true
    · rw [if_pos ⟨hn, hok⟩] at hslot
      rw [hok] at hans
      rw [if_pos hans, if_pos hok, if_pos hok, hslot]
    · rw [if_neg fun h => hok h.2] at hslot
      have hno : (fate n).lands = false := Bool.eq_false_of_not_eq_true hok
      rw [hno] at hans
      rw [if_neg (by rw [hans]; simp), if_neg hok, if_neg hok, hslot]
  | none =>
    dsimp only
    by_cases hused : n ∈ table.usedSlots
    · have hans : (kvSet d (slotKey t n) [] (fate n)).1 = some (fate n).lands := hanswer none
      have hslot : L.slots t max (kvSet d (slotKey t n) [] (fate n)).2 =
          if n < max ∧ (fate n).lands then Function.update (L.slots t max d) n .cleared
          else L.slots t max d := hslots none
      rw [if_pos hused, if_pos hused]
      by_cases hok : (fate n).lands = true
      · rw [if_pos ⟨hn, hok⟩] at hslot
        rw [hok] at hans
        rw [if_pos hans, if_pos hok, if_pos hok, hslot]
      · rw [if_neg fun h => hok h.2] at hslot
        have hno : (fate n).lands = false := Bool.eq_false_of_not_eq_true hok
        rw [hno] at hans
        rw [if_neg (by rw [hans]; simp), if_neg hok, if_neg hok, hslot]
    · rw [if_neg hused, if_neg hused]

theorem persistFile_ne {β : Type} (L' : Layout β) {max' : ℕ} {fate : ℕ → SetFate} (htab : t' ≠ t)
    (hmax : max' ≤ slotsMax) (hn : n < slotsMax) (r : (Table α × Dir) × Bool) :
    L'.slots t' max' (persistFile L t fate r n).1.2 = L'.slots t' max' r.1.2 := by
  obtain ⟨⟨table, d⟩, rc⟩ := r
  have hframe := fun x : Option α =>
    slots_kvSet_ne (L := L) L' htab hmax hn x (fate n) d
  unfold persistFile
  dsimp only
  cases hget : table.vals[n]? with
  | some a =>
    dsimp only
    split_ifs
    · exact hframe (some a)
    · exact hframe (some a)
  | none =>
    dsimp only
    split_ifs
    · exact hframe none
    · exact hframe none
    · rfl

/-- A persist to the files of the host is a persist to the slots: the slots that a set failed for
keep what they had, and so do those of the other tables. -/
theorem host_persist {fate : ℕ → SetFate} (hf : ∀ n, Answers (fate n)) (hmax : max ≤ slotsMax)
    (hj : j ≤ max) (table : Table α) (d : Dir) :
    L.mirror t max ((List.range j).foldl (persistFile L t fate) ((table, d), true)) =
        Mirror.persist ⟨table, L.slots t max d⟩ (fun n => (fate n).lands) j ∧
      ∀ (β : Type) (L' : Layout β) (t' : Tab) (max' : ℕ), t' ≠ t → max' ≤ slotsMax →
        L'.slots t' max' ((List.range j).foldl (persistFile L t fate) ((table, d), true)).1.2 =
          L'.slots t' max' d := by
  induction j with
  | zero => exact ⟨rfl, fun _ _ _ _ _ _ => rfl⟩
  | succ j ih =>
    obtain ⟨hself, hothers⟩ := ih (Nat.le_of_succ_le hj)
    rw [List.range_succ, List.foldl_append, List.foldl_cons, List.foldl_nil]
    refine ⟨?_, fun β L' t' max' htab hmax' => ?_⟩
    · rw [persistFile_slot hf hmax hj, hself, Mirror.persist, Mirror.persist, List.range_succ,
        List.foldl_append]
      rfl
    · rw [persistFile_ne L' htab hmax' (Nat.lt_of_lt_of_le hj hmax)]
      exact hothers β L' t' max' htab hmax'

def oneByte : Layout Byte where
  size := 1
  bytes a := [a]
  value l := l.headD 0
  length_bytes _ := rfl
  value_bytes _ := rfl
  size_pos := Nat.one_pos
  size_le := by decide

/-- The set of the second slot fails. -/
def secondFails (n : ℕ) : SetFate := if n = 1 then .failed none else .done

theorem host_persist_secondFails :
    oneByte.mirror .our 3 ((List.range 3).foldl (persistFile oneByte .our secondFails)
        ((⟨[4, 5], ∅⟩, emptyDir), true)) =
        Mirror.persist ⟨⟨[4, 5], ∅⟩, oneByte.slots .our 3 emptyDir⟩
        (fun n => (secondFails n).lands) 3 ∧
      ∀ (β : Type) (L' : Layout β) (t' : Tab) (max' : ℕ), t' ≠ .our → max' ≤ slotsMax →
        L'.slots t' max' ((List.range 3).foldl (persistFile oneByte .our secondFails)
          ((⟨[4, 5], ∅⟩, emptyDir), true)).1.2 = L'.slots t' max' emptyDir := by
  refine host_persist (fun n => ?_) (by decide) le_rfl ⟨[4, 5], ∅⟩ emptyDir
  unfold secondFails
  split_ifs
  · trivial
  · trivial

end OpenCalifornia.Bonds
