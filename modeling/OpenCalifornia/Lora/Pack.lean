import Mathlib
import OpenCalifornia.Lora.Budget
import OpenCalifornia.Session.State

/-! # Packing the changed functions

The snapshot that the session hands to the LoRa task, and port 3 of `lora.c`: which functions are
due, and how they are packed. -/

namespace OpenCalifornia.Lora
open Lib Lib.Bits Lib.Machine Control.Firmware

/-- `CODEC_NCHARS` -/
def nchars : ℕ := 14

/-- The functions in the order of `CODEC_CHARS`. -/
def charName (i : Fin nchars) : String := Session.codecChars.get i |>.1

/-- `cali_lora_snap_t`. A frame of no bytes is no frame, and a reading is a number of steps of its
field. -/
structure Snap where
  frame : Fin nchars → List Byte
  frame_le : ∀ i, (frame i).length ≤ frameMax
  mppt : ℕ → Option ℤ
  bsense : ℕ → Option ℤ
  solarDwh : ℕ
  loadDwh : ℕ
  battNetDwh : ℤ
  boot : ℕ
  uptimeS : ℕ

def refreshS : ℕ := 43200

/-- `cali_lora_tracker_t` -/
structure Tracker where
  last : Fin nchars → List Byte := fun _ => []
  sentAt : Fin nchars → ℕ := fun _ => 0
  pending : Fin nchars → Bool := fun _ => false

def untracked (i : Fin nchars) : Bool :=
  charName i = "energy" ∨ charName i = "water" ∨ charName i = "general"

/-- The function is sent: its frame is not the one sent last, or that is long ago. -/
def isDue (t : Tracker) (s : Snap) (nowS : ℕ) (i : Fin nchars) : Bool :=
  ¬ untracked i ∧ s.frame i ≠ [] ∧
    (t.last i ≠ s.frame i ∨ since nowS (t.sentAt i) ≥ refreshS)

def trackerUpdate (t : Tracker) (s : Snap) (nowS : ℕ) : Tracker :=
  { t with pending := fun i => t.pending i ∨ isDue t s nowS i }

/-- The loop variables of `cali_lora_pack_changed`. `*picked` is a bit for each function. -/
structure Packing where
  out : List Byte := []
  picked : ℕ := 0
  tried : Fin nchars → Bool := fun _ => false

/-- The function may be packed next. -/
def isOpen (t : Tracker) (s : Snap) (p : Packing) (i : Fin nchars) : Bool :=
  t.pending i ∧ ¬ p.tried i ∧ s.frame i ≠ []

/-- The one that was sent longest ago, the first of them. -/
def pick (t : Tracker) (s : Snap) (p : Packing) : Option (Fin nchars) :=
  (List.finRange nchars).foldl (fun best i =>
    if isOpen t s p i ∧ best.all (fun b => t.sentAt i < t.sentAt b) then some i else best) none

/-- One turn of the loop for the function `i`. -/
def packOne (s : Snap) (max : ℕ) (p : Packing) (i : Fin nchars) : Packing :=
  let p := { p with tried := Function.update p.tried i true }
  if p.out.length + 2 + (s.frame i).length > max then p
  else
    { p with
      out := p.out ++ [BitVec.ofNat 8 i, BitVec.ofNat 8 (s.frame i).length] ++ s.frame i
      picked := p.picked ||| 1 <<< i.val }

/-- The loop. Each turn tries another function. -/
def packLoop (t : Tracker) (s : Snap) (max : ℕ) : ℕ → Packing → Packing
  | 0, p => p
  | n + 1, p =>
    match pick t s p with
    | none => p
    | some i => packLoop t s max n (packOne s max p i)

/-- `cali_lora_pack_changed`: the payload and the picked functions. -/
def packChanged (t : Tracker) (s : Snap) (max : ℕ) : List Byte × ℕ :=
  let p := packLoop t s max nchars {}
  (p.out, p.picked)

def trackerCommit (t : Tracker) (s : Snap) (picked nowS : ℕ) : Tracker where
  last i := if picked.testBit i then s.frame i else t.last i
  sentAt i := if picked.testBit i then nowS else t.sentAt i
  pending i := if picked.testBit i then false else t.pending i

/-- An entry of a payload: a function and its frame. -/
abbrev Entry := Fin nchars × List Byte

def Entry.bytes (e : Entry) : List Byte :=
  [BitVec.ofNat 8 e.1, BitVec.ofNat 8 e.2.length] ++ e.2

/-- The whole entries of a payload, if it is made of such. -/
def parse : ℕ → List Byte → Option (List Entry)
  | _, [] => some []
  | n + 1, c :: len :: rest =>
    if h : c.toNat < nchars then
      if len.toNat ≤ rest.length then
        (parse n (rest.drop len.toNat)).map ((⟨c.toNat, h⟩, rest.take len.toNat) :: ·)
      else none
    else none
  | _, _ => none

def entries (payload : List Byte) : Option (List Entry) := parse payload.length payload

variable {t : Tracker} {s : Snap} {p : Packing} {i j : Fin nchars} {max : ℕ}

theorem parse_bytes (es : List Entry) (hes : ∀ e ∈ es, e.2.length < 256) (n : ℕ)
    (hn : es.length ≤ n) : parse n (es.flatMap Entry.bytes) = some es := by
  induction es generalizing n with
  | nil => cases n <;> rfl
  | cons e es ih =>
    obtain ⟨c, frame⟩ := e
    obtain ⟨hlen, hes⟩ := List.forall_mem_cons.mp hes
    cases n with
    | zero => cases hn
    | succ n =>
      have hc : (BitVec.ofNat 8 c.val).toNat = c.val := by
        rw [BitVec.toNat_ofNat, Nat.mod_eq_of_lt]
        exact c.isLt.trans (by decide)
      have hl : (BitVec.ofNat 8 frame.length).toNat = frame.length := by
        rw [BitVec.toNat_ofNat, Nat.mod_eq_of_lt hlen]
      have hbytes : ((c, frame) :: es).flatMap Entry.bytes = BitVec.ofNat 8 c.val ::
          BitVec.ofNat 8 frame.length :: (frame ++ es.flatMap Entry.bytes) := by
        simp [Entry.bytes]
      rw [hbytes, parse]
      simp only [hc, hl, c.isLt, List.length_append, Nat.le_add_right, List.drop_left,
        List.take_left, ih hes n (Nat.le_of_succ_le_succ hn), dite_true, if_true, Option.map_some]

theorem length_le_bytes (es : List Entry) : es.length ≤ (es.flatMap Entry.bytes).length := by
  induction es with
  | nil => exact Nat.le_refl _
  | cons e es ih =>
    rw [List.flatMap_cons, List.length_append, List.length_cons]
    have he : 1 ≤ e.bytes.length := by simp [Entry.bytes]
    omega

/-- Whole entries are read back, so a payload is made of entries in one way only. -/
theorem entries_bytes {es : List Entry} (hes : ∀ e ∈ es, e.2.length < 256) :
    entries (es.flatMap Entry.bytes) = some es :=
  parse_bytes es hes _ (length_le_bytes es)

/-- Among the functions looked at, `best` is an open one that was sent longest ago. -/
theorem foldl_pick (l : List (Fin nchars)) (best : Option (Fin nchars)) :
    let r := l.foldl (fun best i =>
      if isOpen t s p i ∧ best.all (fun b => t.sentAt i < t.sentAt b) then some i else best) best
    (∀ i, r = some i → best = some i ∨ i ∈ l ∧ isOpen t s p i = true) ∧
    (∀ b, best = some b → ∃ i, r = some i ∧ t.sentAt i ≤ t.sentAt b) ∧
    ∀ j ∈ l, isOpen t s p j = true → ∃ i, r = some i ∧ t.sentAt i ≤ t.sentAt j := by
  induction l generalizing best with
  | nil =>
    exact ⟨fun i hi => .inl hi, fun b hb => ⟨b, hb, Nat.le_refl _⟩, fun j hj => (by cases hj)⟩
  | cons k l ih =>
    dsimp only [List.foldl_cons]
    split_ifs with hk
    · obtain ⟨hsome, hbest, hmem⟩ := ih (some k)
      obtain ⟨r, hr, hle⟩ := hbest k rfl
      refine ⟨fun i hi => .inr ?_, fun b hb => ⟨r, hr, ?_⟩, fun j hj ho => ?_⟩
      · cases hsome i hi with
        | inl h => exact Option.some.inj h ▸ ⟨List.mem_cons_self, hk.1⟩
        | inr h => exact ⟨List.mem_cons_of_mem _ h.1, h.2⟩
      · rw [hb] at hk
        exact hle.trans (of_decide_eq_true hk.2).le
      · cases List.mem_cons.mp hj with
        | inl h => exact ⟨r, hr, h ▸ hle⟩
        | inr h => exact hmem j h ho
    · obtain ⟨hsome, hbest, hmem⟩ := ih best
      refine ⟨fun i hi => (hsome i hi).imp_right fun h => ⟨List.mem_cons_of_mem _ h.1, h.2⟩, hbest,
        fun j hj ho => ?_⟩
      cases List.mem_cons.mp hj with
      | inl h =>
        -- an open function that was not taken is no older than the best one
        subst h
        cases hb : best with
        | none => exact absurd ⟨ho, by rw [hb]; rfl⟩ hk
        | some b =>
          obtain ⟨i, hi, hle⟩ := hbest b hb
          refine ⟨i, hb ▸ hi, hle.trans (Nat.le_of_not_lt fun hlt => hk ⟨ho, ?_⟩)⟩
          rw [hb]
          exact decide_eq_true hlt
      | inr h => exact hmem j h ho

theorem pick_some (h : pick t s p = some i) :
    isOpen t s p i = true ∧ ∀ j, isOpen t s p j = true → t.sentAt i ≤ t.sentAt j := by
  obtain ⟨hsome, -, hmem⟩ := @foldl_pick t s p (List.finRange nchars) none
  refine ⟨((hsome i h).resolve_left (fun hnone => (by cases hnone))).2, fun j hj => ?_⟩
  obtain ⟨i', hi', hle⟩ := hmem j (List.mem_finRange j) hj
  exact Option.some.inj (h.symm.trans hi') ▸ hle

theorem pick_none (h : pick t s p = none) (j : Fin nchars) : isOpen t s p j = false := by
  by_contra hj
  obtain ⟨i, hi, -⟩ := (@foldl_pick t s p (List.finRange nchars) none).2.2 j (List.mem_finRange j)
    (Bool.not_eq_false _ ▸ hj)
  cases (h.symm.trans hi)

/-- The entry of a function in the current snapshot. -/
def Snap.entry (s : Snap) (i : Fin nchars) : Entry := (i, s.frame i)

/-- What the loop has packed: the functions `es`, in this order, whole and within the limit. -/
structure Packs (t : Tracker) (s : Snap) (max : ℕ) (es : List (Fin nchars)) (p : Packing) :
    Prop where
  out : p.out = (es.map s.entry).flatMap Entry.bytes
  le : p.out.length ≤ max
  nodup : es.Nodup
  picked : ∀ k, p.picked.testBit k = true ↔ ∃ i ∈ es, i.val = k
  due : ∀ i ∈ es, t.pending i = true ∧ s.frame i ≠ [] ∧ p.tried i = true
  skipped : ∀ i, p.tried i = true → i ∉ es → max < p.out.length + 2 + (s.frame i).length

theorem packs_start (t : Tracker) (s : Snap) (max : ℕ) : Packs t s max [] {} where
  out := rfl
  le := Nat.zero_le _
  nodup := List.nodup_nil
  picked k := ⟨fun hk => by simp at hk, by rintro ⟨_, hi, _⟩; cases hi⟩
  due := List.forall_mem_nil _
  skipped _ hi := by cases hi

theorem bytes_length (e : Entry) : e.bytes.length = 2 + e.2.length := by
  rw [Entry.bytes, List.length_append]
  rfl

variable {es : List (Fin nchars)}

theorem packOne_tried (j : Fin nchars) :
    (packOne s max p i).tried j = (decide (j = i) || p.tried j) := by
  have htried : (packOne s max p i).tried = Function.update p.tried i true := by
    unfold packOne
    dsimp only
    split_ifs <;> rfl
  rw [htried, Function.update_apply]
  by_cases hj : j = i <;> simp [hj]

theorem packOne_skips (h : p.out.length + 2 + (s.frame i).length > max) :
    (packOne s max p i).out = p.out ∧ (packOne s max p i).picked = p.picked := by
  unfold packOne
  dsimp only
  rw [if_pos h]
  exact ⟨rfl, rfl⟩

theorem packOne_fits (h : ¬ p.out.length + 2 + (s.frame i).length > max) :
    (packOne s max p i).out = p.out ++ (s.entry i).bytes ∧
      (packOne s max p i).picked = p.picked ||| 1 <<< i.val := by
  unfold packOne
  dsimp only
  rw [if_neg h]
  exact ⟨List.append_assoc _ _ _, rfl⟩

theorem Packs.one (h : Packs t s max es p) (hopen : isOpen t s p i = true) :
    ∃ es', Packs t s max es' (packOne s max p i) := by
  obtain ⟨hpending, htried, hframe⟩ := of_decide_eq_true hopen
  have hnot : i ∉ es := fun hi => htried (h.due i hi).2.2
  have hstill : ∀ j, p.tried j = true → (packOne s max p i).tried j = true := by
    intro j hj
    rw [packOne_tried, hj, Bool.or_true]
  by_cases hfit : p.out.length + 2 + (s.frame i).length > max
  · obtain ⟨hout, hpicked⟩ := packOne_skips hfit
    refine ⟨es, hout.trans h.out, hout ▸ h.le, h.nodup, hpicked ▸ h.picked,
      fun j hj => ⟨(h.due j hj).1, (h.due j hj).2.1, hstill j (h.due j hj).2.2⟩,
        fun j hj hnone => ?_⟩
    rw [hout]
    rw [packOne_tried, Bool.or_eq_true, decide_eq_true_iff] at hj
    cases hj with
    | inl hji => exact hji ▸ hfit
    | inr hj => exact h.skipped j hj hnone
  · obtain ⟨hout, hpicked⟩ := packOne_fits hfit
    have hlen : (packOne s max p i).out.length = p.out.length + (2 + (s.frame i).length) := by
      rw [hout, List.length_append, bytes_length]
      rfl
    refine ⟨es ++ [i], ?_, by omega, ?_, fun k => ?_, fun j hj => ?_, fun j hj hnone => ?_⟩
    · rw [hout, h.out]
      simp
    · exact List.nodup_append.mpr ⟨h.nodup, List.nodup_singleton i,
        fun a ha b hb => by rintro rfl; exact hnot (List.mem_singleton.mp hb ▸ ha)⟩
    · rw [hpicked, Nat.testBit_or, Bool.or_eq_true, h.picked, Nat.one_shiftLeft,
        Nat.testBit_two_pow]
      simp [or_and_right, exists_or]
    · cases List.mem_append.mp hj with
      | inl hj => exact ⟨(h.due j hj).1, (h.due j hj).2.1, hstill j (h.due j hj).2.2⟩
      | inr hj =>
        rw [List.mem_singleton.mp hj]
        exact ⟨hpending, hframe, by simp [packOne_tried]⟩
    · have hne : j ≠ i := fun hji => hnone (List.mem_append_right _ (List.mem_singleton.mpr hji))
      rw [packOne_tried, decide_eq_false hne, Bool.false_or] at hj
      have hskip := h.skipped j hj fun hmem => hnone (List.mem_append_left _ hmem)
      omega

/-- The functions that the loop may still try. -/
def untriedCount (p : Packing) : ℕ := ((List.finRange nchars).filter fun i => !p.tried i).length

theorem untried_lt (hopen : isOpen t s p i = true) :
    untriedCount (packOne s max p i) < untriedCount p := by
  obtain ⟨-, htried, -⟩ := of_decide_eq_true hopen
  have hsub : ((List.finRange nchars).filter fun j => !(packOne s max p i).tried j) =
      (((List.finRange nchars).filter fun j => !p.tried j).filter fun j => j ≠ i) := by
    rw [List.filter_filter]
    refine List.filter_congr fun j _ => ?_
    rw [packOne_tried]
    by_cases hj : j = i <;> simp [hj]
  unfold untriedCount
  rw [hsub]
  refine List.length_filter_lt_length_iff_exists.mpr ⟨i, ?_, by simp⟩
  exact List.mem_filter.mpr ⟨List.mem_finRange i, by simpa using htried⟩

theorem Packs.loop (n : ℕ) (h : Packs t s max es p) (hn : untriedCount p ≤ n) :
    ∃ es', Packs t s max es' (packLoop t s max n p) ∧
      ∀ j, isOpen t s (packLoop t s max n p) j = false := by
  induction n generalizing p es with
  | zero =>
    refine ⟨es, h, fun j => ?_⟩
    have hnone : ((List.finRange nchars).filter fun i => !p.tried i) = [] :=
      List.length_eq_zero_iff.mp (Nat.le_zero.mp hn)
    have hj := List.filter_eq_nil_iff.mp hnone j (List.mem_finRange j)
    refine decide_eq_false fun hopen => hj ?_
    have htried : ¬ p.tried j = true := hopen.2.1
    simpa using htried
  | succ n ih =>
    rw [packLoop]
    cases hpick : pick t s p with
    | none => exact ⟨es, h, pick_none hpick⟩
    | some i =>
      have hopen := (pick_some hpick).1
      obtain ⟨es', hes'⟩ := h.one hopen
      exact ih hes' (Nat.le_of_lt_succ ((untried_lt hopen).trans_le hn))

/-- The payload is made of the entries of the picked functions, each with its current frame, and a
pending function that is not picked did not fit any more. -/
structure Packed (t : Tracker) (s : Snap) (max : ℕ) (payload : List Byte) (picked : ℕ)
    (es : List (Fin nchars)) : Prop where
  le : payload.length ≤ max
  nodup : es.Nodup
  picked : ∀ k, picked.testBit k = true ↔ ∃ i ∈ es, i.val = k
  due : ∀ i ∈ es, t.pending i = true ∧ s.frame i ≠ []
  parses : entries payload = some (es.map s.entry)
  unique : ∀ others : List Entry, (∀ e ∈ others, e.2.length < 256) →
    payload = others.flatMap Entry.bytes → others = es.map s.entry
  full : ∀ i, t.pending i = true → s.frame i ≠ [] → i ∉ es →
    max < payload.length + 2 + (s.frame i).length

theorem packed (t : Tracker) (s : Snap) (max : ℕ) :
    ∃ es, Packed t s max (packChanged t s max).1 (packChanged t s max).2 es := by
  obtain ⟨es, hes, hnone⟩ := (packs_start t s max).loop nchars
    (List.length_filter_le _ _ |>.trans (List.length_finRange).le)
  have hframes : ∀ e ∈ es.map s.entry, e.2.length < 256 := by
    intro e he
    obtain ⟨i, -, rfl⟩ := List.mem_map.mp he
    exact (s.frame_le i).trans_lt (by decide)
  have hparses : entries (packChanged t s max).1 = some (es.map s.entry) := by
    rw [show (packChanged t s max).1 = _ from hes.out]
    exact entries_bytes hframes
  refine ⟨es, hes.le, hes.nodup, hes.picked, fun i hi => ⟨(hes.due i hi).1, (hes.due i hi).2.1⟩,
    hparses, fun others hothers hout => ?_, fun i hp hf hi => ?_⟩
  · have hsame := (entries_bytes hothers).symm.trans (hout ▸ hparses)
    exact Option.some.inj hsame
  · refine hes.skipped i ?_ hi
    by_contra htried
    have hopen : isOpen t s _ i = true := decide_eq_true ⟨hp, htried, hf⟩
    exact Bool.false_ne_true ((hnone i).symm.trans hopen)

/-- A packed payload on its way. -/
structure Flight where
  payload : List Byte
  picked : ℕ
  packedAt : ℕ

/-- The variables of the LoRa task. -/
structure Task where
  tracker : Tracker := {}
  snap : Snap
  nowS : ℕ := 0
  flight : Option Flight := none

inductive Job
  | clock (nowS : ℕ)
  | snap (s : Snap)
  | update
  | pack (max : ℕ)
  | fail
  | commit

/-- The clock does not run back. A new snapshot is taken between two sends. -/
def Job.legal (k : Task) : Job → Bool
  | .clock nowS => k.nowS ≤ nowS ∧ nowS < 2 ^ 32
  | .snap _ | .pack _ => k.flight.isNone
  | .update => true
  | .fail | .commit => k.flight.isSome

def Job.apply (k : Task) : Job → Task
  | .clock nowS => { k with nowS := nowS }
  | .snap s => { k with snap := s }
  | .update => { k with tracker := trackerUpdate k.tracker k.snap k.nowS }
  | .pack max =>
    let r := packChanged k.tracker k.snap max
    { k with flight := some ⟨r.1, r.2, k.nowS⟩ }
  | .fail => { k with flight := none }
  | .commit =>
    match k.flight with
    | some f =>
      { k with tracker := trackerCommit k.tracker k.snap f.picked f.packedAt, flight := none }
    | none => k

def taskStep (i : Job) (k : Task) : Option (Unit × Task) :=
  if i.legal k then some ((), i.apply k) else none

abbrev TaskRecord := Record Job Unit Task

/-- The payload that a step commits. -/
def committed (r : TaskRecord) : Option (List Byte) :=
  match r.inp with
  | .commit => r.pre.flight.map Flight.payload
  | _ => none

/-- The entry of a function in a payload. -/
def entryOf (i : Fin nchars) (payload : List Byte) : Option (List Byte) :=
  (((entries payload).getD []).find? fun e => e.1 = i).map Prod.snd

/-- The frame of a function that was delivered last, and when it was packed; no frame at first. -/
def delivered (i : Fin nchars) : List TaskRecord → List Byte × ℕ
  | [] => ([], 0)
  | r :: tr =>
    match (committed r).bind (entryOf i) with
    | some frame => (frame, (r.pre.flight.map Flight.packedAt).getD 0)
    | none => delivered i tr

/-- A payload is on its way with frames of the task's snapshot. -/
structure Flies (k : Task) (f : Flight) (es : List (Fin nchars)) : Prop where
  parses : entries f.payload = some (es.map k.snap.entry)
  picked : ∀ i : Fin nchars, f.picked.testBit i = true ↔ i ∈ es
  at_le : f.packedAt ≤ k.nowS

structure TaskInv (tr : List TaskRecord) (k : Task) : Prop where
  now_lt : k.nowS < 2 ^ 32
  last : ∀ i, (k.tracker.last i, k.tracker.sentAt i) = delivered i tr
  sent_le : ∀ i, k.tracker.sentAt i ≤ k.nowS
  flight : ∀ f, k.flight = some f → ∃ es, Flies k f es

/-- What a step does to the pending functions, after the steps `older`. -/
structure Keeps (older : List TaskRecord) (r : TaskRecord) : Prop where
  /-- A function is pending no more once its current frame is delivered. -/
  cleared : ∀ i, r.pre.tracker.pending i = true → r.post.tracker.pending i = false →
    ∃ payload, committed r = some payload ∧ entryOf i payload = some (r.pre.snap.frame i)
  /-- A commit clears the functions of its payload and no other one. -/
  exactly : ∀ payload, committed r = some payload → ∀ i, r.post.tracker.pending i =
    (r.pre.tracker.pending i && (entryOf i payload).isNone)
  /-- A function is marked by an update, where its frame is not the one delivered, or is due. -/
  marked : ∀ i, r.pre.tracker.pending i = false → r.post.tracker.pending i = true →
    r.inp = .update ∧ r.pre.snap.frame i ≠ [] ∧ ((delivered i older).1 ≠ r.pre.snap.frame i ∨
      (delivered i older).2 + refreshS ≤ r.pre.nowS)
  /-- After an update, what is not pending was delivered as it is now. -/
  current : r.inp = .update → ∀ i, untracked i = false → r.pre.snap.frame i ≠ [] →
    r.post.tracker.pending i = true ∨ (delivered i older).1 = r.pre.snap.frame i

theorem find_entry (es : List (Fin nchars)) (s : Snap) (i : Fin nchars) :
    (((es.map s.entry).find? fun e => e.1 = i).map Prod.snd) =
      if i ∈ es then some (s.frame i) else none := by
  induction es with
  | nil => rfl
  | cons j es ih =>
    rw [List.map_cons, List.find?_cons]
    by_cases hj : j = i
    · simp [Snap.entry, hj]
    · have hne : decide ((s.entry j).1 = i) = false := decide_eq_false hj
      rw [hne]
      simp only [ih, List.mem_cons, Ne.symm hj, false_or]

variable {k k' : Task} {tr : List TaskRecord} {f : Flight}

theorem Flies.entryOf (h : Flies k f es) (i : Fin nchars) :
    entryOf i f.payload = if i ∈ es then some (k.snap.frame i) else none := by
  unfold Lora.entryOf
  rw [h.parses]
  exact find_entry es k.snap i

theorem isDue_iff (hnow : k.nowS < 2 ^ 32) (hle : k.tracker.sentAt i ≤ k.nowS) :
    isDue k.tracker k.snap k.nowS i = true ↔ untracked i = false ∧ k.snap.frame i ≠ [] ∧
      (k.tracker.last i ≠ k.snap.frame i ∨ k.tracker.sentAt i + refreshS ≤ k.nowS) := by
  have hsince : since k.nowS (k.tracker.sentAt i) ≥ refreshS ↔
      k.tracker.sentAt i + refreshS ≤ k.nowS := by
    unfold since refreshS
    omega
  unfold isDue
  rw [decide_eq_true_iff, hsince, Bool.not_eq_true]

theorem Keeps.same {r : TaskRecord} (hinp : r.inp ≠ .update) (hc : committed r = none)
    (h : r.post.tracker.pending = r.pre.tracker.pending) : Keeps tr r where
  cleared i hpre hpost := absurd ((congrFun h i).symm.trans hpost) (hpre ▸ Bool.noConfusion)
  exactly _ hsome := by cases hc.symm.trans hsome
  marked i hpre hpost := absurd ((congrFun h i).symm.trans hpost) (hpre ▸ Bool.noConfusion)
  current hupd := absurd hupd hinp

theorem task_step {i : Job} {o : Unit} (h : TaskInv tr k) (hs : taskStep i k = some (o, k')) :
    TaskInv (⟨i, k, o, k'⟩ :: tr) k' ∧ Keeps tr ⟨i, k, o, k'⟩ := by
  unfold taskStep at hs
  obtain ⟨hlegal, hs⟩ := Option.ite_none_right_eq_some.mp hs
  obtain ⟨-, rfl⟩ := Prod.mk.inj (Option.some.inj hs)
  cases i with
  | clock nowS =>
    obtain ⟨hle, hlt⟩ := of_decide_eq_true hlegal
    refine ⟨⟨hlt, h.last, fun i => (h.sent_le i).trans hle, fun f hf => ?_⟩,
      .same (fun hu => (by cases hu)) rfl rfl⟩
    obtain ⟨es, hes⟩ := h.flight f hf
    exact ⟨es, hes.parses, hes.picked, hes.at_le.trans hle⟩
  | snap s =>
    refine ⟨⟨h.now_lt, h.last, h.sent_le, fun f hf => ?_⟩, .same (fun hu => (by cases hu)) rfl rfl⟩
    exact absurd ((congrArg Option.isNone hf).symm.trans hlegal) Bool.noConfusion
  | update =>
    have hdelivered : ∀ i, k.tracker.last i = (delivered i tr).1 ∧
        k.tracker.sentAt i = (delivered i tr).2 := fun i => Prod.mk.inj (h.last i)
    have hflight : ∀ f, k.flight = some f → ∃ es, Flies (Job.update.apply k) f es := by
      intro f hf
      obtain ⟨es, hes⟩ := h.flight f hf
      exact ⟨es, hes.parses, hes.picked, hes.at_le⟩
    refine ⟨⟨h.now_lt, h.last, h.sent_le, hflight⟩, ⟨fun i hpre hpost => ?_,
      fun _ hsome => (by cases hsome), fun i hpre hpost => ?_, fun _ i hu hf => ?_⟩⟩
    · exact absurd (.inl hpre) (of_decide_eq_false hpost)
    · have hdue := (of_decide_eq_true hpost).resolve_left (hpre ▸ Bool.false_ne_true)
      obtain ⟨-, hf, hwhy⟩ := (isDue_iff h.now_lt (h.sent_le i)).mp hdue
      rw [(hdelivered i).1, (hdelivered i).2] at hwhy
      exact ⟨rfl, hf, hwhy⟩
    · by_cases hsame : (delivered i tr).1 = k.snap.frame i
      · exact .inr hsame
      · left
        refine decide_eq_true (.inr ((isDue_iff h.now_lt (h.sent_le i)).mpr ⟨hu, hf, .inl ?_⟩))
        rw [(hdelivered i).1]
        exact hsame
  | pack max =>
    refine ⟨⟨h.now_lt, h.last, h.sent_le, fun f hf => ?_⟩, .same (fun hu => (by cases hu)) rfl rfl⟩
    obtain rfl := Option.some.inj hf
    obtain ⟨es, hes⟩ := packed k.tracker k.snap max
    refine ⟨es, hes.parses, fun i => (hes.picked i).trans ?_, Nat.le_refl _⟩
    exact ⟨by rintro ⟨j, hj, hji⟩; exact Fin.ext hji ▸ hj, fun hi => ⟨i, hi, rfl⟩⟩
  | fail =>
    exact ⟨⟨h.now_lt, h.last, h.sent_le, fun f hf => (by cases hf)⟩,
      .same (fun hu => (by cases hu)) rfl rfl⟩
  | commit =>
    obtain ⟨f, hf⟩ := Option.isSome_iff_exists.mp hlegal
    obtain ⟨es, hes⟩ := h.flight f hf
    have happly : Job.commit.apply k = { k with
        tracker := trackerCommit k.tracker k.snap f.picked f.packedAt, flight := none } := by
      show (match k.flight with | some f => _ | none => _) = _
      rw [hf]
    have hcommitted : ∀ post, committed ⟨.commit, k, o, post⟩ = some f.payload :=
      fun post => congrArg (Option.map Flight.payload) hf
    have hentry := hes.entryOf
    rw [happly]
    refine ⟨⟨h.now_lt, fun i => ?_, fun i => ?_, fun _ hnone => (by cases hnone)⟩,
      ⟨fun i hpre hpost => ?_, fun payload hsome i => ?_, fun i hpre hpost => ?_,
        fun hu => (by cases hu)⟩⟩
    · rw [delivered, hcommitted, Option.bind_some, hentry]
      show (if f.picked.testBit i then _ else _, if f.picked.testBit i then _ else _) = _
      by_cases hi : i ∈ es
      · rw [if_pos hi, if_pos ((hes.picked i).mpr hi), if_pos ((hes.picked i).mpr hi)]
        show (k.snap.frame i, f.packedAt) = (_, (k.flight.map Flight.packedAt).getD 0)
        rw [hf]
        rfl
      · rw [if_neg hi, if_neg (mt (hes.picked i).mp hi), if_neg (mt (hes.picked i).mp hi)]
        exact h.last i
    · show (if f.picked.testBit i then _ else _) ≤ _
      split_ifs
      · exact hes.at_le
      · exact h.sent_le i
    · refine ⟨f.payload, hcommitted _, ?_⟩
      have hpost : (if f.picked.testBit i then false else k.tracker.pending i) = false := hpost
      split_ifs at hpost with hi
      · rw [hentry, if_pos ((hes.picked i).mp hi)]
      · exact absurd (hpost.symm.trans hpre) Bool.noConfusion
    · obtain rfl := Option.some.inj ((hcommitted _).symm.trans hsome)
      show (if f.picked.testBit i then false else k.tracker.pending i) =
        (k.tracker.pending i && (entryOf i f.payload).isNone)
      rw [hentry]
      by_cases hi : i ∈ es
      · rw [if_pos hi, if_pos ((hes.picked i).mpr hi)]
        exact (Bool.and_false _).symm
      · rw [if_neg hi, if_neg (mt (hes.picked i).mp hi)]
        exact (Bool.and_true _).symm
    · have hpost : (if f.picked.testBit i then false else k.tracker.pending i) = true := hpost
      split_ifs at hpost
      exact absurd (hpre.symm.trans hpost) Bool.noConfusion

variable {s₀ : Snap}

theorem task_inv (h : Run taskStep { snap := s₀ } tr k) : TaskInv tr k := by
  induction h with
  | nil =>
    exact ⟨Nat.two_pow_pos 32, fun _ => rfl, fun _ => Nat.le_refl _, fun _ hf => (by cases hf)⟩
  | cons hr hs ih => exact (task_step ih hs).1

/-- A payload is whole entries, read back in one way only, of functions that are pending, and as
many as fit. In a run a function stays pending until its current frame is delivered, a commit
clears just what it delivers, and an update marks what differs from the frame delivered last, or
was delivered long ago. -/
theorem changed_functions (h : Run taskStep { snap := s₀ } tr k) :
    (∀ t s max, ∃ es, Packed t s max (packChanged t s max).1 (packChanged t s max).2 es) ∧
    ∀ newer r older, tr = newer ++ r :: older → Keeps older r := by
  refine ⟨packed, fun newer r older htr => ?_⟩
  subst htr
  obtain ⟨hold, hr⟩ := h.split newer
  exact (task_step (task_inv hold) hr).2

/-- A parked van: camping mode, the cooler and the roof have a frame. -/
def parkedSnap : Snap where
  frame i :=
    if charName i = "campingmode" then [0x01, 0x03, 0x00]
    else if charName i = "cooler" then [0x01, 0x05, 0x02, 0x00, 0x12]
    else if charName i = "roof" then [0x13, 0x05]
    else []
  frame_le i := by
    split_ifs <;> decide
  mppt _ := none
  bsense _ := none
  solarDwh := 0
  loadDwh := 0
  battNetDwh := 0
  boot := 1
  uptimeS := 0

def coolerIdx : Fin nchars := ⟨2, by decide⟩
def roofIdx : Fin nchars := ⟨8, by decide⟩

/-- Nine bytes hold no frame of the cooler beside the two others. The first send fails, the second
one delivers the two, and the cooler follows alone. The newest job is first. -/
def packJobs : List Job :=
  [.commit, .pack 9, .commit, .pack 9, .clock 60, .fail, .pack 9, .update, .clock 10]

theorem changed_functions_roof : ∃ tr k, Run taskStep { snap := parkedSnap } tr k ∧
    tr.map committed = [some [2, 5, 0x01, 0x05, 0x02, 0x00, 0x12], none,
      some [1, 3, 0x01, 0x03, 0x00, 8, 2, 0x13, 0x05], none, none, none, none, none, none] ∧
    (tr.map fun r => (r.post.tracker.pending coolerIdx, r.post.tracker.pending roofIdx)) =
      [(false, false), (true, false), (true, false), (true, true), (true, true), (true, true),
        (true, true), (true, true), (false, false)] ∧
    (∀ t s max, ∃ es, Packed t s max (packChanged t s max).1 (packChanged t s max).2 es) ∧
    ∀ newer r older, tr = newer ++ r :: older → Keeps older r := by
  have hrun := (run_of_exec taskStep { snap := parkedSnap } packJobs rfl).1
  exact ⟨_, _, hrun, by decide, by decide, changed_functions hrun⟩

end OpenCalifornia.Lora
