import Mathlib
import OpenCalifornia.Lib.Machine
import OpenCalifornia.Lib.Ring

/-! # The airtime of the uplinks

The ring of charged uplinks of `lora.c`. Whoever sends asks for the room first and charges the
uplink when the module has answered, some seconds later. -/

namespace OpenCalifornia.Lora
open Lib Lib.Machine

def dayS : ℕ := 86400
def uplinkMs : ℕ := 25000
def upRing : ℕ := 320

/-- `struct cali_lora_up` -/
structure Up where
  tS : ℕ
  ms : ℕ
  confirmed : Bool
  deriving DecidableEq, Repr

/-- The uplinks of `cali_lora_budget_t`. -/
structure Budget where
  up : Ring Up upRing

def budgetInit : Budget := ⟨.empty ⟨0, 0, false⟩ (by decide)⟩

/-- The difference of two `uint32_t`. -/
def since (nowS tS : ℕ) : ℕ := (nowS + 2 ^ 32 - tS) % 2 ^ 32

def isExpired (nowS : ℕ) (u : Up) : Bool := since nowS u.tS ≥ dayS

def upExpire (b : Budget) (nowS : ℕ) : Budget := { b with up := b.up.dropWhile (isExpired nowS) }

def uplinkAdd (b : Budget) (nowS ms : ℕ) (confirmed : Bool) : Budget :=
  let b := upExpire b nowS
  { b with up := b.up.push ⟨nowS, ms, confirmed⟩ }

/-- `up_sum`, a `uint32_t`, with the budget that it leaves. -/
def upSum (b : Budget) (nowS : ℕ) (onlyConfirmed : Bool) : ℕ × Budget :=
  let b := upExpire b nowS
  let ups := b.up.toList.filter fun u => ¬ onlyConfirmed ∨ u.confirmed
  ((ups.map Up.ms).sum % 2 ^ 32, b)

def uplinkRoomMs (b : Budget) (nowS : ℕ) : ℕ × Budget :=
  let r := upSum b nowS false
  (if r.2.up.n = upRing then 0 else if r.1 ≥ uplinkMs then 0 else uplinkMs - r.1, r.2)

/-- The budget and the clock, and when the room was asked for since the last uplink, with the
answer. -/
structure State where
  budget : Budget := budgetInit
  now : ℕ := 0
  asked : Option (ℕ × ℕ) := none

inductive Op
  | clock (now : ℕ)
  | used (onlyConfirmed : Bool)
  | room
  /-- An uplink that went out at `sentAt` is charged. -/
  | add (sentAt ms : ℕ) (confirmed : Bool)

/-- The clock does not run back, and an uplink goes out after its airtime was within the room. -/
def Op.legal (s : State) : Op → Bool
  | .clock now => s.now ≤ now ∧ now < 2 ^ 32
  | .add sentAt ms _ => s.asked.any fun a => ms ≤ a.2 ∧ a.1 ≤ sentAt ∧ sentAt ≤ s.now
  | _ => true

def Op.apply (s : State) : Op → State
  | .clock now => { s with now := now }
  | .used onlyConfirmed => { s with budget := (upSum s.budget s.now onlyConfirmed).2 }
  | .room =>
    let r := uplinkRoomMs s.budget s.now
    { s with budget := r.2, asked := some (s.now, r.1) }
  | .add _ ms confirmed =>
    { s with budget := uplinkAdd s.budget s.now ms confirmed, asked := none }

def step (i : Op) (s : State) : Option (Unit × State) :=
  if i.legal s then some ((), i.apply s) else none

/-- An uplink: when it went out, and what was charged for it. -/
structure Sent where
  sentAt : ℕ
  up : Up

def sentBy (r : Record Op Unit State) : Option Sent :=
  match r.inp with
  | .add sentAt ms confirmed => some ⟨sentAt, ⟨r.pre.now, ms, confirmed⟩⟩
  | _ => none

/-- The uplinks of a run, the newest first. -/
def sent (tr : List (Record Op Unit State)) : List Sent := tr.filterMap sentBy

/-- The airtime of the uplinks that `p` holds of. -/
def airtime (p : Sent → Bool) (us : List Sent) : ℕ := ((us.filter p).map fun u => u.up.ms).sum

/-- The uplink went out in the 24 hours from `w` on. -/
def Sent.within (w : ℕ) (u : Sent) : Bool := w ≤ u.sentAt ∧ u.sentAt < w + dayS

/-- The uplink still counts. -/
def Sent.counts (now : ℕ) (u : Sent) : Bool := now < u.up.tS + dayS

variable {p p' : Sent → Bool} {us : List Sent} {u : Sent} {now : ℕ} {s s' : State}

theorem airtime_cons (p : Sent → Bool) (u : Sent) (us : List Sent) :
    airtime p (u :: us) = (if p u then u.up.ms else 0) + airtime p us := by
  unfold airtime
  rw [List.filter_cons]
  split_ifs <;> simp

theorem airtime_mono (h : ∀ u ∈ us, p u = true → p' u = true) : airtime p us ≤ airtime p' us := by
  induction us with
  | nil => exact Nat.le_refl _
  | cons u us ih =>
    have ih := ih fun u' hu' => h u' (List.mem_cons_of_mem _ hu')
    have hu := h u List.mem_cons_self
    rw [airtime_cons, airtime_cons]
    split_ifs with h₁ h₂ h₂
    · omega
    · exact absurd (hu h₁) h₂
    · omega
    · omega

theorem airtime_append (p : Sent → Bool) (us vs : List Sent) :
    airtime p (us ++ vs) = airtime p us + airtime p vs := by
  simp [airtime, List.filter_append]

theorem airtime_none (h : ∀ u ∈ us, p u = false) : airtime p us = 0 := by
  have hnil : us.filter p = [] := List.filter_eq_nil_iff.mpr fun u hu => by simp [h u hu]
  rw [airtime, hnil]
  rfl

theorem isExpired_iff (hnow : now < 2 ^ 32) (hu : u.up.tS ≤ now) :
    isExpired now u.up = !u.counts now := by
  unfold isExpired since Sent.counts dayS
  rw [← decide_not]
  refine decide_eq_decide.mpr ?_
  omega

/-- The newest uplink is first. -/
abbrev Sorted (us : List Sent) : Prop := us.Pairwise fun newer older => older.up.tS ≤ newer.up.tS

theorem Sent.counts_of_le {v : Sent} (h : u.up.tS ≤ v.up.tS) (hu : u.counts now = true) :
    v.counts now = true := by
  unfold Sent.counts at hu ⊢
  rw [decide_eq_true_iff] at hu ⊢
  omega

theorem filter_counts (h : Sorted us) :
    us = us.filter (Sent.counts now) ++ us.filter fun u => !u.counts now := by
  induction us with
  | nil => rfl
  | cons u us ih =>
    obtain ⟨hu, hus⟩ := List.pairwise_cons.mp h
    cases hc : u.counts now with
    | true => simpa [hc] using ih hus
    | false =>
      have hnone : ∀ v ∈ us, v.counts now = false := by
        intro v hv
        by_contra hsome
        have hu' := Sent.counts_of_le (hu v hv) (Bool.not_eq_false _ ▸ hsome)
        exact Bool.false_ne_true (hc.symm.trans hu')
      have hnil : us.filter (Sent.counts now) = [] :=
        List.filter_eq_nil_iff.mpr fun v hv => by simp [hnone v hv]
      have hall : (us.filter fun v => !v.counts now) = us :=
        List.filter_eq_self.mpr fun v hv => by simp [hnone v hv]
      simp [hc, hnil, hall]

theorem dropWhile_expired (hnow : now < 2 ^ 32) (h : Sorted us) (ht : ∀ u ∈ us, u.up.tS ≤ now) :
    (us.map Sent.up).reverse.dropWhile (isExpired now) =
      ((us.filter (Sent.counts now)).map Sent.up).reverse := by
  have hgone : ∀ vs : List Sent, (∀ v ∈ vs, v.counts now = false ∧ v.up.tS ≤ now) →
      ∀ us : List Sent, (∀ u ∈ us, u.counts now = true ∧ u.up.tS ≤ now) →
      ((us ++ vs).map Sent.up).reverse.dropWhile (isExpired now) = (us.map Sent.up).reverse := by
    intro vs hvs us hus
    rw [List.map_append, List.reverse_append, List.dropWhile_append_of_pos]
    · cases hr : (us.map Sent.up).reverse with
      | nil => rfl
      | cons x xs =>
        obtain ⟨u, hu, rfl⟩ := List.mem_map.mp (List.mem_reverse.mp (hr ▸ List.mem_cons_self))
        rw [List.dropWhile_cons, if_neg]
        rw [isExpired_iff hnow (hus u hu).2, (hus u hu).1]
        exact Bool.false_ne_true
    · intro x hx
      obtain ⟨v, hv, rfl⟩ := List.mem_map.mp (List.mem_reverse.mp hx)
      rw [isExpired_iff hnow (hvs v hv).2, (hvs v hv).1]
      rfl
  conv_lhs => rw [@filter_counts us now h]
  refine hgone _ (fun v hv => ?_) _ (fun u hu => ?_)
  · obtain ⟨hv, hc⟩ := List.mem_filter.mp hv
    exact ⟨by simpa using hc, ht v hv⟩
  · obtain ⟨hu, hc⟩ := List.mem_filter.mp hu
    exact ⟨hc, ht u hu⟩

/-- The ring holds the newest uplinks. Those that it does not hold count no more, or the ring is
full and an uplink without airtime was pushed into it. -/
def Holds (us : List Sent) (b : Budget) (now : ℕ) : Prop :=
  ∃ kept gone, us = kept ++ gone ∧ b.up.toList = (kept.map Sent.up).reverse ∧
    ((∀ g ∈ gone, g.counts now = false) ∨ b.up.n = upRing ∧ ∃ u ∈ us, u.up.ms = 0)

structure Inv (us : List Sent) (s : State) : Prop where
  now_lt : s.now < 2 ^ 32
  times : ∀ u ∈ us, u.sentAt ≤ u.up.tS ∧ u.up.tS ≤ s.now
  sorted : Sorted us
  law : ∀ w, airtime (Sent.within w) us ≤ uplinkMs
  counts : airtime (Sent.counts s.now) us ≤ uplinkMs
  holds : Holds us s.budget s.now
  asked : ∀ a r, s.asked = some (a, r) → a ≤ s.now ∧
    airtime (Sent.counts a) us + r ≤ uplinkMs ∧ (0 < r → s.budget.up.n < upRing)

theorem expire_toList (b : Budget) (now : ℕ) :
    (upExpire b now).up.toList = b.up.toList.dropWhile (isExpired now) :=
  Ring.toList_dropWhile _ _

theorem expire_n_le (b : Budget) (now : ℕ) : (upExpire b now).up.n ≤ b.up.n := by
  rw [← Ring.length_toList, ← Ring.length_toList, expire_toList]
  exact (List.dropWhile_suffix _).length_le

theorem Holds.expire {b : Budget} (h : Holds us b now) (hnow : now < 2 ^ 32) (hs : Sorted us)
    (ht : ∀ u ∈ us, u.up.tS ≤ now) : ∃ kept gone, us = kept ++ gone ∧
      (upExpire b now).up.toList = (kept.map Sent.up).reverse ∧
      (∀ u ∈ kept, u.counts now = true) ∧ ((∀ g ∈ gone, g.counts now = false) ∨
        (upExpire b now).up.n = upRing ∧ ∃ u ∈ us, u.up.ms = 0) := by
  obtain ⟨kept, gone, rfl, hlist, hgone⟩ := h
  obtain ⟨hkept, -, hold⟩ := List.pairwise_append.mp hs
  have hexp : (upExpire b now).up.toList =
      ((kept.filter (Sent.counts now)).map Sent.up).reverse := by
    rw [expire_toList, hlist]
    exact dropWhile_expired hnow hkept fun u hu => ht u (List.mem_append_left _ hu)
  refine ⟨kept.filter (Sent.counts now), (kept.filter fun u => !u.counts now) ++ gone, ?_, hexp,
    fun u hu => (List.mem_filter.mp hu).2, ?_⟩
  · rw [← List.append_assoc, ← filter_counts hkept]
  · by_cases hnone : ∀ g ∈ gone, g.counts now = false
    · left
      intro g hg
      cases List.mem_append.mp hg with
      | inl hg => simpa using (List.mem_filter.mp hg).2
      | inr hg => exact hnone g hg
    · obtain ⟨hn, hzero⟩ := hgone.resolve_left hnone
      refine .inr ⟨?_, hzero⟩
      -- an uplink that is not held counts, so the ones that are held count too
      obtain ⟨g, hg, hc⟩ : ∃ g ∈ gone, g.counts now = true := by simpa using hnone
      have hall : kept.filter (Sent.counts now) = kept :=
        List.filter_eq_self.mpr fun u hu => Sent.counts_of_le (hold u hu g hg) hc
      rw [← Ring.length_toList, hexp, hall, ← hlist, Ring.length_toList, hn]

theorem Inv.expire (h : Inv us s) : ∃ kept gone, us = kept ++ gone ∧
    (upExpire s.budget s.now).up.toList = (kept.map Sent.up).reverse ∧
    (∀ u ∈ kept, u.counts s.now = true) ∧ ((∀ g ∈ gone, g.counts s.now = false) ∨
      (upExpire s.budget s.now).up.n = upRing ∧ ∃ u ∈ us, u.up.ms = 0) :=
  h.holds.expire h.now_lt h.sorted fun u hu => (h.times u hu).2

theorem Inv.look (h : Inv us s) : Inv us { s with budget := upExpire s.budget s.now } := by
  obtain ⟨kept, gone, hus, hlist, -, hgone⟩ := h.expire
  exact ⟨h.now_lt, h.times, h.sorted, h.law, h.counts, ⟨kept, gone, hus, hlist, hgone⟩,
    fun a r ha => ⟨(h.asked a r ha).1, (h.asked a r ha).2.1,
      fun hr => (expire_n_le _ _).trans_lt ((h.asked a r ha).2.2 hr)⟩⟩

theorem Sent.counts_later {now' : ℕ} (h : now ≤ now') (hc : u.counts now' = true) :
    u.counts now = true := by
  unfold Sent.counts at hc ⊢
  rw [decide_eq_true_iff] at hc ⊢
  omega

theorem Inv.clock (h : Inv us s) {now : ℕ} (hle : s.now ≤ now) (hlt : now < 2 ^ 32) :
    Inv us { s with now := now } where
  now_lt := hlt
  times u hu := ⟨(h.times u hu).1, (h.times u hu).2.trans hle⟩
  sorted := h.sorted
  law := h.law
  counts := (airtime_mono fun _ _ hc => Sent.counts_later hle hc).trans h.counts
  holds := by
    obtain ⟨kept, gone, hus, hlist, hgone⟩ := h.holds
    refine ⟨kept, gone, hus, hlist, hgone.imp_left fun hnone g hg => ?_⟩
    by_contra hc
    exact Bool.false_ne_true ((hnone g hg).symm.trans
      (Sent.counts_later hle (Bool.not_eq_false _ ▸ hc)))
  asked a r ha := ⟨(h.asked a r ha).1.trans hle, (h.asked a r ha).2⟩

theorem Inv.used (h : Inv us s) : (upSum s.budget s.now false).1 ≤ airtime (Sent.counts s.now) us ∧
    ((upExpire s.budget s.now).up.n ≠ upRing →
      (upSum s.budget s.now false).1 = airtime (Sent.counts s.now) us) := by
  obtain ⟨kept, gone, hus, hlist, hkept, hgone⟩ := h.expire
  have hsum : ((upExpire s.budget s.now).up.toList.map Up.ms).sum =
      airtime (Sent.counts s.now) kept := by
    rw [hlist, airtime, List.filter_eq_self.mpr hkept, List.map_reverse, List.sum_reverse,
      List.map_map]
    rfl
  have hsplit : airtime (Sent.counts s.now) us =
      airtime (Sent.counts s.now) kept + airtime (Sent.counts s.now) gone := by
    rw [hus, airtime_append]
  have hlt : airtime (Sent.counts s.now) kept < 2 ^ 32 := by
    have hcounts := h.counts
    unfold uplinkMs at hcounts
    omega
  have hused : (upSum s.budget s.now false).1 = airtime (Sent.counts s.now) kept := by
    unfold upSum
    dsimp only
    rw [List.filter_eq_self.mpr (by simp), hsum, Nat.mod_eq_of_lt hlt]
  refine ⟨by omega, fun hn => ?_⟩
  have hnone := hgone.resolve_right fun hfull => hn hfull.1
  rw [hused, hsplit, airtime_none hnone, Nat.add_zero]

theorem room_of_full {b : Budget} (h : (upExpire b now).up.n = upRing) :
    (uplinkRoomMs b now).1 = 0 :=
  if_pos h

theorem Inv.room (h : Inv us s) : Inv us (Op.room.apply s) := by
  have hlook := h.look
  refine { hlook with asked := fun a r ha => ?_ }
  obtain ⟨rfl, rfl⟩ := Prod.mk.inj (Option.some.inj ha)
  obtain ⟨hle, hexact⟩ := h.used
  have hcounts := h.counts
  refine ⟨Nat.le_refl _, ?_, fun hr => ?_⟩
  · unfold uplinkRoomMs
    dsimp only
    split_ifs with hn hfull
    · exact hcounts
    · exact hcounts
    · rw [← hexact hn]
      omega
  · exact lt_of_le_of_ne (upExpire s.budget s.now).up.n_le fun hn => hr.ne' (room_of_full hn)

theorem Inv.add (h : Inv us s) {sentAt ms a r : ℕ} (c : Bool) (hasked : s.asked = some (a, r))
    (hms : ms ≤ r) (ha : a ≤ sentAt) (hsent : sentAt ≤ s.now) :
    Inv (⟨sentAt, ⟨s.now, ms, c⟩⟩ :: us) ((Op.add sentAt ms c).apply s) where
  now_lt := h.now_lt
  times := List.forall_mem_cons.mpr ⟨⟨hsent, Nat.le_refl _⟩, h.times⟩
  sorted := List.pairwise_cons.mpr ⟨fun u hu => (h.times u hu).2, h.sorted⟩
  law w := by
    obtain ⟨-, hroom, -⟩ := h.asked a r hasked
    rw [airtime_cons]
    split_ifs with hw
    · have hold : airtime (Sent.within w) us ≤ airtime (Sent.counts a) us := by
        refine airtime_mono fun u hu hin => ?_
        have ht := (h.times u hu).1
        have hw : w ≤ sentAt ∧ sentAt < w + dayS := of_decide_eq_true hw
        have hin : w ≤ u.sentAt ∧ u.sentAt < w + dayS := of_decide_eq_true hin
        exact decide_eq_true (by omega)
      show ms + airtime (Sent.within w) us ≤ uplinkMs
      omega
    · rw [Nat.zero_add]
      exact h.law w
  counts := by
    obtain ⟨hle, hroom, -⟩ := h.asked a r hasked
    have hold : airtime (Sent.counts s.now) us ≤ airtime (Sent.counts a) us :=
      airtime_mono fun _ _ hc => Sent.counts_later hle hc
    rw [airtime_cons]
    show (if _ then ms else 0) + airtime (Sent.counts s.now) us ≤ uplinkMs
    split_ifs <;> omega
  holds := by
    obtain ⟨kept, gone, hus, hlist, hkept, hgone⟩ := h.expire
    have hpush := Ring.toList_push (upExpire s.budget s.now).up ⟨s.now, ms, c⟩
    by_cases hn : (upExpire s.budget s.now).up.n < upRing
    · refine ⟨⟨sentAt, s.now, ms, c⟩ :: kept, gone, by rw [hus, List.cons_append], ?_,
        .inl (hgone.resolve_right fun hfull => hn.ne hfull.1)⟩
      refine hpush.trans ?_
      rw [if_pos hn, hlist, List.map_cons, List.reverse_cons]
    · -- a full ring had no room, so the uplink has no airtime
      have hfull : (upExpire s.budget s.now).up.n = upRing :=
        Nat.le_antisymm (upExpire s.budget s.now).up.n_le (Nat.le_of_not_lt hn)
      have hr : ¬ 0 < r := fun hr =>
        hn ((expire_n_le _ _).trans_lt ((h.asked a r hasked).2.2 hr))
      have hlen : kept.length = upRing := by
        rw [← hfull, ← Ring.length_toList, hlist, List.length_reverse, List.length_map]
      have hne : kept ≠ [] := by
        rintro rfl
        exact absurd hlen (by decide)
      refine ⟨⟨sentAt, s.now, ms, c⟩ :: kept.dropLast, kept.getLast hne :: gone, ?_, ?_,
        .inr ⟨?_, _, List.mem_cons_self, ?_⟩⟩
      · rw [hus]
        conv_lhs => rw [← List.dropLast_append_getLast hne]
        simp
      · refine hpush.trans ?_
        rw [if_neg hn, hlist, List.tail_reverse, ← List.map_dropLast, List.map_cons,
          List.reverse_cons]
      · refine (Ring.length_toList _).symm.trans ?_
        refine (congrArg List.length hpush).trans ?_
        rw [if_neg hn, List.length_append, List.length_tail, Ring.length_toList, hfull]
        rfl
      · show ms = 0
        omega
  asked _ _ hnone := by cases hnone

theorem step_inv {i : Op} {o : Unit} (h : Inv us s) (hs : step i s = some (o, s')) :
    Inv ((sentBy ⟨i, s, o, s'⟩).toList ++ us) s' := by
  unfold step at hs
  obtain ⟨hlegal, hs⟩ := Option.ite_none_right_eq_some.mp hs
  obtain ⟨-, rfl⟩ := Prod.mk.inj (Option.some.inj hs)
  cases i with
  | clock now =>
    obtain ⟨hle, hlt⟩ := of_decide_eq_true hlegal
    exact h.clock hle hlt
  | used onlyConfirmed => exact h.look
  | room => exact h.room
  | add sentAt ms c =>
    unfold Op.legal at hlegal
    cases hasked : s.asked with
    | none =>
      rw [hasked] at hlegal
      cases hlegal
    | some ar =>
      rw [hasked] at hlegal
      obtain ⟨hms, ha, hsent⟩ := of_decide_eq_true hlegal
      exact h.add c hasked hms ha hsent

variable {tr : List (Record Op Unit State)}

theorem sent_cons (r : Record Op Unit State) (tr : List (Record Op Unit State)) :
    sent (r :: tr) = (sentBy r).toList ++ sent tr := by
  unfold sent
  rw [List.filterMap_cons]
  cases sentBy r <;> rfl

theorem run_inv (h : Run step {} tr s) : Inv (sent tr) s := by
  induction h with
  | nil =>
    exact ⟨by decide, List.forall_mem_nil _, List.Pairwise.nil, fun _ => Nat.zero_le _,
      Nat.zero_le _, ⟨[], [], rfl, rfl, .inl (List.forall_mem_nil _)⟩,
        fun _ _ hnone => (by cases hnone)⟩
  | cons hr hs ih => exact sent_cons _ _ ▸ step_inv ih hs

/-- The ring, once expired, is the uplinks that count. -/
def Remembers (us : List Sent) (s : State) : Prop :=
  (upExpire s.budget s.now).up.toList = ((us.filter (Sent.counts s.now)).map Sent.up).reverse

/-- The airtime of the uplinks of any 24 hours is within the budget. A full ring reports no room,
and where the ring has lost an uplink that counts no room is reported either; and it loses none,
unless one was charged without airtime. -/
theorem uplinks_within_budget (h : Run step {} tr s) :
    (∀ w, airtime (Sent.within w) (sent tr) ≤ uplinkMs) ∧
    ((upExpire s.budget s.now).up.n = upRing → (uplinkRoomMs s.budget s.now).1 = 0) ∧
    ((uplinkRoomMs s.budget s.now).1 = 0 ∨ Remembers (sent tr) s) ∧
    ((∀ u ∈ sent tr, 0 < u.up.ms) → Remembers (sent tr) s) := by
  have hinv := run_inv h
  obtain ⟨kept, gone, hus, hlist, hkept, hgone⟩ := hinv.expire
  have hall : (∀ g ∈ gone, g.counts s.now = false) → Remembers (sent tr) s := by
    intro hnone
    have hnil : gone.filter (Sent.counts s.now) = [] :=
      List.filter_eq_nil_iff.mpr fun g hg => by simp [hnone g hg]
    unfold Remembers
    rw [hlist, hus, List.filter_append, List.filter_eq_self.mpr hkept, hnil, List.append_nil]
  refine ⟨hinv.law, room_of_full, ?_, fun hpos => hall (hgone.resolve_right ?_)⟩
  · exact hgone.symm.imp (fun hfull => room_of_full hfull.1) hall
  · rintro ⟨-, u, hu, hzero⟩
    exact absurd hzero (hpos u hu).ne'

/-- Two uplinks of 12 seconds fit into a day, and a second is left. -/
theorem uplinks_within_budget_two : ∃ tr s, Run step {} tr s ∧ (sent tr).length = 2 ∧
    (uplinkRoomMs s.budget s.now).1 = 1000 ∧
    ((∀ w, airtime (Sent.within w) (sent tr) ≤ uplinkMs) ∧
    ((upExpire s.budget s.now).up.n = upRing → (uplinkRoomMs s.budget s.now).1 = 0) ∧
    ((uplinkRoomMs s.budget s.now).1 = 0 ∨ Remembers (sent tr) s) ∧
    ((∀ u ∈ sent tr, 0 < u.up.ms) → Remembers (sent tr) s)) := by
  have hrun : Run step {} _ _ := .cons (i := .add 5000 12000 true) (.cons (i := .room)
    (.cons (i := .clock 5000) (.cons (i := .add 3 12000 false) (.cons (i := .clock 4)
      (.cons (i := .room) .nil rfl) rfl) rfl) rfl) rfl) rfl
  exact ⟨_, _, hrun, rfl, by decide, uplinks_within_budget hrun⟩

end OpenCalifornia.Lora
