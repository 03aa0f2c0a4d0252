import OpenCalifornia.Lib.Spacing
import OpenCalifornia.Lora.Budget

/-! # The interval of the uplinks

`cali_lora_next_interval_s`: how long the next uplink of an airtime waits, so that a day holds no
more of them than their share of the budget, and so that there is room when it goes out. -/

namespace OpenCalifornia.Lora
open Lib

def baseS : ℕ := 600

/-- The airtime that a percentage of the budget comes to. -/
def shareMs (share : ℕ) : ℕ := uplinkMs * share / 100 % 2 ^ 32

def perDay (air share : ℕ) : ℕ :=
  let n := if air ≠ 0 then shareMs share / air else 1
  if n = 0 then 1 else n

/-- The wait between equal uplinks, whatever the ring holds. -/
def steadyS (air share : ℕ) : ℕ :=
  let wait := (dayS + perDay air share - 1) % 2 ^ 32 / perDay air share
  if wait < baseS then baseS else wait

/-- The loop over the ring, oldest first: the wait grows until the old uplinks that leave too little
room are gone. -/
def untilRoom (nowS air : ℕ) : List Up → ℕ → ℕ → ℕ
  | [], _, wait => wait
  | u :: us, used, wait =>
    if (used + air) % 2 ^ 32 > uplinkMs then
      let stop := (u.tS + dayS + 2 ^ 32 - nowS) % 2 ^ 32
      untilRoom nowS air us ((used + 2 ^ 32 - u.ms) % 2 ^ 32) (if stop > wait then stop else wait)
    else wait

/-- The interval for an airtime, with the budget that it leaves. -/
def nextIntervalS (b : Budget) (nowS air share : ℕ) : ℕ × Budget :=
  let r := upSum b nowS false
  (untilRoom nowS air r.2.up.toList r.1 (steadyS air share), r.2)

variable {air share nowS : ℕ}

theorem perDay_pos (air share : ℕ) : 0 < perDay air share := by
  unfold perDay
  generalize (if air ≠ 0 then shareMs share / air else 1) = n
  dsimp only
  split_ifs <;> omega

theorem shareMs_le (hshare : share ≤ 100) : shareMs share ≤ uplinkMs := by
  have hdiv : uplinkMs * share / 100 ≤ uplinkMs := by
    unfold uplinkMs
    omega
  exact (Nat.mod_le _ _).trans hdiv

theorem perDay_eq (hair : 1 ≤ air) (hle : air ≤ shareMs share) :
    perDay air share = shareMs share / air := by
  have hpos : shareMs share / air ≠ 0 := (Nat.div_pos hle hair).ne'
  have hair' : air ≠ 0 := Nat.one_le_iff_ne_zero.mp hair
  unfold perDay
  dsimp only
  rw [if_pos hair', if_neg hpos]

theorem perDay_le (hair : 1 ≤ air) (hle : air ≤ shareMs share) (hshare : share ≤ 100) :
    perDay air share ≤ uplinkMs := by
  rw [perDay_eq hair hle]
  exact (Nat.div_le_self _ _).trans (shareMs_le hshare)

theorem perDay_mul_le (hair : 1 ≤ air) (hle : air ≤ shareMs share) :
    perDay air share * air ≤ shareMs share := by
  rw [perDay_eq hair hle]
  exact Nat.div_mul_le_self _ _

theorem day_le (hair : 1 ≤ air) (hle : air ≤ shareMs share) (hshare : share ≤ 100) :
    dayS ≤ perDay air share * steadyS air share := by
  have hpos := perDay_pos air share
  have hmax := perDay_le hair hle hshare
  have hceil : dayS + perDay air share - 1 <
      perDay air share * ((dayS + perDay air share - 1) / perDay air share + 1) :=
    Nat.lt_mul_div_succ _ hpos
  have hmod : (dayS + perDay air share - 1) % 2 ^ 32 = dayS + perDay air share - 1 := by
    unfold uplinkMs at hmax
    unfold dayS
    omega
  have hsteady : (dayS + perDay air share - 1) / perDay air share ≤ steadyS air share := by
    unfold steadyS
    dsimp only
    rw [hmod]
    split_ifs with h
    · exact h.le
    · exact Nat.le_refl _
  calc dayS ≤ perDay air share * ((dayS + perDay air share - 1) / perDay air share) := by
        rw [Nat.mul_add_one] at hceil
        omega
    _ ≤ perDay air share * steadyS air share := Nat.mul_le_mul_left _ hsteady

theorem base_le_steady (air share : ℕ) : baseS ≤ steadyS air share := by
  unfold steadyS
  dsimp only
  split_ifs <;> omega

theorem untilRoom_ge (us : List Up) (used wait : ℕ) : wait ≤ untilRoom nowS air us used wait := by
  induction us generalizing used wait with
  | nil => exact Nat.le_refl _
  | cons u us ih =>
    rw [untilRoom]
    split_ifs with hroom
    · refine le_trans ?_ (ih _ _)
      split_ifs <;> omega
    · exact Nat.le_refl _

theorem steady_le_interval (b : Budget) (nowS air share : ℕ) :
    steadyS air share ≤ (nextIntervalS b nowS air share).1 :=
  untilRoom_ge _ _ _

/-- `newer` goes out after the interval that was computed behind `older`, whatever else was sent. -/
def Follows (air share newer older : ℕ) : Prop :=
  ∃ b nowS, older ≤ nowS ∧ nowS + (nextIntervalS b nowS air share).1 ≤ newer

theorem spaced_of_follows {ts : List ℕ} (h : ts.IsChain (Follows air share)) :
    Spaced (steadyS air share) ts := by
  have hgap : ts.IsChain fun newer older => older + steadyS air share ≤ newer := by
    refine h.imp fun newer older hf => ?_
    obtain ⟨b, nowS, hle, hwait⟩ := hf
    have hsteady := steady_le_interval b nowS air share
    omega
  have htrans : IsTrans ℕ fun newer older => older + steadyS air share ≤ newer :=
    ⟨fun _ _ _ h₁ h₂ => by omega⟩
  exact List.isChain_iff_pairwise.mp hgap

theorem share_of_spaced {ts : List ℕ} (hair : 1 ≤ air) (hle : air ≤ shareMs share)
    (hshare : share ≤ 100) (h : Spaced (steadyS air share) ts) (w : ℕ) :
    (ts.filter fun t => w ≤ t ∧ t < w + dayS).length * air ≤ shareMs share := by
  have hin : ∀ t ∈ ts.filter fun t => w ≤ t ∧ t < w + dayS, w ≤ t ∧ t < w + dayS := fun t ht =>
    of_decide_eq_true (List.mem_filter.mp ht).2
  have hlen := Spaced.length_le (h.filter _) hin (day_le hair hle hshare)
  exact (Nat.mul_le_mul_right air hlen).trans (perDay_mul_le hair hle)

/-- The airtime of the uplinks of a ring that still count. -/
def airLeft (t : ℕ) (us : List Up) : ℕ := ((us.filter fun u => t < u.tS + dayS).map Up.ms).sum

theorem airLeft_le (t : ℕ) (us : List Up) : airLeft t us ≤ (us.map Up.ms).sum := by
  induction us with
  | nil => exact Nat.le_refl _
  | cons u us ih =>
    rw [airLeft, List.filter_cons, List.map_cons, List.sum_cons]
    rw [airLeft] at ih
    split_ifs
    · rw [List.map_cons, List.sum_cons]
      omega
    · omega

theorem untilRoom_spec (hair : air ≤ uplinkMs) {us : List Up}
    (hus : ∀ u ∈ us, u.tS ≤ nowS ∧ nowS < u.tS + dayS) (hsum : (us.map Up.ms).sum < 2 ^ 31)
    (wait : ℕ) {t : ℕ} (ht : nowS + untilRoom nowS air us (us.map Up.ms).sum wait ≤ t) :
    airLeft t us + air ≤ uplinkMs := by
  induction us generalizing wait with
  | nil => simpa [airLeft] using hair
  | cons u us ih =>
    obtain ⟨hu, hrest⟩ := List.forall_mem_cons.mp hus
    have hle := airLeft_le t (u :: us)
    rw [List.map_cons, List.sum_cons] at hsum ht hle
    have hmod : (u.ms + (us.map Up.ms).sum + air) % 2 ^ 32 = u.ms + (us.map Up.ms).sum + air := by
      unfold uplinkMs at hair
      omega
    have hless : (u.ms + (us.map Up.ms).sum + 2 ^ 32 - u.ms) % 2 ^ 32 = (us.map Up.ms).sum := by
      omega
    have hstop : (u.tS + dayS + 2 ^ 32 - nowS) % 2 ^ 32 = u.tS + dayS - nowS := by
      unfold dayS at hu ⊢
      omega
    rw [untilRoom, hmod] at ht
    by_cases hroom : u.ms + (us.map Up.ms).sum + air > uplinkMs
    · rw [if_pos hroom, hless, hstop] at ht
      dsimp only at ht
      have hgone : u.tS + dayS ≤ t := by
        have hge : (if u.tS + dayS - nowS > wait then u.tS + dayS - nowS else wait) ≤
            untilRoom nowS air us (us.map Up.ms).sum
              (if u.tS + dayS - nowS > wait then u.tS + dayS - nowS else wait) :=
          untilRoom_ge _ _ _
        split_ifs at hge ht <;> omega
      have hskip : airLeft t (u :: us) = airLeft t us := by
        rw [airLeft, List.filter_cons, if_neg (by simpa using hgone), airLeft]
      rw [hskip]
      exact ih hrest (by omega) _ ht
    · omega

/-- Equal uplinks and no others: what went out, the budget, the clock, and when the next one is due,
where its interval was computed since the last one. -/
inductive Alone (air share : ℕ) : List Sent → Budget → ℕ → Option ℕ → Prop
  | start : Alone air share [] budgetInit 0 (some 0)
  | clock {us : List Sent} {b : Budget} {now now' : ℕ} {due : Option ℕ}
      (h : Alone air share us b now due) (hle : now ≤ now') (hlt : now' < 2 ^ 32) :
      Alone air share us b now' due
  /-- A look at the budget. -/
  | look {us : List Sent} {b : Budget} {now : ℕ} {due : Option ℕ}
      (h : Alone air share us b now due) : Alone air share us (upExpire b now) now due
  /-- The interval is computed. -/
  | ask {us : List Sent} {b : Budget} {now : ℕ} {due : Option ℕ}
      (h : Alone air share us b now due) :
      Alone air share us (nextIntervalS b now air share).2 now
        (some (now + (nextIntervalS b now air share).1))
  /-- An uplink that went out when it was due is charged. -/
  | charge {us : List Sent} {b : Budget} {now due sentAt : ℕ}
      (h : Alone air share us b now (some due)) (hdue : due ≤ sentAt) (hsent : sentAt ≤ now)
      (confirmed : Bool) :
      Alone air share (⟨sentAt, ⟨now, air, confirmed⟩⟩ :: us)
        (uplinkAdd b now air confirmed) now none

/-- What holds of such a run. -/
structure AloneInv (air share : ℕ) (us : List Sent) (b : Budget) (now : ℕ) (due : Option ℕ) :
    Prop where
  now_lt : now < 2 ^ 32
  equal : ∀ u ∈ us, u.up.ms = air ∧ u.up.tS ≤ now
  spaced : Spaced (steadyS air share) (us.map fun u => u.up.tS)
  counts : airtime (Sent.counts now) us ≤ uplinkMs
  holds : Holds us b now
  due : ∀ d, due = some d → (∀ u ∈ us, u.up.tS + steadyS air share ≤ d) ∧
    ∀ t, d ≤ t → airtime (Sent.counts t) us + air ≤ uplinkMs

variable {us : List Sent} {b : Budget} {now d : ℕ} {due : Option ℕ}

theorem AloneInv.expire (h : AloneInv air share us b now due) (hair : 1 ≤ air) :
    ∃ kept gone, us = kept ++ gone ∧ (upExpire b now).up.toList = (kept.map Sent.up).reverse ∧
      (∀ u ∈ kept, u.counts now = true) ∧ ∀ g ∈ gone, g.counts now = false := by
  have hsorted : Sorted us :=
    (List.pairwise_map.mp h.spaced).imp fun hgap => (Nat.le_add_right _ _).trans hgap
  obtain ⟨kept, gone, hus, hlist, hkept, hgone⟩ :=
    h.holds.expire h.now_lt hsorted fun u hu => (h.equal u hu).2
  refine ⟨kept, gone, hus, hlist, hkept, hgone.resolve_right ?_⟩
  rintro ⟨-, u, hu, hzero⟩
  have hms := (h.equal u hu).1
  omega

theorem AloneInv.length_lt (h : AloneInv air share us b now due) {kept gone : List Sent}
    (hus : us = kept ++ gone) (hkept : ∀ u ∈ kept, u.counts now = true) : kept.length < upRing := by
  have hspaced : Spaced (steadyS air share) (kept.map fun u => u.up.tS) := by
    have hall := h.spaced
    rw [hus, List.map_append] at hall
    exact (List.pairwise_append.mp hall).1
  have hin : ∀ t ∈ kept.map fun u => u.up.tS, now + 1 - dayS ≤ t ∧ t < now + 1 - dayS + dayS := by
    intro t ht
    obtain ⟨u, hu, rfl⟩ := List.mem_map.mp ht
    have hle := (h.equal u (hus ▸ List.mem_append_left _ hu)).2
    have hc : now < u.up.tS + dayS := of_decide_eq_true (hkept u hu)
    omega
  have hbase : dayS ≤ 144 * steadyS air share := by
    have hle := base_le_steady air share
    unfold baseS at hle
    unfold dayS
    omega
  have hlen := hspaced.length_le hin hbase
  rw [List.length_map] at hlen
  unfold upRing
  omega

theorem sum_kept {kept : List Sent} (t : ℕ) :
    airLeft t (kept.map Sent.up).reverse = airtime (Sent.counts t) kept := by
  rw [airLeft, airtime, List.filter_reverse, List.map_reverse, List.sum_reverse, List.filter_map,
    List.map_map]
  rfl

theorem airtime_kept {kept gone : List Sent} {t : ℕ} (hus : us = kept ++ gone)
    (hgone : ∀ g ∈ gone, g.counts now = false) (ht : now ≤ t) :
    airtime (Sent.counts t) us = airLeft t (kept.map Sent.up).reverse := by
  have hnone : ∀ g ∈ gone, g.counts t = false := by
    intro g hg
    by_contra hc
    exact Bool.false_ne_true ((hgone g hg).symm.trans
      (Sent.counts_later ht (Bool.not_eq_false _ ▸ hc)))
  rw [hus, airtime_append, airtime_none hnone, sum_kept, Nat.add_zero]

theorem AloneInv.upSum_eq (h : AloneInv air share us b now due) (hair : 1 ≤ air) :
    (upSum b now false).1 = ((upExpire b now).up.toList.map Up.ms).sum ∧
      ((upExpire b now).up.toList.map Up.ms).sum = airtime (Sent.counts now) us := by
  obtain ⟨kept, gone, hus, hlist, hkept, hgone⟩ := h.expire hair
  have hall : airLeft now (kept.map Sent.up).reverse =
      ((upExpire b now).up.toList.map Up.ms).sum := by
    rw [airLeft, hlist, List.filter_eq_self.mpr]
    intro u hu
    obtain ⟨v, hv, rfl⟩ := List.mem_map.mp (List.mem_reverse.mp hu)
    exact hkept v hv
  have hsum := (airtime_kept hus hgone (Nat.le_refl now)).trans hall
  refine ⟨?_, hsum.symm⟩
  have hcounts := h.counts
  unfold uplinkMs at hcounts
  unfold upSum
  dsimp only
  rw [List.filter_eq_self.mpr (by simp), Nat.mod_eq_of_lt (by omega)]

theorem Holds.later {now' : ℕ} (h : Holds us b now) (hle : now ≤ now') : Holds us b now' := by
  obtain ⟨kept, gone, hus, hlist, hgone⟩ := h
  refine ⟨kept, gone, hus, hlist, hgone.imp_left fun hnone g hg => ?_⟩
  by_contra hc
  exact Bool.false_ne_true ((hnone g hg).symm.trans
    (Sent.counts_later hle (Bool.not_eq_false _ ▸ hc)))

theorem AloneInv.look (h : AloneInv air share us b now due) (hair : 1 ≤ air) :
    AloneInv air share us (upExpire b now) now due := by
  obtain ⟨kept, gone, hus, hlist, -, hgone⟩ := h.expire hair
  exact { h with holds := ⟨kept, gone, hus, hlist, Or.inl hgone⟩ }

theorem AloneInv.ask (h : AloneInv air share us b now due) (hair : 1 ≤ air)
    (hmax : air ≤ uplinkMs) : AloneInv air share us (nextIntervalS b now air share).2 now
      (some (now + (nextIntervalS b now air share).1)) := by
  refine { h.look hair with due := fun d hd => ?_ }
  obtain rfl := Option.some.inj hd
  refine ⟨fun u hu => ?_, fun t ht => ?_⟩
  · have hle := (h.equal u hu).2
    have hsteady := steady_le_interval b now air share
    omega
  · obtain ⟨hused, hsum⟩ := h.upSum_eq hair
    obtain ⟨kept, gone, hus, hlist, hkept, hgone⟩ := h.expire hair
    have hnow : now ≤ t := (Nat.le_add_right _ _).trans ht
    have hcounts := h.counts
    rw [airtime_kept hus hgone hnow, ← hlist]
    have hring : ∀ u ∈ (upExpire b now).up.toList, u.tS ≤ now ∧ now < u.tS + dayS := by
      intro u hu
      rw [hlist] at hu
      obtain ⟨v, hv, rfl⟩ := List.mem_map.mp (List.mem_reverse.mp hu)
      exact ⟨(h.equal v (hus ▸ List.mem_append_left _ hv)).2, of_decide_eq_true (hkept v hv)⟩
    have hlt : ((upExpire b now).up.toList.map Up.ms).sum < 2 ^ 31 := by
      unfold uplinkMs at hcounts
      omega
    refine untilRoom_spec hmax hring hlt (steadyS air share) ?_
    rw [← hused]
    exact ht

theorem AloneInv.charge {sentAt : ℕ} (h : AloneInv air share us b now (some d)) (hair : 1 ≤ air)
    (hdue : d ≤ sentAt) (hsent : sentAt ≤ now) (c : Bool) :
    AloneInv air share (⟨sentAt, ⟨now, air, c⟩⟩ :: us) (uplinkAdd b now air c) now none where
  now_lt := h.now_lt
  equal := List.forall_mem_cons.mpr ⟨⟨rfl, Nat.le_refl _⟩, h.equal⟩
  spaced := by
    refine List.pairwise_cons.mpr ⟨fun t ht => ?_, h.spaced⟩
    obtain ⟨u, hu, rfl⟩ := List.mem_map.mp ht
    exact ((h.due d rfl).1 u hu).trans (hdue.trans hsent)
  counts := by
    have hroom := (h.due d rfl).2 now (hdue.trans hsent)
    rw [airtime_cons]
    show (if _ then air else 0) + airtime (Sent.counts now) us ≤ uplinkMs
    split_ifs <;> omega
  holds := by
    obtain ⟨kept, gone, hus, hlist, hkept, hgone⟩ := h.expire hair
    have hpush := Ring.toList_push (upExpire b now).up ⟨now, air, c⟩
    have hn : (upExpire b now).up.n < upRing := by
      rw [← Ring.length_toList, hlist, List.length_reverse, List.length_map]
      exact h.length_lt hus hkept
    refine ⟨⟨sentAt, now, air, c⟩ :: kept, gone, by rw [hus, List.cons_append], ?_, .inl hgone⟩
    refine hpush.trans ?_
    rw [if_pos hn, hlist, List.map_cons, List.reverse_cons]
  due _ hd := by cases hd

theorem Alone.inv (h : Alone air share us b now due) (hair : 1 ≤ air) (hmax : air ≤ uplinkMs) :
    AloneInv air share us b now due := by
  induction h with
  | start =>
    refine ⟨by decide, by simp, List.Pairwise.nil, Nat.zero_le _, ⟨[], [], rfl, rfl, by simp⟩, ?_⟩
    exact fun d _ => ⟨by simp, fun t _ => by simpa [airtime] using hmax⟩
  | clock _ hle hlt ih =>
    refine ⟨hlt, fun u hu => ⟨(ih.equal u hu).1, (ih.equal u hu).2.trans hle⟩, ih.spaced, ?_,
      ih.holds.later hle, ih.due⟩
    exact (airtime_mono fun _ _ hc => Sent.counts_later hle hc).trans ih.counts
  | look _ ih => exact ih.look hair
  | ask _ ih => exact ih.ask hair hmax
  | charge _ hdue hsent c ih => exact ih.charge hair hdue hsent c

theorem AloneInv.room (h : AloneInv air share us b now (some d)) (hair : 1 ≤ air) (hd : d ≤ now) :
    air ≤ (uplinkRoomMs b now).1 := by
  obtain ⟨kept, gone, hus, hlist, hkept, -⟩ := h.expire hair
  obtain ⟨hused, hsum⟩ := h.upSum_eq hair
  have hroom := (h.due d rfl).2 now hd
  have hn : (upSum b now false).2.up.n ≠ upRing := by
    show (upExpire b now).up.n ≠ upRing
    rw [← Ring.length_toList, hlist, List.length_reverse, List.length_map]
    exact (h.length_lt hus hkept).ne
  unfold uplinkRoomMs
  dsimp only
  rw [if_neg hn, if_neg (by omega)]
  omega

/-- After any uplinks, once the wait is over and none went out meanwhile, there is room, unless the
ring is still full. -/
theorem room_after_wait {tr : List (Machine.Record Op Unit State)} {s : State} {t : ℕ}
    (hair : 1 ≤ air) (hmax : air ≤ uplinkMs) (h : Machine.Run step {} tr s)
    (ht : s.now + (nextIntervalS s.budget s.now air share).1 ≤ t) (hlt : t < 2 ^ 32)
    (hfull : (upExpire (nextIntervalS s.budget s.now air share).2 t).up.n ≠ upRing) :
    air ≤ (uplinkRoomMs (nextIntervalS s.budget s.now air share).2 t).1 := by
  have hinv := run_inv h
  obtain ⟨kept, gone, hus, hlist, hkept, -⟩ := hinv.expire
  have hmem : ∀ u ∈ kept, u.up.tS ≤ s.now := fun u hu =>
    (hinv.times u (hus ▸ List.mem_append_left _ hu)).2
  have hsorted : Sorted kept := (List.pairwise_append.mp (hus ▸ hinv.sorted)).1
  have hring : ∀ u ∈ (upExpire s.budget s.now).up.toList, u.tS ≤ s.now ∧ s.now < u.tS + dayS := by
    intro u hu
    rw [hlist] at hu
    obtain ⟨v, hv, rfl⟩ := List.mem_map.mp (List.mem_reverse.mp hu)
    exact ⟨hmem v hv, of_decide_eq_true (hkept v hv)⟩
  have hsum : ((upExpire s.budget s.now).up.toList.map Up.ms).sum ≤ uplinkMs := by
    have hcounts := hinv.counts
    rw [hus, airtime_append, ← sum_kept, ← hlist, airLeft, List.filter_eq_self.mpr] at hcounts
    · omega
    · exact fun u hu => decide_eq_true (hring u hu).2
  have hused : (upSum s.budget s.now false).1 =
      ((upExpire s.budget s.now).up.toList.map Up.ms).sum := by
    unfold uplinkMs at hsum
    unfold upSum
    dsimp only
    rw [List.filter_eq_self.mpr (by simp), Nat.mod_eq_of_lt (by omega)]
  have hleft : airLeft t (upExpire s.budget s.now).up.toList + air ≤ uplinkMs := by
    refine untilRoom_spec hmax hring ?_ (steadyS air share) ?_
    · unfold uplinkMs at hsum
      omega
    · rw [← hused]
      exact ht
  have hnow : s.now ≤ t := (Nat.le_add_right _ _).trans ht
  have hlater : (upExpire (nextIntervalS s.budget s.now air share).2 t).up.toList =
      ((kept.filter (Sent.counts t)).map Sent.up).reverse := by
    rw [expire_toList]
    show (upExpire s.budget s.now).up.toList.dropWhile (isExpired t) = _
    rw [hlist]
    exact dropWhile_expired hlt hsorted fun u hu => (hmem u hu).trans hnow
  have hroom : (upSum (nextIntervalS s.budget s.now air share).2 t false).1 + air ≤ uplinkMs := by
    have hadd : ((upExpire (nextIntervalS s.budget s.now air share).2 t).up.toList.map Up.ms).sum =
        airLeft t (upExpire s.budget s.now).up.toList := by
      rw [hlater, hlist, sum_kept, airtime, List.map_reverse, List.sum_reverse, List.map_map]
      rfl
    unfold upSum
    dsimp only
    rw [List.filter_eq_self.mpr (by simp), hadd]
    exact (Nat.add_le_add_right (Nat.mod_le _ _) _).trans hleft
  have hn : (upSum (nextIntervalS s.budget s.now air share).2 t false).2.up.n ≠ upRing := hfull
  unfold uplinkRoomMs
  dsimp only
  rw [if_neg hn, if_neg (by omega)]
  omega

/-- The interval is at least its minimum. Equal uplinks that each wait it keep every day within the
share, and where there are no others each finds room when it is due. After others it does too, where
the ring is not still full of them. -/
theorem interval_holds (air share : ℕ) (hair : 1 ≤ air) (hle : air ≤ shareMs share)
    (hshare : share ≤ 100) :
    (∀ b nowS, baseS ≤ (nextIntervalS b nowS air share).1) ∧
      (∀ ts : List ℕ, ts.IsChain (Follows air share) →
        ∀ w, (ts.filter fun t => w ≤ t ∧ t < w + dayS).length * air ≤ shareMs share) ∧
      (∀ us b now due, Alone air share us b now (some due) → due ≤ now →
        air ≤ (uplinkRoomMs b now).1) ∧
      ∀ tr s t, Machine.Run step {} tr s → s.now + (nextIntervalS s.budget s.now air share).1 ≤ t →
        t < 2 ^ 32 → (upExpire (nextIntervalS s.budget s.now air share).2 t).up.n ≠ upRing →
          air ≤ (uplinkRoomMs (nextIntervalS s.budget s.now air share).2 t).1 := by
  have hmax := hle.trans (shareMs_le hshare)
  refine ⟨fun b nowS => ?_, fun ts hts w => ?_, fun us b now due h hdue => ?_,
    fun tr s t h ht hlt hfull => ?_⟩
  · exact (base_le_steady air share).trans (steady_le_interval b nowS air share)
  · exact share_of_spaced hair hle hshare (spaced_of_follows hts) w
  · exact (h.inv hair hmax).room hair hdue
  · exact room_after_wait hair hmax h ht hlt hfull

/-- The budget after two port 2 packets at the least spread, the second one sent late. -/
def twoSent : Budget :=
  (nextIntervalS (uplinkAdd (nextIntervalS (uplinkAdd budgetInit 0 118 true) 0 118 60).2
    1400 118 false) 1400 118 60).2

theorem alone_two : Alone 118 60 [⟨1400, ⟨1400, 118, false⟩⟩, ⟨0, ⟨0, 118, true⟩⟩] twoSent 2100
    (some 2081) := by
  have hstart : Alone 118 60 [] budgetInit 0 (some 0) := .start
  have hfirst := Alone.ask (hstart.charge le_rfl le_rfl true)
  have hlate := hfirst.clock (Nat.zero_le 1400) (by decide)
  have hsecond := hlate.charge (by decide) (le_refl 1400) false
  exact (Alone.ask hsecond).clock (by decide) (by decide)

/-- A packet of another length is charged before. -/
def otherSent : List Op := [.add 0 400 true, .room]

theorem interval_holds_energy : (baseS ≤ (nextIntervalS twoSent 2100 118 60).1 ∧
    (([1400, 0].filter fun t => 0 ≤ t ∧ t < 0 + dayS).length * 118 ≤ shareMs 60)) ∧
    118 ≤ (uplinkRoomMs twoSent 2100).1 ∧ ∃ tr s, Machine.Run step {} tr s ∧
      s.budget.up.toList = [⟨0, 400, true⟩] ∧
      118 ≤ (uplinkRoomMs (nextIntervalS s.budget s.now 118 60).2 1000).1 := by
  obtain ⟨hbase, hshare, halone, hroom⟩ := interval_holds 118 60 (by decide) (by decide) (by decide)
  have hfollows : Follows 118 60 1400 0 :=
    ⟨uplinkAdd budgetInit 0 118 true, 0, le_rfl, by decide⟩
  have hrun := (Machine.run_of_exec step {} otherSent rfl).1
  refine ⟨⟨hbase _ _, hshare [1400, 0] (.cons_cons hfollows (.singleton 0)) 0⟩,
    halone _ _ _ _ alone_two (by decide), _, _, hrun, by decide, ?_⟩
  exact hroom _ _ 1000 hrun (by decide) (by decide) (by decide)

end OpenCalifornia.Lora
