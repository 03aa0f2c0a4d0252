import OpenCalifornia.Control.CodecTwin
import OpenCalifornia.Freshness.Firmware

/-! # The two water guards

The satellite compares the raw levels of the frames, the daemon their litres. The two adopt and
hold the same frames as long as the levels stand for the litres in the comparisons that are made:
they are known together, at the latch value together, and equal together to those of the baseline
and of the candidate. A tank that reports per cent breaks this. -/

namespace OpenCalifornia.Freshness.Firmware
open Lib Lib.Bits Control Control.Firmware

/-- `interpret` of a 1302 frame. -/
def interpret (raw : List Byte) : Water := Freshness.water (decode Control.water raw)

/-- The guard's part of the server state. -/
structure Guard where
  good : Option Water
  pending : Option (Key × ℤ)
  deriving DecidableEq, Repr

/-- `WATER_SETTLE_S`, in ms. -/
def waterSettleMs : ℤ := 5000

/-- A reading through `settle_water`: the verdict, and the baseline and candidate after it. -/
def settleReading (s : Guard) (new : Water) (now : ℤ) : Bool × Guard :=
  let r := settleWater new s.good s.pending now waterSettleMs
  (r.1, ⟨if r.1 then some new else s.good, r.2⟩)

/-- A frame as the firmware sees it: its raw levels for litres. -/
def rawWater (frame : List Byte) : Water :=
  let l := waterLevels frame
  reading (l.fresh.map (↑)) (l.waste.map (↑)) l.empty

theorem codecDecode_water (frame : List Byte) :
    codecDecode waterFunc frame = decode Control.water frame := by
  obtain ⟨f, hf, hsame⟩ := @tables_twin Control.water (by decide)
  have hw : codecFuncByName Control.water.name = some waterFunc := by decide
  rw [hw, Option.some.injEq] at hf
  exact hf ▸ codecDecode_eq frame hsame.state

theorem waterLevels_eq (frame : List Byte) : waterLevels frame =
    ⟨(decode Control.water frame).get "FreshWaterLevel",
      (decode Control.water frame).get "WasteWaterLevel",
      (decode Control.water frame).get "FreshWaterInfoPopUp" = some 5⟩ := by
  have hw : codecFuncByName "water" = some waterFunc := by decide
  unfold waterLevels
  rw [hw]
  dsimp only
  rw [codecDecode_water]

theorem decode_water_take (raw : List Byte) :
    decode Control.water (raw.take frameMax) = decode Control.water raw :=
  decode_take Control.water (by decide) raw

theorem interpret_take (raw : List Byte) : interpret (raw.take frameMax) = interpret raw := by
  rw [interpret, decode_water_take]
  rfl

theorem rawWater_take (raw : List Byte) : rawWater (raw.take frameMax) = rawWater raw := by
  rw [rawWater, waterLevels_eq, decode_water_take, ← waterLevels_eq]
  rfl

theorem settleWater_key {good good' : Water} (h : key good = key good') (new : Water)
    (o : Option (Key × ℤ)) (now settle : ℤ) :
    settleWater new (some good) o now settle = settleWater new (some good') o now settle := by
  have hfresh : good.fresh.liters = good'.fresh.liters := congrArg Prod.fst h
  have hwaste : good.waste.liters = good'.waste.liters := congrArg Prod.snd h
  have hdrop : implausibleWaterDrop new good = implausibleWaterDrop new good' := by
    unfold implausibleWaterDrop
    rw [hfresh, hwaste]
  unfold settleWater
  rw [Option.filter_some, Option.filter_some, hfresh]
  cases new.fresh.liters with
  | none => rfl
  | some nf =>
    by_cases hg : good'.fresh.liters.isSome = true
    · rw [if_pos hg, if_pos hg]
      dsimp only
      rw [hdrop, h]
    · rw [if_neg hg, if_neg hg]

theorem settleWater_cold {good : Water} (h : good.fresh.liters = none) (new : Water)
    (o : Option (Key × ℤ)) (now settle : ℤ) :
    settleWater new (some good) o now settle = settleWater new none o now settle := by
  unfold settleWater
  rw [Option.filter_some, h]
  rfl

theorem known_isSome (v : Option ℕ) : known v.isSome (v.getD 0 : ℕ) = v.map (↑) := by
  cases v <;> rfl

theorem waterSettle_eq {g : Gate} {o : Option (Key × ℤ)} {nowMs : ℕ} (hp : Pends g.wpend o)
    (hsince : ∀ k t, o = some (k, t) → t ≤ (nowMs : ℤ)) (hnow : nowMs < 2 ^ 64)
    (data : List Byte) :
    (waterSettle g data nowMs).1 =
        (settleWater (rawWater data) (g.wg.map rawWater) o (nowMs : ℤ) waterSettleMs).1 ∧
      Pends (waterSettle g data nowMs).2
        (settleWater (rawWater data) (g.wg.map rawWater) o (nowMs : ℤ) waterSettleMs).2 := by
  have hgood : settleWater (rawWater data) (some (reading ((goodLevels g.wg).fresh.map (↑))
        ((goodLevels g.wg).waste.map (↑)) false)) o (nowMs : ℤ) waterSettleMs =
      settleWater (rawWater data) (g.wg.map rawWater) o (nowMs : ℤ) waterSettleMs := by
    cases g.wg with
    | none => exact settleWater_cold rfl _ _ _ _
    | some y =>
      have hkey : key (reading ((goodLevels (some y)).fresh.map (↑))
          ((goodLevels (some y)).waste.map (↑)) false) = key (rawWater y) := rfl
      exact settleWater_key hkey _ _ _ _
  have hcall := @freshnessSettle_eq ((waterLevels data).fresh.getD 0 : ℕ)
    ((goodLevels g.wg).fresh.getD 0 : ℕ) ((waterLevels data).waste.getD 0 : ℕ)
    ((goodLevels g.wg).waste.getD 0 : ℕ)
    ⟨(waterLevels data).fresh.isSome, (goodLevels g.wg).fresh.isSome,
      (waterLevels data).waste.isSome, (goodLevels g.wg).waste.isSome, (waterLevels data).empty⟩
    nowMs freshSettleMs g.wpend o hp hsince hnow
  rw [newReading, oldReading, known_isSome, known_isSome, known_isSome, known_isSome] at hcall
  rw [← hgood]
  exact hcall

/-- Two views of one reading: they know the same levels, have the latch value together and carry
the same alarm. -/
structure SameView (a b : Water) : Prop where
  empty : measuredEmpty a = measuredEmpty b
  fresh : a.fresh.liters.isSome = b.fresh.liters.isSome
  waste : a.waste.liters.isSome = b.waste.liters.isSome
  latch : ∀ n l, a.fresh.liters = some n → b.fresh.liters = some l →
    (n ≤ waterLatchMaxL ↔ l ≤ waterLatchMaxL)

/-- A reading compares with a baseline in one view as it does in the other. -/
structure SameTests (a b good good' : Water) : Prop where
  fresh_known : good.fresh.liters.isSome = good'.fresh.liters.isSome
  waste_known : good.waste.liters.isSome = good'.waste.liters.isSome
  fresh : a.fresh.liters = good.fresh.liters ↔ b.fresh.liters = good'.fresh.liters
  waste : a.waste.liters = good.waste.liters ↔ b.waste.liters = good'.waste.liters

theorem SameTests.key {a b good good' : Water} (h : SameTests a b good good') :
    key a = key good ↔ key b = key good' := by
  unfold Freshness.key
  rw [Prod.mk.injEq, Prod.mk.injEq, h.fresh, h.waste]

theorem implausible_alike {a b good good' : Water} (hv : SameView a b)
    (ht : SameTests a b good good') :
    implausibleWaterDrop a good = implausibleWaterDrop b good' := by
  obtain ⟨he, hf, hw, hl⟩ := hv
  obtain ⟨hgf, hgw, hfe, hwe⟩ := ht
  unfold implausibleWaterDrop
  rw [he]
  cases haf : a.fresh.liters with
  | none =>
    rw [haf] at hf
    cases hbf : b.fresh.liters with
    | none => rfl
    | some l => simp [hbf] at hf
  | some n =>
    rw [haf] at hf hfe
    cases hbf : b.fresh.liters with
    | none => simp [hbf] at hf
    | some l =>
      rw [hbf] at hfe
      have hle := hl n l haf hbf
      cases hgood : good.fresh.liters with
      | none =>
        rw [hgood] at hgf
        cases hgood' : good'.fresh.liters with
        | none => rfl
        | some _ => simp [hgood'] at hgf
      | some g =>
        rw [hgood] at hgf hfe
        cases hgood' : good'.fresh.liters with
        | none => simp [hgood'] at hgf
        | some g' =>
          rw [hgood', Option.some.injEq, Option.some.injEq] at hfe
          have hgt : (n = g ∨ n > waterLatchMaxL) ↔ (l = g' ∨ l > waterLatchMaxL) := by
            rw [hfe]
            omega
          dsimp only
          rw [if_congr hgt rfl rfl]
          -- the grey levels are compared only where both are known
          congr 2
          cases haw : a.waste.liters <;> cases hbw : b.waste.liters <;>
            cases hgw1 : good.waste.liters <;> cases hgw2 : good'.waste.liters <;>
            simp_all

/-- Two candidates of one frame and time. -/
inductive SameCandidate : Option (Key × ℤ) → Option (Key × ℤ) → Prop
  | absent : SameCandidate none none
  | seen (y : List Byte) (t : ℤ) :
      SameCandidate (some (key (rawWater y), t)) (some (key (interpret y), t))

/-- The frame is the pending one in both views or in neither. -/
def SamePending (x : List Byte) (o o' : Option (Key × ℤ)) : Prop :=
  ∀ k t k' t', o = some (k, t) → o' = some (k', t') →
    (k = key (rawWater x) ↔ k' = key (interpret x))

theorem candidate_alike {x : List Byte} {o o' : Option (Key × ℤ)} (ho : SameCandidate o o')
    (hx : SamePending x o o') (now : ℤ) :
    SameCandidate (some (candidate (key (rawWater x)) o now))
      (some (candidate (key (interpret x)) o' now)) ∧
    (candidate (key (rawWater x)) o now).2 = (candidate (key (interpret x)) o' now).2 := by
  unfold candidate
  cases ho with
  | absent => exact ⟨.seen x now, rfl⟩
  | seen y t =>
    have hiff := hx _ _ _ _ rfl rfl
    dsimp only
    by_cases hk : key (rawWater y) = key (rawWater x)
    · rw [if_pos hk, if_pos (hiff.mp hk)]
      exact ⟨.seen y t, rfl⟩
    · rw [if_neg hk, if_neg fun h => hk (hiff.mpr h)]
      exact ⟨.seen x now, rfl⟩

theorem debounce_alike {x : List Byte} {o o' : Option (Key × ℤ)} (ho : SameCandidate o o')
    (hx : SamePending x o o') (hv : SameView (rawWater x) (interpret x)) (now settle : ℤ) :
    (debounce (rawWater x) o now settle).1 = (debounce (interpret x) o' now settle).1 ∧
      SameCandidate (debounce (rawWater x) o now settle).2
        (debounce (interpret x) o' now settle).2 := by
  obtain ⟨hcand, htime⟩ := candidate_alike ho hx now
  unfold debounce
  rw [hv.empty, htime]
  by_cases he : measuredEmpty (interpret x) = true
  · rw [if_pos he, if_pos he]
    exact ⟨rfl, .absent⟩
  · rw [if_neg he, if_neg he]
    by_cases hw : settle ≤ now - (candidate (key (interpret x)) o' now).2
    · rw [if_pos hw, if_pos hw]
      exact ⟨rfl, .absent⟩
    · rw [if_neg hw, if_neg hw]
      exact ⟨rfl, hcand⟩

/-- The comparisons of `settle_water` come out the same on the levels as on the litres. -/
structure SameFrame (x : List Byte) (wg : Option (List Byte)) (o o' : Option (Key × ℤ)) :
    Prop where
  view : SameView (rawWater x) (interpret x)
  base : ∀ y, wg = some y → SameTests (rawWater x) (interpret x) (rawWater y) (interpret y)
  pending : SamePending x o o'

theorem settleWater_alike {x : List Byte} {wg : Option (List Byte)} {o o' : Option (Key × ℤ)}
    (h : SameFrame x wg o o') (ho : SameCandidate o o') (now settle : ℤ) :
    (settleWater (rawWater x) (wg.map rawWater) o now settle).1 =
        (settleWater (interpret x) (wg.map interpret) o' now settle).1 ∧
      SameCandidate (settleWater (rawWater x) (wg.map rawWater) o now settle).2
        (settleWater (interpret x) (wg.map interpret) o' now settle).2 := by
  have hdeb := debounce_alike ho h.pending h.view now settle
  have hfresh := h.view.fresh
  unfold settleWater
  cases hn : (rawWater x).fresh.liters with
  | none =>
    rw [hn] at hfresh
    cases hl : (interpret x).fresh.liters with
    | none => exact ⟨rfl, .absent⟩
    | some l => simp [hl] at hfresh
  | some n =>
    rw [hn] at hfresh
    cases hl : (interpret x).fresh.liters with
    | none => simp [hl] at hfresh
    | some l =>
      have hle := h.view.latch n l hn hl
      have hcold : (n ≤ waterLatchMaxL ∧ ¬ measuredEmpty (rawWater x) = true) ↔
          (l ≤ waterLatchMaxL ∧ ¬ measuredEmpty (interpret x) = true) := by
        rw [hle, h.view.empty]
      have hstart : (if n ≤ waterLatchMaxL ∧ ¬ measuredEmpty (rawWater x) = true then (false, none)
            else debounce (rawWater x) o now settle).1 =
          (if l ≤ waterLatchMaxL ∧ ¬ measuredEmpty (interpret x) = true then (false, none)
            else debounce (interpret x) o' now settle).1 ∧
          SameCandidate
            (if n ≤ waterLatchMaxL ∧ ¬ measuredEmpty (rawWater x) = true then (false, none)
              else debounce (rawWater x) o now settle).2
            (if l ≤ waterLatchMaxL ∧ ¬ measuredEmpty (interpret x) = true then (false, none)
              else debounce (interpret x) o' now settle).2 := by
        by_cases hc : n ≤ waterLatchMaxL ∧ ¬ measuredEmpty (rawWater x) = true
        · rw [if_pos hc, if_pos (hcold.mp hc)]
          exact ⟨rfl, .absent⟩
        · rw [if_neg hc, if_neg fun hc' => hc (hcold.mpr hc')]
          exact hdeb
      cases wg with
      | none => exact hstart
      | some y =>
        have ht := h.base y rfl
        have hk := ht.fresh_known
        rw [Option.map_some, Option.map_some, Option.filter_some, Option.filter_some, hk]
        by_cases hy : (interpret y).fresh.liters.isSome = true
        · rw [if_pos hy, if_pos hy]
          dsimp only
          rw [implausible_alike h.view ht]
          by_cases hi : implausibleWaterDrop (interpret x) (interpret y) = true
          · rw [if_pos hi, if_pos hi]
            exact ⟨rfl, .absent⟩
          · rw [if_neg hi, if_neg hi]
            by_cases hkey : key (rawWater x) = key (rawWater y)
            · rw [if_pos hkey, if_pos (ht.key.mp hkey)]
              exact ⟨rfl, .absent⟩
            · rw [if_neg hkey, if_neg fun hc => hkey (ht.key.mpr hc)]
              exact hdeb
        · rw [if_neg hy, if_neg hy]
          exact hstart

/-- The pending candidate of the C state. -/
def FreshPending.candidate (p : FreshPending) : Option (Key × ℤ) :=
  if p.pending then some ((some p.fresh, known p.wasteKnown p.waste), p.sinceMs) else none

theorem pends_candidate (p : FreshPending) : Pends p p.candidate := by
  unfold FreshPending.candidate
  cases hp : p.pending with
  | false => exact hp
  | true => exact ⟨hp, rfl, rfl⟩

theorem Pends.eq_candidate {p : FreshPending} {o : Option (Key × ℤ)} (h : Pends p o) :
    o = p.candidate := by
  unfold FreshPending.candidate
  cases o with
  | none =>
    have hp : p.pending = false := h
    rw [hp]
    rfl
  | some kt =>
    obtain ⟨hp, hk, ht⟩ := h
    rw [if_pos hp, ← hk, ht]

/-- The two guards, the one about frames and the other about readings of them. -/
structure Alike (g : Gate) (s : Guard) : Prop where
  good : s.good = g.wg.map interpret
  pending : SameCandidate g.wpend.candidate s.pending

theorem SameCandidate.since {o o' : Option (Key × ℤ)} (h : SameCandidate o o') {now : ℤ}
    (ht : ∀ k t, o' = some (k, t) → t ≤ now) : ∀ k t, o = some (k, t) → t ≤ now := by
  intro k t ho
  cases h with
  | absent => cases ho
  | seen y u =>
    cases ho
    exact ht _ _ rfl

theorem store_alike {g : Gate} {s : Guard} {raw : List Byte} {nowMs : ℕ} (ha : Alike g s)
    (hf : SameFrame raw g.wg g.wpend.candidate s.pending)
    (ht : ∀ k t, s.pending = some (k, t) → t ≤ (nowMs : ℤ)) (hnow : nowMs < 2 ^ 64) :
    (storeWater g raw nowMs).1 = (settleReading s (interpret raw) nowMs).1 ∧
      Alike (storeWater g raw nowMs).2.1 (settleReading s (interpret raw) nowMs).2 := by
  obtain ⟨hc, hp⟩ := waterSettle_eq (pends_candidate g.wpend) (ha.pending.since ht) hnow
    (raw.take frameMax)
  obtain ⟨hv, hs⟩ := settleWater_alike hf ha.pending (nowMs : ℤ) waterSettleMs
  rw [rawWater_take] at hc hp
  rw [hp.eq_candidate] at hs
  rw [← ha.good] at hv hs
  have hverdict := hc.trans hv
  unfold storeWater settleReading
  dsimp only
  rw [← hverdict]
  by_cases h : (waterSettle g (raw.take frameMax) nowMs).1 = true
  · rw [if_pos h, if_pos h]
    refine ⟨h.symm, ?_, hs⟩
    rw [Option.map_some, interpret_take]
  · rw [if_neg h, if_neg h]
    exact ⟨by simpa using h, ha.good, hs⟩

/-- A frame and the time it is read at. -/
abbrev Timed := List Byte × ℕ

/-- A restart: the persisted baseline, and no candidate. -/
def bootGate (wg : Option (List Byte)) : Gate := ⟨wg, ⟨0, 0, false, false, 0⟩, false⟩

def bootGuard (wg : Option (List Byte)) : Guard := ⟨wg.map interpret, none⟩

def gateAfter (wg : Option (List Byte)) (frames : List Timed) : Gate :=
  frames.foldl (fun g f => (storeWater g f.1 f.2).2.1) (bootGate wg)

def guardAfter (wg : Option (List Byte)) (frames : List Timed) : Guard :=
  frames.foldl (fun s f => (settleReading s (interpret f.1) f.2).2) (bootGuard wg)

theorem gateAfter_concat (wg : Option (List Byte)) (frames : List Timed) (f : Timed) :
    gateAfter wg (frames ++ [f]) = (storeWater (gateAfter wg frames) f.1 f.2).2.1 := by
  simp [gateAfter]

theorem guardAfter_concat (wg : Option (List Byte)) (frames : List Timed) (f : Timed) :
    guardAfter wg (frames ++ [f]) =
      (settleReading (guardAfter wg frames) (interpret f.1) f.2).2 := by
  simp [guardAfter]

/-- A 64-bit clock that does not run backwards. -/
def FrameClock (frames : List Timed) : Prop :=
  frames.Pairwise (fun a b => a.2 ≤ b.2) ∧ ∀ f ∈ frames, f.2 < 2 ^ 64

/-- The frame compares on its levels as on its litres, in the states before it. -/
def LevelsAsLiters (wg : Option (List Byte)) (before : List Timed) (f : Timed) : Prop :=
  SameFrame f.1 (gateAfter wg before).wg (gateAfter wg before).wpend.candidate
    (guardAfter wg before).pending

theorem settleWater_since {new : Water} {good : Option Water} {o : Option (Key × ℤ)}
    {now settle : ℤ} (h : ∀ k t, o = some (k, t) → t ≤ now) :
    ∀ k t, (settleWater new good o now settle).2 = some (k, t) → t ≤ now := by
  intro k t hr
  cases settleWater_cases new good o now settle with
  | inl hnone =>
    rw [hnone] at hr
    cases hr
  | inr hdeb =>
    have hle := candidate_le h (k := key new)
    rw [hdeb, debounce] at hr
    split_ifs at hr
    rw [Option.some.injEq] at hr
    rw [hr] at hle
    exact hle

theorem guardAfter_since {wg : Option (List Byte)} {frames : List Timed} {now : ℕ}
    (h : FrameClock frames) (hnow : ∀ f ∈ frames, f.2 ≤ now) :
    ∀ k t, (guardAfter wg frames).pending = some (k, t) → t ≤ (now : ℤ) := by
  induction frames using List.reverseRecOn generalizing now with
  | nil =>
    intro k t hp
    cases hp
  | append_singleton before f ih =>
    intro k t hp
    rw [guardAfter_concat] at hp
    have hclock : FrameClock before :=
      ⟨(List.pairwise_append.mp h.1).1, fun x hx => h.2 x (by simp [hx])⟩
    have hlast := (List.pairwise_append.mp h.1).2.2
    have hbefore : ∀ k t, (guardAfter wg before).pending = some (k, t) → t ≤ (f.2 : ℤ) :=
      ih hclock fun x hx => hlast x hx f (by simp)
    have hle := settleWater_since hbefore k t hp
    have hf := hnow f (by simp)
    omega

theorem after_alike {wg : Option (List Byte)} {frames : List Timed} (h : FrameClock frames)
    (hsame : ∀ before f after, frames = before ++ f :: after → LevelsAsLiters wg before f) :
    Alike (gateAfter wg frames) (guardAfter wg frames) := by
  induction frames using List.reverseRecOn with
  | nil => exact ⟨rfl, .absent⟩
  | append_singleton before f ih =>
    have hclock : FrameClock before :=
      ⟨(List.pairwise_append.mp h.1).1, fun x hx => h.2 x (by simp [hx])⟩
    have hlast := (List.pairwise_append.mp h.1).2.2
    have ha := ih hclock fun b x a hsplit => hsame b x (a ++ [f]) (by simp [hsplit])
    rw [gateAfter_concat, guardAfter_concat]
    exact (store_alike ha (hsame before f [] rfl)
      (guardAfter_since hclock fun x hx => hlast x hx f (by simp)) (h.2 f (by simp))).2

/-- In every run whose frames compare on their levels as on their litres the two guards hold and
adopt the same frames, and their baselines and candidates are of the same frames. -/
theorem water_twin {wg : Option (List Byte)} {frames : List Timed} (h : FrameClock frames)
    (hsame : ∀ before f after, frames = before ++ f :: after → LevelsAsLiters wg before f) :
    ∀ before f after, frames = before ++ f :: after →
      (storeWater (gateAfter wg before) f.1 f.2).1 =
        (settleReading (guardAfter wg before) (interpret f.1) f.2).1 ∧
      Alike (gateAfter wg (before ++ [f])) (guardAfter wg (before ++ [f])) := by
  intro before f after hsplit
  rw [hsplit] at h
  have hclock : FrameClock before :=
    ⟨(List.pairwise_append.mp h.1).1, fun x hx => h.2 x (by simp [hx])⟩
  have hlast := (List.pairwise_append.mp h.1).2.2
  have ha : Alike (gateAfter wg before) (guardAfter wg before) :=
    after_alike hclock fun b x a hb => hsame b x (a ++ f :: after) (by simp [hsplit, hb])
  rw [gateAfter_concat, guardAfter_concat]
  exact store_alike ha (hsame before f after hsplit)
    (guardAfter_since hclock fun x hx => hlast x hx f (by simp)) (h.2 f (by simp))

/-- The litres of the frame are its raw levels, as they are of every complete frame of tanks that
report in absolute units. -/
def LitersAreLevels (x : List Byte) : Prop := key (interpret x) = key (rawWater x)

instance (x : List Byte) : Decidable (LitersAreLevels x) := by
  unfold LitersAreLevels
  infer_instance

theorem freshWaterAlert_empty (v : ℕ) : freshWaterAlert v = some .empty ↔ v = 5 := by
  unfold freshWaterAlert
  split <;> simp_all

theorem measuredEmpty_views (x : List Byte) :
    measuredEmpty (rawWater x) = measuredEmpty (interpret x) := by
  rw [rawWater, measuredEmpty_reading, waterLevels_eq, measuredEmpty, interpret, water,
    decide_eq_decide]
  cases (decode Control.water x).get "FreshWaterInfoPopUp" with
  | none => simp
  | some v => simp [freshWaterAlert_empty]

theorem settleWater_new {new new' : Water} (hk : key new = key new')
    (he : measuredEmpty new = measuredEmpty new') (good : Option Water) (o : Option (Key × ℤ))
    (now settle : ℤ) : settleWater new good o now settle = settleWater new' good o now settle := by
  have hfresh : new.fresh.liters = new'.fresh.liters := congrArg Prod.fst hk
  have hwaste : new.waste.liters = new'.waste.liters := congrArg Prod.snd hk
  have hdrop : ∀ y, implausibleWaterDrop new y = implausibleWaterDrop new' y := by
    intro y
    unfold implausibleWaterDrop
    rw [hfresh, hwaste, he]
  have hdeb : debounce new o now settle = debounce new' o now settle := by
    unfold debounce
    rw [hk, he]
  unfold settleWater
  rw [hfresh, he, hk, hdeb]
  cases new'.fresh.liters with
  | none => rfl
  | some nf =>
    cases good.filter (·.fresh.liters.isSome) with
    | none => rfl
    | some y =>
      dsimp only
      rw [hdrop]

/-- Where litres are levels the two states hold the same values. -/
structure SameState (g : Gate) (s : Guard) : Prop where
  good : s.good = g.wg.map interpret
  base : ∀ y, g.wg = some y → LitersAreLevels y
  pending : g.wpend.candidate = s.pending

theorem SameState.settle {g : Gate} {s : Guard} (h : SameState g s) {x : List Byte}
    (hx : LitersAreLevels x) (now : ℤ) :
    settleWater (rawWater x) (g.wg.map rawWater) g.wpend.candidate now waterSettleMs =
      settleWater (interpret x) s.good s.pending now waterSettleMs := by
  rw [h.pending, h.good, settleWater_new hx.symm (measuredEmpty_views x)]
  cases hg : g.wg with
  | none => rfl
  | some y => exact settleWater_key (h.base y hg).symm _ _ _ _

theorem SameState.same {g : Gate} {s : Guard} (h : SameState g s) {x : List Byte}
    (hx : LitersAreLevels x) : SameFrame x g.wg g.wpend.candidate s.pending where
  view := by
    have hf : (interpret x).fresh.liters = (rawWater x).fresh.liters := congrArg Prod.fst hx
    have hw : (interpret x).waste.liters = (rawWater x).waste.liters := congrArg Prod.snd hx
    refine ⟨measuredEmpty_views x, by rw [hf], by rw [hw], ?_⟩
    intro n l hn hl
    rw [hf, hn, Option.some.injEq] at hl
    rw [hl]
  base := by
    intro y hy
    have hf : (interpret x).fresh.liters = (rawWater x).fresh.liters := congrArg Prod.fst hx
    have hw : (interpret x).waste.liters = (rawWater x).waste.liters := congrArg Prod.snd hx
    have hfy : (interpret y).fresh.liters = (rawWater y).fresh.liters :=
      congrArg Prod.fst (h.base y hy)
    have hwy : (interpret y).waste.liters = (rawWater y).waste.liters :=
      congrArg Prod.snd (h.base y hy)
    exact ⟨by rw [hfy], by rw [hwy], by rw [hf, hfy], by rw [hw, hwy]⟩
  pending := by
    intro k t k' t' hk hk'
    rw [h.pending, hk', Option.some.injEq, Prod.mk.injEq] at hk
    rw [← hk.1, show key (interpret x) = key (rawWater x) from hx]

theorem after_sameState {wg : Option (List Byte)} (hwg : ∀ y, wg = some y → LitersAreLevels y)
    {frames : List Timed} (h : FrameClock frames) (hkey : ∀ f ∈ frames, LitersAreLevels f.1) :
    SameState (gateAfter wg frames) (guardAfter wg frames) := by
  induction frames using List.reverseRecOn with
  | nil => exact ⟨rfl, hwg, rfl⟩
  | append_singleton before f ih =>
    have hclock : FrameClock before :=
      ⟨(List.pairwise_append.mp h.1).1, fun x hx => h.2 x (by simp [hx])⟩
    have hlast := (List.pairwise_append.mp h.1).2.2
    have hs := ih hclock fun x hx => hkey x (by simp [hx])
    have hf := hkey f (by simp)
    have hsince := @guardAfter_since wg before f.2 hclock fun x hx => hlast x hx f (by simp)
    rw [← hs.pending] at hsince
    obtain ⟨hc, hp⟩ := waterSettle_eq (pends_candidate _) hsince (h.2 f (by simp))
      (f.1.take frameMax)
    rw [rawWater_take, hs.settle hf] at hc hp
    rw [gateAfter_concat, guardAfter_concat]
    unfold storeWater settleReading
    dsimp only
    rw [← hc]
    by_cases hv : (waterSettle (gateAfter wg before) (f.1.take frameMax) f.2).1 = true
    · rw [if_pos hv, if_pos hv]
      refine ⟨by rw [Option.map_some, interpret_take], ?_, hp.eq_candidate.symm⟩
      intro y hy
      rw [← Option.some.inj hy, LitersAreLevels, interpret_take, rawWater_take]
      exact hf
    · rw [if_neg hv, if_neg hv]
      exact ⟨hs.good, hs.base, hp.eq_candidate.symm⟩

theorem levelsAsLiters_of_key {wg : Option (List Byte)}
    (hwg : ∀ y, wg = some y → LitersAreLevels y) {frames : List Timed} (h : FrameClock frames)
    (hkey : ∀ f ∈ frames, LitersAreLevels f.1) :
    ∀ before f after, frames = before ++ f :: after → LevelsAsLiters wg before f := by
  intro before f after hsplit
  subst hsplit
  have hclock : FrameClock before :=
    ⟨(List.pairwise_append.mp h.1).1, fun x hx => h.2 x (by simp [hx])⟩
  exact (after_sameState hwg hclock fun x hx => hkey x (by simp [hx])).same (hkey f (by simp))

/-- A tank in litres, read twice: the level is adopted once it has settled. -/
theorem water_twin_absolute :
    (storeWater (gateAfter none [([3, 20, 29, 1, 0, 29], 0)]) [3, 20, 29, 1, 0, 29] 5000).1 = true ∧
      (settleReading (guardAfter none [([3, 20, 29, 1, 0, 29], 0)])
        (interpret [3, 20, 29, 1, 0, 29]) 5000).1 = true := by
  have hframes : FrameClock [([3, 20, 29, 1, 0, 29], 0), ([3, 20, 29, 1, 0, 29], 5000)] := by
    refine ⟨by simp, ?_⟩
    intro f hf
    simp only [List.mem_cons, List.not_mem_nil, or_false] at hf
    rcases hf with rfl | rfl <;> decide
  have hkey : ∀ f ∈ ([([3, 20, 29, 1, 0, 29], 0), ([3, 20, 29, 1, 0, 29], 5000)] : List Timed),
      LitersAreLevels f.1 := by decide
  have hwg : ∀ y, (none : Option (List Byte)) = some y → LitersAreLevels y := fun _ h => by cases h
  have htwin := water_twin hframes (levelsAsLiters_of_key hwg hframes hkey)
    [([3, 20, 29, 1, 0, 29], 0)] ([3, 20, 29, 1, 0, 29], 5000) [] rfl
  have hstore : (storeWater (gateAfter none [([3, 20, 29, 1, 0, 29], 0)])
      [3, 20, 29, 1, 0, 29] 5000).1 = true := by decide
  exact ⟨hstore, htwin.1.symm.trans hstore⟩

/-- A tank in per cent: three per cent of 29 litres is above the latch value as a level and below
it in litres, so the satellite adopts what the daemon holds. And a frame cut off before the volume
has a level and no litres. -/
theorem water_guards_differ :
    ((storeWater (gateAfter none [([2, 3, 29, 0, 0, 29], 0)]) [2, 3, 29, 0, 0, 29] 5000).1 = true ∧
      (settleReading (guardAfter none [([2, 3, 29, 0, 0, 29], 0)])
        (interpret [2, 3, 29, 0, 0, 29]) 5000).1 = false) ∧
    (storeWater (bootGate none) [3, 20] 0).1 = false ∧
      (settleReading (bootGuard none) (interpret [3, 20]) 0).1 = true := by
  decide

end OpenCalifornia.Freshness.Firmware
