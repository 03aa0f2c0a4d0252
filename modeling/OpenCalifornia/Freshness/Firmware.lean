import OpenCalifornia.Control.Codec
import OpenCalifornia.Freshness.Settle

/-! # The water guard of the satellite

`freshness_settle` of `ports.c` and the water gate of `session.c`, which feeds it the raw levels of
the frames. A call of the C function is a call of `settle_water` on its levels. -/

namespace OpenCalifornia.Freshness.Firmware
open Lib Lib.Bits Control.Firmware

/-- The bits of `have`. -/
structure Have where
  nf : Bool
  pf : Bool
  ng : Bool
  pg : Bool
  newEmpty : Bool
  deriving DecidableEq, Repr

def freshLatchMaxL : ℤ := 1

def freshSettleMs : ℕ := 5000

def freshnessImplausibleDrop (nf pf ng pg : ℤ) (h : Have) : Bool :=
  if ¬ h.nf ∨ ¬ h.pf ∨ h.newEmpty then false
  else if nf = pf ∨ nf > freshLatchMaxL then false
  else if ¬ h.ng ∨ ¬ h.pg then true
  else ng = pg

/-- `fresh_pending_t`, the two bits of `have` apart. -/
structure FreshPending where
  fresh : ℤ
  waste : ℤ
  pending : Bool
  wasteKnown : Bool
  sinceMs : ℕ
  deriving DecidableEq, Repr

/-- `p->have = 0`. -/
def FreshPending.clear (p : FreshPending) : FreshPending :=
  { p with pending := false, wasteKnown := false }

/-- The difference of two `uint64_t`. -/
def elapsed (nowMs sinceMs : ℕ) : ℕ := (nowMs + 2 ^ 64 - sinceMs) % 2 ^ 64

/-- The candidate, replaced where it is not this pair. -/
def FreshPending.take (p : FreshPending) (nf ng : ℤ) (hng : Bool) (nowMs : ℕ) : FreshPending :=
  if ¬ p.pending ∨ p.fresh ≠ nf ∨ p.wasteKnown ≠ hng ∨ (hng ∧ p.waste ≠ ng) then
    { fresh := nf
      waste := if hng then ng else 0
      pending := true
      wasteKnown := hng
      sinceMs := nowMs }
  else p

/-- The end of `freshness_settle`. -/
def settleTail (nf ng : ℤ) (h : Have) (nowMs settleMs : ℕ) (p : FreshPending) :
    Bool × FreshPending :=
  if h.newEmpty then (true, p.clear)
  else if settleMs ≤ elapsed nowMs (p.take nf ng h.ng nowMs).sinceMs then
    (true, (p.take nf ng h.ng nowMs).clear)
  else (false, p.take nf ng h.ng nowMs)

def freshnessSettle (nf pf ng pg : ℤ) (h : Have) (nowMs settleMs : ℕ) (p : FreshPending) :
    Bool × FreshPending :=
  if ¬ h.nf then (true, p.clear)
  else if ¬ h.pf then
    if nf ≤ freshLatchMaxL ∧ ¬ h.newEmpty then (false, p.clear)
    else settleTail nf ng h nowMs settleMs p
  else if freshnessImplausibleDrop nf pf ng pg h then (false, p.clear)
  else if nf = pf ∧ h.ng = h.pg ∧ (¬ h.ng ∨ ng = pg) then (true, p.clear)
  else settleTail nf ng h nowMs settleMs p

/-- What `water_levels` finds in a frame. -/
structure Levels where
  fresh : Option ℕ
  waste : Option ℕ
  empty : Bool
  deriving DecidableEq, Repr

def waterLevels (frame : List Byte) : Levels :=
  match codecFuncByName "water" with
  | none => ⟨none, none, false⟩
  | some wf =>
    let kv := codecDecode wf frame
    ⟨kv.get "FreshWaterLevel", kv.get "WasteWaterLevel", kv.get "FreshWaterInfoPopUp" = some 5⟩

/-- The baseline frame, the candidate, and whether the served frame is the held one. -/
structure Gate where
  wg : Option (List Byte)
  wpend : FreshPending
  waterHeld : Bool
  deriving DecidableEq, Repr

/-- The levels of the baseline, none without one. -/
def goodLevels (wg : Option (List Byte)) : Levels := (wg.map waterLevels).getD ⟨none, none, false⟩

def waterSettle (g : Gate) (data : List Byte) (nowMs : ℕ) : Bool × FreshPending :=
  let new := waterLevels data
  let good := goodLevels g.wg
  freshnessSettle (new.fresh.getD 0) (good.fresh.getD 0) (new.waste.getD 0) (good.waste.getD 0)
    ⟨new.fresh.isSome, good.fresh.isSome, new.waste.isSome, good.waste.isSome, new.empty⟩
    nowMs freshSettleMs g.wpend

/-- `store` of a 1302 frame, as far as the gate goes: whether it is adopted, the gate after it, and
the frame that is stored. -/
def storeWater (g : Gate) (data : List Byte) (nowMs : ℕ) : Bool × Gate × Option (List Byte) :=
  let data := data.take frameMax
  let r := waterSettle g data nowMs
  if r.1 then (true, ⟨some data, r.2, false⟩, some data)
  else (false, ⟨g.wg, r.2, true⟩, g.wg)

/-- A reading that has these levels for litres. -/
def reading (fresh waste : Option ℤ) (empty : Bool) : Water where
  installed := false
  fresh := ⟨fresh, none, none⟩
  waste := ⟨waste, none, none⟩
  freshAlert := if empty then some .empty else none
  wasteAlert := none

def known (b : Bool) (v : ℤ) : Option ℤ := if b then some v else none

/-- The new reading of a call. -/
def newReading (nf ng : ℤ) (h : Have) : Water := reading (known h.nf nf) (known h.ng ng) h.newEmpty

/-- The baseline of a call. -/
def oldReading (pf pg : ℤ) (h : Have) : Water := reading (known h.pf pf) (known h.pg pg) false

/-- The C candidate is this one. -/
def Pends (p : FreshPending) : Option (Key × ℤ) → Prop
  | none => p.pending = false
  | some (k, t) => p.pending = true ∧ k = (some p.fresh, known p.wasteKnown p.waste) ∧
      (p.sinceMs : ℤ) = t

@[simp] theorem measuredEmpty_reading (fresh waste : Option ℤ) (empty : Bool) :
    measuredEmpty (reading fresh waste empty) = empty := by
  cases empty <;> rfl

theorem implausibleDrop_eq {nf pf ng pg : ℤ} {h : Have} :
    freshnessImplausibleDrop nf pf ng pg h =
      implausibleWaterDrop (newReading nf ng h) (oldReading pf pg h) := by
  obtain ⟨hnf, hpf, hng, hpg, he⟩ := h
  cases hnf <;> cases hpf <;> cases hng <;> cases hpg <;> cases he <;> rfl

theorem key_eq_iff {nf pf ng pg : ℤ} {h : Have} (hnf : h.nf = true) (hpf : h.pf = true) :
    key (newReading nf ng h) = key (oldReading pf pg h) ↔
      nf = pf ∧ h.ng = h.pg ∧ (¬ h.ng ∨ ng = pg) := by
  obtain ⟨_, _, hng, hpg, he⟩ := h
  cases hnf
  cases hpf
  cases hng <;> cases hpg <;> simp [key, newReading, oldReading, reading, known]

theorem take_pends {nf ng : ℤ} {h : Have} {nowMs : ℕ} {p : FreshPending}
    {o : Option (Key × ℤ)} (hnf : h.nf = true) (hp : Pends p o) :
    Pends (p.take nf ng h.ng nowMs)
      (some (candidate (key (newReading nf ng h)) o (nowMs : ℤ))) := by
  have hkey : key (newReading nf ng h) = (some nf, known h.ng ng) := by
    simp [key, newReading, reading, known, hnf]
  rw [hkey]
  unfold FreshPending.take candidate
  cases o with
  | none =>
    have hnone : p.pending = false := hp
    rw [if_pos (Or.inl (by simp [hnone]))]
    exact ⟨rfl, by cases h.ng <;> rfl, rfl⟩
  | some kt =>
    obtain ⟨k, t⟩ := kt
    obtain ⟨hpend, hk, ht⟩ := hp
    have hsame : (¬ p.pending = true ∨ p.fresh ≠ nf ∨ p.wasteKnown ≠ h.ng ∨
        (h.ng = true ∧ p.waste ≠ ng)) ↔ k ≠ (some nf, known h.ng ng) := by
      rw [hk, hpend]
      cases p.wasteKnown <;> cases h.ng <;> simp [known, imp_iff_not_or]
    dsimp only
    by_cases hne : k = (some nf, known h.ng ng)
    · rw [if_neg (fun hc => hsame.mp hc hne), if_pos hne]
      exact ⟨hpend, hk, ht⟩
    · rw [if_pos (hsame.mpr hne), if_neg hne]
      exact ⟨rfl, by cases h.ng <;> rfl, rfl⟩

theorem clear_pends (p : FreshPending) : Pends p.clear none := rfl

theorem elapsed_eq {nowMs sinceMs : ℕ} (h : sinceMs ≤ nowMs) (hnow : nowMs < 2 ^ 64) :
    (elapsed nowMs sinceMs : ℤ) = (nowMs : ℤ) - sinceMs := by
  unfold elapsed
  omega

theorem candidate_le {k : Key} {o : Option (Key × ℤ)} {now : ℤ}
    (h : ∀ k t, o = some (k, t) → t ≤ now) : (candidate k o now).2 ≤ now := by
  unfold candidate
  cases o with
  | none => exact Int.le_refl now
  | some p =>
    dsimp only
    split_ifs
    · exact h p.1 p.2 rfl
    · exact Int.le_refl now

section Call

variable {nf pf ng pg : ℤ} {h : Have} {nowMs settleMs : ℕ} {p : FreshPending}
  {o : Option (Key × ℤ)}

theorem settleTail_eq (hnf : h.nf = true) (hp : Pends p o)
    (hsince : ∀ k t, o = some (k, t) → t ≤ (nowMs : ℤ)) (hnow : nowMs < 2 ^ 64) :
    (settleTail nf ng h nowMs settleMs p).1 =
        (debounce (newReading nf ng h) o (nowMs : ℤ) (settleMs : ℤ)).1 ∧
      Pends (settleTail nf ng h nowMs settleMs p).2
        (debounce (newReading nf ng h) o (nowMs : ℤ) (settleMs : ℤ)).2 := by
  have htake : Pends (p.take nf ng h.ng nowMs)
      (some (candidate (key (newReading nf ng h)) o (nowMs : ℤ))) := take_pends hnf hp
  have hle := candidate_le hsince (k := key (newReading nf ng h))
  have hempty : measuredEmpty (newReading nf ng h) = h.newEmpty := measuredEmpty_reading _ _ _
  have htime : ((p.take nf ng h.ng nowMs).sinceMs : ℤ) =
      (candidate (key (newReading nf ng h)) o (nowMs : ℤ)).2 := htake.2.2
  have hwait : settleMs ≤ elapsed nowMs (p.take nf ng h.ng nowMs).sinceMs ↔
      (settleMs : ℤ) ≤
        (nowMs : ℤ) - (candidate (key (newReading nf ng h)) o (nowMs : ℤ)).2 := by
    rw [← htime] at hle ⊢
    rw [← elapsed_eq (by exact_mod_cast hle) hnow]
    exact_mod_cast Iff.rfl
  unfold settleTail debounce
  rw [hempty]
  by_cases he : h.newEmpty = true
  · rw [if_pos he, if_pos he]
    exact ⟨rfl, clear_pends p⟩
  · rw [if_neg he, if_neg he]
    by_cases hw : settleMs ≤ elapsed nowMs (p.take nf ng h.ng nowMs).sinceMs
    · rw [if_pos hw, if_pos (hwait.mp hw)]
      exact ⟨rfl, clear_pends _⟩
    · rw [if_neg hw, if_neg fun hc => hw (hwait.mpr hc)]
      exact ⟨rfl, htake⟩

theorem freshnessSettle_eq (hp : Pends p o)
    (hsince : ∀ k t, o = some (k, t) → t ≤ (nowMs : ℤ)) (hnow : nowMs < 2 ^ 64) :
    (freshnessSettle nf pf ng pg h nowMs settleMs p).1 =
        (settleWater (newReading nf ng h) (some (oldReading pf pg h)) o (nowMs : ℤ)
          (settleMs : ℤ)).1 ∧
      Pends (freshnessSettle nf pf ng pg h nowMs settleMs p).2
        (settleWater (newReading nf ng h) (some (oldReading pf pg h)) o (nowMs : ℤ)
          (settleMs : ℤ)).2 := by
  have hempty : measuredEmpty (newReading nf ng h) = h.newEmpty := measuredEmpty_reading _ _ _
  have hnew : (newReading nf ng h).fresh.liters = known h.nf nf := rfl
  have hold : (oldReading pf pg h).fresh.liters = known h.pf pf := rfl
  unfold freshnessSettle settleWater
  by_cases hnf : h.nf = true
  · have htail := @settleTail_eq nf ng h nowMs settleMs p o hnf hp hsince hnow
    rw [hnew, known, if_pos hnf, if_neg (by simp [hnf]), hempty, Option.filter_some, hold]
    dsimp only
    by_cases hpf : h.pf = true
    · rw [if_neg (by simp [hpf]), known, if_pos hpf, Option.isSome_some, if_pos rfl]
      dsimp only
      rw [implausibleDrop_eq]
      by_cases hi : implausibleWaterDrop (newReading nf ng h) (oldReading pf pg h) = true
      · rw [if_pos hi, if_pos hi]
        exact ⟨rfl, clear_pends p⟩
      · rw [if_neg hi, if_neg hi]
        have hk := @key_eq_iff nf pf ng pg h hnf hpf
        by_cases hsame : nf = pf ∧ h.ng = h.pg ∧ (¬ h.ng = true ∨ ng = pg)
        · rw [if_pos hsame, if_pos (hk.mpr hsame)]
          exact ⟨rfl, clear_pends p⟩
        · rw [if_neg hsame, if_neg fun hc => hsame (hk.mp hc)]
          exact htail
    · rw [if_pos hpf, known, if_neg hpf, Option.isSome_none, if_neg Bool.false_ne_true]
      dsimp only
      by_cases hl : nf ≤ freshLatchMaxL ∧ ¬ h.newEmpty = true
      · have hl' : nf ≤ waterLatchMaxL ∧ ¬ h.newEmpty = true := hl
        rw [if_pos hl, if_pos hl']
        exact ⟨rfl, clear_pends p⟩
      · have hl' : ¬ (nf ≤ waterLatchMaxL ∧ ¬ h.newEmpty = true) := hl
        rw [if_neg hl, if_neg hl']
        exact htail
  · rw [hnew, known, if_neg hnf, if_pos hnf]
    exact ⟨rfl, clear_pends p⟩

end Call

/-- A call of `freshness_settle` in a run, where the candidate is passed on. -/
structure FreshCall where
  nf : ℤ
  pf : ℤ
  ng : ℤ
  pg : ℤ
  h : Have
  nowMs : ℕ

def FreshCall.call (c : FreshCall) : Call ℤ :=
  ⟨newReading c.nf c.ng c.h, some (oldReading c.pf c.pg c.h), c.nowMs⟩

def FreshCall.settle (settleMs : ℕ) (p : FreshPending) (c : FreshCall) : Bool × FreshPending :=
  freshnessSettle c.nf c.pf c.ng c.pg c.h c.nowMs settleMs p

/-- `*p` after the calls, from its zero initialisation. -/
def freshPendingAfter (settleMs : ℕ) (calls : List FreshCall) : FreshPending :=
  calls.foldl (fun p c => (c.settle settleMs p).2) ⟨0, 0, false, false, 0⟩

def freshAdopts (settleMs : ℕ) (before : List FreshCall) (c : FreshCall) : Bool :=
  (c.settle settleMs (freshPendingAfter settleMs before)).1

/-- A 64-bit clock that does not run backwards. -/
def Clock (calls : List FreshCall) : Prop :=
  calls.Pairwise (fun a b => a.nowMs ≤ b.nowMs) ∧ ∀ c ∈ calls, c.nowMs < 2 ^ 64

theorem Clock.since {settleMs : ℕ} {before : List FreshCall} {c : FreshCall}
    (h : Clock (before ++ [c])) :
    ∀ k t, pendingAfter (settleMs : ℤ) (before.map FreshCall.call) = some (k, t) →
      t ≤ (c.nowMs : ℤ) := by
  intro k t hp
  obtain ⟨a, m, b, hsplit, hm, -⟩ := pendingAfter_seen _ _ k t hp
  have hmem : m ∈ before.map FreshCall.call := by simp [hsplit]
  obtain ⟨x, hx, rfl⟩ := List.mem_map.mp hmem
  rw [← hm, show x.call.now = (x.nowMs : ℤ) from rfl]
  exact_mod_cast (List.pairwise_append.mp h.1).2.2 x hx c (by simp)

theorem freshPendingAfter_pends {settleMs : ℕ} {calls : List FreshCall} (h : Clock calls) :
    Pends (freshPendingAfter settleMs calls)
      (pendingAfter (settleMs : ℤ) (calls.map FreshCall.call)) := by
  induction calls using List.reverseRecOn with
  | nil => rfl
  | append_singleton before c ih =>
    have hbefore : Clock before :=
      ⟨(List.pairwise_append.mp h.1).1, fun x hx => h.2 x (by simp [hx])⟩
    rw [List.map_append, List.map_singleton, pendingAfter_concat, freshPendingAfter,
      List.foldl_concat, ← freshPendingAfter]
    exact (freshnessSettle_eq (ih hbefore) h.since (h.2 c (by simp))).2

theorem freshAdopts_eq {settleMs : ℕ} {before : List FreshCall} {c : FreshCall}
    (h : Clock (before ++ [c])) :
    freshAdopts settleMs before c =
      adopts (settleMs : ℤ) (before.map FreshCall.call) c.call := by
  have hbefore : Clock before :=
    ⟨(List.pairwise_append.mp h.1).1, fun x hx => h.2 x (by simp [hx])⟩
  exact (freshnessSettle_eq (freshPendingAfter_pends hbefore) h.since (h.2 c (by simp))).1

/-- A level is adopted once it has settled, and the latch value never: `settle_water` over any
clock, and `freshness_settle` over one that does not run backwards. -/
theorem settled_only {τ : Type} [Sub τ] [LE τ] [DecidableLE τ] :
    (∀ (settle : τ) before c, SettleRules (adopts settle before c) settle before c) ∧
    ∀ settleMs before c, Clock (before ++ [c]) →
      SettleRules (freshAdopts settleMs before c) (settleMs : ℤ) (before.map FreshCall.call)
        c.call :=
  ⟨adopts_rules, fun _ _ _ h => freshAdopts_eq h ▸ adopts_rules _ _ _⟩

end OpenCalifornia.Freshness.Firmware
