import OpenCalifornia.Freshness.Water

/-! # Only settled levels are adopted

A pending candidate is the pair that every call since its first one has seen. So an adopted level
is the baseline's, comes with the unit's empty alarm, or has been seen for the settle time. -/

namespace OpenCalifornia.Freshness

variable {τ : Type}

/-- One call of `settle_water`. The baseline is the caller's. -/
structure Call (τ : Type) where
  new : Water
  good : Option Water
  now : τ

/-- The calls end in a stretch that begins at `t` and sees `k` throughout. -/
def SeenSince (calls : List (Call τ)) (k : Key) (t : τ) : Prop :=
  ∃ a m b, calls = a ++ m :: b ∧ m.now = t ∧ ∀ x ∈ m :: b, key x.new = k

theorem SeenSince.concat {calls : List (Call τ)} {k : Key} {t : τ} (h : SeenSince calls k t)
    {c : Call τ} (hc : key c.new = k) : SeenSince (calls ++ [c]) k t := by
  obtain ⟨a, m, b, rfl, hm, hk⟩ := h
  refine ⟨a, m, b ++ [c], by simp, hm, ?_⟩
  intro x hx
  rw [← List.cons_append, List.mem_append, List.mem_singleton] at hx
  cases hx with
  | inl hx => exact hk x hx
  | inr hx => exact hx ▸ hc

theorem SeenSince.start (calls : List (Call τ)) (c : Call τ) :
    SeenSince (calls ++ [c]) (key c.new) c.now :=
  ⟨calls, c, [], rfl, rfl, by simp⟩

theorem candidate_seen {before : List (Call τ)} {pending : Option (Key × τ)}
    (h : ∀ k t, pending = some (k, t) → SeenSince before k t) (c : Call τ) :
    (candidate (key c.new) pending c.now).1 = key c.new ∧
      SeenSince (before ++ [c]) (key c.new) (candidate (key c.new) pending c.now).2 := by
  unfold candidate
  cases pending with
  | none => exact ⟨rfl, SeenSince.start before c⟩
  | some p =>
    dsimp only
    by_cases hp : p.1 = key c.new
    · rw [if_pos hp]
      exact ⟨hp, hp ▸ (h p.1 p.2 rfl).concat hp.symm⟩
    · rw [if_neg hp]
      exact ⟨rfl, SeenSince.start before c⟩

variable [Sub τ] [LE τ] [DecidableLE τ]

/-- The candidate that the calls so far have passed on. -/
def pendingAfter (settle : τ) (calls : List (Call τ)) : Option (Key × τ) :=
  calls.foldl (fun pending c => (settleWater c.new c.good pending c.now settle).2) none

/-- Whether a call after these adopts its reading. -/
def adopts (settle : τ) (before : List (Call τ)) (c : Call τ) : Bool :=
  (settleWater c.new c.good (pendingAfter settle before) c.now settle).1

theorem settleWater_cases (new : Water) (good : Option Water) (pending : Option (Key × τ))
    (now settle : τ) :
    (settleWater new good pending now settle).2 = none ∨
      (settleWater new good pending now settle) = debounce new pending now settle := by
  unfold settleWater
  cases new.fresh.liters with
  | none => exact Or.inl rfl
  | some nf =>
    cases good.filter (·.fresh.liters.isSome) with
    | none =>
      by_cases h : nf ≤ waterLatchMaxL ∧ ¬ measuredEmpty new
      · simp only [if_pos h, true_or]
      · simp only [if_neg h, or_true]
    | some good =>
      by_cases h : implausibleWaterDrop new good = true
      · simp only [h, if_true, true_or]
      · by_cases hk : key new = key good
        · simp only [h, Bool.false_eq_true, if_false, if_pos hk, true_or]
        · simp only [h, Bool.false_eq_true, if_false, if_neg hk, or_true]

theorem pendingAfter_concat (settle : τ) (before : List (Call τ)) (c : Call τ) :
    pendingAfter settle (before ++ [c]) =
      (settleWater c.new c.good (pendingAfter settle before) c.now settle).2 := by
  simp [pendingAfter]

theorem pendingAfter_seen (settle : τ) (calls : List (Call τ)) :
    ∀ k t, pendingAfter settle calls = some (k, t) → SeenSince calls k t := by
  induction calls using List.reverseRecOn with
  | nil =>
    intro k t h
    cases h
  | append_singleton before c ih =>
    intro k t h
    rw [pendingAfter_concat] at h
    cases settleWater_cases c.new c.good (pendingAfter settle before) c.now settle with
    | inl hnone =>
      rw [hnone] at h
      cases h
    | inr hdeb =>
      obtain ⟨hk, hseen⟩ := candidate_seen ih c
      rw [hdeb, debounce] at h
      by_cases he : measuredEmpty c.new = true
      · simp only [he, if_true, reduceCtorEq] at h
      · by_cases hs : settle ≤ c.now - (candidate (key c.new) (pendingAfter settle before) c.now).2
        · simp only [he, Bool.false_eq_true, if_false, if_pos hs, reduceCtorEq] at h
        · simp only [he, Bool.false_eq_true, if_false, if_neg hs, Option.some.injEq] at h
          rw [h] at hk hseen
          rw [show k = key c.new from hk]
          exact hseen

/-- The level is the baseline's. -/
def AtBaseline (c : Call τ) : Prop := ∃ good, c.good = some good ∧ key c.new = key good

/-- The pair of the call has been seen for the settle time, at every call since. -/
def Settled (settle : τ) (before : List (Call τ)) (c : Call τ) : Prop :=
  ∃ a m b, before ++ [c] = a ++ m :: b ∧ settle ≤ c.now - m.now ∧
    ∀ x ∈ m :: b, key x.new = key c.new

theorem adopts_cases {settle : τ} {before : List (Call τ)} {c : Call τ}
    (hlevel : c.new.fresh.liters ≠ none) (h : adopts settle before c = true) :
    AtBaseline c ∨ measuredEmpty c.new = true ∨ Settled settle before c := by
  have hdeb : (debounce c.new (pendingAfter settle before) c.now settle).1 = true →
      measuredEmpty c.new = true ∨ Settled settle before c := by
    intro hd
    unfold debounce at hd
    by_cases he : measuredEmpty c.new = true
    · exact Or.inl he
    · right
      obtain ⟨-, a, m, b, hsplit, hm, hk⟩ := candidate_seen (pendingAfter_seen settle before) c
      by_cases hs : settle ≤ c.now - (candidate (key c.new) (pendingAfter settle before) c.now).2
      · exact ⟨a, m, b, hsplit, hm ▸ hs, hk⟩
      · simp only [he, Bool.false_eq_true, if_false, if_neg hs] at hd
  unfold adopts settleWater at h
  cases hnf : c.new.fresh.liters with
  | none => exact absurd hnf hlevel
  | some nf =>
    rw [hnf] at h
    dsimp only at h
    cases hg : c.good.filter (·.fresh.liters.isSome) with
    | none =>
      rw [hg] at h
      dsimp only at h
      by_cases hl : nf ≤ waterLatchMaxL ∧ ¬ measuredEmpty c.new
      · rw [if_pos hl] at h
        cases h
      · rw [if_neg hl] at h
        exact Or.inr (hdeb h)
    | some good =>
      rw [hg] at h
      dsimp only at h
      have hgood : c.good = some good := (Option.filter_eq_some_iff.mp hg).1
      by_cases hi : implausibleWaterDrop c.new good = true
      · rw [if_pos hi] at h
        cases h
      · rw [if_neg hi] at h
        by_cases hk : key c.new = key good
        · exact Or.inl ⟨good, hgood, hk⟩
        · rw [if_neg hk] at h
          exact Or.inr (hdeb h)

theorem implausibleWaterDrop_latch {new good : Water} {nf gf : ℤ}
    (hnf : new.fresh.liters = some nf) (hgf : good.fresh.liters = some gf) (hne : nf ≠ gf)
    (hle : nf ≤ waterLatchMaxL) (he : ¬ measuredEmpty new)
    (hgrey : new.waste.liters = good.waste.liters ∨ new.waste.liters = none ∨
      good.waste.liters = none) : implausibleWaterDrop new good = true := by
  have hno : ¬ (nf = gf ∨ nf > waterLatchMaxL) := by omega
  unfold implausibleWaterDrop
  rw [hnf, hgf]
  dsimp only
  rw [if_neg he, if_neg hno]
  cases hng : new.waste.liters with
  | none => rfl
  | some ng =>
    cases hpg : good.waste.liters with
    | none => rfl
    | some pg =>
      rw [hng, hpg] at hgrey
      simpa using hgrey

theorem not_adopts_latch {settle : τ} {before : List (Call τ)} {c : Call τ} {good : Water}
    {nf gf : ℤ} (hnf : c.new.fresh.liters = some nf) (hgood : c.good = some good)
    (hgf : good.fresh.liters = some gf) (hne : nf ≠ gf) (hle : nf ≤ waterLatchMaxL)
    (he : ¬ measuredEmpty c.new)
    (hgrey : c.new.waste.liters = good.waste.liters ∨ c.new.waste.liters = none ∨
      good.waste.liters = none) : adopts settle before c = false := by
  have hfilter : c.good.filter (·.fresh.liters.isSome) = some good := by
    rw [hgood, Option.filter_some, hgf]
    rfl
  unfold adopts settleWater
  rw [hnf, hfilter]
  dsimp only
  rw [if_pos (implausibleWaterDrop_latch hnf hgf hne hle he hgrey)]

theorem not_adopts_cold {settle : τ} {before : List (Call τ)} {c : Call τ} {nf : ℤ}
    (hnf : c.new.fresh.liters = some nf) (hcold : c.good.bind (·.fresh.liters) = none)
    (hle : nf ≤ waterLatchMaxL) (he : ¬ measuredEmpty c.new) :
    adopts settle before c = false := by
  have hfilter : c.good.filter (·.fresh.liters.isSome) = none := by
    cases hgood : c.good with
    | none => rfl
    | some good =>
      rw [hgood, Option.bind_some] at hcold
      rw [Option.filter_some, hcold]
      rfl
  unfold adopts settleWater
  rw [hnf, hfilter]
  dsimp only
  rw [if_pos ⟨hle, he⟩]

/-- What an answer to a call may say, whatever the calls before it. -/
structure SettleRules (answer : Bool) (settle : τ) (before : List (Call τ)) (c : Call τ) :
    Prop where
  adopted : c.new.fresh.liters ≠ none → answer = true →
    AtBaseline c ∨ measuredEmpty c.new = true ∨ Settled settle before c
  latch : ∀ good nf gf, c.new.fresh.liters = some nf → c.good = some good →
    good.fresh.liters = some gf → nf ≠ gf → nf ≤ waterLatchMaxL → ¬ measuredEmpty c.new →
    (c.new.waste.liters = good.waste.liters ∨ c.new.waste.liters = none ∨
      good.waste.liters = none) → answer = false
  cold : ∀ nf, c.new.fresh.liters = some nf → c.good.bind (·.fresh.liters) = none →
    nf ≤ waterLatchMaxL → ¬ measuredEmpty c.new → answer = false

theorem adopts_rules (settle : τ) (before : List (Call τ)) (c : Call τ) :
    SettleRules (adopts settle before c) settle before c where
  adopted := adopts_cases
  latch := fun _ _ _ hnf hgood hgf hne hle he hgrey =>
    not_adopts_latch hnf hgood hgf hne hle he hgrey
  cold := fun _ hnf hcold hle he => not_adopts_cold hnf hcold hle he

end OpenCalifornia.Freshness
