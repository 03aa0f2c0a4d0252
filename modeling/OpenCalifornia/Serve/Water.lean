import OpenCalifornia.Serve.Server

/-! # What the daemon shows of the water

The cached frame is interpreted anew at every request. It is the last frame that was read, so that
its level is the adopted one unless the last reading was held, and then it is not shown. -/

namespace OpenCalifornia.Serve
open Lib Lib.Bits Lib.Machine Control Freshness

theorem decode_get_isSome {func : Function} {f : Field} (hf : f ∈ func.stateFields)
    {raw : List Byte}
    (hfits : f.offset + f.width ≤ (toBits raw).length) : ((decode func raw).get f.name).isSome :=
  Dict.get_isSome_of_mem
    (List.mem_map.mpr ⟨f, List.mem_filter.mpr ⟨hf, decide_eq_true hfits⟩, rfl⟩)

theorem decode_get_none {func : Function} {k : String} {n : ℕ}
    (hends : ∀ f ∈ func.stateFields, f.name = k → n ≤ f.offset + f.width) {raw : List Byte}
    (hshort : (toBits raw).length < n) : (decode func raw).get k = none := by
  rw [Dict.get_eq_none]
  intro hk
  obtain ⟨kv, hkv, hname⟩ := List.mem_map.mp hk
  obtain ⟨f, hf, rfl⟩ := List.mem_map.mp hkv
  obtain ⟨hf, hfits⟩ := List.mem_filter.mp hf
  have hend := hends f hf hname
  have hle := of_decide_eq_true hfits
  omega

theorem tank_noLevel {unit level volume : Option ℕ} (h : level = none ∨ volume = none) :
    NoLevel (tank unit level volume) := by
  rcases h with rfl | rfl
  · exact ⟨rfl, rfl⟩
  · cases level <;> exact ⟨rfl, rfl⟩

theorem tank_liters_isSome {unit level volume : Option ℕ} (hl : level.isSome) (hv : volume.isSome) :
    (tank unit level volume).liters.isSome := by
  obtain ⟨l, rfl⟩ := Option.isSome_iff_exists.mp hl
  obtain ⟨v, rfl⟩ := Option.isSome_iff_exists.mp hv
  rw [tank]
  split_ifs <;> rfl

theorem frame_noLevel {raw : List Byte}
    (h : (Freshness.water (decode Control.water raw)).fresh.liters = none) :
    NoLevel (Freshness.water (decode Control.water raw)).fresh ∧
      NoLevel (Freshness.water (decode Control.water raw)).waste := by
  by_cases hlong : 24 ≤ (toBits raw).length
  · have hlevel : (⟨"FreshWaterLevel", 8, 8, none, none⟩ : Field) ∈ Control.water.stateFields := by
      decide
    have hvolume : (⟨"FreshWaterVolume", 16, 8, none, none⟩ : Field) ∈
        Control.water.stateFields := by
      decide
    have hsome : (Freshness.water (decode Control.water raw)).fresh.liters.isSome :=
      tank_liters_isSome (decode_get_isSome hlevel (le_trans (by decide) hlong))
        (decode_get_isSome hvolume hlong)
    rw [h] at hsome
    cases hsome
  · have hshort := Nat.not_le.mp hlong
    exact ⟨tank_noLevel (Or.inr (decode_get_none (by decide) hshort)),
      tank_noLevel (Or.inr (decode_get_none (by decide) (hshort.trans (by decide : 24 < 48))))⟩

/-- The water of a read is that of the cached frame, and a read without it leaves the frame. -/
theorem interpretFrames_water (raw : Dict (List Byte)) (last : Dict (Dict ℕ)) :
    (interpretFrames raw last).1.water = none ∧
        (interpretFrames raw last).2.get "water" = last.get "water" ∨
      ∃ data, (interpretFrames raw last).1.water =
      some (Freshness.water (decode Control.water data)) ∧
        (interpretFrames raw last).2.get "water" = some (decode Control.water data) := by
  suffices hfold : ∀ r : States × Dict (Dict ℕ),
      (r.1.water = none ∧ r.2.get "water" = last.get "water" ∨
        ∃ data, r.1.water = some (Freshness.water (decode Control.water data)) ∧
          r.2.get "water" = some (decode Control.water data)) →
      let r' := raw.foldl
        (fun r kv => (r.1.set kv.1 (decodeFrame last kv.1 kv.2),
          r.2.set kv.1 (decodeFrame last kv.1 kv.2))) r
      r'.1.water = none ∧ r'.2.get "water" = last.get "water" ∨
        ∃ data, r'.1.water = some (Freshness.water (decode Control.water data)) ∧
          r'.2.get "water" = some (decode Control.water data) from
    hfold ({}, last) (Or.inl ⟨rfl, rfl⟩)
  induction raw with
  | nil => exact fun r hr => hr
  | cons kv raw ih =>
    intro r hr
    obtain ⟨fn, data⟩ := kv
    refine ih _ ?_
    by_cases hfn : fn = "water"
    · subst hfn
      refine Or.inr ⟨data, ?_, ?_⟩
      · exact congrArg (some ∘ Freshness.water) (by rfl)
      · rw [Dict.get_set, if_pos rfl]
        rfl
    · simpa only [States.set, if_neg hfn, Dict.get_set] using hr

variable {τ : Type}

/-- What the server keeps agrees with what the settling rule said. -/
structure Agrees (s : Server τ) (past : Past) : Prop where
  good : s.waterGood = past.adopted.head?
  stale : s.waterStaleSince.isSome = past.held
  cached : past.adopted ≠ [] → (s.last.get "water").isSome
  live : past.held = false → ∀ d, s.last.get "water" = some d →
    (Freshness.water d).fresh.liters ≠ none → past.adopted.head? = some (Freshness.water d)
  frame : ∀ d, s.last.get "water" = some d → ∃ data, d = decode Control.water data

variable {s s' : Server τ} {past file : Past}

theorem Agrees.congr (h : Agrees s past) (hgood : s'.waterGood = s.waterGood)
    (hstale : s'.waterStaleSince = s.waterStaleSince)
    (hlast : s'.last.get "water" = s.last.get "water") :
    Agrees s' past where
  good := hgood.trans h.good
  stale := (congrArg Option.isSome hstale).trans h.stale
  cached := fun hne => hlast ▸ h.cached hne
  live := fun hheld d hd => h.live hheld d (hlast.symm.trans hd)
  frame := fun d hd => h.frame d (hlast.symm.trans hd)

theorem agrees_empty (hgood : s.waterGood = none) (hstale : s.waterStaleSince = none)
    (hlast : s.last = []) : Agrees s {} where
  good := hgood
  stale := congrArg Option.isSome hstale
  cached := fun hne => absurd rfl hne
  live := fun _ d hd => by
    rw [hlast] at hd
    cases hd
  frame := fun d hd => by
    rw [hlast] at hd
    cases hd

theorem forget_agrees (s : Server τ) (w : Bool) : Agrees (s.forgetUnitState w) {} := by
  cases w <;> exact agrees_empty rfl rfl rfl

theorem Agrees.served (h : Agrees s past) : ServedWater past s.state := by
  obtain ⟨hgood, hstale, hcached, hlive, hframe⟩ := h
  rw [Server.state]
  cases hlast : s.last.get "water" with
  | none =>
    have hadopted : past.adopted = [] := by
      by_contra hne
      have hsome := hcached hne
      rw [hlast] at hsome
      cases hsome
    refine ⟨?_, fun _ => ⟨by rw [hadopted]; rfl, ?_⟩, fun _ => ?_, fun _ => ?_⟩ <;>
    · intro x hx
      cases hx
  | some d =>
    cases hs : s.waterStaleSince with
    | none =>
      have hheld : past.held = false := by rw [← hstale, hs]; rfl
      refine ⟨?_, fun hheld' => absurd (hheld.symm.trans hheld') Bool.false_ne_true, ?_, ?_⟩
      · rintro x ⟨⟩ hlevel
        exact hlive hheld d hlast hlevel
      · rintro - x ⟨⟩
        exact ⟨rfl, rfl⟩
      · rintro hadopted x ⟨⟩
        obtain ⟨data, rfl⟩ := hframe d hlast
        refine frame_noLevel (by_contra fun hlevel => ?_)
        have hhead := hlive hheld _ hlast hlevel
        rw [hadopted] at hhead
        cases hhead
    | some since =>
      have hheld : past.held = true := by rw [← hstale, hs]; rfl
      cases hg : s.waterGood with
      | none =>
        refine ⟨?_, fun _ => ⟨by rw [← hgood, hg]; rfl, ?_⟩, fun _ => ?_, fun _ => ?_⟩ <;>
        · intro x hx
          cases hx
      | some good =>
        refine ⟨?_, fun _ => ⟨by rw [← hgood, hg]; rfl, ?_⟩,
          fun hlive' => absurd (hheld.symm.trans hlive') (by decide), ?_⟩
        · rintro x ⟨⟩ -
          exact hgood.symm.trans hg
        · rintro x ⟨⟩
          exact ⟨rfl, rfl⟩
        · intro hadopted
          rw [hgood, hadopted] at hg
          cases hg

@[simp] theorem saveLast_last (s : Server τ) (w : Bool) : (s.saveLast w).last = s.last := by
  cases w <;> rfl

@[simp] theorem saveLast_good (s : Server τ) (w : Bool) :
    (s.saveLast w).waterGood = s.waterGood := by
  cases w <;> rfl

@[simp] theorem saveLast_stale (s : Server τ) (w : Bool) :
    (s.saveLast w).waterStaleSince = s.waterStaleSince := by
  cases w <;> rfl

theorem Agrees.save (h : Agrees s past) (w : Bool) : Agrees (s.saveLast w) past :=
  h.congr (saveLast_good s w) (saveLast_stale s w) (by rw [saveLast_last])

theorem Agrees.load (h : Agrees s past) (addr : String) :
    Agrees (loadLast addr (s.saveLast true).stateCache true : Server τ) past := by
  refine h.congr rfl rfl ?_
  exact (Dict.get_filter (fun fn => (funcs.find? (·.name = fn)).isSome) s.last "water").trans
    (if_pos (by decide))

/-- What a step leaves in the file: it is written anew, or left as it was. -/
def Filed (o : Out) (s s' : Server τ) : Prop :=
  s'.stateCache = if o.saved then (s'.saveLast true).stateCache else s.stateCache

theorem filed_save (s : Server τ) (w : Bool) (o : Option Shown) :
    Filed { fanned := o, saved := w } s (s.saveLast w) := by
  cases w <;> rfl

theorem agrees_file {o : Out} (hfiled : Filed o s s') (hpast : Agrees s' past)
    (hfile : Agrees (loadLast s.addr s.stateCache true : Server τ) file) :
    Agrees (loadLast s'.addr s'.stateCache true : Server τ) (if o.saved then past else file) := by
  rw [hfiled]
  cases o.saved with
  | true => exact hpast.load s'.addr
  | false =>
    refine hfile.congr ?_ ?_ ?_ <;>
    · rw [if_neg Bool.false_ne_true, loadLast, loadLast]
      cases s.stateCache <;> rfl

theorem publish_filed (s : Server τ) (states : States) (newLast : Dict (Dict ℕ)) (p : Poll τ) :
    Filed (s.publish states newLast p).1 s (s.publish states newLast p).2 := by
  rw [Server.publish]
  split_ifs
  · rfl
  · exact filed_save _ p.written _

theorem publish_fanned (s : Server τ) (states : States) (newLast : Dict (Dict ℕ)) (p : Poll τ) :
    (s.publish states newLast p).1.fanned = fanOut states := by
  rw [Server.publish]
  split_ifs <;> rfl

theorem Agrees.publish {states : States} {newLast : Dict (Dict ℕ)}
    (hnew : Agrees { s with last := newLast } past) (hold : states.isEmpty = true → Agrees s past)
    (p : Poll τ) : Agrees (s.publish states newLast p).2 past := by
  rw [Server.publish]
  split_ifs with hempty
  · exact hold hempty
  · have hts : Agrees { s with last := newLast, lastOkTs := some p.okTs } past :=
      hnew.congr rfl rfl rfl
    exact hts.save p.written

theorem fanned_none : FannedWater past none := by
  refine ⟨?_, ?_, fun _ => ?_⟩ <;>
  · intro x hx
    cases hx

theorem fanned_filter {w : Water} (hlevel : w.fresh.liters ≠ none → past.adopted.head? = some w)
    (hcold : past.adopted = [] → NoLevel w.fresh ∧ NoLevel w.waste) {states : States}
    (hstates : states.water = some w) : FannedWater past (fanOut states) := by
  rw [fanOut, hstates, Option.filter_some]
  split_ifs
  · refine ⟨?_, ?_, ?_⟩
    · rintro x ⟨⟩
      exact hlevel
    · rintro x ⟨⟩
      exact ⟨rfl, rfl⟩
    · rintro hadopted x ⟨⟩
      exact hcold hadopted
  · exact fanned_none

section

variable {states : States} {newLast : Dict (Dict ℕ)} {data : List Byte}

theorem agrees_noLevel (h : Agrees s past)
    (hnew : states.water.filter (·.fresh.liters.isSome) = none)
    (hread : states.water = none ∧ newLast.get "water" = s.last.get "water" ∨
      ∃ data, states.water = some (Freshness.water (decode Control.water data)) ∧
        newLast.get "water" = some (decode Control.water data)) (p : Poll τ) :
    Agrees (s.publish states newLast p).2 past ∧
      FannedWater past (s.publish states newLast p).1.fanned := by
  rw [publish_fanned]
  rcases hread with ⟨hnone, hlast⟩ | ⟨data, hsome, hlast⟩
  · have hcache : Agrees { s with last := newLast } past := h.congr rfl rfl hlast
    refine ⟨hcache.publish (fun _ => h) p, ?_⟩
    rw [fanOut, hnone]
    exact fanned_none
  · have hlevel : (Freshness.water (decode Control.water data)).fresh.liters = none := by
      rw [hsome, Option.filter_eq_none_iff] at hnew
      exact Option.not_isSome_iff_eq_none.mp (hnew _ rfl)
    refine ⟨Agrees.publish ?_ (fun _ => h) p,
      fanned_filter (fun hne => absurd hlevel hne) (fun _ => frame_noLevel hlevel) hsome⟩
    refine ⟨h.good, h.stale, fun _ => hlast ▸ rfl, ?_, fun d hd => ⟨data, ?_⟩⟩
    · intro _ d hd hne
      obtain rfl := Option.some.inj (hlast.symm.trans hd)
      exact absurd hlevel hne
    · exact Option.some.inj (hd.symm.trans hlast)

theorem agrees_adopt (hgood : s.waterGood = some (Freshness.water (decode Control.water data)))
    (hstale : s.waterStaleSince = none)
    (hwater : states.water = some (Freshness.water (decode Control.water data)))
    (hlast : newLast.get "water" = some (decode Control.water data)) (before : List Water)
    (p : Poll τ) :
    Agrees (s.publish states newLast p).2
        { adopted := Freshness.water (decode Control.water data) :: before } ∧
      FannedWater { adopted := Freshness.water (decode Control.water data) :: before }
        (s.publish states newLast p).1.fanned := by
  rw [publish_fanned]
  refine ⟨Agrees.publish ?_ (fun hempty => ?_) p,
    fanned_filter (fun _ => rfl) (fun hnil => absurd hnil (List.cons_ne_nil _ _)) hwater⟩
  · refine ⟨hgood, congrArg Option.isSome hstale, fun _ => hlast ▸ rfl, ?_, fun d hd => ⟨data, ?_⟩⟩
    · intro _ d hd _
      obtain rfl := Option.some.inj (hlast.symm.trans hd)
      rfl
    · exact Option.some.inj (hd.symm.trans hlast)
  · rw [States.isEmpty, hwater] at hempty
    exact absurd (of_decide_eq_true hempty).1 Bool.false_ne_true

theorem agrees_hold (h : Agrees s { past with held := true })
    (hlast : newLast.get "water" = some (decode Control.water data))
    (hwater : states.water = s.waterGood) (p : Poll τ) :
    Agrees (s.publish states newLast p).2 { past with held := true } ∧
      FannedWater { past with held := true } (s.publish states newLast p).1.fanned := by
  rw [publish_fanned]
  refine ⟨Agrees.publish ?_ (fun _ => h) p, ?_⟩
  · refine ⟨h.good, h.stale, fun _ => hlast ▸ rfl,
      fun hlive => absurd hlive.symm Bool.false_ne_true,
      fun d hd => ⟨data, ?_⟩⟩
    exact Option.some.inj (hd.symm.trans hlast)
  · cases hgood : s.waterGood with
    | none =>
      rw [fanOut, hwater, hgood]
      exact fanned_none
    | some good =>
      have hhead := h.good.symm.trans hgood
      refine fanned_filter (fun _ => hhead) (fun hnil => ?_) (hwater.trans hgood)
      rw [show past.adopted = [] from hnil] at hhead
      cases hhead

end

variable [Sub τ] [LE τ] [DecidableLE τ] {settle : τ}

section

variable {states : States} {now : τ} {wall : Epoch} {staleFrom : Option Epoch} {new : Water}

theorem guardWater_none (h : states.water.filter (·.fresh.liters.isSome) = none) :
    guardWater s states now wall settle staleFrom = (none, s, states) := by
  rw [guardWater, h]

theorem guardWater_adopt (h : states.water.filter (·.fresh.liters.isSome) = some new)
    (hadopt : (settleWater new s.waterGood s.waterPending now settle).1 = true) :
    guardWater s states now wall settle staleFrom =
      (some true, { s with
        waterPending := (settleWater new s.waterGood s.waterPending now settle).2
        waterGood := some new
        waterMeasuredAt := some wall
        waterStaleSince := none }, states) := by
  rw [guardWater, h]
  dsimp only
  rw [if_pos hadopt]

theorem guardWater_hold (h : states.water.filter (·.fresh.liters.isSome) = some new)
    (hhold : ¬ (settleWater new s.waterGood s.waterPending now settle).1 = true) :
    guardWater s states now wall settle staleFrom =
      (some false, { s with
        waterPending := (settleWater new s.waterGood s.waterPending now settle).2
        waterStaleSince := some ((s.waterStaleSince.or staleFrom).getD wall) },
        { states with water := s.waterGood }) := by
  rw [guardWater, h]
  dsimp only
  rw [if_neg hhold]

end

theorem poll_agrees (h : Agrees s past) (p : Poll τ) :
    Agrees (s.poll settle p).2 (past.poll settle s p) ∧
      FannedWater (past.poll settle s p) (s.poll settle p).1.fanned := by
  have hread := interpretFrames_water p.raw s.last
  rw [Server.poll, Past.poll, reading]
  generalize interpretFrames p.raw s.last = r at hread
  obtain ⟨states, newLast⟩ := r
  dsimp only at hread ⊢
  cases hnew : states.water.filter (·.fresh.liters.isSome) with
  | none =>
    rw [guardWater_none hnew]
    exact agrees_noLevel h hnew hread p
  | some w =>
    obtain ⟨hwater, -⟩ := Option.filter_eq_some_iff.mp hnew
    rcases hread with ⟨hnone, -⟩ | ⟨data, hsome, hlast⟩
    · rw [hnone] at hwater
      cases hwater
    · obtain rfl := Option.some.inj (hwater.symm.trans hsome)
      dsimp only
      by_cases hadopt : (settleWater (Freshness.water (decode Control.water data)) s.waterGood
        s.waterPending p.now settle).1 = true
      · rw [adopts, if_pos hadopt, guardWater_adopt hnew hadopt]
        exact agrees_adopt rfl rfl hwater hlast past.adopted p
      · rw [adopts, if_neg hadopt, guardWater_hold hnew hadopt]
        refine agrees_hold ?_ hlast rfl p
        exact ⟨h.good, rfl, h.cached, fun hlive => absurd hlive.symm Bool.false_ne_true, h.frame⟩

theorem poll_filed (s : Server τ) (p : Poll τ) :
    Filed (s.poll settle p).1 s (s.poll settle p).2 := by
  have hguard : ∀ states : States, (guardWater s states p.now p.wall settle
      s.lastOkTs).2.1.stateCache = s.stateCache := by
    intro states
    cases hnew : states.water.filter (·.fresh.liters.isSome) with
    | none => rw [guardWater_none hnew]
    | some w =>
      by_cases hadopt : (settleWater w s.waterGood s.waterPending p.now settle).1 = true
      · rw [guardWater_adopt hnew hadopt]
      · rw [guardWater_hold hnew hadopt]
  have hfiled := publish_filed (guardWater s (interpretFrames p.raw s.last).1 p.now p.wall settle
    s.lastOkTs).2.1 (guardWater s (interpretFrames p.raw s.last).1 p.now p.wall settle
    s.lastOkTs).2.2 (interpretFrames p.raw s.last).2 p
  rw [Filed, hguard] at hfiled
  exact hfiled

variable {op : Op τ} {o : Out} {addr : String} {tr : List (Record (Op τ) Out (Server τ))}

theorem step_filed (hs : step settle op s = some (o, s')) : Filed o s s' := by
  cases op with
  | poll p =>
    obtain ⟨rfl, rfl⟩ := Prod.mk.inj (Option.some.inj hs)
    exact poll_filed s p
  | autoCamper w =>
    obtain ⟨rfl, rfl⟩ := Prod.mk.inj (Option.some.inj hs)
    exact filed_save s w none
  | bonded address w =>
    rw [step] at hs
    split_ifs at hs
    · obtain ⟨rfl, rfl⟩ := Prod.mk.inj (Option.some.inj hs)
      cases w <;> rfl
    · obtain ⟨rfl, rfl⟩ := Prod.mk.inj (Option.some.inj hs)
      rfl
  | reset w =>
    obtain ⟨rfl, rfl⟩ := Prod.mk.inj (Option.some.inj hs)
    cases w <;> rfl
  | restart readable =>
    obtain ⟨rfl, rfl⟩ := Prod.mk.inj (Option.some.inj hs)
    show (loadLast s.addr s.stateCache readable : Server τ).stateCache = s.stateCache
    rw [loadLast]
    cases s.stateCache.filter fun _ => readable <;> rfl

theorem step_agrees (h : Agrees s past)
    (hfile : Agrees (loadLast s.addr s.stateCache true : Server τ) file)
    (hs : step settle op s = some (o, s')) : Agrees s' (past.next settle file s op) := by
  cases op with
  | poll p =>
    obtain ⟨rfl, rfl⟩ := Prod.mk.inj (Option.some.inj hs)
    exact (poll_agrees h p).1
  | autoCamper w =>
    obtain ⟨rfl, rfl⟩ := Prod.mk.inj (Option.some.inj hs)
    exact h.save w
  | bonded address w =>
    rw [step] at hs
    rw [Past.next]
    split_ifs at hs ⊢
    · obtain ⟨rfl, rfl⟩ := Prod.mk.inj (Option.some.inj hs)
      exact (forget_agrees s w).congr rfl rfl rfl
    · obtain ⟨rfl, rfl⟩ := Prod.mk.inj (Option.some.inj hs)
      exact h
  | reset w =>
    obtain ⟨rfl, rfl⟩ := Prod.mk.inj (Option.some.inj hs)
    exact forget_agrees s w
  | restart readable =>
    obtain ⟨rfl, rfl⟩ := Prod.mk.inj (Option.some.inj hs)
    cases readable with
    | true => exact hfile
    | false =>
      have hunread : loadLast s.addr s.stateCache false =
          ({ addr := s.addr, stateCache := s.stateCache } : Server τ) := by
        cases hc : s.stateCache <;> rfl
      exact hunread ▸ agrees_empty rfl rfl rfl

theorem step_fanned (h : Agrees s past) (hs : step settle op s = some (o, s')) :
    FannedWater (past.next settle file s op) o.fanned := by
  cases op with
  | poll p =>
    obtain ⟨rfl, rfl⟩ := Prod.mk.inj (Option.some.inj hs)
    exact (poll_agrees h p).2
  | bonded address w =>
    rw [step] at hs
    split_ifs at hs <;>
    · obtain ⟨rfl, rfl⟩ := Prod.mk.inj (Option.some.inj hs)
      exact fanned_none
  | autoCamper w | reset w | restart readable =>
    obtain ⟨rfl, rfl⟩ := Prod.mk.inj (Option.some.inj hs)
    exact fanned_none

theorem run_agrees (h : Run (step settle) (boot addr) tr s) :
    Agrees s (pasts settle tr).1 ∧
      Agrees (loadLast s.addr s.stateCache true : Server τ) (pasts settle tr).2 := by
  induction h with
  | nil => exact ⟨agrees_empty rfl rfl rfl, agrees_empty rfl rfl rfl⟩
  | cons hr hs ih =>
    obtain ⟨hpast, hfile⟩ := ih
    have hnext := step_agrees hpast hfile hs
    exact ⟨hnext, agrees_file (step_filed hs) hnext hfile⟩

/-- At every moment of a run the web API shows no level of fresh water but the one that was adopted
last, a held one with `stale` on both tanks, and no level before the first adoption. Every poll fans
out no other level, none before the first adoption, and a held one without a flag. -/
theorem water_served (h : Run (step settle) (boot addr) tr s) :
    ServedWater (pasts settle tr).1 s.state ∧
      ∀ newer r older, tr = newer ++ r :: older →
        FannedWater (pasts settle (r :: older)).1 r.out.fanned := by
  refine ⟨(run_agrees h).1.served, fun newer r older htr => ?_⟩
  subst htr
  obtain ⟨hrun, hs⟩ := h.split newer
  exact step_fanned (run_agrees hrun).1 hs

def fullFrame : List Byte := [0x03, 0x14, 0x1d, 0x01, 0x00, 0x16]

/-- What the unit reports while it does not measure. -/
def latchFrame : List Byte := [0x03, 0x01, 0x1d, 0x01, 0x00, 0x16]

def readAt (frame : List Byte) (now : ℤ) : Op ℤ :=
  .poll ⟨[("water", frame)], now, ⟨1000, by decide⟩, ⟨1000, by decide⟩, true⟩

/-- Twenty litres settle, and then the unit no longer measures. -/
def heldOps : List (Op ℤ) := [readAt latchFrame 60, readAt fullFrame 30, readAt fullFrame 0]

theorem water_served_held : ∃ tr s, Run (step (5 : ℤ)) (boot "unit") tr s ∧
    s.state.map (·.water.fresh.liters) = some (some 20) ∧
    ∀ x, s.state = some x → x.freshStale = true ∧ x.wasteStale = true := by
  have hview : (exec (step (5 : ℤ)) (boot "unit") heldOps).map
      (fun x => ((pasts (5 : ℤ) x.1).1.held, x.2.state.map (·.water.fresh.liters))) =
      some (true, some (some 20)) := by decide
  obtain ⟨tr, s, -, hrun, -, hview⟩ := run_of_view hview
  obtain ⟨hheld, hlevel⟩ := Prod.mk.inj hview
  exact ⟨tr, s, hrun, hlevel, ((water_served hrun).1.held hheld).2⟩

/-- A held level goes out to MQTT and InfluxDB without a flag. And where the state file cannot be
written when the unit is let go, a restart finds the level of that unit again. -/
theorem held_unflagged_and_found_again :
    (∃ r older s, Run (step (5 : ℤ)) (boot "unit") (r :: older) s ∧
      (pasts (5 : ℤ) (r :: older)).1.held = true ∧
      ∃ x, r.out.fanned = some x ∧ x.water.fresh.liters = some 20 ∧ x.freshStale = false ∧
        x.wasteStale = false) ∧
    ∃ r r' older s, Run (step (5 : ℤ)) (boot "unit") (r :: r' :: older) s ∧ r'.inp = .reset false ∧
      r.inp = .restart true ∧ ∃ x, s.state = some x ∧ x.water.fresh.liters = some 20 := by
  constructor
  · have hview : (exec (step (5 : ℤ)) (boot "unit") heldOps).map
        (fun x => ((pasts (5 : ℤ) x.1).1.held, (x.1.head?.bind (·.out.fanned)).map fun y =>
          (y.water.fresh.liters, y.freshStale, y.wasteStale))) =
        some (true, some (some 20, false, false)) := by decide
    obtain ⟨tr, s, -, hrun, hinp, hview⟩ := run_of_view hview
    obtain ⟨r, older, rfl, -, -⟩ := List.map_eq_cons_iff.mp hinp
    simp only [Prod.mk.injEq, List.head?_cons, Option.bind_some, Option.map_eq_some_iff] at hview
    obtain ⟨hheld, x, hx, hlevel, hfresh, hwaste⟩ := hview
    exact ⟨r, older, s, hrun, hheld, x, hx, hlevel, hfresh, hwaste⟩
  · have hview : (exec (step (5 : ℤ)) (boot "unit") (.restart true :: .reset false :: heldOps)).map
        (fun x => x.2.state.map (·.water.fresh.liters)) = some (some (some 20)) := by decide
    obtain ⟨tr, s, -, hrun, hinp, hview⟩ := run_of_view hview
    obtain ⟨r, rest, rfl, hr, hrest⟩ := List.map_eq_cons_iff.mp hinp
    obtain ⟨r', older, rfl, hr', -⟩ := List.map_eq_cons_iff.mp hrest
    obtain ⟨x, hx, hlevel⟩ := Option.map_eq_some_iff.mp hview
    exact ⟨r, r', older, s, hrun, hr', hr, x, hx, hlevel⟩

end OpenCalifornia.Serve
