import OpenCalifornia.Session.Calls
import OpenCalifornia.Session.Wire

/-! # Reads are attributed to who asked

Every function of the session keeps the wire's rules, from a state between two calls to a state
between two calls, as long as only the reads of a pass are completed inside their own call. -/

namespace OpenCalifornia.Session
open Lib Lib.Bits Lib.Machine Control.Firmware

variable {w₀ w : Wire} {s : State} {e : Env} {v : Option ℤ} {char : ℕ} {status : ℤ}
  {data : List Byte}

theorem restSet_part (s : State) (on : Bool) : (s.restSet on).part = s.part := by
  unfold State.restSet
  dsimp only
  split_ifs <;> rfl

theorem probeEnd_false_part (s : State) (e : Env) : (s.probeEnd e false).part = s.part := by
  unfold State.probeEnd
  cases hr : s.rest <;> simp [State.part]

theorem scheduleReconnect_part (s : State) (e : Env) : (s.scheduleReconnect e).part = s.part := by
  unfold State.scheduleReconnect
  dsimp only
  split_ifs <;> rfl

theorem restAgain_part (s : State) (e : Env) : (s.restAgain e).2.part = s.part := by
  obtain hr | ⟨-, hr⟩ := restAgain_cases s e
  · rw [hr]
  · rw [hr, restSet_part]

theorem afterLoss_part (s : State) (e : Env) (why : String) (status : ℤ) :
    (s.afterLoss e why status).part = s.part := by
  unfold State.afterLoss
  dsimp only
  rw [scheduleReconnect_part]
  split_ifs
  · exact restAgain_part s e
  · exact (restSet_part _ _).trans (restAgain_part s e)
  · exact restAgain_part s e

theorem connectNow_part (hl : s.link = .down) (e : Env) : (s.connectNow e).part = s.part := by
  unfold State.connectNow
  dsimp only
  set s₁ : State := s.act (.connect s.now (s.rest ∨ s.mode = .off) s.probe) with hs₁
  have h₁ : s₁.part = s.part := act_plain rfl
  have hup : s₁.part.up = false := by
    rw [h₁]
    exact decide_eq_false (by rw [hl]; rintro ⟨⟩)
  split_ifs
  · rw [← h₁]
    exact congrArg (fun up => { s₁.part with up := up }) hup.symm
  · rw [scheduleReconnect_part, restAgain_part, probeEnd_false_part]
    exact h₁
  · rw [scheduleReconnect_part, restAgain_part]
    exact h₁

theorem linkClear_wire (s : State) : s.linkClear.part.wire = { frames := s.part.frames } := by
  unfold State.linkClear
  split_ifs <;> rfl

theorem wire_of_ne_up (hl : s.link ≠ .up) : s.part.wire = { frames := s.part.frames } :=
  congrArg (fun up => ({ up := up, frames := s.part.frames } : Wire)) (decide_eq_false hl)

theorem Losable.linkClear (h : Losable w₀ s.part) : Tidy w₀ s.linkClear.part := by
  obtain ⟨w, hat, hdue, hframes, hdown⟩ := h
  refine ⟨_, ?_, .down rfl ⟨rfl, rfl, rfl, rfl, rfl, rfl, rfl⟩⟩
  rw [linkClear_wire, ← hframes]
  by_cases hl : s.link = .up
  · have hat' := at_act hat (a := .linkDown s.now) rfl hdue
    have hacts : s.linkClear.part.acts = (s.act (.linkDown s.now)).part.acts := by
      unfold State.linkClear
      rw [if_pos hl]
      rfl
    rw [hacts]
    exact hat'
  · have hw : w = { frames := w.frames } := by
      rw [hframes, ← wire_of_ne_up hl]
      exact hdown (decide_eq_false hl)
    have hacts : s.linkClear.part.acts = s.part.acts := by
      unfold State.linkClear
      rw [if_neg hl]
      rfl
    rw [hacts, ← hw]
    exact hat

theorem Losable.linkLost (h : Losable w₀ s.part) (e : Env) (why : String) (status : ℤ) :
    Tidy w₀ (s.linkLost e why status).part := by
  set s₁ : State := { s with redial := false } with hs₁
  set s₂ : State := if s₁.probe then s₁.probeEnd e false else s₁ with hs₂
  set s₃ : State := if s₂.rest ∧ s₂.liveUnitAwake then s₂.restSet false else s₂ with hs₃
  have h₂ : s₂.part = s.part := by
    rw [hs₂]
    split_ifs
    · exact probeEnd_false_part s₁ e
    · rfl
  have h₃ : s₃.part = s.part := by
    rw [← h₂, hs₃]
    split_ifs
    · exact restSet_part s₂ false
    · rfl
  have hclear : Tidy w₀ s₃.linkClear.part := Losable.linkClear (h₃ ▸ h)
  have hend : s.linkLost e why status =
      (if s.link ≠ .down then s₃.linkClear.act .disconnect else s₃.linkClear).afterLoss e why
        status := rfl
  rw [hend, afterLoss_part]
  split_ifs
  · rw [act_plain rfl]
    exact hclear
  · exact hclear

theorem Tidy.lostEvent (h : Tidy w₀ s.part) (e : Env) (why : String) (status : ℤ) :
    Tidy w₀ (s.lostEvent e why status).part := by
  unfold State.lostEvent
  split_ifs
  · exact h
  · exact h.losable.linkLost e why status
  · exact h.losable.linkClear.losable.linkLost e why status

theorem probeOver_part (s : State) (e : Env) : (s.probeOver e).part = s.part := by
  unfold State.probeOver
  dsimp only
  split_ifs
  · rfl
  · exact restSet_part _ false
  · rfl

theorem Tidy.probeEnd (h : Tidy w₀ s.part) (e : Env) : Tidy w₀ (s.probeEnd e true).part := by
  have ht : Tidy w₀ (s.probeOver e).part := probeOver_part s e ▸ h
  rw [probeEnd_true]
  split_ifs
  · refine Losable.linkClear ?_
    rw [act_plain rfl]
    exact ht.losable
  · exact ht

/-- In a read pass, between two of its reads. -/
structure Between (w₀ : Wire) (s : State) : Prop where
  up : s.link = .up
  active : s.active = true
  reading : s.reading = true
  bound : s.readIdx ≤ readOrder.length
  quiet : s.warming = false ∧ s.rereading = false ∧ s.heaterReading = false ∧
    s.variantPending = false
  wire : At w₀ s.part.acts { s.part.wire with
    pass := some (s.linkVariant, asked s.linkVariant s.vehiclePre s.readIdx)
    pre := s.vehiclePre
    variant := some s.linkVariant }

theorem passReads_eq {c : String × ℕ} (hc : readOrder[s.readIdx]? = some c) :
    s.passReads c = passAsks s.linkVariant s.vehiclePre s.readIdx := by
  unfold State.passReads passAsks
  rw [hc, Option.any_some]
  split_ifs with h
  · rw [decide_eq_false (fun hn => hn.1 h)]
  · simp [h]

theorem Between.passEnd (h : Between w₀ s) (hend : readOrder[s.readIdx]? = none) (e : Env) :
    Tidy w₀ (s.passEnd e).part := by
  have hlen : s.readIdx = readOrder.length :=
    Nat.le_antisymm h.bound (List.getElem?_eq_none_iff.mp hend)
  have hdone := at_act h.wire (a := .passDone) rfl (by
    refine ⟨rfl, rfl, ?_⟩
    rw [Option.any_some, decide_eq_true_iff, hlen]
    exact List.reverse_reverse _)
  set s₁ : State := { s.act .passDone with
    reading := false
    vehiclePre := false
    snapped := true
    waterNext := s.now + waterRereadMs } with hs₁
  have hcalm : Phase s₁.part { s₁.part.wire with pre := false, variant := some s.linkVariant } :=
    Phase.calm (c := s₁.part) (decide_eq_true h.up) rfl h.quiet.2.2.2 h.quiet.2.1 h.quiet.2.2.1
      fun _ => rfl
  have h₁ : Tidy w₀ s₁.part := ⟨_, ⟨hdone.fits, hdone.now⟩, hcalm⟩
  have hcase : s.passEnd e = if s₁.probe then s₁.probeEnd e true else s₁ := rfl
  rw [hcase]
  split_ifs
  · exact h₁.probeEnd e
  · exact h₁

theorem store_frames (s : State) (char : ℕ) (data : List Byte) :
    (s.store char data).part.frames =
      Function.update s.part.frames char (some (data.take frameMax)) :=
  Function.comp_update Slot.frame s.slots char ⟨some (data.take frameMax), true⟩

theorem heard_ok (hs : status = 0) :
    heard s.part.frames char status data = (s.store char data).part.frames := by
  unfold heard
  rw [if_pos hs, store_frames]

theorem heard_failed (hs : status ≠ 0) : heard s.part.frames char status data = s.part.frames :=
  if_neg hs

theorem pass_char {i : ℕ} {c : String × ℕ} (hc : readOrder[i]? = some c) :
    (Asker.pass i).char = c.2 := by
  show (readOrder[i]?).elim 0 Prod.snd = c.2
  rw [hc]
  rfl

theorem onReadWith_pass {next : State → State} {c : String × ℕ}
    (hnext : ∀ t : State, t.readIdx = s.readIdx + 1 → Between w₀ t → Tidy w₀ (next t).part)
    (hc : readOrder[s.readIdx]? = some c) (hup : s.link = .up) (hact : s.active = true)
    (hreading : s.reading = true)
    (hquiet : s.warming = false ∧ s.rereading = false ∧ s.heaterReading = false ∧
      s.variantPending = false)
    (hwire : At w₀ s.part.acts { s.part.wire with
      due := some (.pass s.readIdx, status = 0)
      pass := some (s.linkVariant, asked s.linkVariant s.vehiclePre (s.readIdx + 1))
      pre := s.vehiclePre
      frames := heard s.part.frames c.2 status data
      variant := some s.linkVariant }) :
    Tidy w₀ (s.onReadWith next c.2 status data).part := by
  obtain ⟨hw, hre, hh, hv⟩ := hquiet
  unfold State.onReadWith
  rw [if_neg (by simp [hv]), if_neg (by simp [hh]), if_neg (by simp [hre]), hc]
  dsimp only
  rw [if_neg (by rw [hreading]; simp)]
  have hcredit := at_act hwire (a := .credit (.pass s.readIdx) (status = 0)) rfl rfl
  rw [Wire.apply_credit _ (by rintro ⟨⟩)] at hcredit
  have hlt : s.readIdx < readOrder.length := (List.getElem?_eq_some_iff.mp hc).1
  apply hnext
  · split_ifs <;> rfl
  · split_ifs with hs
    · rw [heard_ok hs] at hcredit
      exact ⟨hup, hact, hreading, hlt, ⟨hw, hre, hh, hv⟩, hcredit⟩
    · rw [heard_failed hs] at hcredit
      exact ⟨hup, hact, hreading, hlt, ⟨hw, hre, hh, hv⟩, hcredit⟩

theorem Between.readNext (h : Between w₀ s) {n : ℕ} (hn : readOrder.length < n + s.readIdx) :
    Tidy w₀ (State.readNext e n s).part := by
  induction n generalizing s with
  | zero =>
    have := h.bound
    omega
  | succ n ih =>
    unfold State.readNext
    cases hc : readOrder[s.readIdx]? with
    | none => exact h.passEnd hc e
    | some c =>
      have hlt : s.readIdx < readOrder.length := (List.getElem?_eq_some_iff.mp hc).1
      have hn' : readOrder.length < n + (s.readIdx + 1) := by omega
      have hasks := passReads_eq hc
      dsimp only
      by_cases hp : ¬ s.passReads c
      · rw [if_pos hp]
        refine ih (s := { s with readIdx := s.readIdx + 1 }) ?_ hn'
        refine ⟨h.up, h.active, h.reading, hlt, h.quiet, ?_⟩
        dsimp only
        rw [asked_succ, ← hasks, if_neg hp]
        exact h.wire
      rw [if_neg hp]
      have hsucc : asked s.linkVariant s.vehiclePre (s.readIdx + 1) =
          s.readIdx :: asked s.linkVariant s.vehiclePre s.readIdx := by
        rw [asked_succ, ← hasks, if_pos (not_not.mp hp)]
      have hread : ∀ ok, At w₀ (s.act (.read (.pass s.readIdx) ok)).part.acts { s.part.wire with
          outstanding := if ok then [.pass s.readIdx] else []
          pass := some (s.linkVariant, asked s.linkVariant s.vehiclePre (s.readIdx + 1))
          pre := s.vehiclePre
          variant := some s.linkVariant } := by
        intro ok
        have hact := at_act h.wire (a := .read (.pass s.readIdx) ok) rfl ⟨rfl, rfl, rfl⟩
        rw [hsucc]
        exact hact
      by_cases hrc : (e.pass s.readIdx).rc = 0
      swap
      · rw [if_neg hrc]
        refine ih (s := { s.act (.read (.pass s.readIdx) ((e.pass s.readIdx).rc = 0)) with
          readIdx := s.readIdx + 1 }) ?_ hn'
        refine ⟨h.up, h.active, h.reading, hlt, h.quiet, ?_⟩
        rw [decide_eq_false hrc]
        exact hread false
      rw [if_pos hrc, decide_eq_true hrc]
      unfold State.readInside
      cases (e.pass s.readIdx).inside with
      | none =>
        refine ⟨_, hread true, ?_⟩
        exact Phase.reading (c := (s.act (.read (.pass s.readIdx) true)).part)
          (decide_eq_true h.up) h.reading hlt h.quiet
      | some r =>
        obtain ⟨status, data⟩ := r
        dsimp only
        rw [if_pos hrc]
        have hcomplete := at_act (hread true) (a := .complete (.pass s.readIdx) status data) rfl
          ⟨rfl, List.mem_singleton_self _⟩
        rw [Wire.apply_complete _ rfl, pass_char hc] at hcomplete
        unfold State.readEvent
        rw [if_pos ⟨h.active, h.up⟩]
        have hnext : ∀ t : State, t.readIdx = s.readIdx + 1 → Between w₀ t →
            Tidy w₀ (State.readNext e n t).part := fun t ht hb => ih hb (by rw [ht]; exact hn')
        exact onReadWith_pass
          (s := (s.act (.read (.pass s.readIdx) true)).act
            (.complete (.pass s.readIdx) status data))
          hnext hc h.up h.active h.reading h.quiet hcomplete

/-- An encrypted link on which nothing runs, subscribed for the variant `v`. -/
structure Calm (w₀ : Wire) (v : Option ℤ) (s : State) : Prop where
  up : s.link = .up
  quiet : s.reading = false ∧ s.variantPending = false ∧ s.rereading = false ∧
    s.heaterReading = false
  wire : At w₀ s.part.acts { s.part.wire with pre := s.vehiclePre, variant := v }

theorem Calm.tidy (h : Calm w₀ v s)
    (known : s.warming = true ∨ s.snapped = true → v = some s.linkVariant) : Tidy w₀ s.part :=
  ⟨_, h.wire, Phase.calm (c := s.part) (decide_eq_true h.up) h.quiet.1 h.quiet.2.1 h.quiet.2.2.1
    h.quiet.2.2.2 known⟩

theorem at_subscribe (chars : List (String × ℕ)) (h : At w₀ s.part.acts w) (hdue : w.due = none) :
    ∃ acts, (chars.foldl (fun s c => s.act (.subscribe c.2)) s).part =
    { s.part with acts := acts } ∧
      At w₀ acts (if chars = [] then w else { w with variant := some (carVariant w.frames) }) := by
  induction chars generalizing s w with
  | nil => exact ⟨_, rfl, h⟩
  | cons c chars ih =>
    have hfirst := at_act h (a := .subscribe c.2) rfl hdue
    obtain ⟨acts, hpart, hat⟩ := ih (s := s.act (.subscribe c.2)) hfirst hdue
    refine ⟨acts, hpart, ?_⟩
    rw [if_neg (List.cons_ne_nil c chars)]
    split_ifs at hat
    · exact hat
    · exact hat

theorem subscribes_ne_nil (v : ℤ) : (codecChars.filter fun c =>
    variantHas c.1 v ∧ c.1 ≠ "general" ∧ c.1 ≠ "generalpurposesignals") ≠ [] := by
  have hhas : variantHas "campingmode" v = true := by
    unfold variantHas
    have hnone : variantGate.find? (fun g => g.1 = "campingmode") = none := by decide
    dsimp only
    rw [hnone]
    exact ite_self true
  have hmem : ("campingmode", 0x1202) ∈ codecChars := by decide
  refine List.ne_nil_of_mem (List.mem_filter.mpr ⟨hmem, ?_⟩)
  simp [hhas]

theorem Calm.subscribe (h : Calm w₀ v s) : Tidy w₀ s.subscribeAndWarm.part := by
  obtain ⟨acts, hpart, hat⟩ := at_subscribe (s := { s with linkVariant := s.storedVariant })
    (codecChars.filter fun c => variantHas c.1 s.storedVariant ∧ c.1 ≠ "general" ∧
      c.1 ≠ "generalpurposesignals") h.wire rfl
  rw [if_neg (subscribes_ne_nil s.storedVariant)] at hat
  have hend : s.subscribeAndWarm.part =
      { s.part with linkVariant := s.storedVariant, acts := acts, warming := true } :=
    congrArg (fun c : Part => { c with warming := true }) hpart
  rw [hend]
  exact ⟨_, hat, Phase.calm (c := { s.part with
    linkVariant := s.storedVariant
    acts := acts
    warming := true }) (decide_eq_true h.up) h.quiet.1 h.quiet.2.1 h.quiet.2.2.1 h.quiet.2.2.2
    fun _ => rfl⟩

theorem Calm.ofVariant (hup : s.link = .up)
    (hquiet : s.reading = false ∧ s.rereading = false ∧ s.heaterReading = false)
    (hpre : s.vehiclePre = false) (h : At w₀ s.part.acts { s.part.wire with
      frames := heard s.part.frames vehicleChar status data
      pre := status = 0 }) :
    Calm w₀ none (if status = 0 then
      { ({ s with variantPending := false } : State).store vehicleChar data with
        vehiclePre := true }
    else { s with variantPending := false }) := by
  obtain ⟨hr, hre, hh⟩ := hquiet
  split_ifs with hs
  · rw [heard_ok hs, decide_eq_true hs] at h
    exact ⟨hup, ⟨hr, rfl, hre, hh⟩, h⟩
  · rw [heard_failed hs, decide_eq_false hs] at h
    refine ⟨hup, ⟨hr, rfl, hre, hh⟩, ?_⟩
    show At w₀ _ { s.part.wire with pre := s.vehiclePre }
    rw [hpre]
    exact h

theorem Calm.ofWater (hup : s.link = .up)
    (hquiet : s.reading = false ∧ s.variantPending = false ∧ s.heaterReading = false)
    (h : At w₀ s.part.acts { s.part.wire with
      frames := heard s.part.frames waterChar status data
      pre := s.vehiclePre
      variant := v }) :
    Calm w₀ v (if status = 0 then ({ s with rereading := false } : State).store waterChar data
      else { s with rereading := false }) := by
  obtain ⟨hr, hv, hh⟩ := hquiet
  split_ifs with hs
  · rw [heard_ok hs] at h
    exact ⟨hup, ⟨hr, hv, rfl, hh⟩, h⟩
  · rw [heard_failed hs] at h
    exact ⟨hup, ⟨hr, hv, rfl, hh⟩, h⟩

theorem Calm.ofHeater (hup : s.link = .up)
    (hquiet : s.reading = false ∧ s.variantPending = false ∧ s.rereading = false)
    (h : At w₀ s.part.acts { s.part.wire with
      frames := heard s.part.frames heaterChar status data
      pre := s.vehiclePre
      variant := v }) :
    Calm w₀ v (if status = 0 then ({ s with heaterReading := false } : State).store heaterChar data
      else { ({ s with heaterReading := false } : State) with
        heaterNext := s.now + heaterRetryMs }) := by
  obtain ⟨hr, hv, hre⟩ := hquiet
  split_ifs with hs
  · rw [heard_ok hs] at h
    exact ⟨hup, ⟨hr, hv, hre, rfl⟩, h⟩
  · rw [heard_failed hs] at h
    exact ⟨hup, ⟨hr, hv, hre, rfl⟩, h⟩

theorem Phase.completed (hp : Phase s.part w) (hat : At w₀ s.part.acts w) {asker : Asker}
    (ha : asker ∈ w.outstanding) (hact : s.active = true) (e : Env) (status : ℤ)
    (data : List Byte) :
    Tidy w₀ ((s.act (.complete asker status data)).onRead e asker.char status data).part := by
  unfold State.onRead
  have hcomplete : w.outstanding = [asker] →
      At w₀ (s.act (.complete asker status data)).part.acts { w with
        outstanding := []
        due := some (asker, status = 0)
        frames := heard w.frames asker.char status data } := fun hout =>
    Wire.apply_complete w hout status data ▸
      at_act hat (a := .complete asker status data) rfl ⟨hp.due, ha⟩
  cases hp with
  | down => exact absurd ha List.not_mem_nil
  | fresh => exact absurd ha List.not_mem_nil
  | variant up pending quiet =>
    obtain rfl := List.mem_singleton.mp ha
    obtain ⟨-, hr, -, hre, hh, -, hpre⟩ := quiet
    have hpre' : s.vehiclePre = false := hpre
    set s₂ : State := (s.act (.complete .variant status data)).act (.credit .variant (status = 0))
    have hcredit : At w₀ s₂.part.acts { s₂.part.wire with
        frames := heard s₂.part.frames vehicleChar status data
        pre := status = 0 } := by
      have hdone := at_act (hcomplete rfl) (a := .credit .variant (status = 0)) rfl rfl
      rw [Wire.apply_credit_variant] at hdone
      exact hdone
    unfold State.onReadWith
    rw [if_pos ⟨pending, rfl⟩]
    exact (Calm.ofVariant (s := s₂) (of_decide_eq_true up) ⟨hr, hre, hh⟩ hpre' hcredit).subscribe
  | reading up runs more quiet =>
    obtain rfl := List.mem_singleton.mp ha
    obtain ⟨c, hc⟩ : ∃ c, readOrder[s.readIdx]? = some c := ⟨_, List.getElem?_eq_getElem more⟩
    have hchar : (Asker.pass s.part.readIdx).char = c.2 := pass_char hc
    have hdone := hcomplete rfl
    rw [hchar] at hdone ⊢
    have hnext : ∀ t : State, t.readIdx = s.readIdx + 1 → Between w₀ t →
        Tidy w₀ (State.readNext e turns t).part := fun t ht hb =>
      hb.readNext (by
        unfold turns
        omega)
    exact onReadWith_pass (s := s.act (.complete (.pass s.readIdx) status data)) hnext hc
      (of_decide_eq_true up) hact runs quiet hdone
  | @idle up quiet one again v known =>
    have hv : ¬ (s.variantPending = true) := by
      rw [show s.variantPending = false from quiet.2]
      rintro ⟨⟩
    have hcases : (asker = .water ∧ s.rereading = true) ∨
        (asker = .heater ∧ s.heaterReading = true) := by
      obtain hw | hh := List.mem_append.mp ha
      · split_ifs at hw with hr
        · exact .inl ⟨List.mem_singleton.mp hw, hr⟩
        · exact absurd hw List.not_mem_nil
      · split_ifs at hh with hr
        · exact .inr ⟨List.mem_singleton.mp hh, hr⟩
        · exact absurd hh List.not_mem_nil
    set s₂ : State := (s.act (.complete asker status data)).act
      (.credit asker (status = 0)) with hs₂
    have hcredit : (if s.part.rereading = true then [Asker.water] else []) ++
        (if s.part.heaterReading = true then [Asker.heater] else []) = [asker] →
        asker ≠ .variant → At w₀ s₂.part.acts { s₂.part.wire with
          frames := heard s₂.part.frames asker.char status data
          pre := s₂.vehiclePre
          variant := v } := by
      intro hout hne
      have hdone := at_act (hcomplete hout) (a := .credit asker (status = 0)) rfl rfl
      rw [Wire.apply_credit _ hne] at hdone
      exact hdone
    unfold State.onReadWith
    rw [if_neg fun hc => hv hc.1]
    obtain ⟨rfl, hr⟩ | ⟨rfl, hh⟩ := hcases
    · have hh : s.heaterReading = false := one hr
      have hout := hcredit (by
        rw [show s.part.rereading = true from hr, show s.part.heaterReading = false from hh]
        rfl) (by rintro ⟨⟩)
      have hnh : ¬ s.heaterReading = true := by rw [hh]; rintro ⟨⟩
      rw [if_neg fun hc => hnh hc.1, if_pos ⟨hr, rfl⟩]
      have hcalm := Calm.ofWater (s := s₂) (of_decide_eq_true up) ⟨quiet.1, quiet.2, hh⟩ hout
      refine hcalm.tidy fun hc => ?_
      split_ifs at hc ⊢
      · exact known hc
      · exact known hc
    · have hr : s.rereading = false := by
        cases hr : s.rereading with
        | false => rfl
        | true => exact absurd (hh.symm.trans (one hr)) (by rintro ⟨⟩)
      have hout := hcredit (by
        rw [show s.part.rereading = false from hr, show s.part.heaterReading = true from hh]
        rfl) (by rintro ⟨⟩)
      rw [if_pos ⟨hh, rfl⟩]
      have hcalm := Calm.ofHeater (s := s₂) (of_decide_eq_true up) ⟨quiet.1, quiet.2, hr⟩ hout
      refine hcalm.tidy fun hc => ?_
      split_ifs at hc ⊢
      · exact known hc
      · exact known hc

theorem Phase.hears {c : Part} (h : Phase c w) (frames : ℕ → Option (List Byte)) (acts : List Act) :
    Phase { c with frames := frames, acts := acts } { w with frames := frames } := by
  set c' : Part := { c with frames := frames, acts := acts }
  cases h with
  | down up quiet => exact .down (c := c') up quiet
  | fresh up quiet => exact .fresh (c := c') up quiet
  | variant up pending quiet => exact .variant (c := c') up pending quiet
  | reading up runs more quiet => exact .reading (c := c') up runs more quiet
  | idle up quiet one again known => exact .idle (c := c') up quiet one again known

theorem store_part (s : State) (char : ℕ) (data : List Byte) : (s.store char data).part =
    { s.part with frames := (s.store char data).part.frames } := rfl

theorem Phase.notified (hp : Phase s.part w) (hat : At w₀ s.part.acts w)
    (hact : s.link = .up → s.active = true) (e : Env) (char : ℕ) (data : List Byte) :
    Tidy w₀ ((s.act (.notified char data)).onEvent e (.notify char data)).part := by
  set s₁ : State := s.act (.notified char data) with hs₁
  have hnow := at_act hat (a := .notified char data) rfl hp.due
  have hup : w.up = true ↔ s.link = .up := by
    rw [hp.linked]
    exact decide_eq_true_iff
  have hframes : w.frames = s₁.part.frames := hp.frames
  by_cases hc : s.link = .up ∧ char ∈ codecChars.map Prod.snd
  · have hev : s₁.onEvent e (.notify char data) = s₁.store char data :=
      (if_neg (not_not_intro (hact hc.1))).trans (if_pos hc)
    rw [Wire.apply_notified ⟨hup.mpr hc.1, hc.2⟩, hframes, heard_ok rfl] at hnow
    rw [hev, store_part]
    exact ⟨_, hnow, hp.hears _ _⟩
  · have hev : s₁.onEvent e (.notify char data) = s₁ := by
      by_cases ha : ¬ s₁.active
      · exact if_pos ha
      · exact (if_neg ha).trans (if_neg hc)
    rw [Wire.apply_not_notified fun h => hc ⟨hup.mp h.1, h.2⟩] at hnow
    rw [hev]
    exact ⟨{ w with frames := s₁.part.frames }, hframes ▸ hnow, hp.hears _ _⟩

theorem callRead_late (s : State) (e : Env) (asker : Asker) (char : ℕ)
    {answer : Answer (ℤ × List Byte)} (hlate : answer.inside = none) :
    s.callRead e asker char answer = s.act (.read asker (answer.rc = 0)) := by
  unfold State.callRead State.readInside
  rw [hlate]

/-- A discovery leads to the subscriptions, at once or after the variant is read. -/
theorem Calm.onDiscovered (h : Calm w₀ none s)
    (hquiet : s.warming = false ∧ s.snapped = false ∧ s.vehiclePre = false)
    (hlate : e.variant.inside = none) (status : ℤ) : Tidy w₀ (s.onDiscovered e status).part := by
  obtain ⟨hw, hs, hpre⟩ := hquiet
  obtain ⟨hr, hv, hre, hh⟩ := h.quiet
  unfold State.onDiscovered
  dsimp only
  by_cases hst : status ≠ 0
  · rw [if_pos hst]
    refine (h.tidy fun hc => ?_).losable.linkLost _ _ _
    rw [hw, hs] at hc
    exact hc.elim (fun h => by cases h) fun h => by cases h
  rw [if_neg hst]
  by_cases hkn : s.storedVariant ≥ 0
  · rw [if_pos hkn]
    exact h.subscribe
  rw [if_neg hkn, callRead_late _ _ _ _ hlate]
  have hread := at_act h.wire (a := .read .variant (e.variant.rc = 0)) rfl ⟨rfl, rfl, rfl⟩
  by_cases hrc : e.variant.rc = 0
  · rw [if_pos hrc]
    rw [decide_eq_true hrc] at hread
    rw [decide_eq_true hrc]
    rw [hpre] at hread
    exact ⟨_, hread, Phase.variant (c := ({ s.act (.read .variant true) with
      variantPending := true } : State).part) (decide_eq_true h.up) rfl
      ⟨hw, hr, hs, hre, hh, rfl, hpre⟩⟩
  · rw [if_neg hrc]
    rw [decide_eq_false hrc] at hread
    rw [decide_eq_false hrc]
    exact Calm.subscribe ⟨h.up, ⟨hr, hv, hre, hh⟩, hread⟩

theorem unitCheck_part (s : State) (e : Env) : (s.unitCheck e).part = { s.part with
    frames := (s.unitCheck e).part.frames
    acts := (s.unitCheck e).part.acts } := by
  unfold State.unitCheck
  split_ifs <;> rfl

theorem at_unitCheck (h : At w₀ s.part.acts w) (hdue : w.due = none)
    (hframes : w.frames = s.part.frames) (e : Env) :
    At w₀ (s.unitCheck e).part.acts { w with frames := (s.unitCheck e).part.frames } := by
  unfold State.unitCheck
  split_ifs
  · rw [← hframes]
    exact h
  · exact at_act h (a := .forget) rfl hdue

theorem Tidy.unitCheck (h : Tidy w₀ s.part) (hl : s.link ≠ .up) (e : Env) :
    Tidy w₀ (s.unitCheck e).part := by
  obtain ⟨w, hat, hp⟩ := h
  have hnow := at_unitCheck hat hp.due hp.frames e
  cases hp with
  | down up quiet =>
    rw [unitCheck_part]
    exact ⟨_, hnow, .down up quiet⟩
  | fresh up => exact absurd (of_decide_eq_true up) hl
  | variant up => exact absurd (of_decide_eq_true up) hl
  | reading up => exact absurd (of_decide_eq_true up) hl
  | idle up => exact absurd (of_decide_eq_true up) hl

theorem Losable.linkUp (h : Losable w₀ s.part)
    (hlate : e.variant.inside = none) : Tidy w₀ (s.linkUp e).part := by
  obtain ⟨w, hat, hdue, hframes, -⟩ := h
  set s₁ : State := s.linkOpened e with hs₁
  have hopened := at_act hat (a := .linkUp) rfl hdue
  have hfresh := at_unitCheck (s := s.linkFresh) hopened rfl hframes e
  have hdisc := at_act hfresh (a := .discover) rfl rfl
  have hpart : s₁.part.up = true ∧ s₁.part.quiet := by
    have hq : (s.linkFresh.unitCheck e).part.up = true ∧ (s.linkFresh.unitCheck e).part.quiet := by
      rw [unitCheck_part]
      exact ⟨rfl, rfl, rfl, rfl, rfl, rfl, rfl, rfl⟩
    exact hq
  have hwire : At w₀ s₁.part.acts { s₁.part.wire with discovering := true } := by
    unfold Part.wire
    rw [hpart.1]
    exact hdisc
  have htidy : Tidy w₀ s₁.part := ⟨_, hwire, Phase.fresh hpart.1 hpart.2⟩
  obtain hlost | ⟨status, hsome⟩ | hlater := linkUp_cases s e
  · rw [hlost]
    exact htidy.losable.linkLost _ _ _
  · obtain ⟨up, hw, hr, hs, hre, hh, hv, hpre⟩ := hpart
    have hgo := at_act hwire (a := .discovered) rfl rfl
    have hcalm : Calm w₀ none (s₁.act .discovered) := by
      refine ⟨of_decide_eq_true up, ⟨hr, hv, hre, hh⟩, ?_⟩
      show At w₀ _ { s₁.part.wire with pre := s₁.vehiclePre }
      rw [show s₁.vehiclePre = false from hpre]
      exact hgo
    rw [hsome]
    unfold State.discoveredEvent
    split_ifs
    · exact hcalm.onDiscovered ⟨hw, hs, hpre⟩ hlate status
    · refine hcalm.tidy fun hc => ?_
      have hw' : (s₁.act .discovered).warming = false := hw
      have hs' : (s₁.act .discovered).snapped = false := hs
      rw [hw', hs'] at hc
      exact hc.elim (fun h => by cases h) fun h => by cases h
  · rw [hlater]
    exact htidy

theorem setMode_part (hact : s.active = false) (e : Env) (mode : Mode) :
    (s.setMode e mode).part = s.part := by
  unfold State.setMode
  by_cases hm : mode = s.mode
  · rw [if_pos hm]
  · rw [if_neg hm]
    dsimp only
    rw [if_pos (by rw [hact]; rintro ⟨⟩)]
    rfl

theorem Tidy.setMode (h : Tidy w₀ s.part) (e : Env) (mode : Mode) :
    Tidy w₀ (s.setMode e mode).part := by
  unfold State.setMode
  by_cases hm : mode = s.mode
  · rw [if_pos hm]
    exact h
  rw [if_neg hm]
  dsimp only
  by_cases hact : ¬ s.active
  · rw [if_pos hact]
    exact h
  rw [if_neg hact]
  set s₁ : State := if mode = .hold then { s with mode := mode, hbSince := s.now }
    else { s with mode := mode } with hs₁
  have h₁ : Tidy w₀ s₁.part := by
    have hpart : s₁.part = s.part := by
      rw [hs₁]
      split_ifs <;> rfl
    rw [hpart]
    exact h
  by_cases hoff : mode = .off
  · rw [if_pos hoff]
    split_ifs
    · refine Losable.linkClear ?_
      rw [act_plain rfl]
      exact Tidy.losable h₁
    · exact h₁
  · rw [if_neg hoff]
    split_ifs with hc
    · rw [connectNow_part (s := { s₁ with backoff := backoffMinMs }) hc.1]
      exact h₁
    · exact h₁

theorem reconnectSoon_part (s : State) (e : Env) : (s.reconnectSoon e).part = s.part := by
  unfold State.reconnectSoon
  have hrest : (if s.rest then
      let s := s.restSet false
      if s.active ∧ s.link = .down ∧ ¬ s.reconnectPending ∧ ¬ s.probe then
        { s with backoff := backoffMinMs }.scheduleReconnect e
      else s
    else s).part = s.part := by
    dsimp only
    split_ifs
    · exact (scheduleReconnect_part _ e).trans (restSet_part s false)
    · exact restSet_part s false
    · rfl
  rw [← hrest]
  dsimp only
  split_ifs <;> rfl

theorem Tidy.intoHold (h : Tidy w₀ s.part) (e : Env) :
    Tidy w₀ ((if s.mode ≠ .hold then s.setMode e .hold else s).reconnectSoon e).part := by
  rw [reconnectSoon_part]
  split_ifs
  · exact h.setMode e .hold
  · exact h

theorem Tidy.setHold (h : Tidy w₀ s.part) (e : Env) (on : Bool) :
    Tidy w₀ (s.setHold e on).part := by
  unfold State.setHold
  by_cases hs : on = s.hold
  · rw [if_pos hs]
    exact h
  rw [if_neg hs]
  dsimp only
  by_cases hon : ¬ on
  · rw [if_pos hon]
    exact h
  · rw [if_neg hon]
    exact Tidy.intoHold (s := { s with hold := on, heaterNext := s.now }) h e

theorem viewer_part (s : State) (e : Env) (now : ℕ) : (s.viewer e now).part = s.part := by
  unfold State.viewer
  dsimp only
  split_ifs
  · exact reconnectSoon_part { s with viewerAt := stamp now } e
  · rfl

theorem Tidy.stop (h : Tidy w₀ s.part) (e : Env) : Tidy w₀ (s.stop e).part := by
  set s₁ : State := { s.restSet false with redial := false } with hs₁
  set s₂ : State := if s₁.probe then s₁.probeEnd e false else s₁ with hs₂
  set s₃ : State :=
    { s₂ with active := false, reconnectPending := false, backoff := backoffMinMs } with hs₃
  set s₄ : State := if s₃.link ≠ .down then s₃.act .disconnect else s₃ with hs₄
  have hend : s.stop e = s₄.linkClear.unitCheck e := rfl
  have hpart : s₄.part = s.part := by
    have h₂ : s₂.part = s₁.part := by
      rw [hs₂]
      split_ifs
      · exact probeEnd_false_part s₁ e
      · rfl
    have h₄ : s₄.part = s₃.part := by
      rw [hs₄]
      split_ifs
      · exact act_plain rfl
      · rfl
    exact h₄.trans (h₂.trans (restSet_part s false))
  rw [hend]
  exact Tidy.unitCheck (Losable.linkClear (hpart ▸ h.losable))
    (by rw [linkClear_link]; rintro ⟨⟩) e

theorem Tidy.startProbe (h : Tidy w₀ s.part) (e : Env) : Tidy w₀ (s.startProbe e).part := by
  unfold State.startProbe
  by_cases hc : ¬ s.active ∨ s.probe
  · rw [if_pos hc]
    exact h
  rw [if_neg hc]
  dsimp only
  by_cases hl : s.link = .down
  · rw [if_pos hl,
      connectNow_part (s := { s with probe := true, reconnectPending := false }) hl]
    exact h
  rw [if_neg hl]
  by_cases hw : s.link = .up ∧ s.snapped ∧ ¬ s.reading ∧ ¬ s.warming
  swap
  · rw [if_neg hw]
    exact h
  rw [if_pos hw]
  obtain ⟨hup, hs, hr, -⟩ := hw
  obtain ⟨w, hat, hp⟩ := h
  refine ⟨w, hat, ?_⟩
  cases hp with
  | down up => exact absurd hup (of_decide_eq_false up)
  | fresh up quiet => exact absurd (quiet.2.2.1.symm.trans hs) (by rintro ⟨⟩)
  | variant up pending quiet => exact absurd (quiet.2.2.1.symm.trans hs) (by rintro ⟨⟩)
  | reading up runs => exact absurd runs hr
  | idle up quiet one again known =>
    exact Phase.idle (c := ({ s with
      probe := true
      warming := true
      warmUntil := s.now + s.warmMs } : State).part) up quiet one again fun _ => known (.inr hs)

theorem Tidy.boot (h : Tidy w₀ s.part) (hl : s.link = .down) (e : Env) :
    Tidy w₀ (s.boot e).part := by
  unfold State.boot
  by_cases hb : ¬ e.hasBond
  · rw [if_pos hb]
    exact h
  rw [if_neg hb]
  dsimp only
  by_cases hm : s.mode ≠ .off
  · rw [if_pos hm, connectNow_part (s := { s with active := true }) hl]
    exact h
  · rw [if_neg hm]
    exact h

theorem Tidy.onBonded (h : Tidy w₀ s.part) (hact : s.active = false)
    (hlate : e.variant.inside = none) : Tidy w₀ (s.onBonded e).part := by
  have hpart := setMode_part hact e .hold
  have hclosed : Losable w₀ ({ (s.setMode e .hold).restSet false with active := true } :
      State).part := by
    show Losable w₀ ((s.setMode e .hold).restSet false).part
    rw [restSet_part, hpart]
    exact h.losable
  exact hclosed.linkUp hlate

/-- Outside a pass, the variant read and the discovery the wire is idle but for a read again. -/
theorem Tidy.calm (h : Tidy w₀ s.part) (hup : s.link = .up)
    (hs : s.snapped = true ∨ s.warming = true)
    (hr : s.reading = false) (hre : s.rereading = false) (hh : s.heaterReading = false) :
    Calm w₀ (some s.linkVariant) s := by
  obtain ⟨w, hat, hp⟩ := h
  have hnone : ¬ (s.warming = false ∧ s.snapped = false) := fun hc =>
    hs.elim (fun hs => absurd (hc.2.symm.trans hs) (by rintro ⟨⟩))
      fun hs => absurd (hc.1.symm.trans hs) (by rintro ⟨⟩)
  cases hp with
  | down up => exact absurd hup (of_decide_eq_false up)
  | fresh up quiet => exact absurd ⟨quiet.1, quiet.2.2.1⟩ hnone
  | variant up pending quiet => exact absurd ⟨quiet.1, quiet.2.2.1⟩ hnone
  | reading up runs => exact absurd (hr.symm.trans runs) (by rintro ⟨⟩)
  | idle up quiet one again known =>
    refine ⟨hup, ⟨hr, quiet.2, hre, hh⟩, ?_⟩
    rw [show s.part.rereading = false from hre, show s.part.heaterReading = false from hh,
      known hs.symm] at hat
    exact hat

theorem Tidy.heartbeatEvent (h : Tidy w₀ s.part) (e : Env) (status : ℤ) :
    Tidy w₀ (s.heartbeatEvent e status).part := by
  unfold State.heartbeatEvent
  split_ifs
  · exact h.losable.linkLost _ _ _
  · exact h

theorem Tidy.tickHeartbeat (h : Tidy w₀ s.part) (e : Env) :
    Tidy w₀ (s.tickHeartbeat e).2.part := by
  unfold State.tickHeartbeat
  by_cases hc : s.link = .up ∧ s.hbOn ∧ s.hbWanted e ∧ s.now ≥ s.hbNext
  swap
  · rw [if_neg hc]
    exact h
  rw [if_pos hc]
  dsimp only
  set s₁ : State := { s.act (.heartbeat s.hbCtr) with
      hbCtr := (s.hbCtr + 1) % 2 ^ 32
      hbNext :=
        if s.now - s.hbNext ≥ heartbeatPeriodMs then s.now + heartbeatPeriodMs
        else s.hbNext + heartbeatPeriodMs } with hs₁
  have h₁ : Tidy w₀ s₁.part := by
    have hpart : s₁.part = s.part := act_plain (s := s) (a := .heartbeat s.hbCtr) rfl
    rw [hpart]
    exact h
  by_cases hrc : e.heartbeat.rc = 0
  · rw [if_neg (not_not_intro hrc)]
    cases e.heartbeat.inside with
    | none => exact h₁
    | some status =>
      dsimp only
      rw [if_pos hrc]
      exact h₁.heartbeatEvent e status
  · rw [if_pos hrc]
    cases e.heartbeat.inside with
    | none => exact h₁.losable.linkLost _ _ _
    | some status =>
      dsimp only
      rw [if_neg hrc]
      exact h₁.losable.linkLost _ _ _

theorem Calm.startReads (h : Calm w₀ (some s.linkVariant) s) (hact : s.active = true) (e : Env) :
    Tidy w₀ (s.startReads e).part := by
  have hstart := at_act h.wire (a := .passStart s.linkVariant) rfl ⟨rfl, rfl, rfl, rfl⟩
  obtain ⟨-, hv, hre, hh⟩ := h.quiet
  have hbetween : Between w₀ { s.act (.passStart s.linkVariant) with
      warming := false, reading := true, readIdx := 0 } :=
    ⟨h.up, hact, rfl, Nat.zero_le _, ⟨rfl, hre, hh, hv⟩, hstart⟩
  have hturns : readOrder.length < turns + 0 := by decide
  exact hbetween.readNext hturns

theorem Tidy.tickWarm (h : Tidy w₀ s.part) (hact : s.link = .up → s.active = true) (e : Env) :
    Tidy w₀ (s.tickWarm e).part := by
  unfold State.tickWarm
  split_ifs with hc
  · obtain ⟨hup, hw, hre, hh, -⟩ := hc
    have hr : s.reading = false := by
      obtain ⟨w, hat, hp⟩ := h
      cases hp with
      | down up => exact absurd hup (of_decide_eq_false up)
      | fresh up quiet => exact quiet.2.1
      | variant up pending quiet => exact quiet.2.1
      | reading up runs more quiet => exact absurd (quiet.1.symm.trans hw) (by rintro ⟨⟩)
      | idle up quiet => exact quiet.1
    exact (h.calm hup (.inr hw) hr (by simpa using hre) (by simpa using hh)).startReads (hact hup) e
  · exact h

theorem tickRedial_part (s : State) : s.tickRedial.part = s.part := by
  unfold State.tickRedial
  split_ifs <;> rfl

theorem Tidy.idleLink (h : Tidy w₀ s.part) (hi : s.idleLink = true) :
    Calm w₀ (some s.linkVariant) s ∧ s.snapped = true ∧ s.warming = false := by
  unfold State.idleLink at hi
  rw [decide_eq_true_iff] at hi
  obtain ⟨hup, hs, hr, hw, hre, hh⟩ := hi
  exact ⟨h.calm hup (.inl hs) (by simpa using hr) (by simpa using hre) (by simpa using hh), hs,
    by simpa using hw⟩

theorem Tidy.tickWater (h : Tidy w₀ s.part) (hlate : e.water.inside = none) :
    Tidy w₀ (s.tickWater e).part := by
  unfold State.tickWater
  by_cases hc : s.idleLink ∧ s.now ≥ s.waterNext
  swap
  · rw [if_neg hc]
    exact h
  rw [if_pos hc]
  dsimp only
  obtain ⟨hcalm, hs, -⟩ := h.idleLink hc.1
  obtain ⟨hr, hv, hre, hh⟩ := hcalm.quiet
  rw [callRead_late _ _ _ _ hlate]
  have hread := at_act hcalm.wire (a := .read .water (e.water.rc = 0)) rfl ⟨rfl, rfl, rfl⟩
  by_cases hrc : e.water.rc = 0
  · rw [if_pos hrc]
    rw [decide_eq_true hrc] at hread
    rw [decide_eq_true hrc]
    set s₁ : State := { ({ s with waterNext := s.now + waterRereadMs } : State).act
      (.read .water true) with rereading := true } with hs₁
    have hp := Phase.idle (c := s₁.part) (decide_eq_true hcalm.up) ⟨hr, hv⟩ (fun _ => hh)
      (fun _ => hs) (v := some s.linkVariant) fun _ => rfl
    rw [show s₁.part.heaterReading = false from hh] at hp
    exact ⟨_, hread, hp⟩
  · rw [if_neg hrc]
    rw [decide_eq_false hrc] at hread
    rw [decide_eq_false hrc]
    exact Calm.tidy (v := some s.linkVariant) ⟨hcalm.up, ⟨hr, hv, hre, hh⟩, hread⟩ fun _ => rfl

theorem Tidy.tickHeater (h : Tidy w₀ s.part) (hlate : e.heater.inside = none) :
    Tidy w₀ (s.tickHeater e).part := by
  unfold State.tickHeater
  by_cases hc : s.hold ∧ s.idleLink ∧ s.now ≥ s.heaterNext
  swap
  · rw [if_neg hc]
    exact h
  rw [if_pos hc]
  dsimp only
  obtain ⟨hcalm, hs, -⟩ := h.idleLink hc.2.1
  obtain ⟨hr, hv, hre, hh⟩ := hcalm.quiet
  rw [callRead_late _ _ _ _ hlate]
  have hread := at_act hcalm.wire (a := .read .heater (e.heater.rc = 0)) rfl ⟨rfl, rfl, rfl⟩
  by_cases hrc : e.heater.rc = 0
  · rw [if_pos hrc]
    rw [decide_eq_true hrc] at hread
    rw [decide_eq_true hrc]
    set s₁ : State := { ({ s with heaterNext := s.now + s.heaterMs } : State).act
      (.read .heater true) with heaterReading := true } with hs₁
    have hp := Phase.idle (c := s₁.part) (decide_eq_true hcalm.up) ⟨hr, hv⟩
      (fun hre' => absurd (hre.symm.trans hre') (by rintro ⟨⟩)) (fun _ => hs)
      (v := some s.linkVariant) fun _ => rfl
    rw [show s₁.part.rereading = false from hre] at hp
    exact ⟨_, hread, hp⟩
  · rw [if_neg hrc]
    rw [decide_eq_false hrc] at hread
    rw [decide_eq_false hrc]
    exact Calm.tidy (v := some s.linkVariant) ⟨hcalm.up, ⟨hr, hv, hre, hh⟩, hread⟩ fun _ => rfl

theorem Tidy.tickLink (h : Tidy w₀ s.part) (e : Env) : Tidy w₀ (s.tickLink e).part := by
  unfold State.tickLink
  dsimp only
  split_ifs with h₁ h₂ h₃ h₄
  · exact h.losable.linkLost _ _ _
  · exact h.losable.linkLost _ _ _
  · exact h.startProbe e
  · rw [connectNow_part (s := { s with reconnectPending := false }) h₄.1]
    exact h
  · exact h
  · exact h

/-- The reads of a platform that completes only those of a pass inside their call. -/
structure Env.Late (e : Env) : Prop where
  variant : e.variant.inside = none
  water : e.water.inside = none
  heater : e.heater.inside = none

theorem Tidy.tick (h : Tidy w₀ s.part) {p : Past} (hok : Ok p [] s.core) (hlate : e.Late) :
    Tidy w₀ (s.tick e).part := by
  unfold State.tick
  by_cases ha : ¬ s.active
  · rw [if_pos ha]
    exact h
  rw [if_neg ha]
  dsimp only
  have hbeat := h.tickHeartbeat e
  by_cases hgo : ¬ (s.tickHeartbeat e).1
  · rw [if_pos hgo]
    exact hbeat
  rw [if_neg hgo]
  obtain ⟨beats, hok', -, -⟩ := tickHeartbeat_ok hok e
  have hact : (s.tickHeartbeat e).2.link = .up → (s.tickHeartbeat e).2.active = true := by
    intro hup
    by_contra hna
    have hoff : (s.tickHeartbeat e).2.active = false := by simpa using hna
    have hdown := (hok'.idle hoff).1
    exact absurd (hup.symm.trans hdown) (by rintro ⟨⟩)
  have hwarm := hbeat.tickWarm hact e
  rw [← tickRedial_part] at hwarm
  exact ((hwarm.tickWater hlate.water).tickHeater hlate.heater).tickLink e

end OpenCalifornia.Session
