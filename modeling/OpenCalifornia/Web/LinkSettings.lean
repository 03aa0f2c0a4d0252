import OpenCalifornia.Session.Knobs
import OpenCalifornia.Web.Settings

/-! # What a request about the link leaves of its settings

The experiment, the idle policy, the reads at rest, the warm-up and the mode: what each member of
POST `/api/ble` does to them, in memory and in the store. -/

namespace OpenCalifornia.Web
open Lib Lib.Bits
open Session (Mode)

variable {e : Env} {w w' : World} {body : List Byte}

structure BleSettings where
  exp : Option (ℕ × ℤ × ℤ)
  idle : ℕ
  restMs : ℕ
  warmMs : ℕ
  mode : Mode
  deriving DecidableEq

structure BleStored where
  idle : ℕ
  rest : ℕ
  deriving DecidableEq

def World.bleMemory (w : World) : BleSettings where
  exp := if w.ble.exp.on then some (w.expMin, w.ble.exp.fromH, w.ble.exp.toH) else none
  idle := w.ble.idle.probeMin
  restMs := w.session.restPollMs
  warmMs := w.session.warmMs
  mode := w.session.mode

/-- What the next boot reads. -/
def World.bleStored (w : World) : BleStored :=
  ⟨(BleExp.init w.bleIdle 0).idle.probeMin, bootRest w.bleRest⟩

/-- All but the experiment, the idle policy and the session. -/
def World.besideBle (w : World) : World := { w with
  ble := BleExp.init none 0
  expMin := 0
  session := {}
  bleIdle := none
  bleRest := none }

/-- The experiment that `exp_min` asks for. -/
def BleReq.window (b : BleReq) : Option (ℕ × ℤ × ℤ) :=
  if b.n 2 = 0 then none else some (b.n 2, b.n 3, b.n 4)

/-- The end of an experiment sets the mode to hold. -/
def BleReq.expAsked (b : BleReq) (seen : ℕ) (x : BleSettings) : BleSettings :=
  if seen.testBit 2 then { x with
    exp := b.window
    mode := if b.n 2 = 0 ∧ x.exp.isSome then .hold else x.mode }
  else x

/-- Without a probe, and without an experiment, the mode is hold. -/
def BleOp.apply : BleOp → BleSettings → BleSettings
  | .idle n, x => { x with idle := n, mode := if n = 0 ∧ x.exp = none then .hold else x.mode }
  | .rest n, x => { x with restMs := n * 60000 }

def BleOp.keep : BleOp → BleStored → BleStored
  | .idle n, x => { x with idle := n }
  | .rest n, x => { x with rest := n }

def BleReq.runAsked (b : BleReq) (seen : ℕ) (x : BleSettings) : BleSettings := { x with
  warmMs := if seen.testBit 6 then b.n 6 else x.warmMs
  mode := if b.conn then .hold else b.mode.join.getD x.mode }

/-- The values of the members that are there. -/
structure BleReq.Asked (b : BleReq) (seen : ℕ) (x x' : BleSettings) : Prop where
  exp : x'.exp = if seen.testBit 2 then b.window else x.exp
  idle : x'.idle = if seen.testBit 5 then b.n 5 else x.idle
  rest : x'.restMs = if seen.testBit 7 then b.n 7 * 60000 else x.restMs
  warm : x'.warmMs = if seen.testBit 6 then b.n 6 else x.warmMs
  connect : b.conn = true → x'.mode = .hold
  mode : b.conn = false → ∀ m, b.mode = some (some m) → x'.mode = m
  /-- Without either the mode is hold or as before. -/
  same : b.conn = false → b.mode.join = none → x'.mode = .hold ∨ x'.mode = x.mode

structure BleReq.AskedStored (b : BleReq) (seen : ℕ) (x x' : BleStored) : Prop where
  idle : x'.idle = if seen.testBit 5 then b.n 5 else x.idle
  rest : x'.rest = if seen.testBit 7 then b.n 7 else x.rest

theorem expAsked_spec (b : BleReq) (seen : ℕ) (x : BleSettings) :
    (b.expAsked seen x).exp = (if seen.testBit 2 then b.window else x.exp) ∧
      (b.expAsked seen x).idle = x.idle ∧ (b.expAsked seen x).restMs = x.restMs ∧
        (b.expAsked seen x).warmMs = x.warmMs ∧
          ((b.expAsked seen x).mode = .hold ∨ (b.expAsked seen x).mode = x.mode) := by
  unfold BleReq.expAsked
  split_ifs <;> simp

theorem opsAsked_spec (b : BleReq) (seen : ℕ) (x : BleSettings) :
    (Saves.applyAll BleOp.apply (b.ops seen) x).exp = x.exp ∧
      (Saves.applyAll BleOp.apply (b.ops seen) x).idle =
        (if seen.testBit 5 then b.n 5 else x.idle) ∧
      (Saves.applyAll BleOp.apply (b.ops seen) x).restMs =
        (if seen.testBit 7 then b.n 7 * 60000 else x.restMs) ∧
      (Saves.applyAll BleOp.apply (b.ops seen) x).warmMs = x.warmMs ∧
      ((Saves.applyAll BleOp.apply (b.ops seen) x).mode = .hold ∨
        (Saves.applyAll BleOp.apply (b.ops seen) x).mode = x.mode) := by
  unfold BleReq.ops Saves.applyAll
  by_cases hhold : b.n 5 = 0 ∧ x.exp = none
  · split_ifs <;> simp [BleOp.apply, hhold]
  · split_ifs <;> simp only [BleOp.apply, List.foldl_cons, List.foldl_nil, List.append_nil,
      List.nil_append, List.cons_append, if_neg hhold] <;> simp

theorem asked_ble (b : BleReq) (seen : ℕ) (x : BleSettings) : b.Asked seen x
    (b.runAsked seen (Saves.applyAll BleOp.apply (b.ops seen) (b.expAsked seen x))) := by
  obtain ⟨hexp, hidle, hrest, hwarm, hmode⟩ := expAsked_spec b seen x
  obtain ⟨hexp', hidle', hrest', hwarm', hmode'⟩ := opsAsked_spec b seen (b.expAsked seen x)
  constructor
  · exact hexp'.trans hexp
  · exact hidle'.trans (by rw [hidle])
  · exact hrest'.trans (by rw [hrest])
  · exact congrArg (fun y => if seen.testBit 6 then b.n 6 else y) (hwarm'.trans hwarm)
  · intro hc
    exact if_pos hc
  · intro hc m hm
    unfold BleReq.runAsked
    rw [hc, hm]
    rfl
  · intro hc hm
    unfold BleReq.runAsked
    rw [hc, hm]
    obtain h | h := hmode'
    · exact .inl h
    · exact hmode.imp h.trans h.trans

theorem asked_stored (b : BleReq) (seen : ℕ) (x : BleStored) :
    b.AskedStored seen x (Saves.applyAll BleOp.keep (b.ops seen) x) := by
  constructor <;> unfold BleReq.ops Saves.applyAll <;> split_ifs <;> rfl

/-- The mode that the events leave. -/
def modeAfter (mode : Mode) (evs : List BleExp.Ev) : Mode :=
  evs.foldl (fun mode ev =>
    match ev with
    | .set mode' _ => mode'
    | _ => mode) mode

theorem sets_spec (se : Session.Env) (evs : List BleExp.Ev) (w : World) :
    ∃ s, w.sets se evs = { w with session := s } ∧
      s.knobs = { w.session.knobs with mode := modeAfter w.session.mode evs } := by
  induction evs generalizing w with
  | nil => exact ⟨w.session, rfl, rfl⟩
  | cons ev evs ih =>
    cases ev with
    | set mode why =>
      obtain ⟨s, hs, hknobs⟩ := ih { w with session := w.session.setMode se mode }
      have hset : (w.session.setMode se mode).knobs = { w.session.knobs with mode } :=
        Session.setMode_knobs mode
      refine ⟨s, hs, hknobs.trans ?_⟩
      have hmode : (w.session.setMode se mode).mode = mode := congrArg Session.Knobs.mode hset
      dsimp only
      rw [hset, hmode]
      rfl
    | _ => exact ih w

theorem modeAfter_stop (o : BleExp.Owner) (mode : Mode) :
    modeAfter mode o.stop.2 = if o.exp.on then .hold else mode := by
  unfold BleExp.Owner.stop
  by_cases hon : o.exp.on = true
  · rw [if_neg (not_not.mpr hon), if_pos hon]
    unfold BleExp.Owner.endRunningPhase
    rw [if_pos hon]
    cases o.exp.want <;> rfl
  · rw [if_pos hon, if_neg hon]
    rfl

theorem bleMemory_session (w : World) {s : Session.State} {k : Session.Knobs} (h : s.knobs = k) :
    ({ w with session := s } : World).bleMemory =
      { w.bleMemory with restMs := k.restPollMs, warmMs := k.warmMs, mode := k.mode } := by
  rw [← h]
  rfl

theorem expStop_spec (e : Env) (w : World) :
    (w.expStop e).bleMemory = { w.bleMemory with
      exp := none
      mode := if w.bleMemory.exp.isSome then .hold else w.bleMemory.mode } ∧
      (w.expStop e).bleStored = w.bleStored ∧ (w.expStop e).besideBle = w.besideBle := by
  obtain ⟨s, hs, hknobs⟩ := sets_spec (e.at 0) w.ble.stop.2 { w with ble := w.ble.stop.1 }
  have hisSome : w.bleMemory.exp.isSome = w.ble.exp.on := by
    unfold World.bleMemory
    cases w.ble.exp.on <;> rfl
  have hoff : w.ble.stop.1.exp.on = false := by
    unfold BleExp.Owner.stop
    cases hon : w.ble.exp.on <;> simp [hon, BleExp.Exp.stop]
  have hidle : w.ble.stop.1.idle = w.ble.idle := by
    unfold BleExp.Owner.stop
    split_ifs <;> rfl
  unfold World.expStop
  rw [hs]
  refine ⟨?_, rfl, rfl⟩
  rw [bleMemory_session _ hknobs, modeAfter_stop, hisSome]
  unfold World.bleMemory
  dsimp only
  rw [hoff, hidle]
  rfl

theorem expStart_spec {phaseMin : ℕ} {fromH toH : ℤ}
    (h : ¬ expRefused phaseMin fromH toH e.clock) (w : World) :
    (w.expStart e phaseMin fromH toH).bleMemory =
        { w.bleMemory with exp := some (phaseMin, fromH, toH) } ∧
      (w.expStart e phaseMin fromH toH).bleStored = w.bleStored ∧
        (w.expStart e phaseMin fromH toH).besideBle = w.besideBle := by
  have hstart : (w.ble.start phaseMin fromH toH e.clock).1 =
      { w.ble with exp := .start phaseMin fromH toH, advMode := none, advArmed := false } :=
    congrArg Prod.fst (if_neg h)
  unfold World.expStart
  rw [hstart]
  exact ⟨rfl, rfl, rfl⟩

theorem expMember_spec {seen : ℕ} {b : BleReq} (h : w.expMember e seen b = some w') :
    w'.bleMemory = b.expAsked seen w.bleMemory ∧ w'.bleStored = w.bleStored ∧
      w'.besideBle = w.besideBle := by
  unfold World.expMember at h
  unfold BleReq.expAsked BleReq.window
  by_cases hseen : seen.testBit 2 = true
  · by_cases hzero : b.n 2 = 0
    · rw [if_pos ⟨hseen, hzero⟩] at h
      obtain rfl := Option.some.inj h
      obtain ⟨hmem, hbeside⟩ := expStop_spec e w
      refine ⟨hmem.trans ?_, hbeside⟩
      simp only [if_pos hseen, hzero, true_and, if_true]
    · rw [if_neg fun h => hzero h.2, if_pos hseen] at h
      obtain ⟨hstart, h⟩ := Option.ite_none_left_eq_some.mp h
      obtain rfl := Option.some.inj h
      obtain ⟨hmem, hbeside⟩ := expStart_spec hstart w
      refine ⟨hmem.trans ?_, hbeside⟩
      simp only [if_pos hseen, hzero, false_and, if_false]
  · rw [if_neg fun h => hseen h.1, if_neg hseen] at h
    obtain rfl := Option.some.inj h
    rw [if_neg hseen]
    exact ⟨rfl, rfl, rfl⟩

/-- The value of the member has room in its key. -/
def BleOp.fits : BleOp → Prop
  | .idle n => n ≤ BleExp.idleMaxMin
  | .rest n => n ≤ Session.restPollMaxMin

theorem bleSaved_fits {op : BleOp} (h : op.saved e = true) : op.fits := by
  cases op with
  | idle n =>
    have hn : n ≤ BleExp.idleMaxMin := of_decide_eq_true (Bool.and_eq_true_iff.mp h).1
    exact hn
  | rest n =>
    have hn : n ≤ Session.restPollMaxMin := of_decide_eq_true (Bool.and_eq_true_iff.mp h).1
    exact hn

theorem idleSet_fits {n now : ℕ} {mode : Mode} (h : n ≤ BleExp.idleMaxMin) (o : BleExp.Owner) :
    o.idleSet n true now mode = ({ o with idle := .set n now },
      if n = 0 ∧ ¬ o.exp.on ∧ mode ≠ .hold then [.set .hold .idle] else []) :=
  if_neg (not_or.mpr ⟨Nat.not_lt.mpr h, not_not.mpr rfl⟩)

theorem blePut_spec {op : BleOp} (h : op.fits) (w : World) :
    (op.put e w).bleMemory = op.apply w.bleMemory ∧ (op.put e w).bleStored = op.keep w.bleStored ∧
      (op.put e w).besideBle = w.besideBle := by
  cases op with
  | idle n =>
    have hn : n ≤ 60 := h
    have hback : (BitVec.ofNat 8 n).toNat = n := by
      simp only [BitVec.toNat_ofNat]
      omega
    unfold BleOp.put
    dsimp only
    rw [idleSet_fits (by exact hn)]
    dsimp only
    obtain ⟨s, hs, hknobs⟩ := sets_spec (e.at 1)
      (if n = 0 ∧ ¬ w.ble.exp.on ∧ w.session.mode ≠ .hold then [.set .hold .idle] else [])
      { w with ble := { w.ble with idle := .set n e.up }, bleIdle := some [BitVec.ofNat 8 n] }
    rw [hs]
    refine ⟨?_, ?_, rfl⟩
    · rw [bleMemory_session _ hknobs]
      have hmode : modeAfter w.session.mode (if n = 0 ∧ ¬ w.ble.exp.on ∧ w.session.mode ≠ .hold
          then [.set .hold .idle] else []) =
          if n = 0 ∧ w.bleMemory.exp = none then .hold else w.session.mode := by
        have hnone : w.bleMemory.exp = none ↔ ¬ w.ble.exp.on = true := by
          unfold World.bleMemory
          cases w.ble.exp.on <;> simp
        by_cases hhold : w.session.mode = .hold
        · rw [if_neg fun h => h.2.2 hhold, hhold, ite_self]
          rfl
        · split_ifs with h₁ h₂ h₂
          · rfl
          · exact absurd ⟨h₁.1, hnone.mpr h₁.2.1⟩ h₂
          · exact absurd ⟨h₂.1, hnone.mp h₂.2, hhold⟩ h₁
          · rfl
      rw [hmode]
      rfl
    · unfold World.bleStored BleExp.init BleOp.keep
      simp only [hback]
      rw [if_pos (by exact hn)]
      rfl
  | rest n =>
    have hn : n ≤ 240 := h
    have hback : (BitVec.ofNat 8 n).toNat = n := by
      simp only [BitVec.toNat_ofNat]
      omega
    refine ⟨bleMemory_session w (Session.setRestPoll_knobs n), ?_, rfl⟩
    unfold BleOp.put World.bleStored bootRest BleOp.keep
    simp only [hback]
    rw [if_pos (by exact hn)]

theorem bleAll_saved {l : List BleOp} (h : ∀ op ∈ l, op.saved e = true) (w : World) :
    (Saves.applyAll (BleOp.put e) l w).bleMemory = Saves.applyAll BleOp.apply l w.bleMemory ∧
      (Saves.applyAll (BleOp.put e) l w).bleStored = Saves.applyAll BleOp.keep l w.bleStored ∧
        (Saves.applyAll (BleOp.put e) l w).besideBle = w.besideBle := by
  have hput : ∀ op ∈ l, ∀ w, (op.put e w).bleMemory = op.apply w.bleMemory ∧
      (op.put e w).bleStored = op.keep w.bleStored ∧ (op.put e w).besideBle = w.besideBle :=
    fun op hop => blePut_spec (bleSaved_fits (h op hop))
  refine ⟨Saves.applyAll_view (fun op hop w => (hput op hop w).1) w,
    Saves.applyAll_view (fun op hop w => (hput op hop w).2.1) w, ?_⟩
  have hbeside : (Saves.applyAll (BleOp.put e) l w).besideBle =
      Saves.applyAll (fun _ x => x) l w.besideBle :=
    Saves.applyAll_view (fun op hop w => (hput op hop w).2.2) w
  rw [hbeside]
  exact List.foldl_fixed l

theorem bleRun_spec {b : BleReq} (seen : ℕ) (hbond : b.conn = true → e.hasBond = true) (w : World) :
    (w.bleRun e seen b).bleMemory = b.runAsked seen w.bleMemory ∧
      (w.bleRun e seen b).bleStored = w.bleStored ∧
      (w.bleRun e seen b).besideBle = w.besideBle := by
  refine ⟨?_, rfl, rfl⟩
  have hwarm : (if seen.testBit 6 then { w.session with warmMs := b.n 6 } else w.session).knobs =
      { w.session.knobs with warmMs := if seen.testBit 6 then b.n 6 else w.session.warmMs } := by
    split_ifs <;> rfl
  have hprobe : ∀ s : Session.State, (if b.probe then s.startProbe (e.at 3) else s).knobs =
      s.knobs := by
    intro s
    split_ifs
    · exact Session.startProbe_knobs
    · rfl
  have hconn : ∀ s : Session.State, (if b.conn then s.connectButton (e.at 4) else s).knobs =
      { s.knobs with mode := if b.conn then .hold else s.knobs.mode } := by
    intro s
    split_ifs with hc
    · unfold Session.State.connectButton
      rw [if_neg (not_not.mpr (by exact hbond hc))]
      exact Session.wake_knobs
    · rfl
  have hactive : ∀ s : Session.State, (if b.active then s.input (e.at 5) e.up else s).knobs =
      s.knobs := by
    intro s
    split_ifs
    · exact Session.input_knobs e.up
    · rfl
  have hlast : ∀ s : Session.State, s.knobs = { w.session.knobs with
      warmMs := if seen.testBit 6 then b.n 6 else w.session.warmMs
      mode := b.mode.join.getD w.session.knobs.mode } → _ := fun s hs =>
    bleMemory_session w ((hactive _).trans ((hconn _).trans (congrArg
      (fun k : Session.Knobs => { k with mode := if b.conn then .hold else k.mode })
      ((hprobe s).trans hs))))
  refine hlast _ ?_
  split
  · rename_i mode hmode
    rw [Session.setMode_knobs, hwarm, hmode]
    rfl
  · rename_i hmode
    have hjoin : b.mode.join = none := by
      rcases hm : b.mode with _ | _ | mode
      · rfl
      · rfl
      · exact absurd hm (hmode mode)
    rw [hjoin]
    exact hwarm

section Length

open OpenCalifornia.Json (Tree Text quoted membersText)

theorem escape_length (c : Byte) : (OpenCalifornia.Json.escape c).length ≤ 6 := by
  unfold OpenCalifornia.Json.escape
  split_ifs <;> simp

theorem quoted_length (s : List Byte) : (quoted s).length ≤ 6 * s.length + 2 := by
  have hflat : (s.flatMap OpenCalifornia.Json.escape).length ≤ 6 * s.length := by
    induction s with
    | nil => exact le_rfl
    | cons c s ih =>
      have hc := escape_length c
      rw [List.flatMap_cons, List.length_append, List.length_cons]
      omega
  simp only [quoted, List.length_cons, List.length_append, List.length_nil]
  omega

theorem members_length {ms : List (Text × Tree)} {n : ℕ}
    (h : ∀ m ∈ ms, m.1.val.length ≤ 20 ∧ m.2.text.length ≤ n) :
    (membersText ms).length ≤ (124 + n) * ms.length := by
  induction ms with
  | nil => exact le_rfl
  | cons m ms ih =>
    obtain ⟨⟨hkey, hval⟩, hms⟩ := List.forall_mem_cons.mp h
    have hrest := ih hms
    have hquoted := quoted_length m.1.val
    have hcomma : (if ms.isEmpty then [] else (0x2C : Byte) :: membersText ms).length ≤
        1 + (membersText ms).length := by
      split_ifs
      · exact Nat.zero_le _
      · exact (Nat.add_comm ..).le
    simp only [membersText, List.length_cons, List.length_append] at hcomma ⊢
    rw [Nat.mul_succ]
    omega

theorem obj_length {ms : List (Text × Tree)} {n : ℕ}
    (h : ∀ m ∈ ms, m.1.val.length ≤ 20 ∧ m.2.text.length ≤ n) :
    (Tree.obj ms).text.length ≤ (124 + n) * ms.length + 2 := by
  have hms := members_length h
  simp only [Tree.text, List.length_cons, List.length_append, List.length_nil]
  omega

theorem int_length (n : ℤ) : (intTree n).text.length ≤ 50 := by
  have h := OpenCalifornia.Json.length_lld (BitVec.ofInt 64 n)
  simp only [intTree, Tree.text]
  omega

theorem mode_length (m : Mode) : (Tree.str (modeText m)).text.length ≤ 50 := by
  have h := quoted_length (modeText m).val
  have hlen : (modeText m).val.length ≤ 5 := by
    cases m <;> decide
  simp only [Tree.text]
  omega

theorem bool_length (b : Bool) : (Tree.bool b).text.length ≤ 50 := by
  cases b <;> decide

theorem exp_length (w : World) (now : ℕ) : (expTree w now).text.length ≤ 1200 := by
  have hnull : (Tree.null).text.length ≤ 50 := by decide
  unfold expTree
  split_ifs
  · refine le_trans (obj_length (n := 50) ?_) ?_
    · simp only [List.forall_mem_cons]
      refine ⟨⟨by decide, bool_length true⟩, ⟨by decide, int_length _⟩, ⟨by decide, int_length _⟩,
        ⟨by decide, int_length _⟩, ⟨by decide, ?_⟩, ⟨by decide, ?_⟩, List.forall_mem_nil _⟩
      · cases w.ble.exp.want with
        | none => exact hnull
        | some m => exact mode_length m
      · cases w.ble.exp.want with
        | none => exact hnull
        | some m => exact int_length _
    · show (124 + 50) * 6 + 2 ≤ 1200
      decide
  · exact hnull.trans (by decide : 50 ≤ 1200)

theorem fields_length (w : World) (now : ℕ) :
    (OpenCalifornia.Json.docText (bleFields w now)).length < jsonMax := by
  have hle : (OpenCalifornia.Json.docText (bleFields w now)).length ≤ (124 + 1200) * 6 + 2 := by
    refine obj_length (n := 1200) ?_
    have hsmall : ∀ {t : Tree}, t.text.length ≤ 50 → t.text.length ≤ 1200 := fun h =>
      h.trans (by decide)
    unfold bleFields
    simp only [List.forall_mem_cons]
    refine ⟨⟨by decide, hsmall (mode_length _)⟩, ⟨by decide, hsmall (bool_length _)⟩,
      ⟨by decide, exp_length w now⟩, ⟨by decide, hsmall (int_length _)⟩,
      ⟨by decide, hsmall (int_length _)⟩, ⟨by decide, ?_⟩, List.forall_mem_nil _⟩
    cases w.advAt with
    | none => exact hsmall (by decide : (Tree.null).text.length ≤ 50)
    | some at' => exact hsmall (int_length _)
  exact hle.trans_lt (by decide)

end Length

theorem toInt32_small {n : ℕ} (h : n < jsonMax) : ¬ OpenCalifornia.Json.toInt32 n < 0 := by
  have hn : n < 8192 := h
  unfold OpenCalifornia.Json.toInt32
  rw [Int.bmod_eq_of_le (by omega) (by omega)]
  omega

theorem answer_fits (w : World) (now : ℕ) : (finishJson (bleFields w now)).status = 200 := by
  have hlen := fields_length w now
  have hret := ((OpenCalifornia.Json.document_spec (fun _ => 0) jsonMax (bleFields w now)).2.1
    hlen).2
  have hok : ¬ (OpenCalifornia.Json.document (fun _ => 0) jsonMax (bleFields w now)).2 < 0 := by
    rw [hret]
    exact toInt32_small hlen
  unfold finishJson
  dsimp only
  rw [if_neg hok]

/-- What a request about the link does, by its answer. -/
structure BleOutcome (e : Env) (body : List Byte) (w : World) (r : Reply × World) : Prop where
  refused : 400 ≤ r.1.status → r.1.status < 500 → r.2 = w
  failed : 500 ≤ r.1.status → ∃ seen b done op rest, bleForm.parse body {} = some (seen, b) ∧
    b.ops seen = done ++ op :: rest ∧ (∀ o ∈ done, o.saved e = true) ∧ op.saved e = false ∧
    r.2.bleMemory = Saves.applyAll BleOp.apply done (b.expAsked seen w.bleMemory) ∧
    r.2.bleStored = Saves.applyAll BleOp.keep done w.bleStored
  success : r.1.status < 400 → ∃ seen b, bleForm.parse body {} = some (seen, b) ∧
    b.Asked seen w.bleMemory r.2.bleMemory ∧ b.AskedStored seen w.bleStored r.2.bleStored
  beside : r.2.besideBle = w.besideBle

theorem BleOutcome.early {status : ℕ} {error : String} (h : 400 ≤ status ∧ status < 500) :
    BleOutcome e body w (refuse status error, w) where
  refused := fun _ _ => rfl
  failed := fun h' => absurd h' (Nat.not_le.mpr h.2)
  success := fun h' => absurd h.1 (Nat.not_le.mpr h')
  beside := rfl

theorem ble_outcome (e : Env) (body : List Byte) (w : World) :
    BleOutcome e body w (apiBle e body w) := by
  unfold apiBle
  by_cases hmode : wifiMode w.wifi.sm ≠ .station
  · rw [if_pos hmode]
    exact .early (by decide)
  rw [if_neg hmode]
  cases hparse : bleForm.parse body {} with
  | none => exact .early (by decide)
  | some sb =>
    obtain ⟨seen, b⟩ := sb
    dsimp only
    by_cases hkeys : seen &&& 999 = 0
    · rw [if_pos hkeys]
      exact .early (by decide)
    by_cases hbad : b.bad
    · rw [if_neg hkeys, if_pos hbad]
      exact .early (by decide)
    by_cases hbusy : b.probe ∧ (¬ w.session.active ∨ w.session.probe)
    · rw [if_neg hkeys, if_neg hbad, if_pos hbusy]
      exact .early (by decide)
    by_cases hpaired : b.conn ∧ ¬ e.hasBond
    · rw [if_neg hkeys, if_neg hbad, if_neg hbusy, if_pos hpaired]
      exact .early (by decide)
    rw [if_neg hkeys, if_neg hbad, if_neg hbusy, if_neg hpaired]
    cases hexp : w.expMember e seen b with
    | none => exact .early (by decide)
    | some w₁ =>
      dsimp only
      obtain ⟨hmem, hstored, hbeside⟩ := expMember_spec hexp
      obtain ⟨hrun, hall⟩ | ⟨done, op, rest, hops, hdone, hop, hrun⟩ :=
        @Saves.run_cases _ _ (BleOp.saved e) (BleOp.put e) (b.ops seen) w₁
      · obtain ⟨hmem', hstored', hbeside'⟩ := bleAll_saved hall w₁
        have hbond : b.conn = true → e.hasBond = true :=
          fun hc => not_not.mp fun h => hpaired ⟨hc, h⟩
        obtain ⟨hmem'', hstored'', hbeside''⟩ :=
          bleRun_spec seen hbond (Saves.applyAll (BleOp.put e) (b.ops seen) w₁)
        rw [hrun, if_pos rfl]
        dsimp only
        refine ⟨fun h => ?_, fun h => ?_, fun _ => ⟨seen, b, hparse, ?_, ?_⟩, ?_⟩
        · rw [answer_fits] at h
          exact absurd h (by decide)
        · rw [answer_fits] at h
          exact absurd h (by decide)
        · rw [hmem'', hmem', hmem]
          exact asked_ble b seen _
        · rw [hstored'', hstored', hstored]
          exact asked_stored b seen _
        · exact hbeside''.trans (hbeside'.trans hbeside)
      · obtain ⟨hmem', hstored', hbeside'⟩ := bleAll_saved hdone w₁
        rw [hrun, if_neg Bool.false_ne_true]
        refine ⟨fun _ h => absurd h (by decide : ¬ 500 < 500), fun _ => ⟨seen, b, done, op, rest,
          hparse, hops, hdone, hop, ?_, ?_⟩, fun h => absurd h (by decide : ¬ 500 < 400),
          hbeside'.trans hbeside⟩
        · rw [hmem', hmem]
        · rw [hstored', hstored]

end OpenCalifornia.Web
