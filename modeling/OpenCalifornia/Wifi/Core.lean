import OpenCalifornia.Wifi.State

/-! # The credentials of the WiFi runtime

The part of the runtime that keeps, replaces and clears credentials. The actions on the hotspot,
the scans and the page's data leave it alone. -/

namespace OpenCalifornia.Wifi
open Lib Lib.Bits Lib.Machine

/-- A call about a join or the stored credentials. -/
def Call.aboutCreds : Call → Bool
  | .staStart _ _ => true
  | .cleared _ => true
  | .restored _ _ => true
  | _ => false

structure Core where
  sm : Sm
  creds : Option Creds
  prev : Option Creds
  joinFailed : Bool
  joining : Option Creds
  ssid : Option (List Byte)
  psk : Option (List Byte)
  calls : List Call

/-- The credentials are in place and in the store. -/
def Core.Stores (k : Core) (c : Creds) : Prop :=
  k.creds = some c ∧ k.ssid = some c.ssid ∧ k.psk = some c.psk

def State.core (w : State) : Core where
  sm := w.sm
  creds := w.creds
  prev := w.prev
  joinFailed := w.joinFailed
  joining := w.joining
  ssid := w.kv.ssid
  psk := w.kv.psk
  calls := w.calls.filter Call.aboutCreds

namespace Core

def staStart (k : Core) (e : Env) : Core :=
  match k.creds with
  | none => { k with joinFailed := true }
  | some c => { k with
      joinFailed := k.joinFailed || !e.staStart
      joining := if e.staStart then some c else if e.staKeeps then k.joining else none
      calls := .staStart c e.staStart :: k.calls }

def clearCreds (k : Core) (e : Env) : Core := { k with
  creds := none
  ssid := if e.kvErase .ssid then none else k.ssid
  psk := if e.kvErase .psk then none else k.psk
  calls := .cleared k.creds :: k.calls }

def restorePrev (k : Core) (e : Env) : Core :=
  match k.prev with
  | none => { k with calls := .restored k.creds none :: k.calls }
  | some p => { k with
      creds := some p
      prev := none
      ssid := if e.kvSet .ssid then some p.ssid else k.ssid
      psk := if e.kvSet .psk then some p.psk else k.psk
      calls := .restored k.creds (some p) :: k.calls }

def run (e : Env) (k : Core) (a : Action) : Core :=
  match a with
  | .staStart => k.staStart e
  | .staStop => { k with joining := none }
  | .clearCreds => k.clearCreds e
  | .restorePrev => k.restorePrev e
  | _ => k

def feedSkip (k : Core) (e : Env) (ev : Ev) (skip : Option Action) : Core :=
  ((k.sm.step ev).2.filter fun a => some a ≠ skip).foldl (run e) { k with sm := (k.sm.step ev).1 }

def feed (k : Core) (e : Env) (ev : Ev) : Core := k.feedSkip e ev none

end Core

variable {w : State} {e : Env}

theorem setOk_core (ok : Bool) : (w.setOk e ok).core = w.core := by
  unfold State.setOk
  split_ifs <;> rfl

theorem markUnjoined_core : (w.markUnjoined e).core = w.core := setOk_core (w := w) false

theorem startScan_core : (w.startScan e).core = w.core := by
  unfold State.startScan
  split_ifs <;> rfl

theorem openAp_core : (w.openAp e).core = w.core := by
  unfold State.openAp
  split <;> rfl

theorem apStart_core : (w.apStart e).core = w.core := by
  unfold State.apStart
  rw [startScan_core]
  split_ifs
  · rfl
  · exact openAp_core

theorem staStart_core : (w.staStart e).core = w.core.staStart e := by
  unfold State.staStart Core.staStart
  cases hc : w.creds with
  | none => simp [State.core, hc]
  | some c =>
    simp only [State.core, State.call, hc]
    congr 1

theorem clearCreds_core : (w.clearCreds e).core = w.core.clearCreds e := by
  unfold State.clearCreds State.markUnjoined State.setOk Core.clearCreds
  split_ifs <;> rfl

theorem restorePrev_core : (w.restorePrev e).core = w.core.restorePrev e := by
  unfold State.restorePrev Core.restorePrev State.setOk
  cases hp : w.prev with
  | none =>
    simp only [State.core, State.call, hp]
    congr 1
  | some p =>
    simp only [State.core, State.call, hp]
    split_ifs <;> congr 1

theorem runAction_core (a : Action) : (w.runAction e a).core = w.core.run e a := by
  cases a with
  | apStart => exact apStart_core
  | apStop => rfl
  | staStart => exact staStart_core
  | staStop => rfl
  | mdns => rfl
  | clearCreds => exact clearCreds_core
  | logReason reason => rfl
  | restorePrev => exact restorePrev_core

theorem actions_core (acts : List Action) :
    (acts.foldl (State.runAction e) w).core = acts.foldl (Core.run e) w.core := by
  induction acts generalizing w with
  | nil => rfl
  | cons a acts ih => rw [List.foldl_cons, List.foldl_cons, ih, runAction_core]

theorem feedSkip_core (ev : Ev) (skip : Option Action) :
    (w.feedSkip e ev skip).core = w.core.feedSkip e ev skip := actions_core _

theorem feed_core (ev : Ev) : (w.feed e ev).core = w.core.feed e ev := feedSkip_core ev none

theorem gotIp_core (ip : ℕ) :
    (w.onNet e (.gotIp ip)).core =
      let k := ({ w.core with joining := none } : Core).feed e .gotIp
      if k.sm.st = .online then { k with prev := none } else k := by
  have hfeed : (({ w with joining := none } : State).feed e .gotIp).core =
      ({ w.core with joining := none } : Core).feed e .gotIp := feed_core _
  have honline : ∀ w : State, (w.online e ip).core = { w.core with prev := none } := by
    intro w
    unfold State.online State.setOk
    split_ifs <;> rfl
  dsimp only [State.onNet]
  rw [← hfeed]
  by_cases hst : (({ w with joining := none } : State).feed e .gotIp).sm.st = .online
  · have hst' : (({ w with joining := none } : State).feed e .gotIp).core.sm.st = .online := hst
    rw [if_pos hst, if_pos hst', honline]
  · have hst' : ¬ (({ w with joining := none } : State).feed e .gotIp).core.sm.st = .online := hst
    rw [if_neg hst, if_neg hst']

theorem lost_core : (w.onNet e .lost).core = w.core.feed e .lost := by
  dsimp only [State.onNet]
  rw [feed_core]
  split_ifs <;> rfl

theorem failed_core (reason : Reason) : (w.onNet e (.failed reason)).core =
    ({ w.core with joining := none } : Core).feed e (.failed reason) := feed_core _

theorem feedCredsSet_core : (w.feedCredsSet e).core =
    ({ w.core with prev := none } : Core).feed e .credsSet := feed_core _

theorem forget_core : (w.forget e).core =
    ({ w.core with prev := none } : Core).feed e .credsForget := feed_core _

theorem tickFailed_core : (w.tickFailed e).core =
    if w.joinFailed then ({ w.core with joinFailed := false } : Core).feed e (.failed .other)
    else w.core := by
  unfold State.tickFailed
  split_ifs
  · exact feed_core _
  · rfl

theorem tick_core (now : ℕ) : (w.tick e now).core =
    (({ w with now } : State).tickFailed e).core.feed e (.tick now) := by
  have hrssi : ∀ w : State, (w.tickRssi e now).core = w.core := by
    intro w
    unfold State.tickRssi
    split_ifs <;> rfl
  unfold State.tick
  dsimp only
  rw [hrssi, ← feed_core]
  split_ifs
  · exact startScan_core
  · rfl

theorem scanAuto_core : (w.scanAuto e).core = w.core := by
  unfold State.scanAuto
  split_ifs
  · exact startScan_core
  · rfl

/-- What a step does to the credentials when they are new. -/
def Core.join (k : Core) (e : Env) : Core :=
  if k.sm.st = .setupAp ∨ k.sm.st = .setupApRetrying then
    ({ k with prev := none } : Core).feed e .credsSet
  else if k.prev.isSome ∧ k.sm.joinedOnce ≠ .no then k.feed e .credsReplace
  else if k.sm.st ≠ .unprovisioned then
    ({ k.feedSkip e .credsForget (some .clearCreds) with prev := none } : Core).feed e .credsSet
  else k

theorem join_core : (w.join e).core = w.core.join e := by
  unfold State.join Core.join
  by_cases hsetup : w.sm.st = .setupAp ∨ w.sm.st = .setupApRetrying
  · have hsetup' : w.core.sm.st = .setupAp ∨ w.core.sm.st = .setupApRetrying := hsetup
    rw [if_pos hsetup, if_pos hsetup', feedCredsSet_core]
  have hsetup' : ¬ (w.core.sm.st = .setupAp ∨ w.core.sm.st = .setupApRetrying) := hsetup
  rw [if_neg hsetup, if_neg hsetup']
  by_cases hprev : w.prev.isSome ∧ w.sm.joinedOnce ≠ .no
  · have hprev' : w.core.prev.isSome ∧ w.core.sm.joinedOnce ≠ .no := hprev
    rw [if_pos hprev, if_pos hprev']
    exact feed_core _
  have hprev' : ¬ (w.core.prev.isSome ∧ w.core.sm.joinedOnce ≠ .no) := hprev
  rw [if_neg hprev, if_neg hprev']
  by_cases hoff : w.sm.st ≠ .unprovisioned
  · have hoff' : w.core.sm.st ≠ .unprovisioned := hoff
    have hskip : (({ w with ip := 0, rssi := 0 } : State).feedSkip e .credsForget
        (some .clearCreds)).core = w.core.feedSkip e .credsForget (some .clearCreds) :=
      feedSkip_core _ _
    rw [if_pos hoff, if_pos hoff', feedCredsSet_core, hskip]
  · have hoff' : ¬ w.core.sm.st ≠ .unprovisioned := hoff
    rw [if_neg hoff, if_neg hoff']

theorem Creds.of?_eq (c : Creds) : Creds.of? c.ssid c.psk = some c :=
  dif_pos ⟨c.ssid_len, c.psk_len⟩

theorem setCreds_core (c : Creds) : (Op.apply (.setCreds c) e w).core =
    if w.keepsJoin c.ssid c.psk then { w.core with ssid := some c.ssid, psk := some c.psk }
    else ({ w.core with
      ssid := some c.ssid
      psk := some c.psk
      prev := w.stash
      creds := some c } : Core).join e := by
  show (State.setCreds { w with kv := w.kv.store c } e c.ssid c.psk).core = _
  unfold State.setCreds
  have hkeep : State.keepsJoin { w with kv := w.kv.store c } c.ssid c.psk ↔
      w.keepsJoin c.ssid c.psk := Iff.rfl
  by_cases h : w.keepsJoin c.ssid c.psk
  · rw [if_pos (hkeep.mpr h), if_pos h]
    rfl
  · rw [if_neg fun h' => h (hkeep.mp h'), if_neg h, Creds.of?_eq]
    dsimp only
    rw [join_core, markUnjoined_core]
    rfl

theorem boot_core (kv : Kv) : (State.boot kv e).core =
    let k : Core := ⟨{}, kv.load e, none, false, none, kv.ssid, kv.psk, []⟩
    if (kv.load e).isSome ∧ ¬ kv.joined e then
      ({ k.feed e .bootNoCreds with prev := none } : Core).feed e .credsSet
    else k.feed e (if (kv.load e).isSome then .bootWithCreds else .bootNoCreds) := by
  unfold State.boot
  dsimp only
  split_ifs
  · rw [feedCredsSet_core, feed_core]
    rfl
  · exact feed_core _
  · exact feed_core _

end OpenCalifornia.Wifi
