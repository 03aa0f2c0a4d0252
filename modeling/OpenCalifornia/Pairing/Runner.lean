import OpenCalifornia.Lib.Machine
import OpenCalifornia.Lib.Ring
import OpenCalifornia.Pairing.Trace

/-! # The runner of the satellite

`runner.c` steps the machine through the events of the transport and runs its actions as transport
calls. Anything may be called again while a transport call runs: a sink, the console, a tick. -/

namespace OpenCalifornia.Pairing
open Lib Lib.Machine

/-- `cali_pair_step`, branch by branch. -/
def caliPairStep (ps : PairingState) (ev : Ev) : PairingState × List Act :=
  let st := ps.st
  if ev = .cancel then (⟨.idle, 0, .none⟩, cleanup st)
  else if ev = .timeout ∧ (timeoutS st).isSome then (⟨.error, ps.attempts, .timeout⟩, cleanup st)
  else if ev = .reset ∧ (st = .bonded ∨ st = .error ∨ st = .idle) then
    (⟨.resetting, 0, .none⟩, [.removeBond])
  else if (st = .idle ∨ st = .error) ∧ ev = .start then (⟨.scanning, 0, .none⟩, [.startScan])
  else if st = .scanning ∧ ev = .deviceFound then
    (⟨.connecting, ps.attempts, .none⟩, [.stopScan, .connect])
  else if st = .connecting ∧ ev = .connected then (⟨.pairing, ps.attempts, .none⟩, [.pair])
  else if st = .pairing ∧ ev = .passkeyRequested then
    (⟨.waitingPasskey, ps.attempts, .none⟩, [])
  else
    match st, ev with
    | .waitingPasskey, .passkeyEntered arg => (⟨.pairing, ps.attempts, .none⟩, [.sendPasskey arg])
    | _, _ =>
      if st = .pairing ∧ ev = .pairOk then (⟨.verifying, ps.attempts, .none⟩, [.verify])
      else if st = .pairing ∧ ev = .pairFail ∨ st = .connecting ∧ ev = .connectFail then
        let att := (ps.attempts + 1) % 256
        let err := if ev = .pairFail then Err.pair else .connect
        if att < maxAttempts then (⟨.scanning, att, .none⟩, [.disconnect, .startScan])
        else (⟨.error, att, err⟩, [.disconnect])
      else
        match st, ev with
        | .verifying, .verifyOk _ => (⟨.bonded, ps.attempts, .none⟩, [.persistBond])
        | _, _ =>
          if st = .verifying ∧ ev = .verifyFail then
            (⟨.error, ps.attempts, .verify⟩, [.disconnect])
          else if st = .resetting ∧ ev = .resetDone then (⟨.idle, 0, .none⟩, [])
          else (ps, [])

theorem caliPairStep_eq (ps : PairingState) (ev : Ev) (h : ps.attempts < 255) :
    caliPairStep ps ev = step ps ev := by
  obtain ⟨st, attempts, error⟩ := ps
  have hatt : (attempts + 1) % 256 = attempts + 1 := Nat.mod_eq_of_lt (Nat.succ_lt_succ h)
  cases ev <;> cases st <;> simp [caliPairStep, step, timeoutS, retry, hatt]

/-- `CODEC_CHAR_AUTH` -/
def authChar : ℕ := 0x1004

/-- The transport events, of which `map_event` knows some. -/
inductive TEvent
  | found
  | connected
  | connectFail
  | passkeyReq
  | encOk
  | encFail
  | disconnected
  | read (char : ℕ) (status : ℤ)
  | other
  deriving DecidableEq, Repr

def inFlow (st : St) : Bool :=
  st = .scanning ∨ st = .connecting ∨ st = .waitingPasskey ∨ st = .pairing ∨ st = .verifying ∨
    st = .resetting

/-- `map_event`. What it leaves goes to the session. -/
def mapEvent (st : St) (e : TEvent) : Option Ev :=
  if !inFlow st then none
  else
    match e with
    | .found => some .deviceFound
    | .connected => some .connected
    | .connectFail => some .connectFail
    | .passkeyReq => some .passkeyRequested
    | .encOk => some .pairOk
    | .encFail => some .pairFail
    | .disconnected =>
      if st = .connecting then some .connectFail
      else if st = .waitingPasskey ∨ st = .pairing then some .pairFail
      else if st = .verifying then some .verifyFail
      else none
    | .read char status =>
      if st ≠ .verifying ∨ char ≠ authChar then none
      else if status ≠ 0 then some .verifyFail
      else some (.verifyOk 1)
    | .other => none

/-- What may be called from outside. -/
inductive Call
  | start
  | passkey (pk : ℕ)
  | forget
  | cancel
  | tick (nowMs : BitVec 64)
  | sink (e : TEvent)

/-- Where a run of the loop in `feed` stands. -/
inductive Frame
  /-- Before the test of `s_qlen`. -/
  | loop
  /-- Inside `step`, before the next action. -/
  | acts (rest : List Act) (changed : Bool)
  /-- Inside the transport call of an action. -/
  | inCall (a : Act) (rest : List Act) (changed : Bool)
  /-- Inside `cali_runner_on_state`. -/
  | hook

/-- `QLEN` -/
def qlen : ℕ := 8

/-- The variables of `runner.c`, and the calls of `feed` that have not returned. -/
structure Runner where
  ps : PairingState := {}
  nowMs : BitVec 64 := 0
  enteredMs : BitVec 64 := 0
  queue : Ring Ev qlen := .empty .start (by decide)
  draining : Bool := false
  frames : List Frame := []

/-- What a step lets see: the events that were queued, and what was stepped and run. -/
structure Did where
  fed : List Ev := []
  log : List Entry := []

def Runner.feed (k : Runner) (ev : Ev) : Did × Runner :=
  let r : Did × Runner :=
    if h : k.queue.n < qlen then ({ fed := [ev] }, { k with queue := k.queue.put ev h })
    else ({}, k)
  if r.2.draining then r
  else (r.1, { r.2 with draining := true, frames := .loop :: r.2.frames })

def Runner.feedIf (k : Runner) : Option Ev → Did × Runner
  | some ev => k.feed ev
  | none => ({}, k)

def Runner.tick (k : Runner) (nowMs : BitVec 64) : Did × Runner :=
  let k := { k with nowMs := nowMs }
  match timeoutS k.ps.st with
  | some t => if (nowMs - k.enteredMs).toNat ≥ t * 1000 then k.feed .timeout else ({}, k)
  | none => ({}, k)

def Runner.call (k : Runner) : Call → Did × Runner
  | .start => k.feed .start
  | .passkey pk => if k.ps.st = .waitingPasskey then k.feed (.passkeyEntered pk) else ({}, k)
  | .forget => k.feed .reset
  | .cancel => k.feed .cancel
  | .tick nowMs => k.tick nowMs
  | .sink e => k.feedIf (mapEvent k.ps.st e)

/-- What `run_action` feeds when the transport call of an action returned. -/
def answer (a : Act) (ok : Bool) : Option Ev :=
  match a with
  | .connect => if ok then none else some .connectFail
  | .pair | .sendPasskey _ => if ok then none else some .pairFail
  | .verify => if ok then none else some .verifyFail
  | .removeBond => if ok then some .resetDone else none
  | .startScan | .stopScan | .persistBond | .disconnect => none

/-- The start of `step`, up to its first action. -/
def Runner.begin (k : Runner) (ev : Ev) (fs : List Frame) : Did × Runner :=
  let r := caliPairStep k.ps ev
  let changed : Bool := k.ps ≠ r.1
  ({ log := [.ev ev] }, { k with
    ps := r.1
    enteredMs := if changed then k.nowMs else k.enteredMs
    frames := .acts r.2 changed :: fs })

/-- One turn of `feed` where no call is waited for. -/
def Runner.go (k : Runner) : Option (Did × Runner) :=
  match k.frames with
  | .loop :: fs =>
    match k.queue.toList with
    | ev :: _ => some ({ k with queue := k.queue.pop }.begin ev fs)
    | [] => some ({}, { k with draining := false, frames := fs })
  | .acts (a :: rest) changed :: fs =>
    some ({ log := [.act a] }, { k with frames := .inCall a rest changed :: fs })
  | .acts [] changed :: fs =>
    some ({}, { k with frames := (if changed then .hook else .loop) :: fs })
  | _ => none

/-- A transport call or the hook returns. -/
def Runner.ret (k : Runner) (ok : Bool) : Option (Did × Runner) :=
  match k.frames with
  | .inCall a rest changed :: fs =>
    some ({ k with frames := .acts rest changed :: fs }.feedIf (answer a ok))
  | .hook :: fs => some ({}, { k with frames := .loop :: fs })
  | _ => none

/-- Whether the runner has handed control to its surroundings. -/
def Runner.outside (k : Runner) : Bool :=
  match k.frames with
  | [] | .inCall .. :: _ | .hook :: _ => true
  | _ => false

inductive Turn
  | call (c : Call)
  | ret (ok : Bool)
  | go

def runnerStep (i : Turn) (k : Runner) : Option (Did × Runner) :=
  match i with
  | .call c => if k.outside then some (k.call c) else none
  | .ret ok => k.ret ok
  | .go => k.go

abbrev RunnerRecord := Record Turn Did Runner

/-- The events stepped and the actions run, in order. -/
def logOf : List RunnerRecord → List Entry
  | [] => []
  | r :: tr => logOf tr ++ r.out.log

/-- The events that were queued, in order. -/
def fedOf : List RunnerRecord → List Ev
  | [] => []
  | r :: tr => fedOf tr ++ r.out.fed

/-- The actions that the step under way has still to run. -/
def Runner.pending (k : Runner) : List Act :=
  match k.frames with
  | .acts rest _ :: _ | .inCall _ rest _ :: _ => rest
  | _ => []

/-- The runner has stepped the machine through `evs`: one step at a time, each with its actions in
order, the events in the order they were queued. -/
structure Follows (log : List Entry) (fed : List Ev) (k : Runner) (evs : List Ev) : Prop where
  log : log ++ k.pending.map .act = (machine evs).2
  state : k.ps = (machine evs).1
  fed : fed = evs ++ k.queue.toList
  single : k.frames.length ≤ 1
  draining : k.draining = true ↔ k.frames ≠ []
  waits : k.frames = [] → k.queue.toList = []

/-- An event was queued, or none, and the loop was entered if no step was under way. -/
structure Feeds (k : Runner) (d : Did) (k' : Runner) : Prop where
  log : d.log = []
  ps : k'.ps = k.ps
  queue : k'.queue.toList = k.queue.toList ++ d.fed
  frames : k'.frames = k.frames ∧ k'.draining = k.draining ∧ (k.draining = true ∨ d.fed = []) ∨
    k.draining = false ∧ k'.frames = .loop :: k.frames ∧ k'.draining = true

variable {log : List Entry} {fed evs : List Ev} {k k' : Runner} {d : Did}

theorem feeds_none (k : Runner) (nowMs : BitVec 64) : Feeds k {} { k with nowMs := nowMs } where
  log := rfl
  ps := rfl
  queue := (List.append_nil _).symm
  frames := .inl ⟨rfl, rfl, .inr rfl⟩

theorem feeds_feed (k : Runner) (ev : Ev) : Feeds k (k.feed ev).1 (k.feed ev).2 := by
  unfold Runner.feed
  dsimp only
  by_cases hroom : k.queue.n < qlen
  · rw [dif_pos hroom]
    have hput := k.queue.toList_put ev hroom
    cases hd : k.draining with
    | true =>
      rw [if_pos rfl]
      exact ⟨rfl, rfl, hput, .inl ⟨rfl, hd.symm, .inl hd⟩⟩
    | false =>
      rw [if_neg Bool.false_ne_true]
      exact ⟨rfl, rfl, hput, .inr ⟨hd, rfl, rfl⟩⟩
  · rw [dif_neg hroom]
    cases hd : k.draining with
    | true =>
      rw [if_pos rfl]
      exact ⟨rfl, rfl, (List.append_nil _).symm, .inl ⟨rfl, rfl, .inl hd⟩⟩
    | false =>
      rw [if_neg Bool.false_ne_true]
      exact ⟨rfl, rfl, (List.append_nil _).symm, .inr ⟨hd, rfl, rfl⟩⟩

theorem feeds_feedIf (k : Runner) (ev : Option Ev) : Feeds k (k.feedIf ev).1 (k.feedIf ev).2 := by
  cases ev with
  | none => exact feeds_none k k.nowMs
  | some ev => exact feeds_feed k ev

theorem feeds_call (k : Runner) (c : Call) : Feeds k (k.call c).1 (k.call c).2 := by
  cases c with
  | start => exact feeds_feed k _
  | forget => exact feeds_feed k _
  | cancel => exact feeds_feed k _
  | passkey pk =>
    unfold Runner.call
    dsimp only
    split_ifs
    · exact feeds_feed k _
    · exact feeds_none k k.nowMs
  | sink e => exact feeds_feedIf k _
  | tick nowMs =>
    show Feeds k (k.tick nowMs).1 (k.tick nowMs).2
    unfold Runner.tick
    dsimp only
    split
    · split_ifs
      · obtain ⟨hlog, hps, hqueue, hframes⟩ := feeds_feed { k with nowMs := nowMs } .timeout
        exact ⟨hlog, hps, hqueue, hframes⟩
      · exact feeds_none k nowMs
    · exact feeds_none k nowMs

theorem Follows.feeds (h : Follows log fed k evs) (hf : Feeds k d k') :
    Follows (log ++ d.log) (fed ++ d.fed) k' evs := by
  have hfed : fed ++ d.fed = evs ++ k'.queue.toList := by
    rw [hf.queue, h.fed, List.append_assoc]
  have hlog := hf.log
  obtain ⟨hframes, hd, hnone⟩ | ⟨hd, hframes, hd'⟩ := hf.frames
  · refine ⟨?_, hf.ps.trans h.state, hfed, hframes ▸ h.single, by rw [hd, hframes, h.draining],
      fun hnil => ?_⟩
    · rw [hlog, List.append_nil, ← h.log]
      unfold Runner.pending
      rw [hframes]
    · rw [hframes] at hnil
      have hquiet : d.fed = [] := hnone.resolve_left fun hd => h.draining.mp hd hnil
      rw [hf.queue, hquiet, h.waits hnil, List.append_nil]
  · -- no step was under way, so the loop is the only frame
    have hnil : k.frames = [] := by
      by_contra hne
      exact absurd (h.draining.mpr hne) (by rw [hd]; decide)
    rw [hnil] at hframes
    refine ⟨?_, hf.ps.trans h.state, hfed, by rw [hframes]; exact Nat.le_refl _,
      by rw [hd', hframes]; simp, fun hno => by rw [hframes] at hno; cases hno⟩
    rw [hlog, List.append_nil, ← h.log]
    unfold Runner.pending
    rw [hframes, hnil]

theorem Follows.go (h : Follows log fed k evs) (hgo : k.go = some (d, k')) :
    ∃ evs', Follows (log ++ d.log) (fed ++ d.fed) k' evs' := by
  have hsingle := h.single
  have hlog := h.log
  unfold Runner.go at hgo
  unfold Runner.pending at hlog
  cases hframes : k.frames with
  | nil =>
    rw [hframes] at hgo
    cases hgo
  | cons f fs =>
    rw [hframes] at hgo hlog hsingle
    have hfs : fs = [] := List.length_eq_zero_iff.mp (by simpa using hsingle)
    subst hfs
    have hd : k.draining = true := h.draining.mpr (by rw [hframes]; exact List.cons_ne_nil _ _)
    cases f with
    | loop =>
      dsimp only at hgo hlog
      cases hq : k.queue.toList with
      | nil =>
        rw [hq] at hgo
        cases hgo
        refine ⟨evs, by simpa [Runner.pending] using hlog, h.state, ?_, Nat.zero_le _, by simp,
          fun _ => hq⟩
        simpa using h.fed
      | cons ev rest =>
        rw [hq] at hgo
        cases hgo
        have hatt : k.ps.attempts < 255 :=
          h.state ▸ (machine_kept evs).attempts.trans_lt (by decide)
        have hstep : caliPairStep k.ps ev = step (machine evs).1 ev := by
          rw [caliPairStep_eq _ _ hatt, h.state]
        have hpop : k.queue.pop.toList = rest := by
          rw [Ring.toList_pop, hq]
          rfl
        refine ⟨evs ++ [ev], ?_, ?_, ?_, Nat.le_refl _, by simp [hd],
          fun hno => by cases hno⟩
        · rw [machine_append]
          show log ++ [Entry.ev ev] ++ (caliPairStep k.ps ev).2.map Entry.act =
            (machine evs).2 ++ stepLog (machine evs).1 ev
          rw [← hlog, hstep]
          simp [stepLog]
        · rw [machine_append]
          exact congrArg Prod.fst hstep
        · show fed ++ [] = evs ++ [ev] ++ k.queue.pop.toList
          rw [hpop, h.fed, hq]
          simp
    | acts rest changed =>
      dsimp only at hgo hlog
      cases rest with
      | nil =>
        cases hgo
        refine ⟨evs, ?_, h.state, by simpa using h.fed, Nat.le_refl _, by simp [hd],
          fun hno => by cases hno⟩
        cases changed <;> simpa [Runner.pending] using hlog
      | cons a rest =>
        cases hgo
        refine ⟨evs, ?_, h.state, by simpa using h.fed, Nat.le_refl _, by simp [hd],
          fun hno => by cases hno⟩
        simpa [Runner.pending] using hlog
    | inCall => cases hgo
    | hook => cases hgo

theorem Follows.ret {ok : Bool} (h : Follows log fed k evs) (hret : k.ret ok = some (d, k')) :
    Follows (log ++ d.log) (fed ++ d.fed) k' evs := by
  have hsingle := h.single
  have hlog := h.log
  unfold Runner.ret at hret
  unfold Runner.pending at hlog
  cases hframes : k.frames with
  | nil =>
    rw [hframes] at hret
    cases hret
  | cons f fs =>
    rw [hframes] at hret hlog hsingle
    have hd : k.draining = true := h.draining.mpr (by rw [hframes]; exact List.cons_ne_nil _ _)
    cases f with
    | inCall a rest changed =>
      dsimp only at hret hlog
      have hback : Follows log fed { k with frames := .acts rest changed :: fs } evs :=
        ⟨hlog, h.state, h.fed, hsingle, by simp [hd], fun hno => by cases hno⟩
      have hfeeds := feeds_feedIf { k with frames := .acts rest changed :: fs } (answer a ok)
      rw [Option.some.inj hret] at hfeeds
      exact hback.feeds hfeeds
    | hook =>
      dsimp only at hret hlog
      cases hret
      exact ⟨by simpa [Runner.pending] using hlog, h.state, by simpa using h.fed, hsingle,
        by simp [hd], fun hno => by cases hno⟩
    | acts => cases hret
    | loop => cases hret

theorem follows_start : Follows [] [] {} [] where
  log := rfl
  state := rfl
  fed := rfl
  single := Nat.zero_le _
  draining := by decide
  waits _ := rfl

theorem run_follows {tr : List RunnerRecord} (h : Run runnerStep {} tr k) :
    ∃ evs, Follows (logOf tr) (fedOf tr) k evs := by
  induction h with
  | nil => exact ⟨[], follows_start⟩
  | @cons tr k k' i d _ hs ih =>
    obtain ⟨evs, hevs⟩ := ih
    cases i with
    | call c =>
      unfold runnerStep at hs
      dsimp only at hs
      split_ifs at hs
      have hfeeds := feeds_call k c
      rw [Option.some.inj hs] at hfeeds
      exact ⟨evs, hevs.feeds hfeeds⟩
    | ret ok => exact ⟨evs, hevs.ret hs⟩
    | go => exact hevs.go hs

/-- In every run of the machine, and so in every run of the runner, only a verified bond is
persisted, the attempts are counted, and scans and connections end. The runner never steps the
machine inside a step. -/
theorem verified_bonds : (∀ evs, Kept (machine evs).1 (machine evs).2) ∧
    ∀ tr k, Run runnerStep {} tr k → Lawful (logOf tr) ∧
      ∃ evs, Follows (logOf tr) (fedOf tr) k evs := by
  refine ⟨machine_kept, fun tr k h => ?_⟩
  obtain ⟨evs, hevs⟩ := run_follows h
  exact ⟨(hevs.log ▸ (machine_kept evs).lawful).before, evs, hevs⟩

/-- A call that steps the machine once, with `n` actions, and each transport call started. -/
def flow (c : Call) (n : ℕ) : List Turn :=
  [.call c, .go] ++ (List.replicate n [Turn.go, .ret true]).flatten ++ [.go, .ret true, .go]

def bonding : List Turn :=
  flow .start 1 ++ flow (.sink .found) 2 ++ flow (.sink .connected) 1 ++ flow (.sink .encOk) 1 ++
    flow (.sink (.read authChar 0)) 1

theorem verified_bonds_bonding : ∃ tr k, Run runnerStep {} tr k ∧
    tr.map Record.inp = bonding.reverse ∧
    .act .persistBond ∈ logOf tr ∧ Lawful (logOf tr) := by
  have hlog : (exec runnerStep {} bonding.reverse).map (fun r => logOf r.1) =
      some [.ev .start, .act .startScan, .ev .deviceFound, .act .stopScan, .act .connect,
        .ev .connected, .act .pair, .ev .pairOk, .act .verify, .ev (.verifyOk 1),
        .act .persistBond] := by rfl
  obtain ⟨tr, k, -, hrun, hinp, hlog⟩ := run_of_view hlog
  refine ⟨tr, k, hrun, hinp, ?_, (verified_bonds.2 tr k hrun).1⟩
  rw [hlog]
  decide

end OpenCalifornia.Pairing
