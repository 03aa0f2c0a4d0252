import Mathlib

/-! # The pairing state machine

`step` of `pairing.py`, which `pairing_sm.c` transcribes line by line: the daemon and the satellite
drive the same machine. -/

namespace OpenCalifornia.Pairing

inductive St
  | idle | scanning | connecting | waitingPasskey | pairing | verifying | bonded | error | resetting
  deriving DecidableEq, Repr

inductive Err
  | none | timeout | pair | verify | connect
  deriving DecidableEq, Repr

/-- The events, with the passkey and the number of readable characteristics. -/
inductive Ev
  | start
  | deviceFound
  | connected
  | passkeyRequested
  | passkeyEntered (pk : ℕ)
  | pairOk
  | pairFail
  | verifyOk (readable : ℕ)
  | verifyFail
  | timeout
  | cancel
  | reset
  | resetDone
  | connectFail
  deriving DecidableEq, Repr

inductive Act
  | startScan
  | stopScan
  | connect
  | pair
  | sendPasskey (pk : ℕ)
  | verify
  | persistBond
  | disconnect
  | removeBond
  deriving DecidableEq, Repr

structure PairingState where
  st : St := .idle
  attempts : ℕ := 0
  error : Err := .none
  deriving DecidableEq, Repr

def maxAttempts : ℕ := 3

/-- `TIMEOUT_S` -/
def timeoutS : St → Option ℕ
  | .scanning => some 30
  | .connecting => some 20
  | .waitingPasskey => some 60
  | .pairing => some 15
  | .verifying => some 10
  | .resetting => some 10
  | .idle | .bonded | .error => none

def cleanup : St → List Act
  | .scanning => [.stopScan]
  | .connecting | .waitingPasskey | .pairing | .verifying => [.disconnect]
  | .idle | .bonded | .error | .resetting => []

/-- A failed attempt is followed by another scan, or by an error. -/
def retry (ps : PairingState) (error : Err) : PairingState × List Act :=
  let att := ps.attempts + 1
  if att < maxAttempts then (⟨.scanning, att, .none⟩, [.disconnect, .startScan])
  else (⟨.error, att, error⟩, [.disconnect])

def step (ps : PairingState) (ev : Ev) : PairingState × List Act :=
  match ev, ps.st with
  | .cancel, st => (⟨.idle, 0, .none⟩, cleanup st)
  | .timeout, st =>
    if (timeoutS st).isSome then (⟨.error, ps.attempts, .timeout⟩, cleanup st) else (ps, [])
  | .reset, .bonded | .reset, .error | .reset, .idle => (⟨.resetting, 0, .none⟩, [.removeBond])
  | .start, .idle | .start, .error => (⟨.scanning, 0, .none⟩, [.startScan])
  | .deviceFound, .scanning => (⟨.connecting, ps.attempts, .none⟩, [.stopScan, .connect])
  | .connected, .connecting => (⟨.pairing, ps.attempts, .none⟩, [.pair])
  | .passkeyRequested, .pairing => (⟨.waitingPasskey, ps.attempts, .none⟩, [])
  | .passkeyEntered pk, .waitingPasskey => (⟨.pairing, ps.attempts, .none⟩, [.sendPasskey pk])
  | .pairOk, .pairing => (⟨.verifying, ps.attempts, .none⟩, [.verify])
  | .pairFail, .pairing => retry ps .pair
  | .connectFail, .connecting => retry ps .connect
  | .verifyOk _, .verifying => (⟨.bonded, ps.attempts, .none⟩, [.persistBond])
  | .verifyFail, .verifying => (⟨.error, ps.attempts, .verify⟩, [.disconnect])
  | .resetDone, .resetting => (⟨.idle, 0, .none⟩, [])
  | _, _ => (ps, [])

variable {ps : PairingState} {ev : Ev} {act : Act}

theorem cleanup_eq (st : St) : cleanup st = [] ∨ cleanup st = [.stopScan] ∨
    cleanup st = [.disconnect] := by
  cases st <;> simp [cleanup]

theorem step_acts (ps : PairingState) (ev : Ev) : (step ps ev).2 = [] ∨
    (step ps ev).2 = [.stopScan] ∨ (step ps ev).2 = [.disconnect] ∨
    (step ps ev).2 = [.disconnect, .startScan] ∨ (step ps ev).2 = [.startScan] ∨
    (∃ pk, ev = .passkeyEntered pk ∧ (step ps ev).2 = [.sendPasskey pk]) ∨
    (ev = .deviceFound ∧ (step ps ev).2 = [.stopScan, .connect]) ∨
    (ev = .connected ∧ (step ps ev).2 = [.pair]) ∨
    (ev = .pairOk ∧ (step ps ev).2 = [.verify]) ∨
    (ev = .reset ∧ (step ps ev).2 = [.removeBond]) ∨
    (ps.st = .verifying ∧ (∃ n, ev = .verifyOk n) ∧ (step ps ev).2 = [.persistBond]) := by
  obtain ⟨st, attempts, error⟩ := ps
  have hclean := cleanup_eq st
  cases ev with
  | cancel =>
    show cleanup st = [] ∨ _
    tauto
  | timeout =>
    unfold step
    dsimp only
    split_ifs
    · tauto
    · exact .inl rfl
  | pairFail | connectFail =>
    cases st <;> first
      | exact .inl rfl
      | (simp only [step, retry]; split_ifs <;> simp)
  | _ => cases st <;> simp [step]

theorem reset_of_removeBond (h : .removeBond ∈ (step ps ev).2) :
    ev = .reset ∧ (step ps ev).2 = [.removeBond] := by
  obtain hs | hs | hs | hs | hs | ⟨_, _, hs⟩ | ⟨_, hs⟩ | ⟨_, hs⟩ | ⟨_, hs⟩ | ⟨hev, hs⟩ |
      ⟨_, _, hs⟩ :=
    step_acts ps ev
  all_goals rw [hs] at h
  all_goals first
    | exact ⟨hev, hs⟩
    | simp at h

theorem verified_of_persistBond (h : .persistBond ∈ (step ps ev).2) :
    ps.st = .verifying ∧ (∃ n, ev = .verifyOk n) ∧ (step ps ev).2 = [.persistBond] := by
  obtain hs | hs | hs | hs | hs | ⟨_, _, hs⟩ | ⟨_, hs⟩ | ⟨_, hs⟩ | ⟨_, hs⟩ | ⟨_, hs⟩ | hs :=
    step_acts ps ev
  all_goals first
    | exact hs
    | (rw [hs] at h; simp at h)

end OpenCalifornia.Pairing
