import OpenCalifornia.Lib.Log
import OpenCalifornia.Pairing.Machine

/-! # What a run of the pairing machine does

The machine is stepped through events of any kind and in any order. What it does is written down:
each event, and after it the actions it asks for. -/

namespace OpenCalifornia.Pairing
open Lib

inductive Entry
  | ev (e : Ev)
  | act (a : Act)
  deriving DecidableEq, Repr

/-- An event and its actions. -/
def stepLog (ps : PairingState) (e : Ev) : List Entry := .ev e :: (step ps e).2.map .act

def machineStep (r : PairingState × List Entry) (e : Ev) : PairingState × List Entry :=
  ((step r.1 e).1, r.2 ++ stepLog r.1 e)

/-- The state after the events, and the log. -/
def machine (evs : List Ev) : PairingState × List Entry := evs.foldl machineStep ({}, [])

/-- The entries after the last start of a scan. -/
def sinceScan (log : List Entry) : List Entry := since (· = .act .startScan) log

def scanNext (b : Bool) : Entry → Bool
  | .act .startScan => true
  | .act .stopScan => false
  | _ => b

/-- A scan was started, and not stopped since. -/
def scanOn (log : List Entry) : Bool := log.foldl scanNext false

def linkNext (b : Bool) : Entry → Bool
  | .act .connect => true
  | .act .disconnect | .act .persistBond => false
  | _ => b

/-- A connection was opened, and neither closed nor bonded since. -/
def linkOn (log : List Entry) : Bool := log.foldl linkNext false

def St.linked (st : St) : Bool :=
  st = .connecting ∨ st = .waitingPasskey ∨ st = .pairing ∨ st = .verifying

/-- A cancel or a timeout. -/
def Ev.ends (e : Ev) : Bool := e = .cancel ∨ e = .timeout

/-- When the bond may be persisted, and when a connection may be opened. -/
def Allowed (pre : List Entry) : Entry → Prop
  | .act .persistBond => .act .startScan ∈ pre ∧
      ∃ n, [.ev .connected, .ev .pairOk, .ev (.verifyOk n)].Sublist (sinceScan pre)
  | .act .connect => scanOn pre = false ∧ linkOn pre = false
  | _ => True

abbrev Lawful (log : List Entry) : Prop := Keeps Allowed log

/-- The log is lawful, and the state says what is still going on. That ends with a cancel or a
timeout. -/
structure Kept (ps : PairingState) (log : List Entry) : Prop where
  lawful : Lawful log
  attempts : ps.attempts ≤ maxAttempts
  scan : scanOn log = true ↔ ps.st = .scanning
  link : linkOn log = true ↔ ps.st.linked = true
  stops : ∀ e : Ev, e.ends = true → scanOn log = true → (step ps e).2 = [.stopScan]
  closes : ∀ e : Ev, e.ends = true → linkOn log = true → (step ps e).2 = [.disconnect]

variable {log more : List Entry} {ps : PairingState} {e : Ev} {x : Entry}

@[simp] theorem sinceScan_append (log more : List Entry) : sinceScan (log ++ more) =
    more.foldl (sinceNext (· = .act .startScan)) (sinceScan log) := since_append _ _ _

@[simp] theorem scanOn_append (log more : List Entry) :
    scanOn (log ++ more) = more.foldl scanNext (scanOn log) := List.foldl_append

@[simp] theorem linkOn_append (log more : List Entry) :
    linkOn (log ++ more) = more.foldl linkNext (linkOn log) := List.foldl_append

theorem Lawful.others (h : Lawful log)
    (hmore : ∀ x ∈ more, x ≠ .act .persistBond ∧ x ≠ .act .connect) : Lawful (log ++ more) := by
  refine h.free fun x hx pre => ?_
  obtain ⟨hpersist, hconnect⟩ := hmore x hx
  unfold Allowed
  split
  · exact absurd rfl hpersist
  · exact absurd rfl hconnect
  · trivial

/-- The transitions. A step that is none of them leaves the state as it is and asks for nothing. -/
inductive Moves : PairingState → Ev → PairingState → List Act → Prop
  | ends {ps ps' : PairingState} {e : Ev} (he : e.ends = true)
    (hst : ps'.st = .idle ∨ ps'.st = .error)
      (hatt : ps'.attempts ≤ ps.attempts) : Moves ps e ps' (cleanup ps.st)
  | reset {ps : PairingState} (hst : ps.st = .bonded ∨ ps.st = .error ∨ ps.st = .idle) :
      Moves ps .reset ⟨.resetting, 0, .none⟩ [.removeBond]
  | start {ps : PairingState} (hst : ps.st = .idle ∨ ps.st = .error) :
      Moves ps .start ⟨.scanning, 0, .none⟩ [.startScan]
  | found {ps : PairingState} (hst : ps.st = .scanning) :
      Moves ps .deviceFound ⟨.connecting, ps.attempts, .none⟩ [.stopScan, .connect]
  | connected {ps : PairingState} (hst : ps.st = .connecting) :
      Moves ps .connected ⟨.pairing, ps.attempts, .none⟩ [.pair]
  | requested {ps : PairingState} (hst : ps.st = .pairing) :
      Moves ps .passkeyRequested ⟨.waitingPasskey, ps.attempts, .none⟩ []
  | entered {ps : PairingState} {pk : ℕ} (hst : ps.st = .waitingPasskey) :
      Moves ps (.passkeyEntered pk) ⟨.pairing, ps.attempts, .none⟩ [.sendPasskey pk]
  | paired {ps : PairingState} (hst : ps.st = .pairing) :
      Moves ps .pairOk ⟨.verifying, ps.attempts, .none⟩ [.verify]
  | again {ps : PairingState} {e : Ev} (hst : ps.st = .pairing ∨ ps.st = .connecting)
      (hatt : ps.attempts + 1 < maxAttempts) :
      Moves ps e ⟨.scanning, ps.attempts + 1, .none⟩ [.disconnect, .startScan]
  | gaveUp {ps : PairingState} {e : Ev} {err : Err} {att : ℕ} (hst : ps.st.linked = true)
    (hatt : att ≤ ps.attempts + 1) :
      Moves ps e ⟨.error, att, err⟩ [.disconnect]
  | verified {ps : PairingState} {n : ℕ} (hst : ps.st = .verifying) :
      Moves ps (.verifyOk n) ⟨.bonded, ps.attempts, .none⟩ [.persistBond]
  | resetDone {ps : PairingState} (hst : ps.st = .resetting) :
    Moves ps .resetDone ⟨.idle, 0, .none⟩ []
  | stays {ps : PairingState} {e : Ev} : Moves ps e ps []

theorem retry_moves {err : Err} (hst : ps.st = .pairing ∨ ps.st = .connecting) :
    Moves ps e (retry ps err).1 (retry ps err).2 := by
  unfold retry
  dsimp only
  split_ifs with hatt
  · exact .again hst hatt
  · refine .gaveUp ?_ (Nat.le_refl _)
    cases hst with
    | inl hst => simp [St.linked, hst]
    | inr hst => simp [St.linked, hst]

theorem step_moves (ps : PairingState) (e : Ev) : Moves ps e (step ps e).1 (step ps e).2 := by
  unfold step
  split
  case h_2 =>
    split_ifs
    · exact .ends rfl (.inr rfl) (Nat.le_refl _)
    · exact .stays
  all_goals first
    | exact .ends rfl (.inl rfl) (Nat.zero_le _)
    | exact .reset (by simp_all)
    | exact .start (by simp_all)
    | exact .found (by assumption)
    | exact .connected (by assumption)
    | exact .requested (by assumption)
    | exact .entered (by assumption)
    | exact .paired (by assumption)
    | exact retry_moves (by simp_all)
    | exact .verified (by assumption)
    | exact .gaveUp (by simp_all [St.linked]) (Nat.le_succ _)
    | exact .resetDone (by assumption)
    | exact .stays

theorem ends_acts (he : e.ends = true) (hst : (timeoutS ps.st).isSome = true) :
    (step ps e).2 = cleanup ps.st := by
  obtain rfl | rfl : e = .cancel ∨ e = .timeout := of_decide_eq_true he
  · rfl
  · unfold step
    dsimp only
    rw [if_pos hst]

/-- What the machine knows between two events. -/
structure Inv (ps : PairingState) (log : List Entry) : Prop where
  lawful : Lawful log
  attempts : ps.attempts ≤ maxAttempts
  scan : scanOn log = true ↔ ps.st = .scanning
  link : linkOn log = true ↔ ps.st.linked = true
  trying : ps.st = .scanning ∨ ps.st.linked = true →
    ps.attempts < maxAttempts ∧ .act .startScan ∈ log
  heard : ps.st = .pairing ∨ ps.st = .waitingPasskey →
    .ev .connected ∈ sinceScan log
  proven : ps.st = .verifying → [.ev .connected, .ev .pairOk].Sublist (sinceScan log)

theorem inv_start : Inv {} [] where
  lawful := Keeps.nil
  attempts := Nat.zero_le _
  scan := by decide
  link := by decide
  trying := by decide
  heard := by decide
  proven := by decide

theorem Inv.quiet (h : Inv ps log) (hx : x ≠ .act .startScan) (hscan : ∀ b, scanNext b x = b)
    (hlink : ∀ b, linkNext b x = b) : Inv ps (log ++ [x]) where
  lawful := h.lawful.others fun y hy => by
    rw [List.mem_singleton.mp hy]
    refine ⟨?_, ?_⟩
    · rintro rfl
      exact absurd (hlink true) (by decide)
    · rintro rfl
      exact absurd (hlink false) (by decide)
  attempts := h.attempts
  scan := by simpa [hscan] using h.scan
  link := by simpa [hlink] using h.link
  trying hst := ⟨(h.trying hst).1, List.mem_append_left _ (h.trying hst).2⟩
  heard hst := by simp [sinceNext, hx, h.heard hst]
  proven hst := by simpa [sinceNext, hx] using (h.proven hst).trans (List.sublist_append_left _ _)

theorem Inv.ev (h : Inv ps log) (e : Ev) : Inv ps (log ++ [.ev e]) :=
  h.quiet (by simp) (fun _ => rfl) fun _ => rfl

theorem Inv.acts {ps' : PairingState} {acts : List Act} (h₀ : Inv ps log)
    (hm : Moves ps e ps' acts) : Inv ps' (log ++ [.ev e] ++ acts.map .act) := by
  have h := h₀.ev e
  have hscan := h.scan
  have hlink := h.link
  cases hm with
  | ends he hst hle =>
    have hidle : ps'.st ≠ .scanning ∧ ps'.st ≠ .pairing ∧ ps'.st ≠ .waitingPasskey ∧
        ps'.st ≠ .verifying ∧ ps'.st.linked = false := by
      cases hst with
      | inl hst => simp [hst, St.linked]
      | inr hst => simp [hst, St.linked]
    refine ⟨h.lawful.others ?_, Nat.le_trans hle h.attempts, ?_, ?_, ?_, ?_, ?_⟩
    · obtain hc | hc | hc := cleanup_eq ps.st <;> simp [hc]
    all_goals cases hps : ps.st <;> simp_all [cleanup, scanNext, linkNext, St.linked]
  | reset hst =>
    refine ⟨h.lawful.others (by simp), Nat.zero_le _, ?_, ?_, ?_, ?_, ?_⟩
    all_goals rcases hst with hst | hst | hst <;> simp_all [scanNext, linkNext, St.linked]
  | start hst =>
    refine ⟨h.lawful.others (by simp), Nat.zero_le _, ?_, ?_, ?_, ?_, ?_⟩
    all_goals
      rcases hst with hst | hst <;> simp_all [scanNext, linkNext, St.linked, maxAttempts]
  | found hst =>
    have hlaw : Lawful (log ++ [.ev .deviceFound] ++ [.act .stopScan]) := h.lawful.others (by simp)
    have htrying := h.trying (.inl hst)
    have hallowed : Allowed (log ++ [.ev .deviceFound] ++ [.act .stopScan]) (.act .connect) := by
      simp_all [Allowed, scanNext, linkNext, St.linked]
    have hlast := hlaw.append hallowed
    refine ⟨by simpa using hlast, h.attempts, ?_, ?_, ?_, ?_, ?_⟩
    all_goals simp_all [scanNext, linkNext, St.linked]
  | connected hst =>
    have htrying := h.trying (.inr (by simp [hst, St.linked]))
    refine ⟨h.lawful.others (by simp), h.attempts, ?_, ?_, ?_, ?_, ?_⟩
    all_goals simp_all [scanNext, linkNext, sinceNext, St.linked]
  | requested hst =>
    have htrying := h.trying (.inr (by simp [hst, St.linked]))
    have hheard := h.heard (.inl hst)
    refine ⟨h.lawful.others (by simp), h.attempts, ?_, ?_, ?_, ?_, ?_⟩
    all_goals simp_all [scanNext, linkNext, sinceNext, St.linked]
  | entered hst =>
    have htrying := h.trying (.inr (by simp [hst, St.linked]))
    have hheard := h.heard (.inr hst)
    refine ⟨h.lawful.others (by simp), h.attempts, ?_, ?_, ?_, ?_, ?_⟩
    all_goals simp_all [scanNext, linkNext, sinceNext, St.linked]
  | paired hst =>
    have htrying := h.trying (.inr (by simp [hst, St.linked]))
    have hheard : [Entry.ev .connected].Sublist (sinceScan log) :=
      List.singleton_sublist.mpr (h₀.heard (.inl hst))
    have hboth : [Entry.ev .connected, .ev .pairOk].Sublist (sinceScan log ++ [.ev .pairOk]) :=
      hheard.append (List.Sublist.refl _)
    refine ⟨h.lawful.others (by simp), h.attempts, ?_, ?_, ?_, ?_, fun _ => ?_⟩
    · simp_all [scanNext, linkNext, St.linked]
    · simp_all [scanNext, linkNext, St.linked]
    · simp_all [scanNext, linkNext, St.linked]
    · simp
    · simpa [sinceNext] using hboth.trans (List.sublist_append_left _ [.act .verify])
  | again hst hlt =>
    have htrying := h.trying (.inr (by cases hst <;> simp [*, St.linked]))
    refine ⟨h.lawful.others (by simp), Nat.le_of_lt hlt, ?_, ?_, ?_, ?_, ?_⟩
    all_goals simp_all [scanNext, linkNext, sinceNext, St.linked]
  | gaveUp hst hle =>
    have htrying := h.trying (.inr hst)
    refine ⟨h.lawful.others (by simp), ?_, ?_, ?_, ?_, ?_, ?_⟩
    · exact Nat.le_trans hle htrying.1
    · have hno : ps.st ≠ .scanning := by
        rintro hs
        simp [hs, St.linked] at hst
      simp_all [scanNext]
    all_goals simp [linkNext, St.linked]
  | @verified n hst =>
    have htrying := h₀.trying (.inr (by simp [hst, St.linked]))
    have hproven : [Entry.ev .connected, .ev .pairOk, .ev (.verifyOk n)].Sublist
        (sinceScan log ++ [.ev (.verifyOk n)]) :=
      (h₀.proven hst).append (List.Sublist.refl _)
    have hallowed : Allowed (log ++ [.ev (.verifyOk n)]) (.act .persistBond) :=
      ⟨by simp [htrying.2], n, by simpa [sinceNext] using hproven⟩
    have hlast := h.lawful.append hallowed
    refine ⟨hlast, h.attempts, ?_, ?_, ?_, ?_, ?_⟩
    all_goals simp_all [scanNext, linkNext, St.linked]
  | resetDone hst =>
    refine ⟨h.lawful.others (by simp), Nat.zero_le _, ?_, ?_, ?_, ?_, ?_⟩
    all_goals simp_all [scanNext, linkNext, St.linked]
  | stays => simpa using h

theorem machine_append (evs : List Ev) (e : Ev) :
    machine (evs ++ [e]) = machineStep (machine evs) e := by
  unfold machine
  rw [List.foldl_append, List.foldl_cons, List.foldl_nil]

theorem machine_inv (evs : List Ev) : Inv (machine evs).1 (machine evs).2 := by
  induction evs using List.reverseRecOn with
  | nil => exact inv_start
  | append_singleton evs e ih =>
    rw [machine_append]
    have hacts := ih.acts (step_moves (machine evs).1 e)
    rwa [List.append_assoc] at hacts

theorem machine_kept (evs : List Ev) : Kept (machine evs).1 (machine evs).2 := by
  have h := machine_inv evs
  refine ⟨h.lawful, h.attempts, h.scan, h.link, fun e he hon => ?_, fun e he hon => ?_⟩
  · have hst := h.scan.mp hon
    rw [ends_acts he (by rw [hst]; rfl), hst]
    rfl
  · have hst := h.link.mp hon
    have hcases : (machine evs).1.st = .connecting ∨ (machine evs).1.st = .waitingPasskey ∨
        (machine evs).1.st = .pairing ∨ (machine evs).1.st = .verifying := of_decide_eq_true hst
    obtain hst | hst | hst | hst := hcases
    all_goals
      rw [ends_acts he (by rw [hst]; rfl), hst]
      rfl

end OpenCalifornia.Pairing
