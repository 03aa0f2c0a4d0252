import OpenCalifornia.Web.LinkSettings
import OpenCalifornia.Wifi.Replaced

/-! # What a request leaves of the settings

A refused request changes nothing. A setter stores a value before it uses it, so the members before
the first that is not stored are set in memory and in the store, and the others in neither. -/

namespace OpenCalifornia.Web
open Lib Lib.Bits
open Session (Mode)

variable {e : Env} {w w' : World} {body : List Byte}

structure PiSettings where
  on : Bool
  min : ℕ
  soc : ℕ
  deriving DecidableEq

def World.piMemory (w : World) : PiSettings := ⟨w.pi.on, w.pi.phMin, w.pi.phSoc⟩

/-- What the next boot reads. -/
def World.piStored (w : World) : PiSettings :=
  let s := PiWake.init w.pwIgn w.phMin w.phSoc 0
  ⟨s.on, s.phMin, s.phSoc⟩

def PiOp.apply : PiOp → PiSettings → PiSettings
  | .on v, x => { x with on := v ≠ 0 }
  | .min n, x => { x with min := n }
  | .soc n, x => { x with soc := n }

/-- All that is not a setting of the Pi. -/
def World.besidePi (w : World) : World := { w with
  pi := { w.pi with on := true, phMin := 0, phSoc := 0 }
  pwIgn := none
  phMin := none
  phSoc := none }

/-- The values of the members that are there. -/
structure PiSet.Asked (s : PiSet) (x x' : PiSettings) : Prop where
  on : x'.on = s.on.elim x.on (decide <| · ≠ 0)
  min : x'.min = s.min.getD x.min
  soc : x'.soc = s.soc.getD x.soc

theorem asked_ops (s : PiSet) (x : PiSettings) : s.Asked x (Saves.applyAll PiOp.apply s.ops x) := by
  obtain ⟨on, min, soc, range⟩ := s
  cases on <;> cases min <;> cases soc <;> exact ⟨rfl, rfl, rfl⟩

/-- The value of the member has room in its key. -/
def PiOp.fits : PiOp → Prop
  | .on _ => True
  | .min n => n ≤ PiWake.minMax
  | .soc n => n ≤ 100

theorem setMin_fits {n : ℕ} (h : n ≤ PiWake.minMax) (s : PiWake.State) :
    s.setMin n true = { s with phMin := n } :=
  if_neg (not_or.mpr ⟨Nat.not_lt.mpr h, not_not.mpr rfl⟩)

theorem setSoc_fits {n : ℕ} (h : n ≤ 100) (s : PiWake.State) :
    s.setSoc n true = { s with phSoc := n } :=
  if_neg (not_or.mpr ⟨Nat.not_lt.mpr h, not_not.mpr rfl⟩)

theorem put_memory {op : PiOp} (h : op.fits) (w : World) :
    (op.put w).piMemory = op.apply w.piMemory := by
  cases op with
  | on v => rfl
  | min n =>
    have hn : n ≤ PiWake.minMax := h
    simp only [PiOp.put, World.piMemory, setMin_fits hn, PiOp.apply]
  | soc n =>
    have hn : n ≤ 100 := h
    simp only [PiOp.put, World.piMemory, setSoc_fits hn, PiOp.apply]

theorem put_stored {op : PiOp} (h : op.fits) (w : World) :
    (op.put w).piStored = op.apply w.piStored := by
  cases op with
  | on v =>
    unfold PiOp.put World.piStored PiWake.init PiOp.apply
    by_cases hv : v = 0 <;> simp [hv]
  | min n =>
    have hn : n ≤ 1440 := h
    have hback : (BitVec.ofNat 8 (n % 256)).toNat + 256 * (BitVec.ofNat 8 (n / 256)).toNat = n := by
      simp only [BitVec.toNat_ofNat]
      omega
    unfold PiOp.put World.piStored PiWake.init PiOp.apply
    simp only [hback]
    rw [if_pos (by exact hn)]
  | soc n =>
    have hn : n ≤ 100 := h
    have hback : (BitVec.ofNat 8 n).toNat = n := by
      simp only [BitVec.toNat_ofNat]
      omega
    unfold PiOp.put World.piStored PiWake.init PiOp.apply
    simp only [hback]
    rw [if_pos hn]

theorem put_beside {op : PiOp} (h : op.fits) (w : World) : (op.put w).besidePi = w.besidePi := by
  cases op with
  | on v => rfl
  | min n =>
    have hn : n ≤ PiWake.minMax := h
    simp only [PiOp.put, World.besidePi, setMin_fits hn]
  | soc n =>
    have hn : n ≤ 100 := h
    simp only [PiOp.put, World.besidePi, setSoc_fits hn]

theorem saved_fits {op : PiOp} (h : op.saved e = true) : op.fits := by
  cases op with
  | on v => trivial
  | min n =>
    have hn : n ≤ PiWake.minMax := of_decide_eq_true (Bool.and_eq_true_iff.mp h).1
    exact hn
  | soc n =>
    have hn : n ≤ 100 := of_decide_eq_true (Bool.and_eq_true_iff.mp h).1
    exact hn

theorem applyAll_saved {l : List PiOp} (h : ∀ op ∈ l, op.saved e = true) (w : World) :
    (Saves.applyAll PiOp.put l w).piMemory = Saves.applyAll PiOp.apply l w.piMemory ∧
      (Saves.applyAll PiOp.put l w).piStored = Saves.applyAll PiOp.apply l w.piStored ∧
        (Saves.applyAll PiOp.put l w).besidePi = w.besidePi := by
  refine ⟨Saves.applyAll_view (fun op hop => put_memory (saved_fits (h op hop))) w,
    Saves.applyAll_view (fun op hop => put_stored (saved_fits (h op hop))) w, ?_⟩
  have hbeside : (Saves.applyAll PiOp.put l w).besidePi =
      Saves.applyAll (fun _ x => x) l w.besidePi :=
    Saves.applyAll_view (fun op hop => put_beside (saved_fits (h op hop))) w
  rw [hbeside]
  exact List.foldl_fixed l

/-- What a request about the Pi does, by its answer. -/
structure PiOutcome (e : Env) (body : List Byte) (w : World) (r : Reply × World) : Prop where
  refused : 400 ≤ r.1.status → r.1.status < 500 → r.2 = w
  failed : 500 ≤ r.1.status → ∃ s done op rest, parsePiSetting body = some s ∧
    s.ops = done ++ op :: rest ∧ (∀ o ∈ done, o.saved e = true) ∧ op.saved e = false ∧
    r.2.piMemory = Saves.applyAll PiOp.apply done w.piMemory ∧
    r.2.piStored = Saves.applyAll PiOp.apply done w.piStored
  success : r.1.status < 400 → ∃ s, parsePiSetting body = some s ∧
    s.Asked w.piMemory r.2.piMemory ∧ s.Asked w.piStored r.2.piStored
  beside : r.2.besidePi = w.besidePi

theorem PiOutcome.early {status : ℕ} {error : String} (h : 400 ≤ status ∧ status < 500) :
    PiOutcome e body w (refuse status error, w) where
  refused := fun _ _ => rfl
  failed := fun h' => absurd h' (Nat.not_le.mpr h.2)
  success := fun h' => absurd h.1 (Nat.not_le.mpr h')
  beside := rfl

theorem pi_outcome (e : Env) (body : List Byte) (w : World) :
    PiOutcome e body w (apiPiWakeSetting e body w) := by
  unfold apiPiWakeSetting
  by_cases hmode : wifiMode w.wifi.sm ≠ .station
  · rw [if_pos hmode]
    exact .early (by decide)
  rw [if_neg hmode]
  cases hs : parsePiSetting body with
  | none => exact .early (by decide)
  | some s =>
    dsimp only
    by_cases hrange : s.range = true
    · rw [if_pos hrange]
      exact .early (by decide)
    rw [if_neg hrange]
    obtain ⟨hrun, hall⟩ | ⟨done, op, rest, hops, hdone, hop, hrun⟩ :=
      @Saves.run_cases _ _ (PiOp.saved e) PiOp.put s.ops w
    · obtain ⟨hmem, hstored, hbeside⟩ := applyAll_saved hall w
      rw [hrun, if_pos rfl]
      refine ⟨fun h => ?_, fun h => ?_, fun _ => ⟨s, hs, ?_, ?_⟩, hbeside⟩
      · exact absurd h (by decide : ¬ 400 ≤ 200)
      · exact absurd h (by decide : ¬ 500 ≤ 200)
      · rw [hmem]
        exact asked_ops s _
      · rw [hstored]
        exact asked_ops s _
    · obtain ⟨hmem, hstored, hbeside⟩ := applyAll_saved hdone w
      rw [hrun, if_neg Bool.false_ne_true]
      refine ⟨fun _ h => ?_, fun _ => ⟨s, done, op, rest, hs, hops, hdone, hop, hmem, hstored⟩,
        fun h => ?_, hbeside⟩
      · exact absurd h (by decide : ¬ 500 < 500)
      · exact absurd h (by decide : ¬ 500 < 400)

/-- Name and password as `parse_str` cut them. -/
def Creds.IsCut (k : Creds) : Prop := (∃ t, k.ssid = cut 33 t) ∧ ∃ t, k.psk = cut 64 t

theorem readsCut_cut {cap : ℕ} {sc : Flat.Scalar} {v : Cut} (h : readsCut cap sc = some v) :
    ∃ t, v = cut cap t := by
  cases sc with
  | str t => exact ⟨t, (Option.some.inj h).symm⟩
  | _ => simp [readsCut] at h

theorem parseCreds_cut {k : Creds} (h : parseCreds body = some k) : k.IsCut := by
  obtain ⟨⟨seen, k'⟩, hparse, hk⟩ := Option.bind_eq_some_iff.mp h
  obtain ⟨-, hk⟩ := Option.ite_none_right_eq_some.mp hk
  obtain rfl := Option.some.inj hk
  obtain ⟨is, ⟨-, r, hobj, -⟩, -⟩ := credsForm.parse_iff.mp hparse
  refine hobj.keeps ?_ ⟨⟨[], rfl⟩, [], rfl⟩
  rintro i s x y r ⟨d, hd, hg⟩ ⟨hssid, hpsk⟩
  match i, hd with
  | 0, hd =>
    obtain rfl := Option.some.inj hd
    obtain ⟨u, sc, v, -, -, hv, rfl⟩ := hg
    exact ⟨readsCut_cut hv, hpsk⟩
  | 1, hd =>
    obtain rfl := Option.some.inj hd
    obtain ⟨u, sc, v, -, -, hv, rfl⟩ := hg
    exact ⟨hssid, readsCut_cut hv⟩
  | _ + 2, hd => exact absurd hd (by simp [credsForm])

theorem parseCreds_whole {k : Creds} (h : parseCreds body = some k)
    (hssid : 1 ≤ k.ssid.len ∧ k.ssid.len ≤ 32) (hpsk : 8 ≤ k.psk.len ∧ k.psk.len ≤ 63) :
    ∃ c : Wifi.Creds, c.ssid = k.ssid.buf ∧ c.psk = k.psk.buf ∧ c.ssid.length = k.ssid.len ∧
      c.psk.length = k.psk.len := by
  obtain ⟨⟨t, ht⟩, u, hu⟩ := parseCreds_cut h
  rw [ht] at hssid ⊢
  rw [hu] at hpsk ⊢
  have ht' : (cut 33 t).buf = t := cut_buf (Nat.lt_succ_of_le hssid.2)
  have hu' : (cut 64 u).buf = u := cut_buf (Nat.lt_succ_of_le hpsk.2)
  exact ⟨⟨t, u, hssid, .inr hpsk⟩, ht'.symm, hu'.symm, rfl, rfl⟩

/-- All but the WiFi and the mark of the first-time setup. -/
def World.besideWifi (w : World) : World :=
  { w with wifi := {}, setupPending := none, setupQr := none }

/-- What a request about the WiFi does, by its answer. -/
structure WifiOutcome (e : Env) (body : List Byte) (w : World) (r : Reply × World) : Prop where
  refused : 400 ≤ r.1.status → r.1.status < 500 → r.2 = w
  /-- At most the stored name is new. -/
  failed : 500 ≤ r.1.status →
    { r.2 with wifi.kv.ssid := w.wifi.kv.ssid } = w ∧ (e.wifi.kvSet .ssid = false → r.2 = w)
  success : r.1.status < 400 → ∃ k c, parseCreds body = some k ∧ c.ssid = k.ssid.buf ∧
    c.psk = k.psk.buf ∧ c.ssid.length = k.ssid.len ∧ c.psk.length = k.psk.len ∧
      r.2.wifi.creds = some c ∧ r.2.wifi.kv.ssid = some c.ssid ∧ r.2.wifi.kv.psk = some c.psk
  beside : r.2.besideWifi = w.besideWifi

theorem WifiOutcome.early {status : ℕ} {error : String} (h : 400 ≤ status ∧ status < 500) :
    WifiOutcome e body w (refuse status error, w) where
  refused := fun _ _ => rfl
  failed := fun h' => absurd h' (Nat.not_le.mpr h.2)
  success := fun h' => absurd h.1 (Nat.not_le.mpr h')
  beside := rfl

theorem mark_spec (p : Prop) [Decidable p] (e : Env) (w : World) :
    (if p then w.markSetup e else w).wifi = w.wifi ∧
      (if p then w.markSetup e else w).besideWifi = w.besideWifi := by
  unfold World.markSetup
  split_ifs <;> exact ⟨rfl, rfl⟩

theorem wifi_outcome (e : Env) (body : List Byte) (w : World) :
    WifiOutcome e body w (apiWifiPost e body w) := by
  unfold apiWifiPost
  dsimp only
  cases hk : parseCreds body with
  | none => exact .early (by decide)
  | some k =>
    dsimp only
    by_cases hssid : k.ssid.len < 1 ∨ k.ssid.len > 32
    · rw [if_pos hssid]
      exact .early (by decide)
    by_cases hpsk : k.psk.len < 8 ∨ k.psk.len > 63
    · rw [if_neg hssid, if_pos hpsk]
      exact .early (by decide)
    rw [if_neg hssid, if_neg hpsk]
    by_cases hname : e.wifi.kvSet .ssid = true
    · rw [if_neg (not_not.mpr hname)]
      by_cases hpass : e.wifi.kvSet .psk = true
      · rw [if_neg (not_not.mpr hpass)]
        obtain ⟨c, hname', hpass', hlens⟩ := parseCreds_whole hk (by omega) (by omega)
        obtain ⟨hwifi, hbeside⟩ := mark_spec (wifiMode w.wifi.sm = .setup) e
          { w with wifi.kv := { w.wifi.kv with ssid := some k.ssid.buf, psk := some k.psk.buf } }
        have hset := Wifi.setCreds_stores (c := c) (e := e.wifi) w.wifi
        rw [Wifi.Op.apply, Wifi.Kv.store, hname', hpass'] at hset
        refine ⟨fun h => absurd h (by decide : ¬ 400 ≤ 200),
          fun h => absurd h (by decide : ¬ 500 ≤ 200), fun _ => ?_, hbeside⟩
        refine ⟨k, c, hk, hname', hpass', hlens.1, hlens.2, ?_⟩
        dsimp only
        rw [hwifi]
        exact hset
      · rw [if_pos hpass]
        refine ⟨fun _ h => absurd h (by decide : ¬ 500 < 500), fun _ => ⟨rfl, fun h => ?_⟩,
          fun h => absurd h (by decide : ¬ 500 < 400), rfl⟩
        exact absurd (h.symm.trans hname) Bool.false_ne_true
    · rw [if_pos hname]
      exact ⟨fun _ _ => rfl, fun _ => ⟨rfl, fun _ => rfl⟩,
        fun h => absurd h (by decide : ¬ 500 < 400), rfl⟩

/-- What a request to one of the three endpoints leaves of the settings. -/
theorem settings_requests (e : Env) (body : List Byte) (w : World) :
    WifiOutcome e body w (apiWifiPost e body w) ∧ PiOutcome e body w (apiPiWakeSetting e body w) ∧
      BleOutcome e body w (apiBle e body w) :=
  ⟨wifi_outcome e body w, pi_outcome e body w, ble_outcome e body w⟩

/-- A device that is online, and a store that refuses the second value of each request. -/
def online : World where
  wifi := { sm := { st := .online, joinedOnce := .yes } }
  setupPending := none
  setupQr := none
  pi := {}
  pwIgn := none
  phMin := none
  phSoc := none
  ble := BleExp.init none 0
  expMin := 0
  advAt := none
  session := {}
  bleIdle := none
  bleRest := none

def secondFails : Env where
  wifi := { kvSet := fun k => k = .ssid }
  setupQr := true
  pwIgn := true
  phMin := false
  phSoc := true
  bleIdle := true
  bleRest := false
  session := fun _ => Session.Env.refusing
  hasBond := true
  clock := true
  up := 0

/-- A request that could not be stored has switched the wake off, now and at the next boot. Another
one has left its network name with the password of the one before, and a third one its idle time. -/
theorem half_saved : (¬ ∀ (e : Env) (body : List Byte) (w : World),
    400 ≤ (apiPiWakeSetting e body w).1.status →
      (apiPiWakeSetting e body w).2.piMemory = w.piMemory ∧
        (apiPiWakeSetting e body w).2.piStored = w.piStored) ∧
    (¬ ∀ (e : Env) (body : List Byte) (w : World), 400 ≤ (apiWifiPost e body w).1.status →
      (apiWifiPost e body w).2.wifi.kv.ssid = w.wifi.kv.ssid) ∧
    ¬ ∀ (e : Env) (body : List Byte) (w : World), 400 ≤ (apiBle e body w).1.status →
      (apiBle e body w).2.ble.idle.probeMin = w.ble.idle.probeMin ∧
        (apiBle e body w).2.bleIdle = w.bleIdle := by
  refine ⟨fun h => ?_, fun h => ?_, fun h => ?_⟩
  · have hkept := h secondFails
      (Lib.Buffer.chars "\x7b\"enabled\":false,\"halt_after_min\":0\x7d") online (by decide +kernel)
    exact absurd hkept.1 (by decide +kernel)
  · have hkept := h secondFails
      (Lib.Buffer.chars "\x7b\"ssid\":\"van\",\"psk\":\"sunshine\"\x7d") online (by decide +kernel)
    exact absurd hkept (by decide +kernel)
  · have hkept := h secondFails
      (Lib.Buffer.chars "\x7b\"idle_min\":5,\"rest_poll_min\":10\x7d") online (by decide +kernel)
    exact absurd hkept.1 (by decide +kernel)

end OpenCalifornia.Web
