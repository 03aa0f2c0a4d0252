import OpenCalifornia.Wifi.Fallback

/-! # Why credentials are cleared

Credentials that have not joined are dropped after an attempt with them failed. A start that failed
is reported on the next tick, so new credentials in between would take the blame. -/

namespace OpenCalifornia.Wifi
open Lib Lib.Bits Lib.Machine

/-- The credentials that a call takes away. -/
def Call.drops : Call → Option (Option Creds)
  | .cleared c => some c
  | .restored c _ => some c
  | _ => none

/-- A failure that comes now is one of the current credentials, or these have failed already. -/
def Blame (failed : Creds → Prop) (k : Core) : Prop :=
  k.sm.st = .connecting → k.sm.joinedOnce ≠ .yes →
    ∃ c, k.Stores c ∧ (k.joinFailed = true → failed c) ∧ ∀ x, k.joining = some x → x = c ∨ failed c

/-- Every call of the step that takes credentials away has a cause. -/
def Caused (failed : Creds → Prop) (k k' : Core) : Prop :=
  ∀ a ∈ k'.calls, a ∈ k.calls ∨ ∀ c, a.drops = some c → ∃ n, c = some n ∧ k.Stores n ∧ failed n

variable {failed : Creds → Prop} {last : Option Creds} {k k' : Core} {e : Env} {c : Creds}

theorem Blame.mono {failed' : Creds → Prop} (h : Blame failed k) (hf : ∀ c, failed c → failed' c) :
    Blame failed' k := by
  intro hst hj
  obtain ⟨c, hstores, hjf, hjoining⟩ := h hst hj
  exact ⟨c, hstores, fun h => hf c (hjf h), fun x hx => (hjoining x hx).imp_right (hf c)⟩

theorem Blame.vacuous (h : k.sm.st ≠ .connecting) : Blame failed k := fun hst => absurd hst h

theorem Caused.refl : Caused failed k k := fun _ h => .inl h

theorem Caused.cons {a : Call} (h : k'.calls = a :: k.calls)
    (ha : ∀ c, a.drops = some c → ∃ n, c = some n ∧ k.Stores n ∧ failed n) :
    Caused failed k k' := by
  intro b hb
  rw [h] at hb
  cases List.mem_cons.mp hb with
  | inl he => exact .inr (he ▸ ha)
  | inr hb => exact .inl hb

theorem Caused.of_drops_none (h : ∀ a ∈ k'.calls, a ∈ k.calls ∨ a.drops = none) :
    Caused failed k k' := by
  intro a ha
  cases h a ha with
  | inl ha => exact .inl ha
  | inr hnone => exact .inr fun c hc => absurd (hnone.symm.trans hc) (by rintro ⟨⟩)

theorem Caused.trans {k'' : Core} (h : Caused failed k k')
    (h' : ∀ a ∈ k''.calls, a ∈ k'.calls ∨ a.drops = none) : Caused failed k k'' := by
  intro a ha
  cases h' a ha with
  | inl ha => exact h a ha
  | inr hnone => exact .inr fun c hc => absurd (hnone.symm.trans hc) (by rintro ⟨⟩)

theorem Core.mem_staStart {a : Call} (h : a ∈ (k.staStart e).calls) :
    a ∈ k.calls ∨ a.drops = none := by
  unfold Core.staStart at h
  split at h
  · exact .inl h
  · cases List.mem_cons.mp h with
    | inl he => exact .inr (he ▸ rfl)
    | inr h => exact .inl h

theorem Core.At.drops (h : k.At last) (reason : Reason)
    (hfail : k.sm.st = .connecting → k.sm.joinedOnce ≠ .yes → ∃ c, k.Stores c ∧ failed c) :
    (k.feed e (.failed reason)).sm.st ≠ .connecting ∧
      Caused failed k (k.feed e (.failed reason)) := by
  obtain ⟨⟨st, apUp, joinedOnce, retryMs, sinceMs, nextTryMs⟩, creds, prev, _, _, _, _, calls⟩ := k
  cases h with
  | off => exact ⟨(by rintro ⟨⟩), .refl⟩
  | setup => exact ⟨(by rintro ⟨⟩), .refl⟩
  | typed c =>
    obtain ⟨n, hn, hf⟩ := hfail rfl (by rintro ⟨⟩)
    refine ⟨(by rintro ⟨⟩), .cons rfl fun d hd => ⟨n, ?_, hn, hf⟩⟩
    exact (Option.some.inj hd).symm.trans hn.1
  | replacing c p hlast =>
    obtain ⟨n, hn, hf⟩ := hfail rfl (by rintro ⟨⟩)
    refine ⟨(by rintro ⟨⟩), .cons rfl fun d hd => ⟨n, ?_, hn, hf⟩⟩
    exact (Option.some.inj hd).symm.trans hn.1
  | joined hst c hlast =>
    cases hst with
    | connecting => exact ⟨(by rintro ⟨⟩), .refl⟩
    | online => exact ⟨(by rintro ⟨⟩), .refl⟩
    | retrying => exact ⟨(by rintro ⟨⟩), .refl⟩
    | setupApRetrying => exact ⟨(by rintro ⟨⟩), .refl⟩

theorem blame_staStart (hstores : k.Stores c) (hclear : k.joinFailed = true → e.staStart = false) :
    Blame (fun n => .staStart n false ∈ (k.staStart e).calls) (k.staStart e) := by
  obtain ⟨sm, creds, prev, joinFailed, joining, ssid, psk, calls⟩ := k
  obtain ⟨rfl, hssid, hpsk⟩ := hstores
  intro _ _
  refine ⟨c, ⟨rfl, hssid, hpsk⟩, fun hjf => ?_, fun x hx => ?_⟩
  · have hno : e.staStart = false := by
      cases hs : e.staStart with
      | false => rfl
      | true =>
        have hold : joinFailed = true := by
          simpa [Core.staStart, hs] using hjf
        exact hs.symm.trans (hclear hold)
    exact List.mem_cons.mpr (.inl (congrArg (Call.staStart c) hno.symm))
  · cases hs : e.staStart with
    | false =>
      refine .inr (List.mem_cons.mpr (.inl ?_))
      exact congrArg (Call.staStart c) hs.symm
    | true =>
      have hjoin : (some c : Option Creds) = some x := by
        simpa [Core.staStart, hs] using hx
      exact .inl (Option.some.inj hjoin).symm

theorem Core.At.newCreds_cases (h : k.At last) (c : Creds) :
    (((k.replaced c).join e).sm.st = .unprovisioned ∧
      ((k.replaced c).join e).calls = k.calls) ∨
    ∃ k₀ : Core, (k.replaced c).join e = k₀.staStart e ∧ k₀.Stores c ∧
      k₀.joinFailed = k.joinFailed ∧ k₀.calls = k.calls := by
  obtain ⟨⟨st, apUp, joinedOnce, retryMs, sinceMs, nextTryMs⟩, creds, prev, jf, joining, ssid, psk,
    calls⟩ := k
  have hstores : ∀ sm prev joining, Core.Stores ⟨sm, some c, prev, jf, joining, some c.ssid,
    some c.psk, calls⟩ c := fun _ _ _ => ⟨rfl, rfl, rfl⟩
  have htyped : ∀ sm joining, Core.Stores ⟨sm, some c, none, jf, joining, some c.ssid,
    some c.psk, calls⟩ c := fun _ _ => hstores _ _ _
  have hreplacing : ∀ p, Core.Stores ⟨⟨.connecting, true, .replacing, 0, 0, 0⟩, some c, p, jf, none,
    some c.ssid, some c.psk, calls⟩ c := fun _ => hstores _ _ _
  cases h with
  | off =>
    cases creds with
    | none => exact .inl ⟨rfl, rfl⟩
    | some c₀ => exact .inl ⟨rfl, rfl⟩
  | setup =>
    exact .inr ⟨_, rfl, htyped ⟨.connecting, apUp, .no, retryMs, sinceMs, nextTryMs⟩ joining, rfl,
      rfl⟩
  | typed => exact .inr ⟨_, rfl, htyped ⟨.connecting, true, .no, 0, 0, 0⟩ none, rfl, rfl⟩
  | replacing _ p => exact .inr ⟨_, rfl, hreplacing (some p), rfl, rfl⟩
  | joined hst c₀ =>
    cases hst with
    | connecting => exact .inr ⟨_, rfl, hreplacing (some c₀), rfl, rfl⟩
    | online => exact .inr ⟨_, rfl, hreplacing (some c₀), rfl, rfl⟩
    | retrying => exact .inr ⟨_, rfl, hreplacing (some c₀), rfl, rfl⟩
    | setupApRetrying =>
      exact .inr ⟨_, rfl, htyped ⟨.connecting, apUp, .no, 0, 0, 0⟩ joining, rfl, rfl⟩

theorem Core.staStart_sm : (k.staStart e).sm = k.sm := by
  unfold Core.staStart
  split <;> rfl

theorem Blame.lost (h : Blame failed k) : Blame failed (k.feed e .lost) ∧
    Caused failed k (k.feed e .lost) := by
  obtain ⟨⟨st, apUp, joinedOnce, retryMs, sinceMs, nextTryMs⟩, creds, prev, _, _, _, _, calls⟩ := k
  cases st with
  | unprovisioned => exact ⟨.vacuous (by rintro ⟨⟩), .refl⟩
  | setupAp => exact ⟨.vacuous (by rintro ⟨⟩), .refl⟩
  | connecting => exact ⟨h, .refl⟩
  | online => exact ⟨.vacuous (by rintro ⟨⟩), .refl⟩
  | retrying => exact ⟨.vacuous (by rintro ⟨⟩), .refl⟩
  | setupApRetrying => exact ⟨.vacuous (by rintro ⟨⟩), .refl⟩

theorem Blame.tick (h : Blame failed k) (now : ℕ) : Blame failed (k.feed e (.tick now)) ∧
    ∀ a ∈ (k.feed e (.tick now)).calls, a ∈ k.calls ∨ a.drops = none := by
  by_cases hst : k.sm.st = .retrying ∨ k.sm.st = .setupApRetrying
  · obtain ⟨-, hmove, -⟩ := k.sm.tickRetrying_cases now
    have hne : (k.sm.tickRetrying now).1.st ≠ .connecting := by
      obtain hsame | ⟨-, hlate⟩ := hmove
      · rw [hsame]
        rcases hst with h | h <;> rw [h] <;> rintro ⟨⟩
      · rw [hlate]
        rintro ⟨⟩
    obtain hfeed | hfeed := k.feed_tick (e := e) hst now
    · rw [hfeed]
      exact ⟨.vacuous hne, fun _ ha => .inl ha⟩
    · rw [hfeed]
      refine ⟨.vacuous fun hc => hne ?_, fun _ ha =>
        Core.mem_staStart (k := { k with sm := (k.sm.tickRetrying now).1 }) ha⟩
      exact (congrArg Sm.st Core.staStart_sm).symm.trans hc
  · obtain ⟨sm, hfeed, hsame, hjoined⟩ := k.feed_tick_idle (e := e) (not_or.mp hst) now
    rw [hfeed]
    refine ⟨fun hc hj => ?_, fun _ ha => .inl ha⟩
    exact h (hsame.symm.trans hc) fun hy => hj (hjoined.trans hy)

theorem boot_blame (kv : Kv) (e : Env) :
    Blame (fun n => .staStart n false ∈ (State.boot kv e).core.calls) (State.boot kv e).core ∧
      ∀ a ∈ (State.boot kv e).core.calls, a.drops = none := by
  have hcore := boot_core (e := e) kv
  rw [hcore]
  cases hload : kv.load e with
  | none => exact ⟨.vacuous (by rintro ⟨⟩), List.forall_mem_nil _⟩
  | some c =>
    obtain ⟨hssid, hpsk⟩ := Kv.load_stores hload
    cases kv.joined e with
    | false =>
      have hstores : Core.Stores ⟨⟨.connecting, true, .no, 0, 0, 0⟩, some c, none, false, none,
        kv.ssid, kv.psk, []⟩ c := ⟨rfl, hssid, hpsk⟩
      exact ⟨blame_staStart hstores (by rintro ⟨⟩), List.forall_mem_singleton.mpr rfl⟩
    | true => exact ⟨fun _ hj => absurd rfl hj, List.forall_mem_singleton.mpr rfl⟩

/-- New credentials are taken in this step. -/
def Gives (r : Rec) : Prop :=
  match r.inp.1 with
  | .boot => True
  | .setCreds c => ¬ r.pre.keepsJoin c.ssid c.psk
  | _ => False

/-- An attempt that was started with these credentials failed in this step. -/
def AttemptFails (c : Creds) (r : Rec) : Prop :=
  .staStart c false ∈ r.out ∨
    (∃ reason, r.inp.1 = .net (.failed reason)) ∧ r.pre.joining = some c

/-- An attempt failed, and no new credentials were taken since it was started. -/
def FailedSince (c : Creds) : List Rec → Prop
  | [] => False
  | r :: older => AttemptFails c r ∨ ¬ Gives r ∧ FailedSince c older

/-- The platform reports the outcome of a join that it runs: none after its station was stopped. -/
def Reported (r : Rec) : Prop :=
  match r.inp.1 with
  | .net (.gotIp _) => r.pre.joining.isSome = true
  | .net (.failed _) => r.pre.joining.isSome = true
  | _ => True

/-- No new join starts while a start that failed waits for its tick. -/
def Clear (r : Rec) : Prop :=
  match r.inp.1 with
  | .setCreds c =>
    r.pre.joinFailed = true → r.pre.keepsJoin c.ssid c.psk ∨ r.inp.2.staStart = false
  | _ => True

variable {w : State}

/-- The calls of a step that take credentials away have a cause in the records. -/
def CausedBy (tr : List Rec) (r : Rec) : Prop :=
  ∀ a ∈ r.out, ∀ c, a.drops = some c →
    r.inp.1 = .forget ∨ ∃ n, c = some n ∧ r.pre.core.Stores n ∧ FailedSince n (r :: tr)

theorem Call.about_of_drops {a : Call} {c : Option Creds} (h : a.drops = some c) :
    a.aboutCreds = true := by
  cases a with
  | cleared | restored => rfl
  | _ => cases h

theorem causedBy_of {tr : List Rec} {op : Op} {out : List Call} {w' : State}
    (hout : out = w'.calls.reverse)
    (h : Caused (fun n => FailedSince n (⟨(op, e), w, out, w'⟩ :: tr)) w.begin.core w'.core) :
    CausedBy tr ⟨(op, e), w, out, w'⟩ := by
  intro a ha c hc
  have hmem : a ∈ w'.core.calls := by
    refine List.mem_filter.mpr ⟨?_, Call.about_of_drops hc⟩
    exact List.mem_reverse.mp (hout ▸ ha)
  exact .inr ((h a hmem).resolve_left List.not_mem_nil c hc)

variable {tr : List Rec}

/-- What a run keeps. -/
structure Blamed (tr : List Rec) (w : State) : Prop where
  phase : w.core.At (lastJoined tr)
  blame : Blame (fun c => FailedSince c tr) w.core

theorem Blamed.cause (h : Blamed tr w) {x : Creds} (hx : w.joining = some x)
    (hst : w.sm.st = .connecting) (hj : w.sm.joinedOnce ≠ .yes) :
    ∃ c, w.core.Stores c ∧ (x = c ∨ FailedSince c tr) := by
  obtain ⟨c, hstores, -, hjoining⟩ := h.blame hst hj
  exact ⟨c, hstores, hjoining x hx⟩

theorem Blamed.net (h : Blamed tr w) {ev : NetEv} {out : List Call}
    (hreported : Reported ⟨(.net ev, e), w, out, w.begin.onNet e ev⟩) :
    Blame (fun c => FailedSince c (⟨(.net ev, e), w, out, w.begin.onNet e ev⟩ :: tr))
        (w.begin.onNet e ev).core ∧
      Caused (fun c => FailedSince c (⟨(.net ev, e), w, out, w.begin.onNet e ev⟩ :: tr))
        w.begin.core (w.begin.onNet e ev).core := by
  have hat : w.begin.core.At (lastJoined tr) := h.phase
  have hblame : Blame (fun c => FailedSince c
      (⟨(.net ev, e), w, out, w.begin.onNet e ev⟩ :: tr)) w.begin.core :=
    Blame.mono (k := w.begin.core) h.blame fun c hc => .inr ⟨id, hc⟩
  cases ev with
  | gotIp ip =>
    have hat' : ({ w.begin.core with joining := none } : Core).At (lastJoined tr) := hat
    have hcore := gotIp_core (w := w.begin) (e := e) ip
    obtain ⟨hsame, hst⟩ | ⟨c, hst, -, -, hcalls⟩ := hat'.gotIp (e := e)
    · dsimp only at hcore
      rw [hsame, if_neg hst] at hcore
      rw [hcore]
      refine ⟨fun hst hj => ?_, .refl⟩
      obtain ⟨c, hstores, hjf, -⟩ := hblame hst hj
      exact ⟨c, hstores, hjf, (by rintro _ ⟨⟩)⟩
    · dsimp only at hcore
      rw [if_pos hst] at hcore
      rw [hcore]
      refine ⟨.vacuous fun hc => ?_, fun a ha => .inl (hcalls ▸ ha)⟩
      have hboth := hst.symm.trans hc
      cases hboth
  | lost =>
    rw [lost_core]
    exact hblame.lost
  | failed reason =>
    obtain ⟨x, hx⟩ := Option.isSome_iff_exists.mp hreported
    have hat' : ({ w.begin.core with joining := none } : Core).At (lastJoined tr) := hat
    have hdrops : (({ w.begin.core with joining := none } : Core).feed e
        (.failed reason)).sm.st ≠ .connecting ∧ Caused (fun c => FailedSince c
          (⟨(.net (.failed reason), e), w, out, w.begin.onNet e (.failed reason)⟩ :: tr))
          { w.begin.core with joining := none }
            (({ w.begin.core with joining := none } : Core).feed e
              (.failed reason)) := by
      refine hat'.drops reason fun hst hj => ?_
      obtain ⟨c, hstores, hcause⟩ := h.cause hx hst hj
      refine ⟨c, hstores, ?_⟩
      cases hcause with
      | inl he => exact .inl (.inr ⟨⟨reason, rfl⟩, hx.trans (congrArg some he)⟩)
      | inr hold => exact .inr ⟨id, hold⟩
    rw [failed_core]
    exact ⟨.vacuous hdrops.1, hdrops.2⟩
  | apStarted => exact ⟨hblame, .refl⟩
  | scanDone list => cases list <;> exact ⟨hblame, .refl⟩
  | apStopped => exact ⟨hblame, .refl⟩

theorem Blame.tickFailed (hat : w.core.At last) (h : Blame failed w.core) :
    Blame failed (w.tickFailed e).core ∧ Caused failed w.core (w.tickFailed e).core := by
  have hat' : ({ w.core with joinFailed := false } : Core).At last := hat
  rw [tickFailed_core]
  by_cases hjf : w.joinFailed = true
  · have hdrops : (({ w.core with joinFailed := false } : Core).feed e
        (.failed .other)).sm.st ≠ .connecting ∧ Caused failed { w.core with joinFailed := false }
        (({ w.core with joinFailed := false } : Core).feed e (.failed .other)) := by
      refine hat'.drops .other fun hst hj => ?_
      obtain ⟨c, hstores, hfail, -⟩ := h hst hj
      exact ⟨c, hstores, hfail hjf⟩
    rw [if_pos hjf]
    exact ⟨.vacuous hdrops.1, hdrops.2⟩
  · rw [if_neg hjf]
    exact ⟨h, .refl⟩

theorem Blame.ticks (hat : w.core.At last) (h : Blame failed w.core) (now : ℕ) :
    Blame failed (w.tick e now).core ∧ Caused failed w.core (w.tick e now).core := by
  have hat' : ({ w with now } : State).core.At last := hat
  have h' : Blame failed ({ w with now } : State).core := h
  obtain ⟨hblame, hcaused⟩ := h'.tickFailed (e := e) hat'
  obtain ⟨hblame', hcalls⟩ := hblame.tick (e := e) now
  rw [tick_core]
  exact ⟨hblame', hcaused.trans hcalls⟩

/-- New credentials start a join of their own, unless they keep the one there is. -/
theorem Blame.setCreds (hat : w.core.At last) (h : Blame failed w.core) (c : Creds)
    (hclear : w.joinFailed = true → w.keepsJoin c.ssid c.psk ∨ e.staStart = false) :
    (w.keepsJoin c.ssid c.psk → Blame failed (Op.apply (.setCreds c) e w).core) ∧
    (¬ w.keepsJoin c.ssid c.psk → Blame
      (fun n => .staStart n false ∈ (Op.apply (.setCreds c) e w).core.calls)
      (Op.apply (.setCreds c) e w).core) ∧
    ∀ a ∈ (Op.apply (.setCreds c) e w).core.calls, a ∈ w.core.calls ∨ a.drops = none := by
  have hcore := setCreds_core (w := w) (e := e) c
  by_cases hkeep : w.keepsJoin c.ssid c.psk
  · rw [if_pos hkeep] at hcore
    rw [hcore]
    refine ⟨fun _ hst hj => ?_, fun hnot => absurd hkeep hnot, fun _ ha => .inl ha⟩
    obtain ⟨d, ⟨hcreds, hssid, hpsk⟩, hrest⟩ := h hst hj
    have hsame : d.ssid = c.ssid ∧ d.psk = c.psk := by
      have hany := hkeep.2
      have hcreds' : w.creds = some d := hcreds
      rw [hcreds'] at hany
      simpa using hany
    exact ⟨d, ⟨hcreds, congrArg some hsame.1.symm, congrArg some hsame.2.symm⟩, hrest⟩
  · rw [if_neg hkeep] at hcore
    have hreplaced : (Op.apply (.setCreds c) e w).core = (w.core.replaced c).join e := hcore
    rw [hreplaced]
    refine ⟨fun hk => absurd hk hkeep, fun _ => ?_, ?_⟩
    · obtain ⟨hst, -⟩ | ⟨k₀, hk₀, hstores, hjf, -⟩ := hat.newCreds_cases (e := e) c
      · refine .vacuous fun hc => ?_
        have hboth := hst.symm.trans hc
        cases hboth
      · rw [hk₀]
        refine blame_staStart hstores fun hfail => ?_
        exact (hclear (hjf.symm.trans hfail)).resolve_left hkeep
    · intro a ha
      obtain ⟨-, hcalls⟩ | ⟨k₀, hk₀, -, -, hcalls⟩ := hat.newCreds_cases (e := e) c
      · exact .inl (hcalls ▸ ha)
      · rw [hk₀] at ha
        exact (Core.mem_staStart ha).imp_left fun ha => hcalls ▸ ha

theorem failedSince_of_mem {op : Op} {w' : State} {n : Creds}
    (h : .staStart n false ∈ w'.core.calls) :
    FailedSince n (⟨(op, e), w, w'.calls.reverse, w'⟩ :: tr) :=
  .inl (.inl (List.mem_reverse.mpr (List.mem_filter.mp h).1))

theorem Blamed.same (h : Blamed tr w) (op : Op) {w' : State} (hcore : w'.core = w.begin.core)
    (hgives : ¬ Gives ⟨(op, e), w, w'.calls.reverse, w'⟩) :
    Blame (fun c => FailedSince c (⟨(op, e), w, w'.calls.reverse, w'⟩ :: tr)) w'.core ∧
      CausedBy tr ⟨(op, e), w, w'.calls.reverse, w'⟩ := by
  have hblame : Blame (fun c => FailedSince c tr) w.begin.core := h.blame
  refine ⟨?_, causedBy_of rfl ?_⟩
  · rw [hcore]
    exact hblame.mono fun c hc => .inr ⟨hgives, hc⟩
  · rw [hcore]
    exact .refl

theorem Blamed.step (h : Blamed tr w) {i : Input} {out : List Call} {w' : State}
    (hs : step i w = some (out, w')) (hphase : w'.core.At (lastJoined (⟨i, w, out, w'⟩ :: tr)))
    (hreported : Reported ⟨i, w, out, w'⟩) (hclear : Clear ⟨i, w, out, w'⟩) :
    Blamed (⟨i, w, out, w'⟩ :: tr) w' ∧ CausedBy tr ⟨i, w, out, w'⟩ := by
  obtain ⟨op, e⟩ := i
  obtain ⟨rfl, rfl⟩ := Prod.mk.inj (Option.some.inj hs)
  have hat : w.begin.core.At (lastJoined tr) := h.phase
  have hblame : Blame (fun c => FailedSince c tr) w.begin.core := h.blame
  cases op with
  | boot =>
    obtain ⟨hblame', hdrops⟩ := boot_blame w.kv e
    refine ⟨⟨hphase, hblame'.mono fun n hn => failedSince_of_mem hn⟩, causedBy_of rfl ?_⟩
    exact .of_drops_none fun a ha => .inr (hdrops a ha)
  | net ev =>
    obtain ⟨hblame', hcaused⟩ := h.net hreported
    exact ⟨⟨hphase, hblame'⟩, causedBy_of rfl hcaused⟩
  | tick now =>
    have hkept : Blame (fun c => FailedSince c (⟨(.tick now, e), w,
        (w.begin.tick e now).calls.reverse, w.begin.tick e now⟩ :: tr)) w.begin.core :=
      hblame.mono fun c hc => .inr ⟨id, hc⟩
    obtain ⟨hblame', hcaused⟩ := hkept.ticks (e := e) hat now
    exact ⟨⟨hphase, hblame'⟩, causedBy_of rfl hcaused⟩
  | setCreds c =>
    obtain ⟨hkept, hnew, hcalls⟩ := Blame.setCreds (w := w.begin) (e := e) hat hblame c hclear
    refine ⟨⟨hphase, ?_⟩, causedBy_of rfl (.of_drops_none hcalls)⟩
    by_cases hkeep : w.keepsJoin c.ssid c.psk
    · exact (hkept hkeep).mono fun n hn => .inr ⟨fun hgives => hgives hkeep, hn⟩
    · exact (hnew hkeep).mono fun n hn => failedSince_of_mem hn
  | forget =>
    refine ⟨⟨hphase, .vacuous ?_⟩, fun a _ c _ => .inl rfl⟩
    show (w.begin.forget e).core.sm.st ≠ .connecting
    rw [forget_core]
    rintro ⟨⟩
  | scan =>
    obtain ⟨hblame', hcaused⟩ := h.same .scan (e := e) startScan_core id
    exact ⟨⟨hphase, hblame'⟩, hcaused⟩
  | scanAuto =>
    obtain ⟨hblame', hcaused⟩ := h.same .scanAuto (e := e) scanAuto_core id
    exact ⟨⟨hphase, hblame'⟩, hcaused⟩

/-- The station refuses to start. -/
def Env.refusing : Env := { Env.willing with staStart := false }

end OpenCalifornia.Wifi
