import OpenCalifornia.Wifi.Phase
import OpenCalifornia.Wifi.Replaced

/-! # The store behind the WiFi runtime

While no access to the store fails, it has the credentials in place, and its flag denies no join
that the runtime trusts. -/

namespace OpenCalifornia.Wifi
open Lib Lib.Bits Lib.Machine

/-- No access to the store fails. -/
structure Env.Stores (e : Env) : Prop where
  gets : ∀ key, e.kvGet key = true
  sets : ∀ key, e.kvSet key = true
  erases : ∀ key, e.kvErase key = true

/-- What the runtime has of its join, and what the store has of it. -/
structure Memo where
  creds : Option Creds
  credsOk : Bool
  kv : Kv

def State.memo (w : State) : Memo := ⟨w.creds, w.credsOk, w.kv⟩

structure Memo.Backed (m : Memo) : Prop where
  creds : ∀ c, m.creds = some c → m.kv.ssid = some c.ssid ∧ m.kv.psk = some c.psk
  flag : m.credsOk = true → m.kv.ok ≠ some false

def State.Trusts (w : State) : Prop := w.sm.joinedOnce = .yes → w.credsOk = true

variable {last : Option Creds} {w : State} {e : Env} {c : Creds}

theorem Kv.load_stores {kv : Kv} (h : kv.load e = some c) :
    kv.ssid = some c.ssid ∧ kv.psk = some c.psk := by
  unfold Kv.load Creds.of? at h
  split at h
  · next ssid psk hssid hpsk =>
    split_ifs at h
    cases h
    exact ⟨hssid, hpsk⟩
  · cases h

theorem startScan_memo : (w.startScan e).memo = w.memo := by
  unfold State.startScan
  split_ifs <;> rfl

theorem apStart_memo : (w.apStart e).memo = w.memo := by
  unfold State.apStart State.openAp
  rw [startScan_memo]
  split_ifs
  · rfl
  · split <;> rfl

theorem staStart_memo : (w.staStart e).memo = w.memo := by
  unfold State.staStart
  split <;> rfl

theorem runAction_memo {a : Action} (ha : keepsCreds a) : (w.runAction e a).memo = w.memo := by
  cases a with
  | apStart => exact apStart_memo
  | staStart => exact staStart_memo
  | clearCreds => exact absurd rfl ha.1
  | restorePrev => exact absurd rfl ha.2
  | _ => rfl

theorem actions_memo {acts : List Action} (hacts : ∀ a ∈ acts, keepsCreds a) :
    (acts.foldl (State.runAction e) w).memo = w.memo := by
  induction acts generalizing w with
  | nil => rfl
  | cons a acts ih =>
    obtain ⟨ha, hacts⟩ := List.forall_mem_cons.mp hacts
    exact (ih hacts).trans (runAction_memo ha)

theorem feed_memo {ev : Ev} (hacts : ∀ a ∈ (w.sm.step ev).2, keepsCreds a) :
    (w.feed e ev).memo = w.memo :=
  actions_memo fun a ha => hacts a (List.mem_of_mem_filter ha)

theorem runAction_sm (a : Action) : (w.runAction e a).sm = w.sm := by
  have hcore := congrArg Core.sm (runAction_core (w := w) (e := e) a)
  refine hcore.trans ?_
  cases a with
  | staStart =>
    show (w.core.staStart e).sm = w.sm
    unfold Core.staStart
    split <;> rfl
  | restorePrev =>
    show (w.core.restorePrev e).sm = w.sm
    unfold Core.restorePrev
    split <;> rfl
  | _ => rfl

theorem actions_sm (acts : List Action) : (acts.foldl (State.runAction e) w).sm = w.sm := by
  induction acts generalizing w with
  | nil => rfl
  | cons a acts ih => exact ih.trans (runAction_sm a)

theorem feed_sm (ev : Ev) : (w.feed e ev).sm = (w.sm.step ev).1 := actions_sm _

theorem runAction_prev {a : Action} (ha : a ≠ .restorePrev) : (w.runAction e a).prev = w.prev := by
  have hcore := congrArg Core.prev (runAction_core (w := w) (e := e) a)
  refine hcore.trans ?_
  cases a with
  | staStart =>
    show (w.core.staStart e).prev = w.prev
    unfold Core.staStart
    split <;> rfl
  | restorePrev => exact absurd rfl ha
  | _ => rfl

theorem restorePrev_backed (he : e.Stores) (h : w.memo.Backed) : (w.restorePrev e).memo.Backed := by
  unfold State.restorePrev
  cases hp : w.prev with
  | none => exact h
  | some p =>
    refine ⟨fun c hc => ?_, fun _ => ?_⟩
    · obtain rfl : p = c := Option.some.inj hc
      simp [State.memo, State.setOk, he.sets]
    · simp [State.memo, State.setOk, he.sets]

theorem clearCreds_backed : (w.clearCreds e).memo.Backed := ⟨(by rintro _ ⟨⟩), (by rintro ⟨⟩)⟩

theorem runAction_backed (he : e.Stores) (h : w.memo.Backed) (a : Action) :
    (w.runAction e a).memo.Backed := by
  cases a with
  | clearCreds => exact clearCreds_backed
  | restorePrev => exact restorePrev_backed he h
  | apStart => exact (runAction_memo (a := .apStart) ⟨by decide, by decide⟩).symm ▸ h
  | staStart => exact (runAction_memo (a := .staStart) ⟨by decide, by decide⟩).symm ▸ h
  | _ => exact h

theorem actions_backed (he : e.Stores) (h : w.memo.Backed) (acts : List Action) :
    (acts.foldl (State.runAction e) w).memo.Backed := by
  induction acts generalizing w with
  | nil => exact h
  | cons a acts ih => exact ih (runAction_backed he h a)

theorem feedSkip_backed (he : e.Stores) (h : w.memo.Backed) (ev : Ev) (skip : Option Action) :
    (w.feedSkip e ev skip).memo.Backed :=
  actions_backed (w := { w with sm := (w.sm.step ev).1 }) he h _

theorem feed_backed (he : e.Stores) (h : w.memo.Backed) (ev : Ev) : (w.feed e ev).memo.Backed :=
  feedSkip_backed he h ev none

theorem runAction_credsOk {a : Action} (ha : a ≠ .clearCreds)
    (h : w.credsOk = true ∨ a = .restorePrev ∧ w.prev.isSome) :
    (w.runAction e a).credsOk = true := by
  by_cases har : a = .restorePrev
  · subst har
    show (w.restorePrev e).credsOk = true
    unfold State.restorePrev
    cases hp : w.prev with
    | none =>
      have hok := h.resolve_right fun hr => by simp [hp] at hr
      exact hok
    | some p => rfl
  · have hmemo := congrArg Memo.credsOk (runAction_memo (w := w) (e := e) ⟨ha, har⟩)
    exact hmemo.trans (h.resolve_right fun hr => har hr.1)

theorem actions_credsOk {acts : List Action} (hacts : .clearCreds ∉ acts)
    (h : w.credsOk = true ∨ .restorePrev ∈ acts ∧ w.prev.isSome) :
    (acts.foldl (State.runAction e) w).credsOk = true := by
  induction acts generalizing w with
  | nil => exact h.resolve_right fun hr => List.not_mem_nil hr.1
  | cons a acts ih =>
    have ha : a ≠ .clearCreds := fun he => hacts (he ▸ List.mem_cons_self)
    refine ih (fun hm => hacts (List.mem_cons_of_mem _ hm)) ?_
    by_cases har : a = .restorePrev
    · exact .inl (runAction_credsOk ha (h.imp_right fun hr => ⟨har, hr.2⟩))
    · refine h.imp (fun hok => runAction_credsOk ha (.inl hok)) fun hr => ⟨?_, ?_⟩
      · exact (List.mem_cons.mp hr.1).resolve_left fun he => har he.symm
      · exact (runAction_prev har).symm ▸ hr.2

theorem Sm.step_yes {m : Sm} {ev : Ev} (h : (m.step ev).1.joinedOnce = .yes) :
    .clearCreds ∉ (m.step ev).2 ∧
      (m.joinedOnce = .yes ∨ m.joinedOnce = .replacing ∧ .restorePrev ∈ (m.step ev).2 ∨
        ev = .gotIp ∧ (m.step ev).1.st = .online ∨ ev = .bootWithCreds) := by
  have htick : ∀ now, (m.tickRetrying now).1.joinedOnce = .yes →
      .clearCreds ∉ (m.tickRetrying now).2 ∧ m.joinedOnce = .yes := by
    intro now hyes
    obtain ⟨hsame, -, hacts⟩ := m.tickRetrying_cases now
    refine ⟨fun hm => ?_, hsame ▸ hyes⟩
    simp only [List.mem_cons, List.not_mem_nil, or_false] at hacts
    obtain hacts | hacts | hacts | hacts := hacts <;> simp [hacts] at hm
  unfold Sm.step at h ⊢
  cases ev with
  | credsForget => cases h
  | credsReplace =>
    dsimp only at h ⊢
    split_ifs at h ⊢
    exact ⟨List.not_mem_nil, .inl h⟩
  | tick now =>
    cases hst : m.st with
    | retrying =>
      simp only [hst] at h ⊢
      exact ⟨(htick now h).1, .inl (htick now h).2⟩
    | setupApRetrying =>
      simp only [hst] at h ⊢
      exact ⟨(htick now h).1, .inl (htick now h).2⟩
    | online =>
      simp only [hst] at h ⊢
      split_ifs at h ⊢ <;> exact ⟨by simp, .inl h⟩
    | _ =>
      simp only [hst] at h ⊢
      exact ⟨List.not_mem_nil, .inl h⟩
  | failed reason =>
    cases hst : m.st with
    | connecting =>
      simp only [hst] at h ⊢
      split_ifs at h ⊢ with hno hre
      · cases h
      · exact ⟨by simp, .inr (.inl ⟨hre, by simp⟩)⟩
      · refine ⟨by simp, .inl ?_⟩
        cases hj : m.joinedOnce with
        | no => exact absurd hj hno
        | yes => rfl
        | replacing => exact absurd hj hre
    | _ =>
      simp only [hst] at h ⊢
      exact ⟨List.not_mem_nil, .inl h⟩
  | _ =>
    cases hst : m.st <;> simp_all [Sm.setup, Sm.goOnline]

/-- What the runtime trusts is in the store. -/
structure Faithful (w : State) : Prop where
  backed : w.memo.Backed
  trusts : w.Trusts

theorem Faithful.of_memo {w' : State} (h : Faithful w) (hm : w'.memo = w.memo) (hs : w'.sm = w.sm) :
    Faithful w' where
  backed := hm ▸ h.backed
  trusts hyes := (congrArg Memo.credsOk hm).trans (h.trusts (hs ▸ hyes))

theorem feed_faithful (he : e.Stores) (hat : w.core.At last) (h : Faithful w) {ev : Ev}
    (hboot : ev ≠ .bootWithCreds) (hip : ev = .gotIp → (w.feed e ev).sm.st ≠ .online) :
    Faithful (w.feed e ev) := by
  refine ⟨feed_backed he h.backed ev, fun hyes => ?_⟩
  rw [feed_sm] at hyes hip
  obtain ⟨hclear, hcases⟩ := Sm.step_yes hyes
  refine actions_credsOk (w := { w with sm := (w.sm.step ev).1 })
    (fun hm => hclear (List.mem_of_mem_filter hm)) ?_
  obtain hold | ⟨hre, hm⟩ | ⟨hgot, hon⟩ | hev := hcases
  · exact .inl (h.trusts hold)
  · exact .inr ⟨List.mem_filter.mpr ⟨hm, rfl⟩, hat.replaces hre⟩
  · exact absurd hon (hip hgot)
  · exact absurd hev hboot

theorem online_faithful (he : e.Stores) (h : w.memo.Backed) (ip : ℕ) :
    Faithful (w.online e ip) := by
  unfold State.online State.setOk
  rw [he.sets, if_pos rfl]
  by_cases hok : w.credsOk = false
  · rw [if_pos ⟨hok, rfl⟩]
    exact ⟨⟨h.creds, fun _ => by simp [State.memo]⟩, fun _ => rfl⟩
  · rw [if_neg fun hand => hok hand.1]
    exact ⟨⟨h.creds, h.flag⟩, fun _ => by simpa using hok⟩

theorem net_faithful (he : e.Stores) (hat : w.core.At last) (h : Faithful w) (ev : NetEv) :
    Faithful (w.onNet e ev) := by
  cases ev with
  | gotIp ip =>
    have hat' : ({ w with joining := none } : State).core.At last := hat
    have h' : Faithful { w with joining := none } := ⟨h.backed, h.trusts⟩
    dsimp only [State.onNet]
    split_ifs with hst
    · exact online_faithful he (feed_backed he h'.backed _) ip
    · exact feed_faithful he hat' h' (by rintro ⟨⟩) fun _ => hst
  | lost =>
    dsimp only [State.onNet]
    split_ifs
    · have hat' : ({ w with ip := 0, rssi := 0 } : State).core.At last := hat
      exact feed_faithful he hat' ⟨h.backed, h.trusts⟩ (by rintro ⟨⟩) (by rintro ⟨⟩)
    · exact feed_faithful he hat h (by rintro ⟨⟩) (by rintro ⟨⟩)
  | failed reason =>
    have hat' : ({ w with joining := none } : State).core.At last := hat
    exact feed_faithful he hat' ⟨h.backed, h.trusts⟩ (by rintro ⟨⟩) (by rintro ⟨⟩)
  | apStarted => exact feed_faithful he hat h (by rintro ⟨⟩) (by rintro ⟨⟩)
  | scanDone list => cases list <;> exact ⟨h.backed, h.trusts⟩
  | apStopped => exact ⟨h.backed, h.trusts⟩

theorem startScan_faithful (h : Faithful w) : Faithful (w.startScan e) :=
  h.of_memo startScan_memo (congrArg Core.sm startScan_core)

theorem tick_faithful (he : e.Stores) (hat : w.core.At last) (h : Faithful w) (now : ℕ) :
    Faithful (w.tick e now) := by
  have hat' : ({ w with now } : State).core.At last := hat
  have hfailed : Faithful (({ w with now } : State).tickFailed e) := by
    unfold State.tickFailed
    split_ifs
    · have hatf : ({ w with now, joinFailed := false } : State).core.At last := hat
      exact feed_faithful he hatf ⟨h.backed, h.trusts⟩ (by rintro ⟨⟩) (by rintro ⟨⟩)
    · exact ⟨h.backed, h.trusts⟩
  have hfed : Faithful ((({ w with now } : State).tickFailed e).feed e (.tick now)) :=
    feed_faithful he (tickFailed_at hat').phase hfailed (by rintro ⟨⟩) (by rintro ⟨⟩)
  have hrssi : ∀ w : State, Faithful w → Faithful (w.tickRssi e now) := by
    intro w h
    unfold State.tickRssi
    split_ifs
    · exact ⟨h.backed, h.trusts⟩
    · exact h
  unfold State.tick
  apply hrssi
  split_ifs
  · exact startScan_faithful hfed
  · exact hfed

theorem forget_faithful (he : e.Stores) (h : Faithful w) : Faithful (w.forget e) := by
  have h' : ({ w with ip := 0, rssi := 0, reverted := false, prev := none } : State).memo.Backed :=
    h.backed
  refine ⟨feed_backed he h' .credsForget, fun hyes => ?_⟩
  have hno := (congrArg Sm.joinedOnce (feed_sm .credsForget)).symm.trans hyes
  cases hno

theorem feedCredsSet_backed (he : e.Stores) (h : w.memo.Backed) :
    (w.feedCredsSet e).memo.Backed :=
  feed_backed (w := { w.newAttempt with prev := none }) he h _

theorem join_backed (he : e.Stores) (h : w.memo.Backed) : (w.join e).memo.Backed := by
  have h' : ({ w with ip := 0, rssi := 0 } : State).memo.Backed := h
  have hnew : ({ w with ip := 0, rssi := 0 } : State).newAttempt.memo.Backed := h
  unfold State.join
  split_ifs
  · exact feedCredsSet_backed he h
  · exact feed_backed he hnew _
  · exact feedCredsSet_backed he (feedSkip_backed he h' _ _)
  · exact h

theorem setCreds_faithful (he : e.Stores) (hat : w.core.At last) (h : Faithful w) (c : Creds) :
    Faithful (Op.apply (.setCreds c) e w) := by
  have hcore := setCreds_core (w := w) (e := e) c
  have hkeep : State.keepsJoin { w with kv := w.kv.store c } c.ssid c.psk ↔
      w.keepsJoin c.ssid c.psk := Iff.rfl
  have hstores := setCreds_stores (c := c) (e := e) w
  by_cases hk : w.keepsJoin c.ssid c.psk
  · have heq : Op.apply (.setCreds c) e w = { w with kv := w.kv.store c } :=
      if_pos (hkeep.mpr hk)
    rw [heq] at hstores ⊢
    refine ⟨⟨fun d hd => ?_, h.backed.flag⟩, h.trusts⟩
    obtain rfl : c = d := Option.some.inj (hstores.1.symm.trans hd)
    exact hstores.2
  · rw [if_neg hk] at hcore
    refine ⟨?_, fun hyes => ?_⟩
    · show (State.setCreds { w with kv := w.kv.store c } e c.ssid c.psk).memo.Backed
      unfold State.setCreds
      rw [if_neg fun h' => hk (hkeep.mp h'), Creds.of?_eq]
      have hput : ((({ w with
          kv := w.kv.store c
          prev := State.stash { w with kv := w.kv.store c }
          creds := some c } : State).markUnjoined e).memo).Backed := by
        refine ⟨fun d hd => ?_, (by rintro ⟨⟩)⟩
        have hcreds := congrArg Core.creds (markUnjoined_core (e := e) (w := { w with
          kv := w.kv.store c
          prev := State.stash { w with kv := w.kv.store c }
          creds := some c }))
        obtain rfl : c = d := Option.some.inj (hcreds.symm.trans hd)
        simp [State.memo, State.markUnjoined, State.setOk, he.sets, Kv.store]
      exact join_backed he hput
    · exact absurd ((congrArg (·.sm.joinedOnce) hcore).symm.trans hyes)
        (hat.newCreds_untrusted (e := e) c)

theorem Kv.joined_ok (he : e.Stores) {kv : Kv} (h : kv.joined e = true) : kv.ok ≠ some false := by
  intro hok
  simp [Kv.joined, he.gets, hok] at h

theorem boot_joined {kv : Kv} (hload : kv.load e = some c) (hj : kv.joined e = true) :
    (State.boot kv e).creds = some c ∧ (State.boot kv e).sm.joinedOnce = .yes ∧
      (State.boot kv e).credsOk = true := by
  have hboot : State.boot kv e =
      ({ kv, creds := some c, credsOk := true } : State).feed e .bootWithCreds := by
    simp [State.boot, hload, hj]
  rw [hboot]
  have hmemo : (({ kv, creds := some c, credsOk := true } : State).feed e .bootWithCreds).memo =
      ⟨some c, true, kv⟩ :=
    feed_memo (List.forall_mem_singleton.mpr ⟨by decide, by decide⟩)
  exact ⟨congrArg Memo.creds hmemo, congrArg Sm.joinedOnce (feed_sm .bootWithCreds),
    congrArg Memo.credsOk hmemo⟩

theorem boot_faithful (he : e.Stores) (kv : Kv) : Faithful (State.boot kv e) := by
  have hboot : ({ kv, creds := kv.load e, credsOk := (kv.load e).isSome && kv.joined e } :
      State).memo.Backed :=
    ⟨fun c hc => Kv.load_stores hc, fun hok => Kv.joined_ok he (Bool.and_eq_true_iff.mp hok).2⟩
  refine ⟨?_, fun hyes => ?_⟩
  · unfold State.boot
    dsimp only
    split_ifs
    · exact feedCredsSet_backed he (feed_backed he hboot _)
    · exact feed_backed he hboot _
    · exact feed_backed he hboot _
  · have hcore := congrArg (·.sm.joinedOnce) (boot_core (e := e) kv)
    cases hload : kv.load e with
    | none =>
      rw [hload] at hcore
      have hno := hcore.symm.trans hyes
      cases hno
    | some c =>
      cases hj : kv.joined e with
      | false =>
        rw [hload, hj] at hcore
        have hno := hcore.symm.trans hyes
        cases hno
      | true => exact (boot_joined hload hj).2.2

/-- A network that joined and is not being replaced is the one that a boot loads. -/
theorem Faithful.boot (h : Faithful w) (he : e.Stores) (hc : w.creds = some c)
    (hyes : w.sm.joinedOnce = .yes) : (State.boot w.kv e).creds = some c ∧
      (State.boot w.kv e).sm.joinedOnce = .yes := by
  obtain ⟨hssid, hpsk⟩ := h.backed.creds c hc
  have hflag := h.backed.flag (h.trusts hyes)
  have hload : w.kv.load e = some c := by
    have hssid' : w.kv.ssid = some c.ssid := hssid
    have hpsk' : w.kv.psk = some c.psk := hpsk
    simp [Kv.load, hssid', hpsk', he.gets, Creds.of?_eq]
  have hjoined : w.kv.joined e = true := by
    have hflag' : w.kv.ok ≠ some false := hflag
    simp only [Kv.joined, he.gets, if_true]
    cases hok : w.kv.ok with
    | none => rfl
    | some ok =>
      cases ok with
      | false => exact absurd hok hflag'
      | true => rfl
  obtain ⟨hcreds, hyes, -⟩ := boot_joined hload hjoined
  exact ⟨hcreds, hyes⟩

end OpenCalifornia.Wifi
