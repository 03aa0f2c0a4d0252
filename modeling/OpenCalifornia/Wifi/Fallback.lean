import OpenCalifornia.Wifi.Backed

/-! # The fallback of a replacement

The last network that joined stays with the runtime: in place, or stashed until its replacement
joins. -/

namespace OpenCalifornia.Wifi
open Lib Lib.Bits Lib.Machine

variable {last : Option Creds} {e : Env} {w : State}

/-- The network that a step joined, or that a boot loaded as validated. -/
def joins (r : Rec) : Option Creds :=
  match r.inp.1 with
  | .net (.gotIp _) => if r.post.sm.st = .online then r.post.creds else none
  | .boot => if r.post.sm.joinedOnce = .yes then r.post.creds else none
  | _ => none

def Op.isBoot : Op → Bool
  | .boot => true
  | _ => false

/-- The last network since the last boot. -/
def lastJoined : List Rec → Option Creds
  | [] => none
  | r :: older => if r.inp.1.isBoot then joins r else (joins r).or (lastJoined older)

/-- No access to the store has failed since the last boot. -/
def Intact : List Rec → Prop
  | [] => True
  | r :: older => r.inp.2.Stores ∧ (r.inp.1.isBoot = true ∨ Intact older)

/-- A step after which a network that was joined need not be stored any more: another network
joined, the network was forgotten, credentials were given in setup, or the satellite rebooted while
a replacement had not joined, or with a store that had failed. -/
def Ends (c : Creds) (r : Rec) (older : List Rec) : Prop :=
  match r.inp.1 with
  | .net (.gotIp _) => r.post.sm.st = .online ∧ r.post.creds ≠ some c
  | .boot => r.pre.sm.joinedOnce = .replacing ∨ ¬ (r.inp.2.Stores ∧ Intact older)
  | .forget => True
  | .setCreds _ => r.pre.sm.st = .setupAp ∨ r.pre.sm.st = .setupApRetrying
  | _ => False

/-- The network was joined, and nothing has ended that. -/
def Lasts (c : Creds) : List Rec → Prop
  | [] => False
  | r :: older => joins r = some c ∨ ¬ Ends c r older ∧ Lasts c older

def start (kv : Kv) : State := { kv }

/-- What a run keeps. -/
structure Stored (tr : List Rec) (w : State) : Prop where
  phase : w.core.At (lastJoined tr)
  lasts : ∀ c, Lasts c tr → lastJoined tr = some c ∧ w.sm.joinedOnce ≠ .no

theorem stored_start (kv : Kv) : Stored [] (start kv) := ⟨.off none, (by rintro _ ⟨⟩)⟩

theorem Stored.plain {tr : List Rec} (h : Stored tr w) {r : Rec} (hboot : r.inp.1.isBoot = false)
    (hjoins : joins r = none) (hphase : r.post.core.At (lastJoined tr))
    (hjoined : ∀ c, w.sm.joinedOnce ≠ .no → ¬ Ends c r tr → r.post.sm.joinedOnce ≠ .no) :
    Stored (r :: tr) r.post := by
  have hlast : lastJoined (r :: tr) = lastJoined tr := by
    rw [lastJoined, hboot, hjoins]
    rfl
  refine ⟨hlast.symm ▸ hphase, fun c hc => ?_⟩
  obtain hnew | ⟨hends, hold⟩ := hc
  · rw [hjoins] at hnew
    cases hnew
  · obtain ⟨hlasts, hno⟩ := h.lasts c hold
    exact ⟨hlast.trans hlasts, hjoined c hno hends⟩

theorem Stored.keeps {tr : List Rec} (h : Stored tr w) {r : Rec} (hboot : r.inp.1.isBoot = false)
    (hjoins : joins r = none) (hkeep : Keeps (lastJoined tr) w.begin.core r.post.core) :
    Stored (r :: tr) r.post :=
  h.plain hboot hjoins hkeep.phase fun _ hj _ => hkeep.joined hj

theorem Stored.joined {r : Rec} {c : Creds} (hjoins : joins r = some c) (tr : List Rec)
    (hno : r.post.sm.joinedOnce ≠ .no) (hat : r.post.core.At (some c))
    (hends : ∀ d, Lasts d tr → ¬ Ends d r tr → d = c) : Stored (r :: tr) r.post := by
  have hlast : lastJoined (r :: tr) = some c := by
    rw [lastJoined, hjoins]
    split_ifs <;> rfl
  refine ⟨hlast.symm ▸ hat, fun d hd => ?_⟩
  obtain hnew | ⟨hkept, hold⟩ := hd
  · exact ⟨hlast.trans (hjoins.symm.trans hnew), hno⟩
  · exact ⟨hlast.trans (congrArg some (hends d hold hkept).symm), hno⟩

theorem Stored.boot {tr : List Rec} (h : Stored tr w) (hf : Intact tr → Faithful w) {n : Creds}
    (hn : Lasts n tr) (hre : w.sm.joinedOnce ≠ .replacing) (he : e.Stores) (hin : Intact tr) :
    (State.boot w.kv e).creds = some n ∧ (State.boot w.kv e).sm.joinedOnce = .yes := by
  obtain ⟨hlast, hno⟩ := h.lasts n hn
  have hyes : w.sm.joinedOnce = .yes := by
    cases hj : w.sm.joinedOnce with
    | no => exact absurd hj hno
    | yes => rfl
    | replacing => exact absurd hj hre
  exact (hf hin).boot he ((h.phase.current hyes).trans hlast) hyes

theorem Stored.step {tr : List Rec} (h : Stored tr w) (hf : Intact tr → Faithful w) {i : Input}
    {out : List Call} {w' : State} (hs : step i w = some (out, w')) :
    Stored (⟨i, w, out, w'⟩ :: tr) w' := by
  obtain ⟨op, e⟩ := i
  obtain ⟨-, rfl⟩ := Prod.mk.inj (Option.some.inj hs)
  have hat : w.begin.core.At (lastJoined tr) := h.phase
  cases op with
  | boot =>
    have hloads : ∀ d, Lasts d tr → ¬ Ends d ⟨(.boot, e), w, out, State.boot w.kv e⟩ tr →
        (State.boot w.kv e).creds = some d ∧ (State.boot w.kv e).sm.joinedOnce = .yes := by
      intro d hd hkept
      obtain ⟨hre, hwhole⟩ := not_or.mp hkept
      obtain ⟨he, hin⟩ := not_not.mp hwhole
      exact h.boot hf hd hre he hin
    obtain ⟨-, ⟨hno, hphase⟩ | ⟨c, hyes, hcreds, hphase⟩⟩ := boot_at w.kv e
    · have hyes : ¬ (State.boot w.kv e).sm.joinedOnce = .yes := fun hyes => by
        have hboth := hno.symm.trans hyes
        cases hboth
      refine ⟨hphase _, fun c hc => ?_⟩
      obtain hnew | ⟨hkept, hold⟩ := hc
      · have hnone := hnew.symm.trans (if_neg hyes)
        cases hnone
      · exact absurd (hloads c hold hkept).2 hyes
    · refine Stored.joined (r := ⟨(.boot, e), w, out, State.boot w.kv e⟩) (c := c)
        ((if_pos hyes).trans hcreds) tr (fun hno => ?_) hphase fun d hd hkept => ?_
      · have hboth := hyes.symm.trans hno
        cases hboth
      · exact Option.some.inj ((hloads d hd hkept).1.symm.trans hcreds)
  | net ev =>
    by_cases hev : ∃ ip, ev = .gotIp ip
    · obtain ⟨ip, rfl⟩ := hev
      obtain ⟨hst, hkeep⟩ | ⟨c, hst, hyes, hcreds, hphase, -⟩ := gotIp_at (e := e) hat ip
      · exact h.keeps rfl (if_neg hst) hkeep
      · refine Stored.joined (r := ⟨(.net (.gotIp ip), e), w, out, w.begin.onNet e (.gotIp ip)⟩)
          (c := c) ((if_pos hst).trans hcreds) tr (fun hno => ?_) hphase fun d _ hkept => ?_
        · have hboth := hyes.symm.trans hno
          cases hboth
        · by_contra hdc
          exact hkept ⟨hst, fun hd => hdc (Option.some.inj (hd.symm.trans hcreds))⟩
    · have hev' : ∀ ip, ev ≠ .gotIp ip := fun ip he => hev ⟨ip, he⟩
      have hjoins : joins ⟨(.net ev, e), w, out, w.begin.onNet e ev⟩ = none := by
        cases ev with
        | gotIp ip => exact absurd rfl (hev' ip)
        | _ => rfl
      exact h.keeps rfl hjoins (net_at hat hev')
  | tick now => exact h.keeps rfl rfl (tick_at hat now)
  | setCreds c =>
    obtain ⟨hphase, hjoined, -⟩ := setCreds_at (e := e) hat c
    exact h.plain rfl rfl hphase fun d hj hends => hjoined hj fun hst => hends (.inr hst)
  | forget =>
    obtain ⟨hphase, -⟩ := forget_at w.begin e (lastJoined tr)
    exact h.plain rfl rfl hphase fun d _ hends => absurd trivial hends
  | scan =>
    have hcore : (w.begin.startScan e).core = w.begin.core := startScan_core
    exact h.keeps rfl rfl (hcore.symm ▸ Keeps.refl hat)
  | scanAuto =>
    have hcore : (w.begin.scanAuto e).core = w.begin.core := scanAuto_core
    exact h.keeps rfl rfl (hcore.symm ▸ Keeps.refl hat)

theorem faithful_start (kv : Kv) : Faithful (start kv) :=
  ⟨⟨(by rintro _ ⟨⟩), (by rintro ⟨⟩)⟩, (by rintro ⟨⟩)⟩

theorem faithful_step (hat : w.core.At last) (h : Faithful w) (he : e.Stores) (op : Op) :
    Faithful (op.apply e w.begin) := by
  have hat' : w.begin.core.At last := hat
  have h' : Faithful w.begin := ⟨h.backed, h.trusts⟩
  cases op with
  | boot => exact boot_faithful he w.kv
  | net ev => exact net_faithful he hat' h' ev
  | tick now => exact tick_faithful he hat' h' now
  | setCreds c => exact setCreds_faithful he hat' h' c
  | forget => exact forget_faithful he h'
  | scan => exact startScan_faithful h'
  | scanAuto =>
    show Faithful (w.begin.scanAuto e)
    unfold State.scanAuto
    split_ifs
    · exact startScan_faithful h'
    · exact h'

theorem stored_faithful_run {kv : Kv} {tr : List Rec} (h : Run step (start kv) tr w) :
    Stored tr w ∧ (Intact tr → Faithful w) := by
  apply h.history ⟨stored_start kv, fun _ => faithful_start kv⟩
  rintro tr ⟨op, e⟩ w out w' - ⟨hstored, hf⟩ hs
  refine ⟨hstored.step hf hs, fun hin => ?_⟩
  obtain ⟨-, rfl⟩ := Prod.mk.inj (Option.some.inj hs)
  obtain ⟨he, hboot | hin⟩ := hin
  · cases op with
    | boot => exact boot_faithful he w.kv
    | _ => cases hboot
  · exact faithful_step hstored.phase (hf hin) he op

theorem stored_run {kv : Kv} {tr : List Rec} (h : Run step (start kv) tr w) : Stored tr w :=
  (stored_faithful_run h).1

theorem restores_step (h : w.core.At last) {i : Input} {out : List Call} {w' : State}
    (hs : step i w = some (out, w')) {c p : Option Creds} (hm : .restored c p ∈ out) :
    ∃ n, p = some n ∧ last = some n := by
  obtain ⟨op, e⟩ := i
  obtain ⟨rfl, rfl⟩ := Prod.mk.inj (Option.some.inj hs)
  have hat : w.begin.core.At last := h
  have hcalls : .restored c p ∈ (op.apply e w.begin).core.calls :=
    List.mem_filter.mpr ⟨List.mem_reverse.mp hm, rfl⟩
  have hrestores : Restores last [] (op.apply e w.begin).core.calls := by
    cases op with
    | boot => exact (boot_at w.kv e).1 last
    | net ev =>
      by_cases hev : ∃ ip, ev = .gotIp ip
      · obtain ⟨ip, rfl⟩ := hev
        obtain ⟨-, hkeep⟩ | ⟨n, -, -, -, -, hsame⟩ := gotIp_at (e := e) hat ip
        · exact hkeep.restores
        · intro c p hm
          have hnil : (w.begin.onNet e (.gotIp ip)).core.calls = [] := hsame
          exact .inl (hnil ▸ hm)
      · exact (net_at hat fun ip he => hev ⟨ip, he⟩).restores
    | tick now => exact (tick_at hat now).restores
    | setCreds n => exact (setCreds_at hat n).2.2
    | forget => exact (forget_at w.begin e last).2
    | scan =>
      have hcore : (w.begin.startScan e).core = w.begin.core := startScan_core
      exact hcore.symm ▸ Restores.refl
    | scanAuto =>
      have hcore : (w.begin.scanAuto e).core = w.begin.core := scanAuto_core
      exact hcore.symm ▸ Restores.refl
  exact (hrestores c p hcalls).resolve_left List.not_mem_nil

/-- The stash is the last network, a restore puts it back, and a network that was joined stays: a
boot loads it, unless a replacement has not joined yet or the store has failed. -/
theorem fallback_kept {kv : Kv} {tr : List Rec} (h : Run step (start kv) tr w) :
    (∀ newer r older c p, tr = newer ++ r :: older → .restored c p ∈ r.out →
      ∃ n, p = some n ∧ lastJoined older = some n) ∧
    (∀ n, w.prev = some n → lastJoined tr = some n) ∧
    (∀ n, Lasts n tr → w.creds = some n ∨ w.prev = some n) ∧
    (∀ newer r older n, tr = newer ++ r :: older → r.inp.1 = .boot → Lasts n older →
      r.pre.sm.joinedOnce ≠ .replacing → r.inp.2.Stores → Intact older →
      r.post.creds = some n ∧ r.post.sm.joinedOnce = .yes) ∧
    (w.sm.joinedOnce = .replacing → w.prev.isSome = true) := by
  have hstored := stored_run h
  refine ⟨?_, fun n => hstored.phase.stash, fun n hn => ?_, ?_, hstored.phase.replaces⟩
  · rintro newer r older c p rfl hm
    obtain ⟨hrun, hs⟩ := h.split newer
    exact restores_step (stored_run hrun).phase hs hm
  · obtain ⟨hlast, hno⟩ := hstored.lasts n hn
    exact hstored.phase.kept hno hlast
  · rintro newer ⟨⟨op, e⟩, pre, out, post⟩ older n rfl rfl hn hre he hin
    obtain ⟨hrun, hs⟩ := h.split newer
    have hpost : State.boot pre.kv e = post := (Prod.mk.inj (Option.some.inj hs)).2
    obtain ⟨hold, hf⟩ := stored_faithful_run hrun
    rw [← hpost]
    exact hold.boot hf hn hre he hin

/-- Two networks. -/
def home : Creds := ⟨[0x68], List.replicate 8 0x70, by decide, .inr (by decide)⟩

def away : Creds := ⟨[0x61], List.replicate 8 0x70, by decide, .inr (by decide)⟩

/-- Every call of the platform succeeds. -/
def Env.willing : Env := { staStart := true, apStart := true, identity := some ([], []) }

theorem Env.willing_stores : Env.willing.Stores := ⟨fun _ => rfl, fun _ => rfl, fun _ => rfl⟩

def joinedKv : Kv := ⟨some home.ssid, some home.psk, some true⟩

/-- A network that is being replaced is in the stash. Put back, it is the one that a boot loads. -/
theorem fallback_kept_replacing :
    (∃ tr w, Run step (start joinedKv) tr w ∧ Lasts home tr ∧ w.creds = some away ∧
      (w.creds = some home ∨ w.prev = some home)) ∧
    ∃ r older w, Run step (start joinedKv) (r :: older) w ∧ r.inp.1 = .boot ∧ Lasts home older ∧
      r.post.creds = some home ∧ r.post.sm.joinedOnce = .yes := by
  have hrun : Run step (start joinedKv) _ _ :=
    .cons (i := (.setCreds away, .willing)) (.cons (i := (.net (.gotIp 1), .willing))
      (.cons (i := (.boot, .willing)) .nil rfl) rfl) rfl
  refine ⟨⟨_, _, hrun, ?_, rfl, (fallback_kept hrun).2.2.1 home ?_⟩, ?_⟩
  · exact Or.inr ⟨fun h => h.elim (by rintro ⟨⟩) (by rintro ⟨⟩), Or.inl rfl⟩
  · exact Or.inr ⟨fun h => h.elim (by rintro ⟨⟩) (by rintro ⟨⟩), Or.inl rfl⟩
  · have hboot : Run step (start joinedKv) _ _ :=
      .cons (i := (.boot, .willing)) (.cons (i := (.net (.failed .other), .willing)) hrun rfl) rfl
    refine ⟨_, _, _, hboot, rfl, ?_, (fallback_kept hboot).2.2.2.1 [] _ _ home rfl rfl ?_
      (by rintro ⟨⟩) Env.willing_stores ⟨Env.willing_stores, .inr ⟨Env.willing_stores,
        .inr ⟨Env.willing_stores, .inr ⟨Env.willing_stores, .inl rfl⟩⟩⟩⟩⟩
    · exact Or.inr ⟨id, Or.inr ⟨fun h => h.elim (by rintro ⟨⟩) (by rintro ⟨⟩), Or.inl rfl⟩⟩
    · exact Or.inr ⟨id, Or.inr ⟨fun h => h.elim (by rintro ⟨⟩) (by rintro ⟨⟩), Or.inl rfl⟩⟩

/-- The store does not take the name of the network that is put back. -/
def Env.unstored : Env := { Env.willing with kvSet := fun key => key ≠ .ssid }

/-- A reboot in the middle of a replacement loses the network that joined: the stash is not stored.
So does a reboot after the network was put back and the store did not take it. -/
theorem reboot_loses_stash :
    (∃ tr w newer r older, Run step (start joinedKv) tr w ∧ tr = newer ++ r :: older ∧
      joins r = some home ∧ (∀ x ∈ newer, x.inp.1.isBoot = true ∨ ¬ Ends home x []) ∧
      (∀ x ∈ newer, x.inp.2.Stores) ∧ w.creds ≠ some home ∧ w.prev ≠ some home) ∧
    ∃ tr w newer r older, Run step (start joinedKv) tr w ∧ tr = newer ++ r :: older ∧
      joins r = some home ∧ (∀ x ∈ newer, x.inp.1.isBoot = true ∨ ¬ Ends home x []) ∧
      (∀ x ∈ newer, x.inp.1.isBoot = true → x.pre.sm.joinedOnce ≠ .replacing) ∧
      w.creds ≠ some home ∧ w.prev ≠ some home := by
  have hrun : Run step (start joinedKv) _ _ :=
    .cons (i := (.setCreds away, .willing)) (.cons (i := (.net (.gotIp 1), .willing))
      (.cons (i := (.boot, .willing)) .nil rfl) rfl) rfl
  have hlost : some away ≠ some home := by decide
  constructor
  · have hboot : Run step (start joinedKv) _ _ := .cons (i := (.boot, .willing)) hrun rfl
    refine ⟨_, _, [_, _], _, [_], hboot, rfl, rfl, ?_, ?_, fun h => hlost h, by rintro ⟨⟩⟩
    · refine List.forall_mem_cons.mpr ⟨.inl rfl, List.forall_mem_singleton.mpr (.inr ?_)⟩
      exact fun h => h.elim (by rintro ⟨⟩) (by rintro ⟨⟩)
    · exact List.forall_mem_cons.mpr ⟨Env.willing_stores,
        List.forall_mem_singleton.mpr Env.willing_stores⟩
  · have hboot : Run step (start joinedKv) _ _ :=
      .cons (i := (.boot, .willing)) (.cons (i := (.net (.failed .other), .unstored)) hrun rfl) rfl
    refine ⟨_, _, [_, _, _], _, [_], hboot, rfl, rfl, ?_, ?_, fun h => hlost h, by rintro ⟨⟩⟩
    · refine List.forall_mem_cons.mpr ⟨.inl rfl, List.forall_mem_cons.mpr ⟨.inr id,
        List.forall_mem_singleton.mpr (.inr ?_)⟩⟩
      exact fun h => h.elim (by rintro ⟨⟩) (by rintro ⟨⟩)
    · refine List.forall_mem_cons.mpr ⟨fun _ => (by rintro ⟨⟩), List.forall_mem_cons.mpr ⟨?_,
        List.forall_mem_singleton.mpr ?_⟩⟩
      · rintro ⟨⟩
      · rintro ⟨⟩

end OpenCalifornia.Wifi
