import OpenCalifornia.Transport.Events

/-! # Connects are reported, links are ended

The rules of connects, links and the scan that waits hold in every run in which no terminate of an
unwanted link is refused. -/

namespace OpenCalifornia.Transport.Gap
open Lib Lib.Machine

variable {w w' : State} {e : Env} {p : Past}

theorem heard (hi : Inv w) (hq : w.quiet = true) (ev : GapEvent) {handle : ℕ}
    (hh : ev.handle = some handle) (hev : ∀ p : Past, (p.apply (.event ev)).proc = p.proc)
    {links : List Link}
    (htook : (w.act (.event ev)).took ev = { w.act (.event ev) with links := links }) :
    ∃ p, Heard p w handle links ((w.act (.event ev)).took ev) := by
  obtain ⟨p, hn, hk, ha⟩ := hi.event hq ev hev
  refine ⟨p, ?_⟩
  rw [htook]
  exact ⟨hk.at_, by rw [hn]; exact hh, hk.proc, ⟨ha.awaited, ha.up, ha.owed⟩, rfl, rfl, rfl, rfl,
    (quiet_iff.mp hq).1⟩

theorem gap_inv (hi : Inv w) (hq : w.quiet = true) {ev : GapEvent} (hmay : w.May ev = true)
    (htaken : ∀ handle, ev = .connect 0 handle → w.connectCancelled = true → e.terminate = 0) :
    Inv (((w.act (.event ev)).took ev).gapCb e ev) := by
  have hbase : w.slot.Fits ∧ Serves w.q w.conn := by
    obtain ⟨p, hk, -⟩ := hi
    exact ⟨hk.fits, hk.serves⟩
  obtain ⟨hf, hs⟩ := hbase
  cases ev with
  | disc addr fields rssi =>
    obtain ⟨p, -, hk, ha⟩ := hi.event hq (.disc addr fields rssi) fun _ => rfl
    have hinv : Inv (w.act (.event (.disc addr fields rssi))) := ⟨p, hk, ha⟩
    show Inv (if w.window then State.advEvent _ e addr fields rssi else if _ then _ else _)
    split_ifs
    · exact advEvent_inv hinv addr fields rssi
    · have hfound : Same (w.act (.event (.disc addr fields rssi)))
          { w.act (.event (.disc addr fields rssi)) with found := some addr } :=
        ⟨rfl, rfl, rfl, rfl, fun _ h => h⟩
      exact (hfound.inv hinv).emit_plain (fun _ => rfl) fun _ _ _ h => by cases h
    · exact hinv
  | discComplete =>
    obtain ⟨p, -, hk, ha⟩ := hi.event hq (.discComplete) fun _ => rfl
    exact ⟨p, ⟨hk.at_, hk.fits, hk.serves, hk.proc, hk.sink⟩, ha.awaited, ha.up, ha.owed⟩
  | connect status handle =>
    exact onConnect_inv hi hq hmay fun hstatus => htaken handle (hstatus ▸ rfl)
  | disconnect handle reason =>
    obtain ⟨p, h⟩ := heard hi hq (.disconnect handle reason) rfl (fun _ => rfl) rfl
    exact onDisconnect_inv h hf hs reason
  | termFailure handle status =>
    obtain ⟨p, h⟩ := heard hi hq (.termFailure handle status) rfl (fun _ => rfl) rfl
    exact onTermFailure_inv h hf hs status
  | passkeyAction handle input =>
    obtain ⟨p, hn, hk, ha⟩ := hi.event hq (.passkeyAction handle input) fun _ => rfl
    exact onPasskeyAction_inv hn hk ha
  | encChange handle status =>
    obtain ⟨p, hn, hk, ha⟩ := hi.event hq (.encChange handle status) fun _ => rfl
    exact onEncChange_inv hn hk ha
  | notifyRx handle attr data =>
    obtain ⟨p, hn, hk, ha⟩ := hi.event hq (.notifyRx handle attr data) fun _ => rfl
    exact onNotifyRx_inv hn hk ha
  | repeatPairing handle peer =>
    obtain ⟨p, -, hk, ha⟩ := hi.event hq (.repeatPairing handle peer) fun _ => rfl
    exact (onRepeatPairing_same peer).inv ⟨p, hk, ha⟩

theorem sinkReturned_inv (hi : Inv w) (h : w.sinkReturned e = some w') : Inv w' := by
  obtain ⟨p, hk, ha⟩ := hi
  unfold State.sinkReturned at h
  split_ifs at h with hdepth
  · obtain rfl := Option.some.inj h
    exact ⟨p, hk.turn ha.up (returned_turned (q := { w.q with log := [], starts := 0 }) rfl e.gatt),
      ha.awaited, ha.up, ha.owed⟩
  · cases hsink : w.sink with
    | none =>
      rw [hsink] at h
      cases h
    | some link =>
      rw [hsink] at h
      have hkept : Kept p { w with sink := none } :=
        ⟨hk.at_, hk.fits, hk.serves, hk.proc, fun _ hs => by cases hs⟩
      cases link with
      | none =>
        obtain rfl := Option.some.inj h
        exact ⟨p, hkept, ha.awaited, ha.up, ha.owed⟩
      | some handle =>
        obtain rfl := Option.some.inj h
        have hn := hk.sink handle hsink
        have ha' : Agrees p { w with sink := none } := ⟨ha.awaited, ha.up, ha.owed⟩
        unfold State.encryptNow
        by_cases hc : w.encryptOnConnect = true ∧ w.conn = some handle
        · have hsame : Same { w with sink := none } (State.initiate { w with
              sink := none, encryptOnConnect := false } e handle).2 :=
            ⟨rfl, rfl, rfl, rfl, fun _ h => h.plain rfl⟩
          dsimp only
          rw [if_pos hc]
          split_ifs
          · exact emit_link hn rfl (hsame.kept hkept) (hsame.agrees ha') hc.2 rfl fun h _ => h
          · exact ⟨p, hsame.kept hkept, hsame.agrees ha'⟩
        · dsimp only
          rw [if_neg hc]
          exact ⟨p, hkept, ha'⟩

theorem hostReset_inv (hi : Inv w) (hproc : w.proc = false) (hlinks : w.links = []) :
    Inv w.onReset := by
  obtain ⟨p, hk, ha⟩ := hi
  have hf := hk.fits
  have hconn : w.conn = none := by
    by_contra hc
    obtain ⟨handle, hc⟩ := Option.ne_none_iff_exists'.mp hc
    have hmem := hf.known handle hc
    rw [show w.slot.links = [] from hlinks] at hmem
    cases hmem
  have hdying : w.dyingConn = none := by
    by_contra hd
    obtain ⟨handle, hd⟩ := Option.ne_none_iff_exists'.mp hd
    obtain ⟨-, -, l, hl, -⟩ := hf.dying handle hd
    rw [show w.slot.links = [] from hlinks] at hl
    cases hl
  have hdeferred : w.connectDeferred = none := by
    by_contra hd
    have hsome := (hf.deferred (Option.isSome_iff_ne_none.mpr hd)).2
    rw [show w.slot.dyingConn = none from hdying] at hsome
    cases hsome
  have hcancelled : w.connectCancelled = false := by
    by_contra hc
    exact absurd ((hf.proc.mpr (.inr (Bool.not_eq_false _ ▸ hc))).symm.trans hproc) Bool.noConfusion
  have hconnecting : w.connecting = false := by
    by_contra hc
    have hopen := hf.proc.mpr (.inl ⟨Bool.not_eq_false _ ▸ hc, congrArg Option.isSome hdeferred⟩)
    exact absurd (hopen.symm.trans hproc) Bool.noConfusion
  have hscan : w.scanDeferred = false := by
    by_contra hs
    exact absurd ((hf.scan (Bool.not_eq_false _ ▸ hs)).symm.trans hcancelled) Bool.noConfusion
  have hslot : w.onReset.slot = w.slot := by
    unfold State.slot
    rw [hconn, hdying, hdeferred, hcancelled, hconnecting, hscan]
    rfl
  refine ⟨p, ⟨hk.at_.plain (a := .gatt .reset) rfl, hslot ▸ hf, ?_, hk.proc, hk.sink⟩,
    ha.awaited.trans hconnecting, ha.up.trans hconn, ha.owed.trans hscan⟩
  exact Serves.reset hk.serves.fresh

/-- The terminate of a link that nobody wants is taken. -/
def DropTaken (i : Op × Env) (w : State) : Prop :=
  ∀ handle, i.1 = .gap (.connect 0 handle) → w.connectCancelled = true → i.2.terminate = 0

theorem next_inv (hi : Inv w) {op : Op} (htaken : DropTaken (op, e) w)
    (h : w.next e op = some w') : Inv w' := by
  unfold State.next at h
  cases op with
  | call c =>
    obtain rfl := Option.some.inj h
    exact call_inv hi c
  | gap ev =>
    obtain ⟨hc, h⟩ := Option.ite_none_right_eq_some.mp h
    obtain ⟨hq, hmay⟩ := Bool.and_eq_true_iff.mp hc
    obtain rfl := Option.some.inj h
    exact gap_inv hi hq hmay fun handle hev => htaken handle (congrArg Op.gap hev)
  | gatt k word =>
    obtain ⟨-, h⟩ := Option.ite_none_right_eq_some.mp h
    obtain ⟨q', hq', rfl⟩ := Option.map_eq_some_iff.mp h
    obtain ⟨p, hk, ha⟩ := hi
    exact ⟨p, hk.turn ha.up (callback_turned rfl hq'), ha.awaited, ha.up, ha.owed⟩
  | returned => exact sinkReturned_inv hi h
  | bonded peer =>
    obtain ⟨-, h⟩ := Option.ite_none_right_eq_some.mp h
    obtain rfl := Option.some.inj h
    exact (storeBond_same peer).inv hi
  | hostReset =>
    obtain ⟨hc, h⟩ := Option.ite_none_right_eq_some.mp h
    obtain ⟨hc, hlinks⟩ := Bool.and_eq_true_iff.mp hc
    obtain ⟨-, hproc⟩ := Bool.and_eq_true_iff.mp hc
    obtain rfl := Option.some.inj h
    exact hostReset_inv hi (by simpa using hproc) (List.isEmpty_iff.mp hlinks)

abbrev Rec := Record (Op × Env) Unit State

variable {tr : List Rec} {bonds : List ℕ}

def start (bonds : List ℕ) : State := { bonds := bonds }

/-- What the acts so far come to. -/
def past (log : List Act) : Past := Past.monitor.after {} log

theorem start_inv : Inv (start bonds) := by
  refine ⟨{}, ⟨.start, ?_, ⟨rfl, {}, .idle ?_, fun _ => .inl rfl⟩, rfl, fun _ h => by cases h⟩, rfl,
    rfl, rfl⟩
  · exact {
      proc := by simp [State.slot, start]
      one := fun _ => rfl
      free := fun _ => rfl
      dying := fun _ h => by cases h
      deferred := fun h => by cases h
      scan := fun h => by cases h
      asked := List.forall_mem_nil _
      handles := List.nodup_nil
      known := fun _ h => by cases h
      ending := List.forall_mem_nil _ }
  · exact {
      up := rfl
      gone := rfl
      off := fun _ => rfl
      room := Nat.zero_le _
      sorted := List.forall_mem_nil _
      busy := rfl
      running := rfl
      waiting := rfl
      pending := rfl
      current := rfl }

theorem run_inv (h : Run step (start bonds) tr w) (htaken : ∀ r ∈ tr, DropTaken r.inp r.pre) :
    Inv w := by
  induction h with
  | nil => exact start_inv
  | cons hr hs ih =>
    obtain ⟨w₁, hnext, heq⟩ := Option.map_eq_some_iff.mp hs
    obtain ⟨-, rfl⟩ := Prod.mk.inj heq
    exact next_inv (ih fun r hr => htaken r (List.mem_cons_of_mem _ hr))
      (htaken _ List.mem_cons_self) hnext

/-- The books of connects and links, in a state. -/
structure Books (w : State) : Prop where
  /-- Connects are accepted one at a time and reported once, if they are not given up; what a link
  delivers is of the link that is up. -/
  rules : Past.monitor.Fits {} w.log
  /-- A connect that awaits its report is with NimBLE, or a link has not answered its terminate. -/
  pending : (past w.log).awaited = true →
    w.proc = true ∧ w.connectCancelled = false ∨ ∃ l ∈ w.links, l.ending = true
  /-- A scan is owed only while a connect procedure is open. -/
  scan : (past w.log).owed = true → w.proc = true
  /-- A link that is not the caller's was terminated, and only one link was not. -/
  asked : ∀ l ∈ w.links, l.asked = true ∨ (past w.log).up = some l.handle
  one : (w.links.filter fun l => !l.asked).length ≤ 1

/-- What a step settles. -/
structure Settles (r : Rec) : Prop where
  /-- The end of the connect procedure reports the connect that awaits it, and starts the scan. -/
  connect : ∀ status handle, r.inp.1 = .gap (.connect status handle) →
    (past r.post.log).awaited = false ∧ (past r.post.log).owed = false
  /-- When the answer to a terminate comes, the connect that waited is with NimBLE, or reported. -/
  answer : ∀ handle, ((∃ reason, r.inp.1 = .gap (.disconnect handle reason)) ∨
      ∃ status, r.inp.1 = .gap (.termFailure handle status)) →
    (∃ l ∈ r.pre.links, l.handle = handle ∧ l.ending = true) →
    (past r.post.log).awaited = true → r.post.proc = true
  /-- A callback of an earlier link does nothing. -/
  stale : ∀ k word proc, r.inp.1 = .gatt k word → r.pre.q.procs[k]? = some proc →
    proc.link ≠ r.pre.q.link → r.post.log = r.pre.log

theorem one_unasked {links : List Link} {conn : Option ℕ} (hn : (links.map Link.handle).Nodup)
    (ha : ∀ l ∈ links, l.asked = true ∨ conn = some l.handle) :
    (links.filter fun l => !l.asked).length ≤ 1 := by
  have hsub := (List.filter_sublist (p := fun l => !l.asked) (l := links)).map Link.handle
  have hnodup := hsub.nodup hn
  have hall : ∀ l ∈ links.filter fun l => !l.asked, conn = some l.handle := by
    intro l hl
    obtain ⟨hl, hnot⟩ := List.mem_filter.mp hl
    exact (ha l hl).resolve_left (by simpa using hnot)
  generalize links.filter (fun l => !l.asked) = rest at hnodup hall
  match rest with
  | [] => exact Nat.zero_le 1
  | [_] => exact le_refl 1
  | a :: b :: rest =>
    have hab : a.handle = b.handle := Option.some.inj
      ((hall a List.mem_cons_self).symm.trans (hall b (List.mem_cons_of_mem _ List.mem_cons_self)))
    simp [hab] at hnodup

theorem Inv.books (hi : Inv w) : Books w := by
  obtain ⟨p, hk, ha⟩ := hi
  have hp : past w.log = p := hk.at_.now
  have hf := hk.fits
  refine ⟨hk.at_.fits, fun h => ?_, fun h => ?_, fun l hl => ?_, one_unasked hf.handles hf.asked⟩
  · have hconnecting : w.connecting = true := by
      rw [← ha.awaited, ← hp]
      exact h
    cases hd : w.connectDeferred with
    | none =>
      exact .inl ⟨hf.proc.mpr (.inl ⟨hconnecting, congrArg Option.isSome hd⟩), hf.one hconnecting⟩
    | some target =>
      obtain ⟨handle, hdying⟩ := Option.isSome_iff_exists.mp
          (hf.deferred (congrArg Option.isSome hd)).2
      obtain ⟨-, -, l, hl, -, he⟩ := hf.dying handle hdying
      exact .inr ⟨l, hl, he⟩
  · have hscan : w.scanDeferred = true := by
      rw [← ha.owed, ← hp]
      exact h
    exact hf.proc.mpr (.inr (hf.scan hscan))
  · rw [hp, ha.up]
    exact hf.asked l hl

theorem terminate_slot (handle : ℕ) : (w.terminate e handle).2.slot =
    { w.slot with links := (w.terminate e handle).2.links } := by
  unfold State.terminate
  split
  · rfl
  · split_ifs <;> rfl

theorem onConnect_closed (status : ℤ) (handle : ℕ) :
    (w.onConnect e status handle).connecting = false ∧
      (w.onConnect e status handle).proc = w.proc := by
  have hscan : ∀ w : State, (w.deferredScan e).connecting = w.connecting ∧
      (w.deferredScan e).proc = w.proc := by
    intro w
    unfold State.deferredScan
    split_ifs
    · have hslot := (scanNow_slot (w := { w with scanDeferred := false }) (e := e)).1
      exact ⟨congrArg Slot.connecting hslot, congrArg Slot.proc hslot⟩
    · exact ⟨rfl, rfl⟩
  unfold State.onConnect
  dsimp only
  split_ifs
  · have hslot := terminate_slot (w := { w with
      connecting := false, connectCancelled := false, dyingConn := some handle }) (e := e) handle
    exact ⟨(hscan _).1.trans (congrArg Slot.connecting hslot),
      (hscan _).2.trans (congrArg Slot.proc hslot)⟩
  · exact ⟨rfl, rfl⟩
  · exact hscan _
  · exact ⟨rfl, rfl⟩

theorem deferredConnect_none (hd : w.dyingConn = none) :
    (w.deferredConnect e).connectDeferred = none := by
  unfold State.deferredConnect
  split
  · assumption
  · rename_i addr encrypt _
    have hto : (State.connectTo { w with connectDeferred := none, connecting := false } e addr
        encrypt).2.connectDeferred = none := by
      unfold State.connectTo
      dsimp only
      rw [hd]
      split_ifs <;> first
        | rfl
        | (rename_i hsome; cases hsome)
    dsimp only
    split_ifs <;> exact hto

theorem onDisconnect_none {handle : ℕ} {reason : ℤ} (h : w.dyingConn = some handle ∨
    w.conn = some handle ∧ w.connectDeferred = none) :
    (w.onDisconnect e handle reason).connectDeferred = none := by
  unfold State.onDisconnect
  by_cases hd : w.dyingConn = some handle
  · rw [if_pos hd]
    exact deferredConnect_none rfl
  · obtain ⟨hc, hnone⟩ := h.resolve_left hd
    have hforget : (w.forgetPeer e w.probePeer).2.connectDeferred = w.connectDeferred := by
      unfold State.forgetPeer State.deletePeer
      split_ifs <;> rfl
    rw [if_neg hd, if_neg (not_not_intro hc)]
    show State.connectDeferred (if w.probing ∧ authFailure reason then _ else w) = none
    split_ifs
    · exact hforget.trans hnone
    · exact hnone

theorem onTermFailure_none {handle : ℕ} {status : ℤ} (h : w.dyingConn = some handle ∨
    w.connectDeferred = none) : (w.onTermFailure handle status).connectDeferred = none := by
  unfold State.onTermFailure
  split_ifs with hd hdeferred
  · exact h.resolve_left hd
  · rfl
  · exact Option.not_isSome_iff_eq_none.mp hdeferred

theorem settles (hi : Inv w) {i : Op × Env} (hi' : Inv w') (h : w.next i.2 i.1 = some w') :
    Settles ⟨i, w, (), w'⟩ := by
  obtain ⟨op, e⟩ := i
  obtain ⟨p', hk', ha'⟩ := hi'
  have hp' : past w'.log = p' := hk'.at_.now
  obtain ⟨p, hk, ha⟩ := hi
  have hf := hk.fits
  refine ⟨fun status handle hop => ?_, fun handle hop hending hawaited => ?_,
    fun k word proc hop hproc hlink => ?_⟩
  · obtain rfl : op = .gap (.connect status handle) := hop
    obtain ⟨-, h⟩ := Option.ite_none_right_eq_some.mp h
    obtain rfl := Option.some.inj h
    obtain ⟨hconnecting, hproc⟩ := onConnect_closed (e := e) (w :=
      (w.act (.event (.connect status handle))).took (.connect status handle)) status handle
    rw [hp']
    refine ⟨ha'.awaited.trans hconnecting, ha'.owed.trans ?_⟩
    by_contra hs
    have hopen := hk'.fits.proc.mpr (.inr (hk'.fits.scan (Bool.not_eq_false _ ▸ hs)))
    exact absurd (hopen.symm.trans hproc) Bool.noConfusion
  · have hconnecting : w'.connecting = true := by
      rw [← ha'.awaited, ← hp']
      exact hawaited
    obtain ⟨l, hl, rfl, he⟩ := hending
    have hheld : w.dyingConn = some l.handle ∨ w.conn = some l.handle ∧
        w.connectDeferred = none := by
      cases (hf.ending l hl he).2 with
      | inl hc => exact .inr ⟨hc, Option.isNone_iff_eq_none.mp (by
          have hdeferred : w.connectDeferred.isSome = false := (hf.alone hc).2.2.2.2
          simpa using hdeferred)⟩
      | inr hd => exact .inl hd
    have hnone : w'.connectDeferred = none := by
      cases hop with
      | inl hop =>
        obtain ⟨reason, hop⟩ := hop
        obtain rfl : op = .gap (.disconnect l.handle reason) := hop
        obtain ⟨-, h⟩ := Option.ite_none_right_eq_some.mp h
        obtain rfl := Option.some.inj h
        exact onDisconnect_none (w := (w.act (.event (.disconnect l.handle reason))).took
          (.disconnect l.handle reason)) hheld
      | inr hop =>
        obtain ⟨status, hop⟩ := hop
        obtain rfl : op = .gap (.termFailure l.handle status) := hop
        obtain ⟨-, h⟩ := Option.ite_none_right_eq_some.mp h
        obtain rfl := Option.some.inj h
        exact onTermFailure_none (w := (w.act (.event (.termFailure l.handle status))).took
          (.termFailure l.handle status)) (hheld.imp id And.right)
    exact hk'.fits.proc.mpr (.inl ⟨hconnecting, congrArg Option.isSome hnone⟩)
  · obtain rfl : op = .gatt k word := hop
    obtain ⟨-, h⟩ := Option.ite_none_right_eq_some.mp h
    obtain ⟨q', hq', rfl⟩ := Option.map_eq_some_iff.mp h
    obtain ⟨t, ht⟩ := hk.serves.tidy
    have hstep : Transport.step (.callback k word, e.gatt) w.q = some (q'.log, q') :=
      congrArg (Option.map fun q' : Transport.State => (q'.log, q')) hq'
    show q'.log.map Act.gatt ++ w.log = w.log
    rw [callback_stale ht.loose.sorted hstep hproc hlink]
    rfl

/-- Whatever the caller and NimBLE do, from inside the sink or not: if no terminate of an unwanted
link is refused, every connect that is not given up is reported once, what was given up delivers
nothing and is ended, and what waits goes on when its answer comes. -/
theorem connects_settled (h : Run step (start bonds) tr w)
    (htaken : ∀ r ∈ tr, DropTaken r.inp r.pre) : Books w ∧ ∀ r ∈ tr, Settles r := by
  refine ⟨(run_inv h htaken).books, fun r hr => ?_⟩
  obtain ⟨newer, older, rfl⟩ := List.append_of_mem hr
  obtain ⟨hpre, hstep⟩ := h.split newer
  have holder : ∀ r' ∈ older, DropTaken r'.inp r'.pre := fun r' hr' =>
    htaken r' (List.mem_append_right _ (List.mem_cons_of_mem _ hr'))
  have hi := run_inv hpre holder
  obtain ⟨w', hnext, heq⟩ := Option.map_eq_some_iff.mp hstep
  obtain ⟨i, pre, out, post⟩ := r
  obtain ⟨-, rfl⟩ := Prod.mk.inj heq
  exact settles hi (next_inv hi (htaken _ hr) hnext) hnext

def Env.willing : Env where
  gatt := Transport.Env.willing

/-- A connect is given up for a scan, comes up all the same and is ended; the next one waits for
that, and is reported. -/
theorem connects_settled_rescan : ∃ tr w, Run step (start [7]) tr w ∧
    (past w.log).up = some 6 ∧ w.scanning = true ∧ Books w ∧ ∀ r ∈ tr, Settles r := by
  have hrun : Run step (start [7]) _ _ :=
    .cons (i := (.gap (.connect 0 6), .willing))
      (.cons (i := (.gap (.disconnect 5 0x216), .willing))
      (.cons (i := (.call .connectBonded, .willing)) (.cons (i := (.gap (.connect 0 5), .willing))
        (.cons (i := (.call (.startScan []), .willing))
          (.cons (i := (.call .connectBonded, .willing)) .nil rfl) rfl) rfl) rfl) rfl) rfl
  have htaken : ∀ i : Op × Env, i.2 = .willing → ∀ w, DropTaken i w := fun i hi _ _ _ _ =>
    congrArg Env.terminate hi
  refine ⟨_, _, hrun, rfl, rfl, connects_settled hrun ?_⟩
  simp only [List.forall_mem_cons]
  exact ⟨htaken _ rfl _, htaken _ rfl _, htaken _ rfl _, htaken _ rfl _, htaken _ rfl _,
    htaken _ rfl _, List.forall_mem_nil _⟩

/-- NimBLE has no room for the command that would end the link. -/
def Env.full : Env := { Env.willing with terminate := eNomem, terminate_ne := by decide }

/-- The terminate of a link that nobody wants is refused, and the next connect is held back although
nothing will answer. -/
theorem refused_drop_holds : ∃ tr w, Run step (start [7]) tr w ∧
    (past w.log).awaited = true ∧ w.connectDeferred = some (7, true) ∧ w.proc = false ∧
    ∀ l ∈ w.links, l.ending = false := by
  have hrun : Run step (start [7]) _ _ :=
    .cons (i := (.call .connectBonded, .willing)) (.cons (i := (.gap (.connect 0 5), .full))
      (.cons (i := (.call .disconnect, .willing))
        (.cons (i := (.call .connectBonded, .willing)) .nil rfl) rfl) rfl) rfl
  exact ⟨_, _, hrun, rfl, rfl, rfl, by decide⟩

end OpenCalifornia.Transport.Gap
