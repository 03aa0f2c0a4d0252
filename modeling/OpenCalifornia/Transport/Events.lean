import OpenCalifornia.Transport.Calls

/-! # NimBLE's events keep the books

The event handler takes the slot as NimBLE's own books say, and leaves it so. -/

namespace OpenCalifornia.Transport.Gap
open Lib Lib.Machine

variable {w w' : State} {e : Env} {p : Past}

theorem Inv.emit (hk : Kept p w) {ev : Tev} (hev : p.allows (.tev ev)) {link : Option ℕ}
    (hlink : ∀ h, link = some h → p.newest = some (.connect 0 h))
    (ha : Agrees (p.apply (.tev ev)) w) : Inv (w.emit ev link) := by
  have hnewest : (p.apply (.tev ev)).newest = p.newest ∧ (p.apply (.tev ev)).proc = p.proc := by
    cases ev <;> exact ⟨rfl, rfl⟩
  refine ⟨_, ⟨hk.at_.cons hev, hk.fits, hk.serves, hnewest.2.trans hk.proc, fun h hs => ?_⟩,
    ha.awaited, ha.up, ha.owed⟩
  exact hnewest.1.trans (hlink h (Option.some.inj hs))

theorem Inv.emit_plain (hi : Inv w) {ev : Tev} (happly : ∀ p : Past, p.apply (.tev ev) = p)
    (hev : ∀ p : Past, Kept p w → Agrees p w → p.allows (.tev ev)) : Inv (w.emit ev none) := by
  obtain ⟨p, hk, ha⟩ := hi
  refine Inv.emit hk (hev p hk ha) (fun h hs => by cases hs) ?_
  rw [happly]
  exact ha

theorem quiet_iff : w.quiet = true ↔ w.sink = none ∧ w.q.depth = 0 := by
  unfold State.quiet
  rw [Bool.and_eq_true, Option.isNone_iff_eq_none, decide_eq_true_eq]

theorem Inv.event (hi : Inv w) (hq : w.quiet = true) (ev : GapEvent)
    (hev : ∀ p : Past, (p.apply (.event ev)).proc = p.proc) :
    ∃ p, p.newest = some ev ∧ Kept p (w.act (.event ev)) ∧ Agrees p (w.act (.event ev)) := by
  obtain ⟨p, hk, ha⟩ := hi
  refine ⟨p.apply (.event ev), rfl, ⟨hk.at_.cons trivial, hk.fits, hk.serves, (hev p).trans hk.proc,
    fun h hs => ?_⟩, ha.awaited, ha.up, ha.owed⟩
  have hnone : w.sink = none := (quiet_iff.mp hq).1
  rw [show (w.act (.event ev)).sink = w.sink from rfl, hnone] at hs
  cases hs

theorem advEvent_inv (hi : Inv w) (addr : ℕ) (fields : Option Fields) (rssi : ℤ) :
    Inv (w.advEvent e addr fields rssi) := by
  unfold State.advEvent
  split
  · exact hi.emit_plain (fun _ => rfl) fun _ _ _ h => by cases h
  · split
    · exact hi.emit_plain (fun _ => rfl) fun _ _ _ h => by cases h
    · exact hi

theorem emit_link {ev : GapEvent} {handle : ℕ} (hn : p.newest = some ev)
    (hh : ev.handle = some handle) (hk : Kept p w) (ha : Agrees p w) (hc : w.conn = some handle)
    {tev : Tev} (happly : p.apply (.tev tev) = p)
    (hallows : (∃ handle, p.up = some handle ∧ p.newest.bind GapEvent.handle = some handle) →
      p.allows (.tev tev)) : Inv (w.emit tev none) := by
  have hev : p.allows (.tev tev) := hallows ⟨handle, ha.up.trans hc, by rw [hn]; exact hh⟩
  refine Inv.emit hk hev (fun h hs => by cases hs) ?_
  rw [happly]
  exact ha

theorem onNotifyRx_inv {handle attr : ℕ} {data : List Bits.Byte}
    (hn : p.newest = some (.notifyRx handle attr data)) (hk : Kept p w) (ha : Agrees p w) :
    Inv (w.onNotifyRx handle attr data) := by
  unfold State.onNotifyRx
  by_cases hc : w.conn = some handle
  · rw [if_neg (not_not_intro hc)]
    split
    · split_ifs
      · exact ⟨p, cacheDrop_same.kept hk, cacheDrop_same.agrees ha⟩
      · exact ⟨p, hk, ha⟩
    · exact emit_link hn rfl hk ha hc rfl fun h _ => h
  · rw [if_pos hc]
    exact ⟨p, hk, ha⟩

theorem encResult_inv {ev : GapEvent} {handle : ℕ} (hn : p.newest = some ev)
    (hh : ev.handle = some handle) (hk : Kept p w) (ha : Agrees p w) (hc : w.conn = some handle)
    (status : ℤ) : Inv (w.encResult status) := by
  unfold State.encResult
  split_ifs
  · exact emit_link hn hh hk ha hc rfl fun h _ => h
  · exact emit_link hn hh hk ha hc rfl fun h _ => h

theorem initiate_same (handle : ℕ) : Same w (w.initiate e handle).2 := act_same rfl

theorem probing_same (b : Bool) : Same w { w with probing := b } :=
  ⟨rfl, rfl, rfl, rfl, fun _ h => h⟩

theorem stale_same (handle : ℕ) {r : ℤ × State} (hr : Same w r.2) :
    Same w (if r.1 = 0 then r.2.initiate e handle else r).2 := by
  split_ifs
  · exact hr.trans (initiate_same handle)
  · exact hr

theorem onEncChange_inv {handle : ℕ} {status : ℤ} (hn : p.newest = some (.encChange handle status))
    (hk : Kept p w) (ha : Agrees p w) : Inv (w.onEncChange e handle status) := by
  have hlink : ∀ w' : State, Same w w' → w.conn = some handle → ∀ status : ℤ,
      Inv (w'.emit (.encFail status) none) ∧ Inv (w'.encResult status) := by
    intro w' hs hc status
    have hc' : w'.conn = some handle := (congrArg Slot.conn hs.slot).trans hc
    exact ⟨emit_link hn rfl (hs.kept hk) (hs.agrees ha) hc' rfl fun h _ => h,
      encResult_inv hn rfl (hs.kept hk) (hs.agrees ha) hc' status⟩
  unfold State.onEncChange
  by_cases hc : w.conn = some handle
  · rw [if_neg (not_not_intro hc)]
    by_cases hprobing : w.probing = true
    · rw [if_pos hprobing]
      have hoff := probing_same (w := w) false
      by_cases hgone : status = eNotconn
      · rw [if_pos hgone]
        exact ⟨p, hk, ha⟩
      · rw [if_neg hgone]
        by_cases hstale : status ≠ 0 ∧ authFailure status = true
        · have hsame := stale_same (e := e) handle
              (hoff.trans (forgetPeer_same (e := e) w.probePeer))
          have hreport : ∀ r : ℤ × State, Same w r.2 →
              Inv (if r.1 ≠ 0 then r.2.emit (.encFail r.1) none else r.2) := by
            intro r hs
            split_ifs
            · exact (hlink r.2 hs hc r.1).1
            · exact ⟨p, hs.kept hk, hs.agrees ha⟩
          dsimp only
          rw [if_pos hstale]
          exact hreport _ hsame
        · dsimp only
          rw [if_neg hstale]
          exact (hlink _ hoff hc status).2
    · rw [if_neg hprobing]
      exact (hlink w (.refl w) hc status).2
  · rw [if_pos hc]
    exact ⟨p, hk, ha⟩

theorem Slot.Fits.asks {s : Slot} (h : s.Fits) {handle : ℕ} (hc : s.conn = some handle)
    {r : ℤ × State} (hw : w.links = s.links) (hr : Terminated w handle r) :
    Slot.Fits { s with links := r.2.links } := by
  obtain ⟨-, -, -, hdying, -⟩ := h.alone hc
  exact { h with
    dying := fun handle' hd => by
      rw [show s.dyingConn = some handle' from hd] at hdying
      cases hdying
    asked := fun l hl => by
      by_cases hh : l.handle = handle
      · exact .inl (hr.asked l hl hh)
      · exact h.asked l (hw ▸ (hr.others l hh).mp hl)
    handles := by
      show (r.2.links.map Link.handle).Nodup
      rw [hr.handles, hw]
      exact h.handles
    known := fun handle' hc' => by
      show handle' ∈ r.2.links.map Link.handle
      rw [hr.handles, hw]
      exact h.known handle' hc'
    ending := fun l hl he => by
      by_cases hh : l.handle = handle
      · exact ⟨hr.asked l hl hh, .inl (hh ▸ hc)⟩
      · exact h.ending l (hw ▸ (hr.others l hh).mp hl) he }

theorem onPasskeyAction_inv {handle : ℕ} {input : Bool}
    (hn : p.newest = some (.passkeyAction handle input)) (hk : Kept p w) (ha : Agrees p w) :
    Inv (w.onPasskeyAction e handle input) := by
  unfold State.onPasskeyAction
  by_cases hc : w.conn = some handle
  · rw [if_neg (not_not_intro hc)]
    have hoff := probing_same (w := w) false
    dsimp only
    split_ifs
    · exact emit_link hn rfl (hoff.kept hk) (hoff.agrees ha) hc rfl fun h _ => h
    · have hf := hk.fits
      have hr := terminate_spec (w := { w with probing := false }) e handle hf.handles
        fun l hl he => (hf.ending l hl he).1
      have hfits := hf.asks (w := { w with probing := false }) hc rfl hr
      generalize State.terminate { w with probing := false } e handle = r at hr hfits ⊢
      have hconn : r.2.conn = w.conn := congrArg Slot.conn hr.slot
      refine ⟨p, ⟨hr.log p hk.at_, hr.slot ▸ hfits, ?_,
        hk.proc.trans (congrArg Slot.proc hr.slot).symm, hr.sink ▸ hk.sink⟩,
        ha.awaited.trans (congrArg Slot.connecting hr.slot).symm, ha.up.trans hconn.symm,
        ha.owed.trans (congrArg Slot.scanDeferred hr.slot).symm⟩
      rw [hr.q, hconn]
      exact hk.serves
  · rw [if_pos hc]
    exact ⟨p, hk, ha⟩

theorem onRepeatPairing_same (peer : Option ℕ) : Same w (w.onRepeatPairing e peer) := by
  unfold State.onRepeatPairing
  split
  · exact (probing_same false).trans (forgetPeer_same _)
  · exact probing_same false

theorem Serves.up {q : Transport.State} {conn : Option ℕ} (h : Serves q conn) (hd : q.depth = 0)
    (handle : ℕ) : Serves { q.linkReset.act .connected with conn := true } (some handle) := by
  obtain ⟨t, ht⟩ := h.tidy
  have hnext : Transport.State.next { q with log := [] } Transport.Env.willing .connected =
      some { ({ q with log := [] } : Transport.State).linkReset.act .connected with
        conn := true } :=
    if_pos hd
  obtain ⟨t', -, ht'⟩ := next_good (t := t) (q := { q with log := [] }) .start
    (ht.of_core rfl rfl) hnext
  exact ⟨rfl, t', ht'.of_core rfl rfl⟩

theorem Serves.down {q : Transport.State} {conn : Option ℕ} (h : Serves q conn) (reason : ℤ) :
    Serves (q.linkReset.act (.disconnected reason)) none :=
  h.reset.of_core rfl rfl

theorem terminate_fresh {handle : ℕ} {links : List Link}
    (h : w.links = { handle := handle } :: links) : (w.terminate e handle).1 = e.terminate := by
  have hfind : (w.links.find? fun l => l.handle = handle) = some { handle := handle } := by
    rw [h]
    simp
  unfold State.terminate
  rw [hfind]
  rfl

theorem Slot.Fits.opened {s : Slot} (h : s.Fits) (hproc : s.proc = true) : s.conn = none ∧
    s.dyingConn = none ∧ s.deferred = false ∧ (∀ l ∈ s.links, l.ending = false) ∧
    ∀ l ∈ s.links, l.asked = true := by
  have hnone : s.conn = none := h.free ((h.proc.mp hproc).imp And.left id)
  have hdying : s.dyingConn = none := by
    by_contra hd
    obtain ⟨handle, hd⟩ := Option.ne_none_iff_exists'.mp hd
    exact absurd ((h.dying handle hd).2.1.symm.trans hproc) Bool.noConfusion
  refine ⟨hnone, hdying, ?_, fun l hl => ?_, fun l hl => ?_⟩
  · by_contra hd
    have hsome := (h.deferred (Bool.not_eq_false _ ▸ hd)).2
    rw [hdying] at hsome
    cases hsome
  · by_contra he
    obtain ⟨-, hor⟩ := h.ending l hl (Bool.not_eq_false _ ▸ he)
    rw [hnone, hdying] at hor
    cases hor with
    | inl hc => cases hc
    | inr hd => cases hd
  · refine (h.asked l hl).resolve_right fun hc => ?_
    rw [hnone] at hc
    cases hc

theorem Slot.Fits.unwanted {s : Slot} (h : s.Fits) (hproc : s.proc = true) {handle : ℕ}
    (hfresh : handle ∉ s.links.map Link.handle) {r : ℤ × State}
    (hw : w.links = { handle := handle } :: s.links) (hr : Terminated w handle r)
    (hrc : r.1 = 0) : Slot.Fits { s with
      connecting := false
      cancelled := false
      scanDeferred := false
      dyingConn := some handle
      proc := false
      links := r.2.links } := by
  obtain ⟨hnone, -, hdeferred, hending, hasked⟩ := h.opened hproc
  have hold : ∀ l ∈ r.2.links, l.handle ≠ handle → l ∈ s.links := by
    intro l hl hh
    have hmem := (hr.others l hh).mp hl
    rw [hw, List.mem_cons] at hmem
    exact hmem.resolve_left fun hl' => hh (hl' ▸ rfl)
  exact {
    proc := by simp
    one := fun hb => absurd hb Bool.false_ne_true
    free := fun _ => hnone
    dying := fun handle' hd => by
      obtain rfl := Option.some.inj hd
      refine ⟨hnone, rfl, hr.taken ?_ (.inl hrc)⟩
      rw [hw]
      exact List.mem_cons_self
    deferred := fun hb => absurd (hb.symm.trans hdeferred) Bool.noConfusion
    scan := fun hb => absurd hb Bool.false_ne_true
    asked := fun l hl => .inl (by
      by_cases hh : l.handle = handle
      · exact hr.asked l hl hh
      · exact hasked l (hold l hl hh))
    handles := by
      show (r.2.links.map Link.handle).Nodup
      rw [hr.handles, hw]
      exact List.nodup_cons.mpr ⟨hfresh, h.handles⟩
    known := fun _ hc => by
      rw [show s.conn = some _ from hc] at hnone
      cases hnone
    ending := fun l hl he => by
      by_cases hh : l.handle = handle
      · exact ⟨hr.asked l hl hh, .inr (congrArg some hh.symm)⟩
      · exact absurd ((hending l (hold l hl hh)).symm.trans he) Bool.noConfusion }

theorem Slot.Fits.wanted {s : Slot} (h : s.Fits) (hproc : s.proc = true)
    (hcancelled : s.cancelled = false) {handle : ℕ} (hfresh : handle ∉ s.links.map Link.handle) :
    Slot.Fits { s with
      connecting := false
      conn := some handle
      proc := false
      links := { handle := handle } :: s.links } := by
  obtain ⟨-, hdying, hdeferred, hending, hasked⟩ := h.opened hproc
  exact {
    proc := by simp [hcancelled]
    one := fun hb => absurd hb Bool.false_ne_true
    free := fun hb => by simp [hcancelled] at hb
    dying := fun handle' hd => by
      rw [show s.dyingConn = some handle' from hd] at hdying
      cases hdying
    deferred := fun hb => absurd (hb.symm.trans hdeferred) Bool.noConfusion
    scan := h.scan
    asked := fun l hl => by
      cases List.mem_cons.mp hl with
      | inl hl =>
        right
        show some handle = some l.handle
        rw [hl]
      | inr hl => exact .inl (hasked l hl)
    handles := List.nodup_cons.mpr ⟨hfresh, h.handles⟩
    known := fun handle' hc => by
      obtain rfl := Option.some.inj hc
      exact List.mem_cons_self
    ending := fun l hl he => by
      cases List.mem_cons.mp hl with
      | inl hl =>
        rw [hl] at he
        cases he
      | inr hl => exact absurd ((hending l hl).symm.trans he) Bool.noConfusion }

theorem Slot.Fits.failed {s : Slot} (h : s.Fits) (hproc : s.proc = true) : Slot.Fits { s with
    connecting := false
    cancelled := false
    scanDeferred := false
    proc := false } := by
  obtain ⟨hnone, hdying, hdeferred, -, -⟩ := h.opened hproc
  exact { h with
    proc := by simp
    one := fun hb => absurd hb Bool.false_ne_true
    free := fun _ => hnone
    dying := fun handle' hd => by
      rw [show s.dyingConn = some handle' from hd] at hdying
      cases hdying
    deferred := fun hb => absurd (hb.symm.trans hdeferred) Bool.noConfusion
    scan := fun hb => absurd hb Bool.false_ne_true }

/-- NimBLE reports the end of its connect procedure. -/
structure Ended (p : Past) (w : State) (status : ℤ) (handle : ℕ) (w₀ : State) : Prop where
  at_ : At w₀.log p
  newest : p.newest = some (.connect status handle)
  proc : p.proc = false
  awaited : p.awaited = w.connecting
  up : p.up = none
  owed : p.owed = w.scanDeferred
  slot : w₀.slot = { w.slot with
    proc := false
    links := if status = 0 then { handle := handle } :: w.links else w.links }
  q : w₀.q = w.q
  sink : w₀.sink = none

theorem took_connect (hi : Inv w) (hq : w.quiet = true) (status : ℤ) (handle : ℕ)
    (hproc : w.proc = true) : ∃ p, Ended p w status handle
      ((w.act (.event (.connect status handle))).took (.connect status handle)) := by
  obtain ⟨p, hk, ha⟩ := hi
  exact ⟨_, {
    at_ := hk.at_.cons (a := .event (.connect status handle)) trivial
    newest := rfl
    proc := rfl
    awaited := ha.awaited
    up := ha.up.trans (hk.fits.opened hproc).1
    owed := ha.owed
    slot := rfl
    q := rfl
    sink := (quiet_iff.mp hq).1 }⟩

section Ended

variable {status : ℤ} {handle : ℕ} {w₀ : State}

theorem onConnect_unwanted (h : Ended p w 0 handle w₀) (hf : w.slot.Fits) (hs : Serves w.q w.conn)
    (hproc : w.proc = true) (hfresh : handle ∉ w.links.map Link.handle)
    (hcancelled : w.connectCancelled = true) (htaken : e.terminate = 0) :
    Inv (w₀.onConnect e 0 handle) := by
  obtain ⟨hnone, -, -, hending, -⟩ := hf.opened hproc
  have hconnecting : w.connecting = false := by
    by_contra hc
    exact absurd ((hf.one (Bool.not_eq_false _ ▸ hc)).symm.trans hcancelled) Bool.noConfusion
  have hresult : w₀.onConnect e 0 handle = (State.terminate { w₀ with
      connecting := false, connectCancelled := false, dyingConn := some handle } e
        handle).2.deferredScan e :=
    if_pos ⟨rfl, (congrArg Slot.cancelled h.slot).trans hcancelled⟩
  have hlinks : w₀.links = { handle := handle } :: w.links := congrArg Slot.links h.slot
  rw [hresult]
  have hr := terminate_spec (w := { w₀ with
    connecting := false, connectCancelled := false, dyingConn := some handle }) e handle
    (by rw [hlinks]; exact List.nodup_cons.mpr ⟨hfresh, hf.handles⟩)
    (by
      rw [hlinks]
      intro l hl he
      cases List.mem_cons.mp hl with
      | inl hl =>
        rw [hl] at he
        cases he
      | inr hl => exact absurd ((hending l hl).symm.trans he) Bool.noConfusion)
  have hrc := (terminate_fresh (w := { w₀ with
    connecting := false, connectCancelled := false, dyingConn :=
      some handle }) (e := e) hlinks).trans
      htaken
  have hfits := hf.unwanted (w := { w₀ with
    connecting := false, connectCancelled := false, dyingConn :=
      some handle }) hproc hfresh hlinks hr
      hrc
  have hat := hr.log p h.at_
  generalize State.terminate { w₀ with
    connecting := false, connectCancelled := false, dyingConn := some handle } e handle = r
    at hr hfits hat ⊢
  have hslot : r.2.slot = { w.slot with
      connecting := false
      cancelled := false
      dyingConn := some handle
      proc := false
      links := r.2.links } := by
    rw [hr.slot]
    exact congrArg (fun s : Slot => { s with
      connecting := false
      cancelled := false
      dyingConn := some handle
      links := r.2.links }) h.slot
  have hconn : r.2.conn = none := (congrArg Slot.conn hslot).trans hnone
  have hkept : Kept p { r.2 with scanDeferred := false } := {
    at_ := hat
    fits := by
      rw [show State.slot { r.2 with scanDeferred := false } =
        { r.2.slot with scanDeferred := false } from rfl, hslot]
      exact hfits
    serves := by
      show Serves r.2.q r.2.conn
      rw [hr.q, hconn, ← hnone]
      exact h.q ▸ hs
    proc := h.proc.trans (congrArg Slot.proc hslot).symm
    sink := fun _ hsink => absurd ((hr.sink.trans h.sink).symm.trans hsink) (by simp) }
  have howed : p.owed = r.2.scanDeferred := h.owed.trans (congrArg Slot.scanDeferred hslot).symm
  obtain ⟨hk', hslot'⟩ := deferredScan_kept (e := e) hkept howed
  rw [hslot] at hslot'
  exact ⟨_, hk', (h.awaited.trans hconnecting).trans (congrArg Slot.connecting hslot').symm,
    h.up.trans ((congrArg Slot.conn hslot').trans hnone).symm,
    (congrArg Slot.scanDeferred hslot').symm⟩

theorem onConnect_wanted (h : Ended p w 0 handle w₀) (hf : w.slot.Fits) (hs : Serves w.q w.conn)
    (hdepth : w.q.depth = 0) (hproc : w.proc = true) (hfresh : handle ∉ w.links.map Link.handle)
    (hcancelled : w.connectCancelled = false) : Inv (w₀.onConnect e 0 handle) := by
  have hconnecting : w.connecting = true := by
    cases hf.proc.mp hproc with
    | inl h => exact h.1
    | inr h => exact absurd (h.symm.trans hcancelled) Bool.noConfusion
  have hcancelled' : w₀.connectCancelled = false :=
    (congrArg Slot.cancelled h.slot).trans hcancelled
  have hresult : w₀.onConnect e 0 handle =
      State.emit { State.onQueue { w₀ with connecting := false }
      (fun q => { q.linkReset.act .connected with conn := true }) with
        conn := some handle, probing := false } .connected (some handle) := by
    unfold State.onConnect
    dsimp only
    rw [if_neg fun hc => absurd (hc.2.symm.trans hcancelled') Bool.noConfusion, if_pos rfl]
  have hslot : State.slot { State.onQueue { w₀ with connecting := false }
      (fun q => { q.linkReset.act .connected with conn := true }) with
        conn := some handle, probing := false } = { w.slot with
      connecting := false
      conn := some handle
      proc := false
      links := { handle := handle } :: w.links } :=
    congrArg (fun s : Slot => { s with connecting := false, conn := some handle }) h.slot
  have hserves := hs.fresh.up hdepth handle
  have hkept : Kept p { State.onQueue { w₀ with connecting := false }
      (fun q => { q.linkReset.act .connected with conn := true }) with
        conn := some handle, probing := false } := {
    at_ := (h.at_.plain (a := .gatt .reset) rfl).plain (a := .gatt .connected) rfl
    fits := hslot ▸ hf.wanted hproc hcancelled hfresh
    serves := by
      show Serves ({ ({ w₀.q with log := [], starts := 0 } : Transport.State).linkReset.act
        .connected with conn := true }) (some handle)
      rw [h.q]
      exact hserves
    proc := h.proc.trans (congrArg Slot.proc hslot).symm
    sink := fun _ hsink => absurd (h.sink.symm.trans hsink) (by simp) }
  rw [hresult]
  have hallow : p.allows (.tev .connected) := ⟨h.awaited.trans hconnecting, handle, h.newest⟩
  refine Inv.emit hkept hallow ?_ ?_
  · intro handle' hh
    rw [← Option.some.inj hh]
    exact h.newest
  · refine ⟨rfl, ?_, h.owed.trans (congrArg Slot.scanDeferred hslot).symm⟩
    show p.newest.bind GapEvent.handle = some handle
    rw [h.newest]
    rfl

theorem onConnect_failed (h : Ended p w status handle w₀) (hf : w.slot.Fits)
    (hs : Serves w.q w.conn) (hproc : w.proc = true) (hstatus : status ≠ 0) :
    Inv (w₀.onConnect e status handle) := by
  obtain ⟨hnone, -⟩ := hf.opened hproc
  have hslot : w₀.slot = { w.slot with proc := false } := h.slot.trans (by rw [if_neg hstatus]; rfl)
  have hconn : w₀.conn = none := (congrArg Slot.conn hslot).trans hnone
  have hserves : Serves w₀.q w₀.conn := by
    rw [h.q, hconn, ← hnone]
    exact hs
  have hsink : ∀ h, w₀.sink = some (some h) → p.newest = some (.connect 0 h) := fun _ hs' =>
    absurd (h.sink.symm.trans hs') (by simp)
  have hfits := hf.failed hproc
  unfold State.onConnect
  dsimp only
  rw [if_neg fun hc => hstatus hc.1, if_neg hstatus]
  split_ifs with hcancelled
  · have hcancelled' : w.connectCancelled = true :=
      (congrArg Slot.cancelled hslot).symm.trans hcancelled
    have hconnecting : w.connecting = false := by
      by_contra hc
      exact absurd ((hf.one (Bool.not_eq_false _ ▸ hc)).symm.trans hcancelled') Bool.noConfusion
    have hslot' : State.slot { w₀ with connecting := false, connectCancelled := false } =
        { w.slot with connecting := false, cancelled := false, proc := false } :=
      congrArg (fun s : Slot => { s with connecting := false, cancelled := false }) hslot
    have hkept : Kept p { w₀ with
        connecting := false, connectCancelled := false, scanDeferred := false } := {
      at_ := h.at_
      fits := by
        rw [show State.slot { w₀ with
          connecting := false, connectCancelled := false, scanDeferred := false } =
            { w₀.slot with connecting := false, cancelled := false, scanDeferred := false }
              from rfl,
          hslot]
        exact hfits
      serves := hserves
      proc := h.proc.trans (congrArg Slot.proc hslot).symm
      sink := hsink }
    have howed : p.owed = w₀.scanDeferred := h.owed.trans (congrArg Slot.scanDeferred hslot).symm
    obtain ⟨hk', hslot''⟩ := deferredScan_kept (e := e)
      (w := { w₀ with connecting := false, connectCancelled := false }) hkept howed
    rw [hslot'] at hslot''
    exact ⟨_, hk', (h.awaited.trans hconnecting).trans (congrArg Slot.connecting hslot'').symm,
      h.up.trans ((congrArg Slot.conn hslot'').trans hnone).symm,
      (congrArg Slot.scanDeferred hslot'').symm⟩
  · have hcancelled' : w.connectCancelled = false :=
      (congrArg Slot.cancelled hslot).symm.trans (Bool.not_eq_true _ ▸ hcancelled)
    have hconnecting : w.connecting = true := by
      cases hf.proc.mp hproc with
      | inl h => exact h.1
      | inr h => exact absurd (h.symm.trans hcancelled') Bool.noConfusion
    have hscan : w.scanDeferred = false := by
      by_contra hsd
      exact absurd ((hf.scan (Bool.not_eq_false _ ▸ hsd)).symm.trans hcancelled') Bool.noConfusion
    have hslot' : State.slot { w₀ with connecting := false } =
        { w.slot with
          connecting := false
          cancelled := false
          scanDeferred := false
          proc := false } := by
      have hsame : w.slot = { w.slot with cancelled := false, scanDeferred := false } := by
        unfold State.slot
        rw [hcancelled', hscan]
      rw [show State.slot { w₀ with connecting := false } = { w₀.slot with connecting := false }
        from rfl, hslot, hsame]
    have hkept : Kept p { w₀ with connecting := false } :=
      ⟨h.at_, hslot' ▸ hfits, hserves, h.proc.trans (congrArg Slot.proc hslot).symm, hsink⟩
    have hallow : p.allows (.tev (.connectFail status)) := h.awaited.trans hconnecting
    exact Inv.emit hkept hallow (fun _ hh => by cases hh)
      ⟨rfl, h.up.trans hconn.symm, h.owed.trans (congrArg Slot.scanDeferred hslot).symm⟩

end Ended

theorem onConnect_inv (hi : Inv w) (hq : w.quiet = true) {status : ℤ} {handle : ℕ}
    (hmay : w.May (.connect status handle) = true)
    (htaken : status = 0 → w.connectCancelled = true → e.terminate = 0) :
    Inv (((w.act (.event (.connect status handle))).took (.connect status handle)).onConnect e
      status handle) := by
  obtain ⟨hproc, hfresh⟩ := Bool.and_eq_true_iff.mp hmay
  obtain ⟨p, hended⟩ := took_connect hi hq status handle hproc
  obtain ⟨p₀, hk, -⟩ := hi
  by_cases hstatus : status = 0
  · obtain rfl := hstatus
    have hfresh' : handle ∉ w.links.map Link.handle := by simpa using hfresh
    by_cases hcancelled : w.connectCancelled = true
    · exact onConnect_unwanted hended hk.fits hk.serves hproc hfresh' hcancelled
        (htaken rfl hcancelled)
    · exact onConnect_wanted hended hk.fits hk.serves (quiet_iff.mp hq).2 hproc hfresh'
        (Bool.not_eq_true _ ▸ hcancelled)
  · exact onConnect_failed hended hk.fits hk.serves hproc hstatus

theorem Slot.Fits.gone {s : Slot} (h : s.Fits) {handle : ℕ} (hc : s.conn ≠ some handle)
    (hd : s.dyingConn ≠ some handle) :
    Slot.Fits { s with links := s.links.filter fun l => l.handle ≠ handle } := by
  have hkeep : ∀ l ∈ s.links, l.handle ≠ handle →
      l ∈ s.links.filter fun l => l.handle ≠ handle := fun l hl hh =>
    List.mem_filter.mpr ⟨hl, decide_eq_true hh⟩
  exact { h with
    dying := fun handle' hd' => by
      obtain ⟨hnone, hproc, l, hl, hh, he⟩ := h.dying handle' hd'
      refine ⟨hnone, hproc, l, hkeep l hl fun hh' => hd ?_, hh, he⟩
      rw [show s.dyingConn = some handle' from hd', ← hh, hh']
    asked := fun l hl => h.asked l (List.mem_of_mem_filter hl)
    handles := (List.filter_sublist.map Link.handle).nodup h.handles
    known := fun handle' hc' => by
      obtain ⟨l, hl, hh⟩ := List.mem_map.mp (h.known handle' hc')
      refine List.mem_map.mpr ⟨l, hkeep l hl fun hh' => hc ?_, hh⟩
      rw [show s.conn = some handle' from hc', ← hh, hh']
    ending := fun l hl => h.ending l (List.mem_of_mem_filter hl) }

theorem Slot.Fits.freed {s : Slot} (h : s.Fits) {handle : ℕ}
    (hb : s.conn = some handle ∨ s.dyingConn = some handle) : Slot.Fits { s with
      connecting := false
      deferred := false
      dyingConn := none
      conn := none
      links := s.links.filter fun l => l.handle ≠ handle } := by
  have hboth : s.proc = false ∧ s.cancelled = false ∧
      ∀ handle', s.conn = some handle' ∨ s.dyingConn = some handle' → handle' = handle := by
    cases hb with
    | inl hc =>
      obtain ⟨-, hcancelled, hproc, hdying, -⟩ := h.alone hc
      refine ⟨hproc, hcancelled, fun handle' hor => ?_⟩
      cases hor with
      | inl hc' => exact Option.some.inj (hc'.symm.trans hc)
      | inr hd' =>
        rw [hdying] at hd'
        cases hd'
    | inr hd =>
      obtain ⟨hnone, hproc, -⟩ := h.dying handle hd
      refine ⟨hproc, ?_, fun handle' hor => ?_⟩
      · by_contra hcancelled
        have hopen := h.proc.mpr (.inr (Bool.not_eq_false _ ▸ hcancelled))
        exact absurd (hopen.symm.trans hproc) Bool.noConfusion
      · cases hor with
        | inl hc' =>
          rw [hnone] at hc'
          cases hc'
        | inr hd' => exact Option.some.inj (hd'.symm.trans hd)
  obtain ⟨hproc, hcancelled, hsole⟩ := hboth
  have hother : ∀ l ∈ s.links.filter fun l => l.handle ≠ handle,
      l ∈ s.links ∧ l.handle ≠ handle := fun l hl => by
    obtain ⟨hl, hh⟩ := List.mem_filter.mp hl
    exact ⟨hl, of_decide_eq_true hh⟩
  exact {
    proc := by simp [hproc, hcancelled]
    one := fun hb => absurd hb Bool.false_ne_true
    free := fun _ => rfl
    dying := fun _ hd => by cases hd
    deferred := fun hb => absurd hb Bool.false_ne_true
    scan := h.scan
    asked := fun l hl => by
      obtain ⟨hl, hh⟩ := hother l hl
      exact .inl ((h.asked l hl).resolve_right fun hc => hh (hsole _ (.inl hc)))
    handles := (List.filter_sublist.map Link.handle).nodup h.handles
    known := fun _ hc => by cases hc
    ending := fun l hl he => by
      obtain ⟨hl, hh⟩ := hother l hl
      exact absurd (hsole _ (h.ending l hl he).2) hh }

/-- An event about the link `handle`. -/
structure Heard (p : Past) (w : State) (handle : ℕ) (links : List Link) (w₀ : State) : Prop where
  at_ : At w₀.log p
  newest : p.newest.bind GapEvent.handle = some handle
  proc : p.proc = w.proc
  agrees : Agrees p w
  slot : w₀.slot = { w.slot with links := links }
  deferred : w₀.connectDeferred = w.connectDeferred
  q : w₀.q = w.q
  probing : w₀.probing = w.probing
  sink : w₀.sink = none

theorem deferredConnect_inv (hk : Kept p { w with connectDeferred := none, connecting := false })
    (hnone : w.conn = none) (hawaited : p.awaited = w.connectDeferred.isSome) (hup : p.up = none)
    (hidle : w.connectDeferred = none → w.connecting = false) (howed : p.owed = w.scanDeferred) :
    Inv (w.deferredConnect e) := by
  unfold State.deferredConnect
  cases hd : w.connectDeferred with
  | none =>
    have hw : { w with connectDeferred := none, connecting := false } = w := by
      rw [← hd, ← hidle hd]
    rw [hw] at hk
    refine ⟨p, hk, ?_, hup.trans hnone.symm, howed⟩
    rw [hawaited, hd, hidle hd]
    rfl
  | some target =>
    obtain ⟨addr, encrypt⟩ := target
    have hp : p.awaited = true := by rw [hawaited, hd]; rfl
    have h := connectTo_kept (e := e) hk addr encrypt
    dsimp only
    generalize State.connectTo { w with connectDeferred := none, connecting := false } e addr
      encrypt = r at h ⊢
    cases h with
    | refused rc kept connecting conn scan =>
      rw [if_pos rc]
      have hallow : p.allows (.tev (.connectFail r.1)) := hp
      exact Inv.emit kept hallow (fun _ hh => by cases hh)
        ⟨connecting.symm, hup.trans (conn.trans hnone).symm, howed.trans scan.symm⟩
    | taken proc rc kept idle connecting conn scan =>
      rw [if_neg (not_not_intro rc)]
      exact ⟨_, kept, hp.trans connecting.symm, hup.trans conn.symm, howed.trans scan.symm⟩

section Heard

variable {handle : ℕ} {w₀ : State} {links : List Link}

theorem Heard.noSink (h : Heard p w handle links w₀) :
    ∀ h, w₀.sink = some (some h) → p.newest = some (.connect 0 h) :=
  fun _ hs => absurd (h.sink.symm.trans hs) (by simp)

theorem Heard.serves (h : Heard p w handle links w₀) (hs : Serves w.q w.conn) :
    Serves w₀.q w₀.conn := by
  rw [h.q, show w₀.conn = w.conn from congrArg Slot.conn h.slot]
  exact hs

theorem Heard.kept (h : Heard p w handle links w₀) (hs : Serves w.q w.conn)
    (hf : Slot.Fits { w.slot with links := links }) : Kept p w₀ ∧ Agrees p w₀ :=
  ⟨⟨h.at_, h.slot ▸ hf, h.serves hs, h.proc.trans (congrArg Slot.proc h.slot).symm, h.noSink⟩,
    h.agrees.awaited.trans (congrArg Slot.connecting h.slot).symm,
    h.agrees.up.trans (congrArg Slot.conn h.slot).symm,
    h.agrees.owed.trans (congrArg Slot.scanDeferred h.slot).symm⟩

/-- While a link is on its way down, the connect that is open is the one that waits for it. -/
theorem Slot.Fits.waiting {s : Slot} (h : s.Fits) {handle : ℕ} (hd : s.dyingConn = some handle) :
    s.connecting = s.deferred := by
  cases hdef : s.deferred with
  | true => exact (h.deferred hdef).1
  | false =>
    by_contra hc
    have hopen := h.proc.mpr (.inl ⟨Bool.not_eq_false _ ▸ hc, hdef⟩)
    exact absurd (hopen.symm.trans (h.dying handle hd).2.1) Bool.noConfusion

theorem onDisconnect_dying (h : Heard p w handle (w.links.filter fun l => l.handle ≠ handle) w₀)
    (hf : w.slot.Fits) (hs : Serves w.q w.conn) (hdying : w.dyingConn = some handle) :
    Inv (State.deferredConnect { w₀ with dyingConn := none } e) := by
  have hnone : w.slot.conn = none := (hf.dying handle hdying).1
  have hwaiting : w.connecting = w₀.connectDeferred.isSome := by
    rw [h.deferred]
    exact hf.waiting hdying
  have hconn₀ : w₀.conn = none := (congrArg Slot.conn h.slot).trans hnone
  refine deferredConnect_inv ⟨h.at_, ?_, h.serves hs,
    h.proc.trans (congrArg Slot.proc h.slot).symm,
      h.noSink⟩ hconn₀ (h.agrees.awaited.trans hwaiting)
    (h.agrees.up.trans hnone) (fun hd => ?_)
    (h.agrees.owed.trans (congrArg Slot.scanDeferred h.slot).symm)
  · have hfreed := hf.freed (.inr hdying)
    rw [show State.slot { w₀ with
        dyingConn := none, connectDeferred := none, connecting := false } =
      { w₀.slot with dyingConn := none, deferred := false, connecting := false } from rfl, h.slot]
    dsimp only
    rw [hnone]
    exact hfreed
  · have hd' : w₀.connectDeferred = none := hd
    show w₀.connecting = false
    rw [show w₀.connecting = w.connecting from congrArg Slot.connecting h.slot, hwaiting, hd']
    rfl

theorem onDisconnect_up (h : Heard p w handle (w.links.filter fun l => l.handle ≠ handle) w₀)
    (hf : w.slot.Fits) (hs : Serves w.q w.conn) (hc : w.conn = some handle) (reason : ℤ)
    {w₁ : State} (hsame : Same w₀ w₁) :
    Inv (State.emit { w₁.onQueue fun q => q.linkReset.act (.disconnected reason) with
      conn := none, probing := false } (.disconnected reason) none) := by
  obtain ⟨hconnecting, -, -, hdying, hdeferred⟩ := hf.alone hc
  have hslot : w₁.slot = { w.slot with links := w.links.filter fun l => l.handle ≠ handle } :=
    hsame.slot.trans h.slot
  have hserves : Serves w₁.q w.conn := (h.q.symm ▸ hs).of_core hsame.core hsame.depth
  have hkept : Kept p { w₁.onQueue fun q => q.linkReset.act (.disconnected reason) with
      conn := none, probing := false } := {
    at_ := ((hsame.log p h.at_).plain (a := .gatt .reset) rfl).plain
      (a := .gatt (.disconnected _)) rfl
    fits := by
      have hfreed := hf.freed (.inl hc)
      have hslot' : State.slot { w₁.onQueue fun q => q.linkReset.act (.disconnected reason) with
          conn := none, probing := false } = { w₁.slot with conn := none } := rfl
      rw [hslot', hslot]
      dsimp only
      rw [hconnecting, hdying, hdeferred]
      exact hfreed
    serves := hserves.fresh.down reason
    proc := h.proc.trans (congrArg Slot.proc hslot).symm
    sink := fun _ hs' => absurd ((hsame.sink.trans h.sink).symm.trans hs') (by simp) }
  have hallow : p.allows (.tev (.disconnected reason)) := fun _ =>
    ⟨handle, h.agrees.up.trans hc, h.newest⟩
  exact Inv.emit hkept hallow (fun _ hh => by cases hh)
    ⟨h.agrees.awaited.trans (congrArg Slot.connecting hslot).symm, rfl,
      h.agrees.owed.trans (congrArg Slot.scanDeferred hslot).symm⟩

theorem onDisconnect_inv (h : Heard p w handle (w.links.filter fun l => l.handle ≠ handle) w₀)
    (hf : w.slot.Fits) (hs : Serves w.q w.conn) (reason : ℤ) :
    Inv (w₀.onDisconnect e handle reason) := by
  have hconn₀ : w₀.conn = w.conn := congrArg Slot.conn h.slot
  have hdying₀ : w₀.dyingConn = w.dyingConn := congrArg Slot.dyingConn h.slot
  unfold State.onDisconnect
  by_cases hdying : w.dyingConn = some handle
  · rw [if_pos (hdying₀.trans hdying)]
    exact onDisconnect_dying h hf hs hdying
  · rw [if_neg (hdying₀ ▸ hdying)]
    by_cases hc : w.conn = some handle
    · rw [if_neg (not_not_intro (hconn₀.trans hc))]
      have hsame : Same w₀ (if w₀.probing ∧ authFailure reason then
          (w₀.forgetPeer e w₀.probePeer).2 else w₀) := by
        split_ifs
        · exact forgetPeer_same _
        · exact .refl w₀
      exact onDisconnect_up h hf hs hc reason hsame
    · rw [if_pos (hconn₀ ▸ hc)]
      exact ⟨p, h.kept hs (hf.gone hc hdying)⟩

theorem stays_links {links : List Link} {l : Link} (hl : l ∈ links.map fun l =>
    if l.handle = handle then { l with ending := false } else l) : ∃ l₀ ∈ links,
      l.handle = l₀.handle ∧ l.asked = l₀.asked ∧
        (l.ending = true → l₀.ending = true ∧ l₀.handle ≠ handle) := by
  obtain ⟨l₀, hl₀, rfl⟩ := List.mem_map.mp hl
  refine ⟨l₀, hl₀, ?_⟩
  split_ifs with hh
  · exact ⟨rfl, rfl, fun he => by cases he⟩
  · exact ⟨rfl, rfl, fun he => ⟨he, hh⟩⟩

theorem stays_handles {links : List Link} : (links.map fun l =>
    if l.handle = handle then { l with ending := false } else l).map Link.handle =
      links.map Link.handle := by
  rw [List.map_map]
  refine List.map_congr_left fun l _ => ?_
  show Link.handle (if l.handle = handle then _ else l) = _
  split_ifs <;> rfl

theorem Slot.Fits.refused {s : Slot} (h : s.Fits) (hd : s.dyingConn ≠ some handle) :
    Slot.Fits { s with links := s.links.map fun l =>
      if l.handle = handle then { l with ending := false } else l } :=
  { h with
    dying := fun handle' hd' => by
      obtain ⟨hnone, hproc, l, hl, hh, he⟩ := h.dying handle' hd'
      have hne : l.handle ≠ handle := fun hh' => hd (by
        rw [show s.dyingConn = some handle' from hd', ← hh, hh'])
      exact ⟨hnone, hproc, l, List.mem_map.mpr ⟨l, hl, if_neg hne⟩, hh, he⟩
    asked := fun l hl => by
      obtain ⟨l₀, hl₀, hh, ha, -⟩ := stays_links hl
      rw [ha, hh]
      exact h.asked l₀ hl₀
    handles := by
      show (List.map Link.handle _).Nodup
      rw [stays_handles]
      exact h.handles
    known := fun handle' hc => by
      show handle' ∈ List.map Link.handle _
      rw [stays_handles]
      exact h.known handle' hc
    ending := fun l hl he => by
      obtain ⟨l₀, hl₀, hh, ha, hend⟩ := stays_links hl
      rw [ha, hh]
      exact h.ending l₀ hl₀ (hend he).1 }

theorem Slot.Fits.waived {s : Slot} (h : s.Fits) (hd : s.dyingConn = some handle) :
    Slot.Fits { s with
      connecting := false
      deferred := false
      dyingConn := none
      links := s.links.map fun l => if l.handle = handle then { l with ending := false }
      else l } := by
  obtain ⟨hnone, hproc, -⟩ := h.dying handle hd
  have hcancelled : s.cancelled = false := by
    by_contra hc
    have hopen := h.proc.mpr (.inr (Bool.not_eq_false _ ▸ hc))
    exact absurd (hopen.symm.trans hproc) Bool.noConfusion
  exact {
    proc := by simp [hproc, hcancelled]
    one := fun hb => absurd hb Bool.false_ne_true
    free := fun _ => hnone
    dying := fun _ hd' => by cases hd'
    deferred := fun hb => absurd hb Bool.false_ne_true
    scan := h.scan
    asked := fun l hl => by
      obtain ⟨l₀, hl₀, hh, ha, -⟩ := stays_links hl
      rw [ha, hh]
      exact h.asked l₀ hl₀
    handles := by
      show (List.map Link.handle _).Nodup
      rw [stays_handles]
      exact h.handles
    known := fun _ hc => by
      rw [show s.conn = some _ from hc] at hnone
      cases hnone
    ending := fun l hl he => by
      obtain ⟨l₀, hl₀, hh, -, hend⟩ := stays_links hl
      obtain ⟨-, hor⟩ := h.ending l₀ hl₀ (hend he).1
      rw [hnone, hd] at hor
      cases hor with
      | inl hc => cases hc
      | inr hd' => exact absurd (Option.some.inj hd').symm (hend he).2 }

theorem onTermFailure_inv (h : Heard p w handle (w.links.map fun l =>
    if l.handle = handle then { l with ending := false } else l) w₀)
    (hf : w.slot.Fits) (hs : Serves w.q w.conn) (status : ℤ) :
    Inv (w₀.onTermFailure handle status) := by
  have hdying₀ : w₀.dyingConn = w.dyingConn := congrArg Slot.dyingConn h.slot
  unfold State.onTermFailure
  by_cases hdying : w.dyingConn = some handle
  · rw [if_neg (not_not_intro (hdying₀.trans hdying))]
    have hwaiting : w.connecting = w₀.connectDeferred.isSome := by
      rw [h.deferred]
      exact hf.waiting hdying
    have hwaived := hf.waived hdying
    have hnone : w.conn = none := (hf.dying handle hdying).1
    have hup : p.up = w₀.conn := h.agrees.up.trans (congrArg Slot.conn h.slot).symm
    have howed : p.owed = w₀.scanDeferred :=
      h.agrees.owed.trans (congrArg Slot.scanDeferred h.slot).symm
    have hproc : p.proc = w₀.proc := h.proc.trans (congrArg Slot.proc h.slot).symm
    split_ifs with hdeferred
    · have hkept : Kept p { w₀ with
          dyingConn := none, connectDeferred := none, connecting := false } := by
        refine ⟨h.at_, ?_, h.serves hs, hproc, h.noSink⟩
        rw [show State.slot { w₀ with
            dyingConn := none, connectDeferred := none, connecting := false } =
          { w₀.slot with dyingConn := none, deferred := false, connecting := false } from rfl,
            h.slot]
        exact hwaived
      have hallow : p.allows (.tev (.connectFail status)) :=
        (h.agrees.awaited.trans hwaiting).trans hdeferred
      exact Inv.emit hkept hallow (fun _ hh => by cases hh) ⟨rfl, hup, howed⟩
    · have hdeferred' : w₀.connectDeferred.isSome = false := Bool.not_eq_true _ ▸ hdeferred
      have hconnecting₀ : w₀.connecting = false := by
        rw [show w₀.connecting = w.connecting from congrArg Slot.connecting h.slot, hwaiting]
        exact hdeferred'
      refine ⟨p, ⟨h.at_, ?_, h.serves hs, hproc, h.noSink⟩,
        (h.agrees.awaited.trans hwaiting).trans (hdeferred'.trans hconnecting₀.symm), hup, howed⟩
      have hslot : State.slot { w₀ with dyingConn := none } =
          { w₀.slot with dyingConn := none, connecting := false, deferred := false } := by
        unfold State.slot
        rw [hconnecting₀, hdeferred']
      rw [hslot, h.slot]
      exact hwaived
  · rw [if_pos (hdying₀ ▸ hdying)]
    exact ⟨p, h.kept hs (hf.refused hdying)⟩

end Heard

end OpenCalifornia.Transport.Gap
