import OpenCalifornia.Transport.Past

/-! # The calls keep the books

One lemma for each function that a call of the transport runs. -/

namespace OpenCalifornia.Transport.Gap
open Lib Lib.Machine

variable {w w' : State} {e : Env} {p : Past} {log : List Act}

/-- What `ble_gap_terminate` leaves of the links. -/
structure Terminated (w : State) (h : ℕ) (r : ℤ × State) : Prop where
  slot : r.2.slot = { w.slot with links := r.2.links }
  q : r.2.q = w.q
  sink : r.2.sink = w.sink
  log : ∀ p, At w.log p → At r.2.log p
  handles : r.2.links.map Link.handle = w.links.map Link.handle
  others : ∀ l, l.handle ≠ h → (l ∈ r.2.links ↔ l ∈ w.links)
  asked : ∀ l ∈ r.2.links, l.handle = h → l.asked = true
  taken : h ∈ w.links.map Link.handle → r.1 = 0 ∨ r.1 = eAlready →
    ∃ l ∈ r.2.links, l.handle = h ∧ l.ending = true
  refused : r.1 ≠ 0 ∧ r.1 ≠ eAlready → ∀ l ∈ r.2.links, l.handle = h → l.ending = false

theorem terminate_spec (e : Env) (h : ℕ) (hnodup : (w.links.map Link.handle).Nodup)
    (hasked : ∀ l ∈ w.links, l.ending = true → l.asked = true) :
    Terminated w h (w.terminate e h) := by
  unfold State.terminate
  cases hfind : w.links.find? fun l => l.handle = h with
  | none =>
    have hnone : ∀ l ∈ w.links, l.handle ≠ h := fun l hl =>
      of_decide_eq_false (Bool.not_eq_true _ ▸ List.find?_eq_none.mp hfind l hl)
    exact {
      slot := rfl
      q := rfl
      sink := rfl
      log := fun p hp => hp.plain rfl
      handles := rfl
      others := fun l _ => Iff.rfl
      asked := fun l hl hh => absurd hh (hnone l hl)
      taken := fun hh => by
        obtain ⟨l, hl, hh⟩ := List.mem_map.mp hh
        exact absurd hh (hnone l hl)
      refused := fun _ l hl hh => absurd hh (hnone l hl) }
  | some l =>
    have hl : l ∈ w.links := List.mem_of_find?_eq_some hfind
    have hhandle : l.handle = h := by simpa using List.find?_some hfind
    have hsame : ∀ l' ∈ w.links, l'.handle = h → l' = l := fun l' hl' hh =>
      List.inj_on_of_nodup_map hnodup hl' hl (hh.trans hhandle.symm)
    dsimp only
    split_ifs with hend
    · exact {
        slot := rfl
        q := rfl
        sink := rfl
        log := fun p hp => hp.plain rfl
        handles := rfl
        others := fun l _ => Iff.rfl
        asked := fun l' hl' hh => hsame l' hl' hh ▸ hasked l hl hend
        taken := fun _ _ => ⟨l, hl, hhandle, hend⟩
        refused := fun hr => absurd rfl hr.2 }
    · exact {
        slot := rfl
        q := rfl
        sink := rfl
        log := fun p hp => hp.plain rfl
        handles := by
          show (w.links.map _).map _ = _
          rw [List.map_map]
          refine List.map_congr_left fun l' _ => ?_
          show Link.handle (if l'.handle = h then _ else l') = _
          split_ifs <;> rfl
        others := fun l' hh => by
          show l' ∈ w.links.map _ ↔ _
          rw [List.mem_map]
          constructor
          · rintro ⟨l₀, hl₀, rfl⟩
            by_cases h₀ : l₀.handle = h
            · rw [if_pos h₀] at hh
              exact absurd h₀ hh
            · rwa [if_neg h₀]
          · exact fun hl' => ⟨l', hl', if_neg hh⟩
        asked := fun l' hl' hh => by
          obtain ⟨l₀, hl₀, rfl⟩ := List.mem_map.mp hl'
          by_cases h₀ : l₀.handle = h
          · rw [if_pos h₀]
          · rw [if_neg h₀] at hh
            exact absurd hh h₀
        taken := fun _ hr => by
          have hzero : e.terminate = 0 := hr.resolve_right e.terminate_ne
          exact ⟨_, List.mem_map_of_mem hl, by rw [if_pos hhandle]; exact hhandle,
            by rw [if_pos hhandle]; exact decide_eq_true hzero⟩
        refused := fun hr l' hl' hh => by
          obtain ⟨l₀, hl₀, rfl⟩ := List.mem_map.mp hl'
          by_cases h₀ : l₀.handle = h
          · rw [if_pos h₀]
            exact decide_eq_false hr.1
          · rw [if_neg h₀] at hh
            exact absurd hh h₀ }

theorem Slot.Fits.alone {s : Slot} (h : s.Fits) {handle : ℕ} (hc : s.conn = some handle) :
    s.connecting = false ∧ s.cancelled = false ∧ s.proc = false ∧ s.dyingConn = none ∧
      s.deferred = false := by
  have hfree : ¬ (s.connecting = true ∨ s.cancelled = true) := fun hb => by
    rw [h.free hb] at hc
    cases hc
  have hconnecting : s.connecting = false := Bool.not_eq_true _ ▸ fun hb => hfree (.inl hb)
  have hcancelled : s.cancelled = false := Bool.not_eq_true _ ▸ fun hb => hfree (.inr hb)
  refine ⟨hconnecting, hcancelled, ?_, ?_, ?_⟩
  · by_contra hproc
    cases h.proc.mp (Bool.not_eq_false _ ▸ hproc) with
    | inl hopen => exact hfree (.inl hopen.1)
    | inr hopen => exact hfree (.inr hopen)
  · by_contra hdying
    obtain ⟨handle', hdying⟩ := Option.ne_none_iff_exists'.mp hdying
    rw [(h.dying handle' hdying).1] at hc
    cases hc
  · by_contra hdeferred
    exact hfree (.inl (h.deferred (Bool.not_eq_false _ ▸ hdeferred)).1)

theorem Slot.Fits.dropped {s : Slot} (h : s.Fits) {handle : ℕ} (hc : s.conn = some handle)
    {r : ℤ × State} (hw : w.links = s.links) (hr : Terminated w handle r) :
    Slot.Fits { s with
      conn := none
      dyingConn := if r.1 ≠ 0 ∧ r.1 ≠ eAlready then none else some handle
      links := r.2.links } := by
  obtain ⟨hconnecting, hcancelled, hproc, hdying, hdeferred⟩ := h.alone hc
  have hknown : handle ∈ w.links.map Link.handle := hw ▸ h.known handle hc
  exact {
    proc := by
      show s.proc = true ↔ s.connecting = true ∧ s.deferred = false ∨ s.cancelled = true
      exact h.proc
    one := fun hb => absurd hb (by rw [hconnecting]; exact Bool.false_ne_true)
    free := fun _ => rfl
    dying := fun handle' hd => by
      obtain ⟨hn, hd⟩ := Option.ite_none_left_eq_some.mp hd
      obtain rfl := Option.some.inj hd
      refine ⟨rfl, hproc, hr.taken hknown ?_⟩
      by_contra hnot
      exact hn (not_or.mp hnot)
    deferred := fun hb => absurd hb (by rw [hdeferred]; exact Bool.false_ne_true)
    scan := h.scan
    asked := fun l hl => by
      by_cases hh : l.handle = handle
      · exact .inl (hr.asked l hl hh)
      · refine .inl ((h.asked l (hw ▸ (hr.others l hh).mp hl)).resolve_right fun hc' => ?_)
        exact hh (Option.some.inj (hc'.symm.trans hc))
    handles := by
      show (r.2.links.map Link.handle).Nodup
      rw [hr.handles, hw]
      exact h.handles
    known := fun _ hc' => by cases hc'
    ending := fun l hl he => by
      by_cases hh : l.handle = handle
      · refine ⟨hr.asked l hl hh, .inr ?_⟩
        show (if r.1 ≠ 0 ∧ r.1 ≠ eAlready then none else some handle) = some l.handle
        split_ifs with hn
        · rw [hr.refused hn l hl hh] at he
          cases he
        · rw [hh]
      · obtain ⟨-, hor⟩ := h.ending l (hw ▸ (hr.others l hh).mp hl) he
        cases hor with
        | inl hc' => exact absurd (Option.some.inj (hc'.symm.trans hc)) hh
        | inr hd =>
          rw [hdying] at hd
          cases hd }

/-- Nothing is open any more: no connect, no link. -/
structure GivenUp (w w' : State) : Prop where
  connecting : w'.connecting = false
  conn : w'.conn = none
  scanDeferred : w'.scanDeferred = w.scanDeferred

theorem disconnect_kept (hk : Kept p w) :
    Kept p (w.disconnect e).2 ∧ GivenUp w (w.disconnect e).2 := by
  have hf := hk.fits
  unfold State.disconnect
  split_ifs with hdeferred hconnecting
  · obtain ⟨hconnecting, hdying⟩ := hf.deferred hdeferred
    have hnone : w.conn = none := hf.free (.inl hconnecting)
    refine ⟨⟨hk.at_, ?_, hk.serves, hk.proc, hk.sink⟩, ⟨rfl, hnone, rfl⟩⟩
    exact { hf with
      proc := hf.proc.trans (or_congr_left (iff_of_false
        (fun h => absurd (h.2.symm.trans hdeferred) Bool.false_ne_true)
        (fun h => absurd h.1 Bool.false_ne_true)))
      one := fun h => absurd h Bool.false_ne_true
      free := fun _ => hnone
      deferred := fun h => absurd h Bool.false_ne_true }
  · have hproc : w.proc = true :=
      hf.proc.mpr (.inl ⟨hconnecting, Bool.not_eq_true _ ▸ hdeferred⟩)
    have hnone : w.conn = none := hf.free (.inl hconnecting)
    refine ⟨⟨hk.at_.plain rfl, ?_, hk.serves, hk.proc, hk.sink⟩, ⟨rfl, hnone, rfl⟩⟩
    exact { hf with
      proc := iff_of_true hproc (.inr hproc)
      one := fun h => absurd h Bool.false_ne_true
      free := fun _ => hnone
      deferred := fun h => absurd h hdeferred
      scan := fun _ => hproc }
  · cases hc : w.conn with
    | none => exact ⟨hk, ⟨Bool.not_eq_true _ ▸ hconnecting, hc, rfl⟩⟩
    | some handle =>
      have hr := terminate_spec (w := { w.linkReset with dyingConn := some handle }) e handle
        hf.handles fun l hl he => (hf.ending l hl he).1
      have hlog : At w.linkReset.log p := hk.at_.plain (a := .gatt .reset) rfl
      have hfits := hf.dropped (w := { w.linkReset with dyingConn := some handle }) hc rfl hr
      dsimp only
      generalize State.terminate { w.linkReset with dyingConn := some handle } e handle = r
        at hr hfits ⊢
      have hserves : Serves r.2.q none := by
        rw [hr.q]
        exact Serves.reset hk.serves.fresh
      have hat := hr.log p hlog
      have hproc : p.proc = r.2.proc := hk.proc.trans (congrArg Slot.proc hr.slot).symm
      have hsink : ∀ h, r.2.sink = some (some h) → p.newest = some (.connect 0 h) :=
        hr.sink ▸ hk.sink
      have hconnecting' : r.2.connecting = false :=
        (congrArg Slot.connecting hr.slot).trans (hf.alone hc).1
      have hconn' : r.2.conn = none := congrArg Slot.conn hr.slot
      have hscan' : r.2.scanDeferred = w.scanDeferred := congrArg Slot.scanDeferred hr.slot
      split_ifs with hn
      · have hslot : State.slot { r.2 with dyingConn := none } =
            { w.slot with conn := none, dyingConn := none, links := r.2.links } :=
          congrArg (fun s : Slot => { s with dyingConn := none }) hr.slot
        rw [if_pos hn] at hfits
        exact ⟨⟨hat, hslot ▸ hfits, hconn' ▸ hserves, hproc, hsink⟩, hconnecting', hconn', hscan'⟩
      · rw [if_neg hn] at hfits
        exact ⟨⟨hat, hr.slot ▸ hfits, hconn' ▸ hserves, hproc, hsink⟩, hconnecting', hconn', hscan'⟩

theorem scanNow_slot : (w.scanNow e).2.slot = w.slot ∧ (w.scanNow e).2.q = w.q ∧
    (w.scanNow e).2.sink = w.sink := by
  unfold State.scanNow
  dsimp only
  split_ifs <;> exact ⟨rfl, rfl, rfl⟩

theorem scanNow_log (h : At w.log p) : At (w.scanNow e).2.log { p with owed := false } := by
  have hcancel : At (if w.scanning ∨ w.window then w.act (.discCancel e.discCancel)
      else w).log p := by
    split_ifs
    · exact h.plain rfl
    · exact h
  exact hcancel.cons (a := .disc e.disc) trivial

theorem scanNow_kept (hk : Kept p w) : Kept { p with owed := false } (w.scanNow e).2 := by
  obtain ⟨hslot, hq, hsink⟩ := scanNow_slot (w := w) (e := e)
  have hconn : (w.scanNow e).2.conn = w.conn := congrArg Slot.conn hslot
  exact {
    at_ := scanNow_log hk.at_
    fits := hslot ▸ hk.fits
    serves := by
      rw [hq, hconn]
      exact hk.serves
    proc := hk.proc.trans (congrArg Slot.proc hslot).symm
    sink := hsink ▸ hk.sink }

theorem deferredScan_kept (hk : Kept p { w with scanDeferred := false })
    (ho : p.owed = w.scanDeferred) : Kept { p with owed := false } (w.deferredScan e) ∧
      (w.deferredScan e).slot = { w.slot with scanDeferred := false } := by
  unfold State.deferredScan
  split_ifs with hs
  · exact ⟨scanNow_kept hk, scanNow_slot.1⟩
  · have hs' : w.scanDeferred = false := Bool.not_eq_true _ ▸ hs
    have hp : { p with owed := false } = p := by rw [← hs', ← ho]
    have hw : { w with scanDeferred := false } = w := by rw [← hs']
    refine ⟨?_, ?_⟩
    · rw [hp]
      exact hw ▸ hk
    · exact (congrArg State.slot hw).symm

/-- A connect was refused, or it is open now: held back, or with NimBLE. -/
inductive Connecting (p : Past) (w : State) (r : ℤ × State) : Prop
  | refused (rc : r.1 ≠ 0) (kept : Kept p r.2) (connecting : r.2.connecting = w.connecting)
      (conn : r.2.conn = w.conn) (scan : r.2.scanDeferred = w.scanDeferred)
  | taken (proc : Bool) (rc : r.1 = 0) (kept : Kept { p with proc := proc } r.2)
      (idle : w.connecting = false ∧ w.conn = none) (connecting : r.2.connecting = true)
      (conn : r.2.conn = none) (scan : r.2.scanDeferred = w.scanDeferred)

theorem connect_kept (hk : Kept p w) (addr : ℕ) (encrypt : Bool)
    (hconnecting : w.connecting = false)
    (hcancelled : w.connectCancelled = false) (hnone : w.conn = none)
    (hdying : w.dyingConn = none) :
    Connecting p w (e.connect, { w.act (.connect addr e.connect) with
      encryptOnConnect := encrypt
      connecting := e.connect = 0
      proc := w.proc ∨ e.connect = 0 }) := by
  have hf := hk.fits
  have hproc : w.proc = false := by
    by_contra hproc
    cases hf.proc.mp (Bool.not_eq_false _ ▸ hproc) with
    | inl h => exact absurd (h.1.symm.trans hconnecting) Bool.noConfusion
    | inr h => exact absurd (h.symm.trans hcancelled) Bool.noConfusion
  have hdeferred : w.connectDeferred.isSome = false := by
    by_contra hdeferred
    have hd := (hf.deferred (Bool.not_eq_false _ ▸ hdeferred)).1
    exact absurd (hd.symm.trans hconnecting) Bool.noConfusion
  have hat := hk.at_.cons (a := .connect addr e.connect) trivial
  by_cases hrc : e.connect = 0
  · have hopen : ∀ b : Bool, decide (b = true ∨ e.connect = 0) = true :=
      fun _ => decide_eq_true (.inr hrc)
    refine .taken true hrc ⟨?_, ?_, hk.serves, (hopen _).symm, hk.sink⟩ ⟨hconnecting, hnone⟩
      (decide_eq_true hrc) hnone rfl
    · rw [← hopen p.proc]
      exact hat
    · exact { hf with
        proc := iff_of_true (hopen _) (.inl ⟨decide_eq_true hrc, hdeferred⟩)
        one := fun _ => hcancelled
        free := fun _ => hnone
        dying := fun handle h => absurd (hdying.symm.trans h) (by simp)
        deferred := fun h => absurd (h.symm.trans hdeferred) Bool.noConfusion }
  · have hshut : decide (e.connect = 0) = w.connecting :=
      (decide_eq_false hrc).trans hconnecting.symm
    have hor : ∀ b : Bool, decide (b = true ∨ e.connect = 0) = b := fun b => by simp [hrc]
    refine .refused hrc ⟨?_, ?_, hk.serves, hk.proc.trans (hor _).symm, hk.sink⟩ hshut rfl rfl
    · have hp : p.apply (.connect addr e.connect) = p :=
        congrArg (fun b => { p with proc := b }) (hor p.proc)
      exact hp ▸ hat
    · have hslot : State.slot { w.act (.connect addr e.connect) with
          encryptOnConnect := encrypt
          connecting := e.connect = 0
          proc := w.proc ∨ e.connect = 0 } = w.slot := by
        unfold State.slot
        rw [hshut, hor]
        rfl
      exact hslot ▸ hf

theorem connectTo_kept (hk : Kept p w) (addr : ℕ) (encrypt : Bool) :
    Connecting p w (w.connectTo e addr encrypt) := by
  have hf := hk.fits
  unfold State.connectTo
  split_ifs with htaken hcancelled hdying
  · exact .refused (show eAlready ≠ 0 by decide) hk rfl rfl rfl
  · exact .refused (show eBusy ≠ 0 by decide) hk rfl rfl rfl
  · obtain ⟨hnone, hconnecting⟩ := not_or.mp htaken
    have hnone' : w.conn = none := Option.not_isSome_iff_eq_none.mp hnone
    have hconnecting' : w.connecting = false := Bool.not_eq_true _ ▸ hconnecting
    have hcancelled' : w.connectCancelled = false := Bool.not_eq_true _ ▸ hcancelled
    obtain ⟨handle, hh⟩ := Option.isSome_iff_exists.mp hdying
    have hproc : w.proc = false := (hf.dying handle hh).2.1
    refine .taken p.proc rfl ⟨hk.at_, ?_, hk.serves, hk.proc, hk.sink⟩ ⟨hconnecting', hnone'⟩ rfl
      hnone' rfl
    exact { hf with
      proc := by
        refine iff_of_false (fun h => absurd (h.symm.trans hproc) Bool.noConfusion) ?_
        rintro (⟨-, h⟩ | h)
        · cases h
        · exact absurd (h.symm.trans hcancelled') Bool.noConfusion
      one := fun _ => hcancelled'
      free := fun _ => hnone'
      deferred := fun _ => ⟨rfl, hdying⟩ }
  all_goals
    obtain ⟨hnone, hconnecting⟩ := not_or.mp htaken
    have hnone' : w.conn = none := Option.not_isSome_iff_eq_none.mp hnone
    have hconnecting' : w.connecting = false := Bool.not_eq_true _ ▸ hconnecting
    have hcancelled' : w.connectCancelled = false := Bool.not_eq_true _ ▸ hcancelled
    have hdying' : w.dyingConn = none := Option.not_isSome_iff_eq_none.mp hdying
  · have hk' : Kept p { w.act (.discCancel e.discCancel) with window := false } :=
      ⟨hk.at_.plain rfl, hf, hk.serves, hk.proc, hk.sink⟩
    have h := connect_kept (e := e) hk' addr encrypt hconnecting' hcancelled' hnone' hdying'
    cases h with
    | refused rc kept connecting conn scan => exact .refused rc kept connecting conn scan
    | taken proc rc kept idle connecting conn scan =>
      exact .taken proc rc kept idle connecting conn scan
  · exact connect_kept hk addr encrypt hconnecting' hcancelled' hnone' hdying'

theorem cacheDrop_same : Same w w.cacheDrop := ⟨rfl, rfl, rfl, rfl, fun _ h => h⟩

theorem deletePeer_same (peer : ℕ) : Same w (w.deletePeer e peer).2 := by
  unfold State.deletePeer
  split_ifs
  · exact ⟨rfl, rfl, rfl, rfl, fun _ h => h.plain rfl⟩
  · exact .refl w

theorem forgetPeer_same (peer : ℕ) : Same w (w.forgetPeer e peer).2 :=
  cacheDrop_same.trans (deletePeer_same peer)

theorem At.deleted (h : At log p) (gone : List ℕ) : At (gone.map Act.deleted ++ log) p := by
  induction gone with
  | nil => exact h
  | cons peer rest ih => exact ih.plain (a := .deleted peer) rfl

theorem storeBond_same (peer : ℕ) : Same w (w.storeBond e peer) := by
  have hroom : ∀ w : State, Same w
      (if w.bonds.length < maxBonds then { w with bonds := w.bonds ++ [peer] } else w) := by
    intro w
    split_ifs
    · exact ⟨rfl, rfl, rfl, rfl, fun _ h => h⟩
    · exact .refl w
  unfold State.storeBond
  by_cases hmem : peer ∈ w.bonds
  · rw [if_pos hmem]
    exact .refl w
  · rw [if_neg hmem]
    refine Same.trans ?_ (hroom _)
    split_ifs
    · exact .refl w
    · exact ⟨rfl, rfl, rfl, rfl, fun p hp => At.deleted (hp.plain (a := .overflow peer) rfl) _⟩

theorem removeBonds_same (n : ℕ) : Same w (State.removeBonds e n w).2 := by
  induction n generalizing w with
  | zero => exact .refl w
  | succ n ih =>
    unfold State.removeBonds
    split
    · exact .refl w
    · dsimp only
      split_ifs
      · exact forgetPeer_same _
      · exact (forgetPeer_same _).trans ih

theorem deletePeers_same (peers : List ℕ) :
    Same w (peers.foldl (fun w p => (w.deletePeer e p).2) w) := by
  induction peers generalizing w with
  | nil => exact .refl w
  | cons p rest ih => exact (deletePeer_same p).trans ih

theorem keepOnlyBond_same : Same w (w.keepOnlyBond e).2 := by
  unfold State.keepOnlyBond
  split
  · exact deletePeers_same _
  · exact .refl w

theorem pair_same : Same w (w.pair e).2 := by
  unfold State.pair
  split
  · exact .refl w
  · dsimp only
    split
    · dsimp only
      split_ifs <;> exact ⟨rfl, rfl, rfl, rfl, fun _ h => h.plain rfl⟩
    · exact ⟨rfl, rfl, rfl, rfl, fun _ h => h.plain rfl⟩

theorem scanWindow_same : Same w (w.scanWindow e).2 := by
  unfold State.scanWindow
  split_ifs <;> first
    | exact .refl w
    | exact ⟨rfl, rfl, rfl, rfl, fun _ h => h.plain rfl⟩

theorem Kept.call (hk : Kept p w) {c : Call} {rc : ℤ} (ha : p.allows (.call c rc)) :
    Kept (p.apply (.call c rc)) (w.act (.call c rc)) :=
  ⟨hk.at_.cons ha, hk.fits, hk.serves, hk.proc, hk.sink⟩

/-- A call that leaves connects, links and scans alone. -/
def Call.quiet : Call → Bool
  | .pair | .request _ | .keepOnlyBond | .scanWindow => true
  | _ => false

theorem Inv.call (hi : Inv w) {c : Call} (hc : c.quiet = true) (rc : ℤ) :
    Inv (w.act (.call c rc)) := by
  obtain ⟨p, hk, ha⟩ := hi
  have hp : p.apply (.call c rc) = p ∧ p.allows (.call c rc) := by
    cases c with
    | pair | request | keepOnlyBond | scanWindow => exact ⟨rfl, fun h => by cases h⟩
    | _ => cases hc
  refine ⟨p, ?_, ha.awaited, ha.up, ha.owed⟩
  have hcall := hk.call hp.2
  rwa [hp.1] at hcall

theorem GivenUp.inv (hk : Kept p w') (ha : Agrees p w) (h : GivenUp w w') {c : Call}
    (hc : c.drops = true) (rc : ℤ) : Inv (w'.act (.call c rc)) := by
  have hconnects : c.connects = false := by
    cases c with
    | disconnect | removeBond => rfl
    | _ => cases hc
  refine ⟨_, hk.call fun h => absurd (h.symm.trans hconnects) Bool.noConfusion, ?_⟩
  cases c with
  | disconnect | removeBond =>
    exact ⟨h.connecting.symm, h.conn.symm, ha.owed.trans h.scanDeferred.symm⟩
  | _ => cases hc

theorem disconnect_inv (hi : Inv w) : Inv (w.call e .disconnect) := by
  obtain ⟨p, hk, ha⟩ := hi
  obtain ⟨hk', hup⟩ := disconnect_kept (e := e) hk
  exact hup.inv hk' ha rfl _

theorem removeBond_inv (hi : Inv w) : Inv (w.call e .removeBond) := by
  obtain ⟨p, hk, ha⟩ := hi
  obtain ⟨hk₁, hup⟩ := disconnect_kept (e := e) (cacheDrop_same.kept hk)
  have hsame := removeBonds_same (w := (w.cacheDrop.disconnect e).2) (e := e)
    (w.cacheDrop.disconnect e).2.bonds.length
  have hup' : GivenUp w (w.removeBond e).2 :=
    ⟨(congrArg Slot.connecting hsame.slot).trans hup.connecting,
      (congrArg Slot.conn hsame.slot).trans hup.conn,
      (congrArg Slot.scanDeferred hsame.slot).trans hup.scanDeferred⟩
  exact hup'.inv (hsame.kept hk₁) ha rfl _

theorem stopScan_inv (hi : Inv w) : Inv (w.call e .stopScan) := by
  obtain ⟨p, hk, ha⟩ := hi
  have hkept : Kept p (w.stopScan e).2 ∧
      (w.stopScan e).2.slot = { w.slot with scanDeferred := false } := by
    have hfits : Slot.Fits { w.slot with scanDeferred := false } :=
      { hk.fits with scan := fun h => absurd h Bool.false_ne_true }
    unfold State.stopScan
    by_cases hs : w.scanning = true
    · rw [if_pos hs]
      exact ⟨⟨hk.at_.plain rfl, hfits, hk.serves, hk.proc, hk.sink⟩, rfl⟩
    · rw [if_neg hs]
      exact ⟨⟨hk.at_, hfits, hk.serves, hk.proc, hk.sink⟩, rfl⟩
  obtain ⟨hk', hslot⟩ := hkept
  refine ⟨_, hk'.call fun h => absurd h Bool.false_ne_true, ?_⟩
  exact ⟨ha.awaited.trans (congrArg Slot.connecting hslot).symm,
    ha.up.trans (congrArg Slot.conn hslot).symm, (congrArg Slot.scanDeferred hslot).symm⟩

theorem startScan_inv (hi : Inv w) (name : List Bits.Byte) : Inv (w.call e (.startScan name)) := by
  obtain ⟨p, hk, ha⟩ := hi
  -- the connect that is open is given up first
  have hfirst : ∀ w₁ : State, Same w w₁ → ∃ w₂, (if w₁.connecting then
      (State.disconnect { w₁ with encryptOnConnect := false } e).2 else w₁) = w₂ ∧ Kept p w₂ ∧
      w₂.connecting = false ∧ w₂.conn = w.conn ∧ w₂.scanDeferred = w.scanDeferred := by
    intro w₁ hsame
    have hk₁ := hsame.kept hk
    have hconn : w₁.conn = w.conn := congrArg Slot.conn hsame.slot
    have hscan : w₁.scanDeferred = w.scanDeferred := congrArg Slot.scanDeferred hsame.slot
    split_ifs with hconnecting
    · have hk₂ : Kept p { w₁ with encryptOnConnect := false } :=
        ⟨hk₁.at_, hk₁.fits, hk₁.serves, hk₁.proc, hk₁.sink⟩
      obtain ⟨hk₃, hup⟩ := disconnect_kept (e := e) hk₂
      have hnone : w₁.conn = none := hk₁.fits.free (.inl hconnecting)
      exact ⟨_, rfl, hk₃, hup.connecting, hup.conn.trans (hnone.symm.trans hconn),
        hup.scanDeferred.trans hscan⟩
    · exact ⟨_, rfl, hk₁, Bool.not_eq_true _ ▸ hconnecting, hconn, hscan⟩
  obtain ⟨w₂, hw₂, hk₂, hconnecting, hconn, hscan⟩ :=
    hfirst { w with name := name.take 31, found := none } ⟨rfl, rfl, rfl, rfl, fun _ h => h⟩
  have hresult : w.startScan e name =
      if w₂.connectCancelled then (0, { w₂ with scanDeferred := true }) else w₂.scanNow e := by
    rw [← hw₂]
    rfl
  unfold State.call
  dsimp only [State.perform]
  rw [hresult]
  split_ifs with hcancelled
  · have hproc : w₂.proc = true := hk₂.fits.proc.mpr (.inr hcancelled)
    have hk₃ : Kept p { w₂ with scanDeferred := true } :=
      ⟨hk₂.at_, { hk₂.fits with scan := fun _ => hcancelled }, hk₂.serves, hk₂.proc, hk₂.sink⟩
    refine ⟨_, hk₃.call (c := .startScan name) fun h => absurd h Bool.false_ne_true, ?_⟩
    exact ⟨hconnecting.symm, ha.up.trans hconn.symm, hk₂.proc.trans hproc⟩
  · have hproc : w₂.proc = false := by
      by_contra hproc
      cases hk₂.fits.proc.mp (Bool.not_eq_false _ ▸ hproc) with
      | inl h => exact absurd (h.1.symm.trans hconnecting) Bool.noConfusion
      | inr h => exact hcancelled h
    have hscan₂ : w₂.scanDeferred = false := by
      by_contra hs
      exact hcancelled (hk₂.fits.scan (Bool.not_eq_false _ ▸ hs))
    have hslot := (scanNow_slot (w := w₂) (e := e)).1
    refine ⟨_, (scanNow_kept hk₂).call (c := .startScan name) fun h => absurd h Bool.false_ne_true,
      ?_⟩
    exact ⟨hconnecting.symm.trans (congrArg Slot.connecting hslot).symm,
      (ha.up.trans hconn.symm).trans (congrArg Slot.conn hslot).symm,
      (hk₂.proc.trans hproc).trans (hscan₂.symm.trans (congrArg Slot.scanDeferred hslot).symm)⟩

theorem Connecting.inv {r : ℤ × State} (h : Connecting p w r) (ha : Agrees p w) {c : Call}
    (hc : c.connects = true) : Inv (r.2.act (.call c r.1)) := by
  have hdrops : c.drops = false ∧ c.givesUp = false := by
    cases c with
    | connectFound | connectBonded => exact ⟨rfl, rfl⟩
    | _ => cases hc
  have howed : ∀ rc, (p.apply (.call c rc)).owed = p.owed := by
    cases c with
    | connectFound | connectBonded => exact fun _ => rfl
    | _ => cases hc
  have hup : ∀ rc, (p.apply (.call c rc)).up = p.up := fun rc => by
    show (if c.drops = true then none else p.up) = p.up
    rw [hdrops.1, if_neg Bool.false_ne_true]
  have hawaited : ∀ rc, (p.apply (.call c rc)).awaited = if rc = 0 then true else p.awaited := by
    intro rc
    show (if c.connects = true ∧ rc = 0 then true else if c.givesUp = true then false
        else p.awaited) = _
    rw [hc, hdrops.2, if_neg Bool.false_ne_true]
    exact if_congr (and_iff_right rfl) rfl rfl
  cases h with
  | refused rc kept connecting conn scan =>
    refine ⟨_, kept.call fun _ h => absurd h rc, ?_, (hup _).trans (ha.up.trans conn.symm),
      (howed _).trans (ha.owed.trans scan.symm)⟩
    rw [hawaited, if_neg rc]
    exact ha.awaited.trans connecting.symm
  | taken proc rc kept idle connecting conn scan =>
    have hallow : Past.allows { p with proc := proc } (.call c r.1) := fun _ _ =>
      ⟨ha.awaited.trans idle.1, ha.up.trans idle.2⟩
    refine ⟨_, kept.call hallow, ?_, ?_, ?_⟩
    · show (if c.connects = true ∧ r.1 = 0 then true else _) = _
      rw [if_pos ⟨hc, rc⟩]
      exact connecting.symm
    · show (if c.drops = true then none else p.up) = _
      rw [hdrops.1, if_neg Bool.false_ne_true, ha.up, idle.2]
      exact conn.symm
    · have howed' : (Past.apply { p with proc := proc } (.call c r.1)).owed = p.owed := by
        cases c with
        | connectFound | connectBonded => rfl
        | _ => cases hc
      exact howed'.trans (ha.owed.trans scan.symm)

theorem connectFound_inv (hi : Inv w) : Inv (w.call e .connectFound) := by
  obtain ⟨p, hk, ha⟩ := hi
  have h : Connecting p w (w.connectFound e) := by
    unfold State.connectFound
    split
    · exact .refused (show eNoent ≠ 0 by decide) hk rfl rfl rfl
    · split
      · exact connectTo_kept hk _ _
      · exact connectTo_kept hk _ _
  exact h.inv ha rfl

theorem connectBonded_inv (hi : Inv w) : Inv (w.call e .connectBonded) := by
  obtain ⟨p, hk, ha⟩ := hi
  have h : Connecting p w (w.connectBonded e) := by
    unfold State.connectBonded
    split
    · exact .refused (show eNoent ≠ 0 by decide) hk rfl rfl rfl
    · exact connectTo_kept hk _ _
  exact h.inv ha rfl

theorem request_inv (hi : Inv w) (r : Request) : Inv (w.call e (.request r)) := by
  obtain ⟨p, hk, ha⟩ := hi
  have hturn := hk.turn ha.up
    (request_turned (q := { w.q with log := [], starts := 0 }) rfl e.gatt r)
  exact Inv.call (w := (w.request e r).2) ⟨p, hturn, ha.awaited, ha.up, ha.owed⟩ rfl _

theorem call_inv (hi : Inv w) (c : Call) : Inv (w.call e c) := by
  cases c with
  | startScan name => exact startScan_inv hi name
  | stopScan => exact stopScan_inv hi
  | connectFound => exact connectFound_inv hi
  | connectBonded => exact connectBonded_inv hi
  | pair => exact (pair_same.inv hi).call rfl _
  | request r => exact request_inv hi r
  | disconnect => exact disconnect_inv hi
  | removeBond => exact removeBond_inv hi
  | keepOnlyBond => exact (keepOnlyBond_same.inv hi).call rfl _
  | scanWindow => exact (scanWindow_same.inv hi).call rfl _

end OpenCalifornia.Transport.Gap
