import OpenCalifornia.Transport.Runs

/-! # The queue leaves its link alone

Whatever an operation does, the link stays, and a table in the cache stays its peer's or goes. Only
a finished discovery puts another one there. -/

namespace OpenCalifornia.Transport
open Lib Lib.Bits Lib.Machine

variable {q q' q'' : State} {e : Env}

/-- The link stays, and so does the peer of the cached table, if there is still one. -/
structure Stays (q q' : State) : Prop where
  conn : q'.conn = q.conn
  cache : ∀ c', q'.cache = some c' → ∃ c, q.cache = some c ∧ c'.peer = c.peer

theorem Stays.of_eq (hconn : q'.conn = q.conn) (hcache : q'.cache = q.cache) : Stays q q' :=
  ⟨hconn, fun c' h => ⟨c', hcache ▸ h, rfl⟩⟩

theorem Stays.refl (q : State) : Stays q q := .of_eq rfl rfl

theorem Stays.trans (h : Stays q q') (h' : Stays q' q'') : Stays q q'' := by
  refine ⟨h'.conn.trans h.conn, fun c'' hc'' => ?_⟩
  obtain ⟨c', hc', hpeer'⟩ := h'.cache c'' hc''
  obtain ⟨c, hc, hpeer⟩ := h.cache c' hc'
  exact ⟨c, hc, hpeer'.trans hpeer⟩

theorem Stays.before (h : Stays q' q'') (hconn : q'.conn = q.conn) (hcache : q'.cache = q.cache) :
    Stays q q'' :=
  (Stays.of_eq hconn hcache).trans h

theorem Stays.dropped (hconn : q'.conn = q.conn) (hcache : q'.cache = none) : Stays q q' :=
  ⟨hconn, fun _ h => by rw [hcache] at h; cases h⟩

theorem popped_stays (q : State) (status : ℤ) : Stays q (q.popped status) := by
  unfold State.popped
  dsimp only
  split_ifs
  · exact .dropped rfl rfl
  · exact .of_eq rfl rfl

theorem opFinish_stays {next : State → State} (hnext : ∀ q, Stays q (next q)) (status : ℤ)
    (data : List Byte) : Stays q (q.opFinish next status data) := by
  by_cases hs : status = eNotconn
  · unfold State.opFinish
    rw [if_pos hs]
    exact .of_eq rfl rfl
  · cases hq : q.queue with
    | nil =>
      unfold State.opFinish
      rw [if_neg hs]
      simp only [hq]
      exact .of_eq rfl rfl
    | cons o queue =>
      rw [opFinish_eq next hs hq]
      cases o.report status data with
      | some r => exact (popped_stays q status).trans (.of_eq rfl rfl)
      | none =>
        have hlater : Stays (q.popped status) (next ((q.popped status).act (.ended o status))) :=
          (hnext _).before rfl rfl
        exact (popped_stays q status).trans hlater

theorem opIssue_stays (o : GattOp) (c : Chr) : Stays q (q.opIssue e o c).2 := by
  unfold State.opIssue
  cases o.kind <;> exact .of_eq rfl rfl

theorem cacheTake_stays : Stays q (q.cacheTake e).2 := by
  unfold State.cacheTake
  split
  · split_ifs
    · exact .of_eq rfl rfl
    · exact .dropped rfl rfl
  · exact .refl q

theorem discStart_stays {next : State → State} (hnext : ∀ q, Stays q (next q)) :
    Stays q (q.discStart next e).2 := by
  unfold State.discStart
  dsimp only
  split_ifs
  · exact cacheTake_stays.trans (opFinish_stays hnext 0 [])
  · exact cacheTake_stays.trans (.of_eq rfl rfl)

theorem opBegin_stays {next : State → State} (hnext : ∀ q, Stays q (next q)) (o : GattOp) :
    Stays q (q.opBegin next e o).2 := by
  unfold State.opBegin
  cases o.kind with
  | disc =>
    dsimp only
    split_ifs
    · exact .of_eq rfl rfl
    · exact (discStart_stays hnext).before rfl rfl
  | sub =>
    dsimp only
    split
    · split_ifs <;> exact .of_eq rfl rfl
    · exact .refl q
  | read | writeHb | write =>
    dsimp only
    split
    · exact opIssue_stays o _
    · split_ifs <;> exact .of_eq rfl rfl

theorem opKick_stays (e : Env) (n : ℕ) : ∀ q, Stays q (State.opKick e n q) := by
  induction n with
  | zero => exact fun q => .refl q
  | succ n ih =>
    intro q
    unfold State.opKick
    split_ifs
    · exact .refl q
    · split
      · exact .refl q
      · rename_i o queue hq
        have hbegin : Stays q (State.opBegin (State.opKick e n)
            { q.act (.begin o) with busy := true } e o).2 :=
          (opBegin_stays ih o).before rfl rfl
        dsimp only
        split_ifs
        · exact hbegin.trans (opFinish_stays ih _ _)
        · exact hbegin

theorem kick_stays (q : State) : Stays q (q.kick e) := opKick_stays e _ q

theorem opPush_stays (o : GattOp) : Stays q (q.opPush e o).2 := by
  unfold State.opPush
  split_ifs
  · exact .refl q
  · exact .refl q
  · exact .refl q
  · exact (kick_stays _).before rfl rfl

theorem request_stays (r : Request) : Stays q (q.request e r).2 := by
  unfold State.request
  cases r with
  | discover | read | writeHeartbeat => exact opPush_stays _
  | subscribe shortId =>
    dsimp only
    split_ifs
    · exact .refl q
    · exact opPush_stays _
  | write shortId data =>
    dsimp only
    split_ifs
    · exact opPush_stays _
    · exact .refl q

theorem finish_stays (status : ℤ) (data : List Byte) : Stays q (q.finish e status data) :=
  opFinish_stays kick_stays status data

theorem orFinish_stays (r : ℤ × State) : Stays r.2 (State.orFinish r e) := by
  unfold State.orFinish
  split_ifs
  · exact finish_stays _ _
  · exact .refl _

theorem updateShort_stays (shortId : ℕ) (f : Chr → Chr) : Stays q (q.updateShort shortId f) := by
  unfold State.updateShort
  split
  · exact .of_eq rfl rfl
  · exact .refl q

theorem addChr_stays (c : Chr) : Stays q (q.addChr c) := by
  unfold State.addChr
  split
  · exact updateShort_stays _ _
  · split_ifs <;> exact .of_eq rfl rfl

theorem onMtu_stays (status : ℤ) : Stays q (q.onMtu e status) := by
  unfold State.onMtu
  split_ifs
  · exact finish_stays _ _
  · exact (discStart_stays kick_stays).trans (orFinish_stays _)

theorem onLookup_stays (w : Word) : Stays q (q.onLookup e w) := by
  unfold State.onLookup
  split
  · split
    · exact addChr_stays _
    · exact .refl q
  · exact .refl q
  · split_ifs
    · exact finish_stays _ _
    · split
      · split
        · exact (opIssue_stays _ _).trans (orFinish_stays _)
        · exact finish_stays _ _
      · exact finish_stays _ _

theorem cccdStore_stays (cccd : ℕ) : Stays q
    (match q.queue.head? with
      | some o =>
        match q.findShort o.shortId with
        | some _ =>
          let q : State := q.updateShort o.shortId fun c => { c with cccd := cccd }
          { q with cache := q.cache.map fun c : Cache => { c with table := q.chrs } }
        | none => q
      | none => q) := by
  split
  · split
    · refine (updateShort_stays _ _).trans ⟨rfl, fun c' hc' => ?_⟩
      obtain ⟨c, hc, rfl⟩ := Option.map_eq_some_iff.mp hc'
      exact ⟨c, hc, rfl⟩
    · exact .refl q
  · exact .refl q

theorem onDsc_stays (w : Word) : Stays q (q.onDsc e w) := by
  unfold State.onDsc
  split
  · exact .refl q
  · split_ifs <;> exact .of_eq rfl rfl
  · split_ifs
    · exact finish_stays _ _
    · exact finish_stays _ _
    · refine (cccdStore_stays q.cccd).trans ?_
      dsimp only
      exact (orFinish_stays _).before rfl rfl

theorem onRead_stays (w : Word) : Stays q (q.onRead e w) := by
  unfold State.onRead
  split
  · split
    · split_ifs <;> exact finish_stays _ _
    · exact finish_stays _ _
  · exact .refl q

theorem onWritten_stays (w : Word) : Stays q (q.onWritten e w) := by
  unfold State.onWritten
  split
  · exact finish_stays _ _
  · exact .refl q

theorem cacheStore_conn : (q.cacheStore e).conn = q.conn :=
  congrArg Core.conn (cacheStore_core q e).1

theorem onDiscChr_conn (w : Word) : (q.onDiscChr e w).conn = q.conn := by
  unfold State.onDiscChr
  split
  · split
    · exact (addChr_stays _).conn
    · rfl
  · rfl
  · split_ifs
    · exact (finish_stays _ _).conn
    · exact (finish_stays _ _).conn.trans cacheStore_conn

theorem callback_conn (p : Proc) (w : Word) : (q.callback e p w).conn = q.conn := by
  unfold State.callback
  split_ifs
  · rfl
  · dsimp only
    split
    · split
      · exact (onMtu_stays _).conn
      · cases w <;> rfl
    · exact (onDiscChr_conn w).trans (by cases w <;> rfl)
    · exact (onLookup_stays w).conn.trans (by cases w <;> rfl)
    · exact (onDsc_stays w).conn.trans (by cases w <;> rfl)
    · exact (onRead_stays w).conn.trans (by cases w <;> rfl)
    · exact (onWritten_stays w).conn.trans (by cases w <;> rfl)

/-- The queue took a step of its own. -/
structure Turned (q q' : State) : Prop where
  conn : q'.conn = q.conn
  good : ∀ t, Tidy t q → Good t q'
  down : ∀ t, Tidy t q → q.conn = false → q'.log = []

theorem Tidy.off {t : Track} {q : State} (h : Tidy t q) (hc : q.conn = false) :
    Idle t q.core ∧ q.queue = [] := by
  cases h.loose with
  | idle hidle => exact ⟨hidle, hidle.off (.inl hc)⟩
  | waits o c hwaits => exact absurd (hwaits.conn.symm.trans hc) Bool.noConfusion

theorem request_turned {q : State} (hq : q.log = []) (e : Env) (r : Request) :
    Turned q (q.request e r).2 where
  conn := (request_stays r).conn
  good t ht := request_good (hq ▸ .start) ht e r
  down t ht hc := by
    have hpush : ∀ o, q.opPush e o = (eNotconn, q) := fun o => if_pos (.inl (by rw [hc]; decide))
    cases r with
    | discover | read | writeHeartbeat => exact (congrArg (·.2.log) (hpush _)).trans hq
    | subscribe shortId =>
      unfold State.request
      dsimp only
      split_ifs
      · exact hq
      · exact (congrArg (·.2.log) (hpush _)).trans hq
    | write shortId data =>
      unfold State.request
      dsimp only
      split_ifs
      · exact (congrArg (·.2.log) (hpush _)).trans hq
      · exact hq

theorem returned_turned {q : State} (hq : q.log = []) (e : Env) :
    Turned q (State.kick { q with depth := q.depth - 1 } e) where
  conn := (kick_stays _).conn
  good t ht := kick_good (q := { q with depth := q.depth - 1 }) (hq ▸ .start)
    (ht.loose.of_core rfl) e
  down t ht hc := by
    have hkick : State.kick { q with depth := q.depth - 1 } e =
        State.opKick e 0 { q with depth := q.depth - 1 } :=
      congrArg (fun queue => State.opKick e (List.length queue) _) (Tidy.off ht hc).2
    exact (congrArg State.log hkick).trans hq

theorem callback_turned {q q' : State} (hq : q.log = []) {e : Env} {k : ℕ}
    {word : Word} (h : q.next e (.callback k word) = some q') : Turned q q' where
  conn := by
    unfold State.next at h
    dsimp only at h
    split at h
    · obtain ⟨-, h⟩ := Option.ite_none_right_eq_some.mp h
      obtain rfl := Option.some.inj h
      refine (callback_conn _ _).trans ?_
      split_ifs <;> rfl
    · cases h
  good t ht := next_good (hq ▸ .start) ht h
  down t ht hc := by
    obtain ⟨hidle, -⟩ := Tidy.off ht hc
    unfold State.next at h
    dsimp only at h
    split at h
    · rename_i proc hproc
      obtain ⟨-, h⟩ := Option.ite_none_right_eq_some.mp h
      obtain rfl := Option.some.inj h
      have hgen : proc.gen ≠ q.gen :=
        Core.not_current hidle.current proc (List.mem_of_getElem? hproc)
      have hdrop : ∀ q₂ : State, q₂.gen = q.gen → q₂.callback e proc word = q₂ :=
        fun q₂ hg => if_pos (hg.symm ▸ hgen)
      rw [hdrop _ (by split_ifs <;> rfl)]
      split_ifs <;> exact hq
    · cases h

end OpenCalifornia.Transport
