import OpenCalifornia.Transport.Track

/-! # The queue keeps its operations in order

One lemma for each function of the queue: what it does meets the rules, and it leaves the queue with
an operation that waits for its procedure or with nothing to do. -/

namespace OpenCalifornia.Transport
open Lib Lib.Bits Lib.Machine

variable {t₀ t : Track} {q : State} {e : Env} {o : GattOp} {c : Call}

/-- A state whose acts met the rules. -/
def Good (t₀ : Track) (q : State) : Prop := ∃ t, At t₀ q.log t ∧ Tidy t q

/-- The operation may ask for this procedure now. -/
structure May (t : Track) (o : GattOp) (c : Call) : Prop where
  asks : o.Asks c
  leads : t.said.Leads c

theorem start_taken (h : Stopped t q.core o) (hat : At t₀ q.log t) (hn : t.notConn = false)
    (hrc : e.start q.starts = 0) (hm : May t o c) : (q.start e c).1 = 0 ∧
      At t₀ (q.start e c).2.log { t with pending := some c } ∧
      Waits { t with pending := some c } (q.start e c).2.core o c := by
  have hallow : t.allows (.start c (e.start q.starts)) :=
    ⟨h.pending, hm.leads, o, h.running, hm.asks⟩
  have hat' : At t₀ (q.start e c).2.log (t.apply (.start c (e.start q.starts))) := hat.cons hallow
  have happly : t.apply (.start c (e.start q.starts)) = { t with pending := some c } := by
    have hne : ¬ (0 : ℤ) = eNotconn := by decide
    simp [Track.apply, hrc, hne]
  have hcore : (q.start e c).2.core =
      { q.core with procs := q.procs ++ [⟨c, q.gen, q.link⟩] } :=
    congrArg (fun procs => { q.core with procs := procs }) (if_pos hrc)
  refine ⟨hrc, happly ▸ hat', ?_⟩
  rw [hcore]
  exact {
    up := h.up
    conn := h.conn
    dying := h.dying
    room := h.room
    sorted := by
      intro p hp
      cases List.mem_append.mp hp with
      | inl hp => exact h.sorted p hp
      | inr hp =>
        rw [List.mem_singleton.mp hp]
        exact ⟨le_refl _, le_refl _, iff_of_true rfl rfl⟩
    busy := h.busy
    running := h.running
    queue := h.queue
    notConn := hn
    pending := rfl
    asks := hm.asks
    current := by
      have hcur := h.current
      unfold Core.current at hcur ⊢
      rw [List.filter_append, List.map_append]
      have hnew : ([⟨c, q.gen, q.link⟩] : List Proc).filter (fun p => p.gen = q.gen) =
          [⟨c, q.gen, q.link⟩] := List.filter_cons_of_pos (decide_eq_true rfl)
      exact congrArg₂ (· ++ ·) hcur (congrArg (List.map Proc.call) hnew) }

theorem start_refused (h : Stopped t q.core o) (hat : At t₀ q.log t) (hrc : e.start q.starts ≠ 0)
    (hm : May t o c) : ∃ t', At t₀ (q.start e c).2.log t' ∧ Stopped t' (q.start e c).2.core o ∧
      t'.said = .refused c (e.start q.starts) ∧
      (t'.notConn = true ↔ t.notConn = true ∨ e.start q.starts = eNotconn) := by
  have hallow : t.allows (.start c (e.start q.starts)) :=
    ⟨h.pending, hm.leads, o, h.running, hm.asks⟩
  have hcore : (q.start e c).2.core = q.core :=
    congrArg (fun procs => { q.core with procs := procs }) (if_neg hrc)
  refine ⟨t.apply (.start c (e.start q.starts)), hat.cons hallow, ?_, if_neg hrc,
    decide_eq_true_iff⟩
  rw [hcore]
  exact { h with pending := if_neg hrc }

/-- The queue without its first operation. -/
def State.popped (q : State) (status : ℤ) : State :=
  let q := if status = attErr 1 ∨ status = attErr 10 then { q with cache := none } else q
  { q with queue := q.queue.tail, busy := false }

theorem popped_core (q : State) (status : ℤ) : (q.popped status).core =
    { q.core with queue := q.queue.tail, busy := false } ∧ (q.popped status).log = q.log := by
  unfold State.popped
  dsimp only
  split_ifs <;> exact ⟨rfl, rfl⟩

theorem opFinish_eq (next : State → State) {status : ℤ} (hs : status ≠ eNotconn)
    {queue : List GattOp} (hq : q.queue = o :: queue) (data : List Byte) :
    q.opFinish next status data =
      match o.report status data with
      | some r => { (q.popped status).act (.report r) with depth := q.depth + 1 }
      | none => next ((q.popped status).act (.ended o status)) := by
  unfold State.opFinish
  rw [if_neg hs]
  have hpop : q.popped status = { (if status = attErr 1 ∨ status = attErr 10 then
      { q with cache := none } else q : State) with queue := queue, busy := false } := by
    unfold State.popped
    dsimp only
    split_ifs <;> simp only [hq, List.tail_cons]
  have hdepth : (if status = attErr 1 ∨ status = attErr 10 then
      { q with cache := none } else q : State).depth = q.depth := by
    split_ifs <;> rfl
  rw [hpop]
  split
  · rename_i hnil
    rw [hq] at hnil
    cases hnil
  · rename_i o' queue' hcons
    rw [hq] at hcons
    cases hcons
    cases o.report status data with
    | some r => exact congrArg (fun d => { (_ : State) with depth := d + 1 }) hdepth
    | none => rfl

theorem Stopped.popped (h : Stopped t q.core o) (hn : t.notConn = false) (status : ℤ) :
    Idle { t with running := none } (q.popped status).core := by
  have htail : q.queue.tail = t.waiting := by rw [show q.queue = o :: t.waiting from h.queue]; rfl
  rw [(popped_core q status).1]
  exact {
    up := h.up.trans h.conn.symm
    gone := hn.trans h.dying.symm
    off := fun hc => hc.elim (fun hc => absurd (h.conn.symm.trans hc) (by rintro ⟨⟩))
      fun hc => absurd (h.dying.symm.trans hc) (by rintro ⟨⟩)
    room := (List.tail_sublist q.queue).length_le.trans h.room
    sorted := h.sorted
    busy := rfl
    running := rfl
    waiting := htail.symm
    pending := h.pending
    current := h.current }

theorem opFinish_good {next : State → State}
    (hnext : ∀ q' : State, q'.queue.length < q.queue.length → ∀ t', At t₀ q'.log t' →
      Idle t' q'.core → Good t₀ (next q'))
    (h : Stopped t q.core o) (hat : At t₀ q.log t) {status : ℤ} {data : List Byte}
    (he : Ends t status data) : Good t₀ (q.opFinish next status data) := by
  unfold Ends at he
  by_cases hs : status = eNotconn
  · rw [if_pos hs] at he
    unfold State.opFinish
    rw [if_pos hs]
    refine ⟨_, hat.cons (a := .gone) he, .idle ?_, fun _ => .inl rfl⟩
    exact {
      up := h.up.trans h.conn.symm
      gone := he
      off := fun _ => rfl
      room := Nat.zero_le _
      sorted := h.sorted.bump (le_refl _) fun _ => h.current
      busy := rfl
      running := rfl
      waiting := rfl
      pending := rfl
      current := Core.current_bump h.sorted }
  · rw [if_neg hs] at he
    obtain ⟨hn, hends⟩ := he
    have hidle := h.popped hn status
    obtain ⟨hcore, hlog⟩ := popped_core q status
    rw [opFinish_eq next hs h.queue]
    cases hr : o.report status data with
    | some r =>
      have hallow : t.allows (.report r) :=
        ⟨hn, h.pending, o, h.running, by rw [hends]; exact hr⟩
      have hat' := hat.cons (a := .report r) hallow
      rw [← hlog] at hat'
      exact ⟨_, hat', .idle hidle, fun _ => .inr (Nat.succ_pos _)⟩
    | none =>
      have hsub : o.kind = .sub := by
        unfold GattOp.report at hr
        cases hk : o.kind with
        | sub => rfl
        | _ =>
          rw [hk] at hr
          cases hr
      have hallow : t.allows (.ended o status) :=
        ⟨hn, h.pending, h.running, hsub, by rw [hends]⟩
      have hat' := hat.cons (a := .ended o status) hallow
      rw [← hlog] at hat'
      refine hnext _ ?_ _ hat' hidle
      have hqueue : (q.popped status).queue = q.queue.tail := congrArg Core.queue hcore
      show (q.popped status).queue.length < q.queue.length
      rw [hqueue, show q.queue = o :: t.waiting from h.queue]
      exact Nat.lt_succ_self _

/-- A function that starts procedures returns 0 and leaves the queue in order, or it returns what
the operation ends with. -/
def Outcome (t₀ : Track) (o : GattOp) (queue : List GattOp) (r : ℤ × State) : Prop :=
  (r.1 = 0 ∧ Good t₀ r.2) ∨
    (r.1 ≠ 0 ∧ r.2.queue = queue ∧ ∃ t, At t₀ r.2.log t ∧ Stopped t r.2.core o ∧ Ends t r.1 [])

theorem Waits.good (h : Waits t q.core o c) (hat : At t₀ q.log t) : Good t₀ q :=
  ⟨t, hat, .waits o c h, fun hb => absurd (h.busy.symm.trans hb) (by rintro ⟨⟩)⟩

theorem Stopped.unknown (h : Stopped t q.core o) (hat : At t₀ q.log t) (hn : t.notConn = false)
    (hs : t.said.ends = (eNoent, [])) : Outcome t₀ o q.queue (eNoent, q) := by
  have hne : eNoent ≠ 0 ∧ eNoent ≠ eNotconn := by decide
  refine .inr ⟨hne.1, rfl, t, hat, h, ?_⟩
  unfold Ends
  rw [if_neg hne.2]
  exact ⟨hn, hs⟩

/-- A procedure other than the MTU exchange decides about the operation when it is refused. -/
theorem Stopped.start (h : Stopped t q.core o) (hat : At t₀ q.log t) (hn : t.notConn = false)
    (hm : May t o c) (hc : c ≠ .exchangeMtu) (e : Env) : Outcome t₀ o q.queue (q.start e c) := by
  by_cases hrc : e.start q.starts = 0
  · obtain ⟨hzero, hat', hw⟩ := start_taken h hat hn hrc hm
    exact .inl ⟨hzero, hw.good hat'⟩
  · obtain ⟨t', hat', hstop, hsaid, hnot⟩ := start_refused h hat hrc hm
    refine .inr ⟨hrc, rfl, t', hat', hstop, ?_⟩
    unfold Ends
    by_cases hgone : (q.start e c).1 = eNotconn
    · rw [if_pos hgone]
      exact hnot.mpr (.inr hgone)
    · rw [if_neg hgone]
      have hfalse : ¬ t'.notConn = true := fun hc => (hnot.mp hc).elim
        (fun ht => absurd (hn.symm.trans ht) (by rintro ⟨⟩)) hgone
      refine ⟨by simpa using hfalse, ?_⟩
      rw [hsaid]
      cases c with
      | exchangeMtu => exact absurd rfl hc
      | _ => rfl

theorem Stopped.opIssue (h : Stopped t q.core o) (hat : At t₀ q.log t) (hn : t.notConn = false)
    (hk : o.kind ≠ .disc ∧ o.kind ≠ .sub) (hread : ∀ handle, t.said.Leads (.read handle))
    (hwrite : ∀ handle data, t.said.Leads (.write handle data)) (e : Env) (x : Chr) :
    Outcome t₀ o q.queue (q.opIssue e o x) := by
  unfold State.opIssue
  cases hkind : o.kind with
  | disc => exact absurd hkind hk.1
  | sub => exact absurd hkind hk.2
  | read =>
    have hm : May t o (.read x.valHandle) := ⟨hkind, hread _⟩
    exact h.start hat hn hm (by rintro ⟨⟩) e
  | writeHb =>
    have hm : May t o (.write x.valHandle (beBytes o.counter)) :=
      ⟨.inl ⟨hkind, rfl⟩, hwrite _ _⟩
    exact h.start hat hn hm (by rintro ⟨⟩) e
  | write =>
    have hm : May t o (.write x.valHandle o.data) := ⟨.inr (.inl ⟨hkind, rfl⟩), hwrite _ _⟩
    exact h.start hat hn hm (by rintro ⟨⟩) e

theorem cacheTake_core (q : State) (e : Env) : (q.cacheTake e).2.core = q.core ∧
    (q.cacheTake e).2.log = q.log ∧ (q.cacheTake e).2.starts = q.starts := by
  unfold State.cacheTake
  split
  · split_ifs <;> exact ⟨rfl, rfl, rfl⟩
  · exact ⟨rfl, rfl, rfl⟩

/-- After the MTU exchange the discovery is the cache's or NimBLE's. A connection that has answered
"not connected" has no peer and takes no procedure. -/
theorem Stopped.discStart {next : State → State}
    (hnext : ∀ q' : State, q'.queue.length < q.queue.length → ∀ t', At t₀ q'.log t' →
      Idle t' q'.core → Good t₀ (next q'))
    (h : Stopped t q.core o) (hat : At t₀ q.log t) (hm : May t o .discAllChrs)
    (hs : t.said.ends = (0, []))
    (hn : t.notConn = true → e.peer = none ∧ e.start q.starts = eNotconn) :
    Outcome t₀ o q.queue (q.discStart next e) := by
  obtain ⟨hcore, hlog, hstarts⟩ := cacheTake_core q e
  set q₁ := (q.cacheTake e).2 with hq₁
  have hstop : Stopped t q₁.core o := hcore ▸ h
  have hat₁ : At t₀ q₁.log t := hlog ▸ hat
  have hqueue : q₁.queue = q.queue := congrArg Core.queue hcore
  unfold State.discStart
  dsimp only
  rw [← hq₁]
  by_cases htake : (q.cacheTake e).1 = true
  · rw [if_pos htake]
    have hconn : t.notConn = false := by
      by_contra hc
      obtain ⟨hpeer, -⟩ := hn (by simpa using hc)
      unfold State.cacheTake at htake
      rw [hpeer] at htake
      split at htake
      · rename_i hnone
        cases hnone
      · cases htake
    refine .inl ⟨rfl, opFinish_good (fun q' hlt => hnext q' (hqueue ▸ hlt)) hstop hat₁ ?_⟩
    unfold Ends
    rw [if_neg (by decide)]
    exact ⟨hconn, hs⟩
  · rw [if_neg htake]
    cases hconn : t.notConn with
    | false => exact hqueue ▸ hstop.start hat₁ hconn hm (by rintro ⟨⟩) e
    | true =>
      obtain ⟨-, hrc⟩ := hn hconn
      rw [← hstarts] at hrc
      have hne : e.start q₁.starts ≠ 0 := by rw [hrc]; decide
      obtain ⟨t', hat', hstop', -, hnot⟩ := start_refused hstop hat₁ hne hm
      refine .inr ⟨hne, hqueue, t', hat', hstop', ?_⟩
      unfold Ends
      rw [if_pos (show (q₁.start e .discAllChrs).1 = eNotconn from hrc)]
      exact hnot.mpr (.inl hconn)

theorem Stopped.opBegin {next : State → State}
    (hnext : ∀ q' : State, q'.queue.length < q.queue.length → ∀ t', At t₀ q'.log t' →
      Idle t' q'.core → Good t₀ (next q'))
    (h : Stopped t q.core o) (hat : At t₀ q.log t) (hn : t.notConn = false)
    (hs : t.said = .nothing) (e : Env) : Outcome t₀ o q.queue (q.opBegin next e o) := by
  have hnone : t.said.ends = (eNoent, []) := by rw [hs]; rfl
  have hleads : ∀ c, t.said.Leads c := fun c => by rw [hs]; trivial
  have hvalue : o.kind ≠ .disc ∧ o.kind ≠ .sub → ∀ r,
      (∀ c, q.findShort o.shortId = some c → r = q.opIssue e o c) →
      (q.findShort o.shortId = none →
        r = if q.discDone then (eNoent, q) else q.start e (.discChrsByUuid o.shortId)) →
      Outcome t₀ o q.queue r := by
    intro hk r hsome hnil
    cases hfind : q.findShort o.shortId with
    | some x =>
      rw [hsome x hfind]
      exact h.opIssue hat hn hk (fun _ => hleads _) (fun _ _ => hleads _) e x
    | none =>
      rw [hnil hfind]
      split_ifs
      · exact h.unknown hat hn hnone
      · have hm : May t o (.discChrsByUuid o.shortId) := ⟨⟨rfl, hk⟩, hleads _⟩
        exact h.start hat hn hm (by rintro ⟨⟩) e
  unfold State.opBegin
  cases hkind : o.kind with
  | disc =>
    dsimp only
    set q₁ : State := { q with chrs := [], discDone := false } with hq₁
    have h₁ : Stopped t q₁.core o := h
    have hat₁ : At t₀ q₁.log t := hat
    have hmtu : May t o .exchangeMtu := ⟨hkind, hleads _⟩
    by_cases hrc : e.start q₁.starts = 0
    · obtain ⟨hzero, hat', hw⟩ := start_taken h₁ hat₁ hn hrc hmtu
      rw [if_pos hzero]
      exact .inl ⟨hzero, hw.good hat'⟩
    · rw [if_neg (show ¬ (q₁.start e .exchangeMtu).1 = 0 from hrc)]
      obtain ⟨t', hat', hstop, hsaid, hnot⟩ := start_refused h₁ hat₁ hrc hmtu
      have hgone : t'.notConn = true → e.peer = none ∧ e.start (q₁.starts + 1) = eNotconn := by
        intro ht
        have hg := (hnot.mp ht).resolve_left (by rw [hn]; rintro ⟨⟩)
        exact e.gone _ hg
      have hm : May t' o .discAllChrs := ⟨hkind, by rw [hsaid]; trivial⟩
      exact hstop.discStart (q := (q₁.start e .exchangeMtu).2) hnext hat' hm (by rw [hsaid]; rfl)
        hgone
  | sub =>
    dsimp only
    cases q.findShort o.shortId with
    | none => exact h.unknown hat hn hnone
    | some x =>
      dsimp only
      split_ifs
      · have hm : May t o (.write x.cccd [1, 0]) := ⟨.inr (.inr ⟨hkind, rfl⟩), hleads _⟩
        exact h.start hat hn hm (by rintro ⟨⟩) e
      · exact h.unknown hat hn hnone
      · exact h.unknown hat hn hnone
      · have hm : May t o (.discAllDscs x.valHandle x.endHandle) := ⟨hkind, hleads _⟩
        exact Stopped.start (q := { q with cccd := 0, dscPast := false }) h hat hn hm
          (by rintro ⟨⟩) e
  | _ =>
    exact hvalue (by rw [hkind]; exact ⟨by rintro ⟨⟩, by rintro ⟨⟩⟩) _
      (fun c hc => by rw [hc]) fun hc => by rw [hc]

/-- `op_kick` leaves an operation that waits for its procedure, or an empty queue, or a sink. -/
theorem opKick_good (e : Env) {n : ℕ} (hn : q.queue.length ≤ n) (hat : At t₀ q.log t)
    (h : Loose t q) : Good t₀ (State.opKick e n q) := by
  induction n generalizing q t with
  | zero =>
    have hnil : q.queue = [] := List.length_eq_zero_iff.mp (Nat.le_zero.mp hn)
    exact ⟨t, hat, h, fun _ => .inl hnil⟩
  | succ n ih =>
    unfold State.opKick
    cases h with
    | waits o c h =>
      rw [if_pos (show q.busy = true from h.busy)]
      exact h.good hat
    | idle h =>
      have hbusy : q.busy = false := h.busy
      rw [if_neg (by rw [hbusy]; rintro ⟨⟩)]
      cases hq : q.queue with
      | nil => exact ⟨t, hat, .idle h, fun _ => .inl hq⟩
      | cons o rest =>
        dsimp only
        set q₁ : State := { q.act (.begin o) with busy := true } with hq₁
        have hwaiting : t.waiting = o :: rest := h.waiting.trans hq
        have hon : q.conn = true ∧ q.dying = false := by
          constructor
          · by_contra hc
            have hoff : q.conn = false := by simpa using hc
            exact absurd (hq.symm.trans (h.off (.inl hoff))) (by rintro ⟨⟩)
          · by_contra hc
            have hoff : q.dying = true := by simpa using hc
            exact absurd (hq.symm.trans (h.off (.inr hoff))) (by rintro ⟨⟩)
        have hnot : t.notConn = false := h.gone.trans hon.2
        have hallow : t.allows (.begin o) := ⟨hnot, h.running, by rw [hwaiting]; rfl⟩
        have hat₁ : At t₀ q₁.log (t.apply (.begin o)) := hat.cons (a := .begin o) hallow
        have hstop : Stopped (t.apply (.begin o)) q₁.core o :=
          { up := h.up.trans hon.1
            conn := hon.1
            dying := hon.2
            room := h.room
            sorted := h.sorted
            busy := rfl
            running := rfl
            queue := hq.trans (by
              show o :: rest = o :: t.waiting.tail
              rw [hwaiting]
              rfl)
            pending := h.pending
            current := h.current }
        have hnext : ∀ q' : State, q'.queue.length < q.queue.length → ∀ t', At t₀ q'.log t' →
            Idle t' q'.core → Good t₀ (State.opKick e n q') :=
          fun q' hlt t' hat' hidle => ih (by omega) hat' (.idle hidle)
        have hout := hstop.opBegin (q := q₁) hnext hat₁ hnot rfl e
        obtain ⟨hzero, hgood⟩ | ⟨hne, hqueue, t', hat', hstop', hends⟩ := hout
        · rw [if_neg (not_not_intro hzero)]
          exact hgood
        · rw [if_pos hne]
          exact opFinish_good (fun q' hlt => hnext q' (by
            have hlen : q'.queue.length < q₁.queue.length := hqueue ▸ hlt
            exact hlen)) hstop' hat' hends

theorem kick_good (hat : At t₀ q.log t) (h : Loose t q) (e : Env) : Good t₀ (q.kick e) :=
  opKick_good e (le_refl _) hat h

theorem finish_good (h : Stopped t q.core o) (hat : At t₀ q.log t) {status : ℤ} {data : List Byte}
    (he : Ends t status data) (e : Env) : Good t₀ (q.finish e status data) :=
  opFinish_good (fun _ _ _ hat' hidle => kick_good hat' (.idle hidle) e) h hat he

theorem orFinish_good {queue : List GattOp} {r : ℤ × State} (h : Outcome t₀ o queue r) (e : Env) :
    Good t₀ (State.orFinish r e) := by
  unfold State.orFinish
  obtain ⟨hzero, hgood⟩ | ⟨hne, -, t', hat', hstop', hends⟩ := h
  · rw [if_neg (not_not_intro hzero)]
    exact hgood
  · rw [if_pos hne]
    exact finish_good hstop' hat' hends e

theorem Idle.open_eq (h : Idle t q.core) : t.open_ = q.queue := by
  unfold Track.open_
  rw [h.running, h.waiting]
  rfl

theorem Runs.open_eq (h : Runs t q.core o) : t.open_ = q.queue := by
  unfold Track.open_
  rw [h.running]
  exact h.queue.symm

theorem opPush_good (hat : At t₀ q.log t) (h : Tidy t q) (e : Env) (o : GattOp) :
    Good t₀ (q.opPush e o).2 := by
  unfold State.opPush
  by_cases hoff : ¬ q.conn ∨ q.dying
  · rw [if_pos hoff]
    exact ⟨t, hat, h⟩
  rw [if_neg hoff]
  by_cases hfull : q.queue.length ≥ opq
  · rw [if_pos hfull]
    exact ⟨t, hat, h⟩
  rw [if_neg hfull]
  by_cases hlen : o.data.length > Control.Firmware.frameMax
  · rw [if_pos hlen]
    exact ⟨t, hat, h⟩
  rw [if_neg hlen]
  have hconn : q.conn = true := by
    by_contra hc
    exact hoff (.inl hc)
  have hdying : q.dying = false := by
    by_contra hc
    exact hoff (.inr (by simpa using hc))
  have hroom : (q.queue ++ [o]).length ≤ opq := by
    rw [List.length_append, List.length_singleton]
    omega
  set q₁ : State := { q.act (.accept o) with queue := q.queue ++ [o] } with hq₁
  cases h.loose with
  | idle h =>
    have hallow : t.allows (.accept o) := by
      refine ⟨h.up.trans hconn, h.gone.trans hdying, ?_⟩
      rw [h.open_eq]
      exact Nat.lt_of_not_ge hfull
    have hat₁ : At t₀ q₁.log (t.apply (.accept o)) := hat.cons (a := .accept o) hallow
    refine kick_good hat₁ (.idle ?_) e
    exact { h with
      off := fun hc => hc.elim (fun hc => absurd (hconn.symm.trans hc) (by rintro ⟨⟩))
        fun hc => absurd (hdying.symm.trans hc) (by rintro ⟨⟩)
      room := hroom
      waiting := congrArg (· ++ [o]) h.waiting }
  | waits o' c h =>
    have hallow : t.allows (.accept o) := by
      refine ⟨h.up, h.notConn, ?_⟩
      rw [h.open_eq]
      exact Nat.lt_of_not_ge hfull
    have hat₁ : At t₀ q₁.log (t.apply (.accept o)) := hat.cons (a := .accept o) hallow
    refine kick_good hat₁ (.waits o' c ?_) e
    exact { h with
      room := hroom
      queue := by
        have hq : q.queue = o' :: t.waiting := h.queue
        show q.queue ++ [o] = o' :: (t.waiting ++ [o])
        rw [hq]
        rfl }

theorem request_good (hat : At t₀ q.log t) (h : Tidy t q) (e : Env) (r : Request) :
    Good t₀ (q.request e r).2 := by
  cases r with
  | discover => exact opPush_good hat h e _
  | read shortId => exact opPush_good hat h e _
  | subscribe shortId =>
    unfold State.request
    dsimp only
    split_ifs
    · exact ⟨t, hat, h⟩
    · exact opPush_good hat h e _
  | writeHeartbeat counter => exact opPush_good hat h e _
  | write shortId data =>
    unfold State.request
    dsimp only
    split_ifs
    · exact opPush_good hat h e _
    · exact ⟨t, hat, h⟩

theorem linkReset_idle (hat : At t₀ q.log t) (hs : q.core.Sorted) :
    At t₀ q.linkReset.log {} ∧ Idle {} q.linkReset.core := by
  refine ⟨hat.cons (a := .reset) trivial, ?_⟩
  exact {
    up := rfl
    gone := rfl
    off := fun _ => rfl
    room := Nat.zero_le _
    sorted := hs.bump (Nat.le_succ _) fun hc => absurd hc (Nat.succ_ne_self _)
    busy := rfl
    running := rfl
    waiting := rfl
    pending := rfl
    current := Core.current_bump hs }

theorem Loose.sorted (h : Loose t q) : q.core.Sorted := by
  cases h with
  | idle h => exact h.sorted
  | waits o c h => exact h.sorted

theorem updateShort_core (q : State) (shortId : ℕ) (f : Chr → Chr) :
    (q.updateShort shortId f).core = q.core ∧ (q.updateShort shortId f).log = q.log ∧
      (q.updateShort shortId f).depth = q.depth := by
  unfold State.updateShort
  cases q.chrs.findIdx? fun c => c.shortId = shortId <;> exact ⟨rfl, rfl, rfl⟩

theorem addChr_core (q : State) (x : Chr) : (q.addChr x).core = q.core ∧
    (q.addChr x).log = q.log ∧ (q.addChr x).depth = q.depth := by
  unfold State.addChr
  cases q.findShort x.shortId with
  | some y => exact updateShort_core q _ _
  | none =>
    dsimp only
    split_ifs <;> exact ⟨rfl, rfl, rfl⟩

theorem cacheStore_core (q : State) (e : Env) : (q.cacheStore e).core = q.core ∧
    (q.cacheStore e).log = q.log := by
  unfold State.cacheStore
  cases e.peer with
  | none => exact ⟨rfl, rfl⟩
  | some peer =>
    dsimp only
    split_ifs <;> exact ⟨rfl, rfl⟩

theorem Loose.of_core {q' : State} (h : Loose t q) (hc : q'.core = q.core) : Loose t q' := by
  cases h with
  | idle h => exact .idle (hc ▸ h)
  | waits o c h => exact .waits o c (hc ▸ h)

theorem Tidy.of_core {q' : State} (h : Tidy t q) (hc : q'.core = q.core)
    (hd : q'.depth = q.depth) : Tidy t q' := by
  have hbusy : q'.busy = q.busy := congrArg Core.busy hc
  have hqueue : q'.queue = q.queue := congrArg Core.queue hc
  refine ⟨h.loose.of_core hc, ?_⟩
  rw [hbusy, hqueue, hd]
  exact h.kick

theorem addChr_good (hat : At t₀ q.log t) (h : Tidy t q) (x : Chr) : Good t₀ (q.addChr x) := by
  obtain ⟨hcore, hlog, hdepth⟩ := addChr_core q x
  exact ⟨t, hlog ▸ hat, h.of_core hcore hdepth⟩

theorem getElem?_split {α : Type} {l : List α} {k : ℕ} {a : α} (h : l[k]? = some a) :
    ∃ front back, l = front ++ a :: back ∧ l.eraseIdx k = front ++ back := by
  obtain ⟨hlt, hget⟩ := List.getElem?_eq_some_iff.mp h
  refine ⟨l.take k, l.drop (k + 1), ?_, List.eraseIdx_eq_take_drop_succ l k⟩
  rw [← hget, List.getElem_cons_drop, List.take_append_drop]

theorem Waits.ended (h : Waits t q.core o c) {k : ℕ} {p : Proc} (hp : q.procs[k]? = some p)
    (hg : p.gen = q.gen) (status : ℤ) (attr : Option (List Byte)) : p.call = c ∧
      Stopped (t.apply (.final c status attr))
        { q.core with procs := q.procs.eraseIdx k } o := by
  obtain ⟨front, back, hsplit, herase⟩ := getElem?_split hp
  have hcur := h.current
  have hone : (front.filter fun p => p.gen = q.gen).map Proc.call ++
      p.call :: (back.filter fun p => p.gen = q.gen).map Proc.call = [c] := by
    have hkeep : (p :: back).filter (fun p => p.gen = q.gen) =
        p :: back.filter fun p => p.gen = q.gen := List.filter_cons_of_pos (decide_eq_true hg)
    rw [← hcur, ← List.map_cons, ← hkeep, ← List.map_append, ← List.filter_append, ← hsplit]
    rfl
  obtain ⟨hfront, hrest⟩ : (front.filter fun p => p.gen = q.gen).map Proc.call = [] ∧
      p.call :: (back.filter fun p => p.gen = q.gen).map Proc.call = [c] := by
    cases hf : (front.filter fun p => p.gen = q.gen).map Proc.call with
    | nil => exact ⟨rfl, by rwa [hf] at hone⟩
    | cons x xs =>
      rw [hf] at hone
      have hlen := congrArg List.length hone
      simp only [List.cons_append, List.length_cons, List.length_append, List.length_nil] at hlen
      omega
  obtain ⟨hcall, hback⟩ := List.cons.inj hrest
  refine ⟨hcall, { h with
    sorted := fun x hx => h.sorted x (List.eraseIdx_subset hx)
    running := h.running
    queue := h.queue
    up := h.up
    pending := rfl
    current := ?_ }⟩
  unfold Core.current
  rw [herase, List.filter_append, List.map_append]
  exact (congrArg₂ (· ++ ·) hfront hback).trans rfl

theorem Tidy.stale (h : Tidy t q) {k : ℕ} {p : Proc} (hp : q.procs[k]? = some p)
    (hg : p.gen ≠ q.gen) : Tidy t { q with procs := q.procs.eraseIdx k } := by
  obtain ⟨front, back, hsplit, herase⟩ := getElem?_split hp
  have hcur : ({ q.core with procs := q.procs.eraseIdx k } : Core).current = q.core.current := by
    have hdrop : (p :: back).filter (fun p => p.gen = q.gen) = back.filter fun p => p.gen = q.gen :=
      List.filter_cons_of_neg (by simpa using hg)
    have hlists : (q.procs.eraseIdx k).filter (fun p => p.gen = q.gen) =
        q.procs.filter fun p => p.gen = q.gen := by
      rw [herase, hsplit, List.filter_append, List.filter_append, hdrop]
    exact congrArg (List.map Proc.call) hlists
  refine ⟨?_, h.kick⟩
  cases h.loose with
  | idle h =>
    exact .idle { h with
      sorted := fun x hx => h.sorted x (List.eraseIdx_subset hx)
      current := hcur.trans h.current }
  | waits o c h =>
    exact .waits o c { h with
      sorted := fun x hx => h.sorted x (List.eraseIdx_subset hx)
      current := hcur.trans h.current }

theorem ends_final (hn : t.notConn = false) {st status : ℤ} {attr : Option (List Byte)}
    {data : List Byte} (hends : (Said.final c st attr).ends = (status, data))
    (hs : status = eNotconn ↔ st = eNotconn) :
    Ends (t.apply (.final c st attr)) status data := by
  unfold Ends
  by_cases hst : st = eNotconn
  · rw [if_pos (hs.mpr hst)]
    exact decide_eq_true (.inr hst)
  · rw [if_neg (fun hc => hst (hs.mp hc))]
    refine ⟨decide_eq_false ?_, hends⟩
    rintro (hc | hc)
    · exact absurd (hn.symm.trans hc) (by rintro ⟨⟩)
    · exact hst hc

theorem codes_ne : eNoent ≠ eNotconn ∧ eUnknown ≠ eNotconn ∧ eDone ≠ eNotconn ∧
    (0 : ℤ) ≠ eNotconn := by decide

variable {st : ℤ} {attr : Option (List Byte)}

theorem final_eq (t : Track) (hn : t.notConn = false) (hst : st ≠ eNotconn) :
    (t.apply (.final c st attr)).notConn = false := by
  refine decide_eq_false ?_
  rintro (hc | hc)
  · exact absurd (hn.symm.trans hc) (by rintro ⟨⟩)
  · exact hst hc

theorem onMtu_good (h : Stopped (t.apply (.final .exchangeMtu st attr)) q.core o)
    (hat : At t₀ q.log (t.apply (.final .exchangeMtu st attr))) (hn : t.notConn = false)
    (ha : o.Asks .exchangeMtu) (e : Env) : Good t₀ (q.onMtu e st) := by
  unfold State.onMtu
  split_ifs with hst
  · refine finish_good h hat ?_ e
    unfold Ends
    rw [if_pos hst]
    exact decide_eq_true (.inr hst)
  · have hnot : (t.apply (.final .exchangeMtu st attr)).notConn = false := final_eq t hn hst
    have hm : May (t.apply (.final .exchangeMtu st attr)) o .discAllChrs := ⟨ha, trivial⟩
    refine orFinish_good (h.discStart (fun _ _ _ hat' hidle => kick_good hat' (.idle hidle) e)
      hat hm rfl fun hc => ?_) e
    exact absurd (hnot.symm.trans hc) (by rintro ⟨⟩)

theorem onRead_good {handle : ℕ} (h : Stopped (t.apply (.final (.read handle) st attr)) q.core o)
    (hat : At t₀ q.log (t.apply (.final (.read handle) st attr))) (hn : t.notConn = false)
    (e : Env) : Good t₀ (q.onRead e (.final st attr)) := by
  obtain ⟨-, hunknown, -, hzero⟩ := codes_ne
  unfold State.onRead
  cases attr with
  | some data =>
    dsimp only
    split_ifs with hst
    · refine finish_good h hat (ends_final hn (by rw [Said.ends, if_pos hst]) ?_) e
      rw [hst]
    · exact finish_good h hat (ends_final hn (by rw [Said.ends, if_neg hst]) Iff.rfl) e
  | none =>
    dsimp only
    by_cases hst : st ≠ 0
    · rw [if_pos hst]
      exact finish_good h hat (ends_final hn (by rw [Said.ends, if_pos hst]) Iff.rfl) e
    · rw [if_neg hst]
      have hst' : st = 0 := not_not.mp hst
      refine finish_good h hat (ends_final hn (by rw [Said.ends, if_neg hst]) ?_) e
      rw [hst']
      exact iff_of_false hunknown hzero

theorem onWritten_good {handle : ℕ} {data : List Byte}
    (h : Stopped (t.apply (.final (.write handle data) st attr)) q.core o)
    (hat : At t₀ q.log (t.apply (.final (.write handle data) st attr))) (hn : t.notConn = false)
    (e : Env) : Good t₀ (q.onWritten e (.final st attr)) :=
  finish_good h hat (ends_final hn rfl Iff.rfl) e

theorem onDiscChr_good (h : Stopped (t.apply (.final .discAllChrs st attr)) q.core o)
    (hat : At t₀ q.log (t.apply (.final .discAllChrs st attr))) (hn : t.notConn = false)
    (e : Env) : Good t₀ (q.onDiscChr e (.final st attr)) := by
  obtain ⟨-, -, hdone, hzero⟩ := codes_ne
  unfold State.onDiscChr
  dsimp only
  split_ifs with hst
  · exact finish_good h hat (ends_final hn (by rw [Said.ends, if_neg hst]) Iff.rfl) e
  · have hst' : st = eDone := not_not.mp hst
    set q₁ : State := { q with chrs := endHandles q.chrs, discDone := true } with hq₁
    obtain ⟨hcore, hlog⟩ := cacheStore_core q₁ e
    have hat₁ : At t₀ (q₁.cacheStore e).log (t.apply (.final .discAllChrs st attr)) :=
      hlog.symm ▸ hat
    have h₁ : Stopped (t.apply (.final .discAllChrs st attr)) (q₁.cacheStore e).core o :=
      hcore.symm ▸ h
    refine finish_good h₁ hat₁ (ends_final hn ?_ ?_) e
    · rw [Said.ends, if_pos hst']
    · rw [hst']
      exact iff_of_false hzero hdone

theorem onLookup_good {shortId : ℕ}
    (h : Stopped (t.apply (.final (.discChrsByUuid shortId) st attr)) q.core o)
    (hat : At t₀ q.log (t.apply (.final (.discChrsByUuid shortId) st attr)))
    (hn : t.notConn = false) (ha : o.Asks (.discChrsByUuid shortId)) (e : Env) :
    Good t₀ (q.onLookup e (.final st attr)) := by
  obtain ⟨hnoent, -, hdone, -⟩ := codes_ne
  unfold State.onLookup
  dsimp only
  by_cases hst : st ≠ eDone
  · rw [if_pos hst]
    exact finish_good h hat (ends_final hn (by rw [Said.ends, if_neg hst]) Iff.rfl) e
  rw [if_neg hst]
  have hst' : st = eDone := not_not.mp hst
  have hne : st ≠ eNotconn := hst' ▸ hdone
  have hmissing : Ends (t.apply (.final (.discChrsByUuid shortId) st attr)) eNoent [] :=
    ends_final hn (by rw [Said.ends, if_pos hst']) (iff_of_false hnoent hne)
  have hhead : q.queue.head? = some o := congrArg List.head? h.queue
  rw [hhead]
  dsimp only
  cases q.findShort o.shortId with
  | none => exact finish_good h hat hmissing e
  | some x =>
    exact orFinish_good (h.opIssue hat (final_eq t hn hne) ha.2 (fun _ => trivial)
      (fun _ _ => trivial) e x) e

theorem onDsc_good {valHandle endHandle : ℕ}
    (h : Stopped (t.apply (.final (.discAllDscs valHandle endHandle) st attr)) q.core o)
    (hat : At t₀ q.log (t.apply (.final (.discAllDscs valHandle endHandle) st attr)))
    (hn : t.notConn = false) (ha : o.Asks (.discAllDscs valHandle endHandle)) (e : Env) :
    Good t₀ (q.onDsc e (.final st attr)) := by
  obtain ⟨hnoent, -, hdone, -⟩ := codes_ne
  unfold State.onDsc
  dsimp only
  by_cases hst : st ≠ eDone
  · rw [if_pos hst]
    exact finish_good h hat (ends_final hn (by rw [Said.ends, if_neg hst]) Iff.rfl) e
  rw [if_neg hst]
  have hst' : st = eDone := not_not.mp hst
  have hne : st ≠ eNotconn := hst' ▸ hdone
  by_cases hcccd : q.cccd = 0
  · rw [if_pos hcccd]
    exact finish_good h hat (ends_final hn (by rw [Said.ends, if_pos hst'])
      (iff_of_false hnoent hne)) e
  rw [if_neg hcccd]
  suffices hgood : ∀ q₁ : State, q₁.core = q.core → q₁.log = q.log →
      Good t₀ (State.orFinish (q₁.cccdEnable e q₁.cccd) e) by
    cases q.queue.head? with
    | none => exact hgood _ rfl rfl
    | some o' =>
      dsimp only
      cases q.findShort o'.shortId with
      | none => exact hgood _ rfl rfl
      | some x =>
        obtain ⟨hcore, hlog, -⟩ := updateShort_core q o'.shortId fun c => { c with cccd := q.cccd }
        exact hgood _ hcore hlog
  intro q₁ hcore hlog
  have h₁ : Stopped (t.apply (.final (.discAllDscs valHandle endHandle) st attr)) q₁.core o :=
    hcore.symm ▸ h
  have hat₁ : At t₀ q₁.log (t.apply (.final (.discAllDscs valHandle endHandle) st attr)) :=
    hlog.symm ▸ hat
  have hm : May (t.apply (.final (.discAllDscs valHandle endHandle) st attr)) o
      (.write q₁.cccd [1, 0]) := ⟨.inr (.inr ⟨ha, rfl⟩), trivial⟩
  exact orFinish_good (h₁.start hat₁ (final_eq t hn hne) hm (by rintro ⟨⟩) e) e

theorem callback_item (hat : At t₀ q.log t) (h : Tidy t q) (e : Env) (p : Proc) {w : Word}
    (hw : w.isFinal = false) : Good t₀ (q.callback e p w) := by
  have hsame : Good t₀ q := ⟨t, hat, h⟩
  unfold State.callback
  by_cases hg : p.gen ≠ q.gen
  · rw [if_pos hg]
    exact hsame
  rw [if_neg hg]
  cases w with
  | final status attr => cases hw
  | chr uuid defHandle valHandle notifies =>
    cases p.call with
    | discAllChrs =>
      show Good t₀ (q.onDiscChr e (.chr uuid defHandle valHandle notifies))
      unfold State.onDiscChr
      cases uuid with
      | none => exact hsame
      | some shortId => exact addChr_good hat h _
    | discChrsByUuid shortId =>
      show Good t₀ (q.onLookup e (.chr uuid defHandle valHandle notifies))
      unfold State.onLookup
      cases q.queue.head? with
      | none => exact hsame
      | some o => exact addChr_good hat h _
    | _ => exact hsame
  | dsc uuid handle =>
    cases p.call with
    | discAllDscs valHandle endHandle =>
      show Good t₀ (q.onDsc e (.dsc uuid handle))
      unfold State.onDsc
      dsimp only
      split_ifs
      · exact ⟨t, hat, h.of_core rfl rfl⟩
      · exact ⟨t, hat, h.of_core rfl rfl⟩
      · exact hsame
    | _ => exact hsame

theorem callback_final (hat : At t₀ q.log t) (h : Tidy t q) (e : Env) {k : ℕ} {p : Proc}
    (hp : q.procs[k]? = some p) (st : ℤ) (attr : Option (List Byte)) :
    Good t₀ (State.callback { q with procs := q.procs.eraseIdx k } e p (.final st attr)) := by
  unfold State.callback
  by_cases hg : p.gen ≠ q.gen
  · rw [if_pos hg]
    exact ⟨t, hat, h.stale hp hg⟩
  rw [if_neg hg]
  have hgen : p.gen = q.gen := not_not.mp hg
  cases h.loose with
  | idle h =>
    have hmem : p ∈ q.core.procs := List.mem_of_getElem? hp
    exact absurd hgen (Core.not_current h.current p hmem)
  | waits o c h =>
    obtain ⟨hcall, hstop⟩ := h.ended hp hgen st attr
    have hallow : t.allows (.final c st attr) := h.pending
    set q₁ : State := ({ q with procs := q.procs.eraseIdx k } : State).act (.final c st attr)
      with hq₁
    have hat₁ : At t₀ q₁.log (t.apply (.final c st attr)) := hat.cons (a := .final c st attr) hallow
    have hstop₁ : Stopped (t.apply (.final c st attr)) q₁.core o := hstop
    rw [hcall]
    cases c with
    | exchangeMtu => exact onMtu_good hstop₁ hat₁ h.notConn h.asks e
    | discAllChrs => exact onDiscChr_good hstop₁ hat₁ h.notConn e
    | discChrsByUuid shortId => exact onLookup_good hstop₁ hat₁ h.notConn h.asks e
    | discAllDscs valHandle endHandle => exact onDsc_good hstop₁ hat₁ h.notConn h.asks e
    | read handle => exact onRead_good hstop₁ hat₁ h.notConn e
    | write handle data => exact onWritten_good hstop₁ hat₁ h.notConn e

end OpenCalifornia.Transport
