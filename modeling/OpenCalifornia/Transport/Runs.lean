import OpenCalifornia.Transport.Order

/-! # Runs of the transport

Whatever the sink, NimBLE and the link do, every operation that the queue took is begun in its turn
and ends once, and the queue moves on. -/

namespace OpenCalifornia.Transport
open Lib Lib.Machine

abbrev Step := Record (Input × Env) (List Act) State

variable {log : List Act} {t : Track} {q q' : State} {e : Env} {tr : List Step}

/-- The operations that were accepted, in order. -/
def accepted : List Act → List GattOp
  | [] | .reset :: _ => []
  | .accept o :: log => accepted log ++ [o]
  | _ :: log => accepted log

/-- The operations that were begun, in order. -/
def begun : List Act → List GattOp
  | [] | .reset :: _ => []
  | .begin o :: log => begun log ++ [o]
  | _ :: log => begun log

/-- The acts that ended an operation, in order. -/
def endings : List Act → List Act
  | [] | .reset :: _ => []
  | .report r :: log => endings log ++ [.report r]
  | .ended o status :: log => endings log ++ [.ended o status]
  | _ :: log => endings log

/-- The procedures that ended. -/
def finals : List Act → ℕ
  | [] | .reset :: _ => 0
  | .final _ _ _ :: log => finals log + 1
  | _ :: log => finals log

/-- The act ends the operation: with its event, or without one if it was a subscription. -/
def GattOp.EndsBy (o : GattOp) : Act → Prop
  | .report r => ∃ status data, o.report status data = some r
  | .ended o' _ => o' = o ∧ o.kind = .sub
  | _ => False

/-- The number of procedures that may still end for the operation that runs. -/
def Said.left : Said → ℕ
  | .nothing => 2
  | .refused .exchangeMtu _ | .final .exchangeMtu _ _ | .final (.discChrsByUuid _) _ _
  | .final (.discAllDscs _ _) _ _ => 1
  | _ => 0

theorem Said.left_final {s : Said} {c : Call} (h : s.Leads c) (status : ℤ)
    (attr : Option (List Bits.Byte)) : (Said.final c status attr).left + 1 ≤ s.left := by
  cases s with
  | nothing => cases c <;> exact Nat.le_of_ble_eq_true rfl
  | refused c' rc => cases c' <;> cases c <;> first | exact h.elim | exact le_refl _
  | final c' status' attr' => cases c' <;> cases c <;> first | exact h.elim | exact le_refl _

theorem Said.left_refused (s : Said) {c : Call} (h : s.Leads c) (rc : ℤ) :
    (Said.refused c rc).left ≤ s.left := by
  have hfinal := Said.left_final h rc none
  have hle : (Said.refused c rc).left ≤ (Said.final c rc none).left := by
    cases c <;> first | exact le_refl _ | exact Nat.zero_le _
  omega

/-- What the rules say about the operations of a link, put together. -/
structure Ledger (log : List Act) (t : Track) : Prop where
  order : begun log <+: accepted log
  done : ∃ done, List.Forall₂ GattOp.EndsBy done (endings log) ∧ done <+: begun log ∧
    (t.notConn = false → begun log = done ++ t.running.toList ∧
      accepted log = begun log ++ t.waiting)
  leads : ∀ c, t.pending = some c → t.running.isSome = true ∧ t.said.Leads c
  budget : finals log + (if t.running.isSome then t.said.left else 0) ≤ 2 * (begun log).length

theorem Ledger.ended (h : Ledger log t) (hn : t.notConn = false) (hp : t.pending = none)
    {o : GattOp} (hr : t.running = some o) {a : Act} (ha : o.EndsBy a) {log' : List Act}
    (hlog : begun log' = begun log ∧ accepted log' = accepted log ∧ finals log' = finals log ∧
      endings log' = endings log ++ [a]) : Ledger log' { t with running := none } := by
  obtain ⟨hbegun', haccepted', hfinals', hendings'⟩ := hlog
  obtain ⟨done, hdone, -, hopen⟩ := h.done
  obtain ⟨hbegun, haccepted⟩ := hopen hn
  rw [hr, Option.toList_some] at hbegun
  constructor
  · rw [hbegun', haccepted']
    exact h.order
  · rw [hbegun', haccepted', hendings']
    refine ⟨done ++ [o], List.rel_append hdone (.cons ha .nil), hbegun ▸ List.prefix_refl _,
      fun _ => ⟨?_, haccepted⟩⟩
    rw [hbegun]
    exact (List.append_nil _).symm
  · intro c hc
    cases hp.symm.trans hc
  · rw [hbegun', hfinals']
    exact (Nat.le_add_right _ _).trans h.budget

theorem Ledger.step (h : Ledger log t) {a : Act} (ha : t.allows a) :
    Ledger (a :: log) (t.apply a) := by
  obtain ⟨horder, ⟨done, hdone, hprefix, hopen⟩, hleads, hfinals⟩ := h
  cases a with
  | connected => exact ⟨horder, ⟨done, hdone, hprefix, hopen⟩, hleads, hfinals⟩
  | disconnected reason => exact ⟨horder, ⟨done, hdone, hprefix, hopen⟩, hleads, hfinals⟩
  | underflow => exact ha.elim
  | reset =>
    exact ⟨List.nil_prefix, ⟨[], .nil, List.nil_prefix, fun _ => ⟨rfl, rfl⟩⟩,
      (by rintro _ ⟨⟩), le_refl _⟩
  | accept o =>
    refine ⟨horder.trans (List.prefix_append _ _), ⟨done, hdone, hprefix, fun hn => ?_⟩, hleads,
      hfinals⟩
    obtain ⟨hbegun, haccepted⟩ := hopen hn
    refine ⟨hbegun, ?_⟩
    show accepted log ++ [o] = begun log ++ (t.waiting ++ [o])
    rw [haccepted, List.append_assoc]
  | begin o =>
    obtain ⟨hn, hrun, hhead⟩ := ha
    obtain ⟨hbegun, haccepted⟩ := hopen hn
    have hwaiting : t.waiting = o :: t.waiting.tail := (List.cons_head?_tail hhead).symm
    have hsplit : accepted log = (begun log ++ [o]) ++ t.waiting.tail := by
      rw [haccepted, List.append_assoc, List.singleton_append, ← hwaiting]
    rw [hrun, Option.toList_none, List.append_nil] at hbegun
    rw [hrun] at hfinals
    refine ⟨⟨_, hsplit.symm⟩, ⟨done, hdone, hprefix.trans (List.prefix_append _ _),
      fun _ => ⟨?_, hsplit⟩⟩, fun c hc => ?_, ?_⟩
    · show begun log ++ [o] = done ++ [o]
      rw [hbegun]
    · have hsome := (hleads c hc).1
      rw [hrun] at hsome
      cases hsome
    · show finals log + 2 ≤ 2 * (begun log ++ [o]).length
      have hfinals' : finals log + 0 ≤ 2 * (begun log).length := hfinals
      rw [List.length_append, List.length_singleton]
      omega
  | start c rc =>
    obtain ⟨-, hlead, o, hrun, -⟩ := ha
    have hnot : (t.apply (.start c rc)).notConn = false → t.notConn = false := by
      intro hn
      by_contra hc
      exact of_decide_eq_false hn (.inl (by simpa using hc))
    rw [hrun] at hfinals
    have hfinals' : finals log + t.said.left ≤ 2 * (begun log).length := hfinals
    refine ⟨horder, ⟨done, hdone, hprefix, fun hn => hopen (hnot hn)⟩, fun c' hc => ?_, ?_⟩
    · by_cases hrc : rc = 0
      · obtain rfl : c = c' := Option.some.inj ((if_pos hrc).symm.trans hc)
        refine ⟨congrArg Option.isSome hrun, ?_⟩
        show Said.Leads (if rc = 0 then t.said else .refused c rc) c
        rw [if_pos hrc]
        exact hlead
      · cases (if_neg hrc).symm.trans hc
    · have hleft : Said.left (if rc = 0 then t.said else .refused c rc) ≤ t.said.left := by
        by_cases hrc : rc = 0
        · rw [if_pos hrc]
        · rw [if_neg hrc]
          exact Said.left_refused t.said hlead rc
      show finals log + (if t.running.isSome then _ else 0) ≤ 2 * (begun log).length
      rw [hrun]
      exact (Nat.add_le_add_left hleft _).trans hfinals'
  | final c status attr =>
    obtain ⟨hrun, hlead⟩ := hleads c ha
    have hnot : (t.apply (.final c status attr)).notConn = false → t.notConn = false := by
      intro hn
      by_contra hc
      exact of_decide_eq_false hn (.inl (by simpa using hc))
    rw [if_pos hrun] at hfinals
    refine ⟨horder, ⟨done, hdone, hprefix, fun hn => hopen (hnot hn)⟩, (by rintro _ ⟨⟩), ?_⟩
    have hleft := Said.left_final hlead status attr
    show finals log + 1 + (if t.running.isSome then (Said.final c status attr).left else 0) ≤
      2 * (begun log).length
    rw [if_pos hrun]
    omega
  | report r =>
    obtain ⟨hn, hpending, o, hrun, hreport⟩ := ha
    have hends : o.EndsBy (.report r) := ⟨_, _, hreport⟩
    exact .ended ⟨horder, ⟨done, hdone, hprefix, hopen⟩, hleads, hfinals⟩ hn hpending hrun hends
      ⟨rfl, rfl, rfl, rfl⟩
  | ended o status =>
    obtain ⟨hn, hpending, hrun, hkind, -⟩ := ha
    have hends : o.EndsBy (.ended o status) := ⟨rfl, hkind⟩
    exact .ended ⟨horder, ⟨done, hdone, hprefix, hopen⟩, hleads, hfinals⟩ hn hpending hrun hends
      ⟨rfl, rfl, rfl, rfl⟩
  | gone =>
    refine ⟨horder, ⟨done, hdone, hprefix, fun hn => ?_⟩, (by rintro _ ⟨⟩), ?_⟩
    · exact absurd ((show t.notConn = true from ha).symm.trans hn) (by rintro ⟨⟩)
    · exact (Nat.le_add_right _ _).trans hfinals

theorem At.ledger (h : At {} log t) : Ledger log t := by
  obtain ⟨hfits, rfl⟩ := h
  induction log with
  | nil =>
    exact ⟨List.nil_prefix, ⟨[], .nil, List.nil_prefix, fun _ => ⟨rfl, rfl⟩⟩,
      (by rintro _ ⟨⟩), le_refl _⟩
  | cons a log ih => exact (ih hfits.1).step hfits.2

theorem next_good {t₀ : Track} (hat : At t₀ q.log t) (h : Tidy t q) {i : Input}
    (hs : q.next e i = some q') : Good t₀ q' := by
  obtain ⟨hat₁, hidle⟩ := linkReset_idle hat h.loose.sorted
  have hreset : Tidy {} q.linkReset := ⟨.idle hidle, fun _ => .inl rfl⟩
  unfold State.next at hs
  cases i with
  | connected =>
    obtain ⟨-, hs⟩ := Option.ite_none_right_eq_some.mp hs
    obtain rfl := Option.some.inj hs
    refine ⟨_, hat₁.cons (a := .connected) ⟨rfl, rfl⟩, .idle ?_, fun _ => .inl rfl⟩
    exact { hidle with
      up := rfl
      off := fun _ => rfl }
  | lost reason =>
    obtain ⟨-, hs⟩ := Option.ite_none_right_eq_some.mp hs
    obtain rfl := Option.some.inj hs
    exact ⟨_, hat₁.cons (a := .disconnected reason) ⟨rfl, rfl⟩, hreset.of_core rfl rfl⟩
  | hostReset =>
    obtain ⟨-, hs⟩ := Option.ite_none_right_eq_some.mp hs
    obtain rfl := Option.some.inj hs
    exact ⟨_, hat₁, hreset⟩
  | disconnect =>
    obtain rfl := Option.some.inj hs
    split_ifs
    · exact ⟨_, hat₁, hreset⟩
    · exact ⟨t, hat, h⟩
  | cacheDrop =>
    obtain rfl := Option.some.inj hs
    exact ⟨t, hat, h.of_core rfl rfl⟩
  | request r =>
    obtain rfl := Option.some.inj hs
    exact request_good hat h e r
  | returned =>
    obtain ⟨-, hs⟩ := Option.ite_none_right_eq_some.mp hs
    obtain rfl := Option.some.inj hs
    exact kick_good (q := { q with depth := q.depth - 1 }) hat (h.loose.of_core rfl) e
  | callback k w =>
    dsimp only at hs
    cases hp : q.procs[k]? with
    | none =>
      rw [hp] at hs
      cases hs
    | some p =>
      rw [hp] at hs
      obtain ⟨-, hs⟩ := Option.ite_none_right_eq_some.mp hs
      obtain rfl := Option.some.inj hs
      cases w with
      | final status attr => exact callback_final hat h e hp status attr
      | _ => exact callback_item hat h e p rfl

theorem step_good (h : Tidy t q) {i : Input × Env} {out : List Act}
    (hs : step i q = some (out, q')) : ∃ t', At t out t' ∧ Tidy t' q' := by
  obtain ⟨q₁, hnext, heq⟩ := Option.map_eq_some_iff.mp hs
  obtain ⟨rfl, rfl⟩ := Prod.mk.inj heq
  exact next_good (q := { q with log := [], starts := 0 }) .start (h.of_core rfl rfl) hnext

/-- The acts of a run, the newest first. -/
def acts (tr : List Step) : List Act := tr.flatMap Record.out

theorem run_good (h : Run step {} tr q) : ∃ t, At {} (acts tr) t ∧ Tidy t q := by
  induction h with
  | nil =>
    refine ⟨{}, .start, .idle ?_, fun _ => .inl rfl⟩
    exact {
      up := rfl
      gone := rfl
      off := fun _ => rfl
      room := Nat.zero_le _
      sorted := List.forall_mem_nil _
      busy := rfl
      running := rfl
      waiting := rfl
      pending := rfl
      current := rfl }
  | cons hr hs ih =>
    obtain ⟨t, hat, htidy⟩ := ih
    obtain ⟨t', hat', htidy'⟩ := step_good htidy hs
    exact ⟨t', hat.append hat', htidy'⟩

/-- The rules of the queue, in a state that a run reaches. -/
structure QueueRules (tr : List Step) (q : State) : Prop where
  /-- Every act of the run was allowed when it came. -/
  rules : Track.monitor.Fits {} (acts tr)
  /-- The operations of the link are begun in the order that they were accepted in, none twice. -/
  order : begun (acts tr) <+: accepted (acts tr)
  /-- Of a link that has not answered "not connected" every operation has ended once or waits. -/
  once : q.dying = false → ∃ done, accepted (acts tr) = done ++ q.queue ∧
    List.Forall₂ GattOp.EndsBy done (endings (acts tr))
  /-- No operation asks for procedures forever. -/
  budget : finals (acts tr) ≤ 2 * (begun (acts tr)).length
  room : q.queue.length ≤ opq
  one : (q.procs.filter fun p => p.link = q.link).length ≤ 1
  /-- An operation has its procedure, or a sink goes on with the queue when it returns. -/
  moves : q.queue ≠ [] → 0 < q.depth ∨ ∃ p ∈ q.procs, p.link = q.link ∧ p.gen = q.gen

theorem Core.Sorted.outstanding {q : Core} (h : q.Sorted) :
    (q.procs.filter fun p => p.link = q.link).length = q.current.length := by
  have hsame : (q.procs.filter fun p => p.link = q.link) = q.procs.filter fun p => p.gen = q.gen :=
    List.filter_congr fun p hp => decide_eq_decide.mpr (h p hp).2.2
  unfold Core.current
  rw [hsame, List.length_map]

theorem Loose.one (h : Loose t q) : (q.procs.filter fun p => p.link = q.link).length ≤ 1 := by
  have hlen := h.sorted.outstanding
  cases h with
  | idle h =>
    rw [h.current] at hlen
    exact hlen.le.trans (Nat.zero_le 1)
  | waits o c h =>
    rw [h.current] at hlen
    exact hlen.le

theorem Waits.outstanding {o : GattOp} {c : Call} (h : Waits t q.core o c) :
    ∃ p ∈ q.procs, p.link = q.link ∧ p.gen = q.gen := by
  have hmem : c ∈ q.core.current := by
    rw [h.current]
    exact List.mem_singleton_self c
  obtain ⟨p, hp, -⟩ := List.mem_map.mp hmem
  obtain ⟨hproc, hgen⟩ := List.mem_filter.mp hp
  have hg : p.gen = q.gen := of_decide_eq_true hgen
  exact ⟨p, hproc, (h.sorted p hproc).2.2.mpr hg, hg⟩

theorem queueRules (hat : At {} (acts tr) t) (h : Tidy t q) : QueueRules tr q := by
  have hledger := hat.ledger
  obtain ⟨done, hdone, -, hopen⟩ := hledger.done
  have hroom : q.queue.length ≤ opq := by
    cases h.loose with
    | idle h => exact h.room
    | waits o c h => exact h.room
  have honce : q.dying = false → accepted (acts tr) = done ++ q.queue := by
    intro hd
    have hnot : t.notConn = false ∧ t.open_ = q.queue := by
      cases h.loose with
      | idle h => exact ⟨h.gone.trans hd, h.open_eq⟩
      | waits o c h => exact ⟨h.notConn, h.open_eq⟩
    obtain ⟨hbegun, haccepted⟩ := hopen hnot.1
    rw [haccepted, hbegun, List.append_assoc, ← hnot.2]
    rfl
  exact {
    rules := hat.fits
    order := hledger.order
    once := fun hd => ⟨done, honce hd, hdone⟩
    budget := (Nat.le_add_right _ _).trans hledger.budget
    room := hroom
    one := h.loose.one
    moves := fun hq => by
      cases h.loose with
      | idle hidle => exact .inl ((h.kick hidle.busy).resolve_left hq)
      | waits o c hwaits => exact .inr hwaits.outstanding }

theorem callback_stale (hs : q.core.Sorted) {k : ℕ} {w : Word} {out : List Act}
    (h : step (.callback k w, e) q = some (out, q')) {p : Proc} (hp : q.procs[k]? = some p)
    (hl : p.link ≠ q.link) : out = [] := by
  obtain ⟨q₁, hnext, heq⟩ := Option.map_eq_some_iff.mp h
  obtain ⟨rfl, -⟩ := Prod.mk.inj heq
  have hgen : p.gen ≠ q.gen := fun hg => hl ((hs p (List.mem_of_getElem? hp)).2.2.mpr hg)
  unfold State.next at hnext
  dsimp only at hnext
  rw [hp] at hnext
  obtain ⟨-, hnext⟩ := Option.ite_none_right_eq_some.mp hnext
  obtain rfl := Option.some.inj hnext
  have hdrop : ∀ q₂ : State, q₂.gen = q.gen → q₂.callback e p w = q₂ :=
    fun q₂ hg => if_pos (hg.symm ▸ hgen)
  rw [hdrop _ (by split_ifs <;> rfl)]
  split_ifs <;> rfl

/-- In every run, whatever the sink, NimBLE and the link do, the queue keeps its rules, and a
callback of an earlier link does nothing. -/
theorem queue_rules (h : Run step {} tr q) : QueueRules tr q ∧ ∀ r ∈ tr, ∀ k w p,
    r.inp.1 = .callback k w → r.pre.procs[k]? = some p → p.link ≠ r.pre.link → r.out = [] := by
  obtain ⟨t, hat, htidy⟩ := run_good h
  refine ⟨queueRules hat htidy, fun r hr k w p hi hp hl => ?_⟩
  obtain ⟨newer, older, rfl⟩ := List.append_of_mem hr
  obtain ⟨hpre, hstep⟩ := h.split newer
  obtain ⟨t', -, htidy'⟩ := run_good hpre
  obtain ⟨i, pre, out, post⟩ := r
  obtain ⟨i, e⟩ := i
  obtain rfl : i = .callback k w := hi
  exact callback_stale htidy'.loose.sorted hstep hp hl

/-- NimBLE starts whatever it is asked for. -/
def Env.willing : Env := ⟨fun _ => 0, none, fun _ h => absurd h (by decide)⟩

/-- A discovery, and a read that waits for it. -/
theorem queue_rules_discovery : ∃ tr q, Run step {} tr q ∧
    endings (acts tr) = [.report ⟨.discovered, 0, 0, []⟩, .report ⟨.read, 0, 0x1004, [7]⟩] ∧
    QueueRules tr q := by
  have hrun : Run step {} _ _ :=
    .cons (i := (.callback 0 (.final 0 (some [7])), .willing)) (.cons (i := (.returned, .willing))
      (.cons (i := (.callback 0 (.final eDone none), .willing))
        (.cons (i := (.callback 0 (.chr (some 0x1004) 2 3 true), .willing))
          (.cons (i := (.callback 0 (.final 0 none), .willing))
            (.cons (i := (.request (.read 0x1004), .willing))
              (.cons (i := (.request .discover, .willing))
                (.cons (i := (.connected, .willing)) .nil rfl) rfl) rfl) rfl) rfl) rfl) rfl) rfl
  exact ⟨_, _, hrun, rfl, (queue_rules hrun).1⟩

end OpenCalifornia.Transport
