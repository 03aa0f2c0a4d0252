import OpenCalifornia.Kv.Record
import OpenCalifornia.Sensors.Firmware

/-! # Edits of the list

What an edit does to the list that counts, whether the store lets it through or not. -/

namespace OpenCalifornia.Sensors
open Lib Lib.Machine

variable {F : Type} {env : Env F} {s s' : State F} {id row nowMs i : ℕ} {ok : Bool}
  {sensAlias keyHex : Option (List Char)} {c : Cfg} {l l' : List Cfg}

/-- What one edit makes of the list. -/
inductive Change (l : List Cfg) : List Cfg → Prop
  | add (c : Cfg) (hvalid : ValidAlias c.sensAlias)
      (hfresh : ∀ b ∈ l, b.sensAlias ≠ c.sensAlias) (hroom : l.length < sensMax)
      (hknown : c.type < types.length) : Change l (l ++ [c])
  | remove (i : ℕ) : Change l (l.eraseIdx i)
  | rename (i : ℕ) (x : Cfg) (a : List Char) (hx : l[i]? = some x) (hvalid : ValidAlias a)
      (hfresh : ∀ j b, l[j]? = some b → j ≠ i → b.sensAlias ≠ a) :
      Change l (l.set i { x with sensAlias := a })

theorem Change.configured (h : Change l l') (r : Configured) (hr : r.entries = l) :
    ∃ r' : Configured, r'.entries = l' := by
  subst hr
  cases h with
  | add c hvalid hfresh hroom => exact ⟨r.push c hvalid hfresh hroom, rfl⟩
  | remove i => exact ⟨r.remove i, rfl⟩
  | rename i x a _ hvalid hfresh => exact ⟨r.replace i _ hvalid hfresh, rfl⟩

theorem Change.forall_mem {P : Cfg → Prop} (h : Change l l') (hl : ∀ x ∈ l, P x)
    (hadd : ∀ c : Cfg, ValidAlias c.sensAlias → c.type < types.length → P c)
    (hname : ∀ (x : Cfg) a, P x → ValidAlias a → P { x with sensAlias := a }) :
    ∀ x ∈ l', P x := by
  intro x hx
  cases h with
  | add c hvalid _ _ hknown =>
    rw [List.mem_append, List.mem_singleton] at hx
    rcases hx with hx | rfl
    · exact hl x hx
    · exact hadd x hvalid hknown
  | remove i => exact hl x (List.mem_of_mem_eraseIdx hx)
  | rename i y a hy hvalid _ =>
    rcases List.mem_or_eq_of_mem_set hx with hx | rfl
    · exact hl x hx
    · exact hname y a (hl y (List.mem_of_getElem? hy)) hvalid

/-- An edit that got through. -/
structure Committed (s s' : State F) : Prop where
  change : Change s.cfg.list s'.cfg.list
  le : s'.cfg.n ≤ sensMax
  stored : s'.stored = some s'.cfg

/-- The list in memory and in the store is the one before. -/
structure Kept (s s' : State F) : Prop where
  list : s'.cfg.list = s.cfg.list
  le : s'.cfg.n ≤ sensMax
  stored : s'.stored = s.stored

/-- How an edit ends: it is through or nothing changed, and without the store it is not through. -/
structure Ends (s : State F) (ok : Bool) (r : Res × State F) : Prop where
  outcome : r.1 = .ok ∧ Committed s r.2 ∨ r.1 ≠ .ok ∧ Kept s r.2
  fails : ok = false → r.1 ≠ .ok

theorem Ends.refused {e : Res} (he : e ≠ .ok) (hs : s.cfg.n ≤ sensMax) : Ends s ok (e, s) :=
  ⟨Or.inr ⟨he, rfl, hs, rfl⟩, fun _ => he⟩

theorem Ends.failed {e : Res} (he : e ≠ .ok) (hs : Kept s s') : Ends s ok (e, s') :=
  ⟨Or.inr ⟨he, hs⟩, fun _ => he⟩

theorem Ends.done (hs : Committed s s') : Ends s true (.ok, s') :=
  ⟨Or.inl ⟨rfl, hs⟩, fun h => by cases h⟩

/-- What holds of the arrays between two calls. -/
structure Inv (s : State F) : Prop where
  le : s.cfg.n ≤ sensMax
  known : ∀ x ∈ s.cfg.list, x.type < types.length
  fits : ∀ x ∈ s.cfg.list, x.sensAlias.length ≤ 16
  same : (loadList s.stored).list = s.cfg.list
  length_seen : s.seen.length = sensMax
  type_seen : ∀ r ∈ s.seen, r.type < types.length

theorem aliasOk_spec {c : SensList} {a : List Char} {self : ℤ} (hn : c.n ≤ sensMax)
    (h : aliasOk c a self = true) :
    ValidAlias a ∧
      ∀ (j : ℕ) b, c.list[j]? = some b → (j : ℤ) ≠ self → b.sensAlias ≠ a := by
  rw [aliasOk, decide_eq_true_eq, List.all_eq_true] at h
  refine ⟨h.1, fun j b hb hj => ?_⟩
  have hlt : j < c.n := length_list hn ▸ (List.getElem?_eq_some_iff.mp hb).1
  rw [getElem?_list hn hlt] at hb
  obtain rfl := Option.some.inj hb
  have hor := of_decide_eq_true (h.2 j (List.mem_range.mpr hlt))
  exact hor.resolve_left hj

/-- An entry is made of a seen row, under an alias that is free, where there is room. -/
theorem newEntry_ok (h : newEntry s id sensAlias keyHex nowMs = .ok (row, c)) :
    ∃ r, s.seen[row]? = some r ∧ r.id ≠ 0 ∧ c.type = r.type ∧ c.addrType = r.addrType ∧
      c.addr = r.addr ∧ aliasOk s.cfg c.sensAlias (-1) = true ∧ s.cfg.n ≠ sensMax := by
  rw [newEntry] at h
  split at h
  · cases h
  · rename_i row' hrow
    obtain ⟨hlt, hr, -⟩ := List.findIdx?_eq_some_iff_getElem.mp hrow
    have hget : s.seen[row']? = some s.seen[row'] := List.getElem?_eq_getElem hlt
    rw [List.getD_eq_getElem?_getD, hget, Option.getD_some] at h
    dsimp only at h
    split at h
    · cases h
    · split_ifs at h with halias hkey hmis hfull
      rw [Except.ok.injEq, Prod.mk.injEq] at h
      obtain ⟨rfl, rfl⟩ := h
      rw [decide_eq_true_eq] at hr
      exact ⟨_, hget, hr.1, rfl, rfl, rfl, by simpa using halias, hfull⟩

theorem newEntry_error {e : Res} (h : newEntry s id sensAlias keyHex nowMs = .error e) :
    e ≠ .ok := by
  rintro rfl
  rw [newEntry] at h
  split at h
  · cases h
  · dsimp only at h
    split at h
    · cases h
    · split_ifs at h <;> cases h

theorem add_ends (hs : Inv s) (id : ℕ) (sensAlias keyHex : Option (List Char)) (nowMs : ℕ)
    (ok : Bool) : Ends s ok (add s id sensAlias keyHex nowMs ok) := by
  rw [add]
  split
  · rename_i e he
    exact .refused (newEntry_error he) hs.le
  · rename_i row c hc
    obtain ⟨r, hrow, -, htype, -, -, halias, hfull⟩ := newEntry_ok hc
    have hroom : s.cfg.n < sensMax := by
      have := hs.le
      omega
    obtain ⟨hvalid, hfresh⟩ := aliasOk_spec hs.le halias
    cases ok with
    | false =>
      refine .failed (by decide) ⟨list_pop_push s.cfg c, ?_, rfl⟩
      simp only [store, SensList.push, SensList.pop, Bool.false_eq_true, if_false]
      exact hs.le
    | true =>
      refine .done ⟨?_, hroom, rfl⟩
      simp only [store, if_true]
      rw [list_push hroom]
      refine .add c hvalid (fun b hb => ?_) (by rw [length_list hs.le]; exact hroom) ?_
      · obtain ⟨j, hj⟩ := List.mem_iff_getElem?.mp hb
        exact hfresh j b hj (by omega)
      · rw [htype]
        exact hs.type_seen r (List.mem_of_getElem? hrow)

theorem cfgById_lt (h : cfgById env s id = some i) : i < s.cfg.n :=
  List.mem_range.mp (List.mem_of_find?_eq_some h)

theorem remove_ends (env : Env F) (hs : Inv s) (id : ℕ) (ok : Bool) :
    Ends s ok (remove env s id ok) := by
  rw [remove]
  split
  · exact .refused (by decide) hs.le
  · rename_i i hi
    have hlt := cfgById_lt hi
    cases ok with
    | false => exact .failed (by decide) ⟨hs.same, loadList_le _, rfl⟩
    | true =>
      refine .done ⟨?_, Nat.le_trans (Nat.sub_le _ _) hs.le, rfl⟩
      simp only [store, if_true]
      rw [list_removeAt hs.le hlt]
      exact .remove i

theorem rename_ends (env : Env F) (hs : Inv s) (id : ℕ) (sensAlias : Option (List Char))
    (ok : Bool) : Ends s ok (rename env s id sensAlias ok) := by
  unfold rename
  split
  · exact .refused (by decide) hs.le
  · exact .refused (by decide) hs.le
  · rename_i i a hi
    have hlt := cfgById_lt hi
    by_cases halias : aliasOk s.cfg a i = true
    · rw [if_neg (by rw [halias]; decide)]
      obtain ⟨hvalid, hfresh⟩ := aliasOk_spec hs.le halias
      cases ok with
      | false =>
        refine .failed (by decide) ⟨?_, ?_, rfl⟩ <;> simp only [store, Bool.false_eq_true,
          if_false] <;>
          rw [setAlias_setAlias (Nat.lt_of_lt_of_le hlt hs.le)]
        exact hs.le
      | true =>
        refine .done ⟨?_, hs.le, rfl⟩
        simp only [store, if_true, SensList.setAlias]
        rw [list_put]
        exact .rename i _ a (getElem?_list hs.le hlt) hvalid fun j b hb hj =>
          hfresh j b hb (by omega)
    · rw [if_pos (by simpa using halias)]
      exact .refused (by decide) hs.le

/-- A sensor that is added leaves the seen table; otherwise an edit does not change the table. -/
theorem add_seen (s : State F) (id : ℕ) (sensAlias keyHex : Option (List Char)) (nowMs : ℕ)
    (ok : Bool) : (add s id sensAlias keyHex nowMs ok).1 ≠ .ok ∧
        (add s id sensAlias keyHex nowMs ok).2.seen = s.seen ∨
      ∃ row r c, s.seen[row]? = some r ∧ r.id ≠ 0 ∧ c.type = r.type ∧ c.addrType = r.addrType ∧
        c.addr = r.addr ∧ s.cfg.n ≠ sensMax ∧
        (add s id sensAlias keyHex nowMs ok).2.cfg = s.cfg.push c ∧
        (add s id sensAlias keyHex nowMs ok).2.seen = s.seen.set row { r with id := 0 } := by
  rw [add]
  split
  · rename_i e he
    exact Or.inl ⟨newEntry_error he, rfl⟩
  · rename_i row c hc
    obtain ⟨r, hrow, hid, htype, haddrType, haddr, -, hfull⟩ := newEntry_ok hc
    cases ok with
    | false => exact Or.inl ⟨show Res.store ≠ Res.ok by decide, rfl⟩
    | true =>
      refine Or.inr ⟨row, r, c, hrow, hid, htype, haddrType, haddr, hfull, rfl, ?_⟩
      simp only [store, if_true, List.getD_eq_getElem?_getD, hrow, Option.getD_some,
        Bool.true_eq_false, if_false]

theorem remove_seen (env : Env F) (s : State F) (id : ℕ) (ok : Bool) :
    (remove env s id ok).2.seen = s.seen := by
  rw [remove]
  split
  · rfl
  · cases ok <;> rfl

theorem rename_seen (env : Env F) (s : State F) (id : ℕ) (sensAlias : Option (List Char))
    (ok : Bool) : (rename env s id sensAlias ok).2.seen = s.seen := by
  unfold rename
  split
  · rfl
  · rfl
  · split_ifs
    · rfl
    · cases ok <;> rfl

theorem reading_keeps (env : Env F) (s : State F) (i : ℕ) (e : Advert) (ty nowMs : ℕ) :
    (reading env s i e ty nowMs).2.cfg = s.cfg ∧ (reading env s i e ty nowMs).2.stored = s.stored ∧
      (reading env s i e ty nowMs).2.seen = s.seen := by
  dsimp only [reading]
  split
  · exact ⟨rfl, rfl, rfl⟩
  · split_ifs <;> exact ⟨rfl, rfl, rfl⟩

/-- An advert of a configured sensor, or of none, leaves the table as it is; any other one is
written where the scan of the rows ends. -/
theorem onAdv_seen (env : Env F) (s : State F) (e : Advert) (nowMs : ℕ) :
    (onAdv env s e nowMs).2.seen =
      match typeOf e.data, env.parseAddr e.addr with
      | some ty, some addr =>
        if ((List.range s.cfg.n).find? fun i => (s.cfg.at' i).sends e ty addr).isSome then s.seen
        else s.seen.set (seenRows.pick ((e.status % 256).toNat, addr) s.seen)
          (seenRow env e ty addr nowMs)
      | _, _ => s.seen := by
  unfold onAdv
  cases typeOf e.data with
  | none => rfl
  | some ty =>
    cases env.parseAddr e.addr with
    | none => rfl
    | some addr =>
      dsimp only
      cases (List.range s.cfg.n).find? fun i => (s.cfg.at' i).sends e ty addr with
      | none => rfl
      | some i =>
        rw [Option.isSome_some, if_pos rfl]
        exact (reading_keeps env s i e ty nowMs).2.2

theorem onAdv_cfg (env : Env F) (s : State F) (e : Advert) (nowMs : ℕ) :
    (onAdv env s e nowMs).2.cfg = s.cfg ∧ (onAdv env s e nowMs).2.stored = s.stored := by
  unfold onAdv
  split
  · split
    · rename_i ty addr _ _ _ i _
      have hkeeps := reading_keeps env s i e ty nowMs
      exact ⟨hkeeps.1, hkeeps.2.1⟩
    · exact ⟨rfl, rfl⟩
  · exact ⟨rfl, rfl⟩

theorem typeOf_lt {adv : List ℕ} {ty : ℕ} (h : typeOf adv = some ty) : ty < types.length := by
  rw [typeOf] at h
  split_ifs at h
  exact (List.findIdx?_eq_some_iff_getElem.mp h).1

theorem Ends.keeps {r : Res × State F} (h : Ends s ok r) (hs : Inv s)
    (hlen : r.2.seen.length = sensMax) (htype : ∀ x ∈ r.2.seen, x.type < types.length) :
    Inv r.2 := by
  rcases h.outcome with ⟨-, hc⟩ | ⟨-, hk⟩
  · have hknown : ∀ x ∈ r.2.cfg.list, x.type < types.length :=
      hc.change.forall_mem hs.known (fun _ _ h => h) fun _ _ h _ => h
    have hfits : ∀ x ∈ r.2.cfg.list, x.sensAlias.length ≤ 16 :=
      hc.change.forall_mem hs.fits (fun _ h _ => h.2.1) fun _ _ _ h => h.2.1
    refine ⟨hc.le, hknown, hfits, ?_, hlen, htype⟩
    rw [hc.stored]
    exact loadList_eq hc.le hknown hfits
  · refine ⟨hk.le, ?_, ?_, ?_, hlen, htype⟩
    · rw [hk.list]
      exact hs.known
    · rw [hk.list]
      exact hs.fits
    · rw [hk.stored, hk.list]
      exact hs.same

theorem inv_init (s : State F) : Inv (init s) where
  le := loadList_le _
  known := loadList_known
  fits := by
    intro x hx
    rw [init, load, list_loadList, List.mem_map] at hx
    obtain ⟨y, -, rfl⟩ := hx
    exact List.length_take_le _ _
  same := rfl
  length_seen := List.length_replicate
  type_seen := by
    intro r hr
    rw [(List.mem_replicate.mp hr).2]
    decide

theorem Inv.set_seen {seen : List SeenRow} (hs : Inv s) {r : SeenRow} (hr : r.type < types.length)
    (h : seen = s.seen.set row r) :
    seen.length = sensMax ∧ ∀ x ∈ seen, x.type < types.length := by
  subst h
  refine ⟨by rw [List.length_set, hs.length_seen], fun x hx => ?_⟩
  rcases List.mem_or_eq_of_mem_set hx with hx | rfl
  · exact hs.type_seen x hx
  · exact hr

theorem inv_onAdv (hs : Inv s) (e : Advert) (nowMs : ℕ) : Inv (onAdv env s e nowMs).2 := by
  obtain ⟨hcfg, hstored⟩ := onAdv_cfg env s e nowMs
  have hseen := onAdv_seen env s e nowMs
  have htable : (onAdv env s e nowMs).2.seen.length = sensMax ∧
      ∀ x ∈ (onAdv env s e nowMs).2.seen, x.type < types.length := by
    split at hseen
    · rename_i ty addr hty _
      split_ifs at hseen
      · rw [hseen]
        exact ⟨hs.length_seen, hs.type_seen⟩
      · exact hs.set_seen (typeOf_lt hty) hseen
    · rw [hseen]
      exact ⟨hs.length_seen, hs.type_seen⟩
  refine ⟨?_, ?_, ?_, ?_, htable.1, htable.2⟩
  · rw [hcfg]
    exact hs.le
  · rw [hcfg]
    exact hs.known
  · rw [hcfg]
    exact hs.fits
  · rw [hcfg, hstored]
    exact hs.same

theorem inv_add (hs : Inv s) (id : ℕ) (sensAlias keyHex : Option (List Char)) (nowMs : ℕ)
    (ok : Bool) : Inv (add s id sensAlias keyHex nowMs ok).2 := by
  have hends := add_ends hs id sensAlias keyHex nowMs ok
  rcases add_seen s id sensAlias keyHex nowMs ok with ⟨-, hseen⟩ | ⟨row, r, c,
    hr, -, -, -, -, -, -, hseen⟩
  · exact hends.keeps hs (by rw [hseen]; exact hs.length_seen) (by rw [hseen]; exact hs.type_seen)
  · have htype : ({ r with id := 0 } : SeenRow).type < types.length :=
      hs.type_seen r (List.mem_of_getElem? hr)
    have htable := hs.set_seen htype hseen
    exact hends.keeps hs htable.1 htable.2

theorem inv_step {op : Op} {o : Res} (hs : Inv s) (h : step env op s = some (o, s')) : Inv s' := by
  cases op with
  | adv e nowMs =>
    obtain ⟨rfl, rfl⟩ := Prod.mk.inj (Option.some.inj h)
    exact inv_onAdv hs e nowMs
  | add id a k nowMs ok =>
    have hr : add s id a k nowMs ok = (o, s') := Option.some.inj h
    have hinv := inv_add hs id a k nowMs ok
    rwa [hr] at hinv
  | remove id ok =>
    have hr : remove env s id ok = (o, s') := Option.some.inj h
    have hseen := remove_seen env s id ok
    have hinv := (remove_ends env hs id ok).keeps hs (by rw [hseen]; exact hs.length_seen)
      (by rw [hseen]; exact hs.type_seen)
    rwa [hr] at hinv
  | rename id a ok =>
    have hr : rename env s id a ok = (o, s') := Option.some.inj h
    have hseen := rename_seen env s id a ok
    have hinv := (rename_ends env hs id a ok).keeps hs
      (by rw [hseen]; exact hs.length_seen) (by rw [hseen]; exact hs.type_seen)
    rwa [hr] at hinv
  | restart =>
    obtain ⟨rfl, rfl⟩ := Prod.mk.inj (Option.some.inj h)
    exact inv_init s

/-- An edit's word on the flash. -/
def Op.written : Op → Option Bool
  | .add _ _ _ _ ok => some ok
  | .remove _ ok => some ok
  | .rename _ _ ok => some ok
  | _ => none

theorem step_ends {op : Op} {o : Res} (hs : Inv s) (h : step env op s = some (o, s'))
    (hop : op.written = some ok) : Ends s ok (o, s') := by
  cases op with
  | adv e nowMs => cases hop
  | restart => cases hop
  | add id a k nowMs ok' =>
    cases hop
    rw [← Option.some.inj h]
    exact add_ends hs id a k nowMs ok
  | remove id ok' =>
    cases hop
    rw [← Option.some.inj h]
    exact remove_ends env hs id ok
  | rename id a ok' =>
    cases hop
    rw [← Option.some.inj h]
    exact rename_ends env hs id a ok

theorem step_list {op : Op} {o : Res} (hs : Inv s) (h : step env op s = some (o, s'))
    (hop : op.written = none) : s'.cfg.list = s.cfg.list ∧ s'.stored = s.stored := by
  cases op with
  | adv e nowMs =>
    obtain ⟨rfl, rfl⟩ := Prod.mk.inj (Option.some.inj h)
    obtain ⟨hcfg, hstored⟩ := onAdv_cfg env s e nowMs
    exact ⟨by rw [hcfg], hstored⟩
  | restart =>
    obtain ⟨rfl, rfl⟩ := Prod.mk.inj (Option.some.inj h)
    exact ⟨hs.same, rfl⟩
  | add => cases hop
  | remove => cases hop
  | rename => cases hop

theorem run_inv {stored : Option SensList} {tr : List (Record Op Res (State F))}
    (h : Run (step env) (boot stored) tr s) : Inv s :=
  h.invariant (inv_init _) fun _ _ _ _ hs => inv_step hs

/-- A list as it should be. -/
structure SensList.Good (c : SensList) : Prop where
  valid : ∀ x ∈ c.list, ValidAlias x.sensAlias
  unique : (c.list.map Cfg.sensAlias).Nodup
  le : c.n ≤ sensMax

theorem good_iff {c : SensList} : c.Good ↔ c.n ≤ sensMax ∧
    ∃ r : Configured, r.entries = c.list := by
  constructor
  · intro h
    refine ⟨h.le, ⟨c.list, h.valid, h.unique, ?_⟩, rfl⟩
    rw [length_list h.le]
    exact h.le
  · rintro ⟨hn, r, hr⟩
    refine ⟨?_, ?_, hn⟩
    · rw [← hr]
      exact r.valid_name
    · rw [← hr]
      exact r.nodup

theorem good_step {op : Op} {o : Res} (hs : Inv s) (hgood : s.cfg.Good)
    (h : step env op s = some (o, s')) : s'.cfg.Good := by
  have hle := (inv_step hs h).le
  obtain ⟨-, r, hr⟩ := good_iff.mp hgood
  refine good_iff.mpr ⟨hle, ?_⟩
  cases hop : op.written with
  | none => exact ⟨r, hr.trans (step_list hs h hop).1.symm⟩
  | some ok =>
    rcases (step_ends hs h hop).outcome with ⟨-, hc⟩ | ⟨-, hk⟩
    · exact hc.change.configured r hr
    · exact ⟨r, hr.trans hk.list.symm⟩

/-- From a list as it should be, every run of adverts, edits and restarts keeps it so, in memory as
in the store. An edit that is not through, as none is without the store, leaves both as they were.
-/
theorem list_edits {stored : Option SensList} {tr : List (Record Op Res (State F))}
    (hstored : (loadList stored).Good) (h : Run (step env) (boot stored) tr s) :
    s.cfg.Good ∧ (loadList s.stored).list = s.cfg.list ∧
      ∀ r ∈ tr, ∀ ok, r.inp.written = some ok →
        (ok = false → r.out ≠ .ok) ∧
          (r.out ≠ .ok → r.post.cfg.list = r.pre.cfg.list ∧ r.post.stored = r.pre.stored) := by
  have hinv := run_inv h
  have hgood : s.cfg.Good := by
    induction h with
    | nil => exact hstored
    | cons hr hs ih => exact good_step (run_inv hr) (ih (run_inv hr)) hs
  refine ⟨hgood, hinv.same, fun r hr ok hok => ?_⟩
  obtain ⟨⟨_, hpre⟩, hstep⟩ := h.mem hr
  have hends := step_ends (run_inv hpre) hstep hok
  refine ⟨hends.fails, fun hout => ?_⟩
  rcases hends.outcome with ⟨hok', -⟩ | ⟨-, hk⟩
  · exact absurd hok' hout
  · exact ⟨hk.list, hk.stored⟩

/-- An advert of the thermo-hygrometer at an address. -/
def goveeAdvert (addr : String) : Advert :=
  ⟨[0x88, 0xEC, 0, 1, 2, 3, 4, 5], 1, addr, -60, "GVH5075_EEFF".toList⟩

def goveeEnv : Env Unit where
  crc32 addr := (Kv.caliCrc32 0 (addr.map (BitVec.ofNat 8))).toNat
  parseAddr s := some ((keyBytes (s.toList.filter (· ≠ ':'))).take 6)
  decode _ _ _ := some [(), (), ()]
  fmtNum _ := none

/-- Three sensors are seen and added. Removing one of them fails, so do a name that is taken and one
that is not stored, then another one is removed. The newest call is first. -/
def goveeOps : List Op :=
  [.restart, .remove 45831 true, .rename 53803 (some "pantry".toList) false,
    .rename 53803 (some "bunk".toList) true, .remove 58045 false,
    .add 53803 (some "fridge".toList) none 2000 true,
    .add 58045 (some "bunk".toList) none 2000 true,
    .add 45831 none none 2000 true, .adv (goveeAdvert "AA:BB:CC:DD:EE:03") 1200,
    .adv (goveeAdvert "AA:BB:CC:DD:EE:02") 1100, .adv (goveeAdvert "AA:BB:CC:DD:EE:01") 1000]

set_option maxRecDepth 2000 in
theorem list_edits_govee :
    ∃ tr s, exec (step goveeEnv) (boot none) goveeOps = some (tr, s) ∧
      tr.map Record.out = [.ok, .ok, .store, .alias, .store, .ok, .ok, .ok, .ok, .ok, .ok] ∧
      tr.map (fun r => r.post.cfg.list.length) = [2, 2, 3, 3, 3, 3, 2, 1, 0, 0, 0] ∧
      s.cfg.list.map Cfg.sensAlias = ["bunk".toList, "fridge".toList] ∧ s.cfg.Good ∧
      (loadList s.stored).list = s.cfg.list ∧
      ∀ r ∈ tr, ∀ ok, r.inp.written = some ok →
        (ok = false → r.out ≠ .ok) ∧
          (r.out ≠ .ok → r.post.cfg.list = r.pre.cfg.list ∧ r.post.stored = r.pre.stored) := by
  have hend : (exec (step goveeEnv) (boot none) goveeOps).map (fun r => (r.1.map Record.out,
      r.1.map (fun r => r.post.cfg.list.length), r.2.cfg.list.map Cfg.sensAlias)) =
      some ([.ok, .ok, .store, .alias, .store, .ok, .ok, .ok, .ok, .ok, .ok],
        [2, 2, 3, 3, 3, 3, 2, 1, 0, 0, 0], ["bunk".toList, "fridge".toList]) := by decide
  obtain ⟨tr, s, hexec, hrun, -, hend⟩ := run_of_view hend
  obtain ⟨hout, hend⟩ := Prod.mk.inj hend
  obtain ⟨hlen, halias⟩ := Prod.mk.inj hend
  refine ⟨tr, s, hexec, hout, hlen, halias, list_edits ?_ hrun⟩
  exact ⟨by decide, by decide, by decide⟩

end OpenCalifornia.Sensors
