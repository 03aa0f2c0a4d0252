import OpenCalifornia.Sensors.Edits

/-! # The seen table

A row in use is for one address of one address type, and none is for a configured sensor, whatever
adverts come and however the list is edited between them. -/

namespace OpenCalifornia.Sensors
open Lib Lib.Machine

variable {F : Type} {env : Env F} {s s' : State F} {id row nowMs : ℕ} {ok : Bool} {r : SeenRow}

/-- The sensor that the row has seen. -/
def Cfg.seenIn (c : Cfg) (r : SeenRow) : Prop :=
  r.id ≠ 0 ∧ c.type = r.type ∧ c.addrType = r.addrType ∧ c.addr = r.addr

/-- What holds of the seen table between two calls. -/
structure SeenInv (s : State F) : Prop where
  unique : seenRows.Unique s.seen
  apart : ∀ r ∈ s.seen, ∀ c ∈ s.cfg.list, ¬ c.seenIn r

theorem hit_iff {at' : ℕ} {addr : List ℕ} :
    seenRows.Hit (at', addr) r ↔ r.id ≠ 0 ∧ r.addrType = at' ∧ r.addr = addr := by
  simp only [Cache.Hit, seenRows, decide_eq_true_eq, Prod.mk.injEq]

theorem find_sends {e : Advert} {ty : ℕ} {addr : List ℕ} (hn : s.cfg.n ≤ sensMax) :
    ((List.range s.cfg.n).find? fun i => (s.cfg.at' i).sends e ty addr).isSome = true ↔
      ∃ c ∈ s.cfg.list, c.sends e ty addr = true := by
  rw [List.find?_isSome]
  constructor
  · rintro ⟨i, hi, hc⟩
    exact ⟨_, (mem_list hn).mpr ⟨i, List.mem_range.mp hi, rfl⟩, hc⟩
  · rintro ⟨c, hc, hsends⟩
    obtain ⟨i, hi, rfl⟩ := (mem_list hn).mp hc
    exact ⟨i, List.mem_range.mpr hi, hsends⟩

/-- What an advert does to the table. A row for its address is the one that has it, else a free one,
else the oldest. -/
def AdvertSeen (env : Env F) (e : Advert) (nowMs : ℕ) (s s' : State F) : Prop :=
  match typeOf e.data, env.parseAddr e.addr with
  | some ty, some addr =>
    if ∃ c ∈ s.cfg.list, c.sends e ty addr = true then s'.seen = s.seen
    else
      ∃ row x, s.seen[row]? = some x ∧ s'.seen = s.seen.set row (seenRow env e ty addr nowMs) ∧
        (x.id ≠ 0 ∧ x.addrType = (e.status % 256).toNat ∧ x.addr = addr ∨
          (∀ r ∈ s.seen, ¬ (r.id ≠ 0 ∧ r.addrType = (e.status % 256).toNat ∧ r.addr = addr)) ∧
            (x.id = 0 ∨ ∀ r ∈ s.seen, r.id ≠ 0 ∧ x.atMs ≤ r.atMs))
  | _, _ => s'.seen = s.seen

theorem place_iff {addrType : ℕ} {addr : List ℕ} {rows : List SeenRow} {x : SeenRow} :
    seenRows.Place (addrType, addr) rows x ↔
      x.id ≠ 0 ∧ x.addrType = addrType ∧ x.addr = addr ∨
        (∀ r ∈ rows, ¬ (r.id ≠ 0 ∧ r.addrType = addrType ∧ r.addr = addr)) ∧
          (x.id = 0 ∨ ∀ r ∈ rows, r.id ≠ 0 ∧ x.atMs ≤ r.atMs) := by
  simp only [Cache.Place, Cache.Best, hit_iff]
  simp only [seenRows, decide_eq_true_eq, decide_eq_false_iff_not, not_not]

theorem pick_seen (hs : Inv s) (addrType : ℕ) (addr : List ℕ) :
    ∃ x, s.seen[seenRows.pick (addrType, addr) s.seen]? = some x ∧
      seenRows.Place (addrType, addr) s.seen x := by
  refine Cache.pick_spec fun hnil => ?_
  have hlen := hs.length_seen
  rw [hnil] at hlen
  cases hlen

theorem advertSeen_onAdv (env : Env F) (hs : Inv s) (e : Advert) (nowMs : ℕ) :
    AdvertSeen env e nowMs s (onAdv env s e nowMs).2 := by
  have hseen := onAdv_seen env s e nowMs
  unfold AdvertSeen
  split
  · rename_i ty addr hty haddr
    simp only [hty, haddr] at hseen
    by_cases hc : ∃ c ∈ s.cfg.list, c.sends e ty addr = true
    · rw [if_pos hc]
      rw [if_pos ((find_sends hs.le).mpr hc)] at hseen
      exact hseen
    · rw [if_neg hc]
      rw [if_neg fun h => hc ((find_sends hs.le).mp h)] at hseen
      obtain ⟨x, hx, hplace⟩ := pick_seen hs (e.status % 256).toNat addr
      exact ⟨_, x, hx, hseen, place_iff.mp hplace⟩
  · rename_i hnone
    split at hseen
    · rename_i ty addr hty haddr
      exact absurd haddr fun h => hnone ty addr hty h
    · exact hseen

theorem seenInv_onAdv (hs : Inv s) (hseen : SeenInv s) (e : Advert) (nowMs : ℕ) :
    SeenInv (onAdv env s e nowMs).2 := by
  have hcfg := (onAdv_cfg env s e nowMs).1
  have hadv := advertSeen_onAdv env hs e nowMs
  generalize (onAdv env s e nowMs).2 = s' at hcfg hadv ⊢
  have hsame : s'.seen = s.seen → SeenInv s' := fun h =>
    ⟨by rw [h]; exact hseen.unique, by rw [h, hcfg]; exact hseen.apart⟩
  unfold AdvertSeen at hadv
  split at hadv
  · rename_i ty addr hty haddr
    split_ifs at hadv with hc
    · exact hsame hadv
    · obtain ⟨row, x, hx, hset, hplace⟩ := hadv
      refine ⟨?_, ?_⟩
      · rw [hset]
        exact hseen.unique.set_place hx (place_iff.mpr hplace) rfl
      · rw [hset, hcfg]
        intro r hr c hcl hin
        rcases List.mem_or_eq_of_mem_set hr with hr | rfl
        · exact hseen.apart r hr c hcl hin
        · refine hc ⟨c, hcl, ?_⟩
          rw [Cfg.sends, decide_eq_true_eq]
          exact hin.2
  · exact hsame hadv

theorem seenInv_add (hs : Inv s) (hseen : SeenInv s) (id : ℕ)
    (sensAlias keyHex : Option (List Char))
    (nowMs : ℕ) (ok : Bool) : SeenInv (add s id sensAlias keyHex nowMs ok).2 := by
  rcases add_seen s id sensAlias keyHex nowMs ok with
    ⟨hno, hsame⟩ | ⟨row, r, c, hr, hid, htype, haddrType, haddr, hfull, hcfg, hset⟩
  · have hlist : (add s id sensAlias keyHex nowMs ok).2.cfg.list = s.cfg.list := by
      rcases (add_ends hs id sensAlias keyHex nowMs ok).outcome with ⟨hyes, -⟩ | ⟨-, hk⟩
      · exact absurd hyes hno
      · exact hk.list
    exact ⟨by rw [hsame]; exact hseen.unique, by rw [hsame, hlist]; exact hseen.apart⟩
  · have hle := hs.le
    refine ⟨?_, ?_⟩
    · rw [hset]
      exact hseen.unique.set_free row rfl
    · rw [hset, hcfg, list_push (by omega)]
      intro y hy d hd hin
      obtain ⟨j, hj⟩ := List.mem_iff_getElem?.mp hy
      rcases Cache.getElem?_set_cases hj with ⟨-, rfl⟩ | ⟨hne, hj⟩
      · exact hin.1 rfl
      · rw [List.mem_append, List.mem_singleton] at hd
        rcases hd with hd | rfl
        · exact hseen.apart y (List.mem_of_getElem? hj) d hd hin
        · have hhit : seenRows.Hit (r.addrType, r.addr) y :=
            hit_iff.mpr ⟨hin.1, hin.2.2.1.symm.trans haddrType, hin.2.2.2.symm.trans haddr⟩
          exact hne (hseen.unique row j r y hr hj (decide_eq_true hid) hhit).symm

theorem remove_list (env : Env F) (hs : Inv s) (id : ℕ) (ok : Bool) :
    ∀ c ∈ (remove env s id ok).2.cfg.list, c ∈ s.cfg.list := by
  intro c hc
  rcases (remove_ends env hs id ok).outcome with ⟨hyes, -⟩ | ⟨-, hk⟩
  · rw [remove] at hyes hc
    split at hyes
    · cases hyes
    · rename_i i hi
      cases ok with
      | false => cases hyes
      | true =>
        simp only [hi, store, if_true, Bool.true_eq_false, if_false] at hc
        rw [list_removeAt hs.le (cfgById_lt hi)] at hc
        exact List.mem_of_mem_eraseIdx hc
  · rwa [hk.list] at hc

theorem rename_list (env : Env F) (hs : Inv s) (id : ℕ) (sensAlias : Option (List Char))
    (ok : Bool) : ∀ c ∈ (rename env s id sensAlias ok).2.cfg.list, ∃ d ∈ s.cfg.list,
      c = { d with sensAlias := c.sensAlias } := by
  intro c hc
  rcases (rename_ends env hs id sensAlias ok).outcome with ⟨hyes, -⟩ | ⟨-, hk⟩
  · unfold rename at hyes hc
    split at hyes
    · cases hyes
    · cases hyes
    · rename_i i a hi
      by_cases halias : aliasOk s.cfg a i = false
      · rw [if_pos halias] at hyes
        cases hyes
      · rw [if_neg halias] at hyes
        cases ok with
        | false => cases hyes
        | true =>
          simp only [hi, if_neg halias, store, if_true, Bool.true_eq_false, if_false,
            SensList.setAlias] at hc
          rw [list_put] at hc
          rcases List.mem_or_eq_of_mem_set hc with hc | rfl
          · exact ⟨c, hc, rfl⟩
          · exact ⟨_, (mem_list hs.le).mpr ⟨i, cfgById_lt hi, rfl⟩, rfl⟩
  · rw [hk.list] at hc
    exact ⟨c, hc, rfl⟩

theorem seenInv_init (s : State F) : SeenInv (init s) where
  unique := Cache.unique_free fun r hr => by
    rw [(List.mem_replicate.mp hr).2]
    rfl
  apart := by
    intro r hr c _ hin
    rw [(List.mem_replicate.mp hr).2] at hin
    exact hin.1 rfl

theorem seenInv_step {op : Op} {o : Res} (hs : Inv s) (hseen : SeenInv s)
    (h : step env op s = some (o, s')) : SeenInv s' := by
  cases op with
  | adv e nowMs =>
    obtain ⟨rfl, rfl⟩ := Prod.mk.inj (Option.some.inj h)
    exact seenInv_onAdv hs hseen e nowMs
  | add id a k nowMs ok =>
    have hr : add s id a k nowMs ok = (o, s') := Option.some.inj h
    have hinv := seenInv_add hs hseen id a k nowMs ok
    rwa [hr] at hinv
  | remove id ok =>
    have hr : remove env s id ok = (o, s') := Option.some.inj h
    have hsame := remove_seen env s id ok
    have hlist := remove_list env hs id ok
    rw [hr] at hsame hlist
    refine ⟨by rw [hsame]; exact hseen.unique, ?_⟩
    rw [hsame]
    exact fun r hmem c hc => hseen.apart r hmem c (hlist c hc)
  | rename id a ok =>
    have hr : rename env s id a ok = (o, s') := Option.some.inj h
    have hsame := rename_seen env s id a ok
    have hlist := rename_list env hs id a ok
    rw [hr] at hsame hlist
    refine ⟨by rw [hsame]; exact hseen.unique, ?_⟩
    rw [hsame]
    intro r hmem c hc hin
    obtain ⟨d, hd, heq⟩ := hlist c hc
    rw [heq] at hin
    exact hseen.apart r hmem d hd hin
  | restart =>
    obtain ⟨rfl, rfl⟩ := Prod.mk.inj (Option.some.inj h)
    exact seenInv_init s

/-- Over any adverts, edits and restarts no two rows are for one address of one address type, and no
row for a configured sensor. An advert of a configured sensor leaves the table as it is, and any
other one that is read is written to the row that has its address, else a free one, else the oldest.
-/
theorem seen_table {stored : Option SensList} {tr : List (Record Op Res (State F))}
    (h : Run (step env) (boot stored) tr s) :
    (∀ (i j : ℕ) (x y : SeenRow), s.seen[i]? = some x → s.seen[j]? = some y → x.id ≠ 0 → y.id ≠ 0 →
        x.addrType = y.addrType → x.addr = y.addr → i = j) ∧
      (∀ r ∈ s.seen, ∀ c ∈ s.cfg.list, ¬ c.seenIn r) ∧
      ∀ r ∈ tr, ∀ e nowMs, r.inp = .adv e nowMs → AdvertSeen env e nowMs r.pre r.post := by
  have hseen : SeenInv s := by
    induction h with
    | nil => exact seenInv_init _
    | cons hr hs ih => exact seenInv_step (run_inv hr) ih hs
  refine ⟨fun i j x y hi hj hx hy htype haddr => ?_, hseen.apart, fun r hr e nowMs he => ?_⟩
  · exact hseen.unique i j x y hi hj (decide_eq_true hx) (hit_iff.mpr ⟨hy, htype.symm, haddr.symm⟩)
  · obtain ⟨⟨_, hpre⟩, hstep⟩ := h.mem hr
    rw [he] at hstep
    rw [← (Prod.mk.inj (Option.some.inj hstep)).2]
    exact advertSeen_onAdv env (run_inv hpre) e nowMs

/-- Sensors nearby, at the last byte of the address. -/
def nearby : List String :=
  ["00", "01", "02", "03", "04", "05", "06", "07", "08", "09", "0A", "0B", "0C", "0D", "0E", "0F"]

/-- One sensor more than the table has rows drops the one that was seen longest ago. One of the
others is added, and its next advert makes no row. -/
def seenOps : List Op :=
  [.adv (goveeAdvert "AA:BB:CC:DD:EE:01") 3000, .add 45831 none none 2500 true,
    .adv (goveeAdvert "AA:BB:CC:DD:EE:10") 2000] ++
  (nearby.zipIdx.map fun x => .adv (goveeAdvert ("AA:BB:CC:DD:EE:" ++ x.1)) (1000 + x.2)).reverse

set_option maxRecDepth 8000 in
theorem seen_table_govee :
    ∃ tr s, exec (step goveeEnv) (boot none) seenOps = some (tr, s) ∧
      s.seen.map (fun r => if r.id = 0 then none else r.addr[5]?) = [some 16, none, some 2, some 3,
        some 4, some 5, some 6, some 7, some 8, some 9, some 10, some 11, some 12, some 13, some 14,
        some 15] ∧
      (∀ (i j : ℕ) (x y : SeenRow), s.seen[i]? = some x → s.seen[j]? = some y → x.id ≠ 0 →
        y.id ≠ 0 → x.addrType = y.addrType → x.addr = y.addr → i = j) ∧
      (∀ r ∈ s.seen, ∀ c ∈ s.cfg.list, ¬ c.seenIn r) ∧
      ∀ r ∈ tr, ∀ e nowMs, r.inp = .adv e nowMs → AdvertSeen goveeEnv e nowMs r.pre r.post := by
  have hend : (exec (step goveeEnv) (boot none) seenOps).map (fun r =>
      r.2.seen.map fun r => if r.id = 0 then none else r.addr[5]?) = some [some 16, none, some 2,
        some 3, some 4, some 5, some 6, some 7, some 8, some 9, some 10, some 11, some 12, some 13,
        some 14, some 15] := by decide
  obtain ⟨tr, s, hexec, hrun, -, hrows⟩ := run_of_view hend
  exact ⟨tr, s, hexec, hrows, seen_table hrun⟩

end OpenCalifornia.Sensors
