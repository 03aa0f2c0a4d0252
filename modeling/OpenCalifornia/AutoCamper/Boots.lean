import OpenCalifornia.AutoCamper.Attempts

/-! # Restores over boots

How often a park is tried, and what a reboot finds. The events stand newest first. -/

namespace OpenCalifornia.AutoCamper.Runner
open Lib Lib.Bits Lib.Machine Firmware

variable {s : Owner} {inp : AcIn} {log : List Ev} {careful : Prop} {tr : List Rec}

/-- A step that sees the engine running. -/
def Ev.drives : Ev → Bool
  | .stepped inp _ => 0 < inp.ign ∧ 0 ≤ inp.master
  | _ => false

/-- A step that tries to bring the debt back. -/
def Ev.tries : Ev → Bool
  | .stepped _ o => o.actuate ≠ 0
  | _ => false

/-- The camping mode is switched on. -/
def Ev.starts : Ev → Bool
  | .sent .master => true
  | _ => false

/-- How many events there were since the engine was last seen running. -/
def since (p : Ev → Bool) (log : List Ev) : ℕ := (log.takeWhile (¬ ·.drives)).countP p

theorem since_drives {e : Ev} (p : Ev → Bool) (h : e.drives) (log : List Ev) :
    since p (e :: log) = 0 := by
  rw [since, List.takeWhile_cons, if_neg (by simpa using h)]
  rfl

theorem since_cons {e : Ev} (p : Ev → Bool) (h : ¬ e.drives) (log : List Ev) :
    since p (e :: log) = since p log + if p e then 1 else 0 := by
  rw [since, List.takeWhile_cons, if_pos (by simpa using h), List.countP_cons, since]

theorem since_write (p : Ev → Bool) (ok : Bool) (log : List Ev) :
    since p (.write ok :: log) = since p log + if p (.write ok) then 1 else 0 :=
  since_cons p (e := .write ok) Bool.false_ne_true log

theorem since_sent (p : Ev → Bool) (what : What) (log : List Ev) :
    since p (.sent what :: log) = since p log + if p (.sent what) then 1 else 0 :=
  since_cons p (e := .sent what) Bool.false_ne_true log

def events (tr : List Rec) : List Ev := (tr.map fun r => r.out.reverse).flatten

/-- The stored word, where there is one of its length. -/
def Owner.word (s : Owner) : List Byte := (s.kvState.filter (·.length = 10)).getD []

/-- The stored toggle. -/
def toggle : Option (List Byte) → Bool
  | some [b] => b ≠ 0
  | _ => true

/-- A restore whose first command is still to go out. -/
def Owner.pend (s : Owner) : ℕ := if s.chain ≠ [] ∧ s.i = 0 ∧ ¬ s.wait then 1 else 0

/-- Each reboot comes when the debt is stored as it is. -/
def Careful (tr : List Rec) : Prop := ∀ r ∈ tr, r.inp = .reboot → unpack r.pre.word = r.pre.debt

structure Inv (careful : Prop) (log : List Ev) (s : Owner) : Prop where
  fits : Fits s.st
  word : unpack s.word = unpack s.saved
  off : s.on = false → s.st.owe = 0 ∨ toggle s.kvOn = false
  fresh : s.resume = true → s.st.restoreUntil < 0
  chained : What.master ∉ s.chain.tail
  starts : since Ev.starts log + s.pend ≤ since Ev.tries log
  tries : careful → since Ev.tries log ≤ 3 ∧
    (s.st.owe ≠ 0 → (since Ev.tries log : ℤ) ≤ s.st.fails) ∧
    (s.on → s.st.owe ≠ 0 → 0 < s.st.prevIgn → since Ev.tries log = 0)

theorem boot_on (kvOn kvState : Option (List Byte)) : (boot kvOn kvState).on = toggle kvOn := by
  rcases kvOn with _ | _ | ⟨b, _ | ⟨c, rest⟩⟩ <;> rfl

theorem boot_st (kvOn kvState : Option (List Byte)) :
    (boot kvOn kvState).st = (unpack (boot kvOn kvState).word).1 := rfl

theorem boot_word (kvOn kvState : Option (List Byte)) :
    unpack (boot kvOn kvState).word = unpack (boot kvOn kvState).saved := by
  show unpack ((kvState.filter (·.length = 10)).getD []) =
    unpack ((kvState.filter (·.length = 10)).getD (List.replicate 10 0))
  cases kvState.filter (·.length = 10) with
  | none => rfl
  | some word => rfl

theorem unpack_debt (word : List Byte) :
    ({ (unpack word).1 with restoreUntil := -1 } : AcState) = (unpack word).1 ∧
      ((unpack word).2 = true → (unpack word).1.owe ≠ 0) := by
  unfold unpack
  split
  · refine ⟨rfl, fun h hzero => ?_⟩
    have howe := (of_decide_eq_true h).2
    exact howe (BitVec.eq_of_toNat_eq (Int.ofNat.inj hzero))
  · exact ⟨rfl, fun h => (by cases h)⟩

theorem boot_until (kvOn kvState : Option (List Byte)) :
    (boot kvOn kvState).st.restoreUntil < 0 := by
  rw [boot_st, ← congrArg AcState.restoreUntil (unpack_debt _).1]
  exact (by decide : (-1 : ℤ) < 0)

theorem boot_debt (kvOn kvState : Option (List Byte)) :
    (boot kvOn kvState).debt = unpack (boot kvOn kvState).word := by
  obtain ⟨hst, howe⟩ := unpack_debt (boot kvOn kvState).word
  refine Prod.ext hst ?_
  have huntil := Int.not_le.mpr (boot_until kvOn kvState)
  have hiff : ((0 ≤ (boot kvOn kvState).st.restoreUntil ∨ (boot kvOn kvState).resume = true) ∧
      (boot kvOn kvState).st.owe ≠ 0) ↔ (unpack (boot kvOn kvState).word).2 = true :=
    ⟨fun h => h.1.resolve_left huntil, fun h => ⟨Or.inr h, howe h⟩⟩
  exact Bool.eq_iff_iff.mpr (decide_eq_true_iff.trans hiff)

theorem boot_inv (kvOn kvState : Option (List Byte)) : Inv True [] (boot kvOn kvState) where
  fits := unpack_fits _
  word := boot_word kvOn kvState
  off := Or.inr
  fresh _ := boot_until _ _
  chained := List.not_mem_nil
  starts := Nat.le_refl 0
  tries _ := ⟨Nat.zero_le 3, fun _ => (unpack_fits _).fails.1, fun _ _ _ => rfl⟩

theorem Inv.reboot (h : Inv careful log s) {careful' : Prop}
    (hcareful : careful' → careful ∧ unpack s.word = s.debt) :
    Inv careful' log (boot s.kvOn s.kvState) where
  fits := unpack_fits _
  word := boot_word _ _
  off := Or.inr
  fresh _ := boot_until _ _
  chained := List.not_mem_nil
  starts := Nat.le_trans (Nat.add_le_add_left (Nat.zero_le _) _) h.starts
  tries hc := by
    obtain ⟨hold, hword⟩ := hcareful hc
    obtain ⟨hthree, hfails, hedge⟩ := h.tries hold
    have hst : (boot s.kvOn s.kvState).st = { s.st with restoreUntil := -1 } :=
      congrArg Prod.fst hword
    rw [hst, boot_on]
    refine ⟨hthree, hfails, fun hon howe hprev => ?_⟩
    cases hs : s.on with
    | true => exact hedge hs howe hprev
    | false =>
      rcases h.off hs with hzero | htoggle
      · exact absurd hzero howe
      · rw [htoggle] at hon
        cases hon

theorem save_cases (s : Owner) (ok : Bool) :
    pack s.st s.resume = s.saved ∧ s.save ok = (s, none) ∨
      s.save ok = ({ s with
        saved := pack s.st s.resume, kvState := some (pack s.st s.resume) }, some true) ∨
      s.save ok = (s, some false) := by
  unfold Owner.save
  dsimp only
  split_ifs with hsame hok
  · exact Or.inl ⟨hsame, rfl⟩
  · exact Or.inr (Or.inl rfl)
  · exact Or.inr (Or.inr rfl)

theorem save_frame (s : Owner) (ok : Bool) :
    ∃ saved kvState, (s.save ok).1 = { s with saved, kvState } := by
  rcases save_cases s ok with ⟨-, heq⟩ | heq | heq
  · exact ⟨_, _, congrArg Prod.fst heq⟩
  · exact ⟨_, _, congrArg Prod.fst heq⟩
  · exact ⟨_, _, congrArg Prod.fst heq⟩

/-- The events of a save. -/
def writes (wrote : Option Bool) : List Ev := wrote.toList.map Ev.write

theorem since_writes {p : Ev → Bool} (hp : ∀ ok, p (.write ok) = false) (wrote : Option Bool)
    (log : List Ev) : since p (writes wrote ++ log) = since p log := by
  cases wrote with
  | none => rfl
  | some ok =>
    refine (since_write p ok log).trans ?_
    rw [hp, if_neg Bool.false_ne_true, Nat.add_zero]

theorem Inv.save (h : Inv careful log s) (ok : Bool) :
    Inv careful (writes (s.save ok).2 ++ log) (s.save ok).1 := by
  have hword : unpack (s.save ok).1.word = unpack (s.save ok).1.saved := by
    rcases save_cases s ok with ⟨-, heq⟩ | heq | heq
    · rw [heq]
      exact h.word
    · rw [heq]
      rfl
    · rw [heq]
      exact h.word
  obtain ⟨saved, kvState, heq⟩ := save_frame s ok
  rw [heq] at hword ⊢
  refine ⟨h.fits, hword, h.off, h.fresh, h.chained, ?_, ?_⟩
  · rw [since_writes (fun _ => rfl), since_writes (fun _ => rfl)]
    exact h.starts
  · rw [since_writes (fun _ => rfl)]
    exact h.tries

theorem Inv.saved (h : Inv careful log s) {ok : Bool} (hok : (s.save ok).2 ≠ some false) :
    unpack (s.save ok).1.word = (s.save ok).1.debt := by
  rcases save_cases s ok with ⟨hsame, heq⟩ | heq | heq
  · rw [heq, h.word, ← hsame]
    exact unpack_pack h.fits
  · rw [heq]
    exact unpack_pack h.fits
  · exact absurd (congrArg Prod.snd heq) hok

theorem Inv.chainTick (h : Inv careful log s) (rc : Rc) :
    Inv careful ((s.chainTick rc).2 ++ log) (s.chainTick rc).1 := by
  have hdrop : Inv careful log { s with chain := [] } :=
    ⟨h.fits, h.word, h.off, h.fresh, List.not_mem_nil,
      Nat.le_trans (Nat.add_le_add_left (Nat.zero_le _) _) h.starts, h.tries⟩
  unfold Owner.chainTick
  cases hwhat : s.chain[s.i]? with
  | none => exact h
  | some what =>
    dsimp only
    by_cases hwait : s.wait
    · rw [if_pos hwait]
      exact h
    rw [if_neg hwait]
    cases rc with
    | failed => exact hdrop
    | later =>
      dsimp only
      split_ifs
      · exact hdrop
      · exact h
    | pending =>
      have htries : since Ev.tries (.sent what :: log) = since Ev.tries log :=
        since_sent Ev.tries what log
      have hstarts : since Ev.starts (.sent what :: log) ≤ since Ev.starts log + s.pend := by
        rw [since_sent]
        refine Nat.add_le_add_left ?_ _
        cases what with
        | usb => exact Nat.zero_le _
        | lights => exact Nat.zero_le _
        | master =>
          -- the only command that is counted is the first one
          have hfirst : s.i = 0 := by
            cases hi : s.i with
            | zero => rfl
            | succ i =>
              rw [hi, ← List.getElem?_tail] at hwhat
              exact absurd (List.mem_of_getElem? hwhat) h.chained
          have hne : s.chain ≠ [] := fun hnil => by
            rw [hnil] at hwhat
            cases hwhat
          have hpend : s.pend = 1 := if_pos ⟨hne, hfirst, hwait⟩
          exact Nat.le_of_eq hpend.symm
      refine ⟨h.fits, h.word, h.off, h.fresh, h.chained, ?_, fun hc => ?_⟩
      · have hpend : ({ s with wait := true } : Owner).pend = 0 := if_neg fun hp => hp.2.2 rfl
        dsimp only
        rw [hpend]
        exact Nat.le_trans hstarts (Nat.le_trans h.starts (Nat.le_of_eq htries.symm))
      · dsimp only [List.singleton_append]
        rw [htries]
        exact h.tries hc

theorem Inv.chainDone (h : Inv careful log s) (ok : Bool) : Inv careful log (s.chainDone ok) := by
  have hzero : (s.chainDone ok).pend = 0 := by
    cases ok with
    | true => exact if_neg fun hp => by cases hp.2.1
    | false => exact if_neg fun hp => hp.1 rfl
  have hstarts := Nat.le_trans (Nat.add_le_add_left (Nat.zero_le s.pend) _) h.starts
  rw [← hzero] at hstarts
  cases ok with
  | true => exact ⟨h.fits, h.word, h.off, h.fresh, h.chained, hstarts, h.tries⟩
  | false => exact ⟨h.fits, h.word, h.off, h.fresh, List.not_mem_nil, hstarts, h.tries⟩

theorem bit_le (b : Bool) : 0 ≤ bit b ∧ bit b ≤ 1 := by
  cases b <;> decide

theorem reading_le (f : Fields) (now : ℕ) :
    (f.reading now).ign ≤ 1 ∧ (f.reading now).master ≤ 1 ∧
      (-1 ≤ (f.reading now).usb ∧ (f.reading now).usb ≤ 1) ∧
      -1 ≤ (f.reading now).lights ∧ (f.reading now).lights ≤ 1 := by
  have hbit : ∀ (c : Prop) [Decidable c] (b : Bool),
      -1 ≤ (if c then -1 else bit b) ∧ (if c then -1 else bit b) ≤ 1 := fun c _ b => by
    have := bit_le b
    split_ifs <;> omega
  refine ⟨?_, ?_, hbit _ _, hbit _ _⟩
  · exact (hbit _ _).2
  · show (if 0 < f.state then 1 else f.state) ≤ 1
    split_ifs <;> omega

theorem track_frame (st : AcState) (inp : AcIn) : ∃ prevIgn prevMaster prevUsb prevLights,
    track st inp = { st with prevIgn, prevMaster, prevUsb, prevLights } ∧
      (prevIgn = st.prevIgn ∨ prevIgn = inp.ign ∧ 0 ≤ inp.ign) ∧
      (prevMaster = st.prevMaster ∧ prevUsb = st.prevUsb ∧ prevLights = st.prevLights ∨
        prevMaster = inp.master ∧ prevUsb = inp.usb ∧ prevLights = inp.lights ∧
        0 ≤ inp.master) := by
  unfold track
  split_ifs with hign hm hm
  · exact ⟨_, _, _, _, rfl, Or.inr ⟨rfl, hign⟩, Or.inr ⟨rfl, rfl, rfl, hm⟩⟩
  · exact ⟨_, _, _, _, rfl, Or.inr ⟨rfl, hign⟩, Or.inl ⟨rfl, rfl, rfl⟩⟩
  · exact ⟨_, _, _, _, rfl, Or.inl rfl, Or.inr ⟨rfl, rfl, rfl, hm⟩⟩
  · exact ⟨_, _, _, _, rfl, Or.inl rfl, Or.inl ⟨rfl, rfl, rfl⟩⟩

theorem Inv.tracked (h : Inv careful log s) (hon : s.on = false) (f : Fields) (now : ℕ) :
    Inv careful log { s with st := track s.st (f.reading now) } := by
  obtain ⟨hign, hm, husb, hlights⟩ := reading_le f now
  obtain ⟨prevIgn, prevMaster, prevUsb, prevLights, heq, hi, hrest⟩ :=
    track_frame s.st (f.reading now)
  have hprevs := h.fits.prevMaster
  have hprevu := h.fits.prevUsb
  have hprevl := h.fits.prevLights
  have hprevi := h.fits.prevIgn
  rw [heq]
  refine ⟨⟨h.fits.owe, h.fits.pre, h.fits.preUsb, h.fits.preLights, h.fits.fails, ?_, ?_, ?_, ?_⟩,
    h.word, h.off, h.fresh, h.chained, h.starts, fun hc => ?_⟩
  · dsimp only
    omega
  · dsimp only
    omega
  · dsimp only
    omega
  · dsimp only
    omega
  · obtain ⟨hthree, hfails, -⟩ := h.tries hc
    exact ⟨hthree, hfails, fun ht => absurd (hon.symm.trans ht) Bool.false_ne_true⟩

theorem since_quiet {e : Ev} {p : Ev → Bool} (h : ¬ e.drives) (hp : p e = false) (log : List Ev) :
    since p (e :: log) = since p log := by
  rw [since_cons p h, hp]
  rfl

theorem drives_iff (inp : AcIn) (o : AcOut) :
    (Ev.stepped inp o).drives = true ↔ 0 < inp.ign ∧ 0 ≤ inp.master :=
  decide_eq_true_iff

theorem Fits.reopen {st : AcState} (h : Fits st) (restoreUntil : ℤ) :
    Fits { st with restoreUntil } :=
  ⟨h.owe, h.pre, h.preUsb, h.preLights, h.fails, h.prevIgn, h.prevMaster, h.prevUsb, h.prevLights⟩

theorem Inv.unread (h : Inv careful log s) (restoreUntil : ℤ)
    (hknown : inp.ign < 0 ∨ inp.master < 0) :
    Inv careful (.stepped inp {} :: log)
      { s with st := { s.st with restoreUntil }, resume := false } := by
  have hdrives : ¬ (Ev.stepped inp {}).drives := fun hd => by
    have := (drives_iff inp {}).mp hd
    omega
  refine ⟨h.fits.reopen restoreUntil, h.word, h.off, fun hf => (by cases hf), h.chained, ?_, ?_⟩
  · rw [since_quiet hdrives rfl, since_quiet hdrives rfl]
    exact h.starts
  · rw [since_quiet hdrives rfl]
    exact h.tries

section Decision

variable {restoreUntil : ℤ} {o : AcOut} {st : AcState}

theorem Inv.tried (h : Inv careful log s) (hon : s.on = true) (hidle : s.pend = 0) (now : ℕ)
    (hdec : Decided { s.st with restoreUntil } inp o st) (hact : o.actuate ≠ 0) :
    Inv careful (.stepped inp o :: log)
      { s with
        st
        resume := false
        chain := restoreChain st
        i := 0
        wait := false
        chainUntil := now + acStepMs } := by
  obtain ⟨hle, howe, -, n, hn, hless, hprev⟩ := hdec.tries hact
  have hdrives : ¬ (Ev.stepped inp o).drives := fun hd => by
    have := (drives_iff inp o).mp hd
    omega
  have htries : since Ev.tries (.stepped inp o :: log) = since Ev.tries log + 1 :=
    (since_cons _ hdrives log).trans (congrArg _ (if_pos (decide_eq_true hact)))
  refine ⟨hdec.fits (h.fits.reopen _), h.word,
    fun hf => absurd (hf.symm.trans hon) Bool.false_ne_true, fun hf => (by cases hf), ?_, ?_,
    fun hc => ?_⟩
  · simp only [restoreChain, List.cons_append, List.tail_cons, List.mem_append, not_or]
    constructor <;> split_ifs <;> simp
  · rw [htries, since_quiet hdrives rfl]
    have hstarts := h.starts
    rw [hidle] at hstarts
    have hone : ∀ t : Owner, t.pend ≤ 1 := fun t => by
      rw [Owner.pend]
      split_ifs <;> omega
    exact Nat.add_le_add hstarts (hone _)
  · obtain ⟨hthree, hfails, hedge⟩ := h.tries hc
    have hcount : (since Ev.tries log : ℤ) ≤ n := by
      rcases hprev with hsame | ⟨hpos, hzero⟩
      · exact Int.le_trans (hfails howe) (Int.le_of_eq hsame.symm)
      · rw [hedge hon howe hpos]
        exact Int.le_of_eq hzero.symm
    have hless3 : n < 3 := hless
    have hparked : st.prevIgn = 0 := by
      rw [hdec.edge, decide_eq_false (Int.not_lt.mpr hle)]
      rfl
    rw [htries]
    exact ⟨by omega, fun _ => by dsimp only; omega, fun _ _ hpos => by dsimp only at hpos; omega⟩

theorem Inv.waited (h : Inv careful log s) (hon : s.on = true) (hidle : s.pend = 0)
    (hm : 0 ≤ inp.master) (hdec : Decided { s.st with restoreUntil } inp o st)
    (hact : o.actuate = 0) :
    Inv careful (.stepped inp o :: log) { s with st, resume := false } := by
  have hfits : Fits st := hdec.fits (h.fits.reopen _)
  have hoff : s.on = false → st.owe = 0 ∨ toggle s.kvOn = false := fun hf =>
    absurd (hf.symm.trans hon) Bool.false_ne_true
  by_cases hrun : 0 < inp.ign
  · have hdrives : (Ev.stepped inp o).drives := (drives_iff inp o).mpr ⟨hrun, hm⟩
    refine ⟨hfits, h.word, hoff, fun hf => (by cases hf), h.chained, ?_, fun _ => ?_⟩
    · rw [since_drives _ hdrives, since_drives _ hdrives, Nat.zero_add]
      exact Nat.le_of_eq hidle
    · rw [since_drives _ hdrives]
      exact ⟨Nat.zero_le 3, fun _ => hfits.fails.1, fun _ _ _ => rfl⟩
  · have hdrives : ¬ (Ev.stepped inp o).drives := fun hd => hrun ((drives_iff inp o).mp hd).1
    have hno : Ev.tries (.stepped inp o) = false := decide_eq_false (not_not.mpr hact)
    refine ⟨hfits, h.word, hoff, fun hf => (by cases hf), h.chained, ?_, fun hc => ?_⟩
    · rw [since_quiet hdrives rfl, since_quiet hdrives hno]
      exact h.starts
    · obtain ⟨hthree, hfails, hedge⟩ := h.tries hc
      have hparked : st.prevIgn = 0 := by
        rw [hdec.edge, decide_eq_false hrun]
        rfl
      rw [since_quiet hdrives hno]
      refine ⟨hthree, fun howe => ?_, fun _ _ hpos => by dsimp only at hpos; omega⟩
      rcases hdec.owes hact howe with habs | ⟨hwas, hsame | ⟨hpos, hzero⟩⟩
      · exact absurd habs hrun
      · exact Int.le_trans (hfails hwas) (Int.le_of_eq hsame.symm)
      · rw [hedge hon hwas hpos]
        exact Int.le_of_eq hzero.symm

end Decision

/-- The state that `step` decides on. -/
def Owner.reopened (s : Owner) (now : ℤ) : AcState :=
  if s.resume ∧ s.st.owe ≠ 0 then { s.st with restoreUntil := now + acWindowMs } else s.st

theorem reopened_frame (s : Owner) (now : ℤ) :
    ∃ restoreUntil, s.reopened now = { s.st with restoreUntil } := by
  rw [Owner.reopened]
  split_ifs
  · exact ⟨_, rfl⟩
  · exact ⟨_, rfl⟩

/-- The owner after a decision, before it saves. -/
def Owner.decided (s : Owner) (inp : AcIn) (now : ℕ) : Owner :=
  let r := acDecide cfg (s.reopened inp.now) inp
  if r.1.actuate ≠ 0 then
    { s with
      st := r.2
      resume := false
      chain := restoreChain r.2
      i := 0
      wait := false
      chainUntil := now + acStepMs }
  else { s with st := r.2, resume := false }

theorem decided_st (s : Owner) (inp : AcIn) (now : ℕ) :
    (s.decided inp now).st = (acDecide cfg (s.reopened inp.now) inp).2 := by
  rw [Owner.decided]
  split_ifs <;> rfl

theorem decided_or_unread (st : AcState) (inp : AcIn) :
    (0 ≤ inp.master ∧ Decided st inp (acDecide cfg st inp).1 (acDecide cfg st inp).2) ∨
      ((inp.ign < 0 ∨ inp.master < 0) ∧ acDecide cfg st inp = ({}, st)) := by
  by_cases hknown : inp.ign < 0 ∨ inp.master < 0
  · exact Or.inr ⟨hknown, if_pos hknown⟩
  · obtain ⟨hign, hm⟩ := not_or.mp hknown
    rcases Int.lt_or_eq_of_le (Int.not_lt.mp hign) with hpos | hzero
    · exact Or.inl ⟨Int.not_lt.mp hm, decide_on hpos (Int.not_lt.mp hm) _⟩
    · exact Or.inl ⟨Int.not_lt.mp hm, decide_off hzero.symm (Int.not_lt.mp hm) _⟩

theorem Inv.decided (h : Inv careful log s) (hon : s.on = true) (hidle : s.pend = 0)
    (inp : AcIn) (now : ℕ) :
    Inv careful (.stepped inp (acDecide cfg (s.reopened inp.now) inp).1 :: log)
      (s.decided inp now) := by
  obtain ⟨restoreUntil, heq⟩ := reopened_frame s inp.now
  rw [Owner.decided, heq]
  rcases decided_or_unread { s.st with restoreUntil } inp with ⟨hm, hdec⟩ | ⟨hknown, hnone⟩
  · dsimp only
    split_ifs with hact
    · exact h.tried hon hidle now hdec hact
    · exact h.waited hon hidle hm hdec (not_not.mp hact)
  · rw [hnone]
    exact h.unread restoreUntil hknown

theorem step_eq (s : Owner) (f : Fields) (now : ℕ) (ok : Bool) :
    s.step f now ok =
      if s.on then
        let inp := f.reading now
        let r := (s.decided inp now).save ok
        (r.1, .stepped inp (acDecide cfg (s.reopened inp.now) inp).1 :: writes r.2)
      else
        let r := ({ s with st := track s.st (f.reading now) } : Owner).save ok
        (r.1, writes r.2) := by
  rw [Owner.step]
  by_cases hon : s.on = true
  · rw [if_neg (not_not.mpr hon), if_pos hon]
    rfl
  · rw [if_pos hon, if_neg hon]
    rfl

theorem reverse_writes (wrote : Option Bool) : (writes wrote).reverse = writes wrote := by
  cases wrote <;> rfl

theorem Inv.step (h : Inv careful log s) (hidle : s.pend = 0) (f : Fields) (now : ℕ) (ok : Bool) :
    Inv careful ((s.step f now ok).2.reverse ++ log) (s.step f now ok).1 := by
  rw [step_eq]
  by_cases hon : s.on = true
  · rw [if_pos hon]
    dsimp only
    rw [List.reverse_cons, reverse_writes, List.append_assoc]
    exact (h.decided hon hidle _ now).save ok
  · rw [if_neg hon]
    dsimp only
    rw [reverse_writes]
    exact (h.tracked (eq_false_of_ne_true hon) f now).save ok

theorem pend_of_through (h : ¬ s.i < s.chain.length) : s.pend = 0 := by
  refine if_neg fun hp => h ?_
  rw [hp.2.1]
  exact List.length_pos_of_ne_nil hp.1

theorem chainTick_frame (s : Owner) (rc : Rc) :
    (∃ chain wait, (s.chainTick rc).1 = { s with chain, wait }) ∧
      ((s.chainTick rc).2 = [] ∨ ∃ what, (s.chainTick rc).2 = [.sent what]) := by
  unfold Owner.chainTick
  cases s.chain[s.i]? with
  | none => exact ⟨⟨_, _, rfl⟩, Or.inl rfl⟩
  | some what =>
    dsimp only
    by_cases hwait : s.wait
    · rw [if_pos hwait]
      exact ⟨⟨s.chain, s.wait, rfl⟩, Or.inl rfl⟩
    rw [if_neg hwait]
    cases rc with
    | pending => exact ⟨⟨_, _, rfl⟩, Or.inr ⟨what, rfl⟩⟩
    | later =>
      dsimp only
      split_ifs
      · exact ⟨⟨_, _, rfl⟩, Or.inl rfl⟩
      · exact ⟨⟨s.chain, s.wait, rfl⟩, Or.inl rfl⟩
    | failed => exact ⟨⟨_, _, rfl⟩, Or.inl rfl⟩

theorem Inv.tick_cases (h : Inv careful log s) (f : Fields) (now : ℕ) (ready : Bool) (rc : Rc)
    (ok : Bool) : ∃ sent chain wait next, ∃ s₁ : Owner, s₁ = { s with now, chain, wait, next } ∧
      (sent = [] ∨ ∃ what, sent = [.sent what]) ∧ Inv careful (sent ++ log) s₁ ∧
      (s.tick f now ready rc ok = (s₁, sent) ∨ s₁.pend = 0 ∧
        s.tick f now ready rc ok = ((s₁.step f now ok).1, sent ++ (s₁.step f now ok).2)) := by
  have hnow : Inv careful log { s with now } :=
    ⟨h.fits, h.word, h.off, h.fresh, h.chained, h.starts, h.tries⟩
  have hchain := hnow.chainTick rc
  obtain ⟨⟨chain, wait, hframe⟩, hsent⟩ := chainTick_frame { s with now } rc
  rw [Owner.tick]
  dsimp only
  generalize (({ s with now } : Owner).chainTick rc).2 = sent at hchain hsent ⊢
  rw [hframe] at hchain ⊢
  split_ifs with hbusy
  · exact ⟨sent, chain, wait, s.next, _, rfl, hsent, hchain, Or.inl rfl⟩
  · exact ⟨sent, chain, wait, now + acStepMs, _, rfl, hsent,
      ⟨hchain.fits, hchain.word, hchain.off, hchain.fresh, hchain.chained, hchain.starts,
        hchain.tries⟩, Or.inr ⟨pend_of_through (not_or.mp hbusy).1, rfl⟩⟩

theorem Inv.tick (h : Inv careful log s) (f : Fields) (now : ℕ) (ready : Bool) (rc : Rc)
    (ok : Bool) :
    Inv careful ((s.tick f now ready rc ok).2.reverse ++ log) (s.tick f now ready rc ok).1 := by
  obtain ⟨sent, -, -, -, s₁, -, hsent, hinv, heq⟩ := h.tick_cases f now ready rc ok
  have hrev : sent.reverse = sent := by
    rcases hsent with rfl | ⟨what, rfl⟩
    · rfl
    · rfl
  rcases heq with heq | ⟨hidle, heq⟩
  · rw [heq, hrev]
    exact hinv
  · rw [heq, List.reverse_append, hrev, List.append_assoc]
    exact hinv.step hidle f now ok

theorem Inv.clear (h : Inv careful log s) : Inv careful log s.clear where
  fits := ⟨(bit_fits false).1, h.fits.pre, h.fits.preUsb, h.fits.preLights, (bit_fits false).1,
    h.fits.prevIgn, h.fits.prevMaster, h.fits.prevUsb, h.fits.prevLights⟩
  word := h.word
  off _ := Or.inl rfl
  fresh hf := by cases hf
  chained := List.not_mem_nil
  starts := Nat.le_trans (Nat.add_le_add_left (Nat.zero_le _) _) h.starts
  tries hc := ⟨(h.tries hc).1, fun howe => absurd rfl howe, fun _ howe => absurd rfl howe⟩

/-- The owner after a switch, before it saves. -/
def Owner.switched (s : Owner) (on : Bool) : Owner :=
  { (if ¬ on ∨ ¬ s.on then s.clear else s) with on }

theorem Inv.switched (h : Inv careful log s) (on : Bool) :
    Inv careful log (s.switched on) ∧
      ((s.switched on).on = false → (s.switched on).st.owe = 0) := by
  rw [Owner.switched]
  split_ifs with hclear
  · have hc := h.clear
    exact ⟨⟨hc.fits, hc.word, fun _ => Or.inl rfl, hc.fresh, hc.chained, hc.starts, fun hcare =>
      ⟨(hc.tries hcare).1, (hc.tries hcare).2.1, fun _ howe => absurd rfl howe⟩⟩, fun _ => rfl⟩
  · obtain ⟨hon, hwas⟩ := not_or.mp hclear
    have hoff : on = false → s.st.owe = 0 := fun hf => absurd hf (by simpa using hon)
    exact ⟨⟨h.fits, h.word, fun hf => Or.inl (hoff hf), h.fresh, h.chained, h.starts, fun hcare =>
      ⟨(h.tries hcare).1, (h.tries hcare).2.1, fun _ => (h.tries hcare).2.2 (not_not.mp hwas)⟩⟩,
      hoff⟩

theorem setEnabled_eq (s : Owner) (on ok toggleOk : Bool) : ∃ kvOn,
    s.setEnabled on ok toggleOk =
      ({ ((s.switched on).save ok).1 with kvOn }, writes ((s.switched on).save ok).2) := by
  change ∃ kvOn, (if ((s.switched on).save ok).2 ≠ some false ∧ toggleOk = true then
      { ((s.switched on).save ok).1 with kvOn := some [if on then 1 else 0] }
    else ((s.switched on).save ok).1, writes ((s.switched on).save ok).2) = _
  by_cases hwrote : ((s.switched on).save ok).2 ≠ some false ∧ toggleOk = true
  · rw [if_pos hwrote]
    exact ⟨_, rfl⟩
  · rw [if_neg hwrote]
    exact ⟨((s.switched on).save ok).1.kvOn, rfl⟩

theorem Inv.setEnabled (h : Inv careful log s) (on ok toggleOk : Bool) :
    Inv careful ((s.setEnabled on ok toggleOk).2.reverse ++ log)
      (s.setEnabled on ok toggleOk).1 := by
  obtain ⟨kvOn, heq⟩ := setEnabled_eq s on ok toggleOk
  obtain ⟨hswitched, hoff⟩ := h.switched on
  have hsave := hswitched.save ok
  obtain ⟨saved, kvState, hframe⟩ := save_frame (s.switched on) ok
  rw [heq]
  dsimp only
  rw [reverse_writes]
  refine ⟨hsave.fits, hsave.word, fun hf => Or.inl ?_, hsave.fresh, hsave.chained, hsave.starts,
    hsave.tries⟩
  rw [hframe] at hf ⊢
  exact hoff hf

theorem Inv.apply (h : Inv careful log s) (op : Op) {careful' : Prop}
    (hcareful : careful' → careful ∧ (op = .reboot → unpack s.word = s.debt)) :
    Inv careful' ((s.apply op).2.reverse ++ log) (s.apply op).1 := by
  have hweak : ∀ {log' s'}, Inv careful log' s' → Inv careful' log' s' := fun hinv =>
    ⟨hinv.fits, hinv.word, hinv.off, hinv.fresh, hinv.chained, hinv.starts,
      fun hc => hinv.tries (hcareful hc).1⟩
  cases op with
  | tick f now ready rc ok => exact hweak (h.tick f now ready rc ok)
  | done ok => exact hweak (h.chainDone ok)
  | setEnabled on ok toggleOk => exact hweak (h.setEnabled on ok toggleOk)
  | reboot => exact h.reboot fun hc => ⟨(hcareful hc).1, (hcareful hc).2 rfl⟩

variable {kvOn kvState : Option (List Byte)}

theorem run_inv (h : Run step (boot kvOn kvState) tr s) : Inv (Careful tr) (events tr) s := by
  induction h with
  | nil =>
    have h₀ := boot_inv kvOn kvState
    exact ⟨h₀.fits, h₀.word, h₀.off, h₀.fresh, h₀.chained, h₀.starts, fun _ => h₀.tries trivial⟩
  | cons hr hs ih =>
    obtain ⟨rfl, rfl⟩ := Prod.mk.inj (Option.some.inj hs)
    refine ih.apply _ fun hcareful => ⟨fun r hr => hcareful r (List.mem_cons_of_mem _ hr), ?_⟩
    exact hcareful _ List.mem_cons_self

end OpenCalifornia.AutoCamper.Runner
