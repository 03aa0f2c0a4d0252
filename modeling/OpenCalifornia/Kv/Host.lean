import OpenCalifornia.Kv.Record
import OpenCalifornia.Lib.Machine

/-! # The kv-store of the host

`platform_host.c`: one file for each key, written beside the old one and renamed over it. The
directory is not synced, so a power loss behind a set that returned may still take back its rename:
that is not covered, a rename that was made stays. -/

namespace OpenCalifornia.Kv
open Lib Lib.Bits Lib.Machine

def keyMax : ℕ := 15

def keyChar (c : Char) : Bool :=
  ('a' ≤ c ∧ c ≤ 'z') ∨ ('A' ≤ c ∧ c ≤ 'Z') ∨ ('0' ≤ c ∧ c ≤ '9') ∨ c = '_' ∨ c = '-'

def keyOk (key : List Char) : Bool := key ≠ [] ∧ key.length ≤ keyMax ∧ key.all keyChar

/-- The files of the store's directory. -/
abbrev Dir := List Char → Option (List Byte)

def kvName (key : List Char) : List Char := key ++ ['.', 'k', 'v']

def tmpName (key : List Char) : List Char := key ++ ['.', 'k', 'v', '.', 't', 'm', 'p']

/-- `cali_kv_get`; `io` says that the calls on the file work. -/
def kvGet (d : Dir) (key : List Char) (len : ℕ) (io : Bool) : Got :=
  if keyOk key = false then .missing
  else if io = false then .corrupt
  else
    match d (kvName key) with
    | none => .missing
    | some raw => readRecord raw len

/-- How a set goes: to its end; the new file cannot be opened; a call on it or the rename fails, and
what is left of it after its removal; the power goes before the rename, with anything in the new
file, or after it. -/
inductive SetFate
  | done
  | noOpen
  | failed (tmp : Option (List Byte))
  | lostBefore (tmp : Option (List Byte))
  | lostAfter

/-- How an erase goes: with the removals that work, or with those done before the power goes. -/
inductive EraseFate
  | ran (tmp kv : Bool)
  | lost (tmp kv : Bool)

def putFile (d : Dir) (name : List Char) (x : Option (List Byte)) : Dir := Function.update d name x

/-- `cali_kv_set`; no answer where the power went. -/
def kvSet (d : Dir) (key : List Char) (buf : List Byte) (fate : SetFate) : Option Bool × Dir :=
  if keyOk key = false ∨ fileMax - 8 < buf.length then (some false, d)
  else
    match fate with
    | .done =>
      (some true, putFile (putFile d (tmpName key) none) (kvName key) (some (record buf)))
    | .noOpen => (some false, d)
    | .failed tmp => (some false, putFile d (tmpName key) tmp)
    | .lostBefore tmp => (none, putFile d (tmpName key) tmp)
    | .lostAfter => (none, putFile (putFile d (tmpName key) none) (kvName key) (some (record buf)))

def removed (d : Dir) (key : List Char) (tmp kv : Bool) : Dir :=
  let d := if tmp then putFile d (tmpName key) none else d
  if kv then putFile d (kvName key) none else d

/-- `cali_kv_erase` -/
def kvErase (d : Dir) (key : List Char) (fate : EraseFate) : Option Bool × Dir :=
  if keyOk key = false then (some false, d)
  else
    match fate with
    | .ran tmp kv => (some (tmp && kv), removed d key tmp kv)
    | .lost tmp kv => (none, removed d key tmp kv)

inductive Op
  | set (key : List Char) (buf : List Byte) (fate : SetFate)
  | erase (key : List Char) (fate : EraseFate)

def step : Op → Dir → Option (Option Bool × Dir)
  | .set key buf fate, d => some (kvSet d key buf fate)
  | .erase key fate, d => some (kvErase d key fate)

theorem keyChar_dot : keyChar '.' = false := by decide

theorem noDot {key : List Char} (h : keyOk key = true) : '.' ∉ key := by
  intro hdot
  have hall := (of_decide_eq_true h).2.2
  have hc := List.all_eq_true.mp hall '.' hdot
  rw [keyChar_dot] at hc
  cases hc

theorem takeWhile_name {key ext : List Char} (h : '.' ∉ key) :
    (key ++ '.' :: ext).takeWhile (· ≠ '.') = key := by
  induction key with
  | nil => rfl
  | cons c key ih =>
    obtain ⟨hc, hkey⟩ := not_or.mp (fun hmem => h (List.mem_cons.mpr hmem))
    rw [List.cons_append, List.takeWhile_cons_of_pos (by simpa using fun h => hc h.symm), ih hkey]

theorem name_inj {key key' ext ext' : List Char} (h : '.' ∉ key) (h' : '.' ∉ key')
    (heq : key ++ '.' :: ext = key' ++ '.' :: ext') : key = key' ∧ ext = ext' := by
  have hkey : key = key' := by rw [← takeWhile_name h, heq, takeWhile_name h']
  subst hkey
  exact ⟨rfl, (List.cons.inj (List.append_cancel_left heq)).2⟩

theorem kvName_inj {key key' : List Char} (h : keyOk key = true) (h' : keyOk key' = true)
    (heq : kvName key = kvName key') : key = key' :=
  (name_inj (noDot h) (noDot h') heq).1

theorem kvName_ne_tmpName {key key' : List Char} (h : keyOk key = true) (h' : keyOk key' = true) :
    kvName key ≠ tmpName key' := by
  intro heq
  cases (name_inj (noDot h) (noDot h') heq).2

/-- The file of the key is replaced. -/
def SetFate.lands : SetFate → Bool
  | .done => true
  | .lostAfter => true
  | _ => false

/-- The file of the key is removed. -/
def EraseFate.lands : EraseFate → Bool
  | .ran _ kv => kv
  | .lost _ kv => kv

/-- What an operation leaves in the file of a key, where it does anything to it. -/
def Op.lands (key : List Char) : Op → Option (Option (List Byte))
  | .set key' buf fate =>
    if key' = key ∧ buf.length ≤ fileMax - 8 ∧ fate.lands then some (some (record buf)) else none
  | .erase key' fate => if key' = key ∧ fate.lands then some none else none

variable {d d' : Dir} {key : List Char} {op : Op} {rc : Option Bool}

theorem putFile_tmp {key' : List Char} (hkey : keyOk key = true) (hkey' : keyOk key' = true)
    (d : Dir) (x : Option (List Byte)) : putFile d (tmpName key') x (kvName key) = d (kvName key) :=
  Function.update_of_ne (kvName_ne_tmpName hkey hkey') _ _

theorem putFile_kv {key' : List Char} (hkey : keyOk key = true)
    (hkey' : keyOk key' = true) (d : Dir) (x : Option (List Byte)) :
    putFile d (kvName key') x (kvName key) = if key' = key then x else d (kvName key) := by
  split_ifs with h
  · rw [h]
    exact Function.update_self _ _ _
  · exact Function.update_of_ne (fun heq => h (kvName_inj hkey hkey' heq).symm) _ _

theorem kvSet_file (hkey : keyOk key = true) (d : Dir) (key' : List Char) (buf : List Byte)
    (fate : SetFate) : (kvSet d key' buf fate).2 (kvName key) =
      if key' = key ∧ buf.length ≤ fileMax - 8 ∧ fate.lands then some (record buf)
      else d (kvName key) := by
  unfold kvSet
  by_cases hrefused : keyOk key' = false ∨ fileMax - 8 < buf.length
  · rw [if_pos hrefused, if_neg]
    rintro ⟨rfl, hlen, -⟩
    rcases hrefused with hk | hlong
    · rw [hkey] at hk
      cases hk
    · omega
  · obtain ⟨hk, hlen⟩ := not_or.mp hrefused
    have hok : keyOk key' = true := by simpa using hk
    have hfits : buf.length ≤ fileMax - 8 := Nat.le_of_not_lt hlen
    rw [if_neg hrefused]
    cases fate with
    | done =>
      refine (putFile_kv hkey hok _ _).trans ?_
      rw [putFile_tmp hkey hok]
      exact if_congr ⟨fun h => ⟨h, hfits, rfl⟩, And.left⟩ rfl rfl
    | lostAfter =>
      refine (putFile_kv hkey hok _ _).trans ?_
      rw [putFile_tmp hkey hok]
      exact if_congr ⟨fun h => ⟨h, hfits, rfl⟩, And.left⟩ rfl rfl
    | noOpen => exact (if_neg fun h => Bool.noConfusion h.2.2).symm
    | failed tmp =>
      exact (putFile_tmp hkey hok d tmp).trans (if_neg fun h => Bool.noConfusion h.2.2).symm
    | lostBefore tmp =>
      exact (putFile_tmp hkey hok d tmp).trans (if_neg fun h => Bool.noConfusion h.2.2).symm

theorem removed_file {key' : List Char} (hkey : keyOk key = true)
    (hok : keyOk key' = true) (d : Dir) (tmp kv : Bool) :
    removed d key' tmp kv (kvName key) = if key' = key ∧ kv then none else d (kvName key) := by
  have htmp : (if tmp then putFile d (tmpName key') none else d) (kvName key) = d (kvName key) := by
    cases tmp with
    | true => exact putFile_tmp hkey hok d none
    | false => rfl
  unfold removed
  cases kv with
  | true =>
    refine (putFile_kv hkey hok _ _).trans ?_
    rw [htmp]
    exact if_congr (and_iff_left rfl).symm rfl rfl
  | false =>
    refine htmp.trans (if_neg ?_).symm
    exact fun h => Bool.noConfusion h.2

theorem kvErase_file (hkey : keyOk key = true) (d : Dir) (key' : List Char) (fate : EraseFate) :
    (kvErase d key' fate).2 (kvName key) =
      if key' = key ∧ fate.lands then none else d (kvName key) := by
  unfold kvErase
  by_cases hk : keyOk key' = false
  · rw [if_pos hk, if_neg]
    rintro ⟨rfl, -⟩
    rw [hkey] at hk
    cases hk
  · have hok : keyOk key' = true := by simpa using hk
    rw [if_neg hk]
    cases fate with
    | ran tmp kv => exact removed_file hkey hok d tmp kv
    | lost tmp kv => exact removed_file hkey hok d tmp kv

theorem step_file (hkey : keyOk key = true) (h : step op d = some (rc, d')) :
    d' (kvName key) = (op.lands key).getD (d (kvName key)) := by
  cases op with
  | set key' buf fate =>
    obtain rfl : (kvSet d key' buf fate).2 = d' := congrArg Prod.snd (Option.some.inj h)
    rw [kvSet_file hkey, Op.lands]
    split_ifs <;> rfl
  | erase key' fate =>
    obtain rfl : (kvErase d key' fate).2 = d' := congrArg Prod.snd (Option.some.inj h)
    rw [kvErase_file hkey, Op.lands]
    split_ifs <;> rfl

theorem set_answer {buf : List Byte} {fate : SetFate} {ok : Bool} (hkey : keyOk key = true)
    (h : (kvSet d key buf fate).1 = some ok) :
    ok = true ↔ (Op.set key buf fate).lands key = some (some (record buf)) := by
  unfold kvSet at h
  unfold Op.lands
  dsimp only
  by_cases hrefused : keyOk key = false ∨ fileMax - 8 < buf.length
  · rw [if_pos hrefused] at h
    rw [← Option.some.inj h, if_neg]
    · exact iff_of_false Bool.false_ne_true (Option.some_ne_none _).symm
    · rintro ⟨-, hlen, -⟩
      rcases hrefused with hk | hlong
      · rw [hkey] at hk
        cases hk
      · omega
  · have hfits : buf.length ≤ fileMax - 8 := Nat.le_of_not_lt (not_or.mp hrefused).2
    rw [if_neg hrefused] at h
    cases fate with
    | done =>
      rw [← Option.some.inj h, if_pos ⟨rfl, hfits, rfl⟩]
      exact iff_of_true rfl rfl
    | noOpen =>
      rw [← Option.some.inj h, if_neg fun h => Bool.noConfusion h.2.2]
      exact iff_of_false Bool.false_ne_true (Option.some_ne_none _).symm
    | failed tmp =>
      rw [← Option.some.inj h, if_neg fun h => Bool.noConfusion h.2.2]
      exact iff_of_false Bool.false_ne_true (Option.some_ne_none _).symm
    | lostBefore tmp => cases h
    | lostAfter => cases h

/-- What the newest operation that landed left in the file of the key. -/
def landed (tr : List (Record Op (Option Bool) Dir)) (key : List Char) :
    Option (Option (List Byte)) :=
  tr.findSome? fun r => r.inp.lands key

variable {d₀ : Dir} {tr : List (Record Op (Option Bool) Dir)}

theorem run_file (hkey : keyOk key = true) (h : Run step d₀ tr d) :
    d (kvName key) = (landed tr key).getD (d₀ (kvName key)) := by
  induction h with
  | nil => rfl
  | @cons tr d d' i o hrun hstep ih =>
    rw [step_file hkey hstep, ih]
    unfold landed
    rw [List.findSome?_cons]
    dsimp only
    cases i.lands key with
    | none => rfl
    | some x => rfl

theorem lands_cases {x : Option (List Byte)} (h : op.lands key = some x) :
    x = none ∨ ∃ v, x = some (record v) ∧ v.length + 8 ≤ fileMax := by
  cases op with
  | set key' buf fate =>
    obtain ⟨⟨-, hlen, -⟩, hx⟩ := Option.ite_none_right_eq_some.mp h
    have hmax : 8 ≤ fileMax := by decide
    exact .inr ⟨buf, (Option.some.inj hx).symm, by omega⟩
  | erase key' fate => exact .inl (Option.some.inj (Option.ite_none_right_eq_some.mp h).2).symm

theorem kvGet_eq (hkey : keyOk key = true) (d : Dir) (len : ℕ) : kvGet d key len true =
    (d (kvName key)).elim .missing fun raw => readRecord raw len := by
  unfold kvGet
  rw [if_neg (by rw [hkey]; exact Bool.noConfusion), if_neg Bool.noConfusion]
  cases d (kvName key) with
  | none => rfl
  | some raw => rfl

theorem readRecord_record {v : List Byte} (h : v.length + 8 ≤ fileMax) (len : ℕ) :
    readRecord (record v) len = if v.length ≤ len then .value v else .corrupt := by
  split_ifs with hlen
  · exact readRecord_eq_value.mpr ⟨rfl, hlen, h⟩
  · cases hread : readRecord (record v) len with
    | corrupt => rfl
    | missing =>
      unfold readRecord at hread
      dsimp only at hread
      split_ifs at hread
    | value v' =>
      obtain ⟨heq, hfit, -⟩ := readRecord_eq_value.mp hread
      obtain rfl := record_injective h heq
      exact absurd hfit hlen

/-- In every run a get answers what the newest operation that landed on its key left there, else
what it answered at the start: no other key's value, no value half written and none from before. -/
theorem run_get (hkey : keyOk key = true) (h : Run step d₀ tr d) (len : ℕ) :
    landed tr key = none ∧ kvGet d key len true = kvGet d₀ key len true ∨
      landed tr key = some none ∧ kvGet d key len true = .missing ∨
      ∃ v, landed tr key = some (some (record v)) ∧
        kvGet d key len true = if v.length ≤ len then .value v else .corrupt := by
  have hfile := run_file hkey h
  rw [kvGet_eq hkey, kvGet_eq hkey, hfile]
  cases hlast : landed tr key with
  | none => exact .inl ⟨rfl, rfl⟩
  | some x =>
    obtain ⟨r, -, hr⟩ := List.exists_of_findSome?_eq_some hlast
    rcases lands_cases hr with rfl | ⟨v, rfl, hv⟩
    · exact .inr (.inl ⟨rfl, rfl⟩)
    · exact .inr (.inr ⟨v, rfl, readRecord_record hv len⟩)

def emptyDir : Dir := fun _ => none

/-- A set of another key is cut short by the power. -/
def otherCut : Dir := (kvSet (kvSet emptyDir ['a'] [1, 2] .done).2 ['b'] [3] (.lostBefore none)).2

theorem run_get_otherCut : kvGet otherCut ['a'] 4 true = .value [1, 2] := by
  have h : Run step emptyDir [⟨.set ['b'] [3] (.lostBefore none), _, none, otherCut⟩,
      ⟨.set ['a'] [1, 2] .done, emptyDir, some true, _⟩] otherCut := .cons (.cons .nil rfl) rfl
  have hlast : landed [⟨.set ['b'] [3] (.lostBefore none),
      (kvSet emptyDir ['a'] [1, 2] .done).2, none,
      otherCut⟩, ⟨.set ['a'] [1, 2] .done, emptyDir, some true,
        (kvSet emptyDir ['a'] [1, 2] .done).2⟩]
      ['a'] = some (some (record [1, 2])) := rfl
  have hkey : keyOk ['a'] = true := by decide
  rcases run_get hkey h 4 with ⟨hnone, -⟩ | ⟨hnone, -⟩ | ⟨v, hv, hget⟩
  · cases hlast.symm.trans hnone
  · cases hlast.symm.trans hnone
  · have heq := Option.some.inj (Option.some.inj (hlast.symm.trans hv))
    obtain rfl := record_injective (by decide) heq
    exact hget

/-- A value whose set was answered 0 is what a get answers, where it fits the buffer, until an
operation on its key lands. -/
theorem stored_is_got {v : List Byte} {fate : SetFate} (hkey : keyOk key = true)
    (hset : step (.set key v fate) d₀ = some (some true, d')) (h : Run step d' tr d)
    (hno : landed tr key = none) {len : ℕ} (hlen : v.length ≤ len) :
    kvGet d key len true = .value v := by
  have hans := (set_answer hkey (congrArg Prod.fst (Option.some.inj hset))).mp rfl
  have hfits : v.length + 8 ≤ fileMax := by
    obtain ⟨⟨-, hlen, -⟩, -⟩ := Option.ite_none_right_eq_some.mp hans
    have hmax : 8 ≤ fileMax := by decide
    omega
  have hfile : d (kvName key) = some (record v) := by
    rw [run_file hkey h, hno, step_file hkey hset, hans]
    rfl
  rw [kvGet_eq hkey, hfile]
  exact readRecord_eq_value.mpr ⟨rfl, hlen, hfits⟩

end OpenCalifornia.Kv
