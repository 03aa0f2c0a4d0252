import OpenCalifornia.Web.BeaconTrees

/-! # The beacon of the two servers

`ux_batch` of `calictl/web.py`. The firmware takes a body just where it holds a value that
`ux_batch` takes. -/

namespace OpenCalifornia.Web
open Lib.Bits Lib.Json Lib.Flat Lib.Nested
open Lib.Buffer (chars)

/-- `dict.get` -/
def get (ms : List (List Byte × Tree)) (k : List Byte) : Option Tree :=
  (ms.find? fun m => m.1 = k).map Prod.snd

/-- A string that the pattern matches to its end. -/
def matchesText (min max : ℕ) (allowed : List Byte) : Tree → Bool
  | .str s => min ≤ s.length && s.length ≤ max && s.all (allowed.contains ·)
  | _ => false

/-- `[a-z0-9_.-]` -/
def idClass : List Byte := chars "abcdefghijklmnopqrstuvwxyz0123456789_.-"

/-- `[0-9a-f]` -/
def sidClass : List Byte := chars "0123456789abcdef"

/-- `[ -~]` -/
def printClass : List Byte := (List.range 95).map fun i => BitVec.ofNat 8 (0x20 + i)

/-- `UX_EVENTS` -/
def uxEventKeys : List (List Byte × List (List Byte)) :=
  [(chars "view", [chars "screen"]), (chars "control", [chars "fn", chars "control"]),
    (chars "timing", [chars "ttfb", chars "dcl", chars "tiles"]), (chars "error", [chars "msg"])]

/-- `UX_OPTIONAL` -/
def uxOptional : List (List Byte × List (List Byte)) := [(chars "control", [chars "value"])]

/-- `_ux_value` -/
def uxValue (key : List Byte) (v : Tree) : Bool :=
  if key = chars "msg" then matchesText 1 200 printClass v
  else if key = chars "value" then matchesText 1 32 printClass v
  else if key ∈ [chars "ttfb", chars "dcl", chars "tiles"] then
    match v with
    | .int n => 0 ≤ n && n ≤ 600000
    | _ => false
  else matchesText 1 32 idClass v

/-- The keys that `dict.get` finds for a type; what is no string is the text of no key. -/
def needsOf : Option Tree → Option (List Byte × List (List Byte))
  | some (.str type) => (uxEventKeys.lookup type).map fun keys => (type, keys)
  | _ => none

/-- The body of the loop over the events. -/
def uxEventOk : Tree → Bool
  | .obj e =>
    match needsOf (get e (chars "type")) with
    | none => false
    | some (type, keys) =>
      let names := e.map Prod.fst
      let needs := chars "type" :: keys
      needs.all (names.contains ·) &&
        names.all ((needs ++ (uxOptional.lookup type).getD []).contains ·) &&
        e.all fun m => m.1 = chars "type" || uxValue m.1 m.2
  | _ => false

def isEnum (allowed : List (List Byte)) : Option Tree → Bool
  | some (.str v) => allowed.contains v
  | _ => false

def isBool : Option Tree → Bool
  | some (.bool _) => true
  | _ => false

/-- The list of the events, and the loop over it. -/
def isEvents : Option Tree → Bool
  | some (.arr evs) => 1 ≤ evs.length && evs.length ≤ 16 && evs.all uxEventOk
  | _ => false

/-- `ux_batch` -/
def uxBatch : Tree → Bool
  | .obj o =>
    let names := o.map Prod.fst
    let keys := [chars "sid", chars "ua_class", chars "standalone", chars "origin", chars "events"]
    names.all (keys.contains ·) && keys.all (names.contains ·) &&
      (get o (chars "sid")).any (matchesText 8 32 sidClass) &&
      isBool (get o (chars "standalone")) &&
      isEnum [chars "ios", chars "android", chars "mac", chars "other"]
        (get o (chars "ua_class")) &&
      isEnum [chars "lan", chars "busnet", chars "buspi"] (get o (chars "origin")) &&
      isEvents (get o (chars "events"))
  | _ => false

variable {ms : List (List Byte × Tree)} {k : List Byte} {t : Tree} {i : ℕ}

theorem get_eq_some (hn : (ms.map Prod.fst).Nodup) : get ms k = some t ↔ (k, t) ∈ ms := by
  unfold get
  constructor
  · intro h
    obtain ⟨m, hm, rfl⟩ := Option.map_eq_some_iff.mp h
    have hk : m.1 = k := by simpa using List.find?_some hm
    exact hk ▸ List.mem_of_find?_eq_some hm
  · intro h
    obtain ⟨m, hm⟩ : ∃ m, ms.find? (fun m => m.1 = k) = some m :=
      Option.isSome_iff_exists.mp (List.find?_isSome.mpr ⟨(k, t), h, decide_eq_true rfl⟩)
    have hk : m.1 = k := by simpa using List.find?_some hm
    have heq : m = (k, t) := List.inj_on_of_nodup_map hn (List.mem_of_find?_eq_some hm) h hk
    rw [hm, heq]
    rfl

theorem mem_names : k ∈ ms.map Prod.fst ↔ ∃ t, (k, t) ∈ ms := by
  constructor
  · intro h
    obtain ⟨m, hm, rfl⟩ := List.mem_map.mp h
    exact ⟨m.2, hm⟩
  · rintro ⟨t, ht⟩
    exact List.mem_map_of_mem ht

theorem contains_of_codes {s : List Byte} {b : Bool} {c : Byte} (codes : List ℕ)
    (hs : s.map BitVec.toNat = codes) (h : b = true ↔ c.toNat ∈ codes) : b = s.contains c := by
  have hinj : Function.Injective (BitVec.toNat : Byte → ℕ) := fun _ _ => BitVec.eq_of_toNat_eq
  rw [Bool.eq_iff_iff, h, List.contains_iff_mem, ← hs, List.mem_map_of_injective hinj]

theorem isId_eq (c : Byte) : isId c = idClass.contains c := by
  refine contains_of_codes (List.range' 0x61 26 ++ List.range' 0x30 10 ++ [0x5F, 0x2E, 0x2D])
    (by decide) ?_
  simp only [isId, isDigit, Bool.or_eq_true, Bool.and_eq_true, decide_eq_true_eq,
    ← BitVec.toNat_inj, List.mem_append, List.mem_range'_1, List.mem_cons, List.not_mem_nil,
    or_false, BitVec.reduceToNat]
  omega

theorem isHex_eq (c : Byte) : isHex c = sidClass.contains c := by
  refine contains_of_codes (List.range' 0x30 10 ++ List.range' 0x61 6) (by decide) ?_
  simp only [isHex, isDigit, Bool.or_eq_true, Bool.and_eq_true, decide_eq_true_eq, List.mem_append,
    List.mem_range'_1]
  omega

theorem isPrint_eq (c : Byte) : isPrint c = printClass.contains c := by
  refine contains_of_codes (List.range' 0x20 95) (by decide) ?_
  simp only [isPrint, Bool.and_eq_true, decide_eq_true_eq, List.mem_range'_1]
  omega

theorem asText_isSome {min max : ℕ} {allowed : Byte → Bool} {cls : List Byte}
    (h : ∀ c, allowed c = cls.contains c) :
    (asText min max allowed t).isSome = matchesText min max cls t := by
  cases t with
  | str s =>
    rw [asText, matchesText, funext h, Bool.eq_iff_iff]
    simp only [Bool.and_eq_true, decide_eq_true_eq, and_assoc]
    split_ifs with hs
    · exact iff_of_true rfl hs
    · exact iff_of_false Bool.false_ne_true hs
  | _ => rfl

theorem asUxInt_isSome : (asUxInt t).isSome = uxValue (chars "ttfb") t := by
  cases t with
  | int n =>
    have hkey : uxValue (chars "ttfb") (.int n) = (decide (0 ≤ n) && decide (n ≤ 600000)) := rfl
    have hmax : (uxIntMax : ℤ) = 600000 := rfl
    rw [hkey, asUxInt, hmax, Bool.eq_iff_iff, Bool.and_eq_true, decide_eq_true_eq,
      decide_eq_true_eq]
    split_ifs with hn
    · exact iff_of_true rfl hn
    · exact iff_of_false Bool.false_ne_true hn
  | _ => rfl

/-- The firmware takes a value of an event by its key. -/
def okEvent (i : ℕ) (t : Tree) : Prop :=
  if i ≤ 2 then (asText 1 32 isId t).isSome
  else if i ≤ 5 then (asUxInt t).isSome
  else if i = 6 then (asText 1 uxMsgMax isPrint t).isSome
  else if i = 7 then (asEnum uxTypes t).isSome
  else (asText 1 uxValueMax isPrint t).isSome

theorem eventTake_isSome (i : ℕ) (t : Tree) (e : UxEv) :
    (eventTake i t e).isSome ↔ okEvent i t := by
  unfold eventTake okEvent
  split_ifs <;> rw [Option.isSome_map]

theorem okEvent_iff (hi : uxKeys.names[i]? = some k) (hk : k ≠ chars "type") :
    okEvent i t ↔ uxValue k t = true := by
  have hid := @asText_isSome t 1 32 _ _ isId_eq
  have hmsg := @asText_isSome t 1 uxMsgMax _ _ isPrint_eq
  have hval := @asText_isSome t 1 uxValueMax _ _ isPrint_eq
  have hint := @asUxInt_isSome t
  have hlt : i < 9 := (List.getElem?_eq_some_iff.mp hi).1
  interval_cases i <;> obtain rfl := Option.some.inj hi
  · exact iff_of_eq (congrArg (· = true) hid)
  · exact iff_of_eq (congrArg (· = true) hid)
  · exact iff_of_eq (congrArg (· = true) hid)
  · exact iff_of_eq (congrArg (· = true) hint)
  · exact iff_of_eq (congrArg (· = true) hint)
  · exact iff_of_eq (congrArg (· = true) hint)
  · exact iff_of_eq (congrArg (· = true) hmsg)
  · exact absurd rfl hk
  · exact iff_of_eq (congrArg (· = true) hval)

/-- The keys that an event of a type has, and the one that it may have. -/
def needsAt (type : ℕ) : List (List Byte) :=
  chars "type" :: (uxEventKeys.getD type ([], [])).2

def optionalAt (type : ℕ) : List (List Byte) := if type = 1 then [chars "value"] else []

theorem needsOf_str {type : ℕ} {name : List Byte} (h : uxTypes[type]? = some name) :
    needsOf (some (.str name)) = some (name, (uxEventKeys.getD type ([], [])).2) ∧
      (uxOptional.lookup name).getD [] = optionalAt type := by
  have hlt : type < 4 := (List.getElem?_eq_some_iff.mp h).1
  have hall : ∀ type < 4, needsOf (some (.str (uxTypes.getD type []))) =
      some (uxTypes.getD type [], (uxEventKeys.getD type ([], [])).2) ∧
      (uxOptional.lookup (uxTypes.getD type [])).getD [] = optionalAt type := by
    decide
  have hname : uxTypes.getD type [] = name := by
    rw [List.getD_eq_getElem?_getD, h, Option.getD_some]
  rw [← hname]
  exact hall type hlt

theorem needsOf_eq_some {o : Option Tree} {name : List Byte} {keys : List (List Byte)}
    (h : needsOf o = some (name, keys)) :
    o = some (.str name) ∧ ∃ type : ℕ, uxTypes[type]? = some name := by
  have htypes : ∀ name, (uxEventKeys.lookup name).isSome → name ∈ uxTypes := by
    intro name hsome
    obtain ⟨keys, hkeys⟩ := Option.isSome_iff_exists.mp hsome
    have hmem := List.lookup_eq_some_iff.mp hkeys
    obtain ⟨l₁, l₂, heq, -⟩ := hmem
    have hin : name ∈ uxEventKeys.map Prod.fst := by
      rw [heq]
      simp
    exact hin
  unfold needsOf at h
  split at h
  · obtain ⟨keys', hkeys, heq⟩ := Option.map_eq_some_iff.mp h
    obtain ⟨rfl, rfl⟩ := Prod.mk.inj heq
    exact ⟨rfl, List.mem_iff_getElem?.mp (htypes _ (hkeys ▸ rfl))⟩
  · cases h

theorem needs_bits : ∀ type < 4, ∀ i < 9, (128 ||| uxNeeds.getD type 0).testBit i =
    decide (uxKeys.names.getD i [] ∈ needsAt type) := by
  decide

theorem low_byte_iff {seen m : ℕ} (hm : m < 2 ^ 8) :
    seen &&& 255 = m ↔ ∀ i < 8, seen.testBit i = m.testBit i := by
  have hmask : (255 : ℕ) = 2 ^ 8 - 1 := rfl
  constructor
  · rintro rfl i hi
    rw [Nat.testBit_and, hmask, Nat.testBit_two_pow_sub_one, decide_eq_true hi, Bool.and_true]
  · intro h
    refine Nat.eq_of_testBit_eq fun i => ?_
    rw [Nat.testBit_and, hmask, Nat.testBit_two_pow_sub_one]
    by_cases hi : i < 8
    · rw [decide_eq_true hi, Bool.and_true]
      exact h i hi
    · have hbig : m < 2 ^ i := hm.trans_le (Nat.pow_le_pow_right (by decide) (Nat.le_of_not_lt hi))
      rw [decide_eq_false hi, Bool.and_false, Nat.testBit_lt_two_pow hbig]

theorem uxTypes_nodup : uxTypes.Nodup := by decide

theorem names_known : ∀ type < 4, ∀ k ∈ needsAt type ++ optionalAt type,
    ∃ i < 9, uxKeys.names[i]? = some k := by
  decide

theorem shape_iff {seen type : ℕ} (htype : type < 4)
    (hseen : ∀ i, seen.testBit i = true ↔ ∃ m ∈ ms, uxKeys.names[i]? = some m.1)
    (hknown : ∀ m ∈ ms, ∃ i : ℕ, uxKeys.names[i]? = some m.1) :
    uxShape seen type ↔ (∀ k ∈ needsAt type, k ∈ ms.map Prod.fst) ∧
      ∀ k ∈ ms.map Prod.fst, k ∈ needsAt type ++ optionalAt type := by
  have hsmall : ∀ type < 4, 128 ||| uxNeeds.getD type 0 < 2 ^ 8 := by decide
  have hlist : ∀ type < 4, ∀ k ∈ needsAt type, ∃ i < 8, uxKeys.names[i]? = some k := by
    decide
  have hvalue : chars "value" ∉ needsAt type := by
    have hall : ∀ type < 4, chars "value" ∉ needsAt type := by decide
    exact hall type htype
  have hbit : ∀ {i : ℕ} {k : List Byte}, uxKeys.names[i]? = some k →
      (seen.testBit i = true ↔ k ∈ ms.map Prod.fst) ∧
      ((128 ||| uxNeeds.getD type 0).testBit i = true ↔ k ∈ needsAt type) := by
    intro i k hi
    constructor
    · rw [hseen, List.mem_map]
      constructor
      · rintro ⟨m, hm, hk⟩
        exact ⟨m, hm, Option.some.inj (hk.symm.trans hi)⟩
      · rintro ⟨m, hm, rfl⟩
        exact ⟨m, hm, hi⟩
    · have hlt : i < 9 := (List.getElem?_eq_some_iff.mp hi).1
      rw [needs_bits type htype i hlt, decide_eq_true_eq, List.getD_eq_getElem?_getD, hi,
        Option.getD_some]
  have hlast : uxKeys.names[8]? = some (chars "value") := rfl
  have hlen : 8 < uxKeys.names.length := Nat.lt_succ_self 8
  unfold uxShape
  rw [low_byte_iff (hsmall type htype)]
  constructor
  · rintro ⟨hval, hbits⟩
    constructor
    · intro k hk
      obtain ⟨i, hi, hat⟩ := hlist type htype k hk
      exact (hbit hat).1.mp ((hbits i hi).trans ((hbit hat).2.mpr hk))
    · intro k hk
      obtain ⟨m, hm, rfl⟩ := List.mem_map.mp hk
      obtain ⟨i, hi⟩ := hknown m hm
      have hset := (hbit hi).1.mpr hk
      by_cases hlt : i < 8
      · exact List.mem_append_left _ ((hbit hi).2.mp ((hbits i hlt).symm.trans hset))
      · have hnine : i < 9 := (List.getElem?_eq_some_iff.mp hi).1
        obtain rfl : i = 8 := by omega
        have hone : type = 1 := by_contra fun hne => hval ⟨hset, hne⟩
        refine List.mem_append_right _ ?_
        rw [optionalAt, if_pos hone, Option.some.inj (hlast.symm.trans hi)]
        exact List.mem_singleton_self _
  · rintro ⟨hneeds, hnames⟩
    constructor
    · rintro ⟨hset, hne⟩
      have hmem := hnames _ ((hbit hlast).1.mp hset)
      rw [optionalAt, if_neg hne, List.append_nil] at hmem
      exact hvalue hmem
    · intro i hi
      obtain ⟨k, hk⟩ : ∃ k, uxKeys.names[i]? = some k :=
        ⟨_, List.getElem?_eq_getElem (hi.trans hlen)⟩
      rw [Bool.eq_iff_iff, (hbit hk).1, (hbit hk).2]
      refine ⟨fun hmem => ?_, hneeds k⟩
      refine (List.mem_append.mp (hnames k hmem)).resolve_right fun hopt => ?_
      unfold optionalAt at hopt
      split_ifs at hopt
      · have hkv := List.mem_singleton.mp hopt
        have hi8 : i = 8 := (List.getElem?_inj (hi.trans hlen) uxKeys.nodup).mp
          (hk.trans (hkv ▸ hlast.symm))
        omega
      · cases hopt

theorem uxEventOk_iff : uxEventOk (.obj ms) = true ↔ ∃ type name,
    get ms (chars "type") = some (.str name) ∧ uxTypes[type]? = some name ∧
      ((∀ k ∈ needsAt type, k ∈ ms.map Prod.fst) ∧
        ∀ k ∈ ms.map Prod.fst, k ∈ needsAt type ++ optionalAt type) ∧
      ∀ m ∈ ms, m.1 = chars "type" ∨ uxValue m.1 m.2 = true := by
  constructor
  · intro h
    unfold uxEventOk at h
    dsimp only at h
    split at h
    · cases h
    · next name keys hneeds =>
      obtain ⟨hget, type, htype⟩ := needsOf_eq_some hneeds
      obtain ⟨hkeys, hopt⟩ := needsOf_str htype
      rw [hget, hkeys] at hneeds
      obtain ⟨-, rfl⟩ := Prod.mk.inj (Option.some.inj hneeds)
      rw [hopt] at h
      simp only [Bool.and_eq_true, List.all_eq_true, List.contains_iff_mem, Bool.or_eq_true,
        decide_eq_true_eq] at h
      exact ⟨type, name, hget, htype, h.1, h.2⟩
  · rintro ⟨type, name, hget, htype, hset, hvals⟩
    obtain ⟨hkeys, hopt⟩ := needsOf_str htype
    unfold uxEventOk
    dsimp only
    rw [hget, hkeys]
    dsimp only
    rw [hopt]
    simp only [Bool.and_eq_true, List.all_eq_true, List.contains_iff_mem, Bool.or_eq_true,
      decide_eq_true_eq]
    exact ⟨hset, hvals⟩

theorem type_bit {seen type : ℕ} (h : uxShape seen type) : seen.testBit 7 = true := by
  have hmask := congrArg (Nat.testBit · 7) h.2
  have hlow : Nat.testBit 255 7 = true := rfl
  have hset : Nat.testBit 128 7 = true := rfl
  simpa [Nat.testBit_and, Nat.testBit_or, hlow, hset] using hmask

theorem type_lt (h : asEnum uxTypes t = some i) : i < 4 := by
  cases t with
  | str name => exact (List.getElem?_eq_some_iff.mp ((indexOf_iff uxTypes_nodup).mp h)).1
  | _ => simp [asEnum] at h

theorem type_member {seen b : ℕ} {e e' : UxEv} (hn : (ms.map Prod.fst).Nodup)
    (h : takeMembers uxKeys.names eventTake ms seen e = some (b, e'))
    (ht : (chars "type", t) ∈ ms) : (asEnum uxTypes t).isSome ∧ asEnum uxTypes t = e'.type := by
  have hat : uxKeys.names[7]? = some (chars "type") := rfl
  refine @takeMembers_member _ _ _ _ _ _ _ _ _ _ UxEv.type 7
    (fun t v => (asEnum uxTypes t).isSome ∧ asEnum uxTypes t = v) _ uxKeys.nodup ?_ ?_ hn hat ht h
  · intro j t x y _ hj hy
    unfold eventTake at hy
    split_ifs at hy
    all_goals
      obtain ⟨v, -, rfl⟩ := Option.map_eq_some_iff.mp hy
      rfl
  · intro t x y hy
    obtain ⟨v, hv, rfl⟩ := Option.map_eq_some_iff.mp hy
    exact ⟨hv ▸ rfl, hv⟩

theorem eventOf_isSome (hn : (ms.map Prod.fst).Nodup) :
    (eventOf (.obj ms)).isSome ↔ uxEventOk (.obj ms) = true := by
  have htypeKey : uxKeys.names[7]? = some (chars "type") := rfl
  have htake := @takeMembers_isSome _ _ eventTake 0 {} ms okEvent uxKeys.nodup eventTake_isSome
  rw [uxEventOk_iff]
  constructor
  · intro h
    obtain ⟨e, he⟩ := Option.isSome_iff_exists.mp h
    obtain ⟨⟨seen, ev⟩, hread, he⟩ := Option.bind_eq_some_iff.mp he
    obtain ⟨type, htype, he⟩ := Option.bind_eq_some_iff.mp he
    obtain ⟨hshape, -⟩ := Option.ite_none_right_eq_some.mp he
    have hall := htake.mp ⟨seen, ev, hread⟩
    have hseen := takeMembers_bits uxKeys.nodup hread
    obtain ⟨⟨k, t⟩, hmem, hk⟩ := (hseen 7).mp (type_bit hshape)
    obtain rfl := Option.some.inj (htypeKey.symm.trans hk)
    obtain ⟨-, henum⟩ := type_member hn hread hmem
    dsimp only at htype
    rw [htype] at henum
    cases t with
    | str name =>
      have hname := (indexOf_iff uxTypes_nodup).mp henum
      have hlt : type < 4 := (List.getElem?_eq_some_iff.mp hname).1
      refine ⟨type, name, (get_eq_some hn).mpr hmem, hname,
        (shape_iff hlt hseen fun m hm => (hall m hm).imp fun _ h => h.1).mp hshape, fun m hm => ?_⟩
      obtain ⟨i, hi, hok⟩ := hall m hm
      by_cases hkey : m.1 = chars "type"
      · exact .inl hkey
      · exact .inr ((okEvent_iff hi hkey).mp hok)
    | _ => simp [asEnum] at henum
  · rintro ⟨type, name, hget, htype, hset, hvals⟩
    have hmem := (get_eq_some hn).mp hget
    have hlt : type < 4 := (List.getElem?_eq_some_iff.mp htype).1
    have hall : ∀ m ∈ ms, ∃ i : ℕ, uxKeys.names[i]? = some m.1 ∧ okEvent i m.2 := by
      intro m hm
      obtain ⟨i, -, hi⟩ := names_known type hlt m.1 (hset.2 m.1 (List.mem_map_of_mem hm))
      refine ⟨i, hi, ?_⟩
      by_cases hkey : m.1 = chars "type"
      · have hseven : i = 7 := by
          rw [hkey] at hi
          exact (List.getElem?_inj (List.getElem?_eq_some_iff.mp hi).1 uxKeys.nodup).mp
            (hi.trans htypeKey.symm)
        have heq : m = (chars "type", .str name) := List.inj_on_of_nodup_map hn hm hmem hkey
        rw [hseven, heq]
        exact Option.isSome_iff_exists.mpr ⟨type, (indexOf_iff uxTypes_nodup).mpr htype⟩
      · exact (okEvent_iff hi hkey).mpr ((hvals m hm).resolve_left hkey)
    obtain ⟨seen, ev, hread⟩ := htake.mpr hall
    have hseen := takeMembers_bits uxKeys.nodup hread
    obtain ⟨-, henum⟩ := type_member hn hread hmem
    have htypeEv : ev.type = some type :=
      henum.symm.trans ((indexOf_iff uxTypes_nodup).mpr htype)
    have hshape := (shape_iff hlt hseen fun m hm => (hall m hm).imp fun _ h => h.1).mpr hset
    rw [eventOf, hread, Option.bind_some, htypeEv, Option.bind_some, if_pos hshape]
    rfl

/-- The firmware takes a value of the body by its key. -/
def okBody (i : ℕ) (t : Tree) : Prop :=
  if i = 0 then (asText 8 32 isHex t).isSome
  else if i = 1 then (asEnum uxUa t).isSome
  else if i = 2 then (asBool t).isSome
  else if i = 3 then (asEnum uxOrigin t).isSome
  else (eventsOf t).isSome

theorem bodyTake_isSome (emit : Bool) (i : ℕ) (t : Tree) (x : UxPass) :
    (bodyTake emit i t x).isSome ↔ okBody i t := by
  unfold bodyTake okBody
  split_ifs <;> rw [Option.isSome_map]

theorem asEnum_isSome (set : List (List Byte)) (t : Tree) :
    (asEnum set t).isSome = isEnum set (some t) := by
  cases t with
  | str v =>
    rw [asEnum, isEnum, indexOf, List.findIdx?_isSome, Bool.eq_iff_iff, List.any_eq_true,
      List.contains_iff_mem]
    constructor
    · rintro ⟨n, hn, heq⟩
      exact of_decide_eq_true heq ▸ hn
    · exact fun hv => ⟨v, hv, decide_eq_true rfl⟩
  | _ => rfl

theorem itemsOf_isSome {ts : List Tree} (h : ∀ t ∈ ts, ∃ s r, Reads s (.value t) r) :
    (itemsOf ts).isSome ↔ ∀ t ∈ ts, uxEventOk t = true := by
  induction ts with
  | nil => exact ⟨fun _ t ht => absurd ht List.not_mem_nil, fun _ => rfl⟩
  | cons t ts ih =>
    obtain ⟨⟨s, r, ht⟩, hts⟩ := List.forall_mem_cons.mp h
    have hhead : (eventOf t).isSome ↔ uxEventOk t = true := by
      cases t with
      | obj ms => exact eventOf_isSome ht.nodup
      | _ => exact Iff.rfl
    rw [List.forall_mem_cons, ← hhead, ← ih hts, itemsOf]
    cases eventOf t with
    | none => simp
    | some e => simp

theorem eventsOf_isSome {s r : List Byte} (h : Reads s (.value t) r) :
    (eventsOf t).isSome ↔ isEvents (some t) = true := by
  cases t with
  | arr ts =>
    have hts : ∀ t ∈ ts, ∃ s r, Reads s (.value t) r := by
      intro t ht
      cases h with
      | noItems => exact absurd ht List.not_mem_nil
      | arr ho hi => exact hi.of_items ht
    rw [eventsOf, isEvents, Bool.and_eq_true, Bool.and_eq_true, List.all_eq_true,
      decide_eq_true_eq, decide_eq_true_eq, ← itemsOf_isSome hts]
    split_ifs with hlen
    · exact (and_iff_right hlen).symm
    · exact iff_of_false Bool.false_ne_true fun h => hlen h.1
  | _ => exact Iff.rfl

/-- What `ux_batch` asks of the value of a key. -/
def bodyCheck : ℕ → Option Tree → Bool
  | 0 => fun o => o.any (matchesText 8 32 sidClass)
  | 1 => isEnum uxUa
  | 2 => isBool
  | 3 => isEnum uxOrigin
  | _ => isEvents

theorem okBody_iff {s r : List Byte} (h : Reads s (.value t) r) (i : ℕ) :
    okBody i t ↔ bodyCheck i (some t) = true := by
  obtain _ | _ | _ | _ | i := i
  · exact iff_of_eq (congrArg (· = true) (asText_isSome isHex_eq))
  · exact iff_of_eq (congrArg (· = true) (asEnum_isSome uxUa t))
  · cases t <;> exact Iff.rfl
  · exact iff_of_eq (congrArg (· = true) (asEnum_isSome uxOrigin t))
  · exact eventsOf_isSome h

theorem uxBatch_iff : uxBatch (.obj ms) = true ↔
    (∀ k ∈ ms.map Prod.fst, k ∈ uxBodyKeys.names) ∧ (∀ k ∈ uxBodyKeys.names, k ∈ ms.map Prod.fst) ∧
      ∀ i < 5, bodyCheck i (get ms (uxBodyKeys.names.getD i [])) = true := by
  have hunfold : uxBatch (.obj ms) = ((ms.map Prod.fst).all (uxBodyKeys.names.contains ·) &&
      uxBodyKeys.names.all ((ms.map Prod.fst).contains ·) &&
      bodyCheck 0 (get ms (uxBodyKeys.names.getD 0 [])) &&
      bodyCheck 2 (get ms (uxBodyKeys.names.getD 2 [])) &&
      bodyCheck 1 (get ms (uxBodyKeys.names.getD 1 [])) &&
      bodyCheck 3 (get ms (uxBodyKeys.names.getD 3 [])) &&
      bodyCheck 4 (get ms (uxBodyKeys.names.getD 4 []))) := rfl
  rw [hunfold]
  simp only [Bool.and_eq_true, List.all_eq_true, List.contains_iff_mem, and_assoc]
  refine and_congr_right fun _ => and_congr_right fun _ => ?_
  constructor
  · rintro ⟨h₀, h₂, h₁, h₃, h₄⟩ i hi
    interval_cases i
    · exact h₀
    · exact h₁
    · exact h₂
    · exact h₃
    · exact h₄
  · intro h
    exact ⟨h 0 (by decide), h 2 (by decide), h 1 (by decide), h 3 (by decide), h 4 (by decide)⟩

theorem of_obj {s r k : List Byte} (h : Reads s (.value (.obj ms)) r) (hm : (k, t) ∈ ms) :
    ∃ s r, Reads s (.value t) r := by
  cases h with
  | noMembers => exact absurd hm List.not_mem_nil
  | obj ho hn hms => exact hms.of_members hm

theorem takeBody_iff {emit : Bool} {x : UxPass} {s r : List Byte}
    (h : Reads s (.value (.obj ms)) r) :
    (∃ y, takeMembers uxBodyKeys.names (bodyTake emit) ms 0 x = some (31, y)) ↔
      uxBatch (.obj ms) = true := by
  have htake := @takeMembers_isSome _ _ (bodyTake emit) 0 x ms okBody uxBodyKeys.nodup
    (bodyTake_isSome emit)
  have hlen : uxBodyKeys.names.length = 5 := rfl
  have hat : ∀ i < 5, uxBodyKeys.names[i]? = some (uxBodyKeys.names.getD i []) := by
    intro i hi
    rw [List.getD_eq_getElem?_getD, List.getElem?_eq_getElem (hlen ▸ hi), Option.getD_some]
  have hmask : ∀ i < 5, Nat.testBit 31 i = true := by decide
  rw [uxBatch_iff]
  constructor
  · rintro ⟨y, hread⟩
    have hall := htake.mp ⟨31, y, hread⟩
    have hbits := takeMembers_bits uxBodyKeys.nodup hread
    refine ⟨fun k hk => ?_, fun k hk => ?_, fun i hi => ?_⟩
    · obtain ⟨t, ht⟩ := mem_names.mp hk
      obtain ⟨i, hi, -⟩ := hall _ ht
      exact List.mem_of_getElem? hi
    · obtain ⟨i, hi⟩ := List.mem_iff_getElem?.mp hk
      obtain ⟨m, hm, hkm⟩ := (hbits i).mp (hmask i (hlen ▸ (List.getElem?_eq_some_iff.mp hi).1))
      obtain rfl := Option.some.inj (hi.symm.trans hkm)
      exact List.mem_map_of_mem hm
    · obtain ⟨⟨k, t⟩, hm, hkm⟩ := (hbits i).mp (hmask i hi)
      obtain rfl := Option.some.inj ((hat i hi).symm.trans hkm)
      obtain ⟨j, hj, hok⟩ := hall _ hm
      obtain rfl := (List.getElem?_inj (hlen ▸ hi) uxBodyKeys.nodup).mp ((hat i hi).trans hj.symm)
      obtain ⟨s', r', ht⟩ := of_obj h hm
      rw [(get_eq_some h.nodup).mpr hm]
      exact (okBody_iff ht i).mp hok
  · rintro ⟨hnames, hkeys, hchecks⟩
    have hall : ∀ m ∈ ms, ∃ i : ℕ, uxBodyKeys.names[i]? = some m.1 ∧ okBody i m.2 := by
      rintro ⟨k, t⟩ hm
      obtain ⟨i, hi⟩ := List.mem_iff_getElem?.mp (hnames k (List.mem_map_of_mem hm))
      have hlt : i < 5 := hlen ▸ (List.getElem?_eq_some_iff.mp hi).1
      obtain ⟨s', r', ht⟩ := of_obj h hm
      have hk := Option.some.inj ((hat i hlt).symm.trans hi)
      have hcheck := hchecks i hlt
      rw [hk, (get_eq_some h.nodup).mpr hm] at hcheck
      exact ⟨i, hi, (okBody_iff ht i).mpr hcheck⟩
    obtain ⟨seen, y, hread⟩ := htake.mpr hall
    have hseen : seen = 31 := by
      refine Nat.eq_of_testBit_eq fun j => ?_
      have hbit := takeMembers_bits uxBodyKeys.nodup hread j
      by_cases hj : j < 5
      · obtain ⟨m, hm, hkm⟩ := List.mem_map.mp (hkeys _ (List.mem_of_getElem? (hat j hj)))
        rw [hmask j hj]
        exact hbit.mpr ⟨m, hm, hkm ▸ hat j hj⟩
      · have hbig : 31 < 2 ^ j :=
          (by decide : 31 < 2 ^ 5).trans_le (Nat.pow_le_pow_right (by decide) (Nat.le_of_not_lt hj))
        rw [Nat.testBit_lt_two_pow hbig, ← Bool.not_eq_true, hbit]
        rintro ⟨m, -, hkm⟩
        exact hj (hlen ▸ (List.getElem?_eq_some_iff.mp hkm).1)
    exact ⟨y, hseen ▸ hread⟩

theorem uxBatch_obj {t : Tree} (h : uxBatch t = true) : ∃ ms, t = .obj ms := by
  cases t with
  | obj ms => exact ⟨ms, rfl⟩
  | _ => simp [uxBatch] at h

theorem uxParse_isSome {emit : Bool} {x : UxPass} {body : List Byte} :
    (∃ y, uxParse emit body x = some y) ↔ ∃ t, ReadsAll body t ∧ uxBatch t = true := by
  simp only [uxParse_iff]
  constructor
  · rintro ⟨y, ms, ⟨r, hr, hws⟩, htake⟩
    exact ⟨.obj ms, ⟨r, hr, hws⟩, (takeBody_iff hr).mp ⟨y, htake⟩⟩
  · rintro ⟨t, ⟨r, hr, hws⟩, hbatch⟩
    obtain ⟨ms, rfl⟩ := uxBatch_obj hbatch
    have htakes := @takeBody_iff ms emit x _ _ hr
    obtain ⟨y, htake⟩ := htakes.mpr hbatch
    exact ⟨y, ms, ⟨r, hr, hws⟩, htake⟩

/-- A beacon is taken where it holds a batch of `ux_batch`, and where it does not nothing is
recorded. -/
theorem apiUx_accepts (body : List Byte) :
    ((apiUx .station true body).1 = 204 ↔
        body.length ≤ uxBodyMax ∧ ∃ t, ReadsAll body t ∧ uxBatch t = true) ∧
      ((apiUx .station true body).1 ≠ 204 → (apiUx .station true body).2 = []) := by
  have hmode : ¬ WifiMode.station ≠ .station := fun h => h rfl
  unfold apiUx
  rw [if_neg hmode]
  by_cases hlen : body.length > uxBodyMax
  · rw [if_pos hlen]
    exact ⟨iff_of_false (by decide) fun h => absurd h.1 (Nat.not_le.mpr hlen), fun _ => rfl⟩
  · rw [if_neg hlen, if_neg fun h => h rfl]
    have hfirst := @uxParse_isSome false ({}, []) body
    cases hparse : uxParse false body ({}, []) with
    | none =>
      have hbad : (400 : ℕ) ≠ 204 := by decide
      refine ⟨iff_of_false hbad fun h => ?_, fun _ => rfl⟩
      obtain ⟨y, hy⟩ := hfirst.mpr h.2
      rw [hparse] at hy
      cases hy
    | some x =>
      have hbatch := hfirst.mp ⟨x, hparse⟩
      obtain ⟨y, hy⟩ := (@uxParse_isSome true x body).mpr hbatch
      dsimp only
      rw [hy]
      exact ⟨iff_of_true rfl ⟨Nat.le_of_not_lt hlen, hbatch⟩, fun h => absurd rfl h⟩

end OpenCalifornia.Web
