import OpenCalifornia.Lib.Flat

/-! # The POST-body parser

`web.c` reads every body as one object of known keys, each at most once. What is left of the body
stands for the cursor: a byte that `expect` refuses leaves the cursor behind the white space, which
whatever reads next skips as well. -/

namespace OpenCalifornia.Web
open Lib.Bits Lib.Json Lib.Flat

def expect (ch : Byte) (s : List Byte) : Option (List Byte) := token ch s

/-- A string buffer of `parse_str`, and the whole decoded length, which may exceed it. -/
structure Cut where
  buf : List Byte
  len : ℕ
  deriving DecidableEq

/-- A string after its opening quote, decoded. -/
def decode : List Byte → Option (List Byte × List Byte)
  | [] => none
  | ch :: s =>
    if ch = quote then some ([], s)
    else if ch.toNat < 0x20 then none
    else if ch = backslash then
      match s with
      | [] => none
      | e :: s =>
        if e = quote ∨ e = backslash then (decode s).map fun r => (e :: r.1, r.2) else none
    else (decode s).map fun r => (ch :: r.1, r.2)
termination_by structural s => s

def parseStr (cap : ℕ) (s : List Byte) : Option (Cut × List Byte) :=
  (expect quote s).bind fun s => (decode s).map fun r => (⟨r.1.take (cap - 1), r.1.length⟩, r.2)

def indexOf (s : List Byte) (set : List (List Byte)) : Option ℕ := set.findIdx? (· = s)

/-- `char key[24]` -/
def keyCap : ℕ := 24

section Objects

variable {σ : Type*} (keys : List (List Byte))
  (field : ℕ → σ → List Byte → Option (σ × List Byte))

/-- The loop of `parse_obj`, with the bits of the keys seen. -/
def parseMembers : ℕ → ℕ → σ → List Byte → Option (ℕ × σ × List Byte)
  | 0, _, _, _ => none
  | n + 1, seen, x, s =>
    (parseStr keyCap s).bind fun k =>
      if k.1.len ≥ keyCap then none
      else (expect colon k.2).bind fun s => (indexOf k.1.buf keys).bind fun i =>
        if seen.testBit i then none
        else (field i x s).bind fun v =>
          match expect comma v.2 with
          | some s => parseMembers n (seen ||| 1 <<< i) v.1 s
          | none => (expect closing v.2).map fun r => (seen ||| 1 <<< i, v.1, r)

def parseObj (x : σ) (s : List Byte) : Option (ℕ × σ × List Byte) :=
  (expect opening s).bind fun s =>
    match expect closing s with
    | some r => some (0, x, r)
    | none => parseMembers keys field s.length 0 x s

def parseBody (body : List Byte) (x : σ) : Option (ℕ × σ) :=
  (parseObj keys field x body).bind fun r =>
    if skipWs r.2.2 = [] then some (r.1, r.2.1) else none

end Objects

variable {s r t : List Byte} {cap : ℕ}

theorem decode_iff : decode s = some (t, r) ↔ Chars s t r := by
  constructor
  · intro h
    fun_induction decode s generalizing t with
    | case1 => simp at h
    | case2 s =>
      simp only [Option.some.injEq, Prod.mk.injEq] at h
      obtain ⟨rfl, rfl⟩ := h
      exact .close
    | case3 => simp at h
    | case4 => simp at h
    | case5 e s he _ _ ih =>
      obtain ⟨⟨u, v⟩, hd, hr⟩ := Option.map_eq_some_iff.mp h
      obtain ⟨rfl, rfl⟩ := Prod.mk.inj hr
      exact .escape he (ih hd)
    | case6 => simp at h
    | case7 ch s hq hl hb ih =>
      obtain ⟨⟨u, v⟩, hd, hr⟩ := Option.map_eq_some_iff.mp h
      obtain ⟨rfl, rfl⟩ := Prod.mk.inj hr
      exact .plain hq hb (Nat.le_of_not_lt hl) (ih hd)
  · intro h
    induction h with
    | close => rw [decode.eq_def]; rfl
    | plain hq hb hl _ ih =>
      rw [decode.eq_def]
      dsimp only
      rw [if_neg hq, if_neg (Nat.not_lt.mpr hl), if_neg hb, ih]
      rfl
    | escape he _ ih =>
      rw [decode.eq_def]
      dsimp only
      rw [if_neg (by decide), if_neg (by decide), if_pos rfl, if_pos he, ih]
      rfl

theorem parseStr_iff {c : Cut} : parseStr cap s = some (c, r) ↔
    ∃ t, Str s t r ∧ c = ⟨t.take (cap - 1), t.length⟩ := by
  unfold parseStr expect
  simp only [Option.bind_eq_some_iff, Option.map_eq_some_iff,
    token_iff (by rfl : isWs quote = false)]
  constructor
  · rintro ⟨s', hq, ⟨t, r'⟩, hd, h⟩
    obtain ⟨rfl, rfl⟩ := Prod.mk.inj h
    exact ⟨t, ⟨s', hq, decode_iff.mp hd⟩, rfl⟩
  · rintro ⟨t, ⟨s', hq, hd⟩, rfl⟩
    exact ⟨s', hq, (t, r), decode_iff.mpr hd, rfl⟩

theorem take_whole (h : t.length < cap) : t.take (cap - 1) = t :=
  List.take_of_length_le (Nat.le_sub_one_of_lt h)

theorem indexOf_iff {keys : List (List Byte)} (hkeys : keys.Nodup) {k : List Byte} {i : ℕ} :
    indexOf k keys = some i ↔ keys[i]? = some k := by
  unfold indexOf
  rw [List.findIdx?_eq_some_iff_getElem, List.getElem?_eq_some_iff]
  simp only [decide_eq_true_eq]
  constructor
  · rintro ⟨hi, hk, -⟩
    exact ⟨hi, hk⟩
  · rintro ⟨hi, hk⟩
    refine ⟨hi, hk, fun j hj hjk => hj.ne ?_⟩
    exact hkeys.getElem_inj_iff.mp (hjk.trans hk.symm)

/-- The bits of the places `is`, over those of `seen`. -/
def mark (seen : ℕ) (is : List ℕ) : ℕ := is.foldl (fun b i => b ||| 1 <<< i) seen

theorem testBit_mark_one {seen i j : ℕ} :
    (seen ||| 1 <<< i).testBit j = (seen.testBit j || decide (i = j)) := by
  rw [Nat.testBit_or, Nat.one_shiftLeft, Nat.testBit_two_pow]

/-- The parsers of the values find exactly what `G` says. -/
structure Exact {σ : Type*} (field : ℕ → σ → List Byte → Option (σ × List Byte))
    (G : ℕ → List Byte → σ → σ → List Byte → Prop) : Prop where
  sound : ∀ {i x s y r}, field i x s = some (y, r) → G i s x y r
  complete : ∀ {i x s y r}, G i s x y r → Ends r → field i x s = some (y, r)
  shrinks : ∀ {i x s y r}, G i s x y r → r.length ≤ s.length

section Objects

variable {σ : Type*} {keys : List (List Byte)} {n seen b : ℕ} {x y : σ}
  {field : ℕ → σ → List Byte → Option (σ × List Byte)}
  {G : ℕ → List Byte → σ → σ → List Byte → Prop}

theorem key_whole {c : Cut} (h : parseStr keyCap s = some (c, r)) (hl : ¬ c.len ≥ keyCap) :
    Str s c.buf r := by
  obtain ⟨t, ht, rfl⟩ := parseStr_iff.mp h
  rw [take_whole (Nat.not_le.mp hl)]
  exact ht

theorem members_sound (hkeys : keys.Nodup) (hf : Exact field G)
    (h : parseMembers keys field n seen x s = some (b, y, r)) :
    ∃ is, Members keys G s is x y r ∧ is.Nodup ∧ (∀ i ∈ is, seen.testBit i = false) ∧
      b = mark seen is := by
  induction n generalizing seen x s with
  | zero => simp [parseMembers] at h
  | succ n ih =>
    rw [parseMembers] at h
    obtain ⟨⟨k, s₁⟩, hk, h⟩ := Option.bind_eq_some_iff.mp h
    obtain ⟨hlen, h⟩ := Option.ite_none_left_eq_some.mp h
    obtain ⟨s₂, hcolon, h⟩ := Option.bind_eq_some_iff.mp h
    obtain ⟨i, hi, h⟩ := Option.bind_eq_some_iff.mp h
    obtain ⟨hnew, h⟩ := Option.ite_none_left_eq_some.mp h
    obtain ⟨⟨z, s₃⟩, hv, h⟩ := Option.bind_eq_some_iff.mp h
    have hkey := key_whole hk hlen
    have hat := (indexOf_iff hkeys).mp hi
    have hsign := (token_iff rfl).mp hcolon
    have hval := hf.sound hv
    rw [Bool.not_eq_true] at hnew
    cases hcomma : expect comma s₃ with
    | none =>
      rw [hcomma] at h
      obtain ⟨r', hclose, hr⟩ := Option.map_eq_some_iff.mp h
      simp only [Prod.mk.injEq] at hr
      obtain ⟨rfl, rfl, rfl⟩ := hr
      refine ⟨[i], .last hkey hsign hat hval ((token_iff rfl).mp hclose), List.nodup_singleton i,
        ?_, rfl⟩
      intro j hj
      rw [List.mem_singleton.mp hj]
      exact hnew
    | some s₄ =>
      rw [hcomma] at h
      obtain ⟨is, hm, hnodup, hfree, rfl⟩ := ih h
      simp only [testBit_mark_one, Bool.or_eq_false_iff, decide_eq_false_iff_not] at hfree
      refine ⟨i :: is, .more hkey hsign hat hval ((token_iff rfl).mp hcomma) hm,
        List.nodup_cons.mpr ⟨fun hmem => (hfree i hmem).2 rfl, hnodup⟩, ?_, rfl⟩
      exact List.forall_mem_cons.mpr ⟨hnew, fun j hj => (hfree j hj).1⟩

theorem member_step (hkeys : keys.Nodup) (hshort : ∀ k ∈ keys, k.length < keyCap)
    (hf : Exact field G) {k s₁ s₂ s₃ : List Byte} {i : ℕ} {z : σ} (hk : Str s k s₁)
    (hc : Sign colon s₁ s₂) (hi : keys[i]? = some k) (hv : G i s₂ x z s₃) (he : Ends s₃)
    (hnew : seen.testBit i = false) :
    parseMembers keys field (n + 1) seen x s = match expect comma s₃ with
      | some s => parseMembers keys field n (seen ||| 1 <<< i) z s
      | none => (expect closing s₃).map fun r => (seen ||| 1 <<< i, z, r) := by
  have hlen := hshort k (List.mem_of_getElem? hi)
  have hstr : parseStr keyCap s = some (⟨k, k.length⟩, s₁) :=
    parseStr_iff.mpr ⟨k, hk, by rw [take_whole hlen]⟩
  rw [parseMembers, hstr, Option.bind_some, if_neg (Nat.not_le.mpr hlen), expect,
    (token_iff rfl).mpr hc, Option.bind_some, (indexOf_iff hkeys).mpr hi, Option.bind_some,
    if_neg (by simp [hnew]), hf.complete hv he, Option.bind_some]

theorem members_complete (hkeys : keys.Nodup) (hshort : ∀ k ∈ keys, k.length < keyCap)
    (hf : Exact field G) {is : List ℕ} (h : Members keys G s is x y r) (hnodup : is.Nodup)
    (hfree : ∀ i ∈ is, seen.testBit i = false) (hn : s.length ≤ n) :
    parseMembers keys field n seen x s = some (mark seen is, y, r) := by
  induction h generalizing n seen with
  | @last s _ _ s₃ k _ i _ _ hk hc hi hv hr =>
    cases n with
    | zero => exact absurd (hk.length_lt.trans_le hn) (Nat.not_lt_zero _)
    | succ n =>
      rw [member_step hkeys hshort hf hk hc hi hv (hr.ends (.inr rfl)) (hfree i (by simp))]
      have hno : expect comma s₃ = none := by
        unfold expect token
        rw [Ws.skipWs hr rfl]
        rfl
      rw [hno, expect, (token_iff rfl).mpr hr]
      rfl
  | @more s _ _ s₃ s₄ k _ i is _ _ _ hk hc hi hv hs hm ih =>
    have hshrink := hf.shrinks hv
    have hk' := hk.length_lt
    have hc' := hc.length_lt
    have hs' := hs.length_lt
    cases n with
    | zero => omega
    | succ n =>
      rw [member_step hkeys hshort hf hk hc hi hv (hs.ends (.inl rfl)) (hfree i (by simp)), expect,
        (token_iff rfl).mpr hs]
      obtain ⟨hnot, hnodup⟩ := List.nodup_cons.mp hnodup
      refine ih hnodup (fun j hj => ?_) (by omega)
      rw [testBit_mark_one, hfree j (List.mem_cons_of_mem i hj), Bool.false_or,
        decide_eq_false_iff_not]
      rintro rfl
      exact hnot hj

theorem parseObj_iff (hkeys : keys.Nodup) (hshort : ∀ k ∈ keys, k.length < keyCap)
    (hf : Exact field G) : parseObj keys field x s = some (b, y, r) ↔
      ∃ is, is.Nodup ∧ Object keys G s is x y r ∧ b = mark 0 is := by
  have hfree : ∀ is : List ℕ, ∀ i ∈ is, Nat.testBit 0 i = false := fun _ i _ => Nat.zero_testBit i
  unfold parseObj
  constructor
  · intro h
    obtain ⟨s₁, hopen, h⟩ := Option.bind_eq_some_iff.mp h
    have ho := (token_iff rfl).mp hopen
    cases hclose : expect closing s₁ with
    | some r' =>
      rw [hclose] at h
      simp only [Option.some.injEq, Prod.mk.injEq] at h
      obtain ⟨rfl, rfl, rfl⟩ := h
      exact ⟨[], List.nodup_nil, .empty ho ((token_iff rfl).mp hclose), rfl⟩
    | none =>
      rw [hclose] at h
      obtain ⟨is, hm, hnodup, -, rfl⟩ := members_sound hkeys hf h
      exact ⟨is, hnodup, .full ho hm, rfl⟩
  · rintro ⟨is, hnodup, hobj, rfl⟩
    cases hobj with
    | empty ho hr =>
      rw [expect, (token_iff rfl).mpr ho, Option.bind_some, expect, (token_iff rfl).mpr hr]
      rfl
    | @full s₁ _ _ _ _ ho hm =>
      have hno : expect closing s₁ = none := by
        obtain ⟨k, s₂, s', hq, -⟩ : ∃ k s₂ s', Sign quote s₁ s' ∧ Chars s' k s₂ := by
          cases hm with
          | last hk => exact ⟨_, _, hk⟩
          | more hk => exact ⟨_, _, hk⟩
        unfold expect token
        rw [Ws.skipWs hq rfl]
        rfl
      rw [expect, (token_iff rfl).mpr ho, Option.bind_some, hno]
      exact members_complete hkeys hshort hf hm hnodup (hfree is) le_rfl

theorem parseBody_iff (hkeys : keys.Nodup) (hshort : ∀ k ∈ keys, k.length < keyCap)
    (hf : Exact field G) : parseBody keys field s x = some (b, y) ↔
      ∃ is, Body keys G s is x y ∧ b = mark 0 is := by
  unfold parseBody
  simp only [Option.bind_eq_some_iff, Prod.exists, Option.ite_none_right_eq_some]
  constructor
  · rintro ⟨b', y', r, hobj, hws, h⟩
    obtain ⟨rfl, rfl⟩ := Prod.mk.inj (Option.some.inj h)
    obtain ⟨is, hnodup, ho, rfl⟩ := (parseObj_iff hkeys hshort hf).mp hobj
    exact ⟨is, ⟨hnodup, r, ho, ws_nil_iff.mpr hws⟩, rfl⟩
  · rintro ⟨is, ⟨hnodup, r, ho, hr⟩, rfl⟩
    exact ⟨_, _, r, (parseObj_iff hkeys hshort hf).mpr ⟨is, hnodup, ho, rfl⟩, ws_nil_iff.mp hr, rfl⟩

end Objects

end OpenCalifornia.Web
