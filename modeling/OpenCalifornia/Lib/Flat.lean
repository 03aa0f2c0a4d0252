import OpenCalifornia.Lib.Json

/-! # One JSON object of known keys

The grammar, as relations between a text and what is left of it: white space, strings with two
escapes, scalars, and an object whose members each name one of some keys. What the value of a
key does to a state is a parameter. -/

namespace OpenCalifornia.Lib.Flat
open Bits OpenCalifornia.Lib.Json

def quote : Byte := 0x22
def backslash : Byte := 0x5C
def comma : Byte := 0x2C
def colon : Byte := 0x3A
def opening : Byte := 0x7B
def closing : Byte := 0x7D
def minus : Byte := 0x2D

inductive Ws : List Byte → List Byte → Prop
  | nil {s : List Byte} : Ws s s
  | cons {c : Byte} {s r : List Byte} (h : isWs c = true) (hs : Ws s r) : Ws (c :: s) r

/-- White space and one byte. -/
def Sign (c : Byte) (s r : List Byte) : Prop := Ws s (c :: r)

/-- A string after its opening quote. -/
inductive Chars : List Byte → List Byte → List Byte → Prop
  | close {s : List Byte} : Chars (quote :: s) [] s
  | plain {c : Byte} {s t r : List Byte} (hq : c ≠ quote) (hb : c ≠ backslash)
      (h : 0x20 ≤ c.toNat) (hs : Chars s t r) : Chars (c :: s) (c :: t) r
  | escape {c : Byte} {s t r : List Byte} (h : c = quote ∨ c = backslash) (hs : Chars s t r) :
      Chars (backslash :: c :: s) (c :: t) r

def Str (s t r : List Byte) : Prop := ∃ s', Sign quote s s' ∧ Chars s' t r

inductive Scalar
  | null
  | bool (b : Bool)
  | str (t : List Byte)
  /-- A sign and digits. -/
  | int (neg : Bool) (ds : List Byte)
  /-- The same with a fraction or an exponent. -/
  | real (neg : Bool) (ds : List Byte)
  deriving DecidableEq

def sign (neg : Bool) : List Byte := if neg then [minus] else []

def Digits (ds : List Byte) : Prop := ds ≠ [] ∧ ∀ c ∈ ds, isDigit c = true

/-- What makes a number no integer: a point with digits, an exponent, or both. -/
inductive Tail : List Byte → List Byte → Prop
  | frac {ds r : List Byte} (h : Digits ds) : Tail (0x2E :: (ds ++ r)) r
  | exp {e : Byte} {sg ds r : List Byte} (he : e = 0x65 ∨ e = 0x45)
      (hs : sg = [] ∨ sg = [0x2B] ∨ sg = [minus]) (h : Digits ds) : Tail (e :: (sg ++ (ds ++ r))) r
  | both {e : Byte} {sg fs ds r : List Byte} (hf : Digits fs) (he : e = 0x65 ∨ e = 0x45)
      (hs : sg = [] ∨ sg = [0x2B] ∨ sg = [minus]) (h : Digits ds) :
      Tail (0x2E :: (fs ++ e :: (sg ++ (ds ++ r)))) r

inductive Token : List Byte → Scalar → List Byte → Prop
  | null {r : List Byte} : Token (nullText ++ r) .null r
  | bool {b : Bool} {r : List Byte} : Token ((if b then trueText else falseText) ++ r) (.bool b) r
  | str {s t r : List Byte} (h : Chars s t r) : Token (quote :: s) (.str t) r
  | int {neg : Bool} {ds r : List Byte} (h : Digits ds) :
      Token (sign neg ++ (ds ++ r)) (.int neg ds) r
  | real {neg : Bool} {ds s r : List Byte} (h : Digits ds) (ht : Tail s r) :
      Token (sign neg ++ (ds ++ s)) (.real neg ds) r

section Objects

variable {σ : Type*} (keys : List (List Byte))
  (G : ℕ → List Byte → σ → σ → List Byte → Prop)

/-- The members up to the closing brace, by the places of their keys. `G i` says what the value of
the key `i` is and does. -/
inductive Members : List Byte → List ℕ → σ → σ → List Byte → Prop
  | last {s s₁ s₂ s₃ k r : List Byte} {i : ℕ} {x y : σ} (hk : Str s k s₁) (hc : Sign colon s₁ s₂)
      (hi : keys[i]? = some k) (hv : G i s₂ x y s₃) (hr : Sign closing s₃ r) :
      Members s [i] x y r
  | more {s s₁ s₂ s₃ s₄ k r : List Byte} {i : ℕ} {is : List ℕ} {x y z : σ} (hk : Str s k s₁)
      (hc : Sign colon s₁ s₂) (hi : keys[i]? = some k) (hv : G i s₂ x y s₃)
      (hs : Sign comma s₃ s₄) (hm : Members s₄ is y z r) : Members s (i :: is) x z r

inductive Object : List Byte → List ℕ → σ → σ → List Byte → Prop
  | empty {s s₁ r : List Byte} {x : σ} (ho : Sign opening s s₁) (hr : Sign closing s₁ r) :
      Object s [] x x r
  | full {s s₁ r : List Byte} {is : List ℕ} {x y : σ} (ho : Sign opening s s₁)
      (hm : Members keys G s₁ is x y r) : Object s is x y r

/-- An object between white space, no key twice. -/
def Body (s : List Byte) (is : List ℕ) (x y : σ) : Prop :=
  is.Nodup ∧ ∃ r, Object keys G s is x y r ∧ Ws r []

end Objects

/-- What stands behind a value: white space, a comma or a closing brace. -/
def Ends (s : List Byte) : Prop := ∃ c r, s = c :: r ∧ (isWs c = true ∨ c = comma ∨ c = closing)

variable {c : Byte} {s r t : List Byte}

theorem ws_skipWs (s : List Byte) : Ws s (skipWs s) := by
  unfold skipWs
  induction s with
  | nil => exact .nil
  | cons c s ih =>
    by_cases h : isWs c = true
    · rw [List.dropWhile_cons_of_pos h]
      exact .cons h ih
    · rw [List.dropWhile_cons_of_neg h]
      exact .nil

theorem Ws.skipWs_eq (h : Ws s r) : skipWs s = skipWs r := by
  induction h with
  | nil => rfl
  | cons h _ ih =>
    rw [← ih]
    exact List.dropWhile_cons_of_pos h

theorem Ws.skipWs (h : Ws s (c :: r)) (hc : isWs c = false) : skipWs s = c :: r :=
  h.skipWs_eq.trans (skipWs_cons hc)

theorem Ws.trans (h : Ws s r) (h' : Ws r t) : Ws s t := by
  induction h with
  | nil => exact h'
  | cons hc _ ih => exact .cons hc (ih h')

theorem ws_nil_iff : Ws s [] ↔ Lib.Json.skipWs s = [] := by
  constructor
  · intro h
    exact h.skipWs_eq
  · intro h
    exact h ▸ ws_skipWs s

theorem Ws.length_le (h : Ws s r) : r.length ≤ s.length := by
  induction h with
  | nil => exact le_rfl
  | cons _ _ ih => exact ih.trans (Nat.le_succ _)

theorem Sign.length_lt (h : Sign c s r) : r.length < s.length := by
  have := Ws.length_le h
  simpa using this

theorem Sign.ends (h : Sign c s r) (hc : c = comma ∨ c = closing) : Ends s := by
  cases h with
  | nil => exact ⟨c, r, rfl, .inr hc⟩
  | cons hw _ => exact ⟨_, _, rfl, .inl hw⟩

theorem token_iff (hc : isWs c = false) : token c s = some r ↔ Sign c s r := by
  unfold token
  constructor
  · intro h
    cases hs : Lib.Json.skipWs s with
    | nil => simp [hs] at h
    | cons d u =>
      rw [hs] at h
      dsimp only at h
      split_ifs at h with hd
      rw [Option.some.injEq] at h
      have hw := ws_skipWs s
      rw [hs, hd, h] at hw
      exact hw
  · intro h
    rw [Ws.skipWs h hc]
    exact if_pos rfl

theorem Chars.length_lt (h : Chars s t r) : r.length < s.length := by
  induction h with
  | close => simp
  | plain _ _ _ _ ih => exact ih.trans (Nat.lt_succ_self _)
  | escape _ _ ih => exact ih.trans (Nat.lt_add_of_pos_right (by decide : 0 < 2))

theorem Str.length_lt (h : Str s t r) : r.length < s.length := by
  obtain ⟨s', hs, ht⟩ := h
  exact ht.length_lt.trans hs.length_lt

theorem Tail.length_lt (h : Tail s r) : r.length < s.length := by
  cases h <;> simp only [List.length_cons, List.length_append] <;> omega

theorem Token.length_lt {v : Scalar} (h : Token s v r) : r.length < s.length := by
  cases h with
  | null => exact Nat.lt_add_of_pos_right (by decide : 0 < 4)
  | @bool b =>
    cases b with
    | true => exact Nat.lt_add_of_pos_right (by decide : 0 < 4)
    | false => exact Nat.lt_add_of_pos_right (by decide : 0 < 5)
  | str h => simpa using h.length_lt.trans (Nat.lt_succ_self _)
  | int h =>
    have := List.length_pos_of_ne_nil h.1
    simp only [List.length_append]
    omega
  | real h ht =>
    have := ht.length_lt
    simp only [List.length_append]
    omega

theorem Members.length_lt {σ : Type*} {keys : List (List Byte)}
    {G : ℕ → List Byte → σ → σ → List Byte → Prop} {is : List ℕ} {x y : σ}
    (hG : ∀ {i s x y r}, G i s x y r → r.length ≤ s.length) (h : Members keys G s is x y r) :
    r.length < s.length := by
  induction h with
  | last hk hc _ hv hr =>
    have := hG hv
    have := hk.length_lt
    have := hc.length_lt
    have := hr.length_lt
    omega
  | more hk hc _ hv hs _ ih =>
    have := hG hv
    have := hk.length_lt
    have := hc.length_lt
    have := hs.length_lt
    omega

theorem Object.length_le {σ : Type*} {keys : List (List Byte)}
    {G : ℕ → List Byte → σ → σ → List Byte → Prop} {is : List ℕ} {x y : σ}
    (h : Object keys G s is x y r) (hG : ∀ {i s x y r}, G i s x y r → r.length ≤ s.length) :
    r.length ≤ s.length := by
  cases h with
  | empty ho hr => exact (hr.length_lt.trans ho.length_lt).le
  | full ho hm => exact ((hm.length_lt hG).trans ho.length_lt).le

theorem Object.keeps {σ : Type*} {keys : List (List Byte)}
    {G : ℕ → List Byte → σ → σ → List Byte → Prop} {I : σ → Prop} {is : List ℕ} {x y : σ}
    (h : Object keys G s is x y r) (hG : ∀ {i s x y r}, G i s x y r → I x → I y) (hx : I x) :
    I y := by
  have hmembers : ∀ {s r : List Byte} {is : List ℕ} {x y : σ},
      Members keys G s is x y r → I x → I y := by
    intro s r is x y hm
    induction hm with
    | last _ _ _ hv _ => exact hG hv
    | more _ _ _ hv _ _ ih => exact fun hx => ih (hG hv hx)
  cases h with
  | empty => exact hx
  | full _ hm => exact hmembers hm hx

theorem Token.head {v : Scalar} (h : Token s v r) : ∃ c u, s = c :: u ∧ isWs c = false := by
  have hd : ∀ c, isDigit c = true → isWs c = false := by decide
  have hint : ∀ {neg : Bool} {ds u : List Byte}, Digits ds →
      ∃ c v, sign neg ++ (ds ++ u) = c :: v ∧ isWs c = false := by
    intro neg ds u hds
    cases neg with
    | true => exact ⟨minus, ds ++ u, rfl, rfl⟩
    | false =>
      cases ds with
      | nil => exact absurd rfl hds.1
      | cons c ds => exact ⟨c, ds ++ u, rfl, hd c (hds.2 c (by simp))⟩
  cases h with
  | null => exact ⟨_, _, rfl, rfl⟩
  | @bool b => cases b <;> exact ⟨_, _, rfl, rfl⟩
  | str h => exact ⟨_, _, rfl, rfl⟩
  | int h => exact hint h
  | real h ht => exact hint h

end OpenCalifornia.Lib.Flat
