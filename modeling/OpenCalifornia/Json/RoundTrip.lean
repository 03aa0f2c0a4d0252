import OpenCalifornia.Json.Writer

/-! # What the writer writes is read back

A JSON parser reads the text of a tree as the tree. -/

namespace OpenCalifornia.Json
open Lib Lib.Bits Lib.Json

theorem hexVal_hexDigit : ∀ d < 16, hexVal (hexDigit d) = some d := by decide

theorem escape_ne_nil (c : Byte) : Json.escape c ≠ [] := by
  unfold Json.escape
  split_ifs <;> exact List.cons_ne_nil _ _

theorem chars_escape_byte (c : Byte) (n : ℕ) (s : List Byte) :
    chars (n + 1) (Json.escape c ++ s) = (chars n s).map fun r => (c :: r.1, r.2) := by
  unfold Json.escape
  split_ifs with h₁ h₂ h₃ h₄ h₅ h₆
  · subst h₁
    exact chars_escape (b := [0x22]) rfl
  · subst h₂
    exact chars_escape (b := [0x5C]) rfl
  · subst h₃
    exact chars_escape (b := [0x0A]) rfl
  · subst h₄
    exact chars_escape (b := [0x0D]) rfl
  · subst h₅
    exact chars_escape (b := [0x09]) rfl
  · have hhi := hexVal_hexDigit (c.toNat / 16) (by omega)
    have hlo := hexVal_hexDigit (c.toNat % 16) (by omega)
    have hzero : hexVal 0x30 = some 0 := by decide
    have hhex : hex4 (0x30 :: 0x30 :: hexDigit (c.toNat / 16) :: hexDigit (c.toNat % 16) :: s) =
        some (c.toNat, s) := by
      simp only [hex4, hzero, hhi, hlo, Option.bind_some, Option.map_some]
      congr 2
      omega
    have hutf : utf8 c.toNat = [c] := by
      rw [utf8, if_pos (by omega), BitVec.ofNat_toNat, BitVec.setWidth_eq]
    refine chars_escape (b := [c]) ?_
    show unicode (0x30 :: 0x30 :: hexDigit (c.toNat / 16) :: hexDigit (c.toNat % 16) :: s) = _
    rw [unicode, hhex, Option.bind_some, if_pos (.inl (by dsimp only; omega)), hutf]
  · exact chars_plain h₁ h₂ h₆

theorem chars_quoted (s rest : List Byte) (n : ℕ) (hn : s.length < n) :
    chars n (s.flatMap Json.escape ++ 0x22 :: rest) = some (s, rest) := by
  induction s generalizing n with
  | nil =>
    obtain ⟨n, rfl⟩ := Nat.exists_eq_add_of_lt hn
    rfl
  | cons c s ih =>
    cases n with
    | zero => cases hn
    | succ n =>
      rw [List.flatMap_cons, List.append_assoc, chars_escape_byte,
        ih n (Nat.lt_of_succ_lt_succ hn)]
      rfl

theorem length_escapes (s : List Byte) : s.length ≤ (s.flatMap Json.escape).length := by
  induction s with
  | nil => exact Nat.le_refl _
  | cons c s ih =>
    have hc := List.length_pos_iff.mpr (escape_ne_nil c)
    rw [List.flatMap_cons, List.length_append, List.length_cons]
    omega

theorem string_quoted (s rest : List Byte) : string (quoted s ++ rest) = some (s, rest) := by
  unfold quoted
  rw [List.cons_append, List.append_assoc, List.singleton_append, string, if_pos rfl]
  refine chars_quoted s rest _ ?_
  have hlen := length_escapes s
  rw [List.length_append, List.length_cons]
  omega

theorem ofDigits_decimal (n : ℕ) : ofDigits (decimal n) = n := by
  unfold decimal
  split_ifs with hn
  · rw [hn]
    rfl
  · have hall : ∀ ds : List ℕ, (∀ d ∈ ds, d < 10) →
        ofDigits (ds.reverse.map fun d => BitVec.ofNat 8 (0x30 + d)) = Nat.ofDigits 10 ds := by
      intro ds
      induction ds with
      | nil => intro _; rfl
      | cons d ds ih =>
        intro hds
        obtain ⟨hd, hds⟩ := List.forall_mem_cons.mp hds
        have hval : (BitVec.ofNat 8 (0x30 + d)).toNat - 0x30 = d := by
          rw [BitVec.toNat_ofNat]
          omega
        have hlast : ofDigits ((d :: ds).reverse.map fun d => BitVec.ofNat 8 (0x30 + d)) =
            ofDigits (ds.reverse.map fun d => BitVec.ofNat 8 (0x30 + d)) * 10 + d := by
          rw [List.reverse_cons, List.map_append, List.map_singleton]
          unfold ofDigits
          rw [List.foldl_append, List.foldl_cons, List.foldl_nil, hval]
        rw [hlast, ih hds, Nat.ofDigits_cons]
        omega
    rw [hall _ fun d hd => Nat.digits_lt_base (by decide) hd, Nat.ofDigits_digits]

theorem decimal_digits (n : ℕ) : decimal n ≠ [] ∧ (∀ c ∈ decimal n, isDigit c = true) ∧
    ((decimal n).head? ≠ some 0x30 ∨ (decimal n).length = 1) := by
  unfold decimal
  split_ifs with hn
  · exact ⟨List.cons_ne_nil _ _, by decide, .inr rfl⟩
  · have hne : Nat.digits 10 n ≠ [] := Nat.digits_ne_nil_iff_ne_zero.mpr hn
    refine ⟨by simpa using hne, fun c hc => ?_, .inl ?_⟩
    · obtain ⟨d, hd, rfl⟩ := List.mem_map.mp hc
      have hlt := Nat.digits_lt_base (by decide) (List.mem_reverse.mp hd)
      interval_cases d <;> decide
    · have hlast := Nat.getLast_digit_ne_zero 10 hn
      have hlt := Nat.digits_lt_base (b := 10) (by decide) (List.getLast_mem hne)
      rw [List.head?_map, List.head?_reverse, List.getLast?_eq_some_getLast hne, Option.map_some]
      intro heq
      have hbyte := congrArg BitVec.toNat (Option.some.inj heq)
      rw [BitVec.toNat_ofNat] at hbyte
      simp at hbyte
      omega

/-- A number starts like no other value. -/
structure Numeral (c : Byte) : Prop where
  ws : isWs c = false
  obj : c ≠ 0x7B
  arr : c ≠ 0x5B
  str : c ≠ 0x22
  t : c ≠ 0x74
  f : c ≠ 0x66
  n : c ≠ 0x6E
  close : c ≠ 0x5D

theorem numeral_minus : Numeral 0x2D := by constructor <;> decide

theorem numeral_digit {c : Byte} (h : isDigit c = true) : Numeral c := by
  have hne : ∀ d : Byte, isDigit d = false → c ≠ d := by
    rintro d hd rfl
    rw [h] at hd
    cases hd
  refine ⟨decide_eq_false ?_, hne _ rfl, hne _ rfl, hne _ rfl, hne _ rfl, hne _ rfl, hne _ rfl,
    hne _ rfl⟩
  rintro (hw | hw | hw | hw)
  all_goals exact hne _ rfl hw

theorem lld_head (v : BitVec 64) : ∃ c s, lld v = c :: s ∧ Numeral c := by
  obtain ⟨hne, hdigits, -⟩ := decimal_digits v.toInt.natAbs
  unfold lld
  split_ifs
  · exact ⟨_, _, rfl, numeral_minus⟩
  · obtain ⟨c, s, hs⟩ := List.exists_cons_of_ne_nil hne
    exact ⟨c, s, hs, numeral_digit (hdigits c (by simp [hs]))⟩

theorem number_lld (v : BitVec 64) {rest : List Byte} (hrest : Stops rest) :
    number (lld v ++ rest) = some (.num v.toInt 0, rest) := by
  obtain ⟨hne, hdigits, hzero⟩ := decimal_digits v.toInt.natAbs
  have hunsigned := unsigned_append hne hdigits hzero hrest
  rw [ofDigits_decimal] at hunsigned
  unfold lld
  split_ifs with hneg
  · rw [List.cons_append, number, if_pos rfl, hunsigned, Option.map_some]
    have habs : -((v.toInt.natAbs : ℕ) : ℤ) = v.toInt := by omega
    rw [habs]
  · obtain ⟨c, s, hs⟩ := List.exists_cons_of_ne_nil hne
    have hminus : c ≠ 0x2D := by
      have hc := hdigits c (by simp [hs])
      rintro rfl
      cases hc
    rw [hs, List.cons_append] at hunsigned ⊢
    rw [number, if_neg hminus, hunsigned, Option.map_some]
    have habs : ((v.toInt.natAbs : ℕ) : ℤ) = v.toInt := by omega
    rw [habs]

/-- A value starts with a byte that is neither white space nor the end of a list. -/
theorem text_head (t : Tree) : ∃ c s, t.text = c :: s ∧ isWs c = false ∧ c ≠ 0x5D := by
  cases t with
  | null => exact ⟨_, _, Tree.text.eq_1, rfl, by decide⟩
  | bool b =>
    cases b with
    | true => exact ⟨_, _, Tree.text.eq_2, rfl, by decide⟩
    | false => exact ⟨_, _, Tree.text.eq_3, rfl, by decide⟩
  | int v =>
    obtain ⟨c, s, hs, hc⟩ := lld_head v
    exact ⟨c, s, (Tree.text.eq_4 v).trans hs, hc.ws, hc.close⟩
  | str s => exact ⟨_, _, Tree.text.eq_5 s, rfl, by decide⟩
  | arr ts => exact ⟨_, _, Tree.text.eq_6 ts, rfl, by decide⟩
  | obj ms => exact ⟨_, _, Tree.text.eq_7 ms, rfl, by decide⟩

mutual

theorem value_text (t : Tree) (n : ℕ) (rest : List Byte) (hn : 2 * t.text.length ≤ n)
    (hrest : Stops rest) : value n (t.text ++ rest) = some (t.value, rest) := by
  obtain ⟨m, rfl⟩ : ∃ m, n = m + 1 := by
    obtain ⟨c, s, hs, -, -⟩ := text_head t
    rw [hs, List.length_cons] at hn
    exact ⟨n - 1, by omega⟩
  match t with
  | .null =>
    rw [Tree.text, Tree.value]
    rfl
  | .bool true =>
    rw [Tree.text, Tree.value]
    rfl
  | .bool false =>
    rw [Tree.text, Tree.value]
    rfl
  | .int v =>
    obtain ⟨c, s, hs, hc⟩ := lld_head v
    have hnumber := number_lld v hrest
    rw [Tree.text, Tree.value]
    rw [hs, List.cons_append] at hnumber ⊢
    rw [Json.value, skipWs_cons hc.ws]
    dsimp only
    rw [if_neg hc.obj, if_neg hc.arr, if_neg hc.str, if_neg hc.t, if_neg hc.f, if_neg hc.n, hnumber]
  | .str s =>
    have hstring := string_quoted s.val rest
    rw [Tree.text, Tree.value]
    unfold quoted at hstring ⊢
    rw [List.cons_append] at hstring ⊢
    rw [Json.value, skipWs_cons rfl]
    dsimp only
    rw [if_neg (by decide), if_neg (by decide), if_pos rfl, hstring]
    rfl
  | .arr [] =>
    rw [Tree.text, Tree.value]
    rfl
  | .arr (t :: ts) =>
    rw [Tree.text] at hn
    obtain ⟨c, s, hs, hws, hclose⟩ := text_head t
    have hitems := elements_text (t :: ts) m rest (by simp) (by simp at hn; omega)
    have htoken : token 0x5D (itemsText (t :: ts) ++ 0x5D :: rest) = none := by
      rw [itemsText, hs, List.append_assoc, List.cons_append]
      exact token_other hws hclose
    rw [Tree.text, Tree.value, List.cons_append, List.append_assoc,
      List.singleton_append, Json.value, skipWs_cons rfl]
    dsimp only
    rw [if_neg (by decide), if_pos rfl, htoken]
    dsimp only
    rw [hitems]
    rfl
  | .obj [] =>
    rw [Tree.text, Tree.value]
    rfl
  | .obj ((k, t) :: ms) =>
    rw [Tree.text] at hn
    have hmembers := members_text ((k, t) :: ms) m rest (by simp) (by simp at hn; omega)
    have htoken : token 0x7D (membersText ((k, t) :: ms) ++ 0x7D :: rest) = none := by
      rw [membersText, quoted]
      exact token_other (d := 0x22) rfl (by decide)
    rw [Tree.text, Tree.value, List.cons_append, List.append_assoc,
      List.singleton_append, Json.value, skipWs_cons rfl]
    dsimp only
    rw [if_pos rfl, htoken]
    dsimp only
    rw [hmembers]
    rfl

theorem elements_text (ts : List Tree) (n : ℕ) (rest : List Byte) (hne : ts ≠ [])
    (hn : 2 * (itemsText ts).length + 1 ≤ n) :
    elements n (itemsText ts ++ 0x5D :: rest) = some (itemValues ts, rest) := by
  obtain ⟨m, rfl⟩ : ∃ m, n = m + 1 := ⟨n - 1, by omega⟩
  match ts with
  | [] => exact absurd rfl hne
  | [t] =>
    rw [itemsText] at hn ⊢
    simp only [List.isEmpty_nil, if_true, List.append_nil] at hn ⊢
    have hvalue := value_text t m (0x5D :: rest) (by omega) (stops_cons (by decide))
    rw [elements, hvalue, Option.bind_some, token_other rfl (by decide)]
    dsimp only
    rw [token_here rfl, itemValues, itemValues]
    rfl
  | t :: t' :: ts =>
    rw [itemsText] at hn ⊢
    simp only [List.isEmpty_cons, Bool.false_eq_true, if_false, List.append_assoc, List.cons_append,
      List.length_append, List.length_cons] at hn ⊢
    have hvalue := value_text t m (0x2C :: (itemsText (t' :: ts) ++ 0x5D :: rest)) (by omega)
      (stops_cons (by decide))
    have hitems := elements_text (t' :: ts) m rest (by simp) (by omega)
    rw [elements, hvalue, Option.bind_some]
    dsimp only
    rw [token_here rfl]
    dsimp only
    rw [hitems, itemValues]
    rfl

theorem members_text (ms : List (Text × Tree)) (n : ℕ) (rest : List Byte) (hne : ms ≠ [])
    (hn : 2 * (membersText ms).length + 1 ≤ n) :
    members n (membersText ms ++ 0x7D :: rest) = some (memberValues ms, rest) := by
  obtain ⟨m, rfl⟩ : ∃ m, n = m + 1 := ⟨n - 1, by omega⟩
  have hskip : ∀ k s, skipWs (quoted k ++ s) = quoted k ++ s := fun k s => skipWs_cons rfl
  match ms with
  | [] => exact absurd rfl hne
  | [(k, t)] =>
    rw [membersText] at hn ⊢
    simp only [List.isEmpty_nil, if_true, List.append_nil, List.append_assoc, List.cons_append,
      List.length_append, List.length_cons] at hn ⊢
    have hvalue := value_text t m (0x7D :: rest) (by omega) (stops_cons (by decide))
    rw [members, hskip, string_quoted, Option.bind_some, token_here rfl, Option.bind_some, hvalue,
      Option.bind_some, token_other rfl (by decide)]
    dsimp only
    rw [token_here rfl, memberValues, memberValues]
    rfl
  | (k, t) :: (k', t') :: ms =>
    rw [membersText] at hn ⊢
    simp only [List.isEmpty_cons, Bool.false_eq_true, if_false, List.append_assoc, List.cons_append,
      List.length_append, List.length_cons] at hn ⊢
    have hvalue := value_text t m (0x2C :: (membersText ((k', t') :: ms) ++ 0x7D :: rest))
      (by omega) (stops_cons (by decide))
    have hmembers := members_text ((k', t') :: ms) m rest (by simp) (by omega)
    rw [members, hskip, string_quoted, Option.bind_some, token_here rfl, Option.bind_some, hvalue,
      Option.bind_some]
    dsimp only
    rw [token_here rfl]
    dsimp only
    rw [hmembers, memberValues]
    rfl

end

theorem parse_docText (ms : List (Text × Tree)) :
    parse (docText ms) = some (.obj (memberValues ms)) := by
  have hvalue := value_text (.obj ms) (2 * (docText ms).length + 1) [] (Nat.le_succ _)
    fun c hc => by cases hc
  rw [List.append_nil, Tree.value] at hvalue
  unfold parse docText
  unfold docText at hvalue
  rw [hvalue]
  rfl

theorem docText_pos (ms : List (Text × Tree)) : 0 < (docText ms).length := by
  rw [docText, Tree.text, List.length_cons]
  exact Nat.succ_pos _

/-- Nothing is written past the capacity. A document of less than 2 GiB is written and read back, or
refused where it does not fit. -/
theorem written_or_refused (buf : ℕ → Byte) (cap : ℕ) (ms : List (Text × Tree)) :
    (∀ i, cap ≤ i → (document buf cap ms).1.mem i = buf i) ∧
      ((docText ms).length < 2 ^ 31 →
        ((document buf cap ms).2 = -1 ↔ cap - 1 < (docText ms).length) ∧
        ((document buf cap ms).2 ≠ -1 → (document buf cap ms).1.text = docText ms ∧
          (document buf cap ms).2 = (docText ms).length ∧
          parse (document buf cap ms).1.text = some (.obj (memberValues ms)))) := by
  obtain ⟨hpast, hfits, hover⟩ := document_spec buf cap ms
  have hpos := docText_pos ms
  refine ⟨hpast, fun hshort => ?_⟩
  have hint : toInt32 (docText ms).length = (docText ms).length := by
    unfold toInt32
    rw [Int.bmod_def]
    split_ifs <;> omega
  by_cases hlt : (docText ms).length < cap
  · obtain ⟨htext, hret⟩ := hfits hlt
    rw [hint] at hret
    refine ⟨⟨fun hno => by omega, fun hlong => by omega⟩, fun _ => ⟨htext, hret, ?_⟩⟩
    rw [htext, parse_docText]
  · have hret := hover (Nat.le_of_not_lt hlt)
    exact ⟨⟨fun _ => by omega, fun _ => hret⟩, fun hno => absurd hret hno⟩

/-- `{"a":[true,null,{"b\n":"\"\u0001"}]}` -/
def nested : List (Text × Tree) :=
  [(⟨[0x61], by decide⟩, .arr [.bool true, .null,
    .obj [(⟨[0x62, 0x0A], by decide⟩, .str ⟨[0x22, 0x01], by decide⟩)]])]

theorem length_nested : (docText nested).length = 36 := by
  simp [docText, Tree.text, itemsText, membersText, nested, quoted, Json.escape]

/-- Thirty-seven bytes hold the document, one byte less does not. -/
theorem written_nested : (document (fun _ => 0) 37 nested).2 = 36 ∧
    parse (document (fun _ => 0) 37 nested).1.text = some (.obj (memberValues nested)) ∧
    (document (fun _ => 0) 36 nested).2 = -1 ∧
    ∀ i, 36 ≤ i → (document (fun _ => 0) 36 nested).1.mem i = 0 := by
  have hshort : (docText nested).length < 2 ^ 31 := by
    rw [length_nested]
    decide
  obtain ⟨hiff, hback⟩ := (written_or_refused (fun _ => 0) 37 nested).2 hshort
  have hret : (document (fun _ => 0) 37 nested).2 ≠ -1 := by
    rw [ne_eq, hiff, length_nested]
    decide
  obtain ⟨-, hlen, hparse⟩ := hback hret
  obtain ⟨hpast, hsmall⟩ := written_or_refused (fun _ => 0) 36 nested
  refine ⟨by rw [hlen, length_nested]; rfl, hparse, ?_, hpast⟩
  rw [(hsmall hshort).1, length_nested]
  decide

/-- One member with a string of `n` letters. -/
def letters (n : ℕ) : List (Text × Tree) :=
  [(⟨[], by decide⟩, .str ⟨List.replicate n 0x61, fun h => by cases List.eq_of_mem_replicate h⟩)]

theorem length_letters (n : ℕ) : (docText (letters n)).length = n + 7 := by
  have hplain : (Json.escape 0x61#8).length = 1 := rfl
  simp [docText, Tree.text, membersText, letters, quoted, hplain]

/-- The end call reports neither the length of a text of 2 GiB nor a refusal. -/
theorem letters_wrap : ∃ n : ℕ, let r := document (fun _ => 0) (2 ^ 32) (letters n)
    (docText (letters n)).length ≤ 2 ^ 32 - 1 ∧ r.2 ≠ -1 ∧ r.2 ≠ (docText (letters n)).length := by
  refine ⟨2 ^ 31 - 7, ?_⟩
  have hlen : (docText (letters (2 ^ 31 - 7))).length = 2 ^ 31 := length_letters _
  obtain ⟨-, hfits, -⟩ := document_spec (fun _ => 0) (2 ^ 32) (letters (2 ^ 31 - 7))
  obtain ⟨-, hret⟩ := hfits (by rw [hlen]; norm_num)
  have hwrap : toInt32 (2 ^ 31) = -2 ^ 31 := by decide
  dsimp only
  rw [hret, hlen, hwrap]
  refine ⟨?_, ?_, ?_⟩ <;> norm_num

end OpenCalifornia.Json
