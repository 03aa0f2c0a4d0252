import OpenCalifornia.Lib.Flat

/-! # Nested JSON values

Values over strings with two escapes and numbers, with arrays and objects of any depth. An object
has no name twice, and an integer neither a leading zero nor a sign before zero. A text is read in
one way only. -/

namespace OpenCalifornia.Lib.Nested
open Bits OpenCalifornia.Lib.Json Flat

inductive Tree
  | null
  | bool (b : Bool)
  | int (n : ℤ)
  /-- A number with a fraction or an exponent. -/
  | real
  | str (t : List Byte)
  | arr (ts : List Tree)
  | obj (ms : List (List Byte × Tree))

inductive Node
  | value (t : Tree)
  /-- What stands after an opening bracket, with the closing one. -/
  | items (ts : List Tree)
  | members (ms : List (List Byte × Tree))

def leftBracket : Byte := 0x5B
def rightBracket : Byte := 0x5D

def intOf (neg : Bool) (ds : List Byte) : ℤ := if neg then -(ofDigits ds : ℤ) else ofDigits ds

/-- Digits without a leading zero. -/
def Numeral (ds : List Byte) : Prop := Digits ds ∧ (ds.head? = some 0x30 → ds.length = 1)

inductive Reads : List Byte → Node → List Byte → Prop
  | null {s r : List Byte} (h : Ws s (nullText ++ r)) : Reads s (.value .null) r
  | bool {b : Bool} {s r : List Byte} (h : Ws s ((if b then trueText else falseText) ++ r)) :
      Reads s (.value (.bool b)) r
  | int {neg : Bool} {ds s r : List Byte} (hd : Numeral ds)
      (hz : neg = true → ds.head? ≠ some 0x30) (h : Ws s (sign neg ++ (ds ++ r))) :
      Reads s (.value (.int (intOf neg ds))) r
  | real {neg : Bool} {ds s u r : List Byte} (hd : Numeral ds) (ht : Tail u r)
      (h : Ws s (sign neg ++ (ds ++ u))) : Reads s (.value .real) r
  | str {s t r : List Byte} (h : Str s t r) : Reads s (.value (.str t)) r
  | noItems {s s₁ r : List Byte} (ho : Sign leftBracket s s₁) (hc : Sign rightBracket s₁ r) :
      Reads s (.value (.arr [])) r
  | arr {s s₁ r : List Byte} {ts : List Tree} (ho : Sign leftBracket s s₁)
      (hi : Reads s₁ (.items ts) r) : Reads s (.value (.arr ts)) r
  | lastItem {s s₁ r : List Byte} {t : Tree} (hv : Reads s (.value t) s₁)
      (hc : Sign rightBracket s₁ r) : Reads s (.items [t]) r
  | item {s s₁ s₂ r : List Byte} {t : Tree} {ts : List Tree} (hv : Reads s (.value t) s₁)
      (hs : Sign comma s₁ s₂) (hi : Reads s₂ (.items ts) r) : Reads s (.items (t :: ts)) r
  | noMembers {s s₁ r : List Byte} (ho : Sign opening s s₁) (hc : Sign closing s₁ r) :
      Reads s (.value (.obj [])) r
  | obj {s s₁ r : List Byte} {ms : List (List Byte × Tree)} (ho : Sign opening s s₁)
      (hn : (ms.map Prod.fst).Nodup) (hm : Reads s₁ (.members ms) r) : Reads s (.value (.obj ms)) r
  | lastMember {s s₁ s₂ s₃ r k : List Byte} {t : Tree} (hk : Str s k s₁) (hc : Sign colon s₁ s₂)
      (hv : Reads s₂ (.value t) s₃) (hr : Sign closing s₃ r) : Reads s (.members [(k, t)]) r
  | member {s s₁ s₂ s₃ s₄ r k : List Byte} {t : Tree} {ms : List (List Byte × Tree)}
      (hk : Str s k s₁) (hc : Sign colon s₁ s₂) (hv : Reads s₂ (.value t) s₃)
      (hs : Sign comma s₃ s₄) (hm : Reads s₄ (.members ms) r) : Reads s (.members ((k, t) :: ms)) r

/-- A whole text, between white space. -/
def ReadsAll (s : List Byte) (t : Tree) : Prop := ∃ r, Reads s (.value t) r ∧ Ws r []

variable {s r r' u : List Byte} {t : Tree} {c : Byte} {n n' : Node}

/-- The kind of a node. -/
def Tree.tag : Tree → ℕ
  | .null => 0
  | .bool _ => 1
  | .int _ => 2
  | .real => 2
  | .str _ => 3
  | .arr _ => 4
  | .obj _ => 5

def Node.tag : Node → ℕ
  | .value t => t.tag
  | .items _ => 6
  | .members _ => 7

theorem Tree.tag_lt (t : Tree) : t.tag < 6 := by
  cases t <;> simp [Tree.tag]

/-- The kind of the values that start with a byte. -/
def tagOf (c : Byte) : ℕ :=
  if c = 0x6E then 0
  else if c = 0x74 ∨ c = 0x66 then 1
  else if c = quote then 3
  else if c = leftBracket then 4
  else if c = opening then 5
  else if c = minus ∨ isDigit c = true then 2
  else 6

theorem ws_head_eq {d : Byte} {v : List Byte} (h : Ws s (c :: u)) (h' : Ws s (d :: v))
    (hc : isWs c = false) (hd : isWs d = false) : c = d ∧ u = v :=
  List.cons.inj ((Ws.skipWs h hc).symm.trans (Ws.skipWs h' hd))

theorem number_head {neg : Bool} {ds : List Byte} (h : Digits ds) (u : List Byte) :
    ∃ c v, sign neg ++ (ds ++ u) = c :: v ∧ isWs c = false ∧ tagOf c = 2 := by
  have hdigit : ∀ c, isDigit c = true → isWs c = false ∧ tagOf c = 2 := by decide
  cases neg with
  | true => exact ⟨minus, ds ++ u, rfl, by decide, by decide⟩
  | false =>
    cases ds with
    | nil => exact absurd rfl h.1
    | cons c ds => exact ⟨c, ds ++ u, rfl, hdigit c (h.2 c (List.mem_cons_self ..))⟩

theorem Reads.head (h : Reads s (.value t) r) :
    ∃ c u, Ws s (c :: u) ∧ isWs c = false ∧ tagOf c = t.tag := by
  cases h with
  | null h => exact ⟨_, _, h, by decide, by decide⟩
  | @bool b _ _ h =>
    cases b with
    | true => exact ⟨_, _, h, by decide, by decide⟩
    | false => exact ⟨_, _, h, by decide, by decide⟩
  | int hd hz h =>
    obtain ⟨c, v, heq, hc⟩ := number_head hd.1 r
    exact ⟨c, v, heq ▸ h, hc⟩
  | real hd ht h =>
    obtain ⟨c, v, heq, hc⟩ := number_head hd.1 _
    exact ⟨c, v, heq ▸ h, hc⟩
  | str h =>
    obtain ⟨s', hq, -⟩ := h
    exact ⟨_, _, hq, by decide, (by decide : tagOf quote = 3)⟩
  | noItems ho hc => exact ⟨_, _, ho, by decide, by decide⟩
  | arr ho hi => exact ⟨_, _, ho, by decide, (by decide : tagOf leftBracket = 4)⟩
  | noMembers ho hc => exact ⟨_, _, ho, by decide, by decide⟩
  | obj ho hn hm => exact ⟨_, _, ho, by decide, (by decide : tagOf opening = 5)⟩

theorem Reads.tag_eq {t' : Tree} (h : Reads s (.value t) r) (h' : Reads s (.value t') r') :
    t.tag = t'.tag := by
  obtain ⟨c, u, hws, hc, htag⟩ := h.head
  obtain ⟨d, v, hws', hd, htag'⟩ := h'.head
  obtain ⟨rfl, -⟩ := ws_head_eq hws hws' hc hd
  exact htag.symm.trans htag'

theorem Reads.no_sign (h : Reads s (.value t) r) (hc : c = rightBracket ∨ c = closing) :
    ¬ Sign c s u := by
  intro hs
  obtain ⟨d, v, hws, hd, htag⟩ := h.head
  have hc' : isWs c = false ∧ tagOf c = 6 := by
    obtain rfl | rfl := hc <;> decide
  obtain ⟨rfl, -⟩ := ws_head_eq hws hs hd hc'.1
  have hlt := t.tag_lt
  rw [← htag, hc'.2] at hlt
  exact absurd hlt (lt_irrefl 6)

theorem Reads.no_closing {ms : List (List Byte × Tree)} (h : Reads s (.members ms) r) :
    ¬ Sign closing s u := by
  intro hs
  obtain ⟨k, s₁, s', hq, -⟩ : ∃ k s₁, Str s k s₁ := by
    cases h with
    | lastMember hk => exact ⟨_, _, hk⟩
    | member hk => exact ⟨_, _, hk⟩
  exact absurd (ws_head_eq hq hs (by decide) (by decide)).1 (by decide)

theorem Reads.length_lt (h : Reads s n r) : r.length < s.length := by
  induction h with
  | null h =>
    have := Ws.length_le h
    simp only [nullText, List.length_append, List.length_cons] at this
    omega
  | @bool b _ _ h =>
    have := Ws.length_le h
    cases b <;> simp [trueText, falseText] at this <;> omega
  | int hd hz h =>
    have := Ws.length_le h
    have := List.length_pos_of_ne_nil hd.1.1
    simp only [List.length_append] at *
    omega
  | real hd ht h =>
    have := Ws.length_le h
    have := ht.length_lt
    simp only [List.length_append] at *
    omega
  | str h => exact h.length_lt
  | noItems ho hc => exact hc.length_lt.trans ho.length_lt
  | arr ho hi ih => exact ih.trans ho.length_lt
  | lastItem hv hc ih => exact hc.length_lt.trans ih
  | item hv hs hi ih ihs => exact ihs.trans (hs.length_lt.trans ih)
  | noMembers ho hc => exact hc.length_lt.trans ho.length_lt
  | obj ho hn hm ih => exact ih.trans ho.length_lt
  | lastMember hk hc hv hr ih =>
    exact hr.length_lt.trans (ih.trans (hc.length_lt.trans hk.length_lt))
  | member hk hc hv hs hm ih ihs =>
    exact ihs.trans (hs.length_lt.trans (ih.trans (hc.length_lt.trans hk.length_lt)))

theorem Reads.nodup {ms : List (List Byte × Tree)} (h : Reads s (.value (.obj ms)) r) :
    (ms.map Prod.fst).Nodup := by
  cases h with
  | noMembers => exact List.nodup_nil
  | obj ho hn hm => exact hn

theorem Reads.of_items {ts : List Tree} (h : Reads s (.items ts) r) (ht : t ∈ ts) :
    ∃ s r, Reads s (.value t) r := by
  induction ts generalizing s with
  | nil => exact absurd ht List.not_mem_nil
  | cons t' ts ih =>
    cases h with
    | lastItem hv =>
      obtain rfl := List.mem_singleton.mp ht
      exact ⟨_, _, hv⟩
    | item hv hs hi =>
      obtain rfl | ht := List.mem_cons.mp ht
      · exact ⟨_, _, hv⟩
      · exact ih hi ht

theorem Reads.of_members {ms : List (List Byte × Tree)} {k : List Byte}
    (h : Reads s (.members ms) r) (hm : (k, t) ∈ ms) : ∃ s r, Reads s (.value t) r := by
  induction ms generalizing s with
  | nil => exact absurd hm List.not_mem_nil
  | cons m ms ih =>
    cases h with
    | lastMember hk hc hv =>
      obtain ⟨rfl, rfl⟩ := Prod.mk.inj (List.mem_singleton.mp hm)
      exact ⟨_, _, hv⟩
    | member hk hc hv hs hms =>
      obtain heq | hm := List.mem_cons.mp hm
      · obtain ⟨rfl, rfl⟩ := Prod.mk.inj heq
        exact ⟨_, _, hv⟩
      · exact ih hms hm

/-- A byte of a number. -/
def inNumber (c : Byte) : Bool :=
  isDigit c || c = minus || c = 0x2B || c = 0x2E || c = 0x65 || c = 0x45

/-- What can stand behind a value. -/
def Stop (s : List Byte) : Prop := ∀ c, s.head? = some c → inNumber c = false

theorem sign_stop (h : Sign c s r) (hc : c = comma ∨ c = rightBracket ∨ c = closing) : Stop s := by
  have hws : ∀ c, isWs c = true → inNumber c = false := by decide
  intro d hd
  cases h with
  | nil =>
    obtain rfl := Option.some.inj hd
    obtain rfl | rfl | rfl := hc <;> decide
  | cons hw _ => exact Option.some.inj hd ▸ hws _ hw

theorem ws_stop (h : Ws s []) : Stop s := by
  have hws : ∀ c, isWs c = true → inNumber c = false := by decide
  intro d hd
  cases h with
  | nil => simp at hd
  | cons hw _ => exact Option.some.inj hd ▸ hws _ hw

theorem word_eq {w w' : List Byte} (hw : ∀ c ∈ w, inNumber c = true)
    (hw' : ∀ c ∈ w', inNumber c = true) (hr : Stop r) (hr' : Stop r') (h : w ++ r = w' ++ r') :
    w = w' ∧ r = r' := by
  have htake : ∀ {w r : List Byte}, (∀ c ∈ w, inNumber c = true) → Stop r →
      (w ++ r).takeWhile inNumber = w := by
    intro w r hw hr
    rw [List.takeWhile_append_of_pos hw]
    cases r with
    | nil => simp
    | cons c r => rw [List.takeWhile_cons_of_neg (by simp [hr c rfl]), List.append_nil]
  have heq : w = w' := by
    rw [← htake hw hr, h, htake hw' hr']
  exact ⟨heq, List.append_cancel_left (heq ▸ h)⟩

theorem digits_inNumber {ds : List Byte} (h : Digits ds) : ∀ c ∈ ds, inNumber c = true := by
  intro c hc
  unfold inNumber
  rw [h.2 c hc]
  rfl

theorem sign_inNumber (neg : Bool) : ∀ c ∈ sign neg, inNumber c = true := by
  cases neg <;> decide

theorem int_word {neg : Bool} {ds : List Byte} (h : Digits ds) :
    ∀ c ∈ sign neg ++ ds, inNumber c = true ∧ (c = minus ∨ isDigit c = true) := by
  intro c hc
  obtain hc | hc := List.mem_append.mp hc
  · refine ⟨sign_inNumber neg c hc, .inl ?_⟩
    cases neg with
    | true => exact List.mem_singleton.mp hc
    | false => simp [sign] at hc
  · exact ⟨digits_inNumber h c hc, .inr (h.2 c hc)⟩

theorem tail_word (h : Tail u r) : ∃ c w, u = c :: w ++ r ∧ (∀ d ∈ c :: w, inNumber d = true) ∧
    ¬ (c = minus ∨ isDigit c = true) := by
  have hsign : ∀ {sg : List Byte}, sg = [] ∨ sg = [0x2B] ∨ sg = [minus] →
      ∀ d ∈ sg, inNumber d = true := by
    rintro sg (rfl | rfl | rfl) <;> decide
  have hexp : ∀ {e : Byte}, e = 0x65 ∨ e = 0x45 →
      inNumber e = true ∧ ¬ (e = minus ∨ isDigit e = true) := by
    rintro e (rfl | rfl) <;> decide
  cases h with
  | @frac ds _ h =>
    exact ⟨0x2E, ds, rfl, List.forall_mem_cons.mpr ⟨by decide, digits_inNumber h⟩, by decide⟩
  | @exp e sg ds _ he hs h =>
    refine ⟨e, sg ++ ds, by simp, List.forall_mem_cons.mpr ⟨(hexp he).1, ?_⟩, (hexp he).2⟩
    exact List.forall_mem_append.mpr ⟨hsign hs, digits_inNumber h⟩
  | @both e sg fs ds _ hf he hs h =>
    refine ⟨0x2E, fs ++ e :: (sg ++ ds), by simp, List.forall_mem_cons.mpr ⟨by decide, ?_⟩,
      by decide⟩
    refine List.forall_mem_append.mpr ⟨digits_inNumber hf, List.forall_mem_cons.mpr
      ⟨(hexp he).1, List.forall_mem_append.mpr ⟨hsign hs, digits_inNumber h⟩⟩⟩

theorem sign_eq {neg neg' : Bool} {ds ds' : List Byte} (h : Digits ds) (h' : Digits ds')
    (heq : sign neg ++ ds = sign neg' ++ ds') : neg = neg' ∧ ds = ds' := by
  have hminus : ∀ {ds ds' : List Byte}, Digits ds → ds ≠ minus :: ds' := by
    rintro ds ds' hd rfl
    exact absurd (hd.2 minus (List.mem_cons_self ..)) (by decide)
  cases neg <;> cases neg'
  · exact ⟨rfl, heq⟩
  · exact absurd heq (hminus h)
  · exact absurd heq.symm (hminus h')
  · exact ⟨rfl, (List.cons.inj heq).2⟩

theorem str_unique {k k' : List Byte} (h : Str s k r) (h' : Str s k' r') : k = k' ∧ r = r' := by
  obtain ⟨v, hq, hv⟩ := h
  obtain ⟨v', hq', hv'⟩ := h'
  obtain ⟨-, rfl⟩ := ws_head_eq hq hq' (by decide) (by decide)
  clear hq hq'
  induction hv generalizing k' with
  | close =>
    cases hv' with
    | close => exact ⟨rfl, rfl⟩
    | plain hq => exact absurd rfl hq
  | plain hq hb _ _ ih =>
    cases hv' with
    | close => exact absurd rfl hq
    | plain _ _ _ hs =>
      obtain ⟨rfl, rfl⟩ := ih hs
      exact ⟨rfl, rfl⟩
    | escape => exact absurd rfl hb
  | escape _ _ ih =>
    cases hv' with
    | plain _ hb => exact absurd rfl hb
    | escape _ hs =>
      obtain ⟨rfl, rfl⟩ := ih hs
      exact ⟨rfl, rfl⟩

theorem sign_unique (hc : isWs c = false) (h : Sign c s r) (h' : Sign c s r') : r = r' :=
  (ws_head_eq h h' hc hc).2

theorem sign_other {d : Byte} (h : Sign c s r) (hc : isWs c = false) (hd : isWs d = false)
    (hne : c ≠ d) : ¬ Sign d s r' := fun h' => hne (ws_head_eq h h' hc hd).1

/-- What must follow a node for it to be read whole. -/
def Node.stops : Node → List Byte → Prop
  | .value _, r => Stop r
  | _, _ => True

theorem word_unique {neg neg' : Bool} {ds ds' : List Byte} (hd : Digits ds) (hd' : Digits ds')
    (hr : Stop r) (hr' : Stop r') (h : Ws s (sign neg ++ (ds ++ r)))
    (h' : Ws s (sign neg' ++ (ds' ++ r'))) : neg = neg' ∧ ds = ds' ∧ r = r' := by
  obtain ⟨c, v, heq, hc, -⟩ := @number_head neg _ hd r
  obtain ⟨c', v', heq', hc', -⟩ := @number_head neg' _ hd' r'
  obtain ⟨rfl, rfl⟩ := ws_head_eq (heq ▸ h) (heq' ▸ h') hc hc'
  have hall := heq.trans heq'.symm
  rw [← List.append_assoc, ← List.append_assoc] at hall
  obtain ⟨hw, rfl⟩ := word_eq (fun c hc => (int_word hd c hc).1) (fun c hc => (int_word hd' c hc).1)
    hr hr' hall
  obtain ⟨rfl, rfl⟩ := sign_eq hd hd' hw
  exact ⟨rfl, rfl, rfl⟩

theorem real_unique {neg neg' : Bool} {ds ds' u' : List Byte} (hd : Digits ds) (hd' : Digits ds')
    (ht : Tail u r) (ht' : Tail u' r') (hr : Stop r) (hr' : Stop r')
    (h : Ws s (sign neg ++ (ds ++ u))) (h' : Ws s (sign neg' ++ (ds' ++ u'))) : r = r' := by
  obtain ⟨c, v, heq, hc, -⟩ := @number_head neg _ hd u
  obtain ⟨c', v', heq', hc', -⟩ := @number_head neg' _ hd' u'
  obtain ⟨rfl, rfl⟩ := ws_head_eq (heq ▸ h) (heq' ▸ h') hc hc'
  obtain ⟨d, w, rfl, hw, -⟩ := tail_word ht
  obtain ⟨d', w', rfl, hw', -⟩ := tail_word ht'
  have hall := heq.trans heq'.symm
  simp only [← List.append_assoc] at hall
  refine (word_eq ?_ ?_ hr hr' hall).2
  · exact List.forall_mem_append.mpr ⟨fun c hc => (int_word hd c hc).1, hw⟩
  · exact List.forall_mem_append.mpr ⟨fun c hc => (int_word hd' c hc).1, hw'⟩

theorem int_ne_real {neg neg' : Bool} {ds ds' : List Byte} (hd : Digits ds) (hd' : Digits ds')
    (ht : Tail u r') (hr : Stop r) (hr' : Stop r') (h : Ws s (sign neg ++ (ds ++ r))) :
    ¬ Ws s (sign neg' ++ (ds' ++ u)) := by
  intro h'
  obtain ⟨c, v, heq, hc, -⟩ := @number_head neg _ hd r
  obtain ⟨c', v', heq', hc', -⟩ := @number_head neg' _ hd' u
  obtain ⟨rfl, rfl⟩ := ws_head_eq (heq ▸ h) (heq' ▸ h') hc hc'
  obtain ⟨d, w, rfl, hw, hno⟩ := tail_word ht
  have hall := heq.trans heq'.symm
  simp only [← List.append_assoc] at hall
  obtain ⟨hword, -⟩ := word_eq (fun c hc => (int_word hd c hc).1)
    (List.forall_mem_append.mpr ⟨fun c hc => (int_word hd' c hc).1, hw⟩) hr hr' hall
  have hmem : d ∈ sign neg ++ ds := by
    rw [hword]
    simp
  exact hno (int_word hd d hmem).2

theorem name_unique {d : Byte} {v w : List Byte} (hc : isWs c = false) (hd : isWs d = false)
    (h : Ws s (c :: v ++ r)) (h' : Ws s (d :: w ++ r')) : c = d ∧ (v = w → r = r') := by
  obtain ⟨rfl, heq⟩ := ws_head_eq h h' hc hd
  refine ⟨rfl, ?_⟩
  rintro rfl
  exact List.append_cancel_left heq

theorem Reads.unique (h : Reads s n r) : ∀ {n' : Node} {r' : List Byte}, Reads s n' r' →
    n.tag = n'.tag → n.stops r → n'.stops r' → n = n' ∧ r = r' := by
  induction h with
  | null h =>
    intro n' r' h' htag hs hs'
    cases h' with
    | null h' => exact ⟨rfl, (name_unique (by decide) (by decide) h h').2 rfl⟩
    | _ => simp [Node.tag, Tree.tag] at htag
  | @bool b _ _ h =>
    intro n' r' h' htag hs hs'
    cases h' with
    | @bool b' _ _ h' =>
      cases b <;> cases b'
      · exact ⟨rfl, (name_unique (by decide) (by decide) h h').2 rfl⟩
      · exact absurd (name_unique (by decide) (by decide) h h').1 (by decide)
      · exact absurd (name_unique (by decide) (by decide) h h').1 (by decide)
      · exact ⟨rfl, (name_unique (by decide) (by decide) h h').2 rfl⟩
    | _ => simp [Node.tag, Tree.tag] at htag
  | int hd hz h =>
    intro n' r' h' htag hs hs'
    cases h' with
    | int hd' hz' h' =>
      obtain ⟨rfl, rfl, rfl⟩ := word_unique hd.1 hd'.1 hs hs' h h'
      exact ⟨rfl, rfl⟩
    | real hd' ht' h' => exact absurd h' (int_ne_real hd.1 hd'.1 ht' hs hs' h)
    | _ => simp [Node.tag, Tree.tag] at htag
  | real hd ht h =>
    intro n' r' h' htag hs hs'
    cases h' with
    | int hd' hz' h' => exact absurd h (int_ne_real hd'.1 hd.1 ht hs' hs h')
    | real hd' ht' h' => exact ⟨rfl, real_unique hd.1 hd'.1 ht ht' hs hs' h h'⟩
    | _ => simp [Node.tag, Tree.tag] at htag
  | str h =>
    intro n' r' h' htag hs hs'
    cases h' with
    | str h' =>
      obtain ⟨rfl, rfl⟩ := str_unique h h'
      exact ⟨rfl, rfl⟩
    | _ => simp [Node.tag, Tree.tag] at htag
  | noItems ho hc =>
    intro n' r' h' htag hs hs'
    cases h' with
    | noItems ho' hc' =>
      obtain rfl := sign_unique (by decide) ho ho'
      exact ⟨rfl, sign_unique (by decide) hc hc'⟩
    | arr ho' hi' =>
      obtain rfl := sign_unique (by decide) ho ho'
      cases hi' with
      | lastItem hv' => exact absurd hc (hv'.no_sign (.inl rfl))
      | item hv' => exact absurd hc (hv'.no_sign (.inl rfl))
    | _ => simp [Node.tag, Tree.tag] at htag
  | arr ho hi ih =>
    intro n' r' h' htag hs hs'
    cases h' with
    | noItems ho' hc' =>
      obtain rfl := sign_unique (by decide) ho ho'
      cases hi with
      | lastItem hv => exact absurd hc' (hv.no_sign (.inl rfl))
      | item hv => exact absurd hc' (hv.no_sign (.inl rfl))
    | arr ho' hi' =>
      obtain rfl := sign_unique (by decide) ho ho'
      obtain ⟨hts, rfl⟩ := ih hi' rfl trivial trivial
      exact ⟨congrArg Node.value (congrArg Tree.arr (Node.items.inj hts)), rfl⟩
    | _ => simp [Node.tag, Tree.tag] at htag
  | lastItem hv hc ih =>
    intro n' r' h' htag hs hs'
    cases h' with
    | lastItem hv' hc' =>
      obtain ⟨ht, rfl⟩ := ih hv' (hv.tag_eq hv') (sign_stop hc (.inr (.inl rfl)))
        (sign_stop hc' (.inr (.inl rfl)))
      obtain rfl := Node.value.inj ht
      exact ⟨rfl, sign_unique (by decide) hc hc'⟩
    | item hv' hs₁' hi' =>
      obtain ⟨-, rfl⟩ := ih hv' (hv.tag_eq hv') (sign_stop hc (.inr (.inl rfl)))
        (sign_stop hs₁' (.inl rfl))
      exact absurd hs₁' (sign_other hc (by decide) (by decide) (by decide))
    | _ => simp [Node.tag, Tree.tag] at htag
  | item hv hs₁ hi ih ihs =>
    intro n' r' h' htag hs hs'
    cases h' with
    | lastItem hv' hc' =>
      obtain ⟨-, rfl⟩ := ih hv' (hv.tag_eq hv') (sign_stop hs₁ (.inl rfl))
        (sign_stop hc' (.inr (.inl rfl)))
      exact absurd hc' (sign_other hs₁ (by decide) (by decide) (by decide))
    | item hv' hs₁' hi' =>
      obtain ⟨ht, rfl⟩ := ih hv' (hv.tag_eq hv') (sign_stop hs₁ (.inl rfl))
        (sign_stop hs₁' (.inl rfl))
      obtain rfl := Node.value.inj ht
      obtain rfl := sign_unique (by decide) hs₁ hs₁'
      obtain ⟨hts, rfl⟩ := ihs hi' rfl trivial trivial
      obtain rfl := Node.items.inj hts
      exact ⟨rfl, rfl⟩
    | _ => simp [Node.tag, Tree.tag] at htag
  | noMembers ho hc =>
    intro n' r' h' htag hs hs'
    cases h' with
    | noMembers ho' hc' =>
      obtain rfl := sign_unique (by decide) ho ho'
      exact ⟨rfl, sign_unique (by decide) hc hc'⟩
    | obj ho' hn' hm' =>
      obtain rfl := sign_unique (by decide) ho ho'
      exact absurd hc hm'.no_closing
    | _ => simp [Node.tag, Tree.tag] at htag
  | obj ho hn hm ih =>
    intro n' r' h' htag hs hs'
    cases h' with
    | noMembers ho' hc' =>
      obtain rfl := sign_unique (by decide) ho ho'
      exact absurd hc' hm.no_closing
    | obj ho' hn' hm' =>
      obtain rfl := sign_unique (by decide) ho ho'
      obtain ⟨hms, rfl⟩ := ih hm' rfl trivial trivial
      obtain rfl := Node.members.inj hms
      exact ⟨rfl, rfl⟩
    | _ => simp [Node.tag, Tree.tag] at htag
  | lastMember hk hc hv hr ih =>
    intro n' r' h' htag hs hs'
    cases h' with
    | lastMember hk' hc' hv' hr' =>
      obtain ⟨rfl, rfl⟩ := str_unique hk hk'
      obtain rfl := sign_unique (by decide) hc hc'
      obtain ⟨ht, rfl⟩ := ih hv' (hv.tag_eq hv') (sign_stop hr (.inr (.inr rfl)))
        (sign_stop hr' (.inr (.inr rfl)))
      obtain rfl := Node.value.inj ht
      exact ⟨rfl, sign_unique (by decide) hr hr'⟩
    | member hk' hc' hv' hs₁' hm' =>
      obtain ⟨rfl, rfl⟩ := str_unique hk hk'
      obtain rfl := sign_unique (by decide) hc hc'
      obtain ⟨-, rfl⟩ := ih hv' (hv.tag_eq hv') (sign_stop hr (.inr (.inr rfl)))
        (sign_stop hs₁' (.inl rfl))
      exact absurd hs₁' (sign_other hr (by decide) (by decide) (by decide))
    | _ => simp [Node.tag, Tree.tag] at htag
  | member hk hc hv hs₁ hm ih ihs =>
    intro n' r' h' htag hs hs'
    cases h' with
    | lastMember hk' hc' hv' hr' =>
      obtain ⟨rfl, rfl⟩ := str_unique hk hk'
      obtain rfl := sign_unique (by decide) hc hc'
      obtain ⟨-, rfl⟩ := ih hv' (hv.tag_eq hv') (sign_stop hs₁ (.inl rfl))
        (sign_stop hr' (.inr (.inr rfl)))
      exact absurd hr' (sign_other hs₁ (by decide) (by decide) (by decide))
    | member hk' hc' hv' hs₁' hm' =>
      obtain ⟨rfl, rfl⟩ := str_unique hk hk'
      obtain rfl := sign_unique (by decide) hc hc'
      obtain ⟨ht, rfl⟩ := ih hv' (hv.tag_eq hv') (sign_stop hs₁ (.inl rfl))
        (sign_stop hs₁' (.inl rfl))
      obtain rfl := Node.value.inj ht
      obtain rfl := sign_unique (by decide) hs₁ hs₁'
      obtain ⟨hms, rfl⟩ := ihs hm' rfl trivial trivial
      obtain rfl := Node.members.inj hms
      exact ⟨rfl, rfl⟩
    | _ => simp [Node.tag, Tree.tag] at htag

theorem ReadsAll.unique {t t' : Tree} (h : ReadsAll s t) (h' : ReadsAll s t') : t = t' := by
  obtain ⟨r, hr, hws⟩ := h
  obtain ⟨r', hr', hws'⟩ := h'
  have hall := hr.unique hr' (hr.tag_eq hr') (ws_stop hws) (ws_stop hws')
  exact Node.value.inj hall.1

end OpenCalifornia.Lib.Nested
