import OpenCalifornia.Json.RoundTrip
import OpenCalifornia.Web.BeaconTwin

/-! # The records of a beacon

A batch is recorded whole: one record for each event, in order, and what is read back from a record
are the values of the batch, the message of an error cut at most. -/

namespace OpenCalifornia.Web
open Lib.Bits Lib.Json Lib.Flat Lib.Nested
open Lib.Buffer (chars)

variable {ms o : List (List Byte × Tree)} {k : List Byte} {t : Tree} {i : ℕ}
  {e : UxRead} {h : UxHdr}

/-- The value of a key, by what is kept of it. -/
def evTree (e : UxEv) (i : ℕ) : Tree :=
  if i ≤ 2 then .str (e.id i)
  else if i ≤ 5 then .int (e.num (i - 3))
  else if i = 6 then .str e.msg
  else if i = 7 then .str (uxTypes.getD (e.type.getD 0) [])
  else .str e.value

theorem asText_eq_some {min max : ℕ} {allowed : Byte → Bool} {v : List Byte}
    (h : asText min max allowed t = some v) : t = .str v := by
  cases t with
  | str s => exact congrArg Tree.str (Option.some.inj (Option.ite_none_right_eq_some.mp h).2)
  | _ => simp [asText] at h

theorem asUxInt_eq_some {v : ℕ} (h : asUxInt t = some v) : t = .int v := by
  cases t with
  | int n =>
    obtain ⟨hn, h⟩ := Option.ite_none_right_eq_some.mp h
    rw [← Option.some.inj h, Int.toNat_of_nonneg hn.1]
  | _ => simp [asUxInt] at h

theorem asEnum_eq_some {set : List (List Byte)} {v : ℕ} (hset : set.Nodup)
    (h : asEnum set t = some v) : t = .str (set.getD v []) := by
  cases t with
  | str s =>
    have hat := (indexOf_iff hset).mp h
    rw [List.getD_eq_getElem?_getD, hat, Option.getD_some]
  | _ => simp [asEnum] at h

theorem asBool_eq_some {b : Bool} (h : asBool t = some b) : t = .bool b := by
  cases t with
  | bool b' => exact congrArg Tree.bool (Option.some.inj h)
  | _ => simp [asBool] at h

theorem uxUa_nodup : uxUa.Nodup := by decide

theorem uxOrigin_nodup : uxOrigin.Nodup := by decide

theorem evTree_take {x y : UxEv} (hy : eventTake i t x = some y) : t = evTree y i := by
  unfold eventTake at hy
  unfold evTree
  split_ifs at hy ⊢ with h₂ h₅ h₆ h₇
  · obtain ⟨v, hv, rfl⟩ := Option.map_eq_some_iff.mp hy
    dsimp only
    rw [Function.update_self]
    exact asText_eq_some hv
  · obtain ⟨v, hv, rfl⟩ := Option.map_eq_some_iff.mp hy
    dsimp only
    rw [Function.update_self]
    exact asUxInt_eq_some hv
  · obtain ⟨v, hv, rfl⟩ := Option.map_eq_some_iff.mp hy
    exact asText_eq_some hv
  · obtain ⟨v, hv, rfl⟩ := Option.map_eq_some_iff.mp hy
    exact asEnum_eq_some uxTypes_nodup hv
  · obtain ⟨v, hv, rfl⟩ := Option.map_eq_some_iff.mp hy
    exact asText_eq_some hv

theorem evTree_frame {j : ℕ} {x y : UxEv} (hi : i < 9) (hj : j < 9) (hne : j ≠ i)
    (hy : eventTake j t x = some y) : evTree y i = evTree x i := by
  unfold eventTake at hy
  unfold evTree
  split_ifs at hy with h₂ h₅ h₆ h₇
  · obtain ⟨v, -, rfl⟩ := Option.map_eq_some_iff.mp hy
    simp only [Function.update_of_ne hne.symm]
  · obtain ⟨v, -, rfl⟩ := Option.map_eq_some_iff.mp hy
    split_ifs with g₂ g₅
    · rfl
    · have hne' : i - 3 ≠ j - 3 := by omega
      simp only [Function.update_of_ne hne']
    · rfl
    · rfl
    · rfl
  · obtain ⟨v, -, rfl⟩ := Option.map_eq_some_iff.mp hy
    split_ifs with g₂ g₅ g₆
    · rfl
    · rfl
    · exact absurd (h₆.trans g₆.symm) hne
    · rfl
    · rfl
  · obtain ⟨v, -, rfl⟩ := Option.map_eq_some_iff.mp hy
    split_ifs with g₂ g₅ g₆ g₇
    · rfl
    · rfl
    · rfl
    · exact absurd (h₇.trans g₇.symm) hne
    · rfl
  · obtain ⟨v, -, rfl⟩ := Option.map_eq_some_iff.mp hy
    split_ifs with g₂ g₅ g₆ g₇
    · rfl
    · rfl
    · rfl
    · rfl
    · omega

theorem evTree_member {seen b : ℕ} {x y : UxEv} (hn : (ms.map Prod.fst).Nodup)
    (h : takeMembers uxKeys.names eventTake ms seen x = some (b, y))
    (hi : uxKeys.names[i]? = some k) (hm : (k, t) ∈ ms) : t = evTree y i ∧ okEvent i t := by
  have hlt : i < 9 := (List.getElem?_eq_some_iff.mp hi).1
  refine @takeMembers_member _ _ _ _ _ _ _ _ _ _ (fun y => evTree y i) i
    (fun t v => t = v ∧ okEvent i t) _ uxKeys.nodup ?_ ?_ hn hi hm h
  · intro j t x y hj hne hy
    exact evTree_frame hlt hj hne hy
  · intro t x y hy
    exact ⟨evTree_take hy, (eventTake_isSome i t x).mp (hy ▸ rfl)⟩

/-- What was read of an event, by its keys. -/
structure ReadOf (ms : List (List Byte × Tree)) (e : UxRead) : Prop where
  get_key : ∀ i < 9, get ms (uxKeys.names.getD i []) =
    if e.seen.testBit i then some (evTree e.ev i) else none
  ok : ∀ i < 9, e.seen.testBit i → okEvent i (evTree e.ev i)
  type : e.ev.type = some e.type
  type_lt : e.type < 4
  shape : uxShape e.seen e.type

theorem readOf (hn : (ms.map Prod.fst).Nodup) (he : eventOf (.obj ms) = some e) : ReadOf ms e := by
  obtain ⟨⟨seen, ev⟩, hread, he⟩ := Option.bind_eq_some_iff.mp he
  obtain ⟨type, htype, he⟩ := Option.bind_eq_some_iff.mp he
  obtain ⟨hshape, he⟩ := Option.ite_none_right_eq_some.mp he
  obtain rfl := Option.some.inj he
  have hbits := takeMembers_bits uxKeys.nodup hread
  have hat : ∀ i < 9, uxKeys.names[i]? = some (uxKeys.names.getD i []) := by
    intro i hi
    rw [List.getD_eq_getElem?_getD, List.getElem?_eq_getElem hi, Option.getD_some]
  have hmem : ∀ i < 9, seen.testBit i = true → ∃ t, (uxKeys.names.getD i [], t) ∈ ms := by
    intro i hi hbit
    obtain ⟨⟨k, t⟩, hm, hk⟩ := (hbits i).mp hbit
    obtain rfl := Option.some.inj ((hat i hi).symm.trans hk)
    exact ⟨t, hm⟩
  refine ⟨fun i hi => ?_, fun i hi hbit => ?_, htype, ?_, hshape⟩
  · split_ifs with hbit
    · obtain ⟨t, hm⟩ := hmem i hi hbit
      rw [← (evTree_member hn hread (hat i hi) hm).1]
      exact (get_eq_some hn).mpr hm
    · refine Option.eq_none_iff_forall_not_mem.mpr fun t ht => hbit ((hbits i).mpr ?_)
      exact ⟨_, (get_eq_some hn).mp ht, hat i hi⟩
  · obtain ⟨t, hm⟩ := hmem i hi hbit
    obtain ⟨rfl, hok⟩ := evTree_member hn hread (hat i hi) hm
    exact hok
  · obtain ⟨t, hm⟩ := hmem 7 (by decide) (type_bit hshape)
    exact type_lt ((type_member hn hread hm).2.trans htype)

def hdrTree (h : UxHdr) (i : ℕ) : Tree :=
  if i = 0 then .str h.sid
  else if i = 1 then .str (uxUa.getD h.ua [])
  else if i = 2 then .bool h.standalone
  else .str (uxOrigin.getD h.origin [])

theorem hdrTree_take {emit : Bool} {x y : UxPass} (hi : i < 4) (hy : bodyTake emit i t x = some y) :
    t = hdrTree y.1 i := by
  unfold bodyTake at hy
  unfold hdrTree
  split_ifs at hy ⊢ with h₀ h₁ h₂ h₃
  · obtain ⟨v, hv, rfl⟩ := Option.map_eq_some_iff.mp hy
    exact asText_eq_some hv
  · obtain ⟨v, hv, rfl⟩ := Option.map_eq_some_iff.mp hy
    exact asEnum_eq_some uxUa_nodup hv
  · obtain ⟨v, hv, rfl⟩ := Option.map_eq_some_iff.mp hy
    exact asBool_eq_some hv
  · obtain ⟨v, hv, rfl⟩ := Option.map_eq_some_iff.mp hy
    exact asEnum_eq_some uxOrigin_nodup hv
  · omega

theorem hdrTree_frame {j : ℕ} {emit : Bool} {x y : UxPass} (hi : i < 4) (hne : j ≠ i)
    (hy : bodyTake emit j t x = some y) : hdrTree y.1 i = hdrTree x.1 i := by
  unfold bodyTake at hy
  unfold hdrTree
  split_ifs at hy with h₀ h₁ h₂ h₃
  · obtain ⟨v, -, rfl⟩ := Option.map_eq_some_iff.mp hy
    simp only [if_neg (h₀ ▸ hne.symm : ¬ i = 0)]
  · obtain ⟨v, -, rfl⟩ := Option.map_eq_some_iff.mp hy
    simp only [if_neg (h₁ ▸ hne.symm : ¬ i = 1)]
  · obtain ⟨v, -, rfl⟩ := Option.map_eq_some_iff.mp hy
    simp only [if_neg (h₂ ▸ hne.symm : ¬ i = 2)]
  · obtain ⟨v, -, rfl⟩ := Option.map_eq_some_iff.mp hy
    have hsmall : i = 0 ∨ i = 1 ∨ i = 2 := by omega
    obtain rfl | rfl | rfl := hsmall <;> rfl
  · obtain ⟨v, -, rfl⟩ := Option.map_eq_some_iff.mp hy
    rfl

/-- What was read of a header, by its keys. -/
structure HeaderOf (o : List (List Byte × Tree)) (h : UxHdr) : Prop where
  get_key : ∀ i < 4, get o (uxBodyKeys.names.getD i []) = some (hdrTree h i)
  ok : ∀ i < 4, okBody i (hdrTree h i)

theorem headerOf {emit : Bool} {x y : UxPass} (hn : (o.map Prod.fst).Nodup)
    (hread : takeMembers uxBodyKeys.names (bodyTake emit) o 0 x = some (31, y)) :
    HeaderOf o y.1 := by
  have hall : ∀ i < 4, ∃ t, (uxBodyKeys.names.getD i [], t) ∈ o ∧ t = hdrTree y.1 i ∧
      okBody i t := by
    intro i hi
    have hat : uxBodyKeys.names[i]? = some (uxBodyKeys.names.getD i []) := by
      rw [List.getD_eq_getElem?_getD,
        List.getElem?_eq_getElem (hi.trans (by decide : 4 < uxBodyKeys.names.length)),
        Option.getD_some]
    have hmask : ∀ i < 4, Nat.testBit 31 i = true := by decide
    obtain ⟨⟨k, t⟩, hm, hk⟩ := (takeMembers_bits uxBodyKeys.nodup hread i).mp (hmask i hi)
    obtain rfl := Option.some.inj (hat.symm.trans hk)
    refine ⟨t, hm, ?_⟩
    refine @takeMembers_member _ _ _ _ _ _ _ _ _ _ (fun y : UxPass => hdrTree y.1 i) i
      (fun t v => t = v ∧ okBody i t) _ uxBodyKeys.nodup ?_ ?_ hn hat hm hread
    · intro j t x y _ hne hy
      exact hdrTree_frame hi hne hy
    · intro t x y hy
      exact ⟨hdrTree_take hi hy, (bodyTake_isSome emit i t x).mp (hy ▸ rfl)⟩
  constructor
  · intro i hi
    obtain ⟨t, hm, rfl, -⟩ := hall i hi
    exact (get_eq_some hn).mpr hm
  · intro i hi
    obtain ⟨t, -, rfl, hok⟩ := hall i hi
    exact hok

variable {emit : Bool} {log : List (List Byte)} {x y z : UxPass}

theorem enum_self {set : List (List Byte)} {n v : ℕ} (hset : set.Nodup) (hne : [] ∉ set)
    (h : asEnum set (.str (set.getD n [])) = some v) : v = n := by
  have hat := (indexOf_iff hset).mp h
  by_cases hn : n < set.length
  · have hself : set[n]? = some (set.getD n []) := by
      rw [List.getD_eq_getElem?_getD, List.getElem?_eq_getElem hn, Option.getD_some]
    exact ((List.getElem?_inj hn hset).mp (hself.trans hat.symm)).symm
  · have hnil : set.getD n [] = [] := by
      rw [List.getD_eq_getElem?_getD, List.getElem?_eq_none (Nat.le_of_not_lt hn), Option.getD_none]
    rw [hnil] at hat
    exact absurd (List.mem_of_getElem? hat) hne

theorem bodyTake_self (hi : i < 4) (hy : bodyTake emit i (hdrTree h i) (h, log) = some z) :
    z = (h, log) := by
  have hua : [] ∉ uxUa := by decide
  have horigin : [] ∉ uxOrigin := by decide
  interval_cases i
  · obtain ⟨v, hv, rfl⟩ := Option.map_eq_some_iff.mp hy
    have hsid : h.sid = v := Tree.str.inj (asText_eq_some hv)
    rw [← hsid]
  · obtain ⟨v, hv, rfl⟩ := Option.map_eq_some_iff.mp hy
    rw [enum_self uxUa_nodup hua hv]
  · exact (Option.some.inj hy).symm
  · obtain ⟨v, hv, rfl⟩ := Option.map_eq_some_iff.mp hy
    rw [enum_self uxOrigin_nodup horigin hv]

/-- What a list of events adds to the log. -/
def logged (h : UxHdr) (emit : Bool) (t : Tree) : List (List Byte) :=
  ((eventsOf t).getD []).flatMap (records h emit)

theorem bodyTake_events (hy : bodyTake emit 4 t (h, log) = some z) :
    z = (h, log ++ logged h emit t) := by
  obtain ⟨es, hes, rfl⟩ := Option.map_eq_some_iff.mp hy
  rw [logged, hes]
  rfl

/-- A pass over the members of a header that is known writes the records under it. -/
theorem pass_records {seen b : ℕ}
    (hhdr : ∀ m ∈ ms, ∀ i < 4, uxBodyKeys.names[i]? = some m.1 → m.2 = hdrTree h i)
    (hread : takeMembers uxBodyKeys.names (bodyTake emit) ms seen (h, log) = some (b, y)) :
    y = (h, log ++ ms.flatMap fun m => if m.1 = chars "events" then logged h emit m.2 else []) := by
  have hlast : uxBodyKeys.names[4]? = some (chars "events") := rfl
  induction ms generalizing seen log with
  | nil =>
    obtain ⟨rfl, rfl⟩ := Prod.mk.inj (Option.some.inj hread)
    rw [List.flatMap_nil, List.append_nil]
  | cons m ms ih =>
    obtain ⟨k, t⟩ := m
    obtain ⟨i, z, hi, hz, hread⟩ := (takeMembers_cons uxBodyKeys.nodup).mp hread
    obtain ⟨hhead, htail⟩ := List.forall_mem_cons.mp hhdr
    rw [List.flatMap_cons, ← List.append_assoc]
    have hlt : i < 5 := (List.getElem?_eq_some_iff.mp hi).1
    by_cases hfour : i = 4
    · subst hfour
      obtain rfl := Option.some.inj (hlast.symm.trans hi)
      obtain rfl := bodyTake_events hz
      rw [if_pos rfl]
      exact ih htail hread
    · have hsmall : i < 4 := by omega
      obtain rfl : t = hdrTree h i := hhead i hsmall hi
      obtain rfl := bodyTake_self hsmall hz
      have hne : k ≠ chars "events" := by
        rintro rfl
        exact hfour ((List.getElem?_inj hlt uxBodyKeys.nodup).mp (hi.trans hlast.symm))
      rw [if_neg hne, List.append_nil]
      exact ih htail hread

theorem flatMap_member {α : Type} {f : Tree → List α} (hn : (ms.map Prod.fst).Nodup)
    (hm : (k, t) ∈ ms) : (ms.flatMap fun m => if m.1 = k then f m.2 else []) = f t := by
  induction ms with
  | nil => exact absurd hm List.not_mem_nil
  | cons m ms ih =>
    obtain ⟨hnew, hn⟩ := List.nodup_cons.mp hn
    rw [List.flatMap_cons]
    obtain rfl | hm := List.mem_cons.mp hm
    · have hrest : (ms.flatMap fun m => if m.1 = k then f m.2 else []) = [] := by
        refine List.flatMap_eq_nil_iff.mpr fun m' hm' => if_neg ?_
        rintro rfl
        exact hnew (List.mem_map.mpr ⟨m', hm', rfl⟩)
      rw [if_pos rfl, hrest, List.append_nil]
    · have hne : m.1 ≠ k := fun heq => hnew (heq ▸ List.mem_map_of_mem hm)
      rw [if_neg hne, List.nil_append]
      exact ih hn hm

theorem first_log {seen b : ℕ} {x : UxPass}
    (hread : takeMembers uxBodyKeys.names (bodyTake false) ms seen x = some (b, y)) :
    y.2 = x.2 := by
  have hfive : uxBodyKeys.names[5]? = none := rfl
  refine @takeMembers_frame _ _ _ _ _ _ _ _ _ Prod.snd 5 uxBodyKeys.nodup ?_ ?_ hread
  · intro j t x y _ _ hy
    unfold bodyTake at hy
    split_ifs at hy
    all_goals
      obtain ⟨v, -, rfl⟩ := Option.map_eq_some_iff.mp hy
    · rfl
    · rfl
    · rfl
    · rfl
    · have hnone : v.flatMap (records x.1 false) = [] :=
        List.flatMap_eq_nil_iff.mpr fun e _ => if_neg Bool.false_ne_true
      dsimp only
      rw [hnone, List.append_nil]
  · intro m _ heq
    rw [hfive] at heq
    cases heq

theorem apiUx_log {body : List Byte} (hbody : ReadsAll body (.obj o)) (hb : uxBatch (.obj o) = true)
    (hlen : body.length ≤ uxBodyMax) :
    ∃ h evs es, HeaderOf o h ∧ get o (chars "events") = some (.arr evs) ∧ itemsOf evs = some es ∧
      apiUx .station true body = (204, es.flatMap (records h true)) := by
  have hone : ∀ {emit x y}, uxParse emit body x = some y →
      takeMembers uxBodyKeys.names (bodyTake emit) o 0 x = some (31, y) := by
    intro emit x y hp
    obtain ⟨ms, hms, htake⟩ := uxParse_iff.mp hp
    obtain rfl := Tree.obj.inj (hms.unique hbody)
    exact htake
  obtain ⟨⟨h, log⟩, hfirst⟩ := (@uxParse_isSome false ({}, []) body).mpr ⟨_, hbody, hb⟩
  obtain ⟨y, hsecond⟩ := (@uxParse_isSome true (h, log) body).mpr ⟨_, hbody, hb⟩
  obtain rfl : log = [] := first_log (hone hfirst)
  obtain ⟨r, hr, -⟩ := hbody
  have hn := hr.nodup
  have hhdr := headerOf hn (hone hfirst)
  have hevents := (uxBatch_iff.mp hb).2.2 4 (by decide)
  have hfour : uxBodyKeys.names.getD 4 [] = chars "events" := rfl
  rw [hfour] at hevents
  have hmembers : ∀ m ∈ o, ∀ i < 4, uxBodyKeys.names[i]? = some m.1 → m.2 = hdrTree h i := by
    intro m hm i hi hk
    have hget := hhdr.get_key i hi
    rw [List.getD_eq_getElem?_getD, hk, Option.getD_some] at hget
    have hin := (get_eq_some hn).mpr hm
    exact Option.some.inj (hin.symm.trans hget)
  have hlog := pass_records hmembers (hone hsecond)
  cases hget : get o (chars "events") with
  | none =>
    rw [hget] at hevents
    cases hevents
  | some t =>
    rw [hget] at hevents
    rw [flatMap_member hn ((get_eq_some hn).mp hget)] at hlog
    cases t with
    | arr evs =>
      obtain ⟨s', r', ht⟩ := of_obj hr ((get_eq_some hn).mp hget)
      obtain ⟨es, hes⟩ := Option.isSome_iff_exists.mp ((eventsOf_isSome ht).mpr hevents)
      have hitems := (Option.ite_none_right_eq_some.mp hes).2
      refine ⟨h, evs, es, hhdr, rfl, hitems, ?_⟩
      unfold apiUx
      rw [if_neg fun hne => hne rfl, if_neg (Nat.not_lt.mpr hlen),
        if_neg fun hne => hne rfl, hfirst]
      dsimp only
      rw [hsecond, hlog, logged, hes]
      rfl
    | _ => cases hevents

/-- What a member adds to a document, with its colon and its comma. -/
def cost (m : Json.Text × Json.Tree) : ℕ := (Json.quoted m.1).length + m.2.text.length + 2

theorem length_membersText {l : List (Json.Text × Json.Tree)} (hne : l ≠ []) :
    (Json.membersText l).length + 1 = (l.map cost).sum := by
  induction l with
  | nil => exact absurd rfl hne
  | cons m l ih =>
    obtain ⟨k, v⟩ := m
    rw [List.map_cons, List.sum_cons]
    cases l with
    | nil =>
      simp only [Json.membersText, cost, List.isEmpty_nil, if_true, List.append_nil,
        List.length_append, List.length_cons, List.map_nil, List.sum_nil]
      omega
    | cons m l =>
      rw [← ih (List.cons_ne_nil m l), Json.membersText, cost]
      simp only [List.length_append, List.length_cons, List.isEmpty_cons,
        Bool.false_eq_true, if_false]
      omega

theorem docText_eq (l : List (Json.Text × Json.Tree)) :
    Json.docText l = opening :: (Json.membersText l ++ [closing]) := by
  rw [Json.docText, Json.Tree.text]
  rfl

theorem length_docText {l : List (Json.Text × Json.Tree)} (hne : l ≠ []) :
    (Json.docText l).length = (l.map cost).sum + 1 := by
  rw [docText_eq, ← length_membersText hne]
  simp

theorem length_quoted_le {v : List Byte} {n : ℕ} (hv : ∀ c ∈ v, (Json.escape c).length ≤ n) :
    (Json.quoted v).length ≤ n * v.length + 2 := by
  have hesc : (v.flatMap Json.escape).length ≤ n * v.length := by
    rw [List.length_flatMap]
    refine (List.sum_le_card_nsmul _ n ?_).trans_eq ?_
    · intro l hl
      obtain ⟨c, hc, rfl⟩ := List.mem_map.mp hl
      exact hv c hc
    · rw [List.length_map, smul_eq_mul, Nat.mul_comm]
  rw [Json.quoted, List.length_cons, List.length_append]
  exact Nat.add_le_add_right (Nat.add_le_add_right hesc 1) 1

theorem length_strTree_le {v : List Byte} {n len : ℕ} (hv : ∀ c ∈ v, (Json.escape c).length ≤ n)
    (hlen : v.length ≤ len) : (strTree v).text.length ≤ n * len + 2 := by
  have hsub : v.takeWhile (· ≠ 0) <+: v := List.takeWhile_prefix _
  have hq := length_quoted_le fun c hc => hv c (hsub.subset hc)
  exact hq.trans (Nat.add_le_add_right (Nat.mul_le_mul_left n (hsub.length_le.trans hlen)) 2)

theorem escape_print {c : Byte} (h : isPrint c = true) : (Json.escape c).length ≤ 2 := by
  have hrange : 0x20 ≤ c.toNat := by
    rw [isPrint, Bool.and_eq_true, decide_eq_true_eq] at h
    exact h.1
  unfold Json.escape
  split_ifs with h₁ h₂ h₃ h₄ h₅ h₆
  · exact le_rfl
  · exact le_rfl
  · exact le_rfl
  · exact le_rfl
  · exact le_rfl
  · exact absurd hrange (Nat.not_le.mpr h₆)
  · exact Nat.le_succ 1

theorem escape_plain {c : Byte} (h : 0x23 ≤ c.toNat) (hslash : c ≠ 0x5C) :
    (Json.escape c).length ≤ 1 := by
  have hne : ∀ d : Byte, d.toNat < 0x23 → c ≠ d := by
    rintro d hd rfl
    exact absurd h (Nat.not_le.mpr hd)
  unfold Json.escape
  rw [if_neg (hne _ (by decide)), if_neg hslash, if_neg (hne _ (by decide)),
    if_neg (hne _ (by decide)), if_neg (hne _ (by decide)), if_neg (by omega)]
  exact le_rfl

theorem escape_id {c : Byte} (h : isId c = true) : (Json.escape c).length ≤ 1 := by
  simp only [isId, isDigit, Bool.or_eq_true, Bool.and_eq_true, decide_eq_true_eq,
    ← BitVec.toNat_inj, BitVec.reduceToNat] at h
  refine escape_plain (by omega) fun hc => ?_
  rw [hc] at h
  exact absurd h (by decide)

theorem escape_hex {c : Byte} (h : isHex c = true) : (Json.escape c).length ≤ 1 := by
  simp only [isHex, isDigit, Bool.or_eq_true, Bool.and_eq_true, decide_eq_true_eq] at h
  refine escape_plain (by omega) fun hc => ?_
  rw [hc] at h
  exact absurd h (by decide)

/-- The most that the member of a key adds to a record, with a message of `cut` bytes. -/
def maxCost (cut i : ℕ) : ℕ :=
  (Json.quoted (uxKeys.names.getD i [])).length +
    (if i ≤ 2 then 34 else if i ≤ 5 then 31 else 2 * cut + 2) + 2

theorem all_of_asText {min max : ℕ} {allowed : Byte → Bool} {v : List Byte}
    (h : (asText min max allowed (.str v)).isSome) :
    min ≤ v.length ∧ v.length ≤ max ∧ ∀ c ∈ v, allowed c = true := by
  obtain ⟨w, hw⟩ := Option.isSome_iff_exists.mp h
  obtain ⟨⟨hmin, hmax, hall⟩, -⟩ := Option.ite_none_right_eq_some.mp hw
  exact ⟨hmin, hmax, List.all_eq_true.mp hall⟩

theorem cString_key : ∀ i < 9, (cString (uxKeys.names.getD i [])).val = uxKeys.names.getD i [] := by
  decide

theorem cost_le {e : UxRead} (he : ReadOf ms e) (hi : i < 7) (hbit : e.seen.testBit i = true)
    (cut : ℕ) : cost (cString (uxKeys.names.getD i []), uxMember e.ev cut i) ≤ maxCost cut i := by
  have hok := he.ok i (hi.trans (by decide)) hbit
  unfold cost maxCost
  rw [cString_key i (hi.trans (by decide))]
  refine Nat.add_le_add_right (Nat.add_le_add_left ?_ _) 2
  unfold okEvent evTree at hok
  unfold uxMember
  split_ifs at hok ⊢ with h₂ h₅ h₆
  · obtain ⟨-, hlen, hall⟩ := all_of_asText hok
    exact length_strTree_le (fun c hc => escape_id (hall c hc)) hlen
  · exact Nat.le_of_lt_succ (Json.length_lld _)
  · obtain ⟨-, -, hall⟩ := all_of_asText hok
    exact length_strTree_le (fun c hc => escape_print (hall c (List.mem_of_mem_take hc)))
      (List.length_take_le cut _)
  · omega
  · omega

theorem cost_value {e : UxRead} (he : ReadOf ms e) (hbit : e.seen.testBit 8 = true) :
    cost (name "value", strTree e.ev.value) ≤ 75 := by
  obtain ⟨-, hlen, hall⟩ := all_of_asText (he.ok 8 (by decide) hbit)
  have htext := length_strTree_le (fun c hc => escape_print (hall c hc)) hlen
  have hkey : (Json.quoted (name "value").val).length = 7 := by decide
  have hmax : uxValueMax = 32 := rfl
  unfold cost
  dsimp only
  omega

theorem mem_of_asEnum {set : List (List Byte)} {v : List Byte}
    (h : (asEnum set (.str v)).isSome) : v ∈ set := by
  rw [asEnum_isSome, isEnum] at h
  exact List.contains_iff_mem.mp h

theorem cost_header {h : UxHdr} (ho : HeaderOf o h) :
    cost (name "sid", strTree h.sid) ≤ 41 ∧
      cost (name "ua_class", strTree (uxUa.getD h.ua [])) ≤ 21 ∧
      cost (name "standalone", .bool h.standalone) ≤ 19 ∧
      cost (name "origin", strTree (uxOrigin.getD h.origin [])) ≤ 18 := by
  refine ⟨?_, ?_, ?_, ?_⟩
  · obtain ⟨-, hlen, hall⟩ := all_of_asText (ho.ok 0 (by decide))
    have htext := length_strTree_le (fun c hc => escape_hex (hall c hc)) hlen
    have hkey : (Json.quoted (name "sid").val).length = 5 := by decide
    unfold cost
    dsimp only
    omega
  · have hall : ∀ n ∈ uxUa, cost (name "ua_class", strTree n) ≤ 21 := by decide
    exact hall _ (mem_of_asEnum (ho.ok 1 (by decide)))
  · cases h.standalone <;> decide
  · have hall : ∀ n ∈ uxOrigin, cost (name "origin", strTree n) ≤ 18 := by decide
    exact hall _ (mem_of_asEnum (ho.ok 3 (by decide)))

theorem keys_of_shape {seen type : ℕ} (htype : type < 4) (h : uxShape seen type) :
    (List.range 7).filter seen.testBit = [[0], [1, 2], [3, 4, 5], [6]].getD type [] := by
  have hsmall : ∀ type < 4, 128 ||| uxNeeds.getD type 0 < 2 ^ 8 := by decide
  have htable : ∀ type < 4, (List.range 7).filter (128 ||| uxNeeds.getD type 0).testBit =
      [[0], [1, 2], [3, 4, 5], [6]].getD type [] := by decide
  rw [← htable type htype]
  refine List.filter_congr fun i hi => ?_
  exact (low_byte_iff (hsmall type htype)).mp h.2 i ((List.mem_range.mp hi).trans (by decide))

theorem cost_keys {e : UxRead} (he : ReadOf ms e) (cut : ℕ) :
    ((((List.range 7).filter e.seen.testBit).map
        fun k => (cString (uxKeys.names.getD k []), uxMember e.ev cut k)).map cost).sum ≤
      [44, 85, 117, 2 * cut + 9].getD e.type 0 := by
  have hle : ((((List.range 7).filter e.seen.testBit).map
        fun k => (cString (uxKeys.names.getD k []), uxMember e.ev cut k)).map cost).sum ≤
      (((List.range 7).filter e.seen.testBit).map (maxCost cut)).sum := by
    rw [List.map_map]
    refine List.sum_le_sum fun i hi => ?_
    obtain ⟨hi, hbit⟩ := List.mem_filter.mp hi
    exact cost_le he (List.mem_range.mp hi) hbit cut
  refine hle.trans ?_
  rw [keys_of_shape he.type_lt he.shape]
  have hkeys : ∀ i < 7, (Json.quoted (uxKeys.names.getD i [])).length =
      [8, 4, 9, 6, 5, 7, 5].getD i 0 := by decide
  have htype := he.type_lt
  have hmax : ∀ i < 7, maxCost cut i = [8, 4, 9, 6, 5, 7, 5].getD i 0 +
      (if i ≤ 2 then 34 else if i ≤ 5 then 31 else 2 * cut + 2) + 2 := by
    intro i hi
    rw [maxCost, hkeys i hi]
  generalize e.type = type at htype
  interval_cases type
  · simp [hmax]
  · simp [hmax]
  · simp [hmax]
  · simp [hmax]
    omega

theorem cost_ev : cost (name "ev", strTree (chars "ux")) = 10 := by decide

/-- A record without a message fits, and one with a message has this length at most. -/
theorem length_record {e : UxRead} {h : UxHdr} (he : ReadOf ms e) (ho : HeaderOf o h) (cut : ℕ) :
    (e.type = 3 →
        (Json.docText (uxMembers h e.seen e.type e.ev cut)).length ≤ 2 * cut + 134) ∧
      (e.type ≠ 3 → (Json.docText (uxMembers h e.seen e.type e.ev cut)).length ≤ 287) := by
  have hev := cost_ev
  have htypes : ∀ type < 4, cost (name "type", strTree (uxTypes.getD type [])) =
      [14, 17, 16, 15].getD type 0 := by decide
  have htype := htypes e.type he.type_lt
  obtain ⟨hsid, hua, hstandalone, horigin⟩ := cost_header ho
  have hkeys := cost_keys he cut
  have hvalue : ((if e.seen.testBit 8 then [(name "value", strTree e.ev.value)] else []).map
      cost).sum ≤ 75 ∧ (e.type ≠ 1 → ((if e.seen.testBit 8 then
        [(name "value", strTree e.ev.value)] else []).map cost).sum = 0) := by
    split_ifs with hbit
    · exact ⟨by simpa using cost_value he hbit, fun hne => absurd ⟨hbit, hne⟩ he.shape.1⟩
    · exact ⟨Nat.zero_le _, fun _ => rfl⟩
  have hne : uxMembers h e.seen e.type e.ev cut ≠ [] := List.cons_ne_nil _ _
  rw [length_docText hne, uxMembers, List.map_append, List.map_append, List.sum_append,
    List.sum_append]
  generalize ((if e.seen.testBit 8 then [(name "value", strTree e.ev.value)] else []).map
    cost).sum = value at hvalue ⊢
  simp only [List.map_cons, List.map_nil, List.sum_cons, List.sum_nil]
  have hlt := he.type_lt
  generalize e.type = type at hlt hvalue hkeys htype ⊢
  interval_cases type
  all_goals
    simp only [List.getD_cons_zero, List.getD_cons_succ] at hkeys htype
    omega

theorem uxMembers_ne (h : UxHdr) (seen type : ℕ) (e : UxEv) (cut : ℕ) :
    uxMembers h seen type e cut ≠ [] := List.cons_ne_nil _ _

theorem uxRecord_eq (h : UxHdr) (seen type : ℕ) (e : UxEv) (cut : ℕ) :
    uxRecord h seen type e cut =
      if (Json.docText (uxMembers h seen type e cut)).length ≤ sdlogDataMax then
        some (Json.membersText (uxMembers h seen type e cut))
      else if cut = 0 then none else uxRecord h seen type e (if cut > 8 then cut - 8 else 0) := by
  have hmax : sdlogDataMax = 288 := rfl
  have hlen : (Json.docText (uxMembers h seen type e cut)).length =
      (Json.membersText (uxMembers h seen type e cut)).length + 2 := by
    rw [docText_eq, List.length_cons, List.length_append, List.length_singleton]
  have hpos : 0 < (Json.membersText (uxMembers h seen type e cut)).length := by
    have hsum := length_membersText (uxMembers_ne h seen type e cut)
    have hcost : 10 ≤ ((uxMembers h seen type e cut).map cost).sum := by
      rw [uxMembers, List.cons_append, List.cons_append, List.map_cons, List.sum_cons, cost_ev]
      exact Nat.le_add_right 10 _
    omega
  obtain ⟨-, hfits, hover⟩ := Json.document_spec (fun _ => 0) (sdlogDataMax + 1)
    (uxMembers h seen type e cut)
  rw [uxRecord]
  by_cases hle : (Json.docText (uxMembers h seen type e cut)).length ≤ sdlogDataMax
  · obtain ⟨htext, hret⟩ := hfits (Nat.lt_succ_of_le hle)
    have hint : Json.toInt32 (Json.docText (uxMembers h seen type e cut)).length =
        (Json.docText (uxMembers h seen type e cut)).length := by
      unfold Json.toInt32
      rw [Int.bmod_def]
      split_ifs <;> omega
    rw [hint] at hret
    have hfit : fitsLog (Json.docText (uxMembers h seen type e cut)).length := by
      unfold fitsLog
      omega
    have hbig : (2 : ℤ) < (Json.docText (uxMembers h seen type e cut)).length := by omega
    have htail : ((Json.docText (uxMembers h seen type e cut)).take
        ((Json.docText (uxMembers h seen type e cut)).length - 1)).tail =
        Json.membersText (uxMembers h seen type e cut) := by
      rw [hlen, docText_eq]
      exact List.take_left
    rw [hret, htext, if_pos hle, if_pos (.inl ⟨by omega, hfit⟩), if_pos ⟨hbig, hfit⟩,
      Int.toNat_natCast, htail]
  · have hret := hover (by omega)
    have hneg : ¬ (0 < (-1 : ℤ) ∧ fitsLog (-1)) := by decide
    have hneg' : ¬ (2 < (-1 : ℤ) ∧ fitsLog (-1)) := by decide
    rw [hret, if_neg hle]
    simp only [hneg, hneg', false_or, if_false]

/-- The record of an event is written whole, with its message or at least 70 bytes of it. -/
theorem uxRecord_kept {e : UxRead} {h : UxHdr} (he : ReadOf ms e) (ho : HeaderOf o h) (cut : ℕ) :
    ∃ c ≤ cut, (c = cut ∨ 70 ≤ c) ∧
      uxRecord h e.seen e.type e.ev cut =
      some (Json.membersText (uxMembers h e.seen e.type e.ev c)) ∧
      (Json.docText (uxMembers h e.seen e.type e.ev c)).length ≤ sdlogDataMax := by
  induction cut using Nat.strong_induction_on with
  | h cut ih =>
    have hmax : sdlogDataMax = 288 := rfl
    obtain ⟨hmsg, hno⟩ := length_record he ho cut
    rw [uxRecord_eq]
    by_cases hle : (Json.docText (uxMembers h e.seen e.type e.ev cut)).length ≤ sdlogDataMax
    · exact ⟨cut, le_rfl, .inl rfl, if_pos hle, hle⟩
    · have htype : e.type = 3 := by
        by_contra hne
        have := hno hne
        omega
      have hbig : 78 ≤ cut := by
        have := hmsg htype
        omega
      rw [if_neg hle, if_neg (by omega), if_pos (by omega)]
      obtain ⟨c, hc, hkept, hrec, hfit⟩ := ih (cut - 8) (by omega)
      exact ⟨c, by omega, .inr (by omega), hrec, hfit⟩

/-- The value of a scalar. -/
def scalarValue : Tree → Value
  | .bool b => .bool b
  | .int n => .num n 0
  | .str s => .str s
  | _ => .null

def cutText (cut : ℕ) : Tree → Tree
  | .str s => .str (s.take cut)
  | t => t

def headerKeys : List (List Byte) :=
  [chars "sid", chars "ua_class", chars "standalone", chars "origin"]

def eventKeys : List (List Byte) :=
  [chars "type", chars "screen", chars "fn", chars "control", chars "ttfb", chars "dcl",
    chars "tiles", chars "msg", chars "value"]

/-- The member of a key of an event, with the message cut. -/
def entry (cut : ℕ) (e : List (List Byte × Tree)) (k : List Byte) : Option (List Byte × Value) :=
  (get e k).map fun t => (k, scalarValue (if k = chars "msg" then cutText cut t else t))

/-- A record of the event `e` of the batch `o`, with the message cut: the values of the batch and of
the event, each under its own name. -/
def recordOf (o e : List (List Byte × Tree)) (cut : ℕ) : Value :=
  .obj ((chars "ev", .str (chars "ux")) ::
    headerKeys.filterMap (fun k => (get o k).map fun t => (k, scalarValue t)) ++
    eventKeys.filterMap (entry cut e))

theorem memberValues_eq (l : List (Json.Text × Json.Tree)) :
    Json.memberValues l = l.map fun m => (m.1.val, m.2.value) := by
  induction l with
  | nil => rfl
  | cons m l ih =>
    rw [Json.memberValues, List.map_cons, ih]

theorem filterMap_ite {α β : Type} (p : α → Bool) (f : α → β) (l : List α) :
    l.filterMap (fun a => if p a then some (f a) else none) = (l.filter p).map f := by
  induction l with
  | nil => rfl
  | cons a l ih =>
    rw [List.filterMap_cons, ih]
    by_cases hp : p a = true
    · rw [if_pos hp, List.filter_cons_of_pos hp, List.map_cons]
    · rw [if_neg hp, List.filter_cons_of_neg hp]

theorem strTree_value {v : List Byte} (hv : ∀ c ∈ v, c ≠ 0) : (strTree v).value = .str v := by
  have hwhole : v.takeWhile (· ≠ 0) = v :=
    List.takeWhile_eq_self_iff.mpr fun c hc => decide_eq_true (hv c hc)
  exact congrArg Value.str hwhole

theorem id_ne_zero (c : Byte) (h : isId c = true) : c ≠ 0 := by
  rintro rfl
  exact absurd h (by decide)

theorem hex_ne_zero (c : Byte) (h : isHex c = true) : c ≠ 0 := by
  rintro rfl
  exact absurd h (by decide)

theorem print_ne_zero (c : Byte) (h : isPrint c = true) : c ≠ 0 := by
  rintro rfl
  exact absurd h (by decide)

theorem names_ne_zero : ∀ v ∈ uxUa ++ uxOrigin ++ uxTypes, ∀ c ∈ v, c ≠ 0 := by
  have hall : 0 ∉ (uxUa ++ uxOrigin ++ uxTypes).flatten := by decide
  rintro v hv c hc rfl
  exact hall (List.mem_flatten_of_mem hv hc)

theorem header_value {h : UxHdr} (ho : HeaderOf o h) :
    [(chars "sid", (strTree h.sid).value), (chars "ua_class", (strTree (uxUa.getD h.ua [])).value),
      (chars "standalone", .bool h.standalone),
      (chars "origin", (strTree (uxOrigin.getD h.origin [])).value)] =
    headerKeys.filterMap fun k => (get o k).map fun t => (k, scalarValue t) := by
  have hsid := (all_of_asText (ho.ok 0 (by decide))).2.2
  have hua := mem_of_asEnum (ho.ok 1 (by decide))
  have horigin := mem_of_asEnum (ho.ok 3 (by decide))
  have h₀ : get o (chars "sid") = _ := ho.get_key 0 (by decide)
  have h₁ : get o (chars "ua_class") = _ := ho.get_key 1 (by decide)
  have h₂ : get o (chars "standalone") = _ := ho.get_key 2 (by decide)
  have h₃ : get o (chars "origin") = _ := ho.get_key 3 (by decide)
  rw [strTree_value fun c hc => hex_ne_zero c (hsid c hc),
    strTree_value (names_ne_zero _ (List.mem_append_left _ (List.mem_append_left _ hua))),
    strTree_value (names_ne_zero _ (List.mem_append_left _ (List.mem_append_right _ horigin)))]
  simp only [headerKeys, List.filterMap_cons, List.filterMap_nil, h₀, h₁, h₂, h₃, Option.map_some]
  rfl

theorem member_value {e : UxRead} (he : ReadOf ms e) (hi : i < 7) (hbit : e.seen.testBit i = true)
    (cut : ℕ) : (uxMember e.ev cut i).value = scalarValue
      (if uxKeys.names.getD i [] = chars "msg" then cutText cut (evTree e.ev i)
        else evTree e.ev i) := by
  have hmsg : ∀ i < 7, uxKeys.names.getD i [] = chars "msg" ↔ i = 6 := by decide
  have hok := he.ok i (hi.trans (by decide)) hbit
  rw [if_congr (hmsg i hi) rfl rfl]
  unfold okEvent evTree at hok
  unfold uxMember evTree
  split_ifs at hok ⊢ with h₂ h₆ h₅ h₆' h₇
  · omega
  · have hall := (all_of_asText hok).2.2
    rw [strTree_value fun c hc => id_ne_zero c (hall c hc)]
    rfl
  · omega
  · obtain ⟨v, hv⟩ := Option.isSome_iff_exists.mp hok
    have hle := (Option.ite_none_right_eq_some.mp hv).1.2
    have hmax : (uxIntMax : ℤ) = 600000 := rfl
    have hint : (BitVec.ofInt 64 (e.ev.num (i - 3) : ℤ)).toInt = e.ev.num (i - 3) := by
      rw [BitVec.toInt_ofInt, Int.bmod_def]
      split_ifs <;> omega
    exact congrArg (Value.num · 0) hint
  · have hall := (all_of_asText hok).2.2
    rw [strTree_value fun c hc => print_ne_zero c (hall c (List.mem_of_mem_take hc))]
    rfl
  all_goals omega

theorem record_value {e : UxRead} {h : UxHdr} (he : ReadOf ms e) (ho : HeaderOf o h) (cut : ℕ) :
    Value.obj (Json.memberValues (uxMembers h e.seen e.type e.ev cut)) = recordOf o ms cut := by
  have hkeys : eventKeys =
      chars "type" :: ((List.range 7).map (uxKeys.names.getD · []) ++ [chars "value"]) := by
    decide
  have htype : entry cut ms (chars "type") =
      some (chars "type", (strTree (uxTypes.getD e.type [])).value) := by
    have hget : get ms (chars "type") = _ := he.get_key 7 (by decide)
    have hmem : uxTypes.getD e.type [] ∈ uxTypes := by
      rw [List.getD_eq_getElem?_getD, List.getElem?_eq_getElem he.type_lt, Option.getD_some]
      exact List.getElem_mem _
    rw [if_pos (type_bit he.shape), evTree, he.type] at hget
    rw [entry, hget, strTree_value (names_ne_zero _ (List.mem_append_right _ hmem))]
    rfl
  have hmembers : (List.range 7).filterMap (fun i => entry cut ms (uxKeys.names.getD i [])) =
      ((List.range 7).filter e.seen.testBit).map fun i =>
        ((cString (uxKeys.names.getD i [])).val, (uxMember e.ev cut i).value) := by
    rw [← filterMap_ite]
    refine List.filterMap_congr fun i hi => ?_
    have hlt := List.mem_range.mp hi
    rw [entry, he.get_key i (hlt.trans (by decide)), cString_key i (hlt.trans (by decide))]
    by_cases hbit : e.seen.testBit i = true
    · rw [if_pos hbit, if_pos hbit, member_value he hlt hbit cut]
      rfl
    · rw [if_neg hbit, if_neg hbit]
      rfl
  have hlast : [chars "value"].filterMap (entry cut ms) =
      (if e.seen.testBit 8 then [(name "value", strTree e.ev.value)] else []).map
        fun m => (m.1.val, m.2.value) := by
    have hget : get ms (chars "value") = _ := he.get_key 8 (by decide)
    by_cases hbit : e.seen.testBit 8 = true
    · have hall := (all_of_asText (he.ok 8 (by decide) hbit)).2.2
      rw [if_pos hbit] at hget
      rw [if_pos hbit, List.map_singleton,
        strTree_value fun c hc => print_ne_zero c (hall c hc), List.filterMap_cons, entry, hget]
      rfl
    · rw [if_neg hbit] at hget
      rw [if_neg hbit, List.filterMap_cons, entry, hget]
      rfl
  rw [recordOf, ← header_value ho, hkeys, List.filterMap_cons, htype]
  dsimp only
  rw [List.filterMap_append, List.filterMap_map, hlast, memberValues_eq, uxMembers, List.map_append,
    List.map_append, List.map_map]
  exact congrArg Value.obj (congrArg (_ ++ · ++ _) hmembers.symm)

/-- The text `r` is a record of the event `ev`: it fits the log, it is read back, and it has the
whole message or at least 70 bytes of it. -/
def IsRecord (o : List (List Byte × Tree)) (ev : Tree) (r : List Byte) : Prop :=
  ∃ e cut, ev = .obj e ∧ r.length < sdlogDataMax ∧
    parse (opening :: (r ++ [closing])) = some (recordOf o e cut) ∧
    ∀ m, get e (chars "msg") = some (.str m) → cut = m.length ∨ 70 ≤ cut ∧ cut < m.length

theorem records_event {h : UxHdr} {ev : Tree} (ho : HeaderOf o h)
    (hr : ∃ s r, Reads s (.value ev) r)
    (he : eventOf ev = some e) : ∃ r, records h true e = [r] ∧ IsRecord o ev r := by
  obtain ⟨s, r, hr⟩ := hr
  cases ev with
  | obj ms =>
    have hread := readOf hr.nodup he
    obtain ⟨c, hc, hkept, hrec, hfit⟩ := uxRecord_kept hread ho e.ev.msg.length
    refine ⟨Json.membersText (uxMembers h e.seen e.type e.ev c), ?_, ms, c, rfl, ?_, ?_, ?_⟩
    · rw [records, if_pos rfl, hrec]
      rfl
    · rw [docText_eq, List.length_cons, List.length_append] at hfit
      exact Nat.lt_of_succ_lt (Nat.lt_of_succ_le hfit)
    · rw [← docText_eq, Json.parse_docText, record_value hread ho]
    · intro m hm
      have hget : get ms (chars "msg") = _ := hread.get_key 6 (by decide)
      rw [hm] at hget
      split_ifs at hget
      obtain rfl : m = e.ev.msg := Tree.str.inj (Option.some.inj hget)
      omega
  | _ => simp [eventOf] at he

/-- A batch is recorded whole, one record for each event, in order. -/
theorem apiUx_records {body : List Byte} (hbody : ReadsAll body (.obj o))
    (hb : uxBatch (.obj o) = true) (hlen : body.length ≤ uxBodyMax) :
    ∃ evs log, get o (chars "events") = some (.arr evs) ∧
      apiUx .station true body = (204, log) ∧ List.Forall₂ (IsRecord o) evs log := by
  obtain ⟨h, evs, es, ho, hget, hes, hlog⟩ := apiUx_log hbody hb hlen
  refine ⟨evs, _, hget, hlog, ?_⟩
  obtain ⟨r, hr, -⟩ := hbody
  obtain ⟨s', r', hevs⟩ := of_obj hr ((get_eq_some hr.nodup).mp hget)
  have hread : ∀ t ∈ evs, ∃ s r, Reads s (.value t) r := by
    intro t ht
    cases hevs with
    | noItems => exact absurd ht List.not_mem_nil
    | arr hopen hi => exact hi.of_items ht
  clear hget hlog hevs
  induction evs generalizing es with
  | nil =>
    obtain rfl := Option.some.inj hes
    exact .nil
  | cons t ts ih =>
    obtain ⟨e, he, hes⟩ := Option.bind_eq_some_iff.mp hes
    obtain ⟨es, hrest, rfl⟩ := Option.map_eq_some_iff.mp hes
    obtain ⟨hhead, htail⟩ := List.forall_mem_cons.mp hread
    obtain ⟨rec, hrec, his⟩ := records_event ho hhead he
    rw [List.flatMap_cons, hrec]
    exact .cons his (ih es hrest htail)

/-- A beacon of a view and an error, whose message of 200 quotes takes 400 bytes of a record. -/
def longError : List Byte :=
  chars "\x7b\"sid\":\"00c0ffee\",\"ua_class\":\"ios\",\"standalone\":true,\"origin\":\"lan\"," ++
    chars "\"events\":[\x7b\"type\":\"view\",\"screen\":\"home\"\x7d," ++
    chars "\x7b\"type\":\"error\",\"msg\":\"" ++ (List.replicate 200 [0x5C, 0x22]).flatten ++
    chars "\"\x7d]\x7d"

theorem apiUx_records_longError : ∃ o, ReadsAll longError (.obj o) ∧
    ∃ evs log, get o (chars "events") = some (.arr evs) ∧
      apiUx .station true longError = (204, log) ∧ log.map List.length = [106, 276] ∧
      List.Forall₂ (IsRecord o) evs log := by
  have hparse : (uxParse false longError ({}, [])).isSome := by decide +kernel
  have hlens : (apiUx .station true longError).2.map List.length = [106, 276] := by
    decide +kernel
  obtain ⟨t, hread, hbatch⟩ := uxParse_isSome.mp (Option.isSome_iff_exists.mp hparse)
  obtain ⟨o, rfl⟩ := uxBatch_obj hbatch
  obtain ⟨evs, log, hget, hlog, hrecords⟩ := apiUx_records hread hbatch (by decide +kernel)
  rw [hlog] at hlens
  exact ⟨o, hread, evs, log, hget, hlog, hlens, hrecords⟩

end OpenCalifornia.Web
