import OpenCalifornia.Web.Beacon
import OpenCalifornia.Web.Trees

/-! # The beacon by its values

What `ux_parse` makes of a body is a function of the value that the body holds. -/

namespace OpenCalifornia.Web
open Lib.Bits Lib.Json Lib.Flat Lib.Nested
open Lib.Buffer (chars)

variable {s u r ds : List Byte} {t : Tree} {sc : Scalar} {max : ℕ} {allowed : Byte → Bool}

/-- A string of allowed bytes. -/
def asText (min max : ℕ) (allowed : Byte → Bool) : Tree → Option (List Byte)
  | .str t => if min ≤ t.length ∧ t.length ≤ max ∧ t.all allowed then some t else none
  | _ => none

def asEnum (set : List (List Byte)) : Tree → Option ℕ
  | .str t => indexOf t set
  | _ => none

def asBool : Tree → Option Bool
  | .bool b => some b
  | _ => none

def asUxInt : Tree → Option ℕ
  | .int n => if 0 ≤ n ∧ n ≤ uxIntMax then some n.toNat else none
  | _ => none

theorem parses_cut {cap : ℕ} {α : Type} {parse : List Byte → Option (α × List Byte)}
    {g : Cut → Option α} {reads : Tree → Option α}
    (hparse : ∀ s, parse s = (parseStr cap s).bind fun r => (g r.1).map fun v => (v, r.2))
    (hstr : ∀ t, reads (.str t) = g ⟨t.take (cap - 1), t.length⟩)
    (hother : ∀ t, t.tag ≠ 3 → reads t = none) : Parses parse reads := by
  have hscans := (scans_cut cap).bind g
  rw [← funext hparse] at hscans
  refine hscans.parses ?_ ?_ ?_
  · intro u sc r v _ h
    cases sc with
    | str t => trivial
    | _ => simp [readsCut] at h
  · intro sc _
    cases sc with
    | str t => exact hstr t
    | null => exact hother _ (by decide)
    | bool b => exact hother _ (Nat.ne_of_beq_eq_false rfl)
    | int neg ds => exact hother _ (Nat.ne_of_beq_eq_false rfl)
    | real neg ds => exact hother _ (Nat.ne_of_beq_eq_false rfl)
  · intro t v h
    by_contra hne
    rw [hother t (by omega)] at h
    cases h

theorem parses_text : Parses (parseUxText max allowed) (asText 1 max allowed) := by
  refine @parses_cut (max + 1) _ _ (fun k => if uxChars k max allowed then some k.buf else none) _
    ?_ ?_ ?_
  · intro s
    refine congrArg ((parseStr _ s).bind ·) (funext fun r => ?_)
    split_ifs <;> rfl
  · intro t
    by_cases hlen : t.length ≤ max
    · simp only [asText, uxChars, Nat.add_sub_cancel, List.take_of_length_le hlen]
    · rw [asText, if_neg fun h => hlen h.2.1, if_neg fun h => hlen h.2.1]
  · intro t ht
    cases t with
    | str => exact absurd rfl ht
    | _ => rfl

theorem parses_enum {set : List (List Byte)} (hset : ∀ n ∈ set, n.length < 16) :
    Parses (parseEnum set) (asEnum set) := by
  refine @parses_cut 16 _ _ (fun k => if k.len ≥ 16 then none else indexOf k.buf set) _ ?_ ?_ ?_
  · intro s
    refine congrArg ((parseStr _ s).bind ·) (funext fun r => ?_)
    split_ifs <;> rfl
  · intro t
    dsimp only [asEnum]
    split_ifs with hlen
    · refine List.findIdx?_eq_none_iff.mpr fun n hn => decide_eq_false ?_
      rintro rfl
      exact absurd (hset _ hn) (Nat.not_lt.mpr hlen)
    · rw [List.take_of_length_le (Nat.le_sub_one_of_lt (Nat.lt_of_not_le hlen))]
  · intro t ht
    cases t with
    | str => exact absurd rfl ht
    | _ => rfl

theorem parses_bool : Parses parseBool asBool := by
  refine scans_bool.parses ?_ ?_ ?_
  · intro u sc r v _ h
    cases sc with
    | bool => trivial
    | _ => simp [readsBool] at h
  · intro sc _
    cases sc <;> rfl
  · intro t v h
    cases t with
    | bool => exact (by decide : 1 < 4)
    | _ => simp [asBool] at h

def readsUxInt : Scalar → Option ℕ
  | .int false ds => if padded ds ∨ uxIntMax < ofDigits ds then none else some (ofDigits ds)
  | _ => none

theorem foldlM_uxIntStep (ds : List Byte) :
    ds.foldlM uxIntStep 0 = if uxIntMax < ofDigits ds then none else some (ofDigits ds) := by
  induction ds using List.reverseRecOn with
  | nil => rfl
  | append_singleton ds c ih =>
    rw [List.foldlM_append, ih, ofDigits_concat]
    by_cases h : uxIntMax < ofDigits ds
    · rw [if_pos h, if_pos (by omega)]
      rfl
    · rw [if_neg h]
      simp [uxIntStep]

theorem scans_uxInt : Scans parseUxInt readsUxInt := by
  refine .of (fun s => by unfold parseUxInt; rw [skipWs_skipWs]) ?_ ?_
  · intro u v r hu h
    unfold parseUxInt at h
    rw [hu] at h
    dsimp only at h
    obtain ⟨hgood, h⟩ := Option.ite_none_left_eq_some.mp h
    obtain ⟨w, hw, h⟩ := Option.bind_eq_some_iff.mp h
    rw [foldlM_uxIntStep] at hw
    obtain ⟨hbig, hw⟩ := Option.ite_none_left_eq_some.mp hw
    obtain ⟨-, h⟩ := Option.ite_none_left_eq_some.mp h
    obtain ⟨rfl, rfl⟩ := Prod.mk.inj (Option.some.inj h)
    obtain ⟨hne, hpad⟩ := not_or.mp hgood
    have htok := @Token.int false _ (u.dropWhile isDigit) (digits_takeWhile hne)
    have heq := u.takeWhile_append_dropWhile (p := isDigit)
    refine ⟨_, heq ▸ htok, ?_⟩
    rw [readsUxInt, if_neg (not_or.mpr ⟨hpad, hbig⟩), hw]
  · intro u sc v r hu h he hr
    cases h with
    | @int neg ds _ hds =>
      cases neg with
      | true => simp [readsUxInt] at hr
      | false =>
        obtain ⟨hgood, h⟩ := Option.ite_none_left_eq_some.mp hr
        obtain rfl := Option.some.inj h
        obtain ⟨hpad, hbig⟩ := not_or.mp hgood
        obtain ⟨htake, hdrop⟩ := takeWhile_digits hds (ends_noDigit he)
        have hstop : ¬ r.head?.any isReal = true := by
          obtain ⟨c, r', rfl, hc⟩ := he
          have hall : ∀ c, isWs c = true ∨ c = comma ∨ c = closing → isReal c = false := by decide
          rw [List.head?_cons, Option.any_some, hall c hc]
          exact Bool.false_ne_true
        unfold parseUxInt
        rw [hu]
        dsimp only [sign]
        simp only [Bool.false_eq_true, if_false, List.nil_append]
        rw [htake, hdrop, if_neg (not_or.mpr ⟨hds.1, hpad⟩), foldlM_uxIntStep, if_neg hbig,
          Option.bind_some, if_neg hstop]
    | _ => simp [readsUxInt] at hr

theorem ofDigits_pos (h : Digits ds) (hz : ds.head? ≠ some 0x30) : 0 < ofDigits ds := by
  have hgrow : ∀ (ds : List Byte) (v : ℕ), v ≤
      ds.foldl (fun v c => v * 10 + (c.toNat - 0x30)) v := by
    intro ds
    induction ds with
    | nil => exact fun v => le_rfl
    | cons c ds ih => exact fun v => (by omega : v ≤ v * 10 + (c.toNat - 0x30)).trans (ih _)
  have hdigit : ∀ c : Byte, isDigit c = true → c ≠ 0x30 → 0 < 0 * 10 + (c.toNat - 0x30) := by decide
  obtain ⟨c, u, rfl, hc⟩ := digits_head h
  have hne : c ≠ 0x30 := fun heq => hz (congrArg some heq)
  exact (hdigit c hc hne).trans_le (hgrow u _)

theorem parses_uxInt : Parses parseUxInt asUxInt := by
  refine scans_uxInt.parses ?_ ?_ ?_
  · intro u sc r v htok h
    cases htok with
    | @int neg ds _ hds =>
      cases neg with
      | true => simp [readsUxInt] at h
      | false =>
        obtain ⟨hgood, -⟩ := Option.ite_none_left_eq_some.mp h
        exact ⟨numeral_of hds (not_or.mp hgood).1, fun hneg => Bool.noConfusion hneg⟩
    | _ => simp [readsUxInt] at h
  · intro sc hsc
    cases sc with
    | int neg ds =>
      have hpad := not_padded hsc.1
      cases neg with
      | true =>
        have hpos := ofDigits_pos hsc.1.1 (hsc.2 rfl)
        refine if_neg fun h => ?_
        have hneg : intOf true ds = -(ofDigits ds : ℤ) := rfl
        omega
      | false =>
        have hval : intOf false ds = (ofDigits ds : ℤ) := rfl
        simp only [treeOf, asUxInt, readsUxInt, hval, hpad, false_or, Int.toNat_natCast,
          Int.natCast_nonneg, true_and, Nat.cast_le]
        split_ifs with h h' h'
        · exact absurd h' (Nat.not_lt.mpr h)
        · rfl
        · rfl
        · exact absurd (Nat.le_of_not_lt h') h
    | _ => rfl
  · intro t v h
    cases t with
    | int => exact (by decide : 2 < 4)
    | _ => simp [asUxInt] at h

def eventTake (k : ℕ) (t : Tree) (e : UxEv) : Option UxEv :=
  if k ≤ 2 then (asText 1 32 isId t).map fun v => { e with id := Function.update e.id k v }
  else if k ≤ 5 then (asUxInt t).map fun v => { e with num := Function.update e.num (k - 3) v }
  else if k = 6 then (asText 1 uxMsgMax isPrint t).map fun v => { e with msg := v }
  else if k = 7 then (asEnum uxTypes t).map fun v => { e with type := some v }
  else (asText 1 uxValueMax isPrint t).map fun v => { e with value := v }

/-- The keys seen of an event, its type, and its values. -/
structure UxRead where
  seen : ℕ
  type : ℕ
  ev : UxEv

def eventOf : Tree → Option UxRead
  | .obj ms => (takeMembers uxKeys.names eventTake ms 0 {}).bind fun r =>
    r.2.type.bind fun type => if uxShape r.1 type then some ⟨r.1, type, r.2⟩ else none
  | _ => none

/-- The events of an array, in order. -/
def itemsOf : List Tree → Option (List UxRead)
  | [] => some []
  | t :: ts => (eventOf t).bind fun e => (itemsOf ts).map fun es => e :: es

def eventsOf : Tree → Option (List UxRead)
  | .arr ts => if 1 ≤ ts.length ∧ ts.length ≤ uxEventsMax then itemsOf ts else none
  | _ => none

/-- What an event adds to the log. -/
def records (h : UxHdr) (emit : Bool) (e : UxRead) : List (List Byte) :=
  if emit then (uxRecord h e.seen e.type e.ev e.ev.msg.length).toList else []

def bodyTake (emit : Bool) (k : ℕ) (t : Tree) (x : UxPass) : Option UxPass :=
  if k = 0 then (asText 8 32 isHex t).map fun v => ({ x.1 with sid := v }, x.2)
  else if k = 1 then (asEnum uxUa t).map fun v => ({ x.1 with ua := v }, x.2)
  else if k = 2 then (asBool t).map fun v => ({ x.1 with standalone := v }, x.2)
  else if k = 3 then (asEnum uxOrigin t).map fun v => ({ x.1 with origin := v }, x.2)
  else (eventsOf t).map fun es => (x.1, x.2 ++ es.flatMap (records x.1 emit))

variable {h : UxHdr} {emit : Bool} {log log' : List (List Byte)} {n : ℕ} {x y : UxPass}

theorem parses_event (k : ℕ) (e : UxEv) :
    Parses (uxEventField k e) fun t => eventTake k t e := by
  unfold uxEventField eventTake
  split_ifs
  · exact parses_text.map fun v => { e with id := Function.update e.id k v }
  · exact parses_uxInt.map fun v => { e with num := Function.update e.num (k - 3) v }
  · exact parses_text.map fun v => { e with msg := v }
  · have henum : Parses (parseEnum uxTypes) (asEnum uxTypes) := parses_enum (by decide)
    exact henum.map fun v => { e with type := some v }
  · exact parses_text.map fun v => { e with value := v }

theorem uxEvent_iff : uxEvent h emit log s = some (log', r) ↔
    ∃ t e, Reads s (.value t) r ∧ eventOf t = some e ∧ log' = log ++ records h emit e := by
  have hlog : ∀ {seen type ev}, (if emit then
      log ++ (uxRecord h seen type ev ev.msg.length).toList else log) =
      log ++ records h emit ⟨seen, type, ev⟩ := by
    intro seen type ev
    unfold records
    split_ifs
    · rfl
    · rw [List.append_nil]
  unfold uxEvent
  constructor
  · intro hp
    obtain ⟨⟨seen, ev, r'⟩, hobj, hp⟩ := Option.bind_eq_some_iff.mp hp
    obtain ⟨type, htype, hp⟩ := Option.bind_eq_some_iff.mp hp
    obtain ⟨hshape, hp⟩ := Option.ite_none_right_eq_some.mp hp
    obtain ⟨rfl, rfl⟩ := Prod.mk.inj (Option.some.inj hp)
    obtain ⟨ms, hms, htake⟩ := (parseObj_trees uxKeys.nodup uxKeys.short parses_event).mp hobj
    refine ⟨.obj ms, ⟨seen, type, ev⟩, hms, ?_, hlog⟩
    dsimp only at htype hshape
    rw [eventOf, htake, Option.bind_some, htype, Option.bind_some, if_pos hshape]
  · rintro ⟨t, e, ht, he, rfl⟩
    cases t with
    | obj ms =>
      obtain ⟨⟨seen, ev⟩, htake, he⟩ := Option.bind_eq_some_iff.mp he
      obtain ⟨type, htype, he⟩ := Option.bind_eq_some_iff.mp he
      obtain ⟨hshape, he⟩ := Option.ite_none_right_eq_some.mp he
      obtain rfl := Option.some.inj he
      rw [(parseObj_trees uxKeys.nodup uxKeys.short parses_event).mpr ⟨ms, ht, htake⟩,
        Option.bind_some, htype, Option.bind_some, if_pos hshape, hlog]
    | _ => simp [eventOf] at he

theorem uxEvents_iff : uxEvents h emit n log s = some (log', r) ↔
    ∃ ts es, Reads s (.items ts) r ∧ ts.length ≤ n ∧ itemsOf ts = some es ∧
      log' = log ++ es.flatMap (records h emit) := by
  induction n generalizing log s with
  | zero =>
    refine ⟨fun hp => by simp [uxEvents] at hp, ?_⟩
    rintro ⟨ts, es, ht, hlen, -⟩
    obtain rfl := List.length_eq_zero_iff.mp (Nat.le_zero.mp hlen)
    cases ht
  | succ n ih =>
    rw [uxEvents, Option.bind_eq_some_iff]
    constructor
    · rintro ⟨⟨log₁, s₁⟩, hev, hp⟩
      obtain ⟨t, e, ht, he, rfl⟩ := uxEvent_iff.mp hev
      cases hcomma : expect comma s₁ with
      | none =>
        rw [hcomma] at hp
        obtain ⟨s₂, hclose, hp⟩ := Option.map_eq_some_iff.mp hp
        obtain ⟨rfl, rfl⟩ := Prod.mk.inj hp
        refine ⟨[t], [e], .lastItem ht ((token_iff rfl).mp hclose), Nat.le_add_left 1 n, ?_, ?_⟩
        · rw [itemsOf, he]
          rfl
        · rw [List.flatMap_singleton]
      | some s₂ =>
        rw [hcomma] at hp
        obtain ⟨ts, es, hts, hlen, hes, rfl⟩ := ih.mp hp
        refine ⟨t :: ts, e :: es, .item ht ((token_iff rfl).mp hcomma) hts,
          Nat.succ_le_succ hlen, ?_, ?_⟩
        · rw [itemsOf, he, Option.bind_some, hes]
          rfl
        · rw [List.flatMap_cons, List.append_assoc]
    · rintro ⟨ts, es, ht, hlen, hes, rfl⟩
      cases ht with
      | @lastItem _ s₁ _ t hv hc =>
        obtain ⟨e, he, hes⟩ := Option.bind_eq_some_iff.mp hes
        obtain rfl := Option.some.inj hes
        refine ⟨(log ++ records h emit e, s₁), uxEvent_iff.mpr ⟨t, e, hv, he, rfl⟩, ?_⟩
        have hno : expect comma s₁ = none := by
          unfold expect token
          rw [Ws.skipWs hc rfl]
          rfl
        dsimp only
        rw [hno]
        dsimp only
        rw [expect, (token_iff rfl).mpr hc, List.flatMap_singleton]
        rfl
      | @item _ s₁ s₂ _ t ts hv hs hi =>
        obtain ⟨e, he, hes⟩ := Option.bind_eq_some_iff.mp hes
        obtain ⟨es, hrest, rfl⟩ := Option.map_eq_some_iff.mp hes
        refine ⟨(log ++ records h emit e, s₁), uxEvent_iff.mpr ⟨t, e, hv, he, rfl⟩, ?_⟩
        dsimp only
        rw [expect, (token_iff rfl).mpr hs]
        have hlog : log ++ (e :: es).flatMap (records h emit) =
            log ++ records h emit e ++ es.flatMap (records h emit) := by
          rw [List.flatMap_cons, List.append_assoc]
        exact ih.mpr ⟨ts, es, hi, Nat.le_of_succ_le_succ hlen, hrest, hlog⟩

theorem parses_sid : Parses (fun s => (parseStr 33 s).bind fun r =>
    if r.1.len < 8 ∨ r.1.len > 32 then none
    else if r.1.buf.all isHex then some (r.1.buf, r.2) else none) (asText 8 32 isHex) := by
  refine @parses_cut 33 _ _ (fun k => if k.len < 8 ∨ k.len > 32 then none
    else if k.buf.all isHex then some k.buf else none) _ ?_ ?_ ?_
  · intro s
    refine congrArg ((parseStr _ s).bind ·) (funext fun r => ?_)
    split_ifs <;> rfl
  · intro t
    dsimp only [asText]
    by_cases hlen : 8 ≤ t.length ∧ t.length ≤ 32
    · have hout : ¬ (t.length < 8 ∨ t.length > 32) := by omega
      rw [if_neg hout, List.take_of_length_le hlen.2]
      simp only [hlen, true_and]
    · have hout : t.length < 8 ∨ t.length > 32 := by omega
      rw [if_pos hout, if_neg fun h => hlen ⟨h.1, h.2.1⟩]
  · intro t ht
    cases t with
    | str => exact absurd rfl ht
    | _ => rfl

theorem parses_events {h : UxHdr} {emit : Bool} {log : List (List Byte)} :
    Parses (fun s => (expect leftBracket s).bind fun s => uxEvents h emit uxEventsMax log s)
      fun t => (eventsOf t).map fun es => log ++ es.flatMap (records h emit) where
  sound := by
    intro s v r hp
    obtain ⟨s₁, hopen, hp⟩ := Option.bind_eq_some_iff.mp hp
    obtain ⟨ts, es, hts, hlen, hes, rfl⟩ := uxEvents_iff.mp hp
    refine ⟨.arr ts, .arr ((token_iff rfl).mp hopen) hts, ?_⟩
    have hpos : 1 ≤ ts.length := by
      cases hts <;> exact Nat.le_add_left 1 _
    rw [eventsOf, if_pos ⟨hpos, hlen⟩, hes]
    rfl
  complete := by
    intro s t v r ht _ hv
    obtain ⟨es, hes, rfl⟩ := Option.map_eq_some_iff.mp hv
    cases t with
    | arr ts =>
      obtain ⟨⟨hpos, hlen⟩, hes⟩ := Option.ite_none_right_eq_some.mp hes
      cases ht with
      | noItems => exact absurd hpos (by decide)
      | arr ho hi =>
        rw [expect, (token_iff rfl).mpr ho, Option.bind_some]
        exact uxEvents_iff.mpr ⟨ts, es, hi, hlen, hes, rfl⟩
    | _ => simp [eventsOf] at hes

theorem parses_body (k : ℕ) (x : UxPass) :
    Parses (uxField emit k x) fun t => bodyTake emit k t x := by
  obtain ⟨h, log⟩ := x
  unfold uxField bodyTake
  split_ifs
  · have hsid := parses_sid.map fun v => (({ h with sid := v }, log) : UxPass)
    convert hsid using 1
    funext s
    cases parseStr 33 s with
    | none => rfl
    | some r =>
      dsimp only [Option.bind_some]
      split_ifs <;> rfl
  · have henum : Parses (parseEnum uxUa) (asEnum uxUa) := parses_enum (by decide)
    exact henum.map fun v => (({ h with ua := v }, log) : UxPass)
  · exact parses_bool.map fun v => (({ h with standalone := v }, log) : UxPass)
  · have henum : Parses (parseEnum uxOrigin) (asEnum uxOrigin) := parses_enum (by decide)
    exact henum.map fun v => (({ h with origin := v }, log) : UxPass)
  · have hevents := (@parses_events h emit log).map fun v => ((h, v) : UxPass)
    convert hevents using 1
    · funext s
      cases expect leftBracket s <;> rfl
    · funext t
      cases eventsOf t <;> rfl

theorem uxParse_iff : uxParse emit s x = some y ↔ ∃ ms, ReadsAll s (.obj ms) ∧
    takeMembers uxBodyKeys.names (bodyTake emit) ms 0 x = some (31, y) := by
  unfold uxParse
  constructor
  · intro hp
    obtain ⟨⟨seen, z⟩, hbody, hp⟩ := Option.bind_eq_some_iff.mp hp
    obtain ⟨rfl, hp⟩ := Option.ite_none_right_eq_some.mp hp
    obtain rfl := Option.some.inj hp
    exact (parseBody_trees uxBodyKeys.nodup uxBodyKeys.short parses_body).mp hbody
  · intro hms
    rw [(parseBody_trees uxBodyKeys.nodup uxBodyKeys.short parses_body).mpr hms]
    rfl

end OpenCalifornia.Web
