import OpenCalifornia.Lib.Paging
import OpenCalifornia.SdLog.Scan

/-! # The pager

`cali_sdlog_page` starts at the segment that may hold what the reader asks for, or at the oldest
one, and copies records until the page is full. -/

namespace OpenCalifornia.SdLog
open Lib Lib.Bits Lib.Buffer Lib.Paging

/-- A file of the log; its name is the number of its first record. -/
structure Seg where
  first : ℕ
  bytes : List Byte

/-- The directory in the order of `readdir`. -/
abbrev Dir := List Seg

/-- A name that `seg_name` takes. -/
def segName (first : ℕ) : Bool := first ≠ 0 ∧ first ≤ uint32Max

/-- `seg_near` -/
def segNear (d : Dir) (ref : ℕ) (above : Bool) : ℕ :=
  d.foldl (fun best s =>
    if segName s.first ∧ (if above then ref < s.first ∧ (best = 0 ∨ s.first < best)
      else s.first ≤ ref ∧ best < s.first) then s.first else best) 0

/-- What the page holds so far. -/
structure Out where
  items : List Entry := []
  n : ℕ := 0
  count : ℕ := 0
  next : ℕ
  more : Bool := false

/-- A record above the last one is copied, or it is for the next page. -/
def pageRecord (max room : ℕ) (o : Out) (e : Entry) : Out :=
  if o.next < e.seq then
    if max ≤ o.count ∨ room < o.n + e.line.length then { o with more := true }
    else { o with
      items := o.items ++ [e]
      n := o.n + e.line.length
      next := e.seq
      count := o.count + 1 }
  else o

/-- One `fgets`, unless there is more already. -/
def pageChunk (max room : ℕ) (o : Out × Bool) (chunk : List Byte) : Out × Bool :=
  if o.1.more then o
  else
    let t := text chunk
    (match lineSeq o.2 t with
      | some seq => if seq ≤ uint32Max then pageRecord max room o.1 ⟨seq, t⟩ else o.1
      | none => o.1, complete t)

def pageSeg (max room : ℕ) (o : Out) (bytes : List Byte) : Out :=
  ((chunks bytes).foldl (pageChunk max room) (o, true)).1

/-- `while (seg && !more)` -/
def pageSegs (d : Dir) (max room : ℕ) : ℕ → ℕ → Out → Option Out
  | 0, _, _ => none
  | k + 1, seg, o =>
    if seg ≠ 0 ∧ ¬ o.more then do
      let f ← d.find? (·.first = seg)
      pageSegs d max room k (segNear d seg true) (pageSeg max room o f.bytes)
    else some o

def pageMin : ℕ := lineMax + 96

def trailer (next : ℕ) (more : Bool) (boot : BitVec 32) (lost : ℕ) : List Byte :=
  chars "\x7b\"next\":" ++ Json.decimal next ++ chars ",\"more\":" ++
    chars (if more then "true" else "false") ++ chars ",\"boot\":" ++ Json.decimal boot.toNat ++
    chars ",\"lost\":" ++ Json.decimal lost ++ chars "\x7d\n"

/-- The segment to start at and `lost`; the numbers are 32 bits wide. -/
def pageStart (d : Dir) (since : ℕ) : ℕ × ℕ :=
  let seg := if since < uint32Max then segNear d (since + 1) false else 0
  if seg = 0 then
    let seg := segNear d 0 true
    (seg, if (since + 1) % 2 ^ 32 < seg then (seg + 2 ^ 32 - (since + 1) % 2 ^ 32) % 2 ^ 32 else 0)
  else (seg, 0)

/-- The page and its `lost`; `none` is the -1. -/
def page (d : Dir) (boot : BitVec 32) (cap max since : ℕ) : Option (Page Entry ℕ) :=
  if cap < pageMin then none
  else do
    let start := pageStart d since
    let o ← pageSegs d (if max = 0 then 2000 else max) (cap - (pageMin - lineMax)) (d.length + 1)
      start.1 { next := since }
    if (trailer o.next o.more boot start.2).length ≥ cap - o.n then none
    else some ⟨o.items, o.next, o.more, start.2⟩

variable {d pre post : Dir} {o : Out} {max room since : ℕ} {es : List Entry}

theorem foldl_record_more (h : o.more = true) :
    es.foldl (fun o e => if o.more then o else pageRecord max room o e) o = o := by
  induction es with
  | nil => rfl
  | cons e es ih => rw [List.foldl_cons, if_pos h, ih]

theorem foldl_chunk_more (h : o.more = true) (cs : List (List Byte)) (whole : Bool) :
    cs.foldl (pageChunk max room) (o, whole) = (o, whole) := by
  induction cs with
  | nil => rfl
  | cons c cs ih => rw [List.foldl_cons, pageChunk, if_pos h, ih]

theorem foldl_chunk (cs : List (List Byte)) (whole : Bool) (o : Out) :
    (cs.foldl (pageChunk max room) (o, whole)).1 =
      (entries whole cs).foldl (fun o e => if o.more then o else pageRecord max room o e) o := by
  induction cs generalizing whole o with
  | nil => rfl
  | cons c cs ih =>
    by_cases hmore : o.more = true
    · rw [foldl_chunk_more hmore, foldl_record_more hmore]
    · rw [List.foldl_cons, pageChunk, if_neg hmore, ih, entries]
      cases hv : lineSeq whole (text c) with
      | none => rfl
      | some v =>
        by_cases hmax : v ≤ uint32Max
        · simp only [if_pos hmax, List.foldl_cons, if_neg hmore]
        · simp only [if_neg hmax]

/-- What was copied is a first part of what stands above the key, as much as there is room for. -/
structure Copied (max room : ℕ) (o : Out) (es : List Entry) (r : Out) : Prop where
  split : ∃ took rest, climb Entry.seq o.next es = took ++ rest ∧ r.items = o.items ++ took ∧
    r.next = top Entry.seq o.next took ∧ r.count = o.count + took.length ∧
    r.n = o.n + (took.map (·.line.length)).sum ∧ (r.more = true ↔ rest ≠ []) ∧
    ∀ e, rest.head? = some e → max ≤ r.count ∨ room < r.n + e.line.length

theorem copied (max : ℕ) (es : List Entry) (ho : o.more = false) (hn : o.n ≤ room) :
    Copied max room o es
      (es.foldl (fun o e => if o.more then o else pageRecord max room o e) o) ∧
      (es.foldl (fun o e => if o.more then o else pageRecord max room o e) o).n ≤ room := by
  induction es generalizing o with
  | nil =>
    exact ⟨⟨[], [], rfl, by simp, rfl, rfl, rfl, by simp [ho], fun e he => (by cases he)⟩, hn⟩
  | cons e es ih =>
    rw [List.foldl_cons, if_neg (by simp [ho]), pageRecord]
    by_cases hlt : o.next < e.seq
    · rw [if_pos hlt]
      by_cases hfull : max ≤ o.count ∨ room < o.n + e.line.length
      · rw [if_pos hfull, foldl_record_more rfl]
        refine ⟨⟨[], climb Entry.seq o.next (e :: es), rfl, by simp, rfl, rfl, rfl, ?_, ?_⟩, hn⟩
        · rw [climb, if_pos hlt]
          simp
        · intro e' he
          rw [climb, if_pos hlt, List.head?_cons, Option.some.injEq] at he
          exact he ▸ hfull
      · rw [if_neg hfull]
        obtain ⟨⟨took, rest, hsplit, hitems, hnext, hcount, hlen, hmore, hrest⟩, hroom⟩ :=
          ih (o := { o with
            items := o.items ++ [e]
            n := o.n + e.line.length
            next := e.seq
            count := o.count + 1 }) ho (by dsimp only; omega)
        refine ⟨⟨e :: took, rest, ?_, ?_, ?_, ?_, ?_, hmore, hrest⟩, hroom⟩
        · rw [climb, if_pos hlt, hsplit]
          rfl
        · rw [hitems, List.append_assoc]
          rfl
        · have htop : top Entry.seq o.next (e :: took) = top Entry.seq e.seq took := by
            rw [top, List.foldl_cons, Nat.max_eq_right hlt.le]
            rfl
          rw [htop]
          exact hnext
        · dsimp only at hcount
          rw [hcount, List.length_cons]
          omega
        · dsimp only at hlen
          rw [hlen, List.map_cons, List.sum_cons]
          omega
    · rw [if_neg hlt]
      obtain ⟨⟨took, rest, hsplit, hrest⟩, hroom⟩ := ih ho hn
      exact ⟨⟨took, rest, by rw [climb, if_neg hlt, hsplit], hrest⟩, hroom⟩

/-- No more records are copied than were asked for. -/
def Out.Within (max : ℕ) (o : Out) : Prop := o.items.length = o.count ∧ o.count ≤ max

theorem Out.Within.record (h : o.Within max) (e : Entry) :
    (pageRecord max room o e).Within max := by
  unfold pageRecord
  split_ifs with hlt hfull
  · exact h
  · have hroom := Nat.lt_of_not_le (not_or.mp hfull).1
    refine ⟨?_, hroom⟩
    rw [List.length_append, List.length_singleton, h.1]
  · exact h

theorem Out.Within.seg (h : o.Within max) (bytes : List Byte) :
    (pageSeg max room o bytes).Within max := by
  rw [pageSeg, foldl_chunk]
  induction entries true (chunks bytes) generalizing o with
  | nil => exact h
  | cons e es ih =>
    rw [List.foldl_cons]
    split_ifs with hmore
    · exact ih h
    · exact ih (h.record e)

theorem Out.Within.segs {k seg : ℕ} {o' : Out} (h : o.Within max)
    (hs : pageSegs d max room k seg o = some o') : o'.Within max := by
  induction k generalizing seg o with
  | zero => cases hs
  | succ k ih =>
    rw [pageSegs] at hs
    split_ifs at hs with hseg
    · obtain ⟨f, -, hs⟩ := Option.bind_eq_some_iff.mp hs
      exact ih (h.seg f.bytes) hs
    · exact Option.some.inj hs ▸ h

theorem page_items_le {boot : BitVec 32} {cap : ℕ} {p : Page Entry ℕ} (hmax : max ≠ 0)
    (h : page d boot cap max since = some p) : p.items.length ≤ max := by
  rw [page] at h
  obtain ⟨-, h⟩ := Option.ite_none_left_eq_some.mp h
  obtain ⟨o, hsegs, h⟩ := Option.bind_eq_some_iff.mp h
  obtain ⟨-, h⟩ := Option.ite_none_left_eq_some.mp h
  rw [if_neg hmax] at hsegs
  have hstart : ({ next := since } : Out).Within max := ⟨rfl, Nat.zero_le _⟩
  have hwithin := hstart.segs hsegs
  rw [← Option.some.inj h]
  exact hwithin.1.le.trans hwithin.2

/-- The names in a directory that the log wrote go up. -/
structure Sorted (d : Dir) : Prop where
  ascending : d.Pairwise (·.first < ·.first)
  named : ∀ s ∈ d, segName s.first = true

theorem Sorted.pos (h : Sorted d) {s : Seg} (hs : s ∈ d) : 0 < s.first ∧ s.first ≤ uint32Max := by
  have hname := h.named s hs
  rw [segName, decide_eq_true_eq] at hname
  omega

theorem Sorted.left (h : Sorted (pre ++ post)) : Sorted pre :=
  ⟨(List.pairwise_append.mp h.ascending).1, fun s hs => h.named s (List.mem_append_left _ hs)⟩

theorem segNear_append (ref : ℕ) (above : Bool) (d : Dir) (s : Seg) :
    segNear (d ++ [s]) ref above =
      if segName s.first ∧ (if above then ref < s.first ∧
          (segNear d ref above = 0 ∨ s.first < segNear d ref above)
        else s.first ≤ ref ∧ segNear d ref above < s.first) then s.first
      else segNear d ref above := by
  rw [segNear, List.foldl_append]
  rfl

theorem segNear_above (ref : ℕ) (h : Sorted (pre ++ post)) (hpre : ∀ s ∈ pre, s.first ≤ ref)
    (hpost : ∀ s ∈ post, ref < s.first) :
    segNear (pre ++ post) ref true = (post.head?.map Seg.first).getD 0 := by
  induction post using List.reverseRecOn with
  | nil =>
    rw [List.append_nil] at h ⊢
    induction pre using List.reverseRecOn with
    | nil => rfl
    | append_singleton pre s ih =>
      have hs := hpre s (by simp)
      rw [segNear_append, ih (fun x hx => hpre x (List.mem_append_left _ hx)) h.left,
        if_neg fun hcond => by simp at hcond; omega]
  | append_singleton post s ih =>
    have hs := hpost s (by simp)
    rw [← List.append_assoc] at h ⊢
    rw [segNear_append, ih h.left fun x hx => hpost x (List.mem_append_left _ hx)]
    cases post with
    | nil =>
      have hname := h.named s (by simp)
      simp [hname, hs]
    | cons s' post =>
      have hlt := (List.pairwise_append.mp h.ascending).2.2 s' (by simp) s (by simp)
      have hpos := h.pos (s := s') (by simp)
      rw [if_neg]
      · rfl
      · simp
        omega

theorem segNear_upto (ref : ℕ) (h : Sorted d) :
    segNear d ref false = 0 ∧ (∀ s ∈ d, ref < s.first) ∨
      ∃ pre s post, d = pre ++ s :: post ∧ segNear d ref false = s.first ∧ s.first ≤ ref ∧
        ∀ x ∈ post, ref < x.first := by
  induction d using List.reverseRecOn with
  | nil => exact Or.inl ⟨rfl, fun s hs => (by cases hs)⟩
  | append_singleton d s ih =>
    rw [segNear_append]
    have hname := h.named s (by simp)
    by_cases hs : s.first ≤ ref
    · have hbelow : segNear d ref false < s.first := by
        rcases ih h.left with ⟨hzero, -⟩ | ⟨pre, x, post, rfl, hx, -⟩
        · have hpos := h.pos (s := s) (by simp)
          omega
        · rw [hx]
          exact (List.pairwise_append.mp h.ascending).2.2 x (by simp) s (by simp)
      exact Or.inr ⟨d, s, [], rfl, by simp [hname, hs, hbelow], hs, fun x hx => (by cases hx)⟩
    · rw [if_neg fun hcond => by simp at hcond; omega]
      rcases ih h.left with ⟨hzero, hall⟩ | ⟨pre, x, post, rfl, hx, hle, hpost⟩
      · refine Or.inl ⟨hzero, fun y hy => ?_⟩
        rcases List.mem_append.mp hy with hy | hy
        · exact hall y hy
        · rw [List.mem_singleton.mp hy]
          omega
      · refine Or.inr ⟨pre, x, post ++ [s], by simp, hx, hle, fun y hy => ?_⟩
        rcases List.mem_append.mp hy with hy | hy
        · exact hpost y hy
        · rw [List.mem_singleton.mp hy]
          omega

theorem find_seg {s : Seg} (h : Sorted (pre ++ s :: post)) :
    (pre ++ s :: post).find? (·.first = s.first) = some s := by
  rw [List.find?_append, List.find?_eq_none.mpr, List.find?_cons_of_pos (by simp), Option.none_or]
  intro x hx
  have hlt := (List.pairwise_append.mp h.ascending).2.2 x hx s (by simp)
  simp
  omega

/-- The records of segments one after the other. -/
def contents (d : Dir) : List Entry := d.flatMap (readable ·.bytes)

theorem contents_cons (s : Seg) (d : Dir) : contents (s :: d) = readable s.bytes ++ contents d :=
  List.flatMap_cons

theorem pageSegs_eq (h : Sorted (pre ++ post)) {k : ℕ} (hk : post.length < k) (o : Out) :
    pageSegs (pre ++ post) max room k ((post.head?.map Seg.first).getD 0) o =
      some ((contents post).foldl
        (fun o e => if o.more then o else pageRecord max room o e) o) := by
  induction post generalizing pre k o with
  | nil =>
    obtain ⟨k, rfl⟩ : ∃ j, k = j + 1 := ⟨k - 1, by omega⟩
    rfl
  | cons s post ih =>
    obtain ⟨k, rfl⟩ : ∃ j, k = j + 1 := ⟨k - 1, by omega⟩
    have hpos := h.pos (s := s) (by simp)
    have hsplit : pre ++ s :: post = (pre ++ [s]) ++ post := by simp
    have hpw := List.pairwise_append.mp h.ascending
    have hnext := segNear_above s.first (hsplit ▸ h)
      (fun x hx => by
        rcases List.mem_append.mp hx with hx | hx
        · exact (hpw.2.2 x hx s (by simp)).le
        · exact (List.mem_singleton.mp hx ▸ le_rfl))
      (fun x hx => (List.pairwise_cons.mp hpw.2.1).1 x hx)
    rw [List.head?_cons, Option.map_some, Option.getD_some, pageSegs]
    by_cases hmore : o.more = true
    · rw [if_neg (by simp [hmore]), foldl_record_more hmore]
    · rw [if_pos ⟨by omega, hmore⟩, find_seg h]
      simp only [Option.bind_eq_bind, Option.bind_some]
      rw [hsplit, hnext, ih (hsplit ▸ h) (by simpa using hk), contents_cons, List.foldl_append,
        pageSeg, foldl_chunk, readable]

/-- Where a page starts: a segment is left out only when the first one read is the newest that
begins at the number after `since` or below. -/
def Starts (d : Dir) (since : ℕ) (post : Dir) : Prop :=
  ∃ pre, d = pre ++ post ∧ (pre ≠ [] → ∃ s rest, post = s :: rest ∧ s.first ≤ since + 1)

theorem pageStart_eq (h : Sorted d) (hsince : since ≤ uint32Max) :
    ∃ post, Starts d since post ∧ (pageStart d since).1 = (post.head?.map Seg.first).getD 0 ∧
      ((pageStart d since).2 = if since < uint32Max
        then (d.head?.map Seg.first).getD 0 - (since + 1) else (d.head?.map Seg.first).getD 0) := by
  have hall : segNear ([] ++ d) 0 true = (d.head?.map Seg.first).getD 0 :=
    segNear_above 0 h (fun s hs => (by cases hs)) fun s hs => (h.pos hs).1
  have hhead : (d.head?.map Seg.first).getD 0 ≤ uint32Max := by
    cases d with
    | nil => exact Nat.zero_le _
    | cons s d => exact (h.pos (s := s) (by simp)).2
  rw [List.nil_append] at hall
  have hoverall : Starts d since d := ⟨[], rfl, fun hne => absurd rfl hne⟩
  rw [pageStart]
  by_cases hlt : since < uint32Max
  · rw [if_pos hlt, if_pos hlt]
    have hmod : (since + 1) % 2 ^ 32 = since + 1 :=
      Nat.mod_eq_of_lt (by rw [uint32Max] at hlt; omega)
    rcases segNear_upto (since + 1) h with ⟨hzero, hup⟩ | ⟨pre, s, post, rfl, hseg, hle, hpost⟩
    · simp only [hzero, hall, hmod, if_true]
      refine ⟨d, hoverall, rfl, ?_⟩
      split_ifs with hgt
      · rw [uint32Max] at hhead
        omega
      · omega
    · have hpos := h.pos (s := s) (by simp)
      simp only [hseg, if_neg (show ¬ s.first = 0 by omega)]
      refine ⟨s :: post, ⟨pre, rfl, fun _ => ⟨s, post, rfl, hle⟩⟩, rfl, ?_⟩
      have hfirst : ((pre ++ s :: post).head?.map Seg.first).getD 0 ≤ s.first := by
        cases pre with
        | nil => exact le_rfl
        | cons x pre => exact ((List.pairwise_append.mp h.ascending).2.2 x (by simp) s (by simp)).le
      omega
  · have hmax : since = uint32Max := by omega
    have hmod : (since + 1) % 2 ^ 32 = 0 := by
      rw [hmax]
      decide
    simp only [if_neg hlt, hall, hmod, if_true]
    refine ⟨d, hoverall, rfl, ?_⟩
    rw [uint32Max] at hhead
    split_ifs <;> omega

theorem length_decimal {k n : ℕ} (hk : 0 < k) (h : n < 10 ^ k) : (Json.decimal n).length ≤ k := by
  rw [Json.decimal]
  split_ifs
  · exact hk
  · rw [List.length_map, List.length_reverse]
    exact (Nat.digits_length_le_iff (by decide) n).mpr h

theorem length_trailer {next lost : ℕ} (more : Bool) (boot : BitVec 32) (hnext : next ≤ uint32Max)
    (hlost : lost ≤ uint32Max) : (trailer next more boot lost).length < 96 := by
  rw [uint32Max] at hnext hlost
  have hn := length_decimal (k := 10) (by decide) (show next < 10 ^ 10 by omega)
  have hl := length_decimal (k := 10) (by decide) (show lost < 10 ^ 10 by omega)
  have hb := length_decimal (k := 10) (by decide) (show boot.toNat < 10 ^ 10 by omega)
  have hm : (chars (if more then "true" else "false")).length ≤ 5 := by
    cases more <;> decide
  have hfix : (chars "\x7b\"next\":").length = 8 ∧ (chars ",\"more\":").length = 8 ∧
      (chars ",\"boot\":").length = 8 ∧ (chars ",\"lost\":").length = 8 ∧
      (chars "\x7d\n").length = 2 := by decide
  simp only [trailer, List.length_append, hfix]
  omega

theorem length_of_mem_entries {e : Entry} {whole : Bool} {cs : List (List Byte)}
    (hcs : ∀ c ∈ cs, c.length < lineMax) (he : e ∈ entries whole cs) :
    e.line.length < lineMax ∧ e.seq ≤ uint32Max := by
  induction cs generalizing whole with
  | nil => cases he
  | cons c cs ih =>
    obtain ⟨hc, hcs⟩ := List.forall_mem_cons.mp hcs
    rw [entries] at he
    cases hv : lineSeq whole (text c) with
    | none =>
      simp only [hv] at he
      exact ih hcs he
    | some v =>
      simp only [hv] at he
      by_cases hmax : v ≤ uint32Max
      · rw [if_pos hmax] at he
        cases he with
        | head => exact ⟨((List.takeWhile_prefix _).length_le).trans_lt hc, hmax⟩
        | tail _ he => exact ih hcs he
      · rw [if_neg hmax] at he
        exact ih hcs he

theorem length_of_mem_contents {e : Entry} (he : e ∈ contents d) :
    e.line.length < lineMax ∧ e.seq ≤ uint32Max := by
  obtain ⟨s, -, he⟩ := List.mem_flatMap.mp he
  exact length_of_mem_entries (fun c hc => length_of_mem_chunks hc) he

/-- The page of a reader: the next records, as many as fit, and all when they fit. -/
theorem page_of (h : Sorted d) (boot : BitVec 32) (max : ℕ) {cap : ℕ} (hcap : pageMin ≤ cap)
    (hsince : since ≤ uint32Max) :
    ∃ p post, Starts d since post ∧ page d boot cap max since = some p ∧
      p.Of Entry.seq since (climb Entry.seq since (contents post)) ∧
      (p.info = if since < uint32Max then (d.head?.map Seg.first).getD 0 - (since + 1)
        else (d.head?.map Seg.first).getD 0) ∧
      (max ≠ 0 → (climb Entry.seq since (contents post)).length ≤ max →
        ((climb Entry.seq since (contents post)).map (·.line.length)).sum + 96 ≤ cap →
        p.more = false) := by
  obtain ⟨post, hstarts, hseg, hlost⟩ := pageStart_eq h hsince
  obtain ⟨pre, rfl, hpre⟩ := hstarts
  have hroom : cap - (pageMin - lineMax) = cap - 96 := rfl
  rw [pageMin, lineMax] at hcap
  have hrun : pageSegs (pre ++ post) (if max = 0 then 2000 else max) (cap - 96)
      ((pre ++ post).length + 1) ((post.head?.map Seg.first).getD 0) { next := since } = some _ :=
    pageSegs_eq h (by simp) { next := since }
  obtain ⟨⟨took, rest, hsplit, hitems, hnext, hcount, hlen, hmore, hrest⟩, hn⟩ :=
    copied (if max = 0 then 2000 else max) (contents post)
      (rfl : ({ next := since } : Out).more = false) (Nat.zero_le (cap - 96))
  generalize (contents post).foldl _ _ = r at hrun hitems hnext hcount hlen hmore hrest hn
  have hmem : ∀ e ∈ took ++ rest, e.line.length < lineMax ∧ e.seq ≤ uint32Max := fun e he =>
    length_of_mem_contents ((climb_sublist _ _).subset (hsplit ▸ he))
  have hle : r.next ≤ uint32Max := by
    rw [hnext]
    exact top_le hsince fun e he => (hmem e (List.mem_append_left _ he)).2
  have hhead : ((pre ++ post).head?.map Seg.first).getD 0 ≤ uint32Max := by
    cases hd : pre ++ post with
    | nil => exact Nat.zero_le _
    | cons s d => exact (h.pos (s := s) (by rw [hd]; exact List.mem_cons_self)).2
  have hlostle : (pageStart (pre ++ post) since).2 ≤ uint32Max := by
    rw [hlost]
    split_ifs <;> omega
  have htrailer := length_trailer r.more boot hle hlostle
  refine ⟨⟨r.items, r.next, r.more, (pageStart (pre ++ post) since).2⟩, post, ⟨pre, rfl, hpre⟩, ?_,
    ⟨?_, ?_, ?_, ?_⟩, hlost, ?_⟩
  · rw [page, if_neg (by rw [pageMin, lineMax]; omega)]
    simp only [hseg, hroom, hrun, Option.bind_eq_bind, Option.bind_some]
    rw [if_neg (by omega)]
  · rw [hsplit, hitems]
    exact List.prefix_append _ _
  · rw [hitems]
    exact hnext
  · rw [hmore, hsplit, hitems]
    simp
  · intro hne hnil
    have htook : took = [] := by simpa [hitems] using hnil
    rw [htook, List.nil_append] at hsplit
    obtain ⟨e, rest', rfl⟩ := List.exists_cons_of_ne_nil (hsplit ▸ hne)
    rw [htook] at hcount hlen
    rcases hrest e rfl with hfull | hfull
    · rw [hcount] at hfull
      simp at hfull
      split_ifs at hfull
      omega
    · have hshort := (hmem e (by simp)).1
      rw [lineMax] at hshort
      simp at hlen
      omega
  · intro hmax hlength hbytes
    by_contra htrue
    rw [Bool.not_eq_false] at htrue
    obtain ⟨e, rest', rfl⟩ := List.exists_cons_of_ne_nil (hmore.mp htrue)
    rw [hsplit] at hlength hbytes
    simp only [List.length_append, List.length_cons, List.map_append, List.map_cons,
      List.sum_append, List.sum_cons] at hlength hbytes
    rcases hrest e rfl with hfull | hfull
    · rw [if_neg hmax, hcount] at hfull
      dsimp only at hfull
      omega
    · dsimp only at hlen
      omega

end OpenCalifornia.SdLog
