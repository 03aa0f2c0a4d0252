import Mathlib
import OpenCalifornia.SdLog.Append

/-! # Reading back what is appended

A record gets the number behind the last one that recovery saw. The pager passes over it when
there is one with a higher number in front of it. -/

namespace OpenCalifornia.SdLog
open Lib Lib.Bits Lib.Buffer Lib.Paging

variable {d older pre post : Dir} {first next₀ n since cap max room : ℕ} {bytes k l : List Byte}
  {lines : List (List Byte)} {log : Log} {X Y Z A B : List Entry} {boot : BitVec 32}
  {a e : Entry} {o : Out} {p : Page Entry ℕ}

theorem returned_of_split (h : Sorted d) (hc : Chained d) (hsplit : contents d = A ++ a :: B)
    (hA : ∀ e ∈ A, e.seq < a.seq) (hcap : pageMin ≤ cap) (hsince : since < a.seq) :
    Returned (page d boot cap max) a since := by
  have ha : a.seq ≤ uint32Max :=
    (length_of_mem_contents (d := d) (by rw [hsplit]; simp)).2
  refine returned_of_ahead (fun n hn => ?_) hsince
  obtain ⟨p, post, ⟨pre, rfl, hstart⟩, hp, hof, -⟩ := page_of h boot max hcap
    (hn.le.trans ha)
  refine ⟨p, _, hp, hof, ?_, climb_above _ _, climb_sorted _ _⟩
  have hnot : a ∉ contents pre := by
    intro hmem
    obtain ⟨s, hs, has⟩ := List.mem_flatMap.mp hmem
    obtain ⟨t, rest, rfl, ht⟩ := hstart (List.ne_nil_of_mem hs)
    have hlt := (List.pairwise_append.mp h.ascending).2.2 s hs t List.mem_cons_self
    have hbelow := hc s (by simp [hs]) t (by simp) hlt a has
    omega
  rw [contents_append] at hsplit
  obtain ⟨mid, hmid, hA'⟩ : ∃ mid, contents post = mid ++ a :: B ∧ ∀ e ∈ mid, e.seq < a.seq := by
    rcases List.append_eq_append_iff.mp hsplit with ⟨mid, hAeq, hpost⟩ | ⟨mid, hpre, hrest⟩
    · exact ⟨mid, hpost, fun e he => hA e (by rw [hAeq]; simp [he])⟩
    · cases mid with
      | nil => exact ⟨[], hrest.symm, fun e he => (by cases he)⟩
      | cons b mid =>
        obtain ⟨rfl, -⟩ := List.cons.inj hrest
        exact absurd (by rw [hpre]; simp) hnot
  rw [hmid]
  exact mem_climb hn hA' B

theorem record_pos (h : ∀ e ∈ o.items, 0 < e.seq) (e : Entry) :
    ∀ e' ∈ (pageRecord max room o e).items, 0 < e'.seq := by
  rw [pageRecord]
  split_ifs with hlt hfull
  · exact h
  · intro e' he'
    rcases List.mem_append.mp he' with he' | he'
    · exact h e' he'
    · rw [List.mem_singleton.mp he']
      omega
  · exact h

theorem seg_pos (h : ∀ e ∈ o.items, 0 < e.seq) (s : List Byte) :
    ∀ e ∈ (pageSeg max room o s).items, 0 < e.seq := by
  rw [pageSeg, foldl_chunk]
  induction entries true (chunks s) generalizing o with
  | nil => exact h
  | cons e es ih =>
    rw [List.foldl_cons]
    split_ifs
    · exact ih h
    · exact ih (record_pos h e)

theorem segs_pos {k seg : ℕ} {o' : Out} (h : ∀ e ∈ o.items, 0 < e.seq)
    (hsegs : pageSegs d max room k seg o = some o') : ∀ e ∈ o'.items, 0 < e.seq := by
  induction k generalizing seg o with
  | zero => cases hsegs
  | succ k ih =>
    rw [pageSegs] at hsegs
    split_ifs at hsegs with hmore
    · obtain ⟨f, -, hrest⟩ := Option.bind_eq_some_iff.mp hsegs
      exact ih (seg_pos h f.bytes) hrest
    · exact Option.some.inj hsegs ▸ h

theorem pos_of_returned (h : Returned (page d boot cap max) a since) : 0 < a.seq := by
  induction h with
  | here hp ha =>
    rw [page] at hp
    by_cases hcap : cap < pageMin
    · rw [if_pos hcap] at hp
      cases hp
    rw [if_neg hcap] at hp
    obtain ⟨o, hsegs, hrest⟩ := Option.bind_eq_some_iff.mp hp
    split_ifs at hrest
    obtain rfl := Option.some.inj hrest
    have hnone : ∀ e ∈ ([] : List Entry), 0 < e.seq := fun e he => by cases he
    exact segs_pos hnone hsegs a ha
  | later hp hmore h ih => exact ih

/-- A reader before the segment `first` who gets all on one page passes over a number that is not
above those in front of it. -/
theorem passed_of_returned (h : Grown (Y ++ Z) first next₀ lines log) (hfirst : 0 < first)
    (hmax : first ≤ uint32Max) (hY : ∀ e ∈ Y, e.seq < first) (he : e ∈ Z) (hle : a.seq ≤ e.seq)
    (hcap : pageMin + 96 + ((contents log.dir).map (·.line.length)).sum ≤ cap)
    (hret : Returned (page log.dir boot cap uint32Max) a (first - 1)) :
    a ∈ climb Entry.seq (first - 1) Z := by
  obtain ⟨p, post, ⟨pre, hdir, hstart⟩, hp, hof, -, hall⟩ :=
    page_of h.sorted boot uint32Max (show pageMin ≤ cap by omega)
      (show first - 1 ≤ uint32Max by omega)
  have hpre : ∀ e ∈ contents pre, e.seq ≤ first - 1 := by
    intro e he
    obtain ⟨s, hs, hes⟩ := List.mem_flatMap.mp he
    obtain ⟨t, rest, rfl, ht⟩ := hstart (List.ne_nil_of_mem hs)
    have hsorted := h.sorted.ascending
    rw [hdir] at hsorted
    have hlt := (List.pairwise_append.mp hsorted).2.2 s hs t List.mem_cons_self
    have hbelow := h.chained s (by rw [hdir]; simp [hs]) t (by rw [hdir]; simp) hlt
      (Or.inl (by omega)) e hes
    omega
  have htook : climb Entry.seq (first - 1) (contents post) =
      climb Entry.seq (first - 1) (Z ++ numbered next₀ lines) := by
    rw [← climb_skip hpre, ← contents_append, ← hdir, h.contents, List.append_assoc,
      climb_skip fun e he => Nat.le_sub_one_of_lt (hY e he)]
  have hsum : ((climb Entry.seq (first - 1) (contents post)).map (·.line.length)).sum ≤
      ((contents log.dir).map (·.line.length)).sum := by
    rw [hdir, contents_append]
    exact (((climb_sublist _ _).trans (List.sublist_append_right _ _)).map _).sum_le_sum
      fun _ _ => Nat.zero_le _
  have hlength : (climb Entry.seq (first - 1) (contents post)).length ≤ uint32Max - (first - 1) :=
    length_climb fun e he => (length_of_mem_contents he).2
  have hmore := hall (by decide) (by omega) (by omega)
  have ha : a ∈ p.items := by
    cases hret with
    | here hp' ha => exact (Option.some.inj (hp'.symm.trans hp)) ▸ ha
    | later hp' hmore' =>
      rw [Option.some.inj (hp'.symm.trans hp), hmore] at hmore'
      cases hmore'
  have hmem := hof.items.subset ha
  rw [htook, climb_append] at hmem
  refine (List.mem_append.mp hmem).resolve_right fun hnew => ?_
  have habove := climb_above _ _ a hnew
  have htop := (show e.seq ≤ top Entry.seq (first - 1) Z from key_le_top _ he)
  omega

/-- Whatever `n` records are appended, the pager returns each of them to every reader that has
less, with any limits. -/
def Appends (log : Log) (n : ℕ) : Prop :=
  ∀ (boot : BitVec 32) (rs : List Rec), rs.length = n →
    ∀ (boot' : BitVec 32) (cap max since : ℕ), pageMin ≤ cap → max ≤ uint32Max →
      since ≤ uint32Max → ∀ i r, rs[i]? = some r → since < log.next + i →
        Returned (page (rs.foldl (·.write boot) log).dir boot' cap max)
          ⟨(log.next + i) % 2 ^ 32, line ((log.next + i) % 2 ^ 32) boot r⟩ since

/-- A record of a link that came up `up` after the boot. -/
def linkRec (up : BitVec 64) : Rec := ⟨up, 0, .none, .connect, 0, [], by decide, by decide⟩

theorem line_linkRec (seq : ℕ) : line seq 0 (linkRec 0) ≠ line seq 0 (linkRec 1) := by
  intro heq
  rw [line, line, List.append_left_inj, List.append_right_inj, List.cons.injEq] at heq
  exact absurd heq.2 (by decide)

theorem appends_iff (h : Grown (Y ++ Z) first next₀ [] log) (hfirst : 0 < first)
    (hle : first ≤ next₀) (hmax : next₀ ≤ uint32Max) (hY : ∀ e ∈ Y, e.seq < first) (n : ℕ) :
    Appends log n ↔ n = 0 ∨ (∀ e ∈ Z, e.seq < next₀) ∧ next₀ + n ≤ 2 ^ 32 := by
  have hmod : next₀ % 2 ^ 32 = next₀ := Nat.mod_eq_of_lt (by rw [uint32Max] at hmax; omega)
  have hnext : log.next = next₀ := by rw [h.next, List.length_nil, Nat.add_zero, hmod]
  constructor
  · intro happ
    by_cases hn : n = 0
    · exact Or.inl hn
    have hfits : next₀ + n ≤ 2 ^ 32 := by
      by_contra hwrap
      rw [uint32Max] at hmax
      have hret := happ 0 (List.replicate n (linkRec 0)) (List.length_replicate) 0 pageMin 0 0
        le_rfl (Nat.zero_le _) (Nat.zero_le _) (2 ^ 32 - next₀) (linkRec 0)
        (by rw [List.getElem?_replicate_of_lt (by omega)]) (by omega)
      have hpos := pos_of_returned hret
      dsimp only at hpos
      rw [hnext, show next₀ + (2 ^ 32 - next₀) = 2 ^ 32 by omega] at hpos
      exact absurd hpos (by decide)
    refine Or.inr ⟨fun e he => ?_, hfits⟩
    by_contra habove
    have htaken : ∀ up, (⟨next₀, line next₀ 0 (linkRec up)⟩ : Entry) ∈
        climb Entry.seq (first - 1) Z := by
      intro up
      have hgrown := h.writes 0 (List.replicate n (linkRec up)) (by simpa using hfits)
      have hret := happ 0 (List.replicate n (linkRec up)) List.length_replicate 0
        (pageMin + 96 + ((contents ((List.replicate n (linkRec up)).foldl (·.write 0) log).dir).map
          (·.line.length)).sum) uint32Max (first - 1) (by omega) le_rfl (by omega) 0 (linkRec up)
        (by rw [List.getElem?_replicate_of_lt (by omega)]) (by omega)
      simp only [hnext, Nat.add_zero, hmod] at hret
      exact passed_of_returned hgrown hfirst (hle.trans hmax) hY he (by dsimp only; omega) le_rfl
        hret
    have hsame := eq_of_mem_climb (htaken 0) (htaken 1) rfl
    exact line_linkRec next₀ (Entry.mk.inj hsame).2
  · rintro (rfl | ⟨hbelow, hfits⟩) boot rs hlen boot' cap max since hcap - hsince i r hr hlt
    · rw [List.length_eq_zero_iff.mp hlen] at hr
      cases hr
    obtain ⟨A, B, hsplit, hA⟩ := numbered_records hr boot next₀
    have hi : i < n := hlen ▸ (List.getElem?_eq_some_iff.mp hr).1
    have hgrown := h.writes boot rs (by simpa [hlen] using hfits)
    have hall : ∀ e ∈ Y ++ Z, e.seq < next₀ := fun e he => by
      rcases List.mem_append.mp he with he | he
      · exact (hY e he).trans_le hle
      · exact hbelow e he
    have hcontents := hgrown.contents
    rw [List.nil_append, List.length_nil, Nat.add_zero, hsplit, ← List.append_assoc] at hcontents
    rw [hnext, Nat.mod_eq_of_lt (show next₀ + i < 2 ^ 32 by omega)]
    refine returned_of_split hgrown.sorted
      (fun s hs t ht hst => hgrown.chained s hs t ht hst (Or.inr hall)) hcontents ?_ hcap
      (hnext ▸ hlt)
    intro e he
    rcases List.mem_append.mp he with he | he
    · exact (hall e he).trans_le (Nat.le_add_right _ _)
    · exact hA e he

/-- The files after a power loss: the newest one holds any bytes. -/
structure Left (d : Dir) (first : ℕ) (bytes : List Byte) : Prop where
  named : ∀ s ∈ d, segName s.first = true
  distinct : Distinct d
  mem : ⟨first, bytes⟩ ∈ d
  newest : ∀ s ∈ d, s.first ≤ first
  chained : Chained d

/-- The log goes on behind the last complete record of the newest file, and `n` records that are
appended are read back. -/
def Resumes (d : Dir) (first : ℕ) (bytes : List Byte) (n : ℕ) : Prop :=
  (∃ k, (openLog d).dir.read first = some k ∧ Recovered first bytes k (openLog d).next) ∧
    Appends (openLog d) n

/-- No line up to the last complete record has a number above it, and the next `n` numbers are
numbers of records. -/
def Continues (first : ℕ) (bytes : List Byte) (n : ℕ) : Prop :=
  (∀ ls l rest, Last first bytes ls l rest →
    (∀ e ∈ readable (ls ++ [l]).flatten, e.seq ≤ number l) ∧ number l + 1 + n ≤ 2 ^ 32) ∧
    ((∀ l ∈ pieces bytes, ¬ IsRecord first l) → first + n ≤ 2 ^ 32)

theorem continues_iff (hm : Measured first bytes) (n : ℕ) : Continues first bytes n ↔
    (∀ e ∈ readable (kept first bytes), e.seq < (recover first bytes).next) ∧
      (recover first bytes).next + n ≤ 2 ^ 32 := by
  rcases (recovered_iff first bytes).mpr hm with ⟨ls, l, rest, hlast, hk, hnext⟩ |
    ⟨hnone, hk, hnext⟩
  · have hsome : ¬ ∀ m ∈ pieces bytes, ¬ IsRecord first m := fun h =>
      h l (by rw [hlast.split]; simp) hlast.record
    rw [hk, hnext]
    constructor
    · rintro ⟨hall, -⟩
      obtain ⟨hread, hfits⟩ := hall ls l rest hlast
      exact ⟨fun e he => Nat.lt_succ_iff.mpr (hread e he), hfits⟩
    · rintro ⟨hread, hfits⟩
      refine ⟨fun ls' l' rest' hlast' => ?_, fun h => absurd h hsome⟩
      obtain ⟨rfl, rfl, rfl⟩ := hlast.unique hlast'
      exact ⟨fun e he => Nat.lt_succ_iff.mp (hread e he), hfits⟩
  · rw [hk, hnext]
    constructor
    · exact fun h => ⟨fun e he => (by cases he), h.2 hnone⟩
    · exact fun h => ⟨fun ls l rest hlast =>
        absurd hlast.record (hnone l (by rw [hlast.split]; simp)), fun _ => h.2⟩

theorem Log.Same.appends {log' : Log} (h : log.Same log') : Appends log n ↔ Appends log' n := by
  have hpage : ∀ (boot : BitVec 32) (rs : List Rec) (boot' : BitVec 32) (cap max : ℕ),
      page (rs.foldl (·.write boot) log).dir boot' cap max =
        page (rs.foldl (·.write boot) log').dir boot' cap max := fun boot rs boot' cap max =>
    funext fun since =>
      page_perm (h.writes boot rs).distinct (h.writes boot rs).dir boot' cap max since
  simp only [Appends, hpage, h.next]

/-- The log resumes as it should exactly when recovery measured the file right and, where records
are appended, none of its lines has a number above theirs. -/
theorem resumes_iff (h : Left d first bytes) (n : ℕ) :
    Resumes d first bytes n ↔
      Measured first bytes ∧ (n = 0 ∨ Continues first bytes n) := by
  obtain ⟨d', hp, hs⟩ := exists_sorted h.distinct h.named
  obtain ⟨older, rfl⟩ := hs.newest (s := ⟨first, bytes⟩) (hp.mem_iff.mp h.mem)
    fun t ht => h.newest t (hp.mem_iff.mpr ht)
  have hchained : Chained (older ++ [⟨first, bytes⟩]) := fun s hs t ht =>
    h.chained s (hp.mem_iff.mpr hs) t (hp.mem_iff.mpr ht)
  have hsame := open_same h.distinct hp
  obtain ⟨hread, hnext⟩ := open_read hs
  have hpos := hs.pos (s := ⟨first, bytes⟩) (by simp)
  have hrecovered : (∃ k, (openLog d).dir.read first = some k ∧
      Recovered first bytes k (openLog d).next) ↔ Measured first bytes := by
    rw [← recovered_iff, read_perm hsame.distinct hsame.dir, hsame.next, hread, hnext]
    simp
  rw [Resumes, hrecovered, hsame.appends]
  refine and_congr_right fun hm => ?_
  have hbelow : ∀ e ∈ contents older, e.seq < first := by
    intro e he
    obtain ⟨s, hmem, hes⟩ := List.mem_flatMap.mp he
    have hlt := (List.pairwise_append.mp hs.ascending).2.2 s hmem ⟨first, bytes⟩ (by simp)
    exact hchained s (by simp [hmem]) ⟨first, bytes⟩ (by simp) hlt e hes
  obtain ⟨-, -, hle, hmax, -⟩ := hm.facts hpos.2
  rw [appends_iff (open_grown hs hchained hm) hpos.1 hle hmax hbelow, continues_iff hm]

theorem left_single (hname : segName first = true) : Left [⟨first, bytes⟩] first bytes := by
  refine ⟨?_, List.nodup_singleton _, List.mem_singleton_self _, ?_, ?_⟩
  · exact fun s hs => List.mem_singleton.mp hs ▸ hname
  · exact fun s hs => List.mem_singleton.mp hs ▸ le_rfl
  · intro s hs t ht hlt
    rw [List.mem_singleton.mp hs, List.mem_singleton.mp ht] at hlt
    exact absurd hlt (Nat.lt_irrefl _)

/-- One record. -/
def lone : List Byte := line 1 0 (linkRec 0)

theorem isRecord_lone : IsRecord 1 lone ∧ number lone = 1 := by decide

/-- Behind one record the power loss left the begin of a second. -/
theorem resumes_torn : Resumes [⟨1, lone ++ chars "\x7b\"seq\":2"⟩] 1
    (lone ++ chars "\x7b\"seq\":2") 1 := by
  have hlast : Last 1 (lone ++ chars "\x7b\"seq\":2") [] lone [chars "\x7b\"seq\":2"] :=
    ⟨by decide, isRecord_lone.1, by decide⟩
  refine (resumes_iff (left_single (by decide)) 1).mpr ⟨Or.inl ⟨[], lone, _, hlast, ?_⟩,
    Or.inr ⟨?_, ?_⟩⟩
  · exact Or.inr ⟨List.not_mem_nil, _, List.mem_singleton_self _, by decide⟩
  · intro ls l rest h
    obtain ⟨rfl, rfl, -⟩ := hlast.unique h
    exact ⟨by decide, by decide⟩
  · exact fun h => absurd isRecord_lone.1 (h lone (by rw [hlast.split]; simp))

/-- Behind one record it left a NUL, which stays in the file. -/
theorem nul_stays : Left [⟨1, lone ++ [0]⟩] 1 (lone ++ [0]) ∧
    ¬ Resumes [⟨1, lone ++ [0]⟩] 1 (lone ++ [0]) 1 := by
  refine ⟨left_single (by decide), ?_⟩
  rintro ⟨⟨k, hread, hrecovered⟩, -⟩
  have hsorted : Sorted ([] ++ [⟨1, lone ++ [0]⟩]) :=
    ⟨List.pairwise_singleton _ _, (left_single (by decide)).named⟩
  obtain ⟨hopen, hnext⟩ := open_read hsorted
  obtain rfl : kept 1 (lone ++ [0]) = k := Option.some.inj (hopen.symm.trans hread)
  have hlast : Last 1 (lone ++ [0]) [] lone [[0]] := ⟨by decide, isRecord_lone.1, by decide⟩
  rcases (recovered_iff 1 _).mp (hnext ▸ hrecovered) with ⟨ls, l, rest, h, hm⟩ | ⟨hnone, -⟩
  · obtain ⟨rfl, rfl, rfl⟩ := hlast.unique h
    rcases hm with ⟨hnil, -⟩ | ⟨-, m, hm, hseen⟩
    · exact absurd hnil (List.cons_ne_nil _ _)
    · rw [List.mem_singleton.mp hm] at hseen
      exact absurd hseen (by decide)
  · exact hnone lone (by rw [hlast.split]; simp) isRecord_lone.1

end OpenCalifornia.SdLog
