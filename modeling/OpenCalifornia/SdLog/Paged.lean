import OpenCalifornia.SdLog.Files

/-! # Paging through the log

Page by page a reader gets every complete record above its number, and is told how many were
deleted, unless it starts at the highest number of all. -/

namespace OpenCalifornia.SdLog
open Lib Lib.Bits Lib.Paging

variable {d pre post : Dir} {n since cap max k : ℕ} {torn : List Byte} {lines : List (List Byte)}
  {closed : List (List (List Byte))} {log : Log} {gone : List ℕ} {boot : BitVec 32}
  {p : Page Entry ℕ} {ps : List (Page Entry ℕ)}

theorem numbered_sorted (n : ℕ) (lines : List (List Byte)) :
    (numbered n lines).Pairwise (·.seq < ·.seq) := by
  induction lines generalizing n with
  | nil => exact List.Pairwise.nil
  | cons l lines ih => exact List.pairwise_cons.mpr ⟨fun e he => (numbered_bounds he).1, ih (n + 1)⟩

theorem Shape.page (h : Shape n closed lines torn) (boot : BitVec 32) (max : ℕ)
    (hcap : pageMin ≤ cap) (hsince : since ≤ uint32Max) :
    ∃ p, SdLog.page (files n closed lines torn) boot cap max since = some p ∧
      p.Of Entry.seq since
        ((numbered n (closed.flatten ++ lines)).filter (since < ·.seq)) ∧
      p.info = if since < uint32Max then n - (since + 1) else n := by
  obtain ⟨p, post, ⟨pre, hdir, hstart⟩, hp, hof, hinfo, -⟩ := page_of h.sorted boot max hcap hsince
  refine ⟨p, hp, ?_, ?_⟩
  · have hpre : ∀ e ∈ contents pre, e.seq ≤ since := by
      intro e he
      obtain ⟨s, hs, hes⟩ := List.mem_flatMap.mp he
      obtain ⟨t, rest, rfl, ht⟩ := hstart (List.ne_nil_of_mem hs)
      have hbelow := h.below
      rw [hdir] at hbelow
      have hlt := ((List.pairwise_append.mp hbelow).2.2 s hs t List.mem_cons_self).2 e hes
      omega
    rw [← climb_eq_filter (numbered_sorted _ _), ← h.holds, hdir, contents_append, climb_skip hpre]
    exact hof
  · have hhead : ((files n closed lines torn).head?.map Seg.first).getD 0 = n := by
      cases closed with
      | nil => rfl
      | cons ls closed => rfl
    rw [hinfo, hhead]

/-- All that a reader gets: each complete record above `since` once and in order, and how many
numbers above it are in deleted segments; and a page after which there is more brings it forward. -/
def Pages (d : Dir) (gone : List ℕ) (boot : BitVec 32) (cap max since : ℕ) : Prop :=
  (∃ ps, Run (page d boot cap max) since ps ∧
    (ps.flatMap Page.items).Pairwise (·.seq < ·.seq) ∧
    (∀ e, e ∈ ps.flatMap Page.items ↔ e ∈ stored d ∧ since < e.seq) ∧
    (ps.map Page.info).sum = (gone.filter (since < ·)).length) ∧
  ∀ m p, m ≤ uint32Max → page d boot cap max m = some p → p.more = true → m < p.next

theorem length_gone (m since : ℕ) :
    ((List.range' 1 m).filter (since < ·)).length = m - since := by
  induction m with
  | zero => exact (Nat.zero_sub since).symm
  | succ m ih =>
    rw [List.range'_1_concat, List.filter_append, List.length_append, ih]
    by_cases hlt : since < 1 + m
    · rw [List.filter_cons_of_pos (by simpa using hlt)]
      simp only [List.filter_nil, List.length_cons, List.length_nil]
      omega
    · rw [List.filter_cons_of_neg (by simpa using hlt)]
      simp only [List.filter_nil, List.length_nil]
      omega

theorem Shape.le_max (h : Shape n closed lines torn) {e : Entry}
    (he : e ∈ numbered n (closed.flatten ++ lines)) : e.seq ≤ uint32Max := by
  rw [← h.holds] at he
  exact (length_of_mem_contents he).2

theorem Shape.lost (h : Shape n closed lines torn) (hcap : pageMin ≤ cap)
    (hrun : Run (SdLog.page (files n closed lines torn) boot cap max) since ps)
    (hsince : since < uint32Max) : (ps.map Page.info).sum = n - (since + 1) := by
  induction hrun with
  | last hp hmore =>
    obtain ⟨q, hq, -, hinfo⟩ := h.page boot max hcap hsince.le
    obtain rfl := Option.some.inj (hq.symm.trans hp)
    rw [List.map_singleton, List.sum_singleton, hinfo, if_pos hsince]
  | @more since q ps hp hmore hps ih =>
    obtain ⟨q, hq, hof, hinfo⟩ := h.page boot max hcap hsince.le
    obtain rfl := Option.some.inj (hq.symm.trans hp)
    have habove : ∀ e ∈ (numbered n (closed.flatten ++ lines)).filter (since < ·.seq),
        since < e.seq := fun e he => of_decide_eq_true (List.mem_filter.mp he).2
    obtain ⟨e, he, hlt⟩ := hof.next_lt habove ((numbered_sorted _ _).filter _) hmore
    have hle := h.le_max (List.mem_filter.mp he).1
    obtain ⟨b, hb⟩ := List.exists_mem_of_ne_nil _ (hof.progress (List.ne_nil_of_mem he))
    have hnb := (numbered_bounds (List.mem_filter.mp (hof.items.subset hb)).1).1
    have htop : b.seq ≤ q.next := hof.next ▸ key_le_top _ hb
    rw [List.map_cons, List.sum_cons, ih (by omega), hinfo, if_pos hsince]
    omega

theorem Shape.paged_iff (h : Shape n closed lines torn) (hgone : gone.Perm (List.range' 1 (n - 1)))
    (boot : BitVec 32) (cap max : ℕ) (hsince : since ≤ uint32Max) :
    Pages (files n closed lines torn) gone boot cap max since ↔
      pageMin ≤ cap ∧ since < uint32Max := by
  have hfirst := h.first
  have hnamed := h.named
  have hcount : (gone.filter (since < ·)).length = n - (since + 1) := by
    rw [(hgone.filter _).length_eq, length_gone]
    omega
  constructor
  · rintro ⟨⟨ps, hrun, -, -, hsum⟩, -⟩
    have hcap : pageMin ≤ cap := by
      by_contra hshort
      have hnone : ∀ since, SdLog.page (files n closed lines torn) boot cap max since = none :=
        fun since => if_pos (by omega)
      cases hrun with
      | last hp => cases (hnone since).symm.trans hp
      | more hp => cases (hnone since).symm.trans hp
    refine ⟨hcap, ?_⟩
    by_contra hlast
    obtain ⟨p, hp, hof, hinfo⟩ := h.page boot max hcap hsince
    have hnil : (numbered n (closed.flatten ++ lines)).filter (since < ·.seq) = [] := by
      refine List.filter_eq_nil_iff.mpr fun e he => ?_
      have hle := h.le_max he
      simp
      omega
    have hmore : p.more = false := by
      rw [hnil] at hof
      refine Bool.eq_false_iff.mpr fun htrue => hof.more.mp htrue ?_
      exact List.prefix_nil.mp hof.items
    cases hrun with
    | last hp' =>
      obtain rfl := Option.some.inj (hp.symm.trans hp')
      rw [List.map_singleton, List.sum_singleton, hinfo, if_neg hlast, hcount] at hsum
      omega
    | more hp' hmore' =>
      obtain rfl := Option.some.inj (hp.symm.trans hp')
      cases hmore.symm.trans hmore'
  · rintro ⟨hcap, hlt⟩
    obtain ⟨ps, hrun, hitems⟩ := exists_run (numbered_sorted n (closed.flatten ++ lines))
      (fun e he => h.le_max he)
      (fun m hm => (h.page boot max hcap hm).imp fun p hp => ⟨hp.1, hp.2.1⟩) hsince
    refine ⟨⟨ps, hrun, ?_, fun e => ?_, ?_⟩, fun m p hm hp hmore => ?_⟩
    · rw [hitems]
      exact (numbered_sorted _ _).filter _
    · rw [hitems, h.stores, List.mem_filter, decide_eq_true_eq]
    · rw [h.lost hcap hrun hlt, hcount]
    · obtain ⟨q, hq, hof, -⟩ := h.page boot max hcap hm
      obtain rfl := Option.some.inj (hq.symm.trans hp)
      exact hof.lt_next (fun e he => of_decide_eq_true (List.mem_filter.mp he).2) hmore

theorem Written.paged_iff (h : Written log gone) (k : ℕ) (boot : BitVec 32) (cap max : ℕ)
    (hsince : since ≤ uint32Max) :
    Pages (log.seen k) gone boot cap max since ↔ pageMin ≤ cap ∧ since < uint32Max := by
  obtain ⟨n, closed, lines, hshape, hsame, hgone⟩ := h
  obtain ⟨lines', torn, hseen, hfiles⟩ := hshape.seen k
  have hp : (log.seen k).Perm (files n closed lines' torn) := by
    rw [← hfiles, Log.seen, Log.seen, hsame.segFirst]
    exact edit_perm hsame.dir _ _
  have hpage : SdLog.page (log.seen k) boot cap max =
      SdLog.page (files n closed lines' torn) boot cap max := funext fun since =>
    page_perm (hsame.distinct.edit _ _) hp boot cap max since
  rw [← hseen.paged_iff hgone boot cap max hsince, Pages, Pages, hpage]
  simp only [(stored_perm hp).mem_iff]

/-- Of all that the logger may have left on the card, the reader gets what it should exactly when
its buffer has room for a page and there is a number above its own. -/
theorem pages_iff (h : Reachable log gone) (k : ℕ) (boot : BitVec 32) (cap max : ℕ)
    (hsince : since ≤ uint32Max) :
    Pages (log.seen k) gone boot cap max since ↔ pageMin ≤ cap ∧ since < uint32Max :=
  h.written.paged_iff k boot cap max hsince

theorem Lines.length_le (h : Lines n lines) : lines.length ≤ lines.flatten.length := by
  induction lines generalizing n with
  | nil => exact Nat.zero_le _
  | cons l lines ih =>
    obtain ⟨⟨body, rfl, -⟩, hrest⟩ := h
    have hle := ih hrest
    simp only [List.length_cons, List.flatten_cons, List.length_append]
    omega

theorem length_numbered (n : ℕ) (lines : List (List Byte)) :
    (numbered n lines).length = lines.length := by
  induction lines generalizing n with
  | nil => rfl
  | cons l lines ih => rw [numbered, List.length_cons, List.length_cons, ih]

theorem reachable_connects {m : ℕ} (hm : m < uint32Max) : ∃ closed lines, Shape 1 closed lines [] ∧
    Reachable (logOf 1 closed lines) [] ∧ Small closed lines ∧
    closed.flatten.length + lines.length = m := by
  induction m with
  | zero =>
    refine ⟨[], [], ⟨le_rfl, fun ls hls => (by cases hls), trivial, by decide, by decide,
      List.not_mem_nil, List.not_mem_nil⟩, Reachable.start, fun ls hls => ?_, rfl⟩
    rw [List.mem_singleton.mp hls]
    exact Nat.zero_le _
  | succ m ih =>
    obtain ⟨closed, lines, hshape, hreach, hsmall, hlen⟩ := ih (Nat.lt_of_succ_lt hm)
    have hnext : (logOf 1 closed lines).next ≠ 0 := by
      have hnumber : (1 + closed.flatten.length + lines.length) % 2 ^ 32 = 1 + m := by
        rw [Nat.add_assoc, hlen]
        exact Nat.mod_eq_of_lt (by rw [uint32Max] at hm; omega)
      exact fun hzero => absurd (hnumber.symm.trans hzero) (by omega)
    obtain ⟨closed', lines', hshape', heq, hlen', hkept⟩ := hshape.write hnext 0 (linkRec 0)
    exact ⟨closed', lines', hshape', heq ▸ hreach.write 0 (linkRec 0) hnext, hkept hsmall,
      by rw [hlen', hlen]⟩

theorem Shape.length_closed (h : Shape n closed lines []) (hsmall : Small closed lines) :
    closed.flatten.length ≤ closed.length * segmentBytes := by
  have hlines := ((lines_append _ _ _).mp h.numbers).1
  have hle : ∀ ls ∈ closed, ls.flatten.length ≤ segmentBytes := fun ls hls =>
    hsmall ls (List.mem_append_left _ hls)
  clear h hsmall
  induction closed generalizing n with
  | nil => exact Nat.zero_le _
  | cons ls closed ih =>
    obtain ⟨hfull, hrest⟩ := List.forall_mem_cons.mp hle
    rw [List.flatten_cons, lines_append] at hlines
    have hhead := hlines.1.length_le
    have htail := ih hlines.2 hrest
    rw [List.flatten_cons, List.length_append, List.length_cons, Nat.succ_mul]
    omega

theorem Shape.seen_all (h : Shape n closed lines []) (hsmall : Small closed lines) :
    (logOf n closed lines).seen segmentBytes = files n closed lines [] := by
  have hall := hsmall lines (List.mem_append_right _ (List.mem_singleton_self _))
  refine (edit_eq h.sorted (·.take segmentBytes)).trans ?_
  dsimp only
  rw [List.append_nil, List.take_of_length_le hall, files, List.append_nil]

/-- Two segments of connects are full, the older one is deleted, and the reader asks for the other
two a record a page. -/
theorem pages_segments : ∃ log gone p, Reachable log gone ∧ gone ≠ [] ∧ 2 ≤ log.dir.length ∧
    page (log.seen segmentBytes) 0 pageMin 1 0 = some p ∧ p.more = true ∧
    Pages (log.seen segmentBytes) gone 0 pageMin 1 0 := by
  obtain ⟨closed, lines, hshape, hreach, hsmall, hlen⟩ :=
    @reachable_connects (3 * segmentBytes) (by decide)
  have hclosed := hshape.length_closed hsmall
  have hopen := ((lines_append _ _ _).mp hshape.numbers).2.length_le.trans
    (hsmall lines (List.mem_append_right _ (List.mem_singleton_self _)))
  have htwo : 2 ≤ closed.length := by
    by_contra hfew
    have hmul : closed.length * segmentBytes ≤ 1 * segmentBytes :=
      Nat.mul_le_mul_right _ (by omega)
    have hpos : 0 < segmentBytes := by decide
    omega
  obtain ⟨rfl, -⟩ | ⟨ls, rest, rfl, hshape', heq⟩ := hshape.delete
  · exact absurd htwo (by decide)
  have hsmall' : Small rest lines := fun ls' hls => hsmall ls' (List.mem_cons_of_mem _ hls)
  have hdelete := hreach.delete
  rw [heq] at hdelete
  have hgone : [] ++ missing (logOf 1 (ls :: rest) lines).dir
      (logOf (1 + ls.length) rest lines).dir =
      List.range' 1 ls.length := missing_head hshape
  rw [hgone] at hdelete
  have hls : ls ≠ [] := hshape.full ls List.mem_cons_self
  have hrest : 2 ≤ (rest.flatten ++ lines).length := by
    have hhead := ((lines_append _ _ _).mp hshape.numbers).1
    rw [List.flatten_cons, lines_append] at hhead
    have hle := hhead.1.length_le.trans (hsmall ls List.mem_cons_self)
    have hpos : 2 ≤ segmentBytes := by decide
    rw [List.flatten_cons, List.length_append] at hlen
    rw [List.length_append]
    omega
  have hpages := (pages_iff hdelete segmentBytes 0 pageMin 1 (Nat.zero_le _)).mpr
    ⟨le_rfl, by decide⟩
  rw [hshape'.seen_all hsmall'] at hpages
  obtain ⟨p, hp, hof, -⟩ := hshape'.page 0 1 (le_refl pageMin) (Nat.zero_le uint32Max)
  refine ⟨_, _, p, hdelete, ?_, ?_, ?_, ?_, ?_⟩
  · exact fun hnil => hls (List.length_eq_zero_iff.mp (by simpa using congrArg List.length hnil))
  · cases rest with
    | nil => exact absurd htwo (Nat.lt_irrefl 1)
    | cons ls' rest =>
      rw [logOf, files, segments, List.length_append, List.length_cons, List.length_singleton]
      omega
  · rw [hshape'.seen_all hsmall']
    exact hp
  · refine hof.more.mpr fun hall => ?_
    have hone := page_items_le Nat.one_ne_zero hp
    have hevery : (numbered (1 + ls.length) (rest.flatten ++ lines)).filter (0 < ·.seq) =
        numbered (1 + ls.length) (rest.flatten ++ lines) :=
      List.filter_eq_self.mpr fun e he => decide_eq_true (by
        have hbounds := (numbered_bounds he).1
        omega)
    rw [hall, hevery, length_numbered] at hone
    omega
  · rw [hshape'.seen_all hsmall']
    exact hpages

/-- The first record on an empty card. -/
def firstLog : Log := (openLog []).write 0 (linkRec 0)

theorem reachable_firstLog : Reachable firstLog [] :=
  Reachable.start.write 0 (linkRec 0) (by decide)

/-- A reader that has all numbers is told that one was deleted. -/
theorem lost_at_max : ¬ Pages (firstLog.seen 1000) [] 0 pageMin 0 (2 ^ 32 - 1) := fun h =>
  absurd ((reachable_firstLog.written.paged_iff 1000 0 pageMin 0 le_rfl).mp h).2 (Nat.lt_irrefl _)

end OpenCalifornia.SdLog
