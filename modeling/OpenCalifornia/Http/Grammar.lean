import OpenCalifornia.Http.Parse

/-! # What is a request

The answer to a stream of bytes as a whole, and the streams that are answered with a request. -/

namespace OpenCalifornia.Http
open Lib Lib.Bits Lib.Buffer Lib.Crlf

/-- `METHOD SP /target SP HTTP/1.x`, with the target cut at its first `?`. -/
def IsRequestLine (line method path query : List Byte) : Prop :=
  0 ∉ line ∧ ∃ target version, line = method ++ 0x20 :: (target ++ 0x20 :: version) ∧
    method ≠ [] ∧ (∀ c ∈ method, isUpper c) ∧ target.head? = some 0x2F ∧ 0x20 ∉ target ∧
    (version = chars "HTTP/1.1" ∨ version = chars "HTTP/1.0") ∧
    (0x3F ∉ target ∧ path = target ∧ query = [] ∨ target = path ++ 0x3F :: query ∧ 0x3F ∉ path)

/-- Digits with blanks around them spell `n`. -/
def IsLength (s : List Byte) (n : ℕ) : Prop :=
  ∃ pre ds post, s = pre ++ (ds ++ post) ∧ (∀ c ∈ pre, isBlank c) ∧ ds ≠ [] ∧
    (∀ c ∈ ds, isDigit c) ∧ (∀ c ∈ post, isBlank c) ∧ n = number 0 ds

/-- No Transfer-Encoding, and no Content-Length or a single one that is valid. -/
def Framed (headers : List (List Byte)) (n : ℕ) : Prop :=
  (∀ l ∈ headers, ¬ named (chars "transfer-encoding:") l) ∧
    (headers.filter (named (chars "content-length:")) = [] ∧ n = 0 ∨
      ∃ l, headers.filter (named (chars "content-length:")) = [l] ∧ IsLength (l.drop 15) n)

/-- The stream begins with the request `r`. -/
def Accepts (stream : List Byte) (r : Req) : Prop :=
  ∃ line headers rest, stream = unlines (line :: headers) ++ crlf ++ (r.body ++ rest) ∧
    Free line ∧ (∀ l ∈ headers, Free l ∧ l ≠ []) ∧
    IsRequestLine line r.method r.path r.query ∧ Framed headers r.body.length ∧
    (unlines (line :: headers) ++ crlf ++ r.body).length ≤ reqMax ∧
    r.ifNoneMatch = noneMatch headers

/-- The answer to all that a peer sends, `none` while it is not decided. -/
def verdict (stream : List Byte) : Option Answer :=
  match headEnd (stream.take reqMax) with
  | none => if reqMax ≤ stream.length then some (.error 431) else none
  | some headLen =>
    match lines (stream.take (headLen - 4)) with
    | [] => none
    | line :: headers =>
      match framing headers 0 false with
      | none => some (.error 400)
      | some n =>
        if reqMax < headLen + n then some (.error 413)
        else if stream.length < headLen + n then none
        else some (answerOf line headers ((stream.drop headLen).take n))

variable {line method path query s : List Byte} {headers : List (List Byte)} {n m : ℕ}

theorem requestLine_iff :
    requestLine line = some (method, path, query) ↔ IsRequestLine line method path query := by
  constructor
  · intro h
    rw [requestLine] at h
    split_ifs at h with hnul
    cases hcut : Text.cut 0x20 line with
    | none =>
      rw [hcut] at h
      cases h
    | some mt =>
      obtain ⟨m, t⟩ := mt
      obtain ⟨hline, -⟩ := Text.cut_iff.mp hcut
      simp only [hcut] at h
      split_ifs at h with hbad
      rw [not_or, not_not, List.all_eq_true] at hbad
      cases hcut' : Text.cut 0x20 t with
      | none =>
        rw [hcut'] at h
        cases h
      | some tv =>
        obtain ⟨target, version⟩ := tv
        obtain ⟨ht, hsp⟩ := Text.cut_iff.mp hcut'
        simp only [hcut'] at h
        split_ifs at h with hbad'
        rw [not_or, not_not, not_and_or, not_not, not_not] at hbad'
        have hsplit : m = method ∧ (0x3F ∉ target ∧ path = target ∧ query = [] ∨
            target = path ++ 0x3F :: query ∧ 0x3F ∉ path) := by
          cases hq : Text.cut 0x3F target with
          | none =>
            rw [hq] at h
            cases h
            exact ⟨rfl, Or.inl ⟨Text.cut_eq_none.mp hq, rfl, rfl⟩⟩
          | some pq =>
            rw [hq] at h
            cases h
            exact ⟨rfl, Or.inr (Text.cut_iff.mp hq)⟩
        obtain ⟨rfl, htarget⟩ := hsplit
        exact ⟨hnul, target, version, by rw [hline, ht], hbad.1, hbad.2, hbad'.1, hsp, hbad'.2,
          htarget⟩
  · rintro ⟨hnul, target, version, rfl, hm, hupper, hslash, hsp, hversion, htarget⟩
    have hmsp : (0x20 : Byte) ∉ method := fun hc => absurd (hupper _ hc) (by decide)
    have hcut : Text.cut 0x20 (method ++ 0x20 :: (target ++ 0x20 :: version)) =
        some (method, target ++ 0x20 :: version) := Text.cut_iff.mpr ⟨rfl, hmsp⟩
    have hcut' : Text.cut 0x20 (target ++ 0x20 :: version) = some (target, version) :=
      Text.cut_iff.mpr ⟨rfl, hsp⟩
    have hgood : ¬ (method = [] ∨ ¬ method.all isUpper) := by
      rw [not_or, not_not, List.all_eq_true]
      exact ⟨hm, hupper⟩
    have hgood' : ¬ (target.head? ≠ some 0x2F ∨
        version ≠ chars "HTTP/1.1" ∧ version ≠ chars "HTTP/1.0") := by
      rw [not_or, not_not, not_and_or, not_not, not_not]
      exact ⟨hslash, hversion⟩
    rw [requestLine, if_neg hnul, hcut]
    simp only [if_neg hgood, hcut', if_neg hgood']
    cases htarget with
    | inl hnone =>
      obtain ⟨hq, rfl, rfl⟩ := hnone
      rw [Text.cut_eq_none.mpr hq]
    | inr hsome => rw [Text.cut_iff.mpr hsome]

theorem blank_not_digit {c : Byte} (h : isBlank c) : ¬ isDigit c := by
  rw [isBlank, decide_eq_true_eq] at h
  rcases h with rfl | rfl <;> decide

theorem lengthValue_iff : lengthValue s = some n ↔ IsLength s n := by
  constructor
  · intro h
    rw [lengthValue] at h
    split_ifs at h with hbad
    rw [not_or, not_not] at hbad
    refine ⟨s.takeWhile isBlank, (s.dropWhile isBlank).takeWhile isDigit,
      (s.dropWhile isBlank).dropWhile isDigit, ?_, fun c => List.mem_takeWhile_imp, hbad.1,
      fun c => List.mem_takeWhile_imp, List.dropWhile_eq_nil_iff.mp hbad.2,
        (Option.some.inj h).symm⟩
    rw [List.takeWhile_append_dropWhile, List.takeWhile_append_dropWhile]
  · rintro ⟨pre, ds, post, rfl, hpre, hds, hdigit, hpost, rfl⟩
    have hskip : (pre ++ (ds ++ post)).dropWhile isBlank = ds ++ post := by
      rw [List.dropWhile_append_of_pos hpre]
      cases ds with
      | nil => exact absurd rfl hds
      | cons d ds =>
        have hd : ¬ isBlank d := fun hb => blank_not_digit hb (hdigit d List.mem_cons_self)
        rw [List.cons_append, List.dropWhile_cons_of_neg hd]
    have hblank : post.takeWhile isDigit = [] ∧ post.dropWhile isDigit = post := by
      cases post with
      | nil => exact ⟨rfl, rfl⟩
      | cons c post =>
        have hc := blank_not_digit (hpost c List.mem_cons_self)
        exact ⟨List.takeWhile_cons_of_neg hc, List.dropWhile_cons_of_neg hc⟩
    have hnum : (ds ++ post).takeWhile isDigit = ds := by
      rw [List.takeWhile_append_of_pos hdigit, hblank.1, List.append_nil]
    have hrest : (ds ++ post).dropWhile isDigit = post := by
      rw [List.dropWhile_append_of_pos hdigit, hblank.2]
    rw [lengthValue, hskip, hnum, hrest, if_neg]
    rw [not_or, not_not, List.dropWhile_eq_nil_iff]
    exact ⟨hds, hpost⟩

theorem framing_seen :
    framing headers n true = some m ↔ (∀ l ∈ headers, ¬ named (chars "transfer-encoding:") l) ∧
      headers.filter (named (chars "content-length:")) = [] ∧ n = m := by
  induction headers with
  | nil =>
    exact ⟨fun h => ⟨fun _ hl => (by cases hl), rfl, Option.some.inj h⟩,
      fun h => congrArg some h.2.2⟩
  | cons l ls ih =>
    rw [framing, List.forall_mem_cons]
    by_cases hte : named (chars "transfer-encoding:") l
    · rw [if_pos hte]
      exact ⟨fun h => (by cases h), fun h => absurd hte h.1.1⟩
    · rw [if_neg hte]
      by_cases hcl : named (chars "content-length:") l
      · rw [if_pos hcl, List.filter_cons_of_pos hcl]
        exact ⟨fun h => (by cases h), fun h => (by cases h.2.1)⟩
      · rw [if_neg hcl, ih, List.filter_cons_of_neg hcl, and_iff_right hte]

theorem framing_iff : framing headers 0 false = some n ↔ Framed headers n := by
  induction headers with
  | nil =>
    constructor
    · intro h
      exact ⟨fun _ hl => (by cases hl), Or.inl ⟨rfl, (Option.some.inj h).symm⟩⟩
    · rintro ⟨-, ⟨-, rfl⟩ | ⟨l, hl, -⟩⟩
      · rfl
      · cases hl
  | cons l ls ih =>
    rw [framing, Framed, List.forall_mem_cons]
    by_cases hte : named (chars "transfer-encoding:") l
    · rw [if_pos hte]
      exact ⟨fun h => (by cases h), fun h => absurd hte h.1.1⟩
    · rw [if_neg hte, and_iff_right hte]
      by_cases hcl : named (chars "content-length:") l
      · rw [if_pos hcl, if_neg (by decide), List.filter_cons_of_pos hcl, Option.bind_eq_some_iff]
        constructor
        · rintro ⟨k, hk, hls⟩
          obtain ⟨hrest, hnone, rfl⟩ := framing_seen.mp hls
          exact ⟨hrest, Or.inr ⟨l, by rw [hnone], lengthValue_iff.mp hk⟩⟩
        · rintro ⟨hrest, ⟨hnil, -⟩ | ⟨l', hl', hk⟩⟩
          · cases hnil
          · obtain ⟨rfl, hnone⟩ := List.cons.inj hl'
            exact ⟨n, lengthValue_iff.mpr hk, framing_seen.mpr ⟨hrest, hnone, rfl⟩⟩
      · rw [if_neg hcl, ih, List.filter_cons_of_neg hcl]
        rfl

variable {stream : List Byte} {r : Req}

theorem answerOf_eq {body : List Byte} : answerOf line headers body = .request r ↔
    IsRequestLine line r.method r.path r.query ∧ r.ifNoneMatch = noneMatch headers ∧
      r.body = body := by
  rw [← requestLine_iff, answerOf]
  cases hreq : requestLine line with
  | none => exact ⟨fun h => (by cases h), fun h => (by cases h.1)⟩
  | some mpq =>
    obtain ⟨method, path, query⟩ := mpq
    obtain ⟨method', path', query', inm, body'⟩ := r
    simp only [Answer.request.injEq, Req.mk.injEq, Option.some.injEq, Prod.mk.injEq]
    exact ⟨fun h => ⟨⟨h.1, h.2.1, h.2.2.1⟩, h.2.2.2.1.symm, h.2.2.2.2.symm⟩,
      fun h => ⟨h.1.1, h.1.2.1, h.1.2.2, h.2.1.symm, h.2.2.symm⟩⟩

theorem headEnd_take_iff {h k : ℕ} :
    headEnd (stream.take k) = some h ↔ headEnd stream = some h ∧ h ≤ k := by
  constructor
  · intro hh
    have hle := (headEnd_bounds hh).2
    rw [List.length_take] at hle
    have happ := headEnd_append hh (stream.drop k)
    rw [List.take_append_drop] at happ
    exact ⟨happ, by omega⟩
  · exact fun hh => headEnd_take hh.1 hh.2

theorem verdict_eq_request : verdict stream = some (.request r) ↔ Accepts stream r := by
  constructor
  · intro h
    rw [verdict] at h
    cases hhead : headEnd (stream.take reqMax) with
    | none =>
      simp only [hhead] at h
      split_ifs at h
      cases h
    | some headLen =>
      obtain ⟨hend, -⟩ := headEnd_take_iff.mp hhead
      obtain ⟨line, headers, hlines, hsplit, hlen, hline, hheaders⟩ := lines_of_headEnd hend
      simp only [hhead, hlines] at h
      cases hn : framing headers 0 false with
      | none => simp [hn] at h
      | some n =>
        simp only [hn] at h
        have hmax : ¬ reqMax < headLen + n := fun hgt => by
          rw [if_pos hgt] at h
          cases h
        rw [if_neg hmax] at h
        have hshort : ¬ stream.length < headLen + n := fun hlt => by
          rw [if_pos hlt] at h
          cases h
        rw [if_neg hshort] at h
        obtain ⟨hreq, hinm, hbody⟩ := answerOf_eq.mp (Option.some.inj h)
        have hblen : r.body.length = n := by
          rw [hbody, List.length_take, List.length_drop]
          omega
        refine ⟨line, headers, stream.drop (headLen + n), ?_, hline, hheaders, hreq,
          hblen ▸ framing_iff.mp hn, ?_, hinm⟩
        · rw [hbody, ← List.drop_drop, List.take_append_drop]
          exact hsplit
        · rw [List.length_append, List.length_append, show crlf.length = 2 from rfl]
          omega
  · rintro ⟨line, headers, rest, hsplit, hline, hheaders, hreq, hframed, hmax, hinm⟩
    obtain ⟨hend, hlines⟩ := headEnd_of_lines hline hheaders hsplit
    rw [List.length_append, List.length_append, show crlf.length = 2 from rfl] at hmax
    have hlen : stream.length = (unlines (line :: headers)).length + 2 + r.body.length +
        rest.length := by
      rw [hsplit]
      simp only [List.length_append, show crlf.length = 2 from rfl]
      omega
    have hdrop : stream.drop ((unlines (line :: headers)).length + 2) = r.body ++ rest := by
      rw [hsplit]
      exact List.drop_left' (by rw [List.length_append]; rfl)
    have hbody : (stream.drop ((unlines (line :: headers)).length + 2)).take r.body.length =
        r.body := by
      rw [hdrop]
      exact List.take_left' rfl
    rw [verdict, headEnd_take_iff.mpr ⟨hend, by omega⟩]
    simp only [hlines, framing_iff.mpr hframed]
    rw [if_neg (by omega), if_neg (by omega), hbody, answerOf_eq.mpr ⟨hreq, hinm, rfl⟩]

end OpenCalifornia.Http
