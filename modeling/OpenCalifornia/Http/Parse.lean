import OpenCalifornia.Lib.Buffer
import OpenCalifornia.Lib.Crlf
import OpenCalifornia.Lib.Text

/-! # The head of a request

`http_core.c` reads a request in the buffer it was received in, byte by byte, and cuts it into
strings by writing NULs over what separates them. `none` is an access outside the buffer. -/

namespace OpenCalifornia.Http
open Lib Lib.Bits Lib.Buffer Lib.Crlf

/-- `NET_HTTP_REQ_MAX`. The buffer has one byte more. -/
def reqMax : ℕ := 2048

/-- `n` positions are left from `i` on. -/
def findHeadEnd (b : List Byte) : ℕ → ℕ → Option ℕ
  | 0, _ => some 0
  | n + 1, i => do
    if ← memcmp b i (crlf ++ crlf) then some (i + 4) else findHeadEnd b n (i + 1)

def lower (c : Byte) : Byte := if 0x41 ≤ c.toNat ∧ c.toNat ≤ 0x5A then c + 0x20 else c

/-- 0 for another header. -/
def headerValue (b : List Byte) (eol : ℕ) : ℕ → List Byte → Option ℕ
  | i, [] => some i
  | i, c :: name =>
    if i < eol then do
      let d ← b[i]?
      if lower d = c then headerValue b eol (i + 1) name else some 0
    else some 0

def isBlank (c : Byte) : Bool := c = 0x20 ∨ c = 0x09

def isDigit (c : Byte) : Bool := 0x30 ≤ c.toNat ∧ c.toNat ≤ 0x39

def isUpper (c : Byte) : Bool := 0x41 ≤ c.toNat ∧ c.toNat ≤ 0x5A

/-- `while (eol + 1 < to && no CRLF at eol) eol++`, where `n` is what is left up to `to - 1`. -/
def lineEnd (b : List Byte) : ℕ → ℕ → Option ℕ
  | 0, eol => some eol
  | n + 1, eol => do
    let c ← b[eol]?
    let d ← b[eol + 1]?
    if c = 0x0D ∧ d = 0x0A then some eol else lineEnd b n (eol + 1)

/-- The digits of a Content-Length: where they end and their value, which saturates. -/
def digits (b : List Byte) : ℕ → ℕ → ℕ → Option (ℕ × ℕ)
  | 0, i, v => some (i, v)
  | n + 1, i, v => do
    let c ← b[i]?
    if isDigit c then digits b n (i + 1) (if v ≤ reqMax then v * 10 + (c.toNat - 0x30) else v)
    else some (i, v)

/-- `some none` is the -1. The first argument bounds the header lines. -/
def contentLength (b : List Byte) (stop : ℕ) : ℕ → ℕ → ℕ → Bool → Option (Option ℕ)
  | 0, _, _, _ => none
  | n + 1, start, v, seen =>
    if start < stop then do
      let eol ← lineEnd b (stop - 1 - start) start
      let te ← headerValue b eol start (chars "transfer-encoding:")
      if te ≠ 0 then some none
      else do
        let i ← headerValue b eol start (chars "content-length:")
        if i = 0 then contentLength b stop n (eol + 2) v seen
        else if seen then some none
        else do
          let i ← skip isBlank b (eol - i) i
          let (k, v) ← digits b (eol - i) i v
          let e ← skip isBlank b (eol - k) k
          if k = i ∨ e ≠ eol then some none else contentLength b stop n (eol + 2) v true
    else some (some v)

/-- Where the value starts, and the buffer with the NUL at its end. -/
def ifNoneMatch (b : List Byte) (stop : ℕ) : ℕ → ℕ → Option (Option ℕ × List Byte)
  | 0, _ => none
  | n + 1, start =>
    if start < stop then do
      let eol ← lineEnd b (stop - 1 - start) start
      let i ← headerValue b eol start (chars "if-none-match:")
      if i = 0 then ifNoneMatch b stop n (eol + 2)
      else do
        let i ← skip isBlank b (eol - i) i
        let b ← store b eol 0
        some (some i, b)
    else some (none, b)

/-- The pointers into the buffer that a request starts with; no query is `""`. -/
structure Views where
  method : ℕ
  path : ℕ
  query : Option ℕ

/-- `some none` is the -1. -/
def parseRequestLine (b : List Byte) (eol : ℕ) : Option (Option (Views × List Byte)) := do
  if ← memchr b 0 0 eol then some none
  else do
    let b ← store b eol 0
    match ← strchr b 0 0x20 with
    | none => some none
    | some sp1 => do
      let q ← skip isUpper b sp1 0
      if sp1 = 0 ∨ q < sp1 then some none
      else do
        match ← strchr b (sp1 + 1) 0x20 with
        | none => some none
        | some sp2 => do
          let first ← b[sp1 + 1]?
          let version ← cstr b (sp2 + 1)
          if first ≠ 0x2F ∨ version ≠ chars "HTTP/1.1" ∧ version ≠ chars "HTTP/1.0" then some none
          else do
            let b ← store b sp1 0
            let b ← store b sp2 0
            match ← strchr b (sp1 + 1) 0x3F with
            | none => some (some (⟨0, sp1 + 1, none⟩, b))
            | some q => do
              let b ← store b q 0
              some (some (⟨0, sp1 + 1, some (q + 1)⟩, b))

/-- `while (memcmp(buf + i, "\r\n", 2) != 0) i++` -/
def requestLineEnd (b : List Byte) : ℕ → ℕ → Option ℕ
  | 0, _ => none
  | n + 1, i => do
    if ← memcmp b i crlf then some i else requestLineEnd b n (i + 1)

/-- `cali_http_req_t` as the handler reads it. -/
structure Req where
  method : List Byte
  path : List Byte
  query : List Byte
  ifNoneMatch : Option (List Byte)
  body : List Byte
deriving DecidableEq

inductive Answer
  | request (req : Req)
  | error (status : ℕ)
deriving DecidableEq

/-- The request is read through its pointers once the buffer has all its NULs. -/
def dispatch (b : List Byte) (headLen bodyLen : ℕ) : Option Answer := do
  let eol ← requestLineEnd b b.length 0
  let (inm, b) ← ifNoneMatch b (headLen - 2) b.length (eol + 2)
  match ← parseRequestLine b eol with
  | none => some (.error 400)
  | some (views, b) => do
    let b ← store b (headLen + bodyLen) 0
    let method ← cstr b views.method
    let path ← cstr b views.path
    let query ← views.query.elim (some []) (cstr b)
    let inm ← inm.elim (some none) fun i => (cstr b i).map some
    some (.request ⟨method, path, query, inm, (b.drop headLen).take bodyLen⟩)

def named (name l : List Byte) : Bool := name.isPrefixOf (l.map lower)

def number (n : ℕ) (ds : List Byte) : ℕ := ds.foldl (fun v c => v * 10 + (c.toNat - 0x30)) n

/-- Digits with blanks around them. -/
def lengthValue (s : List Byte) : Option ℕ :=
  let t := s.dropWhile isBlank
  if t.takeWhile isDigit = [] ∨ (t.dropWhile isDigit).dropWhile isBlank ≠ [] then none
  else some (number 0 (t.takeWhile isDigit))

/-- The length the header lines give, `n` when they give none. -/
def framing : List (List Byte) → ℕ → Bool → Option ℕ
  | [], n, _ => some n
  | l :: ls, n, seen =>
    if named (chars "transfer-encoding:") l then none
    else if named (chars "content-length:") l then
      if seen then none else (lengthValue (l.drop 15)).bind fun n => framing ls n true
    else framing ls n seen

def noneMatch (ls : List (List Byte)) : Option (List Byte) :=
  (ls.find? (named (chars "if-none-match:"))).map fun l =>
    ((l.drop 14).dropWhile isBlank).takeWhile (· ≠ 0)

/-- Method, path and query. -/
def requestLine (line : List Byte) : Option (List Byte × List Byte × List Byte) :=
  if 0 ∈ line then none
  else
    match Text.cut 0x20 line with
    | none => none
    | some (method, t) =>
      if method = [] ∨ ¬ method.all isUpper then none
      else
        match Text.cut 0x20 t with
        | none => none
        | some (target, version) =>
          if target.head? ≠ some 0x2F ∨
              version ≠ chars "HTTP/1.1" ∧ version ≠ chars "HTTP/1.0" then none
          else
            match Text.cut 0x3F target with
            | none => some (method, target, [])
            | some (path, query) => some (method, path, query)

/-- What a request with this head and this body is answered. -/
def answerOf (line : List Byte) (headers : List (List Byte)) (body : List Byte) : Answer :=
  match requestLine line with
  | none => .error 400
  | some (method, path, query) => .request ⟨method, path, query, noneMatch headers, body⟩

variable {b s l : List Byte} {i n v : ℕ} {ls : List (List Byte)}

theorem findHeadEnd_eq (h : At b i s) (hi : i + s.length ≤ b.length) :
    findHeadEnd b (s.length - 3) i = some ((headEnd s).elim 0 (i + ·)) := by
  induction s generalizing i with
  | nil => rfl
  | cons c s ih =>
    rw [List.length_cons] at hi
    by_cases hs : 3 ≤ s.length
    · have hn : (c :: s).length - 3 = s.length - 3 + 1 := by
        rw [List.length_cons]
        omega
      have hcmp := memcmp_eq (t := crlf ++ crlf) h (by omega) (by simp [crlf]; omega)
      rw [hn, findHeadEnd, hcmp, headEnd]
      by_cases hp : crlf ++ crlf <+: c :: s
      · simp [hp]
      · have hrest := ih (at_cons.mp h).2 (by omega)
        cases hh : headEnd s with
        | none => simpa [hp, hh] using hrest
        | some k => simpa [hp, hh, Nat.add_assoc, Nat.add_comm 1] using hrest
    · have hn : (c :: s).length - 3 = 0 := by
        rw [List.length_cons]
        omega
      cases hh : headEnd (c :: s) with
      | none => rw [hn]; rfl
      | some k =>
        have hk := headEnd_bounds hh
        rw [List.length_cons] at hk
        omega

theorem headerValue_eq (h : At b i s) (name : List Byte) :
    headerValue b (i + s.length) i name =
      some (if named name s then i + name.length else 0) := by
  induction name generalizing i s with
  | nil => simp [headerValue, named]
  | cons c name ih =>
    cases s with
    | nil => simp [headerValue, named]
    | cons d s =>
      obtain ⟨hd, hs⟩ := at_cons.mp h
      have hlt : i < i + (d :: s).length := by simp
      have hend : i + (d :: s).length = i + 1 + s.length := by
        rw [List.length_cons]
        omega
      rw [headerValue, if_pos hlt, hd, hend, ih hs]
      by_cases hc : lower d = c
      · by_cases hp : named name s
        · simp [named, hc] at hp ⊢
          simp [hp]
          omega
        · simp [named, hc] at hp ⊢
          simp [hp]
      · simp [named, hc, Ne.symm hc]

theorem lineEnd_eq (hl : Free l) (h : At b i (l ++ crlf)) (hn : l.length ≤ n) :
    lineEnd b n i = some (i + l.length) := by
  induction l generalizing i n with
  | nil =>
    cases n with
    | zero => rfl
    | succ n =>
      obtain ⟨hc, ht⟩ := at_cons.mp h
      simp [lineEnd, hc, (at_cons.mp ht).1]
  | cons c l ih =>
    rw [List.length_cons] at hn
    obtain ⟨n, rfl⟩ : ∃ k, n = k + 1 := ⟨n - 1, by omega⟩
    obtain ⟨hc, ht⟩ := at_cons.mp (List.cons_append ▸ h)
    have hrest := ih (n := n) (free_cons.mp hl).2 ht (by omega)
    have hnc := not_crlf_starts hl []
    obtain ⟨d, u, hdu⟩ : ∃ d u, l ++ crlf = d :: u :=
      List.exists_cons_of_ne_nil (by simp [crlf])
    rw [hdu] at ht
    rw [List.append_nil, List.cons_append, hdu, crlf_starts] at hnc
    rw [lineEnd, hc, (at_cons.mp ht).1, List.length_cons]
    simp only [Option.bind_eq_bind, Option.bind_some, if_neg hnc, hrest, Option.some.injEq]
    omega

theorem requestLineEnd_eq (hl : Free l) (h : At b i (l ++ crlf)) (hi : i ≤ b.length)
    (hn : l.length < n) : requestLineEnd b n i = some (i + l.length) := by
  induction l generalizing i n with
  | nil =>
    obtain ⟨n, rfl⟩ : ∃ k, n = k + 1 := ⟨n - 1, by omega⟩
    have hcmp := memcmp_eq (t := crlf) h hi le_rfl
    simp [requestLineEnd, hcmp]
  | cons c l ih =>
    obtain ⟨n, rfl⟩ : ∃ k, n = k + 1 := ⟨n - 1, by omega⟩
    have hlt := h.lt
    have hcmp := memcmp_eq (t := crlf) h hi (by simp [crlf])
    have hnc := not_crlf_starts hl []
    rw [List.append_nil] at hnc
    have hrest := ih (free_cons.mp hl).2 (at_cons.mp h).2 (by omega) (by simpa using hn)
    rw [requestLineEnd, hcmp, List.length_cons]
    simp only [Option.bind_eq_bind, Option.bind_some, hnc, hrest]
    simp
    omega

/-- The value saturates above the maximum. -/
def Sat (v n : ℕ) : Prop := v = n ∨ reqMax < v ∧ reqMax < n

theorem digits_eq (h : At b i s) (hv : Sat v n) :
    ∃ v', digits b s.length i v = some (i + (s.takeWhile isDigit).length, v') ∧
      Sat v' (number n (s.takeWhile isDigit)) := by
  induction s generalizing i v n with
  | nil => exact ⟨v, rfl, hv⟩
  | cons c s ih =>
    obtain ⟨hc, hs⟩ := at_cons.mp h
    by_cases hd : isDigit c
    · have hv' : Sat (if v ≤ reqMax then v * 10 + (c.toNat - 0x30) else v)
          (n * 10 + (c.toNat - 0x30)) := by
        unfold Sat at hv ⊢
        split_ifs <;> omega
      obtain ⟨v', hrun, hsat⟩ := ih hs hv'
      refine ⟨v', ?_, ?_⟩
      · rw [List.length_cons, digits, hc, List.takeWhile_cons_of_pos hd]
        simp only [Option.bind_eq_bind, Option.bind_some, hd, if_true, hrun, List.length_cons]
        congr 2
        omega
      · rw [List.takeWhile_cons_of_pos hd]
        exact hsat
    · refine ⟨v, ?_, ?_⟩
      · simp [digits, hc, hd]
      · rw [List.takeWhile_cons_of_neg hd]
        exact hv

theorem lengthValue_eq {eol : ℕ} (h : At b i s) (heol : eol = i + s.length) :
    ∃ j k v e, skip isBlank b (eol - i) i = some j ∧ digits b (eol - j) j 0 = some (k, v) ∧
      skip isBlank b (eol - k) k = some e ∧
      (k = j ∨ e ≠ eol → lengthValue s = none) ∧
      (¬ (k = j ∨ e ≠ eol) → ∃ m, lengthValue s = some m ∧ Sat v m) := by
  have ht := h.dropWhile isBlank
  have hlent := length_dropWhile isBlank s
  generalize hts : s.dropWhile isBlank = t at ht hlent
  have hu := ht.dropWhile isDigit
  have hlenu := length_dropWhile isDigit t
  have hlenw := length_dropWhile isBlank (t.dropWhile isDigit)
  obtain ⟨v, hdigits, hsat⟩ := digits_eq ht (Or.inl rfl)
  have hj : eol - i = s.length := by omega
  have hk : eol - (i + (s.takeWhile isBlank).length) = t.length := by omega
  have he : eol - (i + (s.takeWhile isBlank).length + (t.takeWhile isDigit).length) =
      (t.dropWhile isDigit).length := by omega
  refine ⟨_, _, v, _, hj ▸ skip_eq isBlank h, hk ▸ hdigits, he ▸ skip_eq isBlank hu, ?_, ?_⟩
  · intro hbad
    have hcond : t.takeWhile isDigit = [] ∨ (t.dropWhile isDigit).dropWhile isBlank ≠ [] := by
      rw [← List.length_eq_zero_iff, ← List.length_pos_iff]
      omega
    rw [lengthValue, hts, if_pos hcond]
  · intro hgood
    have hcond : ¬ (t.takeWhile isDigit = [] ∨ (t.dropWhile isDigit).dropWhile isBlank ≠ []) := by
      rw [← List.length_eq_zero_iff, ← List.length_pos_iff]
      omega
    exact ⟨_, by rw [lengthValue, hts, if_neg hcond], hsat⟩

theorem named_length {name : List Byte} (h : named name l) : name.length ≤ l.length := by
  have hle := (List.isPrefixOf_iff_prefix.mp h).length_le
  rwa [List.length_map] at hle

theorem at_line {stop start : ℕ} (hl : Free l) (h : At b start (unlines (l :: ls)))
    (hstop : stop = start + (unlines (l :: ls)).length) :
    start < stop ∧ lineEnd b (stop - 1 - start) start = some (start + l.length) ∧
      At b start (l ++ crlf) ∧ At b (start + l.length + 2) (unlines ls) ∧
      stop = start + l.length + 2 + (unlines ls).length := by
  rw [unlines_cons] at h hstop
  have hlen : (l ++ crlf ++ unlines ls).length = l.length + 2 + (unlines ls).length := by
    simp only [crlf, List.length_append, List.length_cons, List.length_nil]
  obtain ⟨hcrlf, hrest⟩ := at_append.mp h
  have hnext : (l ++ crlf).length = l.length + 2 := List.length_append
  rw [hnext, ← Nat.add_assoc] at hrest
  exact ⟨by omega, lineEnd_eq hl hcrlf (by omega), hcrlf, hrest, by omega⟩

theorem contentLength_eq {stop start : ℕ} {seen : Bool} (hfree : ∀ l ∈ ls, Free l)
    (h : At b start (unlines ls)) (hstop : stop = start + (unlines ls).length)
    (hstart : 0 < start) (hn : ls.length < n) (hv : seen = false → v = 0) {m : ℕ}
    (hsat : Sat v m) :
    ∃ r, contentLength b stop n start v seen = some r ∧ Option.Rel Sat r (framing ls m seen) := by
  induction ls generalizing start v m n seen with
  | nil =>
    obtain ⟨n, rfl⟩ : ∃ k, n = k + 1 := ⟨n - 1, by omega⟩
    rw [unlines_nil, List.length_nil, Nat.add_zero] at hstop
    exact ⟨some v, by rw [contentLength, if_neg (by omega)], Option.Rel.some hsat⟩
  | cons l ls ih =>
    obtain ⟨n, rfl⟩ : ∃ k, n = k + 1 := ⟨n - 1, by omega⟩
    obtain ⟨hl, hls⟩ := List.forall_mem_cons.mp hfree
    obtain ⟨hlt, heol, hcrlf, hrest, hnext⟩ := at_line hl h hstop
    have hline : At b start l := (at_append.mp hcrlf).1
    rw [List.length_cons] at hn
    rw [contentLength, if_pos hlt, framing, heol]
    simp only [Option.bind_eq_bind, Option.bind_some, headerValue_eq hline]
    have hte0 : start + (chars "transfer-encoding:").length ≠ 0 := by omega
    have hcl0 : start + (chars "content-length:").length ≠ 0 := by omega
    by_cases hte : named (chars "transfer-encoding:") l
    · exact ⟨none, by rw [if_pos hte, if_pos hte0], by rw [if_pos hte]; exact Option.Rel.none⟩
    · simp only [if_neg hte, ne_eq, not_true_eq_false, if_false]
      by_cases hcl : named (chars "content-length:") l
      · simp only [if_pos hcl, if_neg hcl0]
        cases seen with
        | true => exact ⟨none, rfl, Option.Rel.none⟩
        | false =>
          have h15 : (chars "content-length:").length ≤ l.length := named_length hcl
          obtain ⟨j, k, v', e, hj, hk, he, hbad, hgood⟩ := lengthValue_eq
            (hline.drop h15) (show start + l.length = _ by rw [List.length_drop]; omega)
          simp only [Bool.false_eq_true, if_false, hj, Option.bind_some, hv rfl, hk, he]
          by_cases hke : k = j ∨ e ≠ start + l.length
          · rw [if_pos hke]
            refine ⟨none, rfl, ?_⟩
            rw [show lengthValue (l.drop 15) = none from hbad hke]
            exact Option.Rel.none
          · obtain ⟨m', hm', hsat'⟩ := hgood hke
            rw [if_neg hke, show lengthValue (l.drop 15) = some m' from hm', Option.bind_some]
            exact ih hls hrest hnext (by omega) (by omega) (fun hf => absurd hf (by decide)) hsat'
      · simp only [if_neg hcl, if_true]
        exact ih hls hrest hnext (by omega) (by omega) hv hsat

theorem ifNoneMatch_eq {stop start : ℕ} (hfree : ∀ l ∈ ls, Free l)
    (h : At b start (unlines ls)) (hstop : stop = start + (unlines ls).length)
    (hstart : 0 < start) (hn : ls.length < n) :
    ∃ inm b', ifNoneMatch b stop n start = some (inm, b') ∧ Within b b' start stop ∧
      match inm with
      | none => noneMatch ls = none
      | some i => ∃ s, At b' i (s ++ [0]) ∧ start ≤ i ∧ i + s.length < stop ∧
          noneMatch ls = some (s.takeWhile (· ≠ 0)) := by
  induction ls generalizing start n with
  | nil =>
    obtain ⟨n, rfl⟩ : ∃ k, n = k + 1 := ⟨n - 1, by omega⟩
    rw [unlines_nil, List.length_nil, Nat.add_zero] at hstop
    exact ⟨none, b, by rw [ifNoneMatch, if_neg (by omega)], Within.refl _ _ _, rfl⟩
  | cons l ls ih =>
    obtain ⟨n, rfl⟩ : ∃ k, n = k + 1 := ⟨n - 1, by omega⟩
    obtain ⟨hl, hls⟩ := List.forall_mem_cons.mp hfree
    obtain ⟨hlt, heol, hcrlf, hrest, hnext⟩ := at_line hl h hstop
    obtain ⟨hline, hend⟩ := at_append.mp hcrlf
    have hin : start + l.length < b.length := by
      have hcr := hend.lt
      omega
    rw [List.length_cons] at hn
    rw [ifNoneMatch, if_pos hlt, heol]
    simp only [Option.bind_eq_bind, Option.bind_some, headerValue_eq hline]
    by_cases hinm : named (chars "if-none-match:") l
    · have h14 : (chars "if-none-match:").length ≤ l.length := named_length hinm
      have hvalue := hline.drop h14
      have hj := hvalue.dropWhile isBlank
      have hskip := skip_eq isBlank hvalue
      have hlen := length_dropWhile isBlank (l.drop (chars "if-none-match:").length)
      rw [List.length_drop] at hlen
      generalize hj' : start + (chars "if-none-match:").length +
        ((l.drop (chars "if-none-match:").length).takeWhile isBlank).length = j at hj hskip
      generalize ht : (l.drop (chars "if-none-match:").length).dropWhile isBlank = t at hj hlen
      have hleft : start + l.length - (start + (chars "if-none-match:").length) =
          (l.drop (chars "if-none-match:").length).length := by
        rw [List.length_drop]
        omega
      have hfind : noneMatch (l :: ls) = some (t.takeWhile (· ≠ 0)) := by
        rw [noneMatch, List.find?_cons_of_pos hinm, Option.map_some, ← ht]
        rfl
      have hcut : At (b.set (start + l.length) 0) j (t ++ [0]) := by
        have hto : j + t.length = start + l.length := by omega
        rw [at_append, hto]
        exact ⟨hj.set (Or.inr hto.le), at_set_self hin⟩
      rw [if_pos hinm, if_neg (by omega), hleft, hskip]
      simp only [Option.bind_some, store_eq hin]
      exact ⟨some j, _, rfl, Within.set b 0 (by omega) (by omega), t, hcut, by omega, by omega,
        hfind⟩
    · simp only [if_neg hinm, if_true]
      obtain ⟨inm, b', hrun, hwithin, hres⟩ :=
        ih (n := n) hls hrest hnext (by omega) (by omega)
      have hfind : noneMatch (l :: ls) = noneMatch ls := by
        rw [noneMatch, List.find?_cons_of_neg hinm, noneMatch]
      refine ⟨inm, b', hrun, ⟨hwithin.length, fun hat hout => hwithin.outside hat (by omega)⟩, ?_⟩
      rw [hfind]
      cases inm with
      | none => exact hres
      | some i =>
        obtain ⟨s, hs, hi, hlen, hmatch⟩ := hres
        exact ⟨s, hs, by omega, hlen, hmatch⟩

/-- The strings of a request line, cut in place. -/
structure Split (b : List Byte) (views : Views) (method path query : List Byte) (hi : ℕ) :
    Prop where
  method : Str b views.method method hi
  path : Str b views.path path hi
  hasQuery : ∀ i, views.query = some i → Str b i query hi
  noQuery : views.query = none → query = []

theorem parseRequestLine_eq (h : At b 0 l) (hlen : l.length < b.length) :
    ∃ r, parseRequestLine b l.length = some r ∧
      match requestLine l with
      | none => r = none
      | some (method, path, query) => ∃ views b', r = some (views, b') ∧
          Within b b' 0 (l.length + 1) ∧ Split b' views method path query (l.length + 1) := by
  rw [parseRequestLine, memchr_eq h (Nat.zero_le _), requestLine, store_eq hlen]
  simp only [Option.bind_eq_bind, Option.bind_some, decide_eq_true_eq]
  by_cases hnul : 0 ∈ l
  · exact ⟨none, by rw [if_pos hnul], by rw [if_pos hnul]⟩
  have hw : Within b (b.set l.length 0) 0 (l.length + 1) := Within.set b 0 (by omega) (by omega)
  have hline : Str (b.set l.length 0) 0 l (l.length + 1) := by
    refine ⟨at_append.mpr ⟨h.set (Or.inr (by omega)), ?_⟩, hnul, by omega⟩
    rw [Nat.zero_add]
    exact at_set_self hlen
  generalize b.set l.length 0 = b₁ at hw hline
  simp only [if_neg hnul]
  cases hcut : Text.cut 0x20 l with
  | none => exact ⟨none, by rw [hline.strchr_none (Text.cut_eq_none.mp hcut)]; rfl, rfl⟩
  | some mt =>
    obtain ⟨m, t⟩ := mt
    obtain ⟨rfl, hm⟩ := Text.cut_eq_some hcut
    rw [hline.strchr_eq hm]
    have hupper := skip_eq isUpper (at_append.mp (at_append.mp hline.at_nul).1).1
    have hmethod : (m.length = 0 ∨ (m.takeWhile isUpper).length < m.length) ↔
        (m = [] ∨ ¬ m.all isUpper) := by
      have hle := length_dropWhile isUpper m
      rw [List.length_eq_zero_iff, List.all_eq_true, ← List.dropWhile_eq_nil_iff,
        ← List.length_eq_zero_iff (l := m.dropWhile isUpper)]
      exact or_congr_right (by omega)
    simp only [Option.bind_some, Nat.zero_add, hupper, hmethod]
    by_cases hbad : m = [] ∨ ¬ m.all isUpper
    · exact ⟨none, if_pos hbad, by simp only [if_pos hbad]⟩
    simp only [if_neg hbad]
    have ht := hline.rest
    rw [Nat.zero_add] at ht
    cases hcut' : Text.cut 0x20 t with
    | none => exact ⟨none, by rw [ht.strchr_none (Text.cut_eq_none.mp hcut')]; rfl, rfl⟩
    | some tv =>
      obtain ⟨target, version⟩ := tv
      obtain ⟨rfl, htarget⟩ := Text.cut_eq_some hcut'
      have hversion := ht.rest.cstr_eq
      have hfirst : ∃ c, b₁[m.length + 1]? = some c ∧ (c ≠ 0x2F ↔ target.head? ≠ some 0x2F) := by
        have hat := (at_append.mp ht.at_nul).1
        cases target with
        | nil => exact ⟨0x20, (at_cons.mp hat).1, by decide⟩
        | cons c target => exact ⟨c, (at_cons.mp hat).1, by simp⟩
      obtain ⟨c, hc, hslash⟩ := hfirst
      rw [ht.strchr_eq htarget]
      simp only [Option.bind_some, hc, hversion, hslash]
      by_cases hbad' : target.head? ≠ some 0x2F ∨
          version ≠ chars "HTTP/1.1" ∧ version ≠ chars "HTTP/1.0"
      · exact ⟨none, if_pos hbad', by simp only [if_pos hbad']⟩
      simp only [if_neg hbad']
      have hlt : m.length + 1 + target.length <
          (m ++ 0x20 :: (target ++ 0x20 :: version)).length := by
        simp only [List.length_append, List.length_cons]
        omega
      generalize (m ++ 0x20 :: (target ++ 0x20 :: version)).length = len at hline hw hlen ht hlt ⊢
      obtain ⟨hm₂, ht₂⟩ := hline.cut
      rw [Nat.zero_add] at hm₂ ht₂
      have hw₂ := hw.trans (Within.set b₁ 0 (i := m.length) (by omega) (by omega))
      rw [store_eq (by have := hw.length; omega)]
      generalize b₁.set m.length 0 = b₂ at hm₂ ht₂ hw₂
      simp only [Option.bind_some]
      have hm₃ := hm₂.set (c := 0) (j := m.length + 1 + target.length) (by omega)
      have ht₃ := ht₂.cut.1
      have hw₃ := hw₂.trans (Within.set b₂ 0 (i := m.length + 1 + target.length)
          (by omega) (by omega))
      rw [store_eq (by have := hw₂.length; omega)]
      generalize b₂.set (m.length + 1 + target.length) 0 = b₃ at hm₃ ht₃ hw₃
      simp only [Option.bind_some]
      cases hcut'' : Text.cut 0x3F target with
      | none =>
        rw [ht₃.strchr_none (Text.cut_eq_none.mp hcut'')]
        exact ⟨_, rfl, _, b₃, rfl, hw₃, hm₃, ht₃, fun _ hi => (by cases hi), fun _ => rfl⟩
      | some pq =>
        obtain ⟨path, query⟩ := pq
        obtain ⟨rfl, hpath⟩ := Text.cut_eq_some hcut''
        have hlt' : m.length + 1 + path.length < len := by
          rw [List.length_append] at hlt
          omega
        obtain ⟨hp₄, hq₄⟩ := ht₃.cut
        have hw₄ := hw₃.trans (Within.set b₃ 0 (i := m.length + 1 + path.length)
            (by omega) (by omega))
        rw [ht₃.strchr_eq hpath]
        simp only [Option.bind_some]
        rw [store_eq (by have := hw₃.length; omega)]
        refine ⟨_, rfl, _, _, rfl, hw₄, hm₃.set (by omega), hp₄, fun i hi => ?_,
          fun h => (by cases h)⟩
        rw [← Option.some.inj hi]
        exact hq₄

theorem length_le_unlines (ls : List (List Byte)) : ls.length ≤ (unlines ls).length := by
  induction ls with
  | nil => exact le_rfl
  | cons l ls ih =>
    simp only [unlines_cons, crlf, List.length_append, List.length_cons, List.length_nil]
    omega

theorem dispatch_eq {headers : List (List Byte)} {body : List Byte} {headLen : ℕ} (hl : Free l)
    (hfree : ∀ m ∈ headers, Free m) (h : At b 0 (unlines (l :: headers) ++ crlf ++ body))
    (hhead : headLen = (unlines (l :: headers)).length + 2)
    (hlen : headLen + body.length < b.length) :
    dispatch b headLen body.length = some (answerOf l headers body) := by
  have hline : At b 0 (l ++ crlf) := by
    rw [unlines_cons, List.append_assoc, List.append_assoc] at h
    exact (at_append.mp h).1
  have hunlines : (unlines (l :: headers)).length = l.length + 2 + (unlines headers).length := by
    simp only [unlines_cons, crlf, List.length_append, List.length_cons, List.length_nil]
  have hheaders : At b (l.length + 2) (unlines headers) := by
    rw [unlines_cons, List.append_assoc, List.append_assoc] at h
    have hrest := (at_append.mp (at_append.mp h).2).1
    rwa [Nat.zero_add, List.length_append] at hrest
  have hbody : At b headLen body := by
    have hrest := (at_append.mp h).2
    rwa [Nat.zero_add, List.length_append, show crlf.length = 2 from rfl, ← hhead] at hrest
  have heol := requestLineEnd_eq (n := b.length) hl hline (Nat.zero_le _) (by omega)
  have hle := length_le_unlines headers
  obtain ⟨inm, b₁, hinm, hw₁, hvalue⟩ := ifNoneMatch_eq (n := b.length)
    hfree hheaders (show headLen - 2 = _ by omega) (by omega) (by omega)
  have hline₁ := hw₁.outside (at_append.mp hline).1 (by omega)
  have hlen₁ := hw₁.length
  obtain ⟨r, hparse, hres⟩ := parseRequestLine_eq hline₁ (by omega)
  rw [Nat.zero_add] at heol
  simp only [dispatch, heol, hinm, hparse, answerOf, Option.bind_eq_bind, Option.bind_some]
  cases hreq : requestLine l with
  | none =>
    rw [hreq] at hres
    rw [show r = none from hres]
  | some mpq =>
    obtain ⟨method, path, query⟩ := mpq
    rw [hreq] at hres
    obtain ⟨views, b₂, rfl, hw₂, hsplit⟩ := hres
    have hlen₂ := hw₂.length
    have hstr : ∀ {i s}, Str b₂ i s (l.length + 1) →
        cstr (b₂.set (headLen + body.length) 0) i = some s := fun hs =>
      (hs.set (Or.inr (by have := hs.lt; omega))).cstr_eq
    have hbody₂ : At b₂ headLen body :=
      hw₂.outside (hw₁.outside hbody (by omega)) (by omega)
    have hquery : views.query.elim (some []) (cstr (b₂.set (headLen + body.length) 0)) =
        some query := by
      cases hq : views.query with
      | none => rw [hsplit.noQuery hq]; rfl
      | some i => exact hstr (hsplit.hasQuery i hq)
    have hmatch : (inm.elim (some none) fun i =>
        (cstr (b₂.set (headLen + body.length) 0) i).map some) = some (noneMatch headers) := by
      cases inm with
      | none => rw [show noneMatch headers = none from hvalue]; rfl
      | some i =>
        obtain ⟨s, hs, hi, hend, hmatch⟩ := hvalue
        have hs₂ : At (b₂.set (headLen + body.length) 0) i (s ++ [0]) := by
          refine (hw₂.outside hs (by omega)).set ?_
          rw [List.length_append, List.length_singleton]
          omega
        rw [Option.elim_some, cstr_at hs₂, hmatch]
        rfl
    have hview := (hbody₂.set (c := 0) (Or.inr le_rfl)).take
    simp only [store_eq (show headLen + body.length < b₂.length by omega), Option.bind_some,
      hstr hsplit.method, hstr hsplit.path, hquery, hmatch, hview]

end OpenCalifornia.Http
