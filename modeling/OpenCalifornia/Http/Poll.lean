import OpenCalifornia.Http.Grammar

/-! # Polls

`cali_http_poll` reads what has come in, looks for the end of the head and for the body behind it,
and answers as soon as it can. How the stream was cut into polls and into what one `tcp_recv` gives
does not show in the answer. -/

namespace OpenCalifornia.Http
open Lib Lib.Bits Lib.Buffer Lib.Crlf

abbrev Ms := BitVec 64

def idleMs : Ms := 5000
def firstByteMs : Ms := 1000

/-- An answered connection sends, or asks the handler of the request it holds once more; it reads
nothing. -/
inductive Phase
  | listening
  | reading
  | answered (a : Answer)
  | closed

/-- `S`, and what the socket has not given yet of the peer's stream. -/
structure Conn where
  phase : Phase := .listening
  lastMs : Ms := 0
  len : ℕ := 0
  headLen : ℕ := 0
  bodyLen : ℕ := 0
  buf : List Byte := List.replicate (reqMax + 1) 0
  socket : List Byte

/-- What a poll meets: how much each `tcp_recv` has ready before one would block, or before it says
that the peer is gone. -/
structure Poll where
  nowMs : Ms
  accepts : Bool := true
  ready : List ℕ
  gone : Bool := false

/-- The loop of `tcp_recv`, and `peer_gone`. -/
def receive (p : Poll) : List ℕ → Conn → Option (Conn × Bool)
  | [], c => some (c, decide (c.len < reqMax) && p.gone)
  | k :: ks, c =>
    if c.len < reqMax then
      let chunk := c.socket.take (min k (reqMax - c.len))
      if chunk = [] then some (c, p.gone)
      else do
        let buf ← memcpy c.buf c.len chunk
        receive p ks { c with
          buf := buf
          len := c.len + chunk.length
          lastMs := p.nowMs
          socket := c.socket.drop chunk.length }
    else some (c, false)

/-- `if (S.head_len == 0) { ... }` -/
def readHead (c : Conn) : Option Conn :=
  if c.headLen ≠ 0 then some c
  else do
    let headLen ← findHeadEnd c.buf (c.len - 3) 0
    if headLen = 0 then
      if reqMax ≤ c.len then some { c with phase := .answered (.error 431) } else some c
    else do
      let eol ← requestLineEnd c.buf c.buf.length 0
      match ← contentLength c.buf (headLen - 2) c.buf.length (eol + 2) 0 false with
      | none => some { c with headLen := headLen, phase := .answered (.error 400) }
      | some cl =>
        if cl > reqMax - headLen then
          some { c with headLen := headLen, phase := .answered (.error 413) }
        else some { c with headLen := headLen, bodyLen := cl }

def read (p : Poll) (c : Conn) : Option Conn := do
  let (c, peerGone) ← receive p p.ready c
  let c ← readHead c
  match c.phase with
  | .reading =>
    if c.headLen ≠ 0 ∧ c.headLen + c.bodyLen ≤ c.len then do
      let a ← dispatch c.buf c.headLen c.bodyLen
      some { c with phase := .answered a }
    else if peerGone ∨ p.nowMs - c.lastMs > (if c.len ≠ 0 then idleMs else firstByteMs) then
      some { c with phase := .closed }
    else some c
  | _ => some c

def poll (c : Conn) (p : Poll) : Option Conn :=
  match c.phase with
  | .listening =>
    if p.accepts then
      read p { c with phase := .reading, lastMs := p.nowMs, len := 0, headLen := 0, bodyLen := 0 }
    else some c
  | .reading => read p c
  | .answered _ => some c
  | .closed => some c

/-- The polls of a connection whose peer sends `stream`. -/
def serve (stream : List Byte) (polls : List Poll) : Option Conn :=
  polls.foldlM poll { socket := stream }

def Conn.answer (c : Conn) : Option Answer :=
  match c.phase with
  | .answered a => some a
  | _ => none

/-- All of the stream was received, or it is answered already. -/
def Delivered (c : Conn) : Prop := c.socket = [] ∨ c.answer.isSome

/-- What a reading connection has of the stream. -/
structure Got (stream : List Byte) (c : Conn) : Prop where
  phase : c.phase = .reading
  buf : c.buf.length = reqMax + 1
  lenMax : c.len ≤ reqMax
  len : c.len ≤ stream.length
  socket : c.socket = stream.drop c.len
  at_ : At c.buf 0 (stream.take c.len)

/-- The head is in the buffer and was read. -/
def Headed (stream : List Byte) (c : Conn) : Prop :=
  ∃ line headers, headEnd (stream.take c.len) = some c.headLen ∧
    lines (stream.take (c.headLen - 4)) = line :: headers ∧
    framing headers 0 false = some c.bodyLen ∧ c.headLen + c.bodyLen ≤ reqMax

/-- The head is not complete, or the body is not. -/
def Waits (stream : List Byte) (c : Conn) : Prop :=
  c.headLen = 0 ∧ headEnd (stream.take c.len) = none ∧ c.len < reqMax ∨
    Headed stream c ∧ c.len < c.headLen + c.bodyLen

def Inv (stream : List Byte) (c : Conn) : Prop :=
  match c.phase with
  | .listening => c.buf.length = reqMax + 1 ∧ c.socket = stream
  | .reading => Got stream c ∧ Waits stream c
  | .answered a => verdict stream = some a
  | .closed => c.socket = [] → verdict stream = none

variable {stream : List Byte} {c : Conn}

theorem receive_eq (p : Poll) (ks : List ℕ) (h : Got stream c) :
    ∃ c' gone, receive p ks c = some (c', gone) ∧ Got stream c' ∧ c.len ≤ c'.len ∧
      c'.headLen = c.headLen ∧ c'.bodyLen = c.bodyLen := by
  induction ks generalizing c with
  | nil => exact ⟨c, _, rfl, h, le_rfl, rfl, rfl⟩
  | cons k ks ih =>
    rw [receive]
    by_cases hfull : c.len < reqMax
    · rw [if_pos hfull]
      generalize hchunk : c.socket.take (min k (reqMax - c.len)) = chunk
      by_cases hnil : chunk = []
      · exact ⟨c, p.gone, if_pos hnil, h, le_rfl, rfl, rfl⟩
      have hlen : (stream.take c.len).length = c.len := List.length_take_of_le h.len
      have hclen : chunk.length ≤ reqMax - c.len ∧ chunk.length ≤ stream.length - c.len := by
        rw [← hchunk, h.socket, List.length_take, List.length_drop]
        omega
      have htake : stream.take c.len ++ chunk = stream.take (c.len + chunk.length) := by
        rw [List.take_add, ← h.socket]
        congr 1
        rw [← hchunk, List.length_take, List.take_eq_take_iff]
        omega
      obtain ⟨b, hb, hblen, hat⟩ := memcpy_eq h.at_ (t := chunk) (by rw [hlen, h.buf]; omega)
      rw [hlen] at hb
      have hgot : Got stream { c with
          buf := b
          len := c.len + chunk.length
          lastMs := p.nowMs
          socket := c.socket.drop chunk.length } :=
        { phase := h.phase
          buf := hblen.trans h.buf
          lenMax := by dsimp only; omega
          len := by have := h.len; dsimp only; omega
          socket := by rw [h.socket, List.drop_drop]
          at_ := htake ▸ hat }
      obtain ⟨c', gone, hrun, hc', hle, hhead, hbody⟩ := ih hgot
      simp only [if_neg hnil, hb, Option.bind_eq_bind, Option.bind_some, hrun]
      exact ⟨c', gone, rfl, hc', by dsimp only at hle; omega, hhead, hbody⟩
    · exact ⟨c, false, if_neg hfull, h, le_rfl, rfl, rfl⟩

theorem head_lines {headLen : ℕ} (h : headEnd (stream.take c.len) = some headLen) :
    ∃ line headers, lines (stream.take (headLen - 4)) = line :: headers ∧
      stream = unlines (line :: headers) ++ crlf ++ stream.drop headLen ∧
      headLen = (unlines (line :: headers)).length + 2 ∧ Free line ∧ (∀ m ∈ headers, Free m) ∧
      headEnd stream = some headLen ∧ headLen ≤ c.len := by
  obtain ⟨hend, hle⟩ := headEnd_take_iff.mp h
  obtain ⟨line, headers, hlines, hsplit, hlen, hline, hheaders⟩ := lines_of_headEnd hend
  exact ⟨line, headers, hlines, hsplit, hlen, hline, fun m hm => (hheaders m hm).1, hend, hle⟩

theorem Got.head (h : Got stream c) {headLen : ℕ} {line : List Byte} {headers : List (List Byte)}
    (hsplit : stream = unlines (line :: headers) ++ crlf ++ stream.drop headLen)
    (hlen : headLen = (unlines (line :: headers)).length + 2) (hle : headLen ≤ c.len) :
    At c.buf 0 (line ++ crlf) ∧ At c.buf (line.length + 2) (unlines headers) := by
  have htake : stream.take headLen = line ++ crlf ++ unlines headers ++ crlf := by
    have htext := congrArg (List.take headLen) hsplit
    rwa [List.take_left' (by rw [List.length_append]; exact hlen.symm), unlines_cons] at htext
  have hat : At c.buf 0 (line ++ crlf ++ unlines headers) := by
    refine h.at_.of_prefix (List.IsPrefix.trans ?_ (List.take_prefix_take_left hle))
    rw [htake]
    exact List.prefix_append _ _
  obtain ⟨hline, hheaders⟩ := at_append.mp hat
  rw [Nat.zero_add, List.length_append] at hheaders
  exact ⟨hline, hheaders⟩

theorem verdict_of_head {headLen : ℕ} {line : List Byte} {headers : List (List Byte)}
    (hend : headEnd stream = some headLen) (hmax : headLen ≤ reqMax)
    (hlines : lines (stream.take (headLen - 4)) = line :: headers) :
    verdict stream =
      match framing headers 0 false with
      | none => some (.error 400)
      | some n =>
        if reqMax < headLen + n then some (.error 413)
        else if stream.length < headLen + n then none
        else some (answerOf line headers ((stream.drop headLen).take n)) := by
  rw [verdict, headEnd_take_iff.mpr ⟨hend, hmax⟩]
  cases hframing : framing headers 0 false with
  | none => simp only [hlines, hframing]
  | some n => simp only [hlines, hframing]

/-- What reading the head leaves: an answer, no head yet, or a head. -/
def HeadRead (stream : List Byte) (c c' : Conn) : Prop :=
  (∃ a, c'.phase = .answered a ∧ verdict stream = some a) ∨
    Got stream c' ∧ c'.len = c.len ∧
      (c'.headLen = 0 ∧ headEnd (stream.take c'.len) = none ∧ c'.len < reqMax ∨ Headed stream c')

theorem readHead_eq (h : Got stream c) (hhead : c.headLen = 0 ∨ Headed stream c) :
    ∃ c', readHead c = some c' ∧ HeadRead stream c c' := by
  by_cases hzero : c.headLen ≠ 0
  · exact ⟨c, if_pos hzero, Or.inr ⟨h, rfl, Or.inr (hhead.resolve_left hzero)⟩⟩
  rw [not_not] at hzero
  have hlen : (stream.take c.len).length = c.len := List.length_take_of_le h.len
  have hbuf := h.buf
  have hmax := h.lenMax
  have hfind := findHeadEnd_eq h.at_ (by omega)
  rw [hlen] at hfind
  rw [readHead, if_neg (not_not.mpr hzero), hfind]
  cases hend : headEnd (stream.take c.len) with
  | none =>
    by_cases hfull : reqMax ≤ c.len
    · have hv : verdict stream = some (.error 431) := by
        have hmaxlen : c.len = reqMax := by omega
        have hle := h.len
        rw [verdict, ← hmaxlen, hend]
        exact if_pos hle
      exact ⟨{ c with phase := .answered (.error 431) }, by simp [hfull], Or.inl ⟨_, rfl, hv⟩⟩
    · exact ⟨c, by simp [hfull], Or.inr ⟨h, rfl, Or.inl ⟨hzero, hend, by omega⟩⟩⟩
  | some headLen =>
    obtain ⟨line, headers, hlines, hsplit, hhlen, hline, hheaders, hstream, hle⟩ := head_lines hend
    obtain ⟨hatl, hath⟩ := h.head hsplit hhlen hle
    have hverdict := verdict_of_head hstream (hle.trans hmax) hlines
    have hul : (unlines (line :: headers)).length = line.length + 2 + (unlines headers).length := by
      simp only [unlines_cons, crlf, List.length_append, List.length_cons, List.length_nil]
    have hcount := length_le_unlines headers
    have heol := requestLineEnd_eq (n := c.buf.length) hline hatl (Nat.zero_le _) (by omega)
    obtain ⟨r, hcl, hrel⟩ := contentLength_eq (n := c.buf.length) hheaders
      hath (show headLen - 2 = _ by omega) (by omega) (by omega)
      (fun _ : false = false => rfl) (Or.inl rfl)
    rw [Nat.zero_add] at heol
    have hne : headLen ≠ 0 := by omega
    simp only [Option.elim_some, Nat.zero_add, Option.bind_eq_bind, Option.bind_some, if_neg hne,
      heol, hcl]
    cases hframing : framing headers 0 false with
    | none =>
      rw [hframing] at hrel hverdict
      cases hrel
      exact ⟨_, rfl, Or.inl ⟨_, rfl, hverdict⟩⟩
    | some n =>
      rw [hframing] at hrel hverdict
      obtain ⟨v, rfl, hsat⟩ : ∃ v, r = some v ∧ Sat v n := by
        cases hrel with
        | some hsat => exact ⟨_, rfl, hsat⟩
      simp only
      by_cases hbig : v > reqMax - headLen
      · have hbig' : reqMax < headLen + n := by
          rcases hsat with rfl | hsat <;> omega
        rw [if_pos hbig]
        simp only [if_pos hbig'] at hverdict
        exact ⟨_, rfl, Or.inl ⟨_, rfl, hverdict⟩⟩
      · have hn : v = n := hsat.resolve_right (by omega)
        rw [if_neg hbig]
        refine ⟨_, rfl, Or.inr ⟨⟨h.phase, h.buf, h.lenMax, h.len, h.socket, h.at_⟩, rfl,
          Or.inr ⟨line, headers, hend, hlines, hn ▸ hframing, ?_⟩⟩⟩
        dsimp only
        omega

theorem Headed.verdict (h : Headed stream c) : ∃ line headers,
    stream = unlines (line :: headers) ++ crlf ++ stream.drop c.headLen ∧
      c.headLen = (unlines (line :: headers)).length + 2 ∧ Free line ∧
      (∀ m ∈ headers, Free m) ∧
      Http.verdict stream = if stream.length < c.headLen + c.bodyLen then none
        else some (answerOf line headers ((stream.drop c.headLen).take c.bodyLen)) := by
  obtain ⟨line, headers, hend, hlines, hframing, hmax⟩ := h
  obtain ⟨line', headers', hlines', hsplit, hlen, hline, hheaders, hstream, hle⟩ := head_lines hend
  obtain ⟨rfl, rfl⟩ := List.cons.inj (hlines.symm.trans hlines')
  have hverdict := verdict_of_head hstream (by omega) hlines
  simp only [hframing, if_neg (show ¬ reqMax < c.headLen + c.bodyLen by omega)] at hverdict
  exact ⟨line, headers, hsplit, hlen, hline, hheaders, hverdict⟩

theorem Waits.verdict (h : Waits stream c) (hall : stream.length ≤ c.len) :
    Http.verdict stream = none := by
  rcases h with ⟨-, hend, hlt⟩ | ⟨hhead, hlt⟩
  · rw [List.take_of_length_le hall] at hend
    rw [Http.verdict, List.take_of_length_le (by omega), hend]
    exact if_neg (by omega)
  · obtain ⟨line, headers, -, -, -, -, hverdict⟩ := hhead.verdict
    rw [hverdict, if_pos (by omega)]

theorem Headed.dispatch (h : Headed stream c) (hgot : Got stream c)
    (hle : c.headLen + c.bodyLen ≤ c.len) :
    ∃ a, Http.dispatch c.buf c.headLen c.bodyLen = some a ∧ Http.verdict stream = some a := by
  obtain ⟨line, headers, hsplit, hlen, hline, hheaders, hverdict⟩ := h.verdict
  have hstream := hgot.len
  have hmax := hgot.lenMax
  have hbuf := hgot.buf
  rw [if_neg (by omega)] at hverdict
  have hbody : ((stream.drop c.headLen).take c.bodyLen).length = c.bodyLen := by
    rw [List.length_take, List.length_drop]
    omega
  have hhead : stream.take c.headLen = unlines (line :: headers) ++ crlf := by
    have htext := congrArg (List.take c.headLen) hsplit
    rwa [List.take_left' (by rw [List.length_append]; exact hlen.symm)] at htext
  have hat : At c.buf 0 (unlines (line :: headers) ++ crlf ++
      (stream.drop c.headLen).take c.bodyLen) := by
    rw [← hhead, ← List.take_add]
    exact hgot.at_.of_prefix (List.take_prefix_take_left hle)
  have hrun := dispatch_eq hline hheaders hat hlen (by omega)
  rw [hbody] at hrun
  exact ⟨_, hrun, hverdict⟩

theorem read_eq (p : Poll) (h : Got stream c) (hhead : c.headLen = 0 ∨ Headed stream c) :
    ∃ c', read p c = some c' ∧ Inv stream c' := by
  obtain ⟨c₁, gone, hrecv, hgot₁, hle, hheadLen, hbodyLen⟩ := receive_eq p p.ready h
  have hhead₁ : c₁.headLen = 0 ∨ Headed stream c₁ := by
    rcases hhead with hzero | ⟨line, headers, hend, hrest⟩
    · exact Or.inl (hheadLen.trans hzero)
    · obtain ⟨hstream, hb⟩ := headEnd_take_iff.mp hend
      right
      rw [Headed, hheadLen, hbodyLen]
      exact ⟨line, headers, headEnd_take_iff.mpr ⟨hstream, hb.trans hle⟩, hrest⟩
  obtain ⟨c₂, hread, hres⟩ := readHead_eq hgot₁ hhead₁
  simp only [read, hrecv, hread, Option.bind_eq_bind, Option.bind_some]
  rcases hres with ⟨a, ha, hverdict⟩ | ⟨hgot, -, hstate⟩
  · refine ⟨c₂, by rw [ha], ?_⟩
    rw [Inv, ha]
    exact hverdict
  rw [hgot.phase]
  by_cases hready : c₂.headLen ≠ 0 ∧ c₂.headLen + c₂.bodyLen ≤ c₂.len
  · have hheaded := hstate.resolve_left fun hnone => hready.1 hnone.1
    obtain ⟨a, hdispatch, hverdict⟩ := hheaded.dispatch hgot hready.2
    exact ⟨{ c₂ with phase := .answered a },
      by simp only [if_pos hready, hdispatch, Option.bind_some], hverdict⟩
  have hwaits : Waits stream c₂ := by
    refine hstate.imp id fun hheaded => ⟨hheaded, ?_⟩
    obtain ⟨line, headers, hend, -⟩ := hheaded
    have hb := headEnd_bounds hend
    omega
  simp only [if_neg hready]
  by_cases hclose : gone ∨ p.nowMs - c₂.lastMs > (if c₂.len ≠ 0 then idleMs else firstByteMs)
  · refine ⟨_, if_pos hclose, ?_⟩
    intro hempty
    have hsock : stream.drop c₂.len = [] := hgot.socket.symm.trans hempty
    exact hwaits.verdict (List.drop_eq_nil_iff.mp hsock)
  · refine ⟨c₂, if_neg hclose, ?_⟩
    rw [Inv, hgot.phase]
    exact ⟨hgot, hwaits⟩

theorem poll_inv (h : Inv stream c) (p : Poll) : ∃ c', poll c p = some c' ∧ Inv stream c' := by
  have hinv := h
  rw [Inv] at h
  cases hphase : c.phase with
  | listening =>
    simp only [hphase] at h
    simp only [poll, hphase]
    by_cases haccept : p.accepts
    · rw [if_pos haccept]
      refine read_eq p ⟨rfl, h.1, Nat.zero_le _, Nat.zero_le _, h.2, at_nil⟩ (Or.inl rfl)
    · exact ⟨c, if_neg haccept, hinv⟩
  | reading =>
    simp only [hphase] at h
    simp only [poll, hphase]
    refine read_eq p h.1 (h.2.imp (fun hnone => hnone.1) fun hheaded => hheaded.1)
  | answered a => exact ⟨c, by simp only [poll, hphase], hinv⟩
  | closed => exact ⟨c, by simp only [poll, hphase], hinv⟩

theorem serve_inv (stream : List Byte) (polls : List Poll) :
    ∃ c, serve stream polls = some c ∧ Inv stream c := by
  have hrun : ∀ (polls : List Poll) (c : Conn), Inv stream c →
      ∃ c', polls.foldlM poll c = some c' ∧ Inv stream c' := by
    intro polls
    induction polls with
    | nil => exact fun c h => ⟨c, rfl, h⟩
    | cons p polls ih =>
      intro c h
      obtain ⟨c₁, hpoll, hinv⟩ := poll_inv h p
      obtain ⟨c', hrest, hinv'⟩ := ih c₁ hinv
      exact ⟨c', by rw [List.foldlM_cons, hpoll]; exact hrest, hinv'⟩
  exact hrun polls _ ⟨List.length_replicate, rfl⟩

theorem Inv.answer (h : Inv stream c) (hd : Delivered c) : c.answer = verdict stream := by
  rw [Inv] at h
  rw [Delivered, Conn.answer] at hd
  rw [Conn.answer]
  cases hphase : c.phase with
  | listening =>
    simp only [hphase] at h hd
    have hnil : stream = [] := h.2.symm.trans (hd.resolve_right (by simp))
    rw [hnil]
    rfl
  | reading =>
    simp only [hphase] at h hd
    have hsock : stream.drop c.len = [] := h.1.socket.symm.trans (hd.resolve_right (by simp))
    exact (h.2.verdict (List.drop_eq_nil_iff.mp hsock)).symm
  | answered a =>
    simp only [hphase] at h
    exact h.symm
  | closed =>
    simp only [hphase] at h hd
    exact (h (hd.resolve_right (by simp))).symm

/-- However a stream is cut into polls and receives, no access leaves the buffer, the answer is the
same, and it is a request exactly when the stream begins with one that fits. -/
theorem answer_of_stream (stream : List Byte) (polls polls' : List Poll) :
    ∃ c c', serve stream polls = some c ∧ serve stream polls' = some c' ∧
      (Delivered c → Delivered c' → c.answer = c'.answer ∧
        ∀ r, c.answer = some (.request r) ↔ Accepts stream r) := by
  obtain ⟨c, hrun, hinv⟩ := serve_inv stream polls
  obtain ⟨c', hrun', hinv'⟩ := serve_inv stream polls'
  refine ⟨c, c', hrun, hrun', fun hd hd' => ⟨?_, fun r => ?_⟩⟩
  · rw [hinv.answer hd, hinv'.answer hd']
  · rw [hinv.answer hd, verdict_eq_request]

set_option maxRecDepth 30000 in
theorem answer_of_stream_cut :
    (serve (chars "PUT /a?b HTTP/1.1\r\ncontent-length: 2\r\n\r\nhi")
        [{ nowMs := 0, ready := [42] }]).bind Conn.answer =
      (serve (chars "PUT /a?b HTTP/1.1\r\ncontent-length: 2\r\n\r\nhi")
        [{ nowMs := 0, ready := [3, 15] }, { nowMs := 9, ready := [23] },
          { nowMs := 12, ready := [1] }]).bind Conn.answer ∧
      Accepts (chars "PUT /a?b HTTP/1.1\r\ncontent-length: 2\r\n\r\nhi")
        ⟨chars "PUT", chars "/a", chars "b", none, chars "hi"⟩ := by
  obtain ⟨c, c', hrun, hrun', hsame⟩ := answer_of_stream
    (chars "PUT /a?b HTTP/1.1\r\ncontent-length: 2\r\n\r\nhi") [{ nowMs := 0, ready := [42] }]
    [{ nowMs := 0, ready := [3, 15] }, { nowMs := 9, ready := [23] }, { nowMs := 12, ready := [1] }]
  have hwhole : (serve (chars "PUT /a?b HTTP/1.1\r\ncontent-length: 2\r\n\r\nhi")
      [{ nowMs := 0, ready := [42] }]).bind Conn.answer =
      some (.request ⟨chars "PUT", chars "/a", chars "b", none, chars "hi"⟩) := rfl
  have hparts : ((serve (chars "PUT /a?b HTTP/1.1\r\ncontent-length: 2\r\n\r\nhi")
      [{ nowMs := 0, ready := [3, 15] }, { nowMs := 9, ready := [23] },
        { nowMs := 12, ready := [1] }]).map Conn.socket) = some [] := rfl
  rw [hrun, Option.bind_some] at hwhole
  rw [hrun', Option.map_some, Option.some.injEq] at hparts
  obtain ⟨heq, hiff⟩ := hsame (Or.inr (by rw [hwhole]; rfl)) (Or.inl hparts)
  rw [hrun, hrun', Option.bind_some, Option.bind_some]
  exact ⟨heq, (hiff _).mp hwhole⟩

end OpenCalifornia.Http
