import OpenCalifornia.Captive.Responder

/-! # What is asked and what is answered -/

namespace OpenCalifornia.Captive
open Lib.Bits (Byte)
open Lib.Buffer
open Lib.Dns

variable {buf : List Byte} {n i j wire : ℕ} {ls : List Label} {hd : Header} {q : Question}
  {ip : BitVec 32}

theorem plain_length_byte : ∀ b : Byte, b &&& 0xC0#8 = 0 → b.toNat < 64 := by decide

theorem length_byte_plain : ∀ n : Fin 64, (BitVec.ofNat 8 n : Byte) &&& 0xC0#8 = 0 := by decide

theorem skipQname_total (hn : 0 < n) (h : buf.length < n + i) :
    ∃ r, skipQname buf n i wire = some r := by
  induction n generalizing i wire with
  | zero => exact absurd hn (lt_irrefl 0)
  | succ n ih =>
    rw [skipQname]
    by_cases hi : buf.length ≤ i
    · exact ⟨_, if_pos hi⟩
    · rw [if_neg hi, List.getElem?_eq_getElem (by omega), Option.bind_some]
      split_ifs with h₁ h₂ h₃ h₄
      · exact ⟨_, rfl⟩
      · exact ⟨_, rfl⟩
      · exact ⟨_, rfl⟩
      · exact ⟨_, rfl⟩
      · exact ih (by omega) (by omega)

theorem skipQname_sound (h : skipQname buf n i wire = some (some j)) :
    ∃ ls, At buf i (labelBytes ls ++ [0]) ∧ j = i + (labelBytes ls).length + 1 ∧
      (ls = [] ∨ wire + (labelBytes ls).length ≤ maxNameWire) := by
  induction n generalizing i wire with
  | zero => cases h
  | succ n ih =>
    rw [skipQname] at h
    by_cases hi : buf.length ≤ i
    · rw [if_pos hi] at h
      cases h
    · have hget := List.getElem?_eq_getElem (Nat.lt_of_not_le hi)
      generalize buf[i] = b at hget
      rw [if_neg hi, hget, Option.bind_some] at h
      split_ifs at h with hp hz ho hw
      · cases h
      · obtain rfl := Option.some.inj (Option.some.inj h)
        refine ⟨[], ?_, rfl, .inl rfl⟩
        rw [labelBytes_nil, List.nil_append, at_cons, hget, hz]
        exact ⟨rfl, at_nil⟩
      · cases h
      · cases h
      · have hb := plain_length_byte b (not_not.mp hp)
        have hpos : b.toNat ≠ 0 := fun h => hz (BitVec.eq_of_toNat_eq h)
        have hlen : ((buf.drop (i + 1)).take b.toNat).length = b.toNat := by
          rw [List.length_take, List.length_drop]
          omega
        obtain ⟨l, hl⟩ := label_of_bytes (s := (buf.drop (i + 1)).take b.toNat) (by omega)
        obtain ⟨ls, hat, rfl, hle⟩ := ih h
        have hll : l.encode.length = b.toNat + 1 := by
          rw [hl, List.length_cons, hlen]
        refine ⟨l :: ls, ?_, ?_, .inr ?_⟩
        · rw [labelBytes_cons, List.append_assoc, at_append, hll]
          refine ⟨?_, by rwa [Nat.add_right_comm] at hat⟩
          rw [hl, hlen, at_cons, hget, BitVec.ofNat_toNat, BitVec.setWidth_eq]
          exact ⟨rfl, List.take_prefix _ _⟩
        · rw [labelBytes_cons, List.length_append, hll]
          omega
        · rw [labelBytes_cons, List.length_append, hll]
          rcases hle with rfl | hle
          · rw [labelBytes_nil, List.length_nil]
            omega
          · omega

theorem skipQname_complete (h : At buf i (labelBytes ls ++ [0]))
    (hw : wire + (labelBytes ls).length ≤ maxNameWire) (hi : i ≤ buf.length)
    (hn : buf.length < n + i) :
    skipQname buf n i wire = some (some (i + (labelBytes ls).length + 1)) := by
  induction ls generalizing n i wire with
  | nil =>
    obtain ⟨hget, -⟩ := at_cons.mp h
    have hlt : i + 0 < buf.length := h.lt
    cases n with
    | zero => omega
    | succ n =>
      rw [skipQname, if_neg (by omega), hget, Option.bind_some, if_neg (by decide), if_pos rfl]
      rfl
  | cons l ls ih =>
    rw [labelBytes_cons, List.append_assoc, at_append] at h
    obtain ⟨hl, hrest⟩ := h
    obtain ⟨hget, hbytes⟩ := at_cons.mp hl
    have hle := hl.le hi
    rw [labelBytes_cons, List.length_append, length_encode] at *
    have hb := l.length_byte
    have hpos := l.pos
    have h63 := l.le
    cases n with
    | zero => omega
    | succ n =>
      have hplain := length_byte_plain ⟨l.bytes.length, by omega⟩
      have hz : (BitVec.ofNat 8 l.bytes.length : Byte) ≠ 0 := by
        intro hz
        have h0 : (0 : Byte).toNat = 0 := rfl
        rw [hz] at hb
        omega
      rw [skipQname, if_neg (by omega), hget, Option.bind_some, if_neg (not_not.mpr hplain),
        if_neg hz, hb, if_neg (by omega), if_neg (by omega)]
      have hrest' : At buf (i + 1 + l.bytes.length) (labelBytes ls ++ [0]) := by
        rwa [Nat.add_right_comm, Nat.add_assoc]
      rw [ih hrest' (by omega) (by omega) (by omega)]
      congr 2
      omega

theorem u16At_eq {x : BitVec 16} (h : At buf i (be16 x)) : u16At buf i = some x := by
  obtain ⟨h₁, h₂⟩ := at_cons.mp h
  obtain ⟨h₂, -⟩ := at_cons.mp h₂
  simp only [u16At, h₁, h₂]
  exact congrArg some (u16_be16 x)

theorem exists_u16 (h : i + 2 ≤ buf.length) : ∃ x, At buf i (be16 x) := by
  refine ⟨u16 buf[i] buf[i + 1], ?_⟩
  rw [be16_u16, at_cons, at_cons, List.getElem?_eq_getElem (by omega),
    List.getElem?_eq_getElem (by omega)]
  exact ⟨rfl, rfl, at_nil⟩

/-- A query with one question, at the start of what is received. -/
structure Asked (buf : List Byte) (hd : Header) (q : Question) : Prop where
  stands : At buf 0 (hd.encode ++ q.encode)
  query : hd.flags.msb = false
  one : hd.qdcount = 1
  short : (labelBytes q.labels).length ≤ maxNameWire

/-- The flags of a reply: QR and AA, with the OPCODE and RD of the query. -/
def replyFlags (flags : BitVec 16) : BitVec 16 :=
  0x8000#16 ||| (flags &&& 0x7800#16) ||| 0x0400#16 ||| (flags &&& 0x0100#16)

def Question.isAddress (q : Question) : Prop := q.qtype = 1 ∧ q.qclass = 1

instance (q : Question) : Decidable (Question.isAddress q) := inferInstanceAs (Decidable (_ ∧ _))

def replyTo (ip : BitVec 32) (hd : Header) (q : Question) : Message where
  id := hd.id
  flags := replyFlags hd.flags
  questions := [q]
  answers := if Question.isAddress q then [⟨12, 0, ip⟩] else []

theorem query_iff (flags : BitVec 16) : flags &&& 0x8000#16 ≠ 0 ↔ flags.msb = true := by
  have h : (0x8000#16) = BitVec.twoPow 16 15 := by decide
  rw [h, BitVec.and_twoPow, BitVec.msb_eq_getLsbD_last]
  cases flags.getLsbD 15 <;> decide

theorem Asked.header (h : Asked buf hd q) : At buf 0 hd.encode ∧ At buf 12 q.encode :=
  at_append.mp h.stands

theorem header_bytes (h : At buf 0 hd.encode) :
    u16At buf 2 = some hd.flags ∧ u16At buf 4 = some hd.qdcount ∧
      buf[0]? = some ((hd.id >>> 8).setWidth 8) ∧ buf[1]? = some (hd.id.setWidth 8) := by
  simp only [Header.encode, at_append] at h
  obtain ⟨⟨⟨⟨⟨hid, hflags⟩, hqd⟩, -⟩, -⟩, -⟩ := h
  obtain ⟨h₀, h₁⟩ := at_cons.mp hid
  exact ⟨u16At_eq hflags, u16At_eq hqd, h₀, (at_cons.mp h₁).1⟩

theorem question_numbers (h : At buf i q.encode) :
    At buf i (labelBytes q.labels ++ [0]) ∧
      u16At buf (i + (labelBytes q.labels).length + 1) = some q.qtype ∧
      u16At buf (i + (labelBytes q.labels).length + 1 + 2) = some q.qclass := by
  simp only [Question.encode, at_append (s := labelBytes q.labels ++ [0] ++ be16 q.qtype),
    at_append (s := labelBytes q.labels ++ [0])] at h
  obtain ⟨⟨hname, htype⟩, hclass⟩ := h
  refine ⟨hname, ?_, ?_⟩
  · apply u16At_eq
    simpa [Nat.add_assoc] using htype
  · apply u16At_eq
    simpa [Nat.add_assoc, be16] using hclass

theorem answerRr_eq (ip : BitVec 32) : answerRr ip = Address.encode ⟨12, 0, ip⟩ := by
  simp only [answerRr, Address.encode, be16, be32]
  rfl

theorem reply_bytes (ip : BitVec 32) (hd : Header) (q : Question) :
    [(hd.id >>> 8).setWidth 8, hd.id.setWidth 8, (replyFlags hd.flags >>> 8).setWidth 8,
        (replyFlags hd.flags).setWidth 8, 0, 1, 0, if q.qtype = 1 ∧ q.qclass = 1 then 1 else 0,
        0, 0, 0, 0] ++ q.encode ++ (if q.qtype = 1 ∧ q.qclass = 1 then answerRr ip else []) =
      (replyTo ip hd q).encode := by
  have h₀ : be16 0 = [0, 0] := by decide
  by_cases h : q.qtype = 1 ∧ q.qclass = 1
  · have ha : Question.isAddress q := h
    simp only [replyTo, Message.encode, if_pos h, if_pos ha, answerRr_eq, List.flatMap_cons,
      List.flatMap_nil, List.append_nil, Header.encode, List.length_singleton, h₀]
    rfl
  · have ha : ¬ Question.isAddress q := h
    simp only [replyTo, Message.encode, if_neg h, if_neg ha, List.flatMap_cons, List.flatMap_nil,
      List.append_nil, Header.encode, List.length_singleton, List.length_nil, h₀]
    rfl

theorem buildReply_of_asked (h : Asked buf hd q) :
    buildReply ip buf = some (some (replyTo ip hd q).encode) := by
  obtain ⟨hhd, hq⟩ := h.header
  obtain ⟨hflags, hqd, hid₀, hid₁⟩ := header_bytes hhd
  obtain ⟨hname, htype, hclass⟩ := question_numbers hq
  have hlen : 12 ≤ buf.length := by
    have := hhd.le (Nat.zero_le _)
    rw [Header.length_encode] at this
    omega
  have hqlen := hq.le hlen
  have hshort := h.short
  rw [q.length_encode] at hqlen
  have hskip : skipQname buf (buf.length + 1) 12 0 =
      some (some (12 + (labelBytes q.labels).length + 1)) :=
    skipQname_complete hname (by omega) hlen (by omega)
  have hquery : ¬ hd.flags &&& 0x8000#16 ≠ 0 := by
    rw [query_iff, h.query]
    exact Bool.false_ne_true
  have hsec : (buf.drop 12).take q.encode.length = q.encode := hq.take
  have hqs : 12 + (labelBytes q.labels).length + 1 + 4 - 12 = q.encode.length := by
    rw [q.length_encode]
    omega
  have hroom : ¬ 12 + q.encode.length + (if q.qtype = 1 ∧ q.qclass = 1 then answerRrLen else 0) >
      replyMax := by
    rw [q.length_encode]
    simp only [maxNameWire, replyMax, answerRrLen] at *
    split_ifs <;> omega
  rw [buildReply, if_neg (by omega), hflags]
  simp only [Option.bind_eq_bind, Option.bind_some, if_neg hquery, hqd, h.one, hskip, htype, hclass,
    hqs, hid₀, hid₁, hsec, ne_eq, not_true_eq_false, if_false, if_neg hroom, Option.pure_def]
  rw [if_neg (by omega)]
  exact congrArg (fun bytes => some (some bytes)) (reply_bytes ip hd q)

theorem asked_or_dropped (ip : BitVec 32) (buf : List Byte) :
    (∃ hd q, Asked buf hd q) ∨ buildReply ip buf = some none := by
  by_cases hlen : buf.length < 12
  · exact .inr (if_pos hlen)
  have hhd : At buf 0 (Header.read buf).encode := by
    rw [Header.encode_read (by omega), At, List.drop_zero]
    exact List.take_prefix _ _
  obtain ⟨hflags, hqd, -, -⟩ := header_bytes hhd
  simp only [buildReply, if_neg hlen, hflags, hqd, Option.bind_eq_bind, Option.bind_some]
  by_cases hq : (Header.read buf).flags &&& 0x8000#16 ≠ 0
  · exact .inr (if_pos hq)
  by_cases hone : (Header.read buf).qdcount ≠ 1
  · exact .inr (by rw [if_neg hq, if_pos hone]; rfl)
  have htotal : ∃ r, skipQname buf (buf.length + 1) 12 0 = some r :=
    skipQname_total (by omega) (by omega)
  obtain ⟨r, hr⟩ := htotal
  rw [if_neg hq, if_neg hone, hr]
  rcases r with _ | j
  · exact .inr rfl
  obtain ⟨ls, hname, hj, hshort⟩ := skipQname_sound hr
  by_cases hend : j + 4 > buf.length
  · exact .inr (if_pos hend)
  have hu16 : ∀ i, i + 2 ≤ buf.length → ∃ x, At buf i (be16 x) := fun _ => exists_u16
  obtain ⟨qtype, htype⟩ := hu16 j (by omega)
  obtain ⟨qclass, hclass⟩ := hu16 (j + 2) (by omega)
  refine .inl ⟨Header.read buf, ⟨ls, qtype, qclass⟩, ?_, ?_, not_not.mp hone, ?_⟩
  · rw [at_append]
    refine ⟨hhd, ?_⟩
    simp only [Question.encode, at_append (s := labelBytes ls ++ [0] ++ be16 qtype),
      at_append (s := labelBytes ls ++ [0])]
    subst hj
    refine ⟨⟨hname, ?_⟩, ?_⟩
    · simpa [Nat.add_assoc, Header.length_encode] using htype
    · simpa [Nat.add_assoc, Header.length_encode, be16] using hclass
  · rw [query_iff] at hq
    simpa using hq
  · rcases hshort with rfl | h
    · exact Nat.zero_le _
    · simpa using h

/-- The reply is one, to this header and question. -/
structure Proper (ip : BitVec 32) (hd : Header) (q : Question) (m : Message) : Prop where
  id : m.id = hd.id
  questions : m.questions = [q]
  answers : m.answers = if Question.isAddress q then [⟨12, 0, ip⟩] else []
  response : m.flags.msb = true
  opcode : m.flags &&& 0x7800#16 = hd.flags &&& 0x7800#16
  noError : m.flags &&& 0x000F#16 = 0

theorem replyTo_proper (ip : BitVec 32) (hd : Header) (q : Question) :
    Proper ip hd q (replyTo ip hd q) where
  id := rfl
  questions := rfl
  answers := rfl
  response := by simp [replyTo, replyFlags, BitVec.msb_eq_getLsbD_last]
  opcode := by
    refine BitVec.eq_of_getLsbD_eq fun i hi => ?_
    simp only [replyTo, replyFlags, BitVec.getLsbD_and, BitVec.getLsbD_or]
    interval_cases i <;> simp
  noError := by
    refine BitVec.eq_of_getLsbD_eq fun i hi => ?_
    simp only [replyTo, replyFlags, BitVec.getLsbD_and, BitVec.getLsbD_or]
    interval_cases i <;> simp

theorem replyTo_length (h : Asked buf hd q) (ip : BitVec 32) :
    (replyTo ip hd q).encode.length ≤ replyMax := by
  have hshort := h.short
  simp only [replyTo, Message.encode, List.length_append, List.flatMap_cons, List.flatMap_nil,
    List.append_nil, Header.length_encode, Question.length_encode]
  simp only [maxNameWire, replyMax] at *
  split_ifs
  · simp only [List.flatMap_cons, List.flatMap_nil, List.append_nil, Address.length_encode]
    omega
  · simp only [List.flatMap_nil, List.length_nil]
    omega

theorem respond_total (ip : BitVec 32) (d : Datagram) : ∃ a, respond ip d = some a := by
  rcases asked_or_dropped ip (d.bytes.take recvMax) with ⟨hd, q, h⟩ | h
  · exact ⟨_, by simp only [respond, buildReply_of_asked h]; rfl⟩
  · exact ⟨_, by simp only [respond, h]; rfl⟩

theorem drain_taken (ip : BitVec 32) (k : ℕ) (waiting : List Datagram) :
    ∃ taken rest, waiting = taken ++ rest ∧
      drain ip k waiting = some (taken.filterMap fun d => (respond ip d).join, rest) := by
  induction k generalizing waiting with
  | zero => exact ⟨[], waiting, rfl, rfl⟩
  | succ k ih =>
    cases waiting with
    | nil => exact ⟨[], [], rfl, rfl⟩
    | cons d waiting =>
      obtain ⟨a, ha⟩ := respond_total ip d
      by_cases hd : d.bytes.length = 0
      · have hnone : respond ip d = some none := by
          simp only [respond, List.length_eq_zero_iff.mp hd]
          rfl
        refine ⟨[d], waiting, rfl, ?_⟩
        rw [drain, if_pos hd, List.filterMap_cons, hnone]
        rfl
      · obtain ⟨taken, rest, rfl, hdrain⟩ := ih waiting
        refine ⟨d :: taken, rest, rfl, ?_⟩
        rw [drain, if_neg hd, List.filterMap_cons, ha, hdrain]
        cases a <;> rfl

/-- A query with one question in full, whatever follows it. -/
def IsQuery (d : List Byte) : Prop :=
  ∃ hd q rest, d = Header.encode hd ++ Question.encode q ++ rest ∧ hd.flags.msb = false ∧
    hd.qdcount = 1 ∧ (labelBytes q.labels).length ≤ maxNameWire

theorem isQuery_iff (d : List Byte) : IsQuery d ↔ ∃ hd q, Asked d hd q := by
  constructor
  · rintro ⟨hd, q, rest, rfl, hq, hone, hshort⟩
    exact ⟨hd, q, List.prefix_append _ _, hq, hone, hshort⟩
  · rintro ⟨hd, q, ⟨rest, hrest⟩, hq, hone, hshort⟩
    exact ⟨hd, q, rest, hrest.symm, hq, hone, hshort⟩

/-- A poll takes datagrams in their order and sends back what `respond` gives for each: nothing, or
a proper reply to the question that the datagram starts with. -/
theorem responder_proper :
    (∀ r : Responder, ∃ taken r', r.waiting = taken ++ r'.waiting ∧
      poll r = some (taken.filterMap fun d => (respond r.answerIp d).join, r')) ∧
    ∀ (ip : BitVec 32) (d : Datagram), ∃ a, respond ip d = some a ∧
      (a = none ∨ ∃ hd q rest m, d.bytes = Header.encode hd ++ Question.encode q ++ rest ∧
        a = some ⟨m.encode, d.ip, d.port⟩ ∧ Proper ip hd q m ∧ m.encode.length ≤ 512) ∧
      (d.bytes.length ≤ 512 → (a.isSome ↔ IsQuery d.bytes)) := by
  refine ⟨fun r => ?_, fun ip d => ?_⟩
  · cases hb : r.bound with
    | false => exact ⟨[], r, rfl, by simp [poll, hb]⟩
    | true =>
      obtain ⟨taken, rest, hw, hd⟩ := drain_taken r.answerIp drainMax r.waiting
      exact ⟨taken, { r with waiting := rest }, hw, by simp [poll, hb, hd]⟩
  · rcases asked_or_dropped ip (d.bytes.take recvMax) with ⟨hd, q, h⟩ | h
    · refine ⟨some ⟨(replyTo ip hd q).encode, d.ip, d.port⟩, ?_, .inr ?_, fun hlen => ?_⟩
      · simp only [respond, buildReply_of_asked h]
        rfl
      · obtain ⟨rest, hrest⟩ := h.stands
        refine ⟨hd, q, rest ++ d.bytes.drop recvMax, _, ?_, rfl, replyTo_proper ip hd q,
          replyTo_length h ip⟩
        rw [← List.append_assoc, hrest, List.drop_zero, List.take_append_drop]
      · rw [recvMax, List.take_of_length_le hlen] at h
        exact iff_of_true rfl ((isQuery_iff _).mpr ⟨hd, q, h⟩)
    · refine ⟨none, by simp only [respond, h]; rfl, .inl rfl, fun hlen => ?_⟩
      rw [recvMax, List.take_of_length_le hlen] at h
      refine iff_of_false Bool.false_ne_true fun hq => ?_
      obtain ⟨hd, q, ha⟩ := (isQuery_iff _).mp hq
      rw [buildReply_of_asked ha] at h
      cases h

end OpenCalifornia.Captive
