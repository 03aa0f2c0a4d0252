import Mathlib
import OpenCalifornia.Lib.Buffer

/-! # DNS messages on the wire

Names are labels of 1 to 63 bytes, each behind its length, up to the empty label of the root. The
counts of a message are those of its sections. -/

namespace OpenCalifornia.Lib.Dns
open Bits (Byte)
open Buffer

/-- `(uint16_t)((hi << 8) | lo)` -/
def u16 (hi lo : Byte) : BitVec 16 := hi.setWidth 16 <<< 8 ||| lo.setWidth 16

def be16 (x : BitVec 16) : List Byte := [(x >>> 8).setWidth 8, x.setWidth 8]

def be32 (x : BitVec 32) : List Byte :=
  [(x >>> 24).setWidth 8, (x >>> 16).setWidth 8, (x >>> 8).setWidth 8, x.setWidth 8]

structure Label where
  bytes : List Byte
  pos : 1 ≤ bytes.length
  le : bytes.length ≤ 63

def Label.encode (l : Label) : List Byte := BitVec.ofNat 8 l.bytes.length :: l.bytes

/-- The lengths and labels of a name, without the root. -/
def labelBytes (labels : List Label) : List Byte := labels.flatMap Label.encode

structure Question where
  labels : List Label
  qtype : BitVec 16
  qclass : BitVec 16

def Question.encode (q : Question) : List Byte :=
  labelBytes q.labels ++ [0] ++ be16 q.qtype ++ be16 q.qclass

/-- An address record, named by a pointer into the message. -/
structure Address where
  pointer : BitVec 14
  ttl : BitVec 32
  ip : BitVec 32

def Address.encode (a : Address) : List Byte :=
  be16 (0xC000#16 ||| a.pointer.setWidth 16) ++ be16 1 ++ be16 1 ++ be32 a.ttl ++ be16 4 ++
    be32 a.ip

structure Header where
  id : BitVec 16
  flags : BitVec 16
  qdcount : BitVec 16
  ancount : BitVec 16
  nscount : BitVec 16
  arcount : BitVec 16

def Header.encode (h : Header) : List Byte :=
  be16 h.id ++ be16 h.flags ++ be16 h.qdcount ++ be16 h.ancount ++ be16 h.nscount ++ be16 h.arcount

/-- A message with questions and answers only. -/
structure Message where
  id : BitVec 16
  flags : BitVec 16
  questions : List Question
  answers : List Address

def Message.encode (m : Message) : List Byte :=
  Header.encode ⟨m.id, m.flags, .ofNat 16 m.questions.length, .ofNat 16 m.answers.length, 0, 0⟩ ++
    m.questions.flatMap Question.encode ++ m.answers.flatMap Address.encode

theorem be16_u16 (a b : Byte) : be16 (u16 a b) = [a, b] := by
  have ha : (u16 a b >>> 8).setWidth 8 = a := by
    ext i hi
    have h₁ : 8 + i < 16 := by omega
    have h₂ : i < 16 := by omega
    simp [u16, hi, h₁, h₂]
  have hb : (u16 a b).setWidth 8 = b := by
    ext i hi
    simp [u16]
  rw [be16, ha, hb]

theorem u16_be16 (x : BitVec 16) : u16 ((x >>> 8).setWidth 8) (x.setWidth 8) = x := by
  ext i hi
  simp only [u16]
  by_cases h : i < 8
  · simp [h, hi]
  · have h₁ : i - 8 < 8 := by omega
    have h₂ : 8 + (i - 8) = i := by omega
    simp [h, h₁, h₂, hi]

theorem label_of_bytes {s : List Byte} (h : 1 ≤ s.length ∧ s.length ≤ 63) :
    ∃ l : Label, l.encode = BitVec.ofNat 8 s.length :: s := ⟨⟨s, h.1, h.2⟩, rfl⟩

@[simp] theorem labelBytes_nil : labelBytes [] = [] := rfl

@[simp] theorem labelBytes_cons (l : Label) (ls : List Label) :
    labelBytes (l :: ls) = l.encode ++ labelBytes ls := rfl

@[simp] theorem length_encode (l : Label) : l.encode.length = l.bytes.length + 1 := rfl

theorem Label.length_byte (l : Label) :
    (BitVec.ofNat 8 l.bytes.length).toNat = l.bytes.length := by
  have := l.le
  rw [BitVec.toNat_ofNat]
  omega

theorem Question.length_encode (q : Question) :
    q.encode.length = (labelBytes q.labels).length + 5 := by
  simp [Question.encode, be16]

theorem Header.length_encode (h : Header) : h.encode.length = 12 := rfl

theorem Address.length_encode (a : Address) : a.encode.length = 16 := rfl

/-- The header that stands at the start. -/
def Header.read (b : List Byte) : Header where
  id := u16 (b.getD 0 0) (b.getD 1 0)
  flags := u16 (b.getD 2 0) (b.getD 3 0)
  qdcount := u16 (b.getD 4 0) (b.getD 5 0)
  ancount := u16 (b.getD 6 0) (b.getD 7 0)
  nscount := u16 (b.getD 8 0) (b.getD 9 0)
  arcount := u16 (b.getD 10 0) (b.getD 11 0)

theorem Header.encode_read {b : List Byte} (h : 12 ≤ b.length) :
    (Header.read b).encode = b.take 12 := by
  simp only [Header.encode, Header.read, be16_u16]
  refine List.ext_getElem (by simp [h]) fun i hi _ => ?_
  have hi' : i < 12 := hi
  rw [List.getElem_take]
  interval_cases i <;> exact (List.getElem_eq_getD (h := by omega) 0).symm

end OpenCalifornia.Lib.Dns
