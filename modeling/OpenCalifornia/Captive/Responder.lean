import OpenCalifornia.Lib.Dns

/-! # The captive-portal DNS responder

`captive_dns.c`. A read outside the received bytes has no value; a reply is the list of the bytes
that are written, in their order. -/

namespace OpenCalifornia.Captive
open Lib.Bits (Byte)
open Lib.Dns (u16 be16 be32)

def maxNameWire : ℕ := 253

def recvMax : ℕ := 512

def replyMax : ℕ := 512

def drainMax : ℕ := 16

def answerRrLen : ℕ := 16

/-- `skip_qname` from the position `i`, where the name so far has `wire` bytes: the position behind
the name, or -1. Each turn of its loop goes on by a byte at least, so `n` turns are enough from
`len - n` on. -/
def skipQname (buf : List Byte) : ℕ → ℕ → ℕ → Option (Option ℕ)
  | 0, _, _ => none
  | n + 1, i, wire =>
    if buf.length ≤ i then some none
    else buf[i]?.bind fun labelLen =>
      if labelLen &&& 0xC0#8 ≠ 0 then some none
      else if labelLen = 0 then some (some (i + 1))
      else if i + 1 + labelLen.toNat > buf.length then some none
      else if wire + 1 + labelLen.toNat > maxNameWire then some none
      else skipQname buf n (i + 1 + labelLen.toNat) (wire + 1 + labelLen.toNat)

/-- The 16-bit number at a position. -/
def u16At (buf : List Byte) (i : ℕ) : Option (BitVec 16) := do
  let hi ← buf[i]?
  let lo ← buf[i + 1]?
  pure (u16 hi lo)

/-- The record that `build_reply` appends. -/
def answerRr (ip : BitVec 32) : List Byte :=
  [0xC0#8, 0x0C#8, 0, 1, 0, 1, 0, 0, 0, 0, 0, 4,
    (ip >>> 24).setWidth 8, (ip >>> 16).setWidth 8, (ip >>> 8).setWidth 8, ip.setWidth 8]

/-- `build_reply`: the reply, or -1. -/
def buildReply (answerIp : BitVec 32) (buf : List Byte) : Option (Option (List Byte)) :=
  if buf.length < 12 then some none
  else do
    let flags ← u16At buf 2
    if flags &&& 0x8000#16 ≠ 0 then return none
    let qdcount ← u16At buf 4
    if qdcount ≠ 1 then return none
    match ← skipQname buf (buf.length + 1) 12 0 with
    | none => return none
    | some qnameEnd =>
      if qnameEnd + 4 > buf.length then return none
      let qtype ← u16At buf qnameEnd
      let qclass ← u16At buf (qnameEnd + 2)
      let qsecLen := qnameEnd + 4 - 12
      let answer := qtype = 1 ∧ qclass = 1
      let replyLen := 12 + qsecLen + if answer then answerRrLen else 0
      if replyLen > replyMax then return none
      let id₀ ← buf[0]?
      let id₁ ← buf[1]?
      let rflags := 0x8000#16 ||| (flags &&& 0x7800#16) ||| 0x0400#16 ||| (flags &&& 0x0100#16)
      return some ([id₀, id₁, (rflags >>> 8).setWidth 8, rflags.setWidth 8, 0, 1, 0,
        if answer then 1 else 0, 0, 0, 0, 0] ++ (buf.drop 12).take qsecLen ++
        if answer then answerRr answerIp else [])

structure Datagram where
  bytes : List Byte
  ip : BitVec 32
  port : BitVec 16

/-- The bound socket, and the datagrams that wait on it. -/
structure Responder where
  bound : Bool
  answerIp : BitVec 32
  waiting : List Datagram

/-- What is received of a datagram, and what is sent back for it. -/
def respond (answerIp : BitVec 32) (d : Datagram) : Option (Option Datagram) := do
  let reply ← buildReply answerIp (d.bytes.take recvMax)
  return reply.map fun bytes => ⟨bytes, d.ip, d.port⟩

/-- The loop of `cali_captive_dns_poll`: the replies that are sent, and what still waits. A datagram
without bytes ends it. -/
def drain (answerIp : BitVec 32) : ℕ → List Datagram → Option (List Datagram × List Datagram)
  | 0, waiting => some ([], waiting)
  | _ + 1, [] => some ([], [])
  | k + 1, d :: waiting =>
    if d.bytes.length = 0 then some ([], waiting)
    else do
      let reply ← respond answerIp d
      let (sent, waiting) ← drain answerIp k waiting
      return (reply.toList ++ sent, waiting)

/-- `cali_captive_dns_poll` -/
def poll (r : Responder) : Option (List Datagram × Responder) :=
  if r.bound then (drain r.answerIp drainMax r.waiting).map fun (sent, waiting) =>
    (sent, { r with waiting })
  else some ([], r)

end OpenCalifornia.Captive
