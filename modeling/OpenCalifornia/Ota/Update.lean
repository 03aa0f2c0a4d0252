import OpenCalifornia.Lib.Log
import OpenCalifornia.Lib.Machine
import OpenCalifornia.Ota.Manifest

/-! # The firmware update

`ota.c`: the owner task asks for a check or an install, and the update task runs it through the
port, which may answer anything. The owner may ask at any time, also between two port calls of a
run. -/

namespace OpenCalifornia.Ota
open Lib Lib.Bits Lib.Machine

inductive St
  | idle | checking | upToDate | available | downloading | verifying | rebooting | error
  deriving DecidableEq, Repr

/-- `s_pending`, where something is asked for: a check is 1, an install 2. -/
inductive Req
  | check | install
  deriving DecidableEq, Repr

/-- Where `cali_ota_work` stands: before a port call, or before it returns. The channel was read at
its start. -/
inductive Pc
  | out
  | get (latest : Bool) (req : Req)
  | download (latest : Bool) (m : Manifest)
  | hash (m : Manifest)
  | abort (code : String)
  | commit
  | restart
  | return
  deriving DecidableEq, Repr

structure State where
  /-- The platform has port functions. -/
  ops : Bool
  /-- `cali_fw_version()` -/
  fw : List Byte
  state : St := .idle
  pending : Option Req := none
  pct : ℕ := 0
  error : Option String := none
  sha : List Byte := []
  latest : Bool := false
  pc : Pc := .out

/-- What the update task does. -/
inductive Did
  | took (req : Req)
  | fetched (latest : Bool) (body : Option (List Byte))
  | downloaded (latest : Bool) (size : ℕ) (ok : Bool)
  | hashed (size : ℕ) (digest : Option (List Byte))
  | committed (ok : Bool)
  | aborted
  | restarted
  | settled (st : St)
  | returned
  deriving DecidableEq, Repr

/-- A step: what is answered to the owner, the requests that were accepted, what the task did. -/
structure Out where
  code : ℤ := 0
  accepted : List Req := []
  did : List Did := []

def busy (st : St) : Bool := st = .checking ∨ st = .downloading ∨ st = .verifying ∨ st = .rebooting

def request (o : State) (install : Bool) : Out × State :=
  if !o.ops then ({ code := -1 }, o)
  else if busy o.state then ({ code := -2 }, o)
  else
    let req : Req := if install then .install else .check
    ({ accepted := [req] },
      { o with sha := [], error := none, pct := 0, pending := some req, state := .checking })

/-- `cali_ota_set_channel`, where the store takes the byte or not. -/
def setChannel (o : State) (latest stored : Bool) : Out × State :=
  if !stored then ({ code := -1 }, o)
  else if o.state = .available ∨ o.state = .upToDate then
    ({}, { o with latest := latest, sha := [], state := .idle })
  else ({}, { o with latest := latest })

/-- `fail`, at the end of a run. -/
def fail (o : State) (code : String) : List Did × State :=
  ([.settled .error], { o with error := some code, state := .error, pc := .return })

def settle (o : State) (st : St) (pc : Pc) : List Did × State :=
  ([.settled st], { o with state := st, pc := pc })

def hexDigit (n : ℕ) : Byte := BitVec.ofNat 8 (if n < 10 then 0x30 + n else 0x61 + (n - 10))

/-- `got_hex` -/
def hexText (digest : List Byte) : List Byte :=
  digest.flatMap fun x => [hexDigit (x.toNat / 16), hexDigit (x.toNat % 16)]

/-- The start of `cali_ota_work`. -/
def begin (o : State) : List Did × State :=
  match o.pending with
  | some req => if o.ops then ([.took req], { o with pending := none, pc := .get o.latest req })
      else ([], { o with pending := none })
  | none => ([], o)

/-- After the answer to `get`. -/
def afterGet (o : State) (latest : Bool) (req : Req) (body : Option (List Byte)) :
    List Did × State :=
  match body.bind parseManifest with
  | none => fail o "manifest"
  | some m =>
    if isRunning o.fw m.sha then settle o .upToDate .return
    else
      let o := { o with sha := m.sha }
      match req with
      | .install => settle o .downloading (.download latest m)
      | .check => settle o .available .return

def afterDownload (o : State) (m : Manifest) (ok : Bool) : List Did × State :=
  if ok then settle o .verifying (.hash m) else ([], { o with pc := .abort "download" })

def afterHash (o : State) (m : Manifest) (digest : Option (List Byte)) : List Did × State :=
  if (digest.map hexText).getD [] = m.sha256 then ([], { o with pc := .commit })
  else ([], { o with pc := .abort "checksum" })

def afterCommit (o : State) (ok : Bool) : List Did × State :=
  if ok then settle o .rebooting .restart else fail o "commit"

/-- The calls of the owner, and the answers of the port. -/
inductive In
  | request (install : Bool)
  | setChannel (latest stored : Bool)
  | progress (done total : ℕ)
  | work
  | got (body : Option (List Byte))
  | downloaded (ok : Bool)
  | hashed (digest : Option (List Byte))
  | committed (ok : Bool)
  | aborted
  | restarted
  | returned

/-- The answer to a port call, and what follows it. -/
def after (did : Did) (r : List Did × State) : Option (Out × State) :=
  some ({ did := did :: r.1 }, r.2)

def otaStep (i : In) (o : State) : Option (Out × State) :=
  match i, o.pc with
  | .request install, _ => some (request o install)
  | .setChannel latest stored, _ => some (setChannel o latest stored)
  | .progress done total, .download _ _ =>
    some ({}, { o with
      pct := if total = 0 then 0 else if done ≥ total then 100 else done * 100 / total })
  | .work, .out => some ({ did := (begin o).1 }, (begin o).2)
  | .got body, .get latest req => after (.fetched latest body) (afterGet o latest req body)
  | .downloaded ok, .download latest m =>
    after (.downloaded latest m.size ok) (afterDownload o m ok)
  | .hashed digest, .hash m =>
    if digest.all fun d => d.length = 32 then after (.hashed m.size digest) (afterHash o m digest)
    else none
  | .committed ok, .commit => after (.committed ok) (afterCommit o ok)
  | .aborted, .abort code => after .aborted (fail o code)
  | .restarted, .restart => after .restarted ([], { o with pc := .return })
  | .returned, .return => after .returned ([], { o with pc := .out })
  | _, _ => none

def isTook : Did → Bool
  | .took _ => true
  | _ => false

/-- What the current run of the task did before. -/
abbrev thisRun (log : List Did) : List Did := since isTook log

/-- A commit stands at the end of an install: the manifest promised another build of this size and
digest, and that is what the slot holds. -/
def MayCommit (fw : List Byte) (pre : List Did) : Prop :=
  ∃ front latest body m digest, pre = front ++ [.took .install, .fetched latest (some body),
      .settled .downloading, .downloaded latest m.size true, .settled .verifying,
      .hashed m.size (some digest)] ∧
    Promises body m ∧ isRunning fw m.sha = false ∧ digest.length = 32 ∧ hexText digest = m.sha256

/-- A run ends with a commit and the restart, or it settles without a commit, and then a download
was aborted unless the commit was tried. -/
def MayReturn (pre : List Did) : Prop :=
  (∃ front, pre = front ++ [.committed true, .settled .rebooting, .restarted]) ∨
    (∃ front st, pre = front ++ [.settled st] ∧ (st = .error ∨ st = .upToDate ∨ st = .available)) ∧
      .committed true ∉ thisRun pre ∧
      ∀ latest size ok, .downloaded latest size ok ∈ thisRun pre →
        .aborted ∈ thisRun pre ∨ .committed false ∈ thisRun pre

def Rule (fw : List Byte) (pre : List Did) : Did → Prop
  | .committed _ => MayCommit fw pre
  | .restarted => ∃ front, pre = front ++ [.committed true, .settled .rebooting]
  | .returned => MayReturn pre
  | _ => True

/-- The requests that the task took, in order. -/
def tookOf (log : List Did) : List Req :=
  log.filterMap fun x => match x with
    | .took req => some req
    | _ => none

abbrev OtaRecord := Record In Out State

def didOf : List OtaRecord → List Did
  | [] => []
  | r :: tr => didOf tr ++ r.out.did

def acceptedOf : List OtaRecord → List Req
  | [] => []
  | r :: tr => acceptedOf tr ++ r.out.accepted

/-- What the place in `cali_ota_work` says of the current run. -/
def Trail (fw : List Byte) (log : List Did) : Pc → Prop
  | .out => True
  | .get _ req => ∃ front, log = front ++ [.took req]
  | .download latest m => ∃ front body, log = front ++ [.took .install, .fetched latest (some body),
      .settled .downloading] ∧ Promises body m ∧ isRunning fw m.sha = false
  | .hash m => ∃ front latest body, log = front ++ [.took .install, .fetched latest (some body),
      .settled .downloading, .downloaded latest m.size true, .settled .verifying] ∧
      Promises body m ∧ isRunning fw m.sha = false
  | .abort _ => ∃ front l, log = front ++ .took .install :: l ∧ (∀ x ∈ l, isTook x = false) ∧
      ∀ ok, .committed ok ∉ l
  | .commit => MayCommit fw log
  | .restart => ∃ front, log = front ++ [.committed true, .settled .rebooting]
  | .return => MayReturn log

/-- Between two port calls of a run nothing is asked for, and the state refuses everything. -/
def Pc.inside (pc : Pc) : Prop := pc ≠ .out ∧ pc ≠ .return

structure Inv (fw : List Byte) (accepted : List Req) (log : List Did) (o : State) : Prop where
  build : o.fw = fw
  keeps : Keeps (Rule fw) log
  trail : Trail fw log o.pc
  requests : accepted = tookOf log ++ o.pending.toList
  inside : o.pc.inside → o.pending = none ∧ busy o.state = true
  waiting : o.pending ≠ none → o.state = .checking ∧ o.ops = true

variable {fw : List Byte} {accepted : List Req} {log l : List Did} {o o' : State}

theorem tookOf_append (h : ∀ x ∈ l, isTook x = false) : tookOf (log ++ l) = tookOf log := by
  have hnone : tookOf l = [] := by
    unfold tookOf
    rw [List.filterMap_eq_nil_iff]
    intro x hx
    have hno := h x hx
    cases x <;> first | rfl | cases hno
  unfold tookOf at hnone ⊢
  rw [List.filterMap_append, hnone, List.append_nil]

theorem thisRun_took (front : List Did) (req : Req) (h : ∀ x ∈ l, isTook x = false) :
    thisRun (front ++ .took req :: l) = l := since_mark front rfl h

theorem keeps_settled (h : Keeps (Rule fw) log) (st : St) :
    Keeps (Rule fw) (log ++ [.settled st]) := by
  have hrule : Rule fw log (.settled st) := trivial
  exact h.append hrule

theorem mayReturn_settled (front : List Did) (req : Req) {st : St}
    (hst : st = .error ∨ st = .upToDate ∨ st = .available) (hl : ∀ x ∈ l, isTook x = false)
    (hcommit : .committed true ∉ l)
    (hload : ∀ latest size ok, .downloaded latest size ok ∈ l →
      .aborted ∈ l ∨ .committed false ∈ l) :
    MayReturn (front ++ .took req :: (l ++ [.settled st])) := by
  refine .inr ⟨⟨front ++ .took req :: l, st, by simp, hst⟩, ?_⟩
  rw [thisRun_took front req (by simpa [isTook, or_imp, forall_and] using hl)]
  refine ⟨by simpa using hcommit, fun latest size ok hmem => ?_⟩
  have hmem : .downloaded latest size ok ∈ l := by simpa using hmem
  exact (hload _ _ _ hmem).imp (List.mem_append_left _) (List.mem_append_left _)

theorem Inv.work (h : Inv fw accepted log o) (hin : o.pc.inside)
    (hsame : o'.fw = o.fw ∧ o'.pending = o.pending) (htook : ∀ x ∈ l, isTook x = false)
    (hkeeps : Keeps (Rule fw) (log ++ l)) (htrail : Trail fw (log ++ l) o'.pc)
    (hbusy : o'.pc.inside → busy o'.state = true) : Inv fw accepted (log ++ l) o' where
  build := hsame.1.trans h.build
  keeps := hkeeps
  trail := htrail
  requests := by rw [tookOf_append htook, hsame.2, h.requests]
  inside hin' := ⟨hsame.2.trans (h.inside hin).1, hbusy hin'⟩
  waiting hp := absurd (hsame.2.trans (h.inside hin).1) hp

theorem Inv.got {latest : Bool} {req : Req} {body : Option (List Byte)}
    (h : Inv fw accepted log o) (hpc : o.pc = .get latest req) :
    Inv fw accepted (log ++ .fetched latest body :: (afterGet o latest req body).1)
      (afterGet o latest req body).2 := by
  have hin : o.pc.inside := by rw [hpc]; exact ⟨by simp, by simp⟩
  have htrail := h.trail
  rw [hpc] at htrail
  obtain ⟨front, rfl⟩ := htrail
  have hreturn : ∀ st, st = .error ∨ st = .upToDate ∨ st = .available →
      MayReturn (front ++ [.took req] ++ [.fetched latest body, .settled st]) := by
    intro st hst
    have hmay := mayReturn_settled front req hst (l := [.fetched latest body]) (by simp [isTook])
      (by simp) (by simp)
    simpa using hmay
  unfold afterGet
  cases hparse : body.bind parseManifest with
  | none =>
    exact h.work hin ⟨rfl, rfl⟩ (by simp [fail, isTook])
      (h.keeps.free (by simp [fail, Rule])) (hreturn _ (.inl rfl)) fun hi => absurd rfl hi.2
  | some m =>
    obtain ⟨text, rfl, hm⟩ := Option.bind_eq_some_iff.mp hparse
    dsimp only
    cases hrun : isRunning o.fw m.sha with
    | true =>
      rw [if_pos rfl]
      exact h.work hin ⟨rfl, rfl⟩ (by simp [settle, isTook])
        (h.keeps.free (by simp [settle, Rule])) (hreturn _ (.inr (.inl rfl))) fun hi =>
          absurd rfl hi.2
    | false =>
      rw [if_neg Bool.false_ne_true]
      cases req with
      | check =>
        exact h.work hin ⟨rfl, rfl⟩ (by simp [settle, isTook])
          (h.keeps.free (by simp [settle, Rule])) (hreturn _ (.inr (.inr rfl)))
          fun hi => absurd rfl hi.2
      | install =>
        exact h.work hin ⟨rfl, rfl⟩ (by simp [settle, isTook])
          (h.keeps.free (by simp [settle, Rule]))
          ⟨front, text, by simp [settle], promises_of_parse hm, h.build ▸ hrun⟩ fun _ => rfl

theorem Inv.downloaded {latest ok : Bool} {m : Manifest} (h : Inv fw accepted log o)
    (hpc : o.pc = .download latest m) :
    Inv fw accepted (log ++ .downloaded latest m.size ok :: (afterDownload o m ok).1)
      (afterDownload o m ok).2 := by
  have hin : o.pc.inside := by rw [hpc]; exact ⟨by simp, by simp⟩
  have htrail := h.trail
  rw [hpc] at htrail
  obtain ⟨front, body, rfl, hm, hrun⟩ := htrail
  unfold afterDownload
  cases ok with
  | true =>
    rw [if_pos rfl]
    exact h.work hin ⟨rfl, rfl⟩ (by simp [settle, isTook]) (h.keeps.free (by simp [settle, Rule]))
      ⟨front, latest, body, by simp [settle], hm, hrun⟩ fun _ => rfl
  | false =>
    rw [if_neg Bool.false_ne_true]
    refine h.work hin ⟨rfl, rfl⟩ (by simp [isTook]) (h.keeps.free (by simp [Rule])) ?_
      fun _ => (h.inside hin).2
    exact ⟨front, [.fetched latest (some body), .settled .downloading,
      .downloaded latest m.size false], by simp, by simp [isTook], by simp⟩

theorem Inv.hashed {m : Manifest} {digest : Option (List Byte)} (h : Inv fw accepted log o)
    (hpc : o.pc = .hash m) (hlen : ∀ d, digest = some d → d.length = 32) :
    Inv fw accepted (log ++ .hashed m.size digest :: (afterHash o m digest).1)
      (afterHash o m digest).2 := by
  have hin : o.pc.inside := by rw [hpc]; exact ⟨by simp, by simp⟩
  have htrail := h.trail
  rw [hpc] at htrail
  obtain ⟨front, latest, body, rfl, hm, hrun⟩ := htrail
  unfold afterHash
  by_cases hsame : (digest.map hexText).getD [] = m.sha256
  · rw [if_pos hsame]
    refine h.work hin ⟨rfl, rfl⟩ (by simp [isTook]) (h.keeps.free (by simp [Rule])) ?_
      fun _ => (h.inside hin).2
    cases digest with
    | none =>
      -- the promised digest is not empty
      have hlen := hm.sha256_hex.1
      rw [← hsame] at hlen
      cases hlen
    | some d => exact ⟨front, latest, body, m, d, by simp, hm, hrun, hlen d rfl, hsame⟩
  · rw [if_neg hsame]
    refine h.work hin ⟨rfl, rfl⟩ (by simp [isTook]) (h.keeps.free (by simp [Rule])) ?_
      fun _ => (h.inside hin).2
    exact ⟨front, [.fetched latest (some body), .settled .downloading,
      .downloaded latest m.size true,
      .settled .verifying, .hashed m.size digest], by simp, by simp [isTook], by simp⟩

theorem Inv.aborted {code : String} (h : Inv fw accepted log o) (hpc : o.pc = .abort code) :
    Inv fw accepted (log ++ .aborted :: (fail o code).1) (fail o code).2 := by
  have hin : o.pc.inside := by rw [hpc]; exact ⟨by simp, by simp⟩
  have htrail := h.trail
  rw [hpc] at htrail
  obtain ⟨front, l, rfl, hl, hno⟩ := htrail
  refine h.work hin ⟨rfl, rfl⟩ (by simp [fail, isTook]) (h.keeps.free (by simp [fail, Rule])) ?_
    fun hi => absurd rfl hi.2
  have hmay := mayReturn_settled front .install (.inl (rfl : St.error = St.error))
      (l := l ++ [.aborted])
    (by simpa [isTook, or_imp, forall_and] using hl) (by simpa using hno true)
    fun _ _ _ _ => .inl (by simp)
  show MayReturn _
  simpa [fail] using hmay

theorem Inv.committed {ok : Bool} (h : Inv fw accepted log o) (hpc : o.pc = .commit) :
    Inv fw accepted (log ++ .committed ok :: (afterCommit o ok).1) (afterCommit o ok).2 := by
  have hin : o.pc.inside := by rw [hpc]; exact ⟨by simp, by simp⟩
  have htrail := h.trail
  rw [hpc] at htrail
  have hone : Keeps (Rule fw) (log ++ [.committed ok]) := h.keeps.append htrail
  have hrestart : ∃ front, log ++ [.committed true, .settled .rebooting] =
      front ++ [.committed true, .settled .rebooting] := ⟨log, rfl⟩
  obtain ⟨front, latest, body, m, digest, rfl, -⟩ := htrail
  unfold afterCommit
  cases ok with
  | true =>
    rw [if_pos rfl]
    refine h.work hin ⟨rfl, rfl⟩ (by simp [settle, isTook]) ?_ hrestart fun _ => rfl
    have hboth := keeps_settled hone .rebooting
    simpa [settle] using hboth
  | false =>
    rw [if_neg Bool.false_ne_true]
    refine h.work hin ⟨rfl, rfl⟩ (by simp [fail, isTook]) ?_ ?_ fun hi => absurd rfl hi.2
    · have hboth := keeps_settled hone .error
      simpa [fail] using hboth
    · have hmay := mayReturn_settled front .install (.inl (rfl : St.error = St.error))
        (l := [.fetched latest (some body), .settled .downloading, .downloaded latest m.size true,
          .settled .verifying, .hashed m.size (some digest), .committed false])
        (by simp [isTook]) (by simp) fun _ _ _ _ => .inr (by simp)
      show MayReturn _
      simpa [fail] using hmay

theorem Inv.restarted (h : Inv fw accepted log o) (hpc : o.pc = .restart) :
    Inv fw accepted (log ++ [.restarted]) { o with pc := .return } := by
  have hin : o.pc.inside := by rw [hpc]; exact ⟨by simp, by simp⟩
  have htrail := h.trail
  rw [hpc] at htrail
  have hkeeps : Keeps (Rule fw) (log ++ [.restarted]) := h.keeps.append htrail
  obtain ⟨front, rfl⟩ := htrail
  exact h.work hin ⟨rfl, rfl⟩ (by simp [isTook]) hkeeps (.inl ⟨front, by simp⟩)
    fun hi => absurd rfl hi.2

theorem Inv.returned (h : Inv fw accepted log o) (hpc : o.pc = .return) :
    Inv fw accepted (log ++ [.returned]) { o with pc := .out } where
  build := h.build
  keeps := by
    have htrail := h.trail
    rw [hpc] at htrail
    exact h.keeps.append htrail
  trail := trivial
  requests := by rw [tookOf_append (by simp [isTook]), h.requests]
  inside hi := absurd rfl hi.1
  waiting := h.waiting

theorem Inv.begin (h : Inv fw accepted log o) :
    Inv fw accepted (log ++ (begin o).1) (begin o).2 := by
  unfold Ota.begin
  cases hp : o.pending with
  | none =>
    rw [List.append_nil]
    exact h
  | some req =>
    obtain ⟨hst, hops⟩ := h.waiting (by simp [hp])
    dsimp only
    rw [if_pos hops]
    refine ⟨h.build, h.keeps.append trivial, ⟨log, rfl⟩, ?_, fun _ => ⟨rfl, by simp [hst, busy]⟩,
      fun hno => absurd rfl hno⟩
    rw [h.requests, hp]
    simp [tookOf]

theorem Inv.owner {more : List Req} (h : Inv fw accepted log o)
    (hsame : o'.fw = o.fw ∧ o'.ops = o.ops ∧ o'.pc = o.pc)
    (hbusy : busy o.state = true → o'.state = o.state)
    (hmore : more = [] ∧ o'.pending = o.pending ∨
      busy o.state = false ∧ o.ops = true ∧ (∃ req, more = [req] ∧ o'.pending = some req) ∧
        o'.state = .checking) : Inv fw (accepted ++ more) log o' := by
  obtain ⟨hfw, hops, hpc⟩ := hsame
  have hidle : busy o.state = false → o.pending = none := by
    intro hno
    by_contra hp
    rw [(h.waiting hp).1] at hno
    cases hno
  refine ⟨hfw.trans h.build, h.keeps, hpc ▸ h.trail, ?_, fun hi => ?_, fun hp => ?_⟩
  · obtain ⟨rfl, hp⟩ | ⟨hno, -, ⟨req, rfl, hp⟩, -⟩ := hmore
    · rw [hp, List.append_nil, h.requests]
    · rw [hp, h.requests, hidle hno]
      simp
  · rw [hpc] at hi
    obtain ⟨hp, hb⟩ := h.inside hi
    obtain ⟨-, hp'⟩ | ⟨hno, -⟩ := hmore
    · exact ⟨hp'.trans hp, by rw [hbusy hb, hb]⟩
    · rw [hb] at hno
      cases hno
  · obtain ⟨-, hp'⟩ | ⟨-, ho, -, hst⟩ := hmore
    · obtain ⟨hst, ho⟩ := h.waiting (hp' ▸ hp)
      exact ⟨(hbusy (by rw [hst]; rfl)).trans hst, hops.trans ho⟩
    · exact ⟨hst, hops.trans ho⟩

theorem Inv.request (h : Inv fw accepted log o) (install : Bool) :
    Inv fw (accepted ++ (request o install).1.accepted) log (request o install).2 := by
  unfold Ota.request
  split_ifs with hops hbusy hinstall
  · exact h.owner ⟨rfl, rfl, rfl⟩ (fun _ => rfl) (.inl ⟨rfl, rfl⟩)
  · exact h.owner ⟨rfl, rfl, rfl⟩ (fun _ => rfl) (.inl ⟨rfl, rfl⟩)
  all_goals
    exact h.owner ⟨rfl, rfl, rfl⟩ (fun hb => absurd hb hbusy)
      (.inr ⟨by simpa using hbusy, by simpa using hops, ⟨_, rfl, rfl⟩, rfl⟩)

theorem Inv.setChannel (h : Inv fw accepted log o) (latest stored : Bool) :
    Inv fw (accepted ++ (setChannel o latest stored).1.accepted) log
      (setChannel o latest stored).2 := by
  unfold Ota.setChannel
  split_ifs with hstored hst
  · exact h.owner ⟨rfl, rfl, rfl⟩ (fun _ => rfl) (.inl ⟨rfl, rfl⟩)
  · refine h.owner ⟨rfl, rfl, rfl⟩ (fun hb => ?_) (.inl ⟨rfl, rfl⟩)
    obtain hst | hst := hst <;> (rw [hst] at hb; cases hb)
  · exact h.owner ⟨rfl, rfl, rfl⟩ (fun _ => rfl) (.inl ⟨rfl, rfl⟩)

theorem request_did (o : State) (install : Bool) : (request o install).1.did = [] := by
  unfold request
  split_ifs <;> rfl

theorem setChannel_did (o : State) (latest stored : Bool) :
    (setChannel o latest stored).1.did = [] := by
  unfold setChannel
  split_ifs <;> rfl

theorem Inv.step {i : In} {out : Out} (h : Inv fw accepted log o)
    (hs : otaStep i o = some (out, o')) :
    Inv fw (accepted ++ out.accepted) (log ++ out.did) o' := by
  have hnone : accepted ++ [] = accepted := List.append_nil _
  unfold otaStep at hs
  split at hs
  · rename_i install
    have hdid := request_did o install
    have hreq := h.request install
    rw [Option.some.inj hs] at hdid hreq
    rwa [hdid, List.append_nil]
  · rename_i latest stored
    have hdid := setChannel_did o latest stored
    have hset := h.setChannel latest stored
    rw [Option.some.inj hs] at hdid hset
    rwa [hdid, List.append_nil]
  · cases hs
    show Inv fw (accepted ++ []) (log ++ []) _
    rw [List.append_nil log]
    exact h.owner ⟨rfl, rfl, rfl⟩ (fun _ => rfl) (.inl ⟨rfl, rfl⟩)
  · cases hs
    rw [hnone]
    exact h.begin
  · cases hs
    rw [hnone]
    exact h.got ‹_›
  · cases hs
    rw [hnone]
    exact h.downloaded ‹_›
  · split_ifs at hs with hlen
    cases hs
    rw [hnone]
    refine h.hashed ‹_› fun d hd => ?_
    subst hd
    simpa using hlen
  · cases hs
    rw [hnone]
    exact h.committed ‹_›
  · cases hs
    rw [hnone]
    exact h.aborted ‹_›
  · cases hs
    rw [hnone]
    exact h.restarted ‹_›
  · cases hs
    rw [hnone]
    exact h.returned ‹_›
  · cases hs

variable {ops : Bool} {tr : List OtaRecord}

theorem run_inv (h : Run otaStep { ops := ops, fw := fw } tr o) :
    Inv fw (acceptedOf tr) (didOf tr) o := by
  induction h with
  | nil =>
    exact ⟨rfl, Keeps.nil, trivial, rfl, fun hi => absurd rfl hi.1, fun hno => absurd rfl hno⟩
  | cons _ hs ih => exact ih.step hs

/-- Whatever is asked for and whatever the port answers: commits, restarts and ends are where the
rule allows them, and each accepted request is taken by one run, or still waits. -/
theorem commits_promised (h : Run otaStep { ops := ops, fw := fw } tr o) :
    Keeps (Rule fw) (didOf tr) ∧ acceptedOf tr = tookOf (didOf tr) ++ o.pending.toList :=
  ⟨(run_inv h).keeps, (run_inv h).requests⟩

/-- `{"sha":"a…a","sha256":"b…b","size":7}` -/
def offer : List Byte :=
  [0x7B, 0x22] ++ shaKey ++ [0x22, 0x3A, 0x22] ++ List.replicate 40 0x61 ++ [0x22, 0x2C, 0x22] ++
    sha256Key ++ [0x22, 0x3A, 0x22] ++ List.replicate 64 0x62 ++ [0x22, 0x2C, 0x22] ++ sizeKey ++
    [0x22, 0x3A, 0x37, 0x7D]

/-- An install whose download breaks off, and one that is asked for again while it runs. The newest
call is first. -/
def secondInstall : List In :=
  [.returned, .restarted, .committed true, .hashed (some (List.replicate 32 0xBB)), .request true,
    .downloaded true, .progress 3 7, .got (some offer), .work, .request true,
    .returned, .aborted, .downloaded false, .got (some offer), .work, .request true]

/-- A build `c…c` runs. -/
def running : State := { ops := true, fw := List.replicate 40 0x63 }

theorem commits_promised_broken : ∃ tr o, Run otaStep running tr o ∧
    tr.map Record.inp = secondInstall ∧ o.state = .rebooting ∧
    acceptedOf tr = [.install, .install] ∧
    (didOf tr).filter (fun x => isTook x ∨ x = .aborted ∨ x = .committed true) =
      [.took .install, .aborted, .took .install, .committed true] ∧
    Keeps (Rule running.fw) (didOf tr) ∧
    acceptedOf tr = tookOf (didOf tr) ++ o.pending.toList := by
  have hend : (exec otaStep running secondInstall).map (fun r => (r.2.state, acceptedOf r.1,
      (didOf r.1).filter fun x => isTook x ∨ x = .aborted ∨ x = .committed true)) =
      some (.rebooting, [.install, .install],
        [.took .install, .aborted, .took .install, .committed true]) := by decide
  obtain ⟨tr, o, -, hrun, hinp, hend⟩ := run_of_view hend
  obtain ⟨hst, hend⟩ := Prod.mk.inj hend
  obtain ⟨hacc, hdid⟩ := Prod.mk.inj hend
  exact ⟨tr, o, hrun, hinp, hst, hacc, hdid, commits_promised hrun⟩

end OpenCalifornia.Ota
