import OpenCalifornia.SdLog.Record

/-! # The log on the card

What the SD task does with the segments: it opens the newest one and cuts what a power loss left
at its end, appends records and starts new segments, and deletes the oldest one. The card itself
does not fail here. -/

namespace OpenCalifornia.SdLog
open Lib Lib.Bits Lib.Buffer

/-- `CALI_SDLOG_SEGMENT_BYTES` -/
def segmentBytes : ℕ := 1024 * 1024

/-- The variables of the SD task, and the directory with all that was written. -/
structure Log where
  dir : Dir
  next : ℕ
  segFirst : ℕ
  segBytes : ℕ

/-- `find_seg` -/
def findSeg (d : Dir) (wantOldest : Bool) (skip : ℕ) : ℕ :=
  d.foldl (fun best s =>
    if segName s.first ∧ s.first ≠ skip ∧
        (best = 0 ∨ if wantOldest then s.first < best else best < s.first) then s.first
    else best) 0

def Dir.read (d : Dir) (first : ℕ) : Option (List Byte) :=
  (d.find? (·.first = first)).map Seg.bytes

def Dir.edit (d : Dir) (first : ℕ) (f : List Byte → List Byte) : Dir :=
  d.map fun s => if s.first = first then ⟨s.first, f s.bytes⟩ else s

/-- Behind the end of a file that is there, or of a new one. -/
def Dir.append (d : Dir) (first : ℕ) (s : List Byte) : Dir :=
  if d.any (·.first = first) then d.edit first (· ++ s) else d ++ [⟨first, s⟩]

structure Recovery where
  good : ℕ := 0
  pos : ℕ := 0
  next : ℕ
  whole : Bool := true

/-- One `fgets` of `recover`. -/
def recoverChunk (first : ℕ) (r : Recovery) (chunk : List Byte) : Recovery :=
  let t := text chunk
  let pos := r.pos + t.length
  match lineSeq r.whole t with
  | some seq =>
    if first ≤ seq ∧ seq < uint32Max then ⟨pos, pos, seq + 1, complete t⟩
    else ⟨r.good, pos, r.next, complete t⟩
  | none => ⟨r.good, pos, r.next, complete t⟩

def recover (first : ℕ) (bytes : List Byte) : Recovery :=
  (chunks bytes).foldl (recoverChunk first) { next := first }

/-- `cali_sdlog_open` -/
def openLog (d : Dir) : Log :=
  let newest := findSeg d false 0
  if newest ≠ 0 then
    let r := recover newest ((d.read newest).getD [])
    let d := if r.good < r.pos then d.edit newest (·.take r.good) else d
    if segmentBytes ≤ r.good then ⟨d.append r.next [], r.next, r.next, 0⟩
    else ⟨d.append newest [], r.next, newest, r.good⟩
  else ⟨d.append 1 [], 1, 1, 0⟩

/-- A new segment when the line would pass the end of this one. -/
def Log.roll (log : Log) (l : List Byte) : Log :=
  if 0 < log.segBytes ∧ segmentBytes < log.segBytes + l.length then
    { log with dir := log.dir.append log.next [], segFirst := log.next, segBytes := 0 }
  else log

/-- `cali_sdlog_write` -/
def Log.write (log : Log) (boot : BitVec 32) (r : Rec) : Log :=
  match format lineMax log.next boot r with
  | none => log
  | some l =>
    let log := log.roll l
    { log with
      dir := log.dir.append log.segFirst l
      segBytes := log.segBytes + l.length
      next := (log.next + 1) % 2 ^ 32 }

/-- `cali_sdlog_delete_oldest` -/
def Log.deleteOldest (log : Log) : Log :=
  let old := findSeg log.dir true log.segFirst
  if old = 0 ∨ log.segFirst < old then log
  else { log with dir := log.dir.filter (·.first ≠ old) }

variable {d pre post : Dir} {s : Seg} {first : ℕ} {l : List Byte}

theorem findSeg_newest (h : Sorted (pre ++ [s])) : findSeg (pre ++ [s]) false 0 = s.first := by
  have happ : ∀ (d : Dir) (s : Seg), findSeg (d ++ [s]) false 0 =
      if segName s.first ∧ s.first ≠ 0 ∧ (findSeg d false 0 = 0 ∨ findSeg d false 0 < s.first)
        then s.first else findSeg d false 0 := by
    intro d s
    rw [findSeg, List.foldl_append]
    rfl
  have hle : ∀ d : Dir, Sorted d → ∀ n, (∀ s ∈ d, s.first < n) → 0 < n → findSeg d false 0 < n := by
    intro d
    induction d using List.reverseRecOn with
    | nil => exact fun _ n _ hn => hn
    | append_singleton d s ih =>
      intro hd n hall hn
      rw [happ]
      split_ifs with hcond
      · exact hall s (by simp)
      · exact ih hd.left n (fun x hx => hall x (List.mem_append_left _ hx)) hn
  have hpos := h.pos (s := s) (by simp)
  have hlt := hle pre h.left s.first
    (fun x hx => (List.pairwise_append.mp h.ascending).2.2 x hx s (by simp)) hpos.1
  rw [happ, if_pos ⟨h.named s (by simp), by omega, Or.inr hlt⟩]

theorem Sorted.not_mem (h : Sorted (pre ++ s :: post)) :
    (∀ x ∈ pre, x.first ≠ s.first) ∧ ∀ x ∈ post, x.first ≠ s.first := by
  obtain ⟨-, hpost, hcross⟩ := List.pairwise_append.mp h.ascending
  exact ⟨fun x hx => (hcross x hx s List.mem_cons_self).ne,
    fun x hx => ((List.pairwise_cons.mp hpost).1 x hx).ne'⟩

theorem read_eq (h : Sorted (pre ++ s :: post)) :
    Dir.read (pre ++ s :: post) s.first = some s.bytes := by
  rw [Dir.read, find_seg h]
  rfl

theorem edit_eq (h : Sorted (pre ++ s :: post)) (f : List Byte → List Byte) :
    Dir.edit (pre ++ s :: post) s.first f = pre ++ ⟨s.first, f s.bytes⟩ :: post := by
  obtain ⟨hpre, hpost⟩ := h.not_mem
  have hid : ∀ d : Dir, (∀ x ∈ d, x.first ≠ s.first) → d.edit s.first f = d := by
    intro d hd
    rw [Dir.edit, List.map_congr_left fun x hx => if_neg (hd x hx), List.map_id']
  rw [Dir.edit, List.map_append, List.map_cons, if_pos rfl, ← Dir.edit, ← Dir.edit, hid pre hpre,
    hid post hpost]

theorem append_eq (h : Sorted (pre ++ [s])) (l : List Byte) :
    Dir.append (pre ++ [s]) s.first l = pre ++ [⟨s.first, s.bytes ++ l⟩] := by
  rw [Dir.append, if_pos (by simp), edit_eq h]

theorem append_new (h : ∀ s ∈ d, s.first < first) (l : List Byte) :
    d.append first l = d ++ [⟨first, l⟩] := by
  rw [Dir.append, if_neg]
  simp only [List.any_eq_true, decide_eq_true_eq, not_exists, not_and]
  exact fun s hs => (h s hs).ne

end OpenCalifornia.SdLog
