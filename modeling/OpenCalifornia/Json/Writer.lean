import Mathlib
import OpenCalifornia.Lib.Json

/-! # The bounded JSON writer

`json.c` writes a document call by call into a buffer of a fixed capacity. A comma is due where the
last byte written says so, and after an overflow every call does nothing. -/

namespace OpenCalifornia.Json
open Lib Lib.Bits

/-- `cali_json_t`, with the memory that `buf` points to. -/
structure Writer where
  mem : ℕ → Byte
  cap : ℕ
  pos : ℕ := 0
  overflow : Bool := false

/-- `memcpy` of `s` to `pos`, and a NUL behind it. -/
def store (mem : ℕ → Byte) (pos : ℕ) (s : List Byte) (i : ℕ) : Byte :=
  if pos ≤ i ∧ i < pos + s.length then s.getD (i - pos) 0
  else if i = pos + s.length then 0
  else mem i

def raw (j : Writer) (s : List Byte) : Writer :=
  if j.overflow then j
  else if j.cap = 0 ∨ j.pos + s.length > j.cap - 1 then { j with overflow := true }
  else { j with mem := store j.mem j.pos s, pos := j.pos + s.length }

def ch (j : Writer) (c : Byte) : Writer := raw j [c]

/-- The byte after which no comma is due. -/
def opens (c : Byte) : Bool := c = 0x7B ∨ c = 0x5B ∨ c = 0x3A

def comma (j : Writer) : Writer :=
  if j.overflow ∨ j.pos = 0 then j
  else if opens (j.mem (j.pos - 1)) then j
  else raw j [0x2C]

/-- A digit of `%x`. -/
def hexDigit (n : ℕ) : Byte := BitVec.ofNat 8 (if n < 10 then 0x30 + n else 0x61 + (n - 10))

/-- What `escaped` writes for a byte. -/
def escape (c : Byte) : List Byte :=
  if c = 0x22 then [0x5C, 0x22]
  else if c = 0x5C then [0x5C, 0x5C]
  else if c = 0x0A then [0x5C, 0x6E]
  else if c = 0x0D then [0x5C, 0x72]
  else if c = 0x09 then [0x5C, 0x74]
  else if c.toNat < 0x20 then
    [0x5C, 0x75, 0x30, 0x30, hexDigit (c.toNat / 16), hexDigit (c.toNat % 16)]
  else [c]

/-- The loop ends at the NUL of the string. -/
def escaped (j : Writer) : List Byte → Writer
  | [] => j
  | c :: s => if c = 0 then j else escaped (raw j (escape c)) s

def begin (buf : ℕ → Byte) (cap : ℕ) : Writer := ch { mem := buf, cap := cap } 0x7B

def key (j : Writer) (k : List Byte) : Writer :=
  if j.overflow then j else ch (ch (escaped (ch (comma j) 0x22) k) 0x22) 0x3A

def str (j : Writer) (s : List Byte) : Writer :=
  if j.overflow then j else ch (escaped (ch (comma j) 0x22) s) 0x22

def decimal (n : ℕ) : List Byte :=
  if n = 0 then [0x30] else (Nat.digits 10 n).reverse.map fun d => BitVec.ofNat 8 (0x30 + d)

/-- `%lld` -/
def lld (v : BitVec 64) : List Byte :=
  if v.toInt < 0 then 0x2D :: decimal v.toInt.natAbs else decimal v.toInt.natAbs

def int (j : Writer) (v : BitVec 64) : Writer :=
  if j.overflow then j
  else
    let j := comma j
    if (lld v).length ≥ 32 then { j with overflow := true } else raw j (lld v)

def bool (j : Writer) (v : Bool) : Writer :=
  if j.overflow then j
  else if v then raw (comma j) [0x74, 0x72, 0x75, 0x65]
  else raw (comma j) [0x66, 0x61, 0x6C, 0x73, 0x65]

def null (j : Writer) : Writer :=
  if j.overflow then j else raw (comma j) [0x6E, 0x75, 0x6C, 0x6C]

def objBegin (j : Writer) : Writer := if j.overflow then j else ch (comma j) 0x7B
def objEnd (j : Writer) : Writer := if j.overflow then j else ch j 0x7D
def arrBegin (j : Writer) : Writer := if j.overflow then j else ch (comma j) 0x5B
def arrEnd (j : Writer) : Writer := if j.overflow then j else ch j 0x5D

/-- The conversion of a size to `int`. -/
def toInt32 (n : ℕ) : ℤ := Int.bmod n (2 ^ 32)

/-- `cali_json_end` -/
def finish (j : Writer) : Writer × ℤ :=
  if j.overflow then (j, -1)
  else
    let j := ch j 0x7D
    if j.overflow then (j, -1) else (j, toInt32 j.pos)

/-- What the buffer holds. -/
def Writer.text (j : Writer) : List Byte := (List.range j.pos).map j.mem

/-- The bytes of a string before its NUL. -/
abbrev Text := { s : List Byte // 0 ∉ s }

inductive Tree
  | null
  | bool (b : Bool)
  | int (v : BitVec 64)
  | str (s : Text)
  | arr (ts : List Tree)
  | obj (ms : List (Text × Tree))

mutual

/-- The well-nested calls for a tree. -/
def put (j : Writer) : Tree → Writer
  | .null => null j
  | .bool b => bool j b
  | .int v => int j v
  | .str s => str j s
  | .arr ts => arrEnd (putItems (arrBegin j) ts)
  | .obj ms => objEnd (putMembers (objBegin j) ms)

def putItems (j : Writer) : List Tree → Writer
  | [] => j
  | t :: ts => putItems (put j t) ts

def putMembers (j : Writer) : List (Text × Tree) → Writer
  | [] => j
  | (k, t) :: ms => putMembers (put (key j k) t) ms

end

/-- A whole document. -/
def document (buf : ℕ → Byte) (cap : ℕ) (ms : List (Text × Tree)) : Writer × ℤ :=
  finish (putMembers (begin buf cap) ms)

mutual

def Tree.value : Tree → Json.Value
  | .null => .null
  | .bool b => .bool b
  | .int v => .num v.toInt 0
  | .str s => .str s
  | .arr ts => .arr (itemValues ts)
  | .obj ms => .obj (memberValues ms)

def itemValues : List Tree → List Json.Value
  | [] => []
  | t :: ts => t.value :: itemValues ts

def memberValues : List (Text × Tree) → List (List Byte × Json.Value)
  | [] => []
  | (k, t) :: ms => (k.val, t.value) :: memberValues ms

end

def quoted (s : List Byte) : List Byte := 0x22 :: (s.flatMap escape ++ [0x22])

mutual

def Tree.text : Tree → List Byte
  | .null => [0x6E, 0x75, 0x6C, 0x6C]
  | .bool true => [0x74, 0x72, 0x75, 0x65]
  | .bool false => [0x66, 0x61, 0x6C, 0x73, 0x65]
  | .int v => lld v
  | .str s => quoted s
  | .arr ts => 0x5B :: (itemsText ts ++ [0x5D])
  | .obj ms => 0x7B :: (membersText ms ++ [0x7D])

def itemsText : List Tree → List Byte
  | [] => []
  | t :: ts => t.text ++ (if ts.isEmpty then [] else 0x2C :: itemsText ts)

def membersText : List (Text × Tree) → List Byte
  | [] => []
  | (k, t) :: ms =>
    quoted k ++ 0x3A :: (t.text ++ (if ms.isEmpty then [] else 0x2C :: membersText ms))

end

/-- The text of a document. -/
def docText (ms : List (Text × Tree)) : List Byte := (Tree.obj ms).text

variable {j : Writer} {l s : List Byte} {mem : ℕ → Byte} {cap : ℕ}

/-- The writer has written `l`: it is in the buffer, or it does not fit. No byte past the capacity
was touched. -/
structure Tracks (mem : ℕ → Byte) (cap : ℕ) (j : Writer) (l : List Byte) : Prop where
  same : j.cap = cap
  past : ∀ i, cap ≤ i → j.mem i = mem i
  fits : l.length < cap → j.overflow = false ∧ j.pos = l.length ∧ j.text = l
  overflows : cap ≤ l.length → j.overflow = true

theorem store_text (h : j.text = l) : (List.range (j.pos + s.length)).map (store j.mem j.pos s) =
    l ++ s := by
  have hpos : j.pos = l.length := by rw [← h, Writer.text, List.length_map, List.length_range]
  rw [List.range_add, List.map_append, List.map_map]
  congr 1
  · rw [← h]
    refine List.map_congr_left fun i hi => ?_
    have hlt := List.mem_range.mp hi
    rw [store, if_neg (by omega), if_neg (by omega)]
  · refine List.ext_getElem (by simp) fun i h₁ h₂ => ?_
    rw [List.getElem_map, List.getElem_range, Function.comp_apply, store, if_pos (by omega),
      Nat.add_sub_cancel_left, List.getD_eq_getElem _ _ h₂]

theorem raw_tracks (hcap : j.cap = cap) (hpast : ∀ i, cap ≤ i → j.mem i = mem i)
    (hj : j.overflow = false ∧ j.pos = l.length ∧ j.text = l) (s : List Byte) :
    Tracks mem cap (raw j s) (l ++ s) := by
  obtain ⟨hover, hpos, htext⟩ := hj
  have hlen : (l ++ s).length = l.length + s.length := List.length_append
  unfold raw
  rw [if_neg (by rw [hover]; decide)]
  split_ifs with hfull
  · exact ⟨hcap, hpast, fun hlt => by omega, fun _ => rfl⟩
  · refine ⟨hcap, fun i hi => ?_, fun _ => ⟨hover, by rw [hpos, hlen], store_text htext⟩,
      fun hle => by omega⟩
    show store j.mem j.pos s i = mem i
    rw [store, if_neg (by omega), if_neg (by omega), hpast i hi]

theorem Tracks.late (h : Tracks mem cap j l) (hover : j.overflow = true) (s : List Byte) :
    Tracks mem cap j (l ++ s) := by
  have hle : cap ≤ l.length := by
    by_contra hlt
    have hfits := (h.fits (Nat.lt_of_not_le hlt)).1
    rw [hover] at hfits
    cases hfits
  have hlen : (l ++ s).length = l.length + s.length := List.length_append
  exact ⟨h.same, h.past, fun hlt => by omega, fun _ => hover⟩

theorem Tracks.written (h : Tracks mem cap j l) (hover : ¬ j.overflow = true) :
    j.overflow = false ∧ j.pos = l.length ∧ j.text = l :=
  h.fits (Nat.lt_of_not_le fun hle => hover (h.overflows hle))

theorem Tracks.raw (h : Tracks mem cap j l) (s : List Byte) :
    Tracks mem cap (raw j s) (l ++ s) := by
  by_cases hover : j.overflow = true
  · have hstill := h.late hover s
    rwa [Json.raw, if_pos hover]
  · exact raw_tracks h.same h.past (h.written hover) s

theorem Tracks.call {j' : Writer} (h : Tracks mem cap j l) (h' : Tracks mem cap j' (l ++ s)) :
    Tracks mem cap (if j.overflow then j else j') (l ++ s) := by
  split_ifs with hover
  · exact h.late hover s
  · exact h'

/-- The comma that is due. -/
def sep (l : List Byte) : List Byte :=
  match l.getLast? with
  | none => []
  | some c => if opens c then [] else [0x2C]

theorem Tracks.comma (h : Tracks mem cap j l) : Tracks mem cap (comma j) (l ++ sep l) := by
  by_cases hover : j.overflow = true
  · have hstill := h.late hover (sep l)
    rwa [Json.comma, if_pos (.inl hover)]
  · obtain ⟨hno, hpos, htext⟩ := h.written hover
    unfold Json.comma sep
    cases hl : l.getLast? with
    | none =>
      have hnil : l = [] := List.getLast?_eq_none_iff.mp hl
      rw [if_pos (.inr (by rw [hpos, hnil]; rfl))]
      simpa using h
    | some c =>
      have hne : l ≠ [] := by
        rintro rfl
        cases hl
      have hlen : 0 < l.length := List.length_pos_iff.mpr hne
      have hlast : j.mem (j.pos - 1) = c := by
        rw [List.getLast?_eq_getElem?, ← htext, Writer.text, List.getElem?_map, List.length_map,
          List.length_range, List.getElem?_range (by omega)] at hl
        exact Option.some.inj hl
      rw [if_neg fun h => h.elim hover (by omega), hlast]
      dsimp only
      split_ifs
      · simpa using h
      · exact h.raw _

theorem Tracks.escaped (h : Tracks mem cap j l) (hs : (0 : Byte) ∉ s) :
    Tracks mem cap (escaped j s) (l ++ s.flatMap escape) := by
  induction s generalizing j l with
  | nil => simpa [Json.escaped] using h
  | cons c s ih =>
    rw [List.mem_cons, not_or] at hs
    rw [Json.escaped, if_neg (Ne.symm hs.1), List.flatMap_cons, ← List.append_assoc]
    exact ih (h.raw _) hs.2

theorem Tracks.inQuotes (h : Tracks mem cap j l) (hs : (0 : Byte) ∉ s) :
    Tracks mem cap (ch (Json.escaped (ch j 0x22) s) 0x22) (l ++ quoted s) := by
  have hall := ((h.raw [0x22]).escaped hs).raw [0x22]
  simpa [quoted, ch] using hall

theorem Tracks.key (h : Tracks mem cap j l) (k : Text) :
    Tracks mem cap (key j k) (l ++ (sep l ++ quoted k ++ [0x3A])) := by
  have hall := (h.comma.inQuotes k.2).raw [0x3A]
  refine h.call ?_
  simpa [ch] using hall

theorem Tracks.str (h : Tracks mem cap j l) (s : Text) :
    Tracks mem cap (str j s) (l ++ (sep l ++ quoted s)) := by
  have hall := h.comma.inQuotes s.2
  refine h.call ?_
  simpa using hall

theorem Tracks.token (h : Tracks mem cap j l) (s : List Byte) :
    Tracks mem cap (if j.overflow then j else Json.raw (Json.comma j) s) (l ++ (sep l ++ s)) := by
  refine h.call ?_
  rw [← List.append_assoc]
  exact h.comma.raw s

theorem length_decimal {n : ℕ} (h : n < 10 ^ 19) : (decimal n).length ≤ 19 := by
  unfold decimal
  split_ifs
  · exact Nat.le_add_left 1 18
  · rw [List.length_map, List.length_reverse]
    exact (Nat.digits_length_le_iff (by decide) n).mpr h

theorem length_lld (v : BitVec 64) : (lld v).length < 32 := by
  have hlt : v.toInt.natAbs < 10 ^ 19 := by
    have hlo := BitVec.le_toInt v
    have hhi := BitVec.toInt_lt (x := v)
    omega
  have hdec := length_decimal hlt
  unfold lld
  split_ifs
  · rw [List.length_cons]
    omega
  · omega

theorem Tracks.int (h : Tracks mem cap j l) (v : BitVec 64) :
    Tracks mem cap (int j v) (l ++ (sep l ++ lld v)) := by
  have htoken := h.token (lld v)
  unfold Json.int
  rwa [if_neg (Nat.not_le.mpr (length_lld v))]

/-- A comma is due after the text. -/
def Closed (s : List Byte) : Prop := ∃ front c, s = front ++ [c] ∧ opens c = false

theorem sep_closed (l : List Byte) (h : Closed s) : sep (l ++ s) = [0x2C] := by
  obtain ⟨front, c, rfl, hc⟩ := h
  unfold sep
  rw [← List.append_assoc, List.getLast?_concat]
  dsimp only
  rw [hc, if_neg Bool.false_ne_true]

theorem sep_opened (l : List Byte) {c : Byte} (hc : opens c = true) : sep (l ++ [c]) = [] := by
  unfold sep
  rw [List.getLast?_concat]
  dsimp only
  rw [if_pos hc]

theorem decimal_closed (n : ℕ) : Closed (decimal n) := by
  unfold decimal
  split_ifs with hn
  · exact ⟨[], 0x30, rfl, by decide⟩
  · have hcons := Nat.digits_def' (b := 10) (by decide) (Nat.pos_of_ne_zero hn)
    rw [hcons, List.reverse_cons, List.map_append, List.map_singleton]
    refine ⟨_, _, rfl, ?_⟩
    have hlt := Nat.mod_lt n (y := 10) (by decide)
    interval_cases n % 10 <;> decide

theorem lld_closed (v : BitVec 64) : Closed (lld v) := by
  obtain ⟨front, c, hdec, hc⟩ := decimal_closed v.toInt.natAbs
  unfold lld
  split_ifs
  · exact ⟨0x2D :: front, c, by rw [hdec]; rfl, hc⟩
  · exact ⟨front, c, hdec, hc⟩

theorem text_closed (t : Tree) : Closed t.text := by
  cases t with
  | null => exact ⟨[0x6E, 0x75, 0x6C], 0x6C, by rw [Tree.text]; rfl, by decide⟩
  | bool b =>
    cases b with
    | true => exact ⟨[0x74, 0x72, 0x75], 0x65, by rw [Tree.text]; rfl, by decide⟩
    | false => exact ⟨[0x66, 0x61, 0x6C, 0x73], 0x65, by rw [Tree.text]; rfl, by decide⟩
  | int v => exact Tree.text.eq_4 v ▸ lld_closed v
  | str s => exact ⟨0x22 :: s.val.flatMap escape, 0x22, by rw [Tree.text]; rfl, by decide⟩
  | arr ts => exact ⟨0x5B :: itemsText ts, 0x5D, by rw [Tree.text]; rfl, by decide⟩
  | obj ms => exact ⟨0x7B :: membersText ms, 0x7D, by rw [Tree.text]; rfl, by decide⟩

mutual

theorem put_tracks (t : Tree) (j : Writer) (l : List Byte) (h : Tracks mem cap j l) :
    Tracks mem cap (put j t) (l ++ (sep l ++ t.text)) := by
  match t with
  | .null =>
    rw [put, Tree.text]
    exact h.token _
  | .bool true =>
    rw [put, Tree.text, bool, if_pos rfl]
    exact h.token _
  | .bool false =>
    rw [put, Tree.text, bool, if_neg Bool.false_ne_true]
    exact h.token _
  | .int v =>
    rw [put, Tree.text]
    exact h.int v
  | .str s =>
    rw [put, Tree.text]
    exact h.str s
  | .arr ts =>
    have hitems := putItems_tracks ts _ _ (h.token [0x5B])
    rw [← List.append_assoc, sep_opened _ (by decide)] at hitems
    have htext : l ++ sep l ++ [0x5B] ++ (if ts.isEmpty then [] else [] ++ itemsText ts) ++ [0x5D] =
        l ++ (sep l ++ 0x5B :: (itemsText ts ++ [0x5D])) := by
      cases ts <;> simp [itemsText]
    rw [put, Tree.text, ← htext]
    exact hitems.call (hitems.raw [0x5D])
  | .obj ms =>
    have hmembers := putMembers_tracks ms _ _ (h.token [0x7B])
    rw [← List.append_assoc, sep_opened _ (by decide)] at hmembers
    have htext : l ++ sep l ++ [0x7B] ++ (if ms.isEmpty then [] else [] ++ membersText ms) ++
        [0x7D] = l ++ (sep l ++ 0x7B :: (membersText ms ++ [0x7D])) := by
      cases ms <;> simp [membersText]
    rw [put, Tree.text, ← htext]
    exact hmembers.call (hmembers.raw [0x7D])

theorem putItems_tracks (ts : List Tree) (j : Writer) (l : List Byte) (h : Tracks mem cap j l) :
    Tracks mem cap (putItems j ts) (l ++ (if ts.isEmpty then [] else sep l ++ itemsText ts)) := by
  match ts with
  | [] => simpa [putItems] using h
  | t :: ts =>
    have hrest := putItems_tracks ts _ _ (put_tracks t j l h)
    rw [← List.append_assoc, sep_closed _ (text_closed t)] at hrest
    rw [putItems, itemsText]
    simpa using hrest

theorem putMembers_tracks (ms : List (Text × Tree)) (j : Writer) (l : List Byte)
    (h : Tracks mem cap j l) :
    Tracks mem cap (putMembers j ms)
      (l ++ (if ms.isEmpty then [] else sep l ++ membersText ms)) := by
  match ms with
  | [] => simpa [putMembers] using h
  | (k, t) :: ms =>
    have hvalue := put_tracks t _ _ (h.key k)
    rw [← List.append_assoc l, sep_opened _ (by decide)] at hvalue
    have hrest := putMembers_tracks ms _ _ hvalue
    rw [List.nil_append, sep_closed _ (text_closed t)] at hrest
    rw [putMembers, membersText]
    simpa using hrest

end

theorem document_spec (buf : ℕ → Byte) (cap : ℕ) (ms : List (Text × Tree)) :
    (∀ i, cap ≤ i → (document buf cap ms).1.mem i = buf i) ∧
      ((docText ms).length < cap → (document buf cap ms).1.text = docText ms ∧
        (document buf cap ms).2 = toInt32 (docText ms).length) ∧
      (cap ≤ (docText ms).length → (document buf cap ms).2 = -1) := by
  have hbegin : Tracks buf cap (begin buf cap) ([] ++ [0x7B]) :=
    raw_tracks (j := { mem := buf, cap := cap }) rfl (fun _ _ => rfl) ⟨rfl, rfl, rfl⟩ _
  have hmembers := putMembers_tracks ms _ _ hbegin
  rw [sep_opened _ (by decide)] at hmembers
  have hend := hmembers.raw [0x7D]
  have htext : [] ++ [0x7B] ++ (if ms.isEmpty then [] else [] ++ membersText ms) ++ [0x7D] =
      docText ms := by
    rw [docText, Tree.text]
    cases ms <;> simp [membersText]
  rw [htext] at hend
  unfold document finish
  by_cases hover : (putMembers (begin buf cap) ms).overflow = true
  · rw [if_pos hover]
    have hlate := hmembers.late hover [0x7D]
    rw [htext] at hlate
    refine ⟨hlate.past, fun hlt => ?_, fun _ => rfl⟩
    have hfits := (hlate.fits hlt).1
    rw [hover] at hfits
    cases hfits
  · rw [if_neg hover]
    dsimp only [ch]
    by_cases hlast : (raw (putMembers (begin buf cap) ms) [0x7D]).overflow = true
    · rw [if_pos hlast]
      refine ⟨hend.past, fun hlt => ?_, fun _ => rfl⟩
      have hfits := (hend.fits hlt).1
      rw [hlast] at hfits
      cases hfits
    · rw [if_neg hlast]
      obtain ⟨-, hpos, hall⟩ := hend.written hlast
      dsimp only
      refine ⟨hend.past, fun _ => ⟨hall, by rw [hpos]⟩, fun hle => ?_⟩
      exact absurd (hend.overflows hle) hlast

end OpenCalifornia.Json
