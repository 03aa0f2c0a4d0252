import OpenCalifornia.Lib.Crc

/-! # The records of the kv-store

`cali_crc32` of `cali_platform.h`, and the format both platforms keep a value in: four bytes of
length, the value, four bytes of checksum over both. -/

namespace OpenCalifornia.Kv
open Lib Lib.Bits

def fileMax : ℕ := 64 * 1024

def crcPoly : BitVec 32 := 0xEDB88320#32

/-- The loop of `cali_crc32` at a bit. -/
def crcBit (crc : BitVec 32) : BitVec 32 := (crc >>> 1) ^^^ (crcPoly &&& (0#32 - (crc &&& 1#32)))

def crcByte (crc : BitVec 32) (b : Byte) : BitVec 32 :=
  (List.range 8).foldl (fun crc _ => crcBit crc) (crc ^^^ b.setWidth 32)

def caliCrc32 (crc : BitVec 32) (buf : List Byte) : BitVec 32 := ~~~(buf.foldl crcByte (~~~crc))

def putLe32 (v : BitVec 32) : List Byte :=
  [v.setWidth 8, (v >>> 8).setWidth 8, (v >>> 16).setWidth 8, (v >>> 24).setWidth 8]

def getLe32 (p : List Byte) : BitVec 32 :=
  (p.getD 0 0).setWidth 32 ||| (p.getD 1 0).setWidth 32 <<< 8 |||
    (p.getD 2 0).setWidth 32 <<< 16 ||| (p.getD 3 0).setWidth 32 <<< 24

/-- What `cali_kv_set` writes for a value. -/
def record (buf : List Byte) : List Byte :=
  let hdr := putLe32 (BitVec.ofNat 32 buf.length)
  let crc := caliCrc32 (caliCrc32 0 hdr) buf
  hdr ++ buf ++ putLe32 crc

/-- What `cali_kv_get` answers. -/
inductive Got
  | missing
  | corrupt
  | value (v : List Byte)
  deriving DecidableEq

/-- `cali_kv_get` of a file's bytes, for a buffer of `len`. -/
def readRecord (raw : List Byte) (len : ℕ) : Got :=
  if raw.length < 8 ∨ fileMax < raw.length then .corrupt
  else
    let n := (getLe32 raw).toNat
    if n + 8 = raw.length ∧ caliCrc32 0 (raw.take (4 + n)) = getLe32 (raw.drop (4 + n)) ∧
      n ≤ len then
      .value ((raw.drop 4).take n)
    else .corrupt

theorem crcBit_eq (crc : BitVec 32) : crcBit crc = Crc.shift crcPoly crc := by
  have hand : crc &&& 1#32 = BitVec.setWidth 32 (BitVec.ofBool (crc.getLsbD 0)) :=
    BitVec.and_one_eq_setWidth_ofBool_getLsbD
  unfold crcBit Crc.shift
  rw [hand]
  cases crc.getLsbD 0 with
  | true => rfl
  | false =>
    have hnone : crcPoly &&& (0#32 - BitVec.setWidth 32 (BitVec.ofBool false)) = 0#32 := by decide
    rw [hnone, BitVec.xor_zero]
    rfl

theorem crcByte_eq (crc : BitVec 32) (b : Byte) : crcByte crc b = Crc.byte crcPoly crc b := by
  have hbit : crcBit = Crc.shift crcPoly := funext crcBit_eq
  unfold crcByte
  rw [hbit]
  rfl

theorem caliCrc32_eq (crc : BitVec 32) (buf : List Byte) :
    caliCrc32 crc buf = ~~~Crc.run crcPoly (~~~crc) buf := by
  have hbyte : crcByte = Crc.byte crcPoly := funext fun crc => funext fun b => crcByte_eq crc b
  unfold caliCrc32 Crc.run
  rw [hbyte]

theorem caliCrc32_append (crc : BitVec 32) (buf buf' : List Byte) :
    caliCrc32 (caliCrc32 crc buf) buf' = caliCrc32 crc (buf ++ buf') := by
  rw [caliCrc32_eq, caliCrc32_eq, caliCrc32_eq, BitVec.not_not, Crc.run_append]

theorem length_putLe32 (v : BitVec 32) : (putLe32 v).length = 4 := rfl

theorem getLe32_putLe32 (v : BitVec 32) (r : List Byte) : getLe32 (putLe32 v ++ r) = v := by
  refine BitVec.eq_of_getLsbD_eq fun i hi => ?_
  unfold getLe32 putLe32
  simp only [List.cons_append, List.getD_cons_zero, List.getD_cons_succ, BitVec.getLsbD_or,
    BitVec.getLsbD_shiftLeft, BitVec.getLsbD_setWidth, BitVec.getLsbD_ushiftRight]
  grind

theorem putLe32_getLe32 (a b c d : Byte) (r : List Byte) :
    putLe32 (getLe32 (a :: b :: c :: d :: r)) = [a, b, c, d] := by
  have hbyte : ∀ (x : BitVec 32) (e : Byte) (k : ℕ),
      (∀ i < 8, x.getLsbD (k + i) = e.getLsbD i) → (x >>> k).setWidth 8 = e := by
    intro x e k h
    refine BitVec.eq_of_getLsbD_eq fun i hi => ?_
    rw [BitVec.getLsbD_setWidth, BitVec.getLsbD_ushiftRight, decide_eq_true hi, Bool.true_and]
    exact h i hi
  have hbit : ∀ i, (getLe32 (a :: b :: c :: d :: r)).getLsbD i =
      ((decide (i < 32) && a.getLsbD i) ||
        (decide (i < 32) && !decide (i < 8) && (decide (i - 8 < 32) && b.getLsbD (i - 8))) ||
        (decide (i < 32) && !decide (i < 16) && (decide (i - 16 < 32) && c.getLsbD (i - 16))) ||
        (decide (i < 32) && !decide (i < 24) && (decide (i - 24 < 32) && d.getLsbD (i - 24)))) := by
    intro i
    unfold getLe32
    simp only [List.getD_cons_zero, List.getD_cons_succ, BitVec.getLsbD_or,
      BitVec.getLsbD_shiftLeft, BitVec.getLsbD_setWidth]
  have hpast : ∀ (e : Byte) (i : ℕ), 8 ≤ i → e.getLsbD i = false := fun e i hi =>
    BitVec.getLsbD_of_ge e i hi
  have hzero : ∀ x : BitVec 32, x.setWidth 8 = (x >>> 0).setWidth 8 := fun x => by simp
  have ha : ∀ i < 8, (getLe32 (a :: b :: c :: d :: r)).getLsbD (0 + i) = a.getLsbD i := by
    intro i hi
    have hi16 : i < 16 := by omega
    have hi24 : i < 24 := by omega
    have hi32 : i < 32 := by omega
    rw [hbit]
    simp [hi, hi16, hi24, hi32]
  have hb : ∀ i < 8, (getLe32 (a :: b :: c :: d :: r)).getLsbD (8 + i) = b.getLsbD i := by
    intro i hi
    have hi16 : 8 + i < 16 := by omega
    have hi24 : 8 + i < 24 := by omega
    have hi32 : 8 + i < 32 ∧ i < 32 := by omega
    rw [hbit, hpast a (8 + i) (by omega)]
    simp [hi16, hi24, hi32]
  have hc : ∀ i < 8, (getLe32 (a :: b :: c :: d :: r)).getLsbD (16 + i) = c.getLsbD i := by
    intro i hi
    have hi24 : 16 + i < 24 := by omega
    have hi32 : 16 + i < 32 ∧ i < 32 := by omega
    rw [hbit, hpast a (16 + i) (by omega), hpast b (16 + i - 8) (by omega)]
    simp [hi24, hi32]
  have hd : ∀ i < 8, (getLe32 (a :: b :: c :: d :: r)).getLsbD (24 + i) = d.getLsbD i := by
    intro i hi
    have hi32 : 24 + i < 32 ∧ i < 32 := by omega
    rw [hbit, hpast a (24 + i) (by omega), hpast b (24 + i - 8) (by omega),
      hpast c (24 + i - 16) (by omega)]
    simp [hi32]
  unfold putLe32
  rw [hzero, hbyte _ a 0 ha, hbyte _ b 8 hb, hbyte _ c 16 hc, hbyte _ d 24 hd]

theorem putLe32_getLe32_take {p : List Byte} (h : 4 ≤ p.length) :
    putLe32 (getLe32 p) = p.take 4 := by
  obtain ⟨a, b, c, d, r, rfl⟩ : ∃ a b c d r, p = a :: b :: c :: d :: r := by
    match p, h with
    | a :: b :: c :: d :: r, _ => exact ⟨a, b, c, d, r, rfl⟩
  rw [putLe32_getLe32]
  rfl

theorem length_record (v : List Byte) : (record v).length = v.length + 8 := by
  unfold record
  rw [List.length_append, List.length_append, length_putLe32, length_putLe32]
  omega

theorem record_eq (v : List Byte) : record v =
    putLe32 (BitVec.ofNat 32 v.length) ++ v ++
      putLe32 (caliCrc32 0 (putLe32 (BitVec.ofNat 32 v.length) ++ v)) := by
  unfold record
  dsimp only
  rw [caliCrc32_append]

/-- What is read is the value of a record, and every value that fits is read back from its own. -/
theorem readRecord_eq_value {raw v : List Byte} {len : ℕ} : readRecord raw len = .value v ↔
    raw = record v ∧ v.length ≤ len ∧ v.length + 8 ≤ fileMax := by
  unfold readRecord
  constructor
  · intro h
    obtain ⟨hsize, h⟩ := (ite_eq_iff.mp h).resolve_left fun hc => Got.noConfusion hc.2
    obtain ⟨⟨hn, hcrc, hfit⟩, h⟩ := (ite_eq_iff.mp h).resolve_right fun hc => Got.noConfusion hc.2
    obtain ⟨hshort, hlong⟩ := not_or.mp hsize
    obtain rfl := Got.value.inj h
    have hlen : ((raw.drop 4).take (getLe32 raw).toNat).length = (getLe32 raw).toNat := by
      rw [List.length_take, List.length_drop]
      omega
    refine ⟨?_, by rwa [hlen], by omega⟩
    have hhead : putLe32 (getLe32 raw) = raw.take 4 := putLe32_getLe32_take (by omega)
    have hcount : BitVec.ofNat 32 (getLe32 raw).toNat = getLe32 raw :=
      (BitVec.ofNat_toNat 32 _).trans (BitVec.setWidth_eq _)
    have hbody : raw.take 4 ++ (raw.drop 4).take (getLe32 raw).toNat =
        raw.take (4 + (getLe32 raw).toNat) := List.take_add.symm
    have htail : putLe32 (getLe32 (raw.drop (4 + (getLe32 raw).toNat))) =
        raw.drop (4 + (getLe32 raw).toNat) := by
      rw [putLe32_getLe32_take (by rw [List.length_drop]; omega), List.take_of_length_le]
      rw [List.length_drop]
      omega
    rw [record_eq, hlen, hcount, hhead, hbody, hcrc, htail, List.take_append_drop]
  · rintro ⟨rfl, hfit, hmax⟩
    have hsize : ¬ ((record v).length < 8 ∨ fileMax < (record v).length) := by
      rw [length_record]
      omega
    have hsmall : v.length < 2 ^ 32 := by
      have hlt : fileMax < 2 ^ 32 := by decide
      omega
    have hcount : (getLe32 (record v)).toNat = v.length := by
      rw [record_eq, List.append_assoc, getLe32_putLe32, BitVec.toNat_ofNat,
        Nat.mod_eq_of_lt hsmall]
    have htake : (record v).take (4 + v.length) = putLe32 (BitVec.ofNat 32 v.length) ++ v := by
      rw [record_eq]
      exact List.take_left' (by rw [List.length_append, length_putLe32])
    have hdrop : (record v).drop (4 + v.length) =
        putLe32 (caliCrc32 0 (putLe32 (BitVec.ofNat 32 v.length) ++ v)) := by
      rw [record_eq]
      exact List.drop_left' (by rw [List.length_append, length_putLe32])
    have hvalue : ((record v).drop 4).take v.length = v := by
      rw [record_eq, List.append_assoc, List.drop_left' (length_putLe32 _), List.take_left' rfl]
    dsimp only
    rw [if_neg hsize, hcount, htake, hdrop, hvalue,
      ← List.append_nil (putLe32 (caliCrc32 0 _)), getLe32_putLe32]
    exact if_pos ⟨(length_record v).symm, rfl, hfit⟩

theorem record_injective {v v' : List Byte} (h : v.length + 8 ≤ fileMax)
    (heq : record v = record v') : v = v' := by
  have hlen : v'.length = v.length := by
    have hsame := congrArg List.length heq
    rw [length_record, length_record] at hsame
    omega
  have hread : readRecord (record v) v.length = .value v := readRecord_eq_value.mpr ⟨rfl, le_rfl, h⟩
  have hread' : readRecord (record v) v.length = .value v' :=
    readRecord_eq_value.mpr ⟨heq, hlen.le, by rw [hlen]; exact h⟩
  exact Got.value.inj (hread.symm.trans hread')

theorem readRecord_eq_corrupt {raw : List Byte} {len : ℕ} (h : ∀ v, raw ≠ record v) :
    readRecord raw len = .corrupt := by
  cases hread : readRecord raw len with
  | corrupt => rfl
  | value v => exact absurd (readRecord_eq_value.mp hread).1 (h v)
  | missing =>
    unfold readRecord at hread
    dsimp only at hread
    split_ifs at hread

theorem length_of_take {v : List Byte} {raw : List Byte} (hv : v.length + 8 ≤ fileMax)
    {v' : List Byte} (hv' : v'.length + 8 ≤ fileMax) (h : raw = record v')
    (htake : raw.take 4 = (record v).take 4) : raw.length = (record v).length := by
  have hsmall : fileMax < 2 ^ 32 := by decide
  have hhead : ∀ u : List Byte, (record u).take 4 = putLe32 (BitVec.ofNat 32 u.length) := by
    intro u
    rw [record_eq, List.append_assoc, List.take_left' (length_putLe32 _)]
  subst h
  rw [hhead, hhead] at htake
  have hcount : BitVec.ofNat 32 v'.length = BitVec.ofNat 32 v.length := by
    rw [← getLe32_putLe32 (BitVec.ofNat 32 v'.length) [], htake, getLe32_putLe32]
  have hnat := congrArg BitVec.toNat hcount
  rw [BitVec.toNat_ofNat, BitVec.toNat_ofNat, Nat.mod_eq_of_lt (by omega),
    Nat.mod_eq_of_lt (by omega)] at hnat
  rw [length_record, length_record, hnat]

/-- A record that lost its end, or has more behind it. -/
theorem torn_corrupt {v raw : List Byte} {len : ℕ} (hv : v.length + 8 ≤ fileMax)
    (h : raw <+: record v ∨ record v <+: raw) (hne : raw ≠ record v) :
    readRecord raw len = .corrupt := by
  have hpre : ∀ a b : List Byte, a <+: b → a.length = b.length → a = b :=
    fun a b hab hlen => hab.eq_of_length hlen
  cases hread : readRecord raw len with
  | corrupt => rfl
  | missing =>
    unfold readRecord at hread
    dsimp only at hread
    split_ifs at hread
  | value v' =>
    obtain ⟨hraw, -, hv'⟩ := readRecord_eq_value.mp hread
    have hlong : 4 ≤ raw.length := by
      rw [hraw, length_record]
      omega
    have hlong' : 4 ≤ (record v).length := by
      rw [length_record]
      omega
    have htake : raw.take 4 = (record v).take 4 := by
      rcases h with ⟨t, ht⟩ | ⟨t, ht⟩
      · rw [← ht, List.take_append_of_le_length hlong]
      · rw [← ht, List.take_append_of_le_length hlong']
    have hlen := length_of_take hv hv' hraw htake
    rcases h with h | h
    · exact absurd (hpre _ _ h hlen) hne
    · exact absurd (hpre _ _ h hlen.symm).symm hne

def twenty : List Byte := List.replicate 20 7

/-- The first 20 of 28 bytes, and all of them with two more behind. -/
theorem torn_corrupt_half : readRecord ((record twenty).take 20) 64 = .corrupt ∧
    readRecord (record twenty ++ [0, 0]) 64 = .corrupt := by
  constructor
  · refine @torn_corrupt twenty _ _ (by decide) (.inl (List.take_prefix 20 _)) fun heq => ?_
    have hlen := congrArg List.length heq
    rw [List.length_take, length_record] at hlen
    exact absurd hlen (by decide)
  · refine @torn_corrupt twenty _ _ (by decide) (.inr (List.prefix_append _ _)) fun heq => ?_
    have hlen := congrArg List.length heq
    rw [List.length_append] at hlen
    exact absurd hlen (by simp)

/-- A record with other bytes in place of up to four neighbouring ones of its length and value. -/
theorem burst_corrupt {v pre bs bs' post sum : List Byte} {len : ℕ} (hv : v.length + 8 ≤ fileMax)
    (hrec : record v = pre ++ (bs ++ post) ++ sum) (hsum : sum.length = 4)
    (hlen : bs.length = bs'.length) (hbs : bs.length ≤ 4) (hne : bs ≠ bs') :
    readRecord (pre ++ (bs' ++ post) ++ sum) len = .corrupt := by
  refine readRecord_eq_corrupt fun v' hv' => hne ?_
  have hsize : v'.length = v.length := by
    have hl := congrArg List.length hrec
    have hl' := congrArg List.length hv'
    simp only [length_record, List.length_append] at hl hl'
    omega
  have hsplit : ∀ u : List Byte, u.length + 8 ≤ fileMax →
      ∀ body : List Byte, record u = body ++ sum →
      sum = putLe32 (caliCrc32 0 body) := by
    intro u hu body hbody
    rw [record_eq] at hbody
    obtain ⟨hleft, hright⟩ := List.append_inj' hbody (by rw [length_putLe32, hsum])
    rw [← hright, hleft]
  have hcrc := (hsplit v hv _ hrec).symm.trans (hsplit v' (by omega) _ hv'.symm)
  have hregs : caliCrc32 0 (pre ++ (bs ++ post)) = caliCrc32 0 (pre ++ (bs' ++ post)) := by
    rw [← getLe32_putLe32 (caliCrc32 0 (pre ++ (bs ++ post))) [], hcrc, getLe32_putLe32]
  rw [caliCrc32_eq, caliCrc32_eq] at hregs
  have hpoly : crcPoly.msb = true := by decide
  have hwidth : 8 * bs.length ≤ 32 := by omega
  exact Crc.run_burst hpoly (by decide) hlen hwidth (BitVec.not_inj.mp hregs)

theorem burst_corrupt_flip : readRecord (putLe32 1 ++ ([8] ++ []) ++
    putLe32 (caliCrc32 (caliCrc32 0 (putLe32 1)) [7])) 1 = .corrupt := by
  have hrec : record [7] = putLe32 1 ++ ([7] ++ []) ++
      putLe32 (caliCrc32 (caliCrc32 0 (putLe32 1)) [7]) := rfl
  exact burst_corrupt (by decide) hrec rfl rfl (by decide) (by decide)

end OpenCalifornia.Kv
