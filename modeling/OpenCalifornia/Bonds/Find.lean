import OpenCalifornia.Bonds.Table

/-! # What a query finds

The records that match it, in the order of the table, and of these the one at its index. -/

namespace OpenCalifornia.Bonds
open Lib

variable [Nimble] {ρ : Type}

def SecKey.Matches (key : SecKey) (v : Sec ρ) : Prop :=
  key.peerAddr = Addr.any ∨ v.peerAddr = key.peerAddr

instance (key : SecKey) (v : Sec ρ) : Decidable (key.Matches v) :=
  inferInstanceAs (Decidable (_ ∨ _))

def CccdKey.Matches (key : CccdKey) (c : Cccd ρ) : Prop :=
  (key.peerAddr = Addr.any ∨ c.peerAddr = key.peerAddr) ∧
    (key.chrValHandle = 0 ∨ c.chrValHandle = key.chrValHandle)

instance (key : CccdKey) (c : Cccd ρ) : Decidable (key.Matches c) :=
  inferInstanceAs (Decidable (_ ∧ _))

def SecKey.matching (key : SecKey) (l : List (Sec ρ)) : List (Sec ρ) :=
  l.filter fun v => key.Matches v

def CccdKey.matching (key : CccdKey) (l : List (Cccd ρ)) : List (Cccd ρ) :=
  l.filter fun c => key.Matches c

def matching : (t : Tab) → Key t → List (Rec ρ t) → List (Rec ρ t)
  | .our => SecKey.matching
  | .peer => SecKey.matching
  | .cccd => CccdKey.matching

def Key.index : (t : Tab) → Key t → ℕ
  | .our => SecKey.idx
  | .peer => SecKey.idx
  | .cccd => CccdKey.idx

theorem findSec_lt {key : SecKey} {vals : List (Sec ρ)} {i : ℕ} (h : findSec key vals = some i) :
    i < vals.length := by
  unfold findSec at h
  split_ifs at h with _ hlt _
  · rwa [← Option.some.inj h]
  · exact (List.findIdx?_eq_some_iff_getElem.mp h).1

/-- With the addresses all different, an index past the first one finds nothing for an address. -/
theorem findSec_eq (key : SecKey) {vals : List (Sec ρ)} (hnodup : (vals.map Sec.peerAddr).Nodup) :
    (findSec key vals).bind (vals[·]?) = (vals.filter fun v => key.Matches v)[key.idx]? := by
  unfold findSec
  by_cases hany : key.peerAddr = Addr.any
  · have hall : vals.filter (fun v => key.Matches v) = vals :=
      List.filter_eq_self.mpr fun v _ => decide_eq_true (.inl hany)
    rw [if_pos hany, hall]
    split_ifs with hlt
    · rfl
    · exact (List.getElem?_eq_none (Nat.le_of_not_lt hlt)).symm
  · have hmatches : ∀ v : Sec ρ, key.Matches v ↔ v.peerAddr = key.peerAddr :=
      fun v => or_iff_right hany
    have hfilter : vals.filter (fun v => key.Matches v) =
        vals.filter fun v => v.peerAddr = key.peerAddr :=
      List.filter_congr fun v _ => decide_eq_decide.mpr (hmatches v)
    rw [if_neg hany, hfilter]
    split_ifs with hidx
    · rw [hidx, ← List.head?_eq_getElem?, List.head?_filter, List.find?_eq_bind_findIdx?_getElem?]
    · refine (List.getElem?_eq_none ?_).symm
      have hone : ((vals.filter fun v => v.peerAddr = key.peerAddr).map Sec.peerAddr).Nodup :=
        hnodup.sublist (List.filter_sublist.map _)
      have hsame : ∀ x ∈ (vals.filter fun v => v.peerAddr = key.peerAddr).map Sec.peerAddr,
          x = key.peerAddr := by
        intro x hx
        obtain ⟨v, hv, rfl⟩ := List.mem_map.mp hx
        exact of_decide_eq_true (List.mem_filter.mp hv).2
      rw [List.eq_replicate_of_mem hsame, List.nodup_replicate, List.length_map] at hone
      omega

theorem findSec_own {v : Sec ρ} (hv : v.peerAddr ≠ Addr.any) (vals : List (Sec ρ)) :
    findSec (Nimble.secKey v) vals = vals.findIdx? fun b => b.peerAddr = v.peerAddr := by
  rw [Nimble.secKey_eq]
  exact (if_neg hv).trans (if_pos rfl)

theorem findCccdFrom_cons (key : CccdKey) (c : Cccd ρ) (cs : List (Cccd ρ)) (i skipped : ℕ) :
    findCccdFrom key (c :: cs) i skipped =
      if ¬ key.Matches c then findCccdFrom key cs (i + 1) skipped
      else if skipped < key.idx then findCccdFrom key cs (i + 1) (skipped + 1)
      else some i := by
  rw [findCccdFrom]
  unfold CccdKey.Matches
  by_cases haddr : key.peerAddr = Addr.any ∨ c.peerAddr = key.peerAddr
  · have hnot : ¬ (key.peerAddr ≠ Addr.any ∧ c.peerAddr ≠ key.peerAddr) := by tauto
    by_cases hhandle : key.chrValHandle = 0 ∨ c.chrValHandle = key.chrValHandle
    · have hnot' : ¬ (key.chrValHandle ≠ 0 ∧ c.chrValHandle ≠ key.chrValHandle) := by tauto
      rw [if_neg hnot, if_neg hnot', if_neg (not_not.mpr ⟨haddr, hhandle⟩)]
    · rw [if_neg hnot, if_pos (not_or.mp hhandle), if_pos fun h => hhandle h.2]
  · rw [if_pos (not_or.mp haddr), if_pos fun h => haddr h.1]

theorem findCccdFrom_bounds {key : CccdKey} {cs : List (Cccd ρ)} {i skipped n : ℕ}
    (h : findCccdFrom key cs i skipped = some n) : i ≤ n ∧ n < i + cs.length := by
  induction cs generalizing i skipped with
  | nil => cases h
  | cons c cs ih =>
    rw [findCccdFrom_cons] at h
    rw [List.length_cons]
    by_cases hm : key.Matches c
    · rw [if_neg (not_not.mpr hm)] at h
      split_ifs at h
      · have hih := ih h
        omega
      · obtain rfl := Option.some.inj h
        omega
    · rw [if_pos hm] at h
      have hih := ih h
      omega

theorem findCccdFrom_eq (key : CccdKey) (pre cs : List (Cccd ρ)) {skipped : ℕ}
    (hskip : skipped ≤ key.idx) :
    (findCccdFrom key cs pre.length skipped).bind ((pre ++ cs)[·]?) =
      (cs.filter fun c => key.Matches c)[key.idx - skipped]? := by
  induction cs generalizing pre skipped with
  | nil => rfl
  | cons c cs ih =>
    have hlen : (pre ++ [c]).length = pre.length + 1 := List.length_append
    have happend : pre ++ c :: cs = (pre ++ [c]) ++ cs := (List.append_assoc pre [c] cs).symm
    rw [findCccdFrom_cons]
    by_cases hm : key.Matches c
    · rw [if_neg (not_not.mpr hm), List.filter_cons, if_pos (decide_eq_true hm)]
      split_ifs with hlt
      · have hsub : key.idx - skipped = key.idx - (skipped + 1) + 1 := by omega
        rw [hsub, List.getElem?_cons_succ, ← ih (pre ++ [c]) hlt, hlen, happend]
      · have hsub : key.idx - skipped = 0 := by omega
        rw [hsub, List.getElem?_cons_zero]
        simp
    · rw [if_pos hm, List.filter_cons, if_neg (by simpa using hm), ← ih (pre ++ [c]) hskip, hlen,
        happend]

theorem findCccdFrom_own {v : Cccd ρ} (haddr : v.peerAddr ≠ Addr.any) (hhandle : v.chrValHandle ≠ 0)
    (cs : List (Cccd ρ)) (i : ℕ) : findCccdFrom ⟨v.peerAddr, v.chrValHandle, 0⟩ cs i 0 =
      (cs.findIdx? fun b => (b.peerAddr, b.chrValHandle) = (v.peerAddr, v.chrValHandle)).map
        (· + i) := by
  induction cs generalizing i with
  | nil => rfl
  | cons c cs ih =>
    have hmatch : CccdKey.Matches ⟨v.peerAddr, v.chrValHandle, 0⟩ c ↔
        (c.peerAddr, c.chrValHandle) = (v.peerAddr, v.chrValHandle) :=
      (and_congr (or_iff_right haddr) (or_iff_right hhandle)).trans Prod.mk_inj.symm
    rw [findCccdFrom_cons, ih, List.findIdx?_cons]
    by_cases hc : (c.peerAddr, c.chrValHandle) = (v.peerAddr, v.chrValHandle)
    · rw [if_neg (not_not.mpr (hmatch.mpr hc)), if_neg (Nat.lt_irrefl 0),
        decide_eq_true hc, if_pos rfl, Option.map_some, Nat.zero_add]
    · rw [if_pos (mt hmatch.mp hc), decide_eq_false hc, if_neg Bool.false_ne_true, Option.map_map]
      exact congrArg (Option.map · _) (funext fun n => by
        show n + (i + 1) = n + 1 + i
        omega)

theorem findCccd_own {v : Cccd ρ} (hv : v.peerAddr ≠ Addr.any ∧ v.chrValHandle ≠ 0)
    (vals : List (Cccd ρ)) : findCccd (Nimble.cccdKey v) vals =
      vals.findIdx? fun b => (b.peerAddr, b.chrValHandle) = (v.peerAddr, v.chrValHandle) := by
  rw [Nimble.cccdKey_eq]
  exact (findCccdFrom_own hv.1 hv.2 vals 0).trans Option.map_id'

variable {t : Tab}

theorem find_lt {key : Key t} {vals : List (Rec ρ t)} {i : ℕ} (h : find t key vals = some i) :
    i < vals.length := by
  cases t with
  | our => exact findSec_lt h
  | peer => exact findSec_lt h
  | cccd =>
    have hbounds := findCccdFrom_bounds h
    rw [Nat.zero_add] at hbounds
    exact hbounds.2

theorem find_eq (key : Key t) {vals : List (Rec ρ t)} (hnodup : (vals.map (ident t)).Nodup) :
    (find t key vals).bind (vals[·]?) = (matching t key vals)[Key.index t key]? := by
  cases t with
  | our => exact findSec_eq key hnodup
  | peer => exact findSec_eq key hnodup
  | cccd => exact findCccdFrom_eq key [] vals (Nat.zero_le _)

theorem find_keyFromValue {v : Rec ρ t} (hv : Proper t v) (vals : List (Rec ρ t)) :
    find t (keyFromValue t v) vals = vals.findIdx? fun b => ident t b = ident t v := by
  cases t with
  | our => exact findSec_own hv vals
  | peer => exact findSec_own hv vals
  | cccd => exact findCccd_own hv vals

end OpenCalifornia.Bonds
