import LightNvm.Addr
import LightNvm.ListRel
import LightNvm.Striping

/-! The choice of arbitrary chunks on OCSSD 2.0 devices: `nvm_cmd_rprt_arbs`. -/

namespace LightNvm

structure UnitRprt where
  ndescr : Nat
  cs : Nat → UInt8

/-- A call of `nvm_cmd_rprt_arbs`: `arb` is what `rand` returns, and `rprt` the report on a parallel unit,
where there is one. -/
structure RprtArbs where
  geo : GeoL
  rprt : LAddr → Option UnitRprt
  cs : Int
  naddrs : Int
  arb : Nat

def RprtArbs.n (q : RprtArbs) : Nat := q.naddrs.toNat

/-- `size_t cur = (idx + arb) % naddrs`: the sum and the remainder are of type `int`. -/
def RprtArbs.cur (q : RprtArbs) (idx : Nat) : Nat :=
  (((((idx + q.arb : Nat) : Int).bmod (2 ^ 32)).tmod q.naddrs) % 2 ^ 64).toNat

def RprtArbs.unitAddr (q : RprtArbs) (idx : Nat) : LAddr where
  pugrp := BitVec.ofNat 8 (q.cur idx % q.geo.npugrp)
  punit := BitVec.ofNat 8 (q.cur idx / q.geo.npugrp % q.geo.npunit)
  chunk := 0
  sectr := 0

def RprtArbs.pick (q : RprtArbs) (idx : Nat) : Except Errno LAddr :=
  match q.rprt (q.unitAddr idx) with
  | none => .error .einval
  | some r =>
    if r.ndescr ≠ q.geo.nchunk then .error .einval
    else
      match (List.range r.ndescr).find? fun desIdx => (r.cs ((desIdx + q.arb) % r.ndescr)).toNat = q.cs with
      | none => .error .einval
      | some desIdx => .ok { q.unitAddr idx with chunk := BitVec.ofNat 16 ((desIdx + q.arb) % r.ndescr) }

def nvmCmdRprtArbs (q : RprtArbs) : Except Errno (List LAddr) :=
  if q.naddrs < 0 ∨ ((q.geo.npugrp * q.geo.npunit : Nat) : Int) < q.naddrs then .error .einval
  else (List.range q.n).mapM q.pick

/-! What it promises. -/

def LAddr.unitOf (a : LAddr) : LAddr := { a with chunk := 0 }

def RprtArbs.Chosen (q : RprtArbs) (a : LAddr) : Prop :=
  nvmAddrCheckL a q.geo = 0 ∧ a.sectr = 0 ∧
    ∃ r, q.rprt a.unitOf = some r ∧ a.chunk.toNat < r.ndescr ∧ (r.cs a.chunk.toNat).toNat = q.cs

def RprtArbs.Promise (q : RprtArbs) : Prop :=
  ∀ addrs, nvmCmdRprtArbs q = .ok addrs → addrs.length = q.n ∧ ∀ (i : Nat) (a : LAddr), addrs[i]? = some a →
    q.Chosen a ∧ ∀ (j : Nat) (b : LAddr), addrs[j]? = some b → j ≠ i → (a.pugrp, a.punit) ≠ (b.pugrp, b.punit)

def RprtArbs.Usable (q : RprtArbs) (idx : Nat) : Prop :=
  ∃ r, q.rprt (q.unitAddr idx) = some r ∧ r.ndescr = q.geo.nchunk ∧
    ∃ k < q.geo.nchunk, (r.cs k).toNat = q.cs

/-- The number of the parallel unit at the sum `x` of index and random number. From 2^31 on the sum is
negative, and so is its remainder, which comes out short of 2^64. -/
def unitNo (nunits n x : Nat) : Nat :=
  (if x < 2 ^ 31 then x % n else (2 ^ 64 - (2 ^ 32 - x) % n) % 2 ^ 64) % nunits

/-- Turns whose sums do not wrap come to different units. -/
theorem unitNo_ne {nunits n arb i j : Nat} (hle : n ≤ nunits) (hij : i < j) (hj : j < n)
    (hwrap : j + arb < 2 ^ 31) : unitNo nunits n (i + arb) ≠ unitNo nunits n (j + arb) := by
  have hlt : ∀ x, x % n < nunits := fun x => (Nat.mod_lt x (by omega)).trans_le hle
  rw [unitNo, unitNo, if_pos (by omega), if_pos (by omega), Nat.mod_eq_of_lt (hlt _), Nat.mod_eq_of_lt (hlt _)]
  intro heq
  have := Striping.rotate_inj (hij.trans hj) hj heq
  omega

/-! The parallel units. -/

theorem int_rem_eq {x : Nat} (hx : x < 2 ^ 32) (n : Nat) :
    ((((x : Int).bmod (2 ^ 32)).tmod n) % 2 ^ 64).toNat =
      if x < 2 ^ 31 then x % n else (2 ^ 64 - (2 ^ 32 - x) % n) % 2 ^ 64 := by
  by_cases hlt : x < 2 ^ 31
  · have hsum : (x : Int).bmod (2 ^ 32) = x := by
      rw [Int.bmod]
      split_ifs <;> omega
    have hle : x % n ≤ x := Nat.mod_le _ _
    rw [if_pos hlt, hsum, ← Int.ofNat_tmod]
    omega
  · have hsum : (x : Int).bmod (2 ^ 32) = -((2 ^ 32 - x : Nat) : Int) := by
      rw [Int.bmod]
      split_ifs <;> omega
    have hle : (2 ^ 32 - x) % n ≤ 2 ^ 32 - x := Nat.mod_le _ _
    rw [if_neg hlt, hsum, Int.neg_tmod, ← Int.ofNat_tmod]
    omega

section

variable {q : RprtArbs}

theorem RprtArbs.cur_eq (hpos : 0 < q.naddrs) {idx : Nat} (hx : idx + q.arb < 2 ^ 32) :
    q.cur idx = if idx + q.arb < 2 ^ 31 then (idx + q.arb) % q.n
      else (2 ^ 64 - (2 ^ 32 - (idx + q.arb)) % q.n) % 2 ^ 64 := by
  have hn : q.naddrs = (q.n : Int) := (Int.toNat_of_nonneg hpos.le).symm
  have heq := int_rem_eq hx q.n
  rw [← hn] at heq
  rw [← heq]
  rfl

theorem RprtArbs.toNat_unit (hg : q.geo.npugrp ≤ 256) (hu : q.geo.npunit ≤ 256) (hg0 : 0 < q.geo.npugrp)
    (hu0 : 0 < q.geo.npunit) (idx : Nat) :
    (q.unitAddr idx).pugrp.toNat = q.cur idx % q.geo.npugrp ∧
      (q.unitAddr idx).punit.toNat = q.cur idx / q.geo.npugrp % q.geo.npunit := by
  have hlt := Nat.mod_lt (q.cur idx) hg0
  have hlt' := Nat.mod_lt (q.cur idx / q.geo.npugrp) hu0
  simp only [unitAddr, BitVec.toNat_ofNat]
  exact ⟨Nat.mod_eq_of_lt (by omega), Nat.mod_eq_of_lt (by omega)⟩

theorem RprtArbs.unit_eq_iff (hg : q.geo.npugrp ≤ 256) (hu : q.geo.npunit ≤ 256) (hg0 : 0 < q.geo.npugrp)
    (hu0 : 0 < q.geo.npunit) (i j : Nat) :
    ((q.unitAddr i).pugrp, (q.unitAddr i).punit) = ((q.unitAddr j).pugrp, (q.unitAddr j).punit) ↔
      q.cur i % (q.geo.npugrp * q.geo.npunit) = q.cur j % (q.geo.npugrp * q.geo.npunit) := by
  obtain ⟨hgi, hui⟩ := toNat_unit hg hu hg0 hu0 i
  obtain ⟨hgj, huj⟩ := toNat_unit hg hu hg0 hu0 j
  rw [Prod.mk.injEq, BitVec.toNat_eq, BitVec.toNat_eq, hgi, hui, hgj, huj, Nat.mod_mul, Nat.mod_mul]
  constructor
  · rintro ⟨h1, h2⟩
    rw [h1, h2]
  · intro h
    have hi := Nat.mod_lt (q.cur i) hg0
    have hj := Nat.mod_lt (q.cur j) hg0
    rw [Nat.add_comm, Nat.add_comm (q.cur j % _), Nat.mul_comm, Nat.mul_comm q.geo.npugrp] at h
    obtain ⟨hunit, hgrp⟩ := Striping.digits_inj hi hj h
    exact ⟨hgrp, hunit⟩

theorem RprtArbs.unitNo_eq_iff (hg : q.geo.npugrp ≤ 256) (hu : q.geo.npunit ≤ 256)
    (hle : q.naddrs ≤ ((q.geo.npugrp * q.geo.npunit : Nat) : Int)) (harb : q.arb < 2 ^ 31) {i j : Nat}
    (hi : i < q.n) (hj : j < q.n) :
    ((q.unitAddr i).pugrp, (q.unitAddr i).punit) = ((q.unitAddr j).pugrp, (q.unitAddr j).punit) ↔
      unitNo (q.geo.npugrp * q.geo.npunit) q.n (i + q.arb) =
        unitNo (q.geo.npugrp * q.geo.npunit) q.n (j + q.arb) := by
  have hn : (q.n : Int) = q.naddrs ∨ q.n = 0 := by
    rw [n]
    omega
  have hT : 0 < q.geo.npugrp * q.geo.npunit := by omega
  have hT' : q.geo.npugrp * q.geo.npunit ≤ 256 * 256 := Nat.mul_le_mul hg hu
  rw [unit_eq_iff hg hu (Nat.pos_of_mul_pos_right hT) (Nat.pos_of_mul_pos_left hT), cur_eq (by omega) (by omega),
    cur_eq (by omega) (by omega)]
  rfl

/-! The chunks. -/

theorem RprtArbs.pick_ok {idx : Nat} {a : LAddr} (h : q.pick idx = .ok a) :
    ∃ r k, q.rprt (q.unitAddr idx) = some r ∧ r.ndescr = q.geo.nchunk ∧ k < q.geo.nchunk ∧
      (r.cs k).toNat = q.cs ∧ a = { q.unitAddr idx with chunk := BitVec.ofNat 16 k } := by
  rw [pick] at h
  cases hr : q.rprt (q.unitAddr idx) with
  | none =>
    rw [hr] at h
    cases h
  | some r =>
    rw [hr] at h
    dsimp only at h
    split_ifs at h with hnd
    rw [not_not] at hnd
    cases hf : (List.range r.ndescr).find? fun desIdx => (r.cs ((desIdx + q.arb) % r.ndescr)).toNat = q.cs with
    | none =>
      rw [hf] at h
      cases h
    | some desIdx =>
      rw [hf] at h
      obtain rfl := Except.ok.inj h
      have hstate := List.find?_some hf
      have hlt := List.mem_range.mp (List.mem_of_find?_eq_some hf)
      have hk : (desIdx + q.arb) % r.ndescr < q.geo.nchunk := hnd ▸ Nat.mod_lt _ (by omega)
      exact ⟨r, _, rfl, hnd, hk, of_decide_eq_true hstate, rfl⟩

theorem RprtArbs.exists_pick_iff {idx : Nat} : (∃ a, q.pick idx = .ok a) ↔ q.Usable idx := by
  constructor
  · rintro ⟨a, ha⟩
    obtain ⟨r, k, hr, hnd, hk, hstate, -⟩ := pick_ok ha
    exact ⟨r, hr, hnd, k, hk, hstate⟩
  · rintro ⟨r, hr, hnd, k, hk, hstate⟩
    -- every chunk has its turn in the rotated search
    have hrot : ((k + (q.geo.nchunk - q.arb % q.geo.nchunk)) % q.geo.nchunk + q.arb) % q.geo.nchunk = k := by
      have hdiv := Nat.div_add_mod q.arb q.geo.nchunk
      have hmod := Nat.mod_lt q.arb (show 0 < q.geo.nchunk by omega)
      rw [Nat.mod_add_mod]
      calc (k + (q.geo.nchunk - q.arb % q.geo.nchunk) + q.arb) % q.geo.nchunk
          = (k + q.geo.nchunk * (q.arb / q.geo.nchunk + 1)) % q.geo.nchunk := by
            rw [Nat.mul_succ]
            exact congrArg (· % q.geo.nchunk) (by omega)
        _ = k := by rw [Nat.add_mul_mod_self_left, Nat.mod_eq_of_lt hk]
    rw [pick, hr]
    dsimp only
    rw [if_neg (not_not.mpr hnd), hnd]
    cases hf : (List.range q.geo.nchunk).find? fun desIdx =>
        (r.cs ((desIdx + q.arb) % q.geo.nchunk)).toNat = q.cs with
    | none =>
      have hmem : (k + (q.geo.nchunk - q.arb % q.geo.nchunk)) % q.geo.nchunk ∈ List.range q.geo.nchunk :=
        List.mem_range.mpr (Nat.mod_lt _ (by omega))
      have hnone := List.find?_eq_none.mp hf _ hmem
      rw [hrot] at hnone
      exact absurd (decide_eq_true hstate) hnone
    | some desIdx => exact ⟨_, rfl⟩

/-! The promise. -/

theorem RprtArbs.chosen_of_pick (hg : q.geo.npugrp ≤ 256) (hu : q.geo.npunit ≤ 256)
    (hc : q.geo.nchunk ≤ 65536) (hg0 : 0 < q.geo.npugrp) (hu0 : 0 < q.geo.npunit) {idx : Nat} {a : LAddr}
    (h : q.pick idx = .ok a) :
    (a.pugrp, a.punit) = ((q.unitAddr idx).pugrp, (q.unitAddr idx).punit) ∧
      (q.Chosen a ↔ 0 < q.geo.nsectr) := by
  obtain ⟨r, k, hr, hnd, hk, hstate, rfl⟩ := pick_ok h
  obtain ⟨hgrp, hunit⟩ := toNat_unit hg hu hg0 hu0 idx
  have hchunk : (BitVec.ofNat 16 k).toNat = k := by
    rw [BitVec.toNat_ofNat]
    exact Nat.mod_eq_of_lt (by omega)
  refine ⟨rfl, fun hch => ?_, fun hs => ⟨?_, rfl, r, hr, ?_, ?_⟩⟩
  · exact (nvmAddrCheckL_eq_zero.mp hch.1).2.2.2
  · refine nvmAddrCheckL_eq_zero.mpr ⟨?_, ?_, ?_, hs⟩
    · exact hgrp.trans_lt (Nat.mod_lt _ hg0)
    · exact hunit.trans_lt (Nat.mod_lt _ hu0)
    · exact hchunk.trans_lt hk
  · dsimp only
    rw [hchunk, hnd]
    exact hk
  · dsimp only
    rw [hchunk]
    exact hstate

/-- The call returns 0 when every unit that it asks is usable, and then it has picked from each. -/
theorem RprtArbs.run_ok_iff (hpos : 0 ≤ q.naddrs)
    (hle : q.naddrs ≤ ((q.geo.npugrp * q.geo.npunit : Nat) : Int))
    {addrs : List LAddr} : nvmCmdRprtArbs q = .ok addrs ↔
      List.Forall₂ (fun idx a => q.pick idx = .ok a) (List.range q.n) addrs := by
  rw [nvmCmdRprtArbs, if_neg (by omega)]
  exact ListRel.mapM_ok_iff

theorem RprtArbs.pick_of_forall₂ {addrs : List LAddr}
    (h : List.Forall₂ (fun idx a => q.pick idx = .ok a) (List.range q.n) addrs) {i : Nat} {a : LAddr}
    (ha : addrs[i]? = some a) : i < q.n ∧ q.pick i = .ok a := by
  have hrel := ListRel.forall₂_getElem? h i
  obtain ⟨-, hnone⟩ | ⟨idx, b, hidx, hb, hpick⟩ := ListRel.optionRel_cases hrel
  · rw [ha] at hnone
    cases hnone
  · obtain rfl := Option.some.inj (ha.symm.trans hb)
    obtain ⟨hlt, rfl⟩ := List.getElem?_eq_some_iff.mp hidx
    rw [List.getElem_range] at hpick
    exact ⟨by simpa using hlt, hpick⟩

theorem RprtArbs.chosen_of_forall₂ (hg : q.geo.npugrp ≤ 256) (hu : q.geo.npunit ≤ 256)
    (hc : q.geo.nchunk ≤ 65536) (hle : q.naddrs ≤ ((q.geo.npugrp * q.geo.npunit : Nat) : Int))
    {addrs : List LAddr} (h : List.Forall₂ (fun idx a => q.pick idx = .ok a) (List.range q.n) addrs)
    {i : Nat} {a : LAddr} (ha : addrs[i]? = some a) :
    i < q.n ∧ (a.pugrp, a.punit) = ((q.unitAddr i).pugrp, (q.unitAddr i).punit) ∧
      (q.Chosen a ↔ 0 < q.geo.nsectr) := by
  obtain ⟨hi, hpick⟩ := pick_of_forall₂ h ha
  have hn : (q.n : Int) = q.naddrs ∨ q.n = 0 := by
    rw [n]
    omega
  have hT : 0 < q.geo.npugrp * q.geo.npunit := by omega
  exact ⟨hi, chosen_of_pick hg hu hc (Nat.pos_of_mul_pos_right hT) (Nat.pos_of_mul_pos_left hT) hpick⟩

theorem RprtArbs.exists_addrs (h : ∀ idx < q.n, q.Usable idx) :
    ∃ addrs, List.Forall₂ (fun idx a => q.pick idx = .ok a) (List.range q.n) addrs := by
  have hpick : ∀ idx ∈ List.range q.n, ∃ a, q.pick idx = .ok a ∧ q.pick idx = .ok a := by
    intro idx hidx
    obtain ⟨a, ha⟩ := exists_pick_iff.mpr (h idx (List.mem_range.mp hidx))
    exact ⟨a, ha, ha⟩
  obtain ⟨addrs, hall, -⟩ := ListRel.exists_forall₂_iff.mpr hpick
  exact ⟨addrs, hall⟩

end

/-- The promise of `nvm_cmd_rprt_arbs` is kept when some unit that it asks has no chunk to choose, and
otherwise just when the chunks have sectors and no sum that wraps leads to the unit of an earlier turn. -/
theorem rprt_arbs_promise_iff (q : RprtArbs) (hg : q.geo.npugrp ≤ 256) (hu : q.geo.npunit ≤ 256)
    (hc : q.geo.nchunk ≤ 65536) (harb : q.arb < 2 ^ 31) (hpos : 0 ≤ q.naddrs)
    (hle : q.naddrs ≤ ((q.geo.npugrp * q.geo.npunit : Nat) : Int)) :
    q.Promise ↔ q.naddrs = 0 ∨ (∃ idx < q.n, ¬ q.Usable idx) ∨ (0 < q.geo.nsectr ∧
      ∀ i j, i < j → j < q.n → 2 ^ 31 ≤ j + q.arb →
        unitNo (q.geo.npugrp * q.geo.npunit) q.n (i + q.arb) ≠
          unitNo (q.geo.npugrp * q.geo.npunit) q.n (j + q.arb)) := by
  have hn : (q.n : Int) = q.naddrs := Int.toNat_of_nonneg hpos
  constructor
  · intro hp
    by_cases husable : ∀ idx < q.n, q.Usable idx
    · by_cases hzero : q.naddrs = 0
      · exact .inl hzero
      · obtain ⟨addrs, hall⟩ := RprtArbs.exists_addrs husable
        have hlen : addrs.length = q.n := by simpa using hall.length_eq.symm
        obtain ⟨-, hsel⟩ := hp addrs ((RprtArbs.run_ok_iff hpos hle).mpr hall)
        refine .inr (.inr ⟨?_, fun i j hij hj _ heq => ?_⟩)
        · have ha := List.getElem?_eq_getElem (show 0 < addrs.length by omega)
          obtain ⟨-, -, hch⟩ := RprtArbs.chosen_of_forall₂ hg hu hc hle hall ha
          exact hch.mp (hsel 0 _ ha).1
        · have ha := List.getElem?_eq_getElem (show i < addrs.length by omega)
          have hb := List.getElem?_eq_getElem (show j < addrs.length by omega)
          obtain ⟨-, hua, -⟩ := RprtArbs.chosen_of_forall₂ hg hu hc hle hall ha
          obtain ⟨-, hub, -⟩ := RprtArbs.chosen_of_forall₂ hg hu hc hle hall hb
          refine (hsel i _ ha).2 j _ hb (by omega) ?_
          rw [hua, hub]
          exact (RprtArbs.unitNo_eq_iff hg hu hle harb (by omega) hj).mpr heq
    · push Not at husable
      exact .inr (.inl husable)
  · intro hcond addrs hrun
    have hall := (RprtArbs.run_ok_iff hpos hle).mp hrun
    have hlen : addrs.length = q.n := by simpa using hall.length_eq.symm
    refine ⟨hlen, fun i a ha => ?_⟩
    obtain ⟨hi, hua, hch⟩ := RprtArbs.chosen_of_forall₂ hg hu hc hle hall ha
    rcases hcond with hzero | ⟨idx, hidx, hnot⟩ | ⟨hs, hdist⟩
    · omega
    · have hidx' := List.getElem?_eq_getElem (show idx < addrs.length by omega)
      exact absurd (RprtArbs.exists_pick_iff.mp ⟨_, (RprtArbs.pick_of_forall₂ hall hidx').2⟩) hnot
    · have hne : ∀ k l, k < l → l < q.n → unitNo (q.geo.npugrp * q.geo.npunit) q.n (k + q.arb) ≠
          unitNo (q.geo.npugrp * q.geo.npunit) q.n (l + q.arb) := by
        intro k l hkl hl
        by_cases hwrap : l + q.arb < 2 ^ 31
        · exact unitNo_ne (by omega) hkl hl hwrap
        · exact hdist k l hkl hl (not_lt.mp hwrap)
      refine ⟨hch.mpr hs, fun j b hb hji => ?_⟩
      obtain ⟨hj, hub, -⟩ := RprtArbs.chosen_of_forall₂ hg hu hc hle hall hb
      rw [hua, hub, Ne, RprtArbs.unitNo_eq_iff hg hu hle harb hi hj]
      rcases Nat.lt_or_gt_of_ne hji with hlt | hlt
      · exact fun heq => hne j i hlt hi heq.symm
      · exact hne i j hlt hj

def arbsRprt (arb : Nat) : RprtArbs where
  geo := { tinyGeoL with npugrp := 5, npunit := 1, nchunk := 4 }
  rprt := fun _ => some ⟨4, fun k => if k = 2 then 0x1 else 0x8⟩
  cs := 0x1
  naddrs := 5
  arb := arb

theorem arbsRprt_usable (arb idx : Nat) : (arbsRprt arb).Usable idx :=
  have hlt : 2 < 4 := by decide
  ⟨_, rfl, rfl, 2, hlt, rfl⟩

theorem rprt_arbs_promise_iff_no_wrap : (arbsRprt 7).Promise := by
  have hn : (arbsRprt 7).n = 5 := rfl
  have harb : (arbsRprt 7).arb = 7 := rfl
  refine (rprt_arbs_promise_iff (arbsRprt 7) (by decide) (by decide) (by decide) (by decide) (by decide)
    (by decide)).mpr (.inr (.inr ⟨by decide, fun i j _ hj hwrap => ?_⟩))
  omega

/-- With the largest random number two turns come to the first of five units. -/
theorem rprt_arbs_unit_twice : (∀ idx < 5, (arbsRprt (2 ^ 31 - 1)).Usable idx) ∧
    (arbsRprt (2 ^ 31 - 1)).unitAddr 3 = (arbsRprt (2 ^ 31 - 1)).unitAddr 4 ∧
    ¬ (arbsRprt (2 ^ 31 - 1)).Promise := by
  have husable := fun idx => arbsRprt_usable (2 ^ 31 - 1) idx
  have hsame : (arbsRprt (2 ^ 31 - 1)).unitAddr 3 = (arbsRprt (2 ^ 31 - 1)).unitAddr 4 := by decide
  refine ⟨fun idx _ => husable idx, hsame, fun hp => ?_⟩
  obtain ⟨addrs, hall⟩ := RprtArbs.exists_addrs (fun idx _ => husable idx)
  have hlen : addrs.length = 5 := hall.length_eq.symm.trans (by decide)
  obtain ⟨-, hsel⟩ := hp addrs ((RprtArbs.run_ok_iff (by decide) (by decide)).mpr hall)
  have ha := List.getElem?_eq_getElem (show 3 < addrs.length by omega)
  have hb := List.getElem?_eq_getElem (show 4 < addrs.length by omega)
  have hunit : ∀ {i a}, addrs[i]? = some a → a.unitOf = (arbsRprt (2 ^ 31 - 1)).unitAddr i := by
    intro i a h
    obtain ⟨r, k, -, -, -, -, rfl⟩ := RprtArbs.pick_ok (RprtArbs.pick_of_forall₂ hall h).2
    rfl
  have heq := (hunit ha).trans (hsame.trans (hunit hb).symm)
  have hgrp := congrArg LAddr.pugrp heq
  have hpunit := congrArg LAddr.punit heq
  exact (hsel 3 _ ha).2 4 _ hb (by decide) (Prod.ext hgrp hpunit)

end LightNvm
