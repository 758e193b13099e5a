import LightNvm.VblkS20
import LightNvm.Striping

/-! Aligned ranges of an OCSSD 2.0 virtual block as sequences of write units: the
commands of the synchronous write loop, one for each unit. -/

namespace LightNvm

open SizeLoop (width sizeFor progression rounds)

/-- The range of `k` write units from unit `u` on. -/
structure VblkL.Units (v : VblkL) (count offset k u : Nat) : Prop where
  count : count = k * v.wsOpt * v.geo.nbytes
  offset : offset = u * v.wsOpt * v.geo.nbytes

def VblkL.unitCmd (v : VblkL) (pad : Bool) (j u : Nat) : CmdL where
  slots := (List.range v.wsOpt).map fun i => ⟨u % v.nblks, u / v.nblks * v.wsOpt + i⟩
  naddrs := v.wsOpt
  buf := if pad then .pad else .user (j * v.wsOpt * v.geo.nbytes)

theorem VblkL.units_of_dvd {v : VblkL} {count offset : Nat} (hc : v.wsOpt * v.geo.nbytes ∣ count)
    (ho : v.wsOpt * v.geo.nbytes ∣ offset) : ∃ k u, v.Units count offset k u := by
  obtain ⟨k, rfl⟩ := hc
  obtain ⟨u, rfl⟩ := ho
  exact ⟨k, u, by ring, by ring⟩

theorem VblkL.nbytes_le (v : VblkL) : v.nbytes ≤ v.nblks * v.geo.nsectr * v.geo.nbytes :=
  Nat.mod_le _ _

theorem VblkL.nsectrs_le (v : VblkL) : v.nblks * v.geo.nsectr ≤ 2 ^ 39 := by
  calc v.nblks * v.geo.nsectr ≤ 128 * 2 ^ 32 := Nat.mul_le_mul v.nblks_le v.geo.nsectr_lt.le
    _ = 2 ^ 39 := by norm_num

namespace VblkL.Units

variable {v : VblkL} {count offset k u : Nat}

theorem count_div (h : v.Units count offset k u) : count / v.geo.nbytes = k * v.wsOpt := by
  rw [h.count, Nat.mul_div_cancel _ v.geo.nbytes_pos]

theorem offset_div (h : v.Units count offset k u) : offset / v.geo.nbytes = u * v.wsOpt := by
  rw [h.offset, Nat.mul_div_cancel _ v.geo.nbytes_pos]

theorem sectors_le (h : v.Units count offset k u) (hb : offset + count ≤ v.nbytes) :
    (u + k) * v.wsOpt ≤ v.nblks * v.geo.nsectr := by
  apply Nat.le_of_mul_le_mul_right _ v.geo.nbytes_pos
  calc (u + k) * v.wsOpt * v.geo.nbytes = offset + count := by rw [h.offset, h.count]; ring
    _ ≤ v.nblks * v.geo.nsectr * v.geo.nbytes := hb.trans v.nbytes_le

theorem fits (h : v.Units count offset k u) (hb : offset + count ≤ v.nbytes) :
    (u + k) * v.wsOpt + v.wsOpt ≤ width := by
  have h₁ := (h.sectors_le hb).trans v.nsectrs_le
  have h₂ : v.wsOpt < 2 ^ 31 := v.geo.wsOpt_lt
  have h₃ : width = 2 ^ 64 := rfl
  omega

theorem count_lt (hb : offset + count ≤ v.nbytes) : count < width := by
  have : v.nbytes < width := Nat.mod_lt _ (by decide)
  omega

theorem count_eq_zero (h : v.Units count offset k u) (hw : 0 < v.wsOpt) : count = 0 ↔ k = 0 := by
  have hnb := v.geo.nbytes_pos
  rw [h.count, Nat.mul_eq_zero, Nat.mul_eq_zero]
  omega

theorem offset_eq_zero (h : v.Units count offset k u) (hw : 0 < v.wsOpt) : offset = 0 ↔ u = 0 := by
  have hnb := v.geo.nbytes_pos
  rw [h.offset, Nat.mul_eq_zero, Nat.mul_eq_zero]
  omega

theorem nstripes_eq (h : v.Units count offset k u) (hw : 0 < v.wsOpt) : v.nstripes count = k := by
  rw [VblkL.nstripes, h.count_div, Nat.mul_div_cancel _ hw]

end VblkL.Units

theorem VblkL.sectrSlot_unit {v : VblkL} {u i : Nat} (hi : i < v.wsOpt) :
    v.sectrSlot (u * v.wsOpt + i) = ⟨u % v.nblks, u / v.nblks * v.wsOpt + i⟩ := by
  have hl : (u * v.wsOpt + i) / v.wsOpt % v.nblks = u % v.nblks := Striping.lane_unit hi
  have hp : (u * v.wsOpt + i) % v.wsOpt + (u * v.wsOpt + i) / v.wsOpt / v.nblks * v.wsOpt =
    u / v.nblks * v.wsOpt + i := Striping.pos_unit hi
  simp only [VblkL.sectrSlot, hl, hp]

theorem VblkL.bufOff_add {v : VblkL} {b n : Nat} (hb : b + n < width) (hn : n * v.geo.nbytes < width) :
    v.bufOff b (b + n) = n * v.geo.nbytes := by
  have h : (b + n + width - b) % width = n := by
    rw [show b + n + width - b = n + width by omega, Nat.add_mod_right, Nat.mod_eq_of_lt (by omega)]
  rw [VblkL.bufOff, h, Nat.mod_eq_of_lt hn]

theorem VblkL.syncWriteCmd_unit {v : VblkL} (pad : Bool) {j u : Nat}
    (hfit : (u + j) * v.wsOpt + v.wsOpt ≤ width) (hbuf : j * v.wsOpt * v.geo.nbytes < width)
    (hw : 0 < v.wsOpt) :
    v.syncWriteCmd pad (u * v.wsOpt) (u * v.wsOpt + j * v.wsOpt) = v.unitCmd pad j (u + j) := by
  have hadd : u * v.wsOpt + j * v.wsOpt = (u + j) * v.wsOpt := by ring
  have hslots : ∀ i ∈ List.range v.wsOpt,
      v.sectrSlot ((u * v.wsOpt + j * v.wsOpt + i) % width) =
        ⟨(u + j) % v.nblks, (u + j) / v.nblks * v.wsOpt + i⟩ := by
    intro i hi
    have hlt := List.mem_range.mp hi
    rw [Nat.mod_eq_of_lt (by omega), hadd, VblkL.sectrSlot_unit hlt]
  have hoff : v.bufOff (u * v.wsOpt) (u * v.wsOpt + j * v.wsOpt) = j * v.wsOpt * v.geo.nbytes :=
    VblkL.bufOff_add (by omega) hbuf
  simp only [VblkL.syncWriteCmd, VblkL.unitCmd, hoff, List.map_congr_left hslots]

section

variable {v : VblkL} {count offset b n : Nat}

/-- The end of the range as the loops compute it: the subtraction wraps for an empty
range at the start of the virtual block. -/
theorem VblkL.sectrEnd_eq (hb : offset / v.geo.nbytes = b) (hn : count / v.geo.nbytes = n)
    (h : b + n < width) : v.sectrEnd count offset = if b + n = 0 then width - 1 else b + n - 1 := by
  rw [VblkL.sectrEnd, hb, hn]
  split_ifs with h0
  · rw [h0]; rfl
  · have hw : 0 < width := by decide
    rw [show b + n + (width - 1) = b + n - 1 + width by omega, Nat.add_mod_right,
      Nat.mod_eq_of_lt (by omega)]

theorem sectrLoop_eq {step : Nat} (hb : offset / v.geo.nbytes = b) (hn : count / v.geo.nbytes = n)
    (hs : 0 < step) (h0 : b + n ≠ 0) (hfit : b + n + step ≤ width) :
    sizeFor (fun sectrOfz => sectrOfz ≤ v.sectrEnd count offset) step (offset / v.geo.nbytes) =
      some (progression b step (rounds n step)) := by
  rw [VblkL.sectrEnd_eq hb hn (by omega), if_neg h0, hb]
  apply SizeLoop.sizeFor_below hs
  · intro i _
    rw [decide_eq_true_iff]
    omega
  · exact hfit

theorem sectrLoop_endless (step : Nat) (hb : offset / v.geo.nbytes = 0)
    (hn : count / v.geo.nbytes = 0) :
    sizeFor (fun sectrOfz => sectrOfz ≤ v.sectrEnd count offset) step (offset / v.geo.nbytes) = none := by
  rw [VblkL.sectrEnd_eq hb hn (by decide), if_pos rfl, hb]
  apply SizeLoop.sizeFor_forever
  · intro i hi
    rw [decide_eq_true_iff]
    omega
  · decide

theorem syncWriteCmds_endless (pad : Bool) (hb : offset / v.geo.nbytes = 0)
    (hn : count / v.geo.nbytes = 0) : v.syncWriteCmds pad count offset = none := by
  simp only [VblkL.syncWriteCmds, sectrLoop_endless _ hb hn, Option.map_none]

end

theorem syncWriteCmds_of_div {v : VblkL} {count offset k u : Nat} (pad : Bool) (hw : 0 < v.wsOpt)
    (hk : count / v.geo.nbytes = k * v.wsOpt) (hu : offset / v.geo.nbytes = u * v.wsOpt)
    (hne : ¬(k = 0 ∧ u = 0)) (hfit : (u + k) * v.wsOpt + v.wsOpt ≤ width) (hc : count < width) :
    v.syncWriteCmds pad count offset = some ((List.range k).map fun j => v.unitCmd pad j (u + j)) := by
  have hsum : u * v.wsOpt + k * v.wsOpt = (u + k) * v.wsOpt := by ring
  have h0 : u * v.wsOpt + k * v.wsOpt ≠ 0 := by
    rw [hsum, ne_eq, Nat.mul_eq_zero]
    omega
  have hloop := sectrLoop_eq hu hk hw h0 (by omega)
  simp only [VblkL.syncWriteCmds, hloop, Option.map_some, Option.some.injEq]
  rw [hu, SizeLoop.rounds_mul hw, progression, List.map_map]
  apply List.map_congr_left
  intro j hj
  have hjk := List.mem_range.mp hj
  have hle : (u + j) * v.wsOpt ≤ (u + k) * v.wsOpt := Nat.mul_le_mul_right _ (by omega)
  have hlt : j * v.wsOpt * v.geo.nbytes ≤ count := by
    calc j * v.wsOpt * v.geo.nbytes ≤ count / v.geo.nbytes * v.geo.nbytes := by
          rw [hk]
          exact Nat.mul_le_mul_right _ (Nat.mul_le_mul_right _ hjk.le)
      _ ≤ count := Nat.div_mul_le_self _ _
  exact VblkL.syncWriteCmd_unit pad (by omega) (by omega) hw

theorem syncWriteCmds_eq {v : VblkL} {count offset k u : Nat} (h : v.Units count offset k u) (pad : Bool)
    (hw : 0 < v.wsOpt) (hne : ¬(k = 0 ∧ u = 0)) (hfit : (u + k) * v.wsOpt + v.wsOpt ≤ width)
    (hc : count < width) :
    v.syncWriteCmds pad count offset = some ((List.range k).map fun j => v.unitCmd pad j (u + j)) :=
  syncWriteCmds_of_div pad hw h.count_div h.offset_div hne hfit hc

end LightNvm
