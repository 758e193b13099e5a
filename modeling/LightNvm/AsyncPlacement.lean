import LightNvm.S20Units

/-! Where the asynchronous loop puts a range, against the synchronous one. The former
counts rounds from the start of the call, the latter from the start of the virtual block. -/

namespace LightNvm

open SizeLoop (width)

def CmdL.placed (nb : Nat) (c : CmdL) : List (Slot × Nat) :=
  c.slots.mapIdx fun i s => (s, c.buf.off + i * nb)

def VblkL.Placement (v : VblkL) (count offset : Nat) (t : Slot × Nat) : Prop :=
  ∃ s, offset / v.geo.nbytes ≤ s ∧ s < offset / v.geo.nbytes + count / v.geo.nbytes ∧
    t.1.chunk = s / v.wsOpt % v.nblks ∧
    t.1.sectr = s % v.wsOpt + s / v.wsOpt / v.nblks * v.wsOpt ∧
    t.2 = (s - offset / v.geo.nbytes) * v.geo.nbytes

/-- The synchronous loop ends and puts the range where it should be, and the asynchronous
one, in either direction, puts it in the same place. -/
def VblkL.SamePlacement (v : VblkL) (count offset : Nat) : Prop :=
  ∃ cmds, v.syncWriteCmds false count offset = some cmds ∧
    (∀ t, t ∈ cmds.flatMap (CmdL.placed v.geo.nbytes) ↔ v.Placement count offset t) ∧
    (∀ t, t ∈ (v.asyncCmds false count offset).flatMap (CmdL.placed v.geo.nbytes) ↔
      t ∈ cmds.flatMap (CmdL.placed v.geo.nbytes))

theorem mem_placed {f : Nat → Slot} {w n off nb : Nat} {t : Slot × Nat} :
    t ∈ CmdL.placed nb ⟨(List.range w).map f, n, .user off⟩ ↔ ∃ i < w, t = (f i, off + i * nb) := by
  simp only [CmdL.placed, List.mem_mapIdx, List.length_map, List.length_range, List.getElem_map,
    List.getElem_range, BufRef.off, exists_prop, eq_comm]

def unitPlacement (v : VblkL) (k u : Nat) (rnd : Nat → Nat) (t : Slot × Nat) : Prop :=
  ∃ j < k, ∃ i < v.wsOpt,
    t = (⟨(u + j) % v.nblks, rnd j * v.wsOpt + i⟩, (j * v.wsOpt + i) * v.geo.nbytes)

section

variable {v : VblkL} {count offset k u : Nat}

theorem mem_syncPlaced {t : Slot × Nat} :
    t ∈ ((List.range k).map fun j => v.unitCmd false j (u + j)).flatMap (CmdL.placed v.geo.nbytes) ↔
      unitPlacement v k u (fun j => (u + j) / v.nblks) t := by
  simp only [List.mem_flatMap, List.mem_map, List.mem_range, exists_exists_and_eq_and, VblkL.unitCmd,
    Bool.false_eq_true, if_false, mem_placed, unitPlacement, Nat.add_mul]

theorem mem_asyncPlaced (h : v.Units count offset k u) (hw : 0 < v.wsOpt) {t : Slot × Nat} :
    t ∈ (v.asyncCmds false count offset).flatMap (CmdL.placed v.geo.nbytes) ↔
      unitPlacement v k u (fun j => j / v.nblks) t := by
  have hoff : ∀ j, v.geo.nbytes * v.wsOpt * j = j * v.wsOpt * v.geo.nbytes := fun j => by ring
  simp only [VblkL.asyncCmds, h.nstripes_eq hw, h.offset_div, List.mem_flatMap, List.mem_map,
    List.mem_range, exists_exists_and_eq_and, VblkL.asyncCmd, Bool.false_eq_true, if_false,
    Nat.mul_div_cancel _ hw, Nat.mod_add_mod, mem_placed, unitPlacement, Nat.add_mul, hoff]

theorem placement_iff (h : v.Units count offset k u) (hw : 0 < v.wsOpt) (t : Slot × Nat) :
    v.Placement count offset t ↔ unitPlacement v k u (fun j => (u + j) / v.nblks) t := by
  have hlane : ∀ j i, i < v.wsOpt → ((u + j) * v.wsOpt + i) / v.wsOpt % v.nblks = (u + j) % v.nblks :=
    fun j i hi => Striping.lane_unit hi
  have hpos : ∀ j i, i < v.wsOpt → ((u + j) * v.wsOpt + i) % v.wsOpt +
      ((u + j) * v.wsOpt + i) / v.wsOpt / v.nblks * v.wsOpt = (u + j) / v.nblks * v.wsOpt + i :=
    fun j i hi => Striping.pos_unit hi
  obtain ⟨⟨chunk, sectr⟩, off⟩ := t
  simp only [VblkL.Placement, h.offset_div, h.count_div, unitPlacement, Prod.mk.injEq, Slot.mk.injEq]
  constructor
  · rintro ⟨s, hle, hlt, rfl, rfl, rfl⟩
    obtain ⟨d, rfl⟩ : ∃ d, s = u * v.wsOpt + d := ⟨s - u * v.wsOpt, by omega⟩
    have hd : d = d / v.wsOpt * v.wsOpt + d % v.wsOpt := (Nat.div_add_mod' d v.wsOpt).symm
    have hs : u * v.wsOpt + d = (u + d / v.wsOpt) * v.wsOpt + d % v.wsOpt := by
      rw [Nat.add_mul, Nat.add_assoc, ← hd]
    have hi := Nat.mod_lt d hw
    refine ⟨d / v.wsOpt, Nat.div_lt_of_lt_mul (by rw [Nat.mul_comm]; omega), d % v.wsOpt, hi, ?_⟩
    rw [hs, hlane _ _ hi, hpos _ _ hi, ← hs, ← hd, Nat.add_sub_cancel_left]
    exact ⟨⟨rfl, rfl⟩, rfl⟩
  · rintro ⟨j, hj, i, hi, ⟨rfl, rfl⟩, rfl⟩
    have hlt := Striping.digits_lt hj hi
    refine ⟨(u + j) * v.wsOpt + i, ?_, ?_, (hlane j i hi).symm, (hpos j i hi).symm, ?_⟩
    · rw [Nat.add_mul]; omega
    · rw [Nat.add_mul]; omega
    · rw [show (u + j) * v.wsOpt + i - u * v.wsOpt = j * v.wsOpt + i by rw [Nat.add_mul]; omega]

theorem unitPlacement_congr_iff {f g : Nat → Nat} (hw : 0 < v.wsOpt) :
    (∀ t, unitPlacement v k u f t ↔ unitPlacement v k u g t) ↔ ∀ j < k, f j = g j := by
  constructor
  · intro h j hj
    obtain ⟨j', hj', i', hi', ht⟩ := (h _).mp ⟨j, hj, 0, hw, rfl⟩
    simp only [Prod.mk.injEq, Slot.mk.injEq] at ht
    obtain ⟨⟨_, hsectr⟩, hoff⟩ := ht
    have hd := Nat.eq_of_mul_eq_mul_right v.geo.nbytes_pos hoff
    obtain ⟨rfl, rfl⟩ := Striping.digits_inj hw hi' hd
    exact Nat.eq_of_mul_eq_mul_right hw (by omega)
  · rintro h t
    constructor
    · rintro ⟨j, hj, i, hi, rfl⟩
      exact ⟨j, hj, i, hi, by rw [h j hj]⟩
    · rintro ⟨j, hj, i, hi, rfl⟩
      exact ⟨j, hj, i, hi, by rw [h j hj]⟩

end

/-- On aligned ranges in bounds the asynchronous loop agrees with the synchronous one
exactly when it starts at offset zero or stays in the first round over the chunks; the
synchronous loop does not end for the empty range at offset zero. -/
theorem async_same_placement_iff (v : VblkL) (hn : 0 < v.nblks) (hw : 0 < v.wsOpt)
    (count offset : Nat) (hc : v.wsOpt * v.geo.nbytes ∣ count) (ho : v.wsOpt * v.geo.nbytes ∣ offset)
    (hb : offset + count ≤ v.nbytes) :
    v.SamePlacement count offset ↔ ¬(count = 0 ∧ offset = 0) ∧
      (count = 0 ∨ offset = 0 ∨ offset + count ≤ v.nblks * v.wsOpt * v.geo.nbytes) := by
  obtain ⟨k, u, h⟩ := VblkL.units_of_dvd hc ho
  have hbytes : offset + count ≤ v.nblks * v.wsOpt * v.geo.nbytes ↔ u + k ≤ v.nblks := by
    rw [h.offset, h.count, ← Nat.add_mul, ← Nat.add_mul,
      Nat.mul_le_mul_right_iff v.geo.nbytes_pos, Nat.mul_le_mul_right_iff hw]
  rw [h.count_eq_zero hw, h.offset_eq_zero hw, hbytes, ← Striping.rounds_agree_iff hn,
    ← unitPlacement_congr_iff (u := u) hw]
  by_cases hne : k = 0 ∧ u = 0
  · have hend : v.syncWriteCmds false count offset = none := syncWriteCmds_endless false
      (by rw [h.offset_div, hne.2, Nat.zero_mul]) (by rw [h.count_div, hne.1, Nat.zero_mul])
    simp [VblkL.SamePlacement, hend, hne]
  · have hcmds := syncWriteCmds_eq h false hw hne (h.fits hb) (VblkL.Units.count_lt hb)
    have hright : ∀ t, t ∈ ((List.range k).map fun j => v.unitCmd false j (u + j)).flatMap
        (CmdL.placed v.geo.nbytes) ↔ v.Placement count offset t := by
      intro t
      rw [mem_syncPlaced, placement_iff h hw]
    simp only [VblkL.SamePlacement, hcmds, Option.some.injEq, exists_eq_left', hright, implies_true,
      true_and, hne, not_false_eq_true, placement_iff h hw, mem_asyncPlaced h hw]

theorem async_same_placement_iff_whole : (tinyVblk .vector true).SamePlacement 4096 0 :=
  (async_same_placement_iff (tinyVblk .vector true) (by decide) (by decide) 4096 0 (by decide)
    (by decide) (by decide)).mpr (by decide)

/-- The third unit belongs to the second round; the asynchronous loop puts it over the first. -/
theorem async_misplaces_third_unit :
    let v := tinyVblk .vector true
    0 < v.nblks ∧ 0 < v.wsOpt ∧ v.wsOpt * v.geo.nbytes ∣ 1024 ∧ v.wsOpt * v.geo.nbytes ∣ 2048 ∧
    2048 + 1024 ≤ v.nbytes ∧ ¬ v.SamePlacement 1024 2048 := by
  refine ⟨by decide, by decide, by decide, by decide, by decide, ?_⟩
  rintro ⟨cmds, _, hplace, hsame⟩
  have hmem : ((⟨0, 0⟩ : Slot), 0) ∈
      ((tinyVblk .vector true).asyncCmds false 1024 2048).flatMap (CmdL.placed 512) := by decide
  obtain ⟨s, hle, hlt, _, hsectr, _⟩ := (hplace _).mp ((hsame _).mp hmem)
  have hle' : 4 ≤ s := hle
  have hlt' : s < 6 := hlt
  have hsectr' : 0 = s % 2 + s / 2 / 2 * 2 := hsectr
  omega

end LightNvm
