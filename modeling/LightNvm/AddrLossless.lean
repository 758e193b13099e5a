import Mathlib.Algebra.Group.Nat.Units
import LightNvm.AddrConv

/-! The conversions on the devices that `nvm_be_populate` sets up: on both versions they lose
nothing, but for formats that give all bits to one component. -/

namespace LightNvm

open BitFields

/-! OCSSD 1.2. -/

structure PpafNand.Fits (p : PpafNand) (geo : GeoG) : Prop where
  placed : WellPlaced p.fields
  nchannels_le : geo.nchannels ≤ 2 ^ p.chLen.toNat
  nluns_le : geo.nluns ≤ 2 ^ p.lunLen.toNat
  nplanes_le : geo.nplanes ≤ 2 ^ p.plLen.toNat
  nblocks_le : geo.nblocks ≤ 2 ^ p.blkLen.toNat
  npages_le : geo.npages ≤ 2 ^ p.pgLen.toNat
  nsectors_le : geo.nsectors ≤ 2 ^ p.secLen.toNat

def GeoG.tsectr (geo : GeoG) : Nat :=
  geo.nchannels * geo.nluns * geo.nplanes * geo.nblocks * geo.npages * geo.nsectors

theorem constructPpafMask_eq (p : PpafNand) : constructPpafMask p =
    ⟨bitMask p.chOff.toNat p.chLen.toNat, bitMask p.lunOff.toNat p.lunLen.toNat,
      bitMask p.plOff.toNat p.plLen.toNat, bitMask p.blkOff.toNat p.blkLen.toNat,
      bitMask p.pgOff.toNat p.pgLen.toNat, bitMask p.secOff.toNat p.secLen.toNat⟩ := rfl

def GAddr.comps (a : GAddr) : List (BitVec 64) :=
  [a.ch.setWidth 64, a.lun.setWidth 64, a.pl.setWidth 64, a.blk.setWidth 64, a.pg.setWidth 64,
    a.sec.setWidth 64]

def GAddr.ofComps (vs : List (BitVec 64)) : GAddr where
  ch := (vs.getD 0 0).setWidth 8
  lun := (vs.getD 1 0).setWidth 8
  pl := (vs.getD 2 0).setWidth 8
  blk := (vs.getD 3 0).setWidth 16
  pg := (vs.getD 4 0).setWidth 16
  sec := (vs.getD 5 0).setWidth 8

theorem DevG.byFields {dev : DevG} (hmask : dev.mask = constructPpafMask dev.ppaf) :
    dev.fmt.ByFields GAddr.comps GAddr.ofComps where
  length_comps := fun _ => rfl
  ofComps_comps := fun a => by simp [GAddr.comps, GAddr.ofComps]
  comps_read := by
    rintro ⟨h₁, h₂, h₃, h₄, h₅, h₆⟩ d
    simp only [DevG.fmt, PpafNand.fields, GAddr.comps, GAddr.ofComps, List.map_cons, List.map_nil,
      List.getD_cons_zero, List.getD_cons_succ]
    rw [setWidth_setWidth_of_lt (toNat_read_lt_of_le h₁ d), setWidth_setWidth_of_lt (toNat_read_lt_of_le h₂ d),
      setWidth_setWidth_of_lt (toNat_read_lt_of_le h₃ d), setWidth_setWidth_of_lt (toNat_read_lt_of_le h₄ d),
      setWidth_setWidth_of_lt (toNat_read_lt_of_le h₅ d), setWidth_setWidth_of_lt (toNat_read_lt_of_le h₆ d)]
  gen2dev_eq := fun a => by
    simp [DevG.fmt, nvmAddrGen2devG, PpafNand.fields, GAddr.comps, BitVec.or_assoc]
  dev2gen_eq := fun d => by
    simp [DevG.fmt, nvmAddrDev2genG, PpafNand.fields, GAddr.ofComps, hmask, constructPpafMask_eq]
  mask_has := fun i h => by
    simpa [DevG.fmt, PpafNand.fields, hmask, constructPpafMask_eq, or_assoc] using h
  len_lt := by
    rintro ⟨h₁, h₂, h₃, h₄, h₅, h₆⟩
    simp only [DevG.fmt, PpafNand.fields, List.mem_cons, List.not_mem_nil, or_false, forall_eq_or_imp,
      forall_eq]
    omega

theorem exists_component {w n : Nat} (hw : 0 < w) (hn : 0 < n) :
    ∃ v : BitVec w, v.toNat < n ∧ (v = 0 → n ≤ 1) := by
  by_cases h : n ≤ 1
  · exact ⟨0, by simpa using hn, fun _ => h⟩
  · have hone : (1#w).toNat = 1 := by
      rw [BitVec.toNat_ofNat]
      exact Nat.mod_eq_of_lt (Nat.one_lt_two_pow hw.ne')
    refine ⟨1#w, by omega, fun h0 => ?_⟩
    rw [h0] at hone
    simp at hone

theorem GeoG.tsectr_le_one_iff (geo : GeoG) :
    geo.tsectr ≤ 1 ↔ ∀ a, nvmAddrCheckG a geo = 0 → a = ⟨0, 0, 0, 0, 0, 0⟩ := by
  constructor
  · intro h a ha
    obtain ⟨hch, hlun, hpl, hblk, hpg, hsec⟩ := nvmAddrCheckG_eq_zero.mp ha
    have hpos : 0 < geo.tsectr := by
      have h₁ : 0 < geo.nchannels := by omega
      have h₂ : 0 < geo.nluns := by omega
      have h₃ : 0 < geo.nplanes := by omega
      have h₄ : 0 < geo.nblocks := by omega
      have h₅ : 0 < geo.npages := by omega
      have h₆ : 0 < geo.nsectors := by omega
      rw [GeoG.tsectr]
      positivity
    have hone : geo.tsectr = 1 := by omega
    simp only [GeoG.tsectr, mul_eq_one] at hone
    obtain ⟨⟨⟨⟨⟨h₁, h₂⟩, h₃⟩, h₄⟩, h₅⟩, h₆⟩ := hone
    obtain ⟨ch, lun, blk, pl, pg, sec⟩ := a
    simp only [GAddr.mk.injEq]
    refine ⟨?_, ?_, ?_, ?_, ?_, ?_⟩ <;> apply BitVec.eq_of_toNat_eq <;> simp_all
  · intro hzero
    by_contra h
    have hne : geo.tsectr ≠ 0 := by omega
    simp only [GeoG.tsectr, Nat.mul_ne_zero_iff] at hne
    simp only [← Nat.pos_iff_ne_zero] at hne
    obtain ⟨⟨⟨⟨⟨h₁, h₂⟩, h₃⟩, h₄⟩, h₅⟩, h₆⟩ := hne
    -- an address that is nonzero wherever the geometry has room for it
    obtain ⟨ch, hch, hch'⟩ := @exists_component 8 _ (by decide) h₁
    obtain ⟨lun, hlun, hlun'⟩ := @exists_component 8 _ (by decide) h₂
    obtain ⟨pl, hpl, hpl'⟩ := @exists_component 8 _ (by decide) h₃
    obtain ⟨blk, hblk, hblk'⟩ := @exists_component 16 _ (by decide) h₄
    obtain ⟨pg, hpg, hpg'⟩ := @exists_component 16 _ (by decide) h₅
    obtain ⟨sec, hsec, hsec'⟩ := @exists_component 8 _ (by decide) h₆
    have hz := hzero ⟨ch, lun, blk, pl, pg, sec⟩
      (nvmAddrCheckG_eq_zero.mpr ⟨hch, hlun, hpl, hblk, hpg, hsec⟩)
    obtain ⟨z₁, z₂, z₄, z₃, z₅, z₆⟩ := GAddr.mk.inj hz
    rw [GeoG.tsectr, Nat.le_antisymm (hch' z₁) h₁, Nat.le_antisymm (hlun' z₂) h₂,
      Nat.le_antisymm (hpl' z₃) h₃, Nat.le_antisymm (hblk' z₄) h₄, Nat.le_antisymm (hpg' z₅) h₅,
      Nat.le_antisymm (hsec' z₆) h₆] at h
    exact h (by decide)

theorem DevG.lossless_iff {dev : DevG} (hmask : dev.mask = constructPpafMask dev.ppaf)
    (hssw : dev.ssw < 64) (hf : dev.ppaf.Fits dev.geo) :
    dev.fmt.Lossless ↔ (∀ f ∈ dev.ppaf.fields, f.len ≠ 64) ∨ dev.geo.tsectr ≤ 1 := by
  rw [(DevG.byFields hmask).lossless_iff hf.placed hssw ?_ (z := ⟨0, 0, 0, 0, 0, 0⟩) rfl,
    GeoG.tsectr_le_one_iff]
  · rfl
  · intro a ha
    obtain ⟨hch, hlun, hpl, hblk, hpg, hsec⟩ := nvmAddrCheckG_eq_zero.mp ha
    simp only [Fit, DevG.fmt, PpafNand.fields, GAddr.comps, List.zip_cons_cons,
      List.zip_nil_right, List.mem_cons, List.not_mem_nil, or_false, forall_eq_or_imp, forall_eq,
      BitVec.toNat_setWidth_of_le (show 8 ≤ 64 by decide),
      BitVec.toNat_setWidth_of_le (show 16 ≤ 64 by decide)]
    exact ⟨hch.trans_le hf.nchannels_le, hlun.trans_le hf.nluns_le, hpl.trans_le hf.nplanes_le,
      hblk.trans_le hf.nblocks_le, hpg.trans_le hf.npages_le, hsec.trans_le hf.nsectors_le⟩

/-! OCSSD 2.0. -/

def GeoL.tsectr (geo : GeoL) : Nat := geo.npugrp * geo.npunit * geo.nchunk * geo.nsectr

theorem Lbaf.placed {f : Lbaf} {geo : GeoL} (hf : f.Fits geo) : WellPlaced f.fields := by
  have hbits := hf.bits_le
  have hgrp : f.zpunit + f.punit = f.zpugrp := rfl
  have hunit : f.zchunk + f.chunk = f.zpunit := rfl
  have hchunk : 0 + f.sectr = f.zchunk := Nat.zero_add _
  constructor
  · simp only [Lbaf.fields, List.pairwise_cons, List.mem_cons, List.not_mem_nil, or_false,
      forall_eq_or_imp, forall_eq, List.Pairwise.nil, false_imp_iff, implies_true, and_true]
    refine ⟨⟨?_, ?_, ?_⟩, ⟨?_, ?_⟩, ?_⟩ <;> exact Field.apart_of_le (by dsimp only; omega)
  · simp only [Lbaf.fields, List.mem_cons, List.not_mem_nil, or_false, forall_eq_or_imp, forall_eq]
    refine ⟨?_, ?_, ?_, ?_⟩ <;> exact Field.below_of_le (by dsimp only; omega)

def LAddr.comps (a : LAddr) : List (BitVec 64) :=
  [a.pugrp.setWidth 64, a.punit.setWidth 64, a.chunk.setWidth 64, a.sectr.setWidth 64]

def LAddr.ofComps (vs : List (BitVec 64)) : LAddr where
  pugrp := (vs.getD 0 0).setWidth 8
  punit := (vs.getD 1 0).setWidth 8
  chunk := (vs.getD 2 0).setWidth 16
  sectr := (vs.getD 3 0).setWidth 32

theorem DevL.byFields {dev : DevL} (hmask : dev.lbam =
    ⟨bitMask dev.lbaf.zpugrp dev.lbaf.pugrp, bitMask dev.lbaf.zpunit dev.lbaf.punit,
      bitMask dev.lbaf.zchunk dev.lbaf.chunk, bitMask 0 dev.lbaf.sectr⟩) :
    dev.fmt.ByFields LAddr.comps LAddr.ofComps where
  length_comps := fun _ => rfl
  ofComps_comps := fun a => by simp [LAddr.comps, LAddr.ofComps]
  comps_read := by
    rintro ⟨h₁, h₂, h₃, h₄⟩ d
    simp only [DevL.fmt, Lbaf.fields, LAddr.comps, LAddr.ofComps, List.map_cons, List.map_nil,
      List.getD_cons_zero, List.getD_cons_succ]
    rw [setWidth_setWidth_of_lt (toNat_read_lt_of_le h₁ d), setWidth_setWidth_of_lt (toNat_read_lt_of_le h₂ d),
      setWidth_setWidth_of_lt (toNat_read_lt_of_le h₃ d), setWidth_setWidth_of_lt (toNat_read_lt_of_le h₄ d)]
  gen2dev_eq := fun a => by
    simp [DevL.fmt, nvmAddrGen2devL, Lbaf.fields, LAddr.comps, BitVec.or_assoc]
  dev2gen_eq := fun d => by
    simp [DevL.fmt, nvmAddrDev2genL, Lbaf.fields, LAddr.ofComps, hmask]
  mask_has := fun i h => by
    simpa [DevL.fmt, Lbaf.fields, hmask, or_assoc] using h
  len_lt := by
    rintro ⟨h₁, h₂, h₃, h₄⟩
    simp only [DevL.fmt, Lbaf.fields, List.mem_cons, List.not_mem_nil, or_false, forall_eq_or_imp,
      forall_eq]
    omega

theorem GeoL.tsectr_le_one_iff (geo : GeoL) :
    geo.tsectr ≤ 1 ↔ ∀ a, nvmAddrCheckL a geo = 0 → a = ⟨0, 0, 0, 0⟩ := by
  constructor
  · intro h a ha
    obtain ⟨hg, hu, hc, hs⟩ := nvmAddrCheckL_eq_zero.mp ha
    have hpos : 0 < geo.tsectr := by
      have h₁ : 0 < geo.npugrp := by omega
      have h₂ : 0 < geo.npunit := by omega
      have h₃ : 0 < geo.nchunk := by omega
      have h₄ : 0 < geo.nsectr := by omega
      rw [GeoL.tsectr]
      positivity
    have hone : geo.tsectr = 1 := by omega
    simp only [GeoL.tsectr, mul_eq_one] at hone
    obtain ⟨⟨⟨h₁, h₂⟩, h₃⟩, h₄⟩ := hone
    obtain ⟨pugrp, punit, chunk, sectr⟩ := a
    simp only [LAddr.mk.injEq]
    refine ⟨?_, ?_, ?_, ?_⟩ <;> apply BitVec.eq_of_toNat_eq <;> simp_all
  · intro hzero
    by_contra h
    have hne : geo.tsectr ≠ 0 := by omega
    simp only [GeoL.tsectr, Nat.mul_ne_zero_iff] at hne
    simp only [← Nat.pos_iff_ne_zero] at hne
    obtain ⟨⟨⟨h₁, h₂⟩, h₃⟩, h₄⟩ := hne
    obtain ⟨pugrp, hg, hg'⟩ := @exists_component 8 _ (by decide) h₁
    obtain ⟨punit, hu, hu'⟩ := @exists_component 8 _ (by decide) h₂
    obtain ⟨chunk, hc, hc'⟩ := @exists_component 16 _ (by decide) h₃
    obtain ⟨sectr, hs, hs'⟩ := @exists_component 32 _ (by decide) h₄
    have hz := hzero ⟨pugrp, punit, chunk, sectr⟩ (nvmAddrCheckL_eq_zero.mpr ⟨hg, hu, hc, hs⟩)
    obtain ⟨z₁, z₂, z₃, z₄⟩ := LAddr.mk.inj hz
    rw [GeoL.tsectr, Nat.le_antisymm (hg' z₁) h₁, Nat.le_antisymm (hu' z₂) h₂,
      Nat.le_antisymm (hc' z₃) h₃, Nat.le_antisymm (hs' z₄) h₄] at h
    exact h (by decide)

theorem DevL.lossless_iff {dev : DevL} (hmask : dev.lbam =
    ⟨bitMask dev.lbaf.zpugrp dev.lbaf.pugrp, bitMask dev.lbaf.zpunit dev.lbaf.punit,
      bitMask dev.lbaf.zchunk dev.lbaf.chunk, bitMask 0 dev.lbaf.sectr⟩)
    (hssw : dev.ssw < 64) (hf : dev.lbaf.Fits dev.geo) :
    dev.fmt.Lossless ↔ (∀ f ∈ dev.lbaf.fields, f.len ≠ 64) ∨ dev.geo.tsectr ≤ 1 := by
  rw [(DevL.byFields hmask).lossless_iff (Lbaf.placed hf) hssw ?_ (z := ⟨0, 0, 0, 0⟩) rfl,
    GeoL.tsectr_le_one_iff]
  · rfl
  · intro a ha
    obtain ⟨hg, hu, hc, hs⟩ := nvmAddrCheckL_eq_zero.mp ha
    simp only [Fit, DevL.fmt, Lbaf.fields, LAddr.comps, List.zip_cons_cons,
      List.zip_nil_right, List.mem_cons, List.not_mem_nil, or_false, forall_eq_or_imp, forall_eq,
      BitVec.toNat_setWidth_of_le (show 8 ≤ 64 by decide),
      BitVec.toNat_setWidth_of_le (show 16 ≤ 64 by decide),
      BitVec.toNat_setWidth_of_le (show 32 ≤ 64 by decide)]
    exact ⟨hg.trans_le hf.npugrp_le, hu.trans_le hf.npunit_le, hc.trans_le hf.nchunk_le,
      hs.trans_le hf.nsectr_le⟩

/-- The sectors of a chunk follow each other on the device and in the offsets, which are exact while
they do not exceed 64 bits. -/
def DevL.SectorRuns (dev : DevL) : Prop :=
  ∀ (a b : LAddr) (i : Nat), nvmAddrCheckL a dev.geo = 0 → nvmAddrCheckL b dev.geo = 0 →
    a.chunkOf = b.chunkOf → b.sectr.toNat = a.sectr.toNat + i →
    (nvmAddrGen2devL dev.lbaf b).toNat = (nvmAddrGen2devL dev.lbaf a).toNat + i ∧
    nvmAddrGen2off dev.fmt b = nvmAddrGen2off dev.fmt a + BitVec.ofNat 64 (i * dev.geo.nbytes) ∧
    ((nvmAddrGen2devL dev.lbaf b).toNat < 2 ^ (64 - dev.ssw) →
      (nvmAddrGen2off dev.fmt b).toNat = (nvmAddrGen2off dev.fmt a).toNat + i * dev.geo.nbytes)

theorem toNat_shl {x : BitVec 64} {n : Nat} (hn : n < 64) : (shl x n).toNat = x.toNat * 2 ^ n % 2 ^ 64 := by
  rw [shl_eq (.inl hn), BitVec.toNat_shiftLeft, Nat.shiftLeft_eq]

theorem DevL.sectorRuns {dev : DevL} (hf : dev.lbaf.Fits dev.geo) (hssw : dev.ssw < 64)
    (hbytes : dev.geo.nbytes = 2 ^ dev.ssw) : dev.SectorRuns := by
  intro a b i ha hb hchunk hs
  have hdev : (nvmAddrGen2devL dev.lbaf b).toNat = (nvmAddrGen2devL dev.lbaf a).toNat + i := by
    rw [toNat_gen2devL hf ha, toNat_gen2devL hf hb, chunkNo_congr hchunk, hs, Nat.add_assoc]
  have hmul : (nvmAddrGen2devL dev.lbaf b).toNat * 2 ^ dev.ssw =
      (nvmAddrGen2devL dev.lbaf a).toNat * 2 ^ dev.ssw + i * dev.geo.nbytes := by
    rw [hdev, hbytes, Nat.add_mul]
  have hb' : (nvmAddrGen2off dev.fmt b).toNat = (nvmAddrGen2devL dev.lbaf b).toNat * 2 ^ dev.ssw % 2 ^ 64 :=
    toNat_shl hssw
  have ha' : (nvmAddrGen2off dev.fmt a).toNat = (nvmAddrGen2devL dev.lbaf a).toNat * 2 ^ dev.ssw % 2 ^ 64 :=
    toNat_shl hssw
  refine ⟨hdev, BitVec.eq_of_toNat_eq ?_, fun hlt => ?_⟩
  · rw [BitVec.toNat_add, BitVec.toNat_ofNat, hb', ha', hmul, Nat.add_mod]
  · have hlt' := mul_two_pow_lt (j := dev.ssw) hlt
    rw [Nat.sub_add_cancel hssw.le] at hlt'
    rw [hb', ha', Nat.mod_eq_of_lt hlt', Nat.mod_eq_of_lt (by omega), hmul]

/-! What `nvm_be_populate` leaves behind. -/

theorem ilog2Loop_two_pow (k val : Nat) : ilog2Loop (2 ^ k) val = val + k := by
  induction k generalizing val with
  | zero => simp [ilog2Loop]
  | succ k ih =>
    have hhalf : 2 ^ (k + 1) >>> 1 = 2 ^ k := by
      rw [Nat.shiftRight_eq_div_pow, Nat.pow_succ, Nat.pow_one, Nat.mul_div_cancel _ (by decide)]
    rw [ilog2Loop, hhalf, if_neg (Nat.two_pow_pos k).ne', ih]
    omega

theorem ilog2Loop_le (n : Nat) {x : Nat} (hx : x < 2 ^ (n + 1)) (val : Nat) :
    ilog2Loop x val ≤ val + n := by
  induction n generalizing x val with
  | zero =>
    rw [ilog2Loop, if_pos (by rw [Nat.shiftRight_eq_div_pow]; omega)]
    omega
  | succ n ih =>
    rw [ilog2Loop]
    split_ifs
    · omega
    · have hhalf : x >>> 1 < 2 ^ (n + 1) := by
        rw [Nat.shiftRight_eq_div_pow]
        rw [Nat.pow_succ] at hx
        omega
      have := ih hhalf (val + 1)
      omega

theorem nvmBePopulate_cases {idfy : Idfy} {dev : Dev} (h : nvmBePopulate idfy = .ok dev) :
    (∃ hp, dev = .s12 ⟨idfy.s12.geo hp, idfy.s12.ppaf, constructPpafMask idfy.s12.ppaf,
      ilog2 idfy.s12.csecs.toNat⟩) ∨
    dev = .s20 ⟨idfy.s20.geo, idfy.s20.lbaf, idfy.s20.lbam, ilog2 (1 <<< idfy.s20.ds)⟩ := by
  dsimp only [nvmBePopulate] at h
  generalize (if idfy.verid = 0x3 then 0x2 else idfy.verid) = verid at h
  split_ifs at h with h12 hp h20
  · exact .inl ⟨hp, (Except.ok.inj h).symm⟩
  · exact .inr (Except.ok.inj h).symm

theorem nvmBePopulate_s12 {idfy : Idfy} {dev : DevG} (h : nvmBePopulate idfy = .ok (.s12 dev)) :
    dev.mask = constructPpafMask dev.ppaf ∧ dev.ssw < 64 := by
  rcases nvmBePopulate_cases h with ⟨hp, hdev⟩ | hdev
  · obtain rfl := Dev.s12.inj hdev
    exact ⟨rfl, (ilog2Loop_le 15 idfy.s12.csecs.isLt 0).trans_lt (by decide)⟩
  · exact absurd hdev (by simp)

theorem nvmBePopulate_s20 {idfy : Idfy} {dev : DevL} (h : nvmBePopulate idfy = .ok (.s20 dev)) :
    dev.lbam = ⟨bitMask dev.lbaf.zpugrp dev.lbaf.pugrp, bitMask dev.lbaf.zpunit dev.lbaf.punit,
      bitMask dev.lbaf.zchunk dev.lbaf.chunk, bitMask 0 dev.lbaf.sectr⟩ ∧
      dev.ssw < 64 ∧ dev.geo.nbytes = 2 ^ dev.ssw := by
  rcases nvmBePopulate_cases h with ⟨hp, hdev⟩ | hdev
  · exact absurd hdev (by simp)
  · obtain rfl := Dev.s20.inj hdev
    have hssw : ilog2 (1 <<< idfy.s20.ds) = idfy.s20.ds := by
      rw [Nat.one_shiftLeft, ilog2, ilog2Loop_two_pow, Nat.zero_add]
    have hlt := idfy.s20.ds_lt
    refine ⟨rfl, ?_, ?_⟩
    · dsimp only
      omega
    · dsimp only [IdfyS20.geo]
      rw [hssw, Nat.one_shiftLeft]

/-- When the conversions of a device lose nothing: unless the format gives all 64 bits to one
component of a device that has more than one sector. -/
theorem addr_conv_lossless_iff (idfy : Idfy) :
    (∀ dev : DevG, nvmBePopulate idfy = .ok (.s12 dev) → dev.ppaf.Fits dev.geo →
      (dev.fmt.Lossless ↔ (∀ f ∈ dev.ppaf.fields, f.len ≠ 64) ∨ dev.geo.tsectr ≤ 1)) ∧
    (∀ dev : DevL, nvmBePopulate idfy = .ok (.s20 dev) → dev.lbaf.Fits dev.geo →
      (dev.fmt.Lossless ∧ dev.SectorRuns ↔
        (∀ f ∈ dev.lbaf.fields, f.len ≠ 64) ∨ dev.geo.tsectr ≤ 1)) := by
  refine ⟨fun dev h hf => ?_, fun dev h hf => ?_⟩
  · obtain ⟨hmask, hssw⟩ := nvmBePopulate_s12 h
    exact DevG.lossless_iff hmask hssw hf
  · obtain ⟨hmask, hssw, hbytes⟩ := nvmBePopulate_s20 h
    rw [DevL.lossless_iff hmask hssw hf]
    exact and_iff_left (DevL.sectorRuns hf hssw hbytes)

def smallIdfy (verid : BitVec 8) : Idfy where
  verid := verid
  s12 := {
    fpgSz := 8192, csecs := 4096, sos := 16, numCh := 2, numLun := 2, numPln := 2, numBlk := 4, numPg := 4
    ppaf := ⟨7, 1, 6, 1, 5, 1, 3, 2, 1, 2, 0, 1⟩
    csecs_pos := by decide }
  s20 := {
    npugrp := 2, npunit := 2, nchunk := 4, nsectr := 16, wsOpt := 8, lbaf := ⟨1, 1, 2, 4⟩, ds := 12, ms := 16
    wsOpt_lt := by decide
    ds_lt := by decide }

theorem addr_conv_lossless_small :
    (∃ dev, nvmBePopulate (smallIdfy 1) = .ok (.s12 dev) ∧ dev.fmt.Lossless) ∧
    (∃ dev, nvmBePopulate (smallIdfy 3) = .ok (.s20 dev) ∧ dev.fmt.Lossless ∧ dev.SectorRuns) := by
  constructor
  · refine ⟨_, rfl, ((addr_conv_lossless_iff (smallIdfy 1)).1 _ rfl ?_).mpr (.inl (by decide))⟩
    have hstacked : (smallIdfy 1).s12.ppaf.fields.Pairwise (fun f g => g.off + g.len ≤ f.off) := by decide
    have hbelow : ∀ f ∈ (smallIdfy 1).s12.ppaf.fields, f.off + f.len ≤ 64 := by decide
    exact ⟨⟨hstacked.imp Field.apart_of_le, fun f hf => Field.below_of_le (hbelow f hf)⟩,
      by decide, by decide, by decide, by decide, by decide, by decide⟩
  · refine ⟨_, rfl, ((addr_conv_lossless_iff (smallIdfy 3)).2 _ rfl ?_).mpr (.inl (by decide))⟩
    exact ⟨by decide, by decide, by decide, by decide, by decide⟩

/-- One chunk of two sectors, and 64 bits for the sector. -/
def wideIdfy : Idfy where
  verid := 2
  s12 := (smallIdfy 2).s12
  s20 := { (smallIdfy 2).s20 with npugrp := 1, npunit := 1, nchunk := 1, nsectr := 2, lbaf := ⟨0, 0, 0, 64⟩ }

theorem wide_sector_lost :
    ∃ dev, nvmBePopulate wideIdfy = .ok (.s20 dev) ∧ dev.lbaf.Fits dev.geo ∧
      nvmAddrCheckL ⟨0, 0, 0, 1⟩ dev.geo = 0 ∧
      nvmAddrDev2genL dev (nvmAddrGen2devL dev.lbaf ⟨0, 0, 0, 1⟩) = ⟨0, 0, 0, 0⟩ ∧ ¬ dev.fmt.Lossless := by
  refine ⟨_, rfl, ⟨by decide, by decide, by decide, by decide, by decide⟩, by decide, by decide, ?_⟩
  intro h
  exact absurd (h.dev2gen_gen2dev ⟨0, 0, 0, 1⟩ (by decide)) (by decide)

end LightNvm
