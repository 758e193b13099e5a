import LightNvm.Addr

/-! `struct nvm_addr` as the 64-bit value that both of its accessors name parts of. -/

namespace LightNvm

structure NvmAddr where
  val : BitVec 64
  deriving DecidableEq, Repr

def NvmAddr.g (a : NvmAddr) : GAddr where
  ch := a.val.extractLsb' 56 8
  lun := a.val.extractLsb' 48 8
  blk := a.val.extractLsb' 32 16
  pl := a.val.extractLsb' 24 8
  pg := a.val.extractLsb' 8 16
  sec := a.val.extractLsb' 0 8

def NvmAddr.l (a : NvmAddr) : LAddr where
  pugrp := a.val.extractLsb' 56 8
  punit := a.val.extractLsb' 48 8
  chunk := a.val.extractLsb' 32 16
  sectr := a.val.extractLsb' 0 32

def NvmAddr.ofG (x : GAddr) : NvmAddr where
  val := BitVec.ofNat 64 (x.ch.toNat * 2 ^ 56 + x.lun.toNat * 2 ^ 48 + x.blk.toNat * 2 ^ 32 +
    x.pl.toNat * 2 ^ 24 + x.pg.toNat * 2 ^ 8 + x.sec.toNat)

def NvmAddr.ofL (x : LAddr) : NvmAddr where
  val := BitVec.ofNat 64 (x.pugrp.toNat * 2 ^ 56 + x.punit.toNat * 2 ^ 48 + x.chunk.toNat * 2 ^ 32 +
    x.sectr.toNat)

theorem toNat_field (v : BitVec 64) (off len : Nat) :
    (v.extractLsb' off len).toNat = v.toNat / 2 ^ off % 2 ^ len := by
  rw [BitVec.extractLsb'_toNat, Nat.shiftRight_eq_div_pow]

@[simp] theorem NvmAddr.g_ofG (x : GAddr) : (NvmAddr.ofG x).g = x := by
  rcases x with ⟨ch, lun, blk, pl, pg, sec⟩
  have hch := ch.isLt
  have hlun := lun.isLt
  have hblk := blk.isLt
  have hpl := pl.isLt
  have hpg := pg.isLt
  have hsec := sec.isLt
  simp only [NvmAddr.g, NvmAddr.ofG, GAddr.mk.injEq]
  refine ⟨?_, ?_, ?_, ?_, ?_, ?_⟩ <;>
    (apply BitVec.eq_of_toNat_eq; rw [toNat_field, BitVec.toNat_ofNat]; omega)

@[simp] theorem NvmAddr.l_ofL (x : LAddr) : (NvmAddr.ofL x).l = x := by
  rcases x with ⟨pugrp, punit, chunk, sectr⟩
  have hpugrp := pugrp.isLt
  have hpunit := punit.isLt
  have hchunk := chunk.isLt
  have hsectr := sectr.isLt
  simp only [NvmAddr.l, NvmAddr.ofL, LAddr.mk.injEq]
  refine ⟨?_, ?_, ?_, ?_⟩ <;>
    (apply BitVec.eq_of_toNat_eq; rw [toNat_field, BitVec.toNat_ofNat]; omega)

/-- The geometry of a device of either version. -/
inductive Geo where
  | s12 (geo : GeoG)
  | s20 (geo : GeoL)

def nvmAddrCheck (geo : Geo) (a : NvmAddr) : Nat :=
  match geo with
  | .s12 geo => nvmAddrCheckG a.g geo
  | .s20 geo => nvmAddrCheckL a.l geo

end LightNvm
