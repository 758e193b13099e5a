import LightNvm.Addr
import LightNvm.Striping

/-! The device's address format on OCSSD 2.0: `nvm_addr_gen2dev` packs the components of an
address into a logical block address. -/

namespace LightNvm

structure Lbaf where
  pugrp : Nat
  punit : Nat
  chunk : Nat
  sectr : Nat
  deriving DecidableEq

/-- `dev->lbaz` as `nvm_be_populate` derives it: the sector lowest, then chunk, parallel
unit and group. -/
def Lbaf.zchunk (f : Lbaf) : Nat := f.sectr

def Lbaf.zpunit (f : Lbaf) : Nat := f.zchunk + f.chunk

def Lbaf.zpugrp (f : Lbaf) : Nat := f.zpunit + f.punit

/-- `x << n` on 64 bits. C leaves a count of 64 or more undefined; the machine takes the count
modulo 64. -/
def shl (x : BitVec 64) (n : Nat) : BitVec 64 := x <<< (n % 64)

def nvmAddrGen2devL (f : Lbaf) (a : LAddr) : BitVec 64 :=
  shl (a.pugrp.setWidth 64) f.zpugrp ||| shl (a.punit.setWidth 64) f.zpunit |||
    shl (a.chunk.setWidth 64) f.zchunk ||| shl (a.sectr.setWidth 64) 0

/-- The format has room for the geometry and fits 64 bits. -/
structure Lbaf.Fits (f : Lbaf) (geo : GeoL) : Prop where
  npugrp_le : geo.npugrp ≤ 2 ^ f.pugrp
  npunit_le : geo.npunit ≤ 2 ^ f.punit
  nchunk_le : geo.nchunk ≤ 2 ^ f.chunk
  nsectr_le : geo.nsectr ≤ 2 ^ f.sectr
  bits_le : f.zpugrp + f.pugrp ≤ 64

def Lbaf.chunkNo (f : Lbaf) (a : LAddr) : Nat :=
  (a.pugrp.toNat * 2 ^ f.punit + a.punit.toNat) * 2 ^ f.chunk + a.chunk.toNat

theorem mul_two_pow_lt {b k j : Nat} (hb : b < 2 ^ k) : b * 2 ^ j < 2 ^ (k + j) := by
  rw [Nat.pow_add]
  exact Nat.mul_lt_mul_of_pos_right hb (Nat.two_pow_pos j)

theorem shl_eq {x : BitVec 64} {n : Nat} (h : n < 64 ∨ x = 0) : shl x n = x <<< n := by
  rcases h with h | rfl
  · rw [shl, Nat.mod_eq_of_lt h]
  · simp [shl]

theorem toNat_setWidth_shl {w x z b : Nat} (v : BitVec w) (hv : v.toNat < 2 ^ b)
    (hz : z + b ≤ 64) (hx : x = v.toNat * 2 ^ z) : (shl (v.setWidth 64) z).toNat = x := by
  have hz' : z < 64 ∨ v.setWidth 64 = 0 := by
    rcases Nat.lt_or_ge z 64 with h | h
    · exact .inl h
    · obtain rfl : b = 0 := by omega
      have hv0 : v.toNat = 0 := Nat.lt_one_iff.mp hv
      exact .inr (BitVec.eq_of_toNat_eq (by simp [hv0]))
  have hlt : v.toNat * 2 ^ z < 2 ^ 64 :=
    (mul_two_pow_lt hv).trans_le (Nat.pow_le_pow_right (by decide) (by omega))
  have hv64 : v.toNat < 2 ^ 64 := hv.trans_le (Nat.pow_le_pow_right (by decide) (by omega))
  rw [shl_eq hz', BitVec.toNat_shiftLeft, BitVec.toNat_setWidth, Nat.mod_eq_of_lt hv64, Nat.shiftLeft_eq,
    Nat.mod_eq_of_lt hlt, hx]

theorem mul_two_pow_or {a k b : Nat} (hb : b < 2 ^ k) : a * 2 ^ k ||| b = a * 2 ^ k + b := by
  rw [← Nat.shiftLeft_eq, Nat.shiftLeft_add_eq_or_of_lt hb]

theorem toNat_gen2devL {f : Lbaf} {geo : GeoL} (hf : f.Fits geo) {a : LAddr}
    (ha : nvmAddrCheckL a geo = 0) :
    (nvmAddrGen2devL f a).toNat = f.chunkNo a * 2 ^ f.sectr + a.sectr.toNat := by
  obtain ⟨hg, hu, hc, hs⟩ := nvmAddrCheckL_eq_zero.mp ha
  have hbits := hf.bits_le
  have hzg : f.zpugrp = f.punit + f.chunk + f.sectr := by
    simp only [Lbaf.zpugrp, Lbaf.zpunit, Lbaf.zchunk]; omega
  have hzu : f.zpunit = f.chunk + f.sectr := by
    simp only [Lbaf.zpunit, Lbaf.zchunk]; omega
  have hu' := hu.trans_le hf.npunit_le
  have hc' := hc.trans_le hf.nchunk_le
  have hs' := hs.trans_le hf.nsectr_le
  rw [nvmAddrGen2devL, BitVec.toNat_or, BitVec.toNat_or, BitVec.toNat_or,
    toNat_setWidth_shl a.pugrp (hg.trans_le hf.npugrp_le) hbits rfl,
    toNat_setWidth_shl a.punit hu' (by omega) rfl,
    toNat_setWidth_shl a.chunk hc' (by simp only [Lbaf.zchunk]; omega) rfl,
    toNat_setWidth_shl a.sectr hs' (by omega) (Nat.mul_one _).symm, hzg, hzu, Lbaf.zchunk]
  -- from the top, each component fills the zeros below the ones packed before it
  have h₁ : a.pugrp.toNat * 2 ^ (f.punit + f.chunk + f.sectr) ||| a.punit.toNat * 2 ^ (f.chunk + f.sectr) =
      (a.pugrp.toNat * 2 ^ f.punit + a.punit.toNat) * 2 ^ (f.chunk + f.sectr) := by
    rw [Nat.add_assoc, mul_two_pow_or (mul_two_pow_lt hu'), Nat.pow_add]
    ring
  have h₂ : (a.pugrp.toNat * 2 ^ f.punit + a.punit.toNat) * 2 ^ (f.chunk + f.sectr) |||
      a.chunk.toNat * 2 ^ f.sectr = f.chunkNo a * 2 ^ f.sectr := by
    rw [mul_two_pow_or (mul_two_pow_lt hc'), Nat.pow_add, Lbaf.chunkNo]
    ring
  rw [h₁, h₂, mul_two_pow_or hs']

theorem chunkNo_inj {f : Lbaf} {geo : GeoL} (hf : f.Fits geo) {a b : LAddr}
    (ha : nvmAddrCheckL a geo = 0) (hb : nvmAddrCheckL b geo = 0) (h : f.chunkNo a = f.chunkNo b) :
    a.chunkOf = b.chunkOf := by
  obtain ⟨-, hua, hca, -⟩ := nvmAddrCheckL_eq_zero.mp ha
  obtain ⟨-, hub, hcb, -⟩ := nvmAddrCheckL_eq_zero.mp hb
  obtain ⟨hunit, hchunk⟩ := Striping.digits_inj (hca.trans_le hf.nchunk_le) (hcb.trans_le hf.nchunk_le) h
  obtain ⟨hgrp, hunit⟩ := Striping.digits_inj (hua.trans_le hf.npunit_le) (hub.trans_le hf.npunit_le) hunit
  simp only [LAddr.chunkOf, BitVec.eq_of_toNat_eq hgrp, BitVec.eq_of_toNat_eq hunit,
    BitVec.eq_of_toNat_eq hchunk]

theorem chunkNo_congr {f : Lbaf} {a b : LAddr} (h : a.chunkOf = b.chunkOf) :
    f.chunkNo a = f.chunkNo b := by
  simp only [LAddr.chunkOf, Prod.mk.injEq] at h
  obtain ⟨hgrp, hunit, hchunk⟩ := h
  rw [Lbaf.chunkNo, hgrp, hunit, hchunk, Lbaf.chunkNo]

end LightNvm
