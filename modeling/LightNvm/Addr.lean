import Mathlib.Data.Nat.Bitwise

/-! Generic addresses, the two geometries and the bounds check on addresses. -/

namespace LightNvm

inductive Errno where
  | einval | enomem | eio | enosys | eagain
  deriving DecidableEq, Repr

def naddrMax : Nat := 64

/-- `struct nvm_addr` through its OCSSD 1.2 accessor `g`. -/
structure GAddr where
  ch : BitVec 8
  lun : BitVec 8
  blk : BitVec 16
  pl : BitVec 8
  pg : BitVec 16
  sec : BitVec 8
  deriving DecidableEq, Repr

/-- `struct nvm_addr` through its OCSSD 2.0 accessor `l`. -/
structure LAddr where
  pugrp : BitVec 8
  punit : BitVec 8
  chunk : BitVec 16
  sectr : BitVec 32
  deriving DecidableEq, Repr

def LAddr.chunkOf (a : LAddr) : BitVec 8 × BitVec 8 × BitVec 16 := (a.pugrp, a.punit, a.chunk)

/-- `struct nvm_geo` of an OCSSD 1.2 device. The bounds are the widths of the
identify fields it is filled from; `nvm_be_populate` derives the number of
sectors and accepts one, two or four planes. -/
structure GeoG where
  nchannels : Nat
  nluns : Nat
  nblocks : Nat
  sectorNbytes : Nat
  metaNbytes : Nat
  nplanes : Nat
  npages : Nat
  pageNbytes : Nat
  nchannels_lt : nchannels < 2 ^ 8
  nluns_lt : nluns < 2 ^ 8
  nblocks_lt : nblocks < 2 ^ 16
  npages_lt : npages < 2 ^ 16
  pageNbytes_lt : pageNbytes < 2 ^ 16
  metaNbytes_lt : metaNbytes < 2 ^ 16
  sectorNbytes_pos : 0 < sectorNbytes
  nplanes_mem : nplanes = 1 ∨ nplanes = 2 ∨ nplanes = 4

def GeoG.nsectors (geo : GeoG) : Nat := geo.pageNbytes / geo.sectorNbytes

/-- `struct nvm_geo` of an OCSSD 2.0 device with the write size it reports.
`nvm_dev_get_ws_opt` hands `ws_opt` out as an `int`. -/
structure GeoL where
  npugrp : Nat
  npunit : Nat
  nchunk : Nat
  nsectr : Nat
  nbytes : Nat
  nbytesOob : Nat
  wsOpt : Nat
  nsectr_lt : nsectr < 2 ^ 32
  nbytes_pos : 0 < nbytes
  wsOpt_lt : wsOpt < 2 ^ 31

/-- `nvm_addr_check` on an OCSSD 1.2 device: the mask of exceeded bounds. -/
def nvmAddrCheckG (addr : GAddr) (geo : GeoG) : Nat :=
  (if geo.nchannels ≤ addr.ch.toNat then 0x1 else 0) |||
  (if geo.nluns ≤ addr.lun.toNat then 0x1 <<< 1 else 0) |||
  (if geo.nplanes ≤ addr.pl.toNat then 0x1 <<< 2 else 0) |||
  (if geo.nblocks ≤ addr.blk.toNat then 0x1 <<< 3 else 0) |||
  (if geo.npages ≤ addr.pg.toNat then 0x1 <<< 4 else 0) |||
  (if geo.nsectors ≤ addr.sec.toNat then 0x1 <<< 5 else 0)

def nvmAddrCheckL (addr : LAddr) (geo : GeoL) : Nat :=
  (if geo.npugrp ≤ addr.pugrp.toNat then 0x1 <<< 6 else 0) |||
  (if geo.npunit ≤ addr.punit.toNat then 0x1 <<< 7 else 0) |||
  (if geo.nchunk ≤ addr.chunk.toNat then 0x1 <<< 8 else 0) |||
  (if geo.nsectr ≤ addr.sectr.toNat then 0x1 <<< 9 else 0)

theorem nvmAddrCheckG_eq_zero {addr : GAddr} {geo : GeoG} :
    nvmAddrCheckG addr geo = 0 ↔
      addr.ch.toNat < geo.nchannels ∧ addr.lun.toNat < geo.nluns ∧
      addr.pl.toNat < geo.nplanes ∧ addr.blk.toNat < geo.nblocks ∧
      addr.pg.toNat < geo.npages ∧ addr.sec.toNat < geo.nsectors := by
  simp [nvmAddrCheckG, Nat.or_eq_zero_iff, and_assoc]

theorem nvmAddrCheckL_eq_zero {addr : LAddr} {geo : GeoL} :
    nvmAddrCheckL addr geo = 0 ↔
      addr.pugrp.toNat < geo.npugrp ∧ addr.punit.toNat < geo.npunit ∧
      addr.chunk.toNat < geo.nchunk ∧ addr.sectr.toNat < geo.nsectr := by
  simp [nvmAddrCheckL, Nat.or_eq_zero_iff, and_assoc]

theorem GeoG.nplanes_pos (geo : GeoG) : 0 < geo.nplanes := by
  rcases geo.nplanes_mem with h | h | h <;> omega

theorem GeoG.nplanes_le (geo : GeoG) : geo.nplanes ≤ 4 := by
  rcases geo.nplanes_mem with h | h | h <;> omega

def tinyGeo : GeoG where
  nchannels := 1
  nluns := 2
  nblocks := 2
  sectorNbytes := 4096
  metaNbytes := 16
  nplanes := 1
  npages := 1
  pageNbytes := 4096
  nchannels_lt := by decide
  nluns_lt := by decide
  nblocks_lt := by decide
  npages_lt := by decide
  pageNbytes_lt := by decide
  metaNbytes_lt := by decide
  sectorNbytes_pos := by decide
  nplanes_mem := by decide

def tinyGeoL : GeoL where
  npugrp := 1
  npunit := 2
  nchunk := 1
  nsectr := 4
  nbytes := 512
  nbytesOob := 16
  wsOpt := 2
  nsectr_lt := by decide
  nbytes_pos := by decide
  wsOpt_lt := by decide

end LightNvm
