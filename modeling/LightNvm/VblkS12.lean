import LightNvm.Vblk

/-! Virtual blocks of an OCSSD 1.2 device: `vblk_pwrite_s12` and `vblk_pread_s12`. -/

namespace LightNvm

open SizeLoop (width sizeFor)

/-- `struct nvm_vblk` of an OCSSD 1.2 device, as the constructors leave it. -/
structure VblkG where
  geo : GeoG
  metaMode : MetaMode
  blks : List GAddr
  nblks_le : blks.length ≤ 128
  blks_check : ∀ b ∈ blks, nvmAddrCheckG b geo = 0

def VblkG.nblks (v : VblkG) : Nat := v.blks.length

def VblkG.nbytes (v : VblkG) : Nat :=
  v.nblks * v.geo.nplanes * v.geo.npages * v.geo.nsectors * v.geo.sectorNbytes % width

def VblkG.spageNaddrs (v : VblkG) : Nat := v.geo.nplanes * v.geo.nsectors

def VblkG.align (v : VblkG) : Nat := v.spageNaddrs * v.geo.sectorNbytes

def int32 (n : Nat) : Int :=
  if n % 2 ^ 32 < 2 ^ 31 then (n % 2 ^ 32 : Nat) else (n % 2 ^ 32 : Nat) - 2 ^ 32

/-- `_cmd_nspages`: counts down to a divisor of `nblks`. -/
def cmdNspages (nblks : Nat) : Nat → Nat
  | 0 => 0
  | max + 1 => if nblks % (max + 1) ≠ 0 ∧ 1 < max + 1 then cmdNspages nblks max else max + 1

structure CmdG where
  addrs : List GAddr
  buf : BufRef
  deriving DecidableEq

def VblkG.spgAddr (v : VblkG) (off i : Nat) : GAddr :=
  let spg := int32 ((off + i / v.spageNaddrs) % width)
  let idx := spg.tmod v.nblks
  let pg := (spg.tdiv v.nblks % width).toNat % v.geo.npages
  { v.blks.getD idx.toNat ⟨0, 0, 0, 0, 0, 0⟩ with
    pg := BitVec.ofNat 16 pg
    pl := BitVec.ofNat 8 (i / v.geo.nsectors % v.geo.nplanes)
    sec := BitVec.ofNat 8 (i % v.geo.nsectors) }

def VblkG.spgCmd (v : VblkG) (nspagesMax : Nat) (pad : Bool) (bgn fin off : Nat) : CmdG :=
  let nspages := min (nspagesMax : Int) (int32 (fin - off))
  let naddrs := (nspages * v.spageNaddrs).toNat
  { addrs := (List.range naddrs).map (v.spgAddr off)
    buf := if pad then .pad
      else .user ((off + width - bgn) % width * v.geo.sectorNbytes * v.spageNaddrs % width) }

/-- The command loop; reads and writes differ only in the command they issue. -/
def VblkG.spgCmds (v : VblkG) (nspagesMax : Nat) (pad : Bool) (count offset : Nat) :
    Option (List CmdG) :=
  let bgn := offset / v.align
  let fin := (bgn + count / v.align) % width
  (sizeFor (fun off => off < fin) nspagesMax bgn).map fun offs => offs.map (v.spgCmd nspagesMax pad bgn fin)

def VblkG.checked (v : VblkG) (naddrsMax count offset : Nat) (io : Nat → Io CmdG) : Io CmdG :=
  if v.spageNaddrs = 0 ∨ naddrsMax / v.spageNaddrs = 0 then .traps
  else if (offset + count) % width > v.nbytes then .returns [] (.error .einval)
  else if count % v.align ≠ 0 ∨ offset % v.align ≠ 0 then .returns [] (.error .einval)
  else io (cmdNspages v.nblks (naddrsMax / v.spageNaddrs))

def vblkPwriteS12 (v : VblkG) (env : IoEnv) (naddrsMax : Nat) (bufNull : Bool) (count offset : Nat) :
    Io CmdG :=
  v.checked naddrsMax count offset fun nspages =>
    withBuffers env bufNull (nspages * v.spageNaddrs * v.geo.sectorNbytes % width) v.metaMode
      (nspages * v.spageNaddrs * v.geo.metaNbytes % width)
      (loopIo env (v.nblks * v.geo.npages) count (v.spgCmds nspages bufNull count offset))

def vblkPreadS12 (v : VblkG) (env : IoEnv) (naddrsMax : Nat) (count offset : Nat) : Io CmdG :=
  v.checked naddrsMax count offset fun nspages =>
    loopIo env (v.nblks * v.geo.npages) count (v.spgCmds nspages false count offset)

def tinyVblkG : VblkG where
  geo :=
    { tinyGeo with
      nblocks := 1
      sectorNbytes := 512
      npages := 2
      pageNbytes := 1024
      nblocks_lt := tinyGeo.npages_lt
      npages_lt := tinyGeo.nblocks_lt
      pageNbytes_lt := by decide
      sectorNbytes_pos := tinyGeoL.nbytes_pos }
  metaMode := .none
  blks := [⟨0, 0, 0, 0, 0, 0⟩, ⟨0, 1, 0, 0, 0, 0⟩]
  nblks_le := by decide
  blks_check := by decide

end LightNvm
