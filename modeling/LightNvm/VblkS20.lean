import LightNvm.Vblk

/-! Virtual blocks of an OCSSD 2.0 device: synchronous and asynchronous reads and writes. -/

namespace LightNvm

open SizeLoop (width sizeFor)

inductive CmdMode where
  | vector | scalar
  deriving DecidableEq, Repr

/-- `struct nvm_vblk` of an OCSSD 2.0 device, as the constructors leave it, with the
device options its functions read. -/
structure VblkL where
  geo : GeoL
  metaMode : MetaMode
  mode : CmdMode
  isAsync : Bool
  blks : List LAddr
  nblks_le : blks.length ≤ 128
  blks_check : ∀ b ∈ blks, nvmAddrCheckL b geo = 0

def VblkL.nblks (v : VblkL) : Nat := v.blks.length

def VblkL.wsOpt (v : VblkL) : Nat := v.geo.wsOpt

def VblkL.nbytes (v : VblkL) : Nat := v.nblks * v.geo.nsectr * v.geo.nbytes % width

/-- A chunk of the virtual block and a sector in it, before the sector goes into the
32-bit field of an address. -/
structure Slot where
  chunk : Nat
  sectr : Nat
  deriving DecidableEq, Repr

/-- A read or write command: the addresses filled in, the number announced, the data. -/
structure CmdL where
  slots : List Slot
  naddrs : Nat
  buf : BufRef
  deriving DecidableEq

def VblkL.addr (v : VblkL) (s : Slot) : LAddr :=
  { v.blks.getD s.chunk ⟨0, 0, 0, 0⟩ with sectr := BitVec.ofNat 32 s.sectr }

/-- The sectors a command transfers: a vector command names each of them, a scalar one
takes `naddrs` sectors from its first address on. -/
def CmdL.sectors (v : VblkL) (c : CmdL) : List LAddr :=
  match v.mode with
  | .vector => c.slots.map v.addr
  | .scalar =>
    match c.slots with
    | [] => []
    | s :: _ => (List.range c.naddrs).map fun i =>
        { v.addr s with sectr := (v.addr s).sectr + BitVec.ofNat 32 i }

/-! The synchronous loops. -/

def VblkL.sectrSlot (v : VblkL) (sectr : Nat) : Slot :=
  let wunit := sectr / v.wsOpt
  let rnd := wunit / v.nblks
  ⟨wunit % v.nblks, sectr % v.wsOpt + rnd * v.wsOpt⟩

def VblkL.bufOff (v : VblkL) (sectrBgn sectrOfz : Nat) : Nat :=
  (sectrOfz + width - sectrBgn) % width * v.geo.nbytes % width

def VblkL.sectrEnd (v : VblkL) (count offset : Nat) : Nat :=
  (offset / v.geo.nbytes + count / v.geo.nbytes + (width - 1)) % width

def VblkL.syncWriteCmd (v : VblkL) (pad : Bool) (sectrBgn sectrOfz : Nat) : CmdL where
  slots := (List.range v.wsOpt).map fun idx => v.sectrSlot ((sectrOfz + idx) % width)
  naddrs := v.wsOpt
  buf := if pad then .pad else .user (v.bufOff sectrBgn sectrOfz)

def VblkL.syncWriteCmds (v : VblkL) (pad : Bool) (count offset : Nat) : Option (List CmdL) :=
  let sectrBgn := offset / v.geo.nbytes
  let sectrEnd := v.sectrEnd count offset
  (sizeFor (fun sectrOfz => sectrOfz ≤ sectrEnd) v.wsOpt sectrBgn).map
    fun ofzs => ofzs.map (v.syncWriteCmd pad sectrBgn)

def VblkL.readNsectr (v : VblkL) : Nat :=
  match v.mode with
  | .vector => naddrMax
  | .scalar => v.wsOpt

/-- A scalar command gets its first address only. -/
def VblkL.syncReadCmd (v : VblkL) (sectrBgn sectrOfz : Nat) : CmdL where
  slots := (List.range (match v.mode with | .vector => v.readNsectr | .scalar => min 1 v.readNsectr)).map
    fun idx => v.sectrSlot ((sectrOfz + idx) % width)
  naddrs := v.readNsectr
  buf := .user (v.bufOff sectrBgn sectrOfz)

def VblkL.syncReadCmds (v : VblkL) (count offset : Nat) : Option (List CmdL) :=
  let sectrBgn := offset / v.geo.nbytes
  let sectrEnd := v.sectrEnd count offset
  (sizeFor (fun sectrOfz => sectrOfz ≤ sectrEnd) v.readNsectr sectrBgn).map
    fun ofzs => ofzs.map (v.syncReadCmd sectrBgn)

/-! The asynchronous loop. -/

def VblkL.asyncCmd (v : VblkL) (pad : Bool) (vsectrBgn stripe : Nat) : CmdL :=
  let cnkBgn := vsectrBgn / v.wsOpt % v.nblks
  let cnkIdx := (cnkBgn + stripe) % v.nblks
  let cnkOff := stripe / v.nblks * v.wsOpt
  { slots := (List.range v.wsOpt).map fun i => ⟨cnkIdx, cnkOff + i⟩
    naddrs := v.wsOpt
    buf := if pad then .pad else .user (v.geo.nbytes * v.wsOpt * stripe) }

def VblkL.nstripes (v : VblkL) (count : Nat) : Nat := count / v.geo.nbytes / v.wsOpt

def VblkL.asyncCmds (v : VblkL) (pad : Bool) (count offset : Nat) : List CmdL :=
  (List.range (v.nstripes count)).map (v.asyncCmd pad (offset / v.geo.nbytes))

/-- `vblk_io_async` with what its callers make of its result: a submission that is
refused for good ends it, a command that completes with an error is counted. -/
def vblkIoAsync (v : VblkL) (env : IoEnv) (pad : Bool) (count offset : Nat) : Io CmdL :=
  if v.nblks = 0 then .traps
  else
    let cmds := v.asyncCmds pad count offset
    let issued := (List.range cmds.length).takeWhile fun n => !env.refuses n
    if issued.length = cmds.length then finish env count cmds
    else .returns (cmds.take issued.length) (.error .eio)

/-! The functions. -/

def VblkL.checked (v : VblkL) (count offset : Nat) (io : Io CmdL) : Io CmdL :=
  if v.wsOpt = 0 then .traps
  else if count / v.geo.nbytes % v.wsOpt ≠ 0 then .returns [] (.error .einval)
  else if offset / v.geo.nbytes % v.wsOpt ≠ 0 then .returns [] (.error .einval)
  else io

def VblkL.buffered (v : VblkL) (env : IoEnv) (bufNull : Bool) (count : Nat) (io : Io CmdL) : Io CmdL :=
  withBuffers env bufNull (v.wsOpt * (count / v.geo.nbytes) * v.geo.nbytes % width)
    v.metaMode (v.wsOpt * v.geo.nbytesOob % width) io

def vblkSyncPwriteS20 (v : VblkL) (env : IoEnv) (bufNull : Bool) (count offset : Nat) : Io CmdL :=
  v.checked count offset
    (v.buffered env bufNull count (loopIo env v.nblks count (v.syncWriteCmds bufNull count offset)))

def vblkSyncPreadS20 (v : VblkL) (env : IoEnv) (count offset : Nat) : Io CmdL :=
  v.checked count offset (loopIo env v.nblks count (v.syncReadCmds count offset))

def vblkAsyncPwriteS20 (v : VblkL) (env : IoEnv) (bufNull : Bool) (count offset : Nat) : Io CmdL :=
  v.checked count offset (v.buffered env bufNull count (vblkIoAsync v env bufNull count offset))

def vblkAsyncPreadS20 (v : VblkL) (env : IoEnv) (count offset : Nat) : Io CmdL :=
  v.checked count offset (vblkIoAsync v env false count offset)

def tinyVblk (mode : CmdMode) (isAsync : Bool) : VblkL where
  geo := tinyGeoL
  metaMode := .none
  mode := mode
  isAsync := isAsync
  blks := [⟨0, 0, 0, 0⟩, ⟨0, 1, 0, 0⟩]
  nblks_le := by decide
  blks_check := by decide

end LightNvm
