import Mathlib.Logic.Function.Basic
import LightNvm.Addr

/-! The bad-block tables of an OCSSD 1.2 device: the managed entries of
`dev->bbts`, the tables on the device and the functions of `nvm_bbt.c`. -/

namespace LightNvm

inductive BbtState where
  | free | bad | gbad | dmrk | hmrk
  deriving DecidableEq, Repr

def BbtState.code : BbtState → UInt8
  | .free => 0x0
  | .bad => 0x1
  | .gbad => 0x2
  | .dmrk => 0x4
  | .hmrk => 0x8

def bbtState (v : UInt8) : Option BbtState :=
  if v = 0x0 then some .free
  else if v = 0x1 then some .bad
  else if v = 0x2 then some .gbad
  else if v = 0x4 then some .dmrk
  else if v = 0x8 then some .hmrk
  else none

structure Bbt where
  addr : GAddr
  nblks : Nat
  nbad : Nat
  ngbad : Nat
  ndmrk : Nat
  nhmrk : Nat
  blks : Nat → UInt8

structure SpecBbt where
  tblks : Nat
  tfact : Nat
  tgrown : Nat
  tdresv : Nat
  thresv : Nat
  blk : Nat → UInt8

/-- The tables on the device: the state at index `blk * nplanes + pl` of a LUN. -/
abbrev Tables := Nat → Nat → Nat → UInt8

inductive BbtBackend where
  | ioctl | spdk
  deriving DecidableEq, Repr

/-- What a run does not change. The `n`-th allocation or device command of the run
succeeds when `succeeds n` holds. -/
structure BbtEnv where
  geo : GeoG
  be : BbtBackend
  succeeds : Nat → Bool

structure BbtDev where
  bbtsCached : Bool
  bbts : Nat → Option Bbt
  table : Tables
  nevents : Nat

def BbtEnv.nblks (env : BbtEnv) : Nat := env.geo.nblocks * env.geo.nplanes

def BbtEnv.nbbts (env : BbtEnv) : Nat := env.geo.nchannels * env.geo.nluns

def nvmDevOpen (table : Tables) (bbtsCached : Bool) : BbtDev :=
  ⟨bbtsCached, fun _ => none, table, 0⟩

def bbtIdx (geo : GeoG) (addr : GAddr) : Nat := addr.ch.toNat * geo.nluns + addr.lun.toNat

def blkIdx (geo : GeoG) (addr : GAddr) : Nat := addr.blk.toNat * geo.nplanes + addr.pl.toNat

def countState (st : BbtState) (nblks : Nat) (blks : Nat → UInt8) : Nat :=
  (List.range nblks).countP (fun i => bbtState (blks i) = some st)

/-- `_refresh_counters` on an OCSSD 1.2 device: an entry in no known state makes it
return before any counter is stored. -/
def refreshCounters (bbt : Bbt) : Except Errno Bbt :=
  if (List.range bbt.nblks).all (fun i => (bbtState (bbt.blks i)).isSome) then
    .ok { bbt with
      nbad := countState .bad bbt.nblks bbt.blks
      ngbad := countState .gbad bbt.nblks bbt.blks
      ndmrk := countState .dmrk bbt.nblks bbt.blks
      nhmrk := countState .hmrk bbt.nblks bbt.blks }
  else .error .einval

/-- A caller that ignores the result of `_refresh_counters`. -/
def refreshed (bbt : Bbt) : Bbt :=
  match refreshCounters bbt with
  | .ok bbt => bbt
  | .error _ => bbt

def Tables.set (t : Tables) (ch lun i : Nat) (v : UInt8) : Tables :=
  fun c l j => if c = ch ∧ l = lun ∧ j = i then v else t c l j

def Tables.mark (geo : GeoG) (t : Tables) (addrs : List GAddr) (v : UInt8) : Tables :=
  addrs.foldl (fun t a => t.set a.ch.toNat a.lun.toNat (blkIdx geo a) v) t

def BbtDev.tick (s : BbtDev) : BbtDev := { s with nevents := s.nevents + 1 }

def BbtDev.setEntry (s : BbtDev) (k : Nat) (entry : Option Bbt) : BbtDev :=
  { s with bbts := Function.update s.bbts k entry }

def BbtDev.answer (env : BbtEnv) (s : BbtDev) (addr : GAddr) : SpecBbt :=
  let blk := s.table addr.ch.toNat addr.lun.toNat
  { tblks := env.nblks
    tfact := countState .bad env.nblks blk
    tgrown := countState .gbad env.nblks blk
    tdresv := countState .dmrk env.nblks blk
    thresv := countState .hmrk env.nblks blk
    blk := blk }

def nvmCmdGbbt (env : BbtEnv) (s : BbtDev) (addr : GAddr) : Except Errno SpecBbt × BbtDev :=
  if env.succeeds s.nevents then (.ok (s.answer env addr), s.tick) else (.error .eio, s.tick)

/-- The checks that `nvm_be_ioctl_sbbt` makes before it builds the command;
`nvm_be_spdk_sbbt` makes none. -/
def sbbtAccepts (env : BbtEnv) (addrs : List GAddr) (flags : UInt16) : Bool :=
  match env.be with
  | .ioctl => decide (flags ∈ [0x0, 0x1, 0x4, 0x2, 0x8]) && decide (addrs.length ≤ naddrMax) &&
      addrs.all (fun a => nvmAddrCheckG a env.geo == 0)
  | .spdk => true

def nvmCmdSbbt (env : BbtEnv) (s : BbtDev) (addrs : List GAddr) (flags : UInt16) :
    Except Errno Unit × BbtDev :=
  if !sbbtAccepts env addrs flags then (.error .einval, s)
  else if env.succeeds s.nevents then
    (.ok (), { s.tick with table := s.table.mark env.geo addrs flags.toUInt8 })
  else (.error .eio, s.tick)

def flushLoop (env : BbtEnv) (cached : Bbt) (spec : SpecBbt) :
    List Nat → BbtDev → Except Errno Unit × BbtDev
  | [], s => (.ok (), s)
  | i :: is, s =>
    if cached.blks i = spec.blk i then flushLoop env cached spec is s
    else
      let blkAddr := { cached.addr with
        blk := BitVec.ofNat 16 (i / env.geo.nplanes)
        pl := BitVec.ofNat 8 (i % env.geo.nplanes) }
      match nvmCmdSbbt env s [blkAddr] (cached.blks i).toUInt16 with
      | (.error e, s) => (.error e, s)
      | (.ok _, s) => flushLoop env cached spec is s

def nvmBbtFlush (env : BbtEnv) (s : BbtDev) (addr : GAddr) : Except Errno Unit × BbtDev :=
  if nvmAddrCheckG addr env.geo ≠ 0 then (.error .einval, s)
  else
    match s.bbts (bbtIdx env.geo addr) with
    | none => (.ok (), s)
    | some cached =>
      match nvmCmdGbbt env s addr with
      | (.error e, s) => (.error e, s)
      | (.ok spec, s) =>
        if cached.nblks ≠ spec.tblks then (.error .einval, s)
        else
          match flushLoop env cached spec (List.range cached.nblks) s with
          | (.error e, s) => (.error e, s)
          | (.ok _, s) => (.ok (), s.setEntry (bbtIdx env.geo addr) none)

def flushAllAddr (geo : GeoG) (i : Nat) : GAddr :=
  { ch := BitVec.ofNat 8 (i % geo.nchannels)
    lun := BitVec.ofNat 8 (i / geo.nchannels % geo.nluns)
    blk := 0, pl := 0, pg := 0, sec := 0 }

def flushAllLoop (env : BbtEnv) : List Nat → BbtDev → Except Errno Unit × BbtDev
  | [], s => (.ok (), s)
  | i :: is, s =>
    match nvmBbtFlush env s (flushAllAddr env.geo i) with
    | (.error e, s) => (.error e, s)
    | (.ok _, s) => flushAllLoop env is s

def nvmBbtFlushAll (env : BbtEnv) (s : BbtDev) : Except Errno Unit × BbtDev :=
  flushAllLoop env (List.range env.nbbts) s

/-- The entry that `nvm_bbt_get` fills: the present one, or fresh memory. -/
def bbtEntry (env : BbtEnv) (addr : GAddr) : Option Bbt → Bbt
  | some bbt => bbt
  | none => ⟨addr, env.nblks, 0, 0, 0, 0, fun _ => 0⟩

def Bbt.fill (bbt : Bbt) (spec : SpecBbt) : Bbt :=
  { bbt with
    blks := fun i => if i < bbt.nblks then spec.blk i else bbt.blks i
    nbad := spec.tfact
    ngbad := spec.tgrown
    ndmrk := spec.tdresv
    nhmrk := spec.thresv }

def bbtRefresh (env : BbtEnv) (s : BbtDev) (addr : GAddr) (bbt : Bbt) : Except Errno Bbt × BbtDev :=
  let k := bbtIdx env.geo addr
  match nvmCmdGbbt env s addr with
  | (.error e, s) => (.error e, s.setEntry k none)
  | (.ok spec, s) =>
    if bbt.nblks ≠ spec.tblks then (.error .eio, s.setEntry k none)
    else (.ok (bbt.fill spec), s.setEntry k (some (bbt.fill spec)))

def nvmBbtGet (env : BbtEnv) (s : BbtDev) (addr : GAddr) : Except Errno Bbt × BbtDev :=
  if nvmAddrCheckG addr env.geo ≠ 0 then (.error .einval, s)
  else
    match s.bbts (bbtIdx env.geo addr) with
    | some bbt => if s.bbtsCached then (.ok bbt, s) else bbtRefresh env s addr bbt
    | none =>
      if env.succeeds s.nevents then bbtRefresh env s.tick addr (bbtEntry env addr none)
      else (.error .enomem, s.tick)

def nvmBbtSet (env : BbtEnv) (s : BbtDev) (bbt : Bbt) : Except Errno Unit × BbtDev :=
  if nvmAddrCheckG bbt.addr env.geo ≠ 0 then (.error .einval, s)
  else
    match nvmBbtGet env s bbt.addr with
    | (.error e, s) => (.error e, s)
    | (.ok entry, s) =>
      let entry := { entry with blks := fun i => if i < bbt.nblks then bbt.blks i else entry.blks i }
      let s := s.setEntry (bbtIdx env.geo bbt.addr) (some (refreshed entry))
      if s.bbtsCached then (.ok (), s) else nvmBbtFlush env s bbt.addr

def markLoop (env : BbtEnv) (flags : UInt16) : List GAddr → BbtDev → Except Errno Unit × BbtDev
  | [], s => (.ok (), s)
  | addr :: addrs, s =>
    match nvmBbtGet env s addr with
    | (.error e, s) => (.error e, s)
    | (.ok entry, s) =>
      let entry := { entry with blks := Function.update entry.blks (blkIdx env.geo addr) flags.toUInt8 }
      markLoop env flags addrs (s.setEntry (bbtIdx env.geo addr) (some (refreshed entry)))

def nvmBbtMark (env : BbtEnv) (s : BbtDev) (addrs : List GAddr) (flags : UInt16) :
    Except Errno Unit × BbtDev :=
  if !s.bbtsCached then nvmCmdSbbt env s addrs flags else markLoop env flags addrs s

def nvmDevSetBbtsCached (s : BbtDev) (bbtsCached : Int) : Except Errno Unit × BbtDev :=
  if bbtsCached = 0 then (.ok (), { s with bbtsCached := false })
  else if bbtsCached = 1 then (.ok (), { s with bbtsCached := true })
  else (.error .einval, s)

def tinyAddr (lun blk : Nat) : GAddr := ⟨0, BitVec.ofNat 8 lun, BitVec.ofNat 16 blk, 0, 0, 0⟩

/-- `nvm_dev_close` ignores the result of the flush. -/
def nvmDevClose (env : BbtEnv) (s : BbtDev) : BbtDev := (nvmBbtFlushAll env s).2

end LightNvm
