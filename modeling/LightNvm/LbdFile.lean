import LightNvm.ByteFile
import LightNvm.Erase
import LightNvm.LbdTransfers
import LightNvm.Runs

/-! Virtual blocks on one device of the LBD backend, which is a file to it: what the `pwrite`, `pread` and
`BLKDISCARD` of its scalar functions make of the file over a run of calls, and what a caller can know of the
blocks. -/

namespace LightNvm

open SizeLoop (width rounds)
open ByteFile (Store applyAll Layout)

/-- Synchronous virtual blocks with scalar commands, on chunks of their own, of a device whose offsets fit
the `off_t` of the kernel. -/
structure LbdBlks (ι : Type) where
  idfy : Idfy
  dev : DevL
  vblk : ι → VblkL
  populated : nvmBePopulate idfy = .ok (.s20 dev)
  fits : dev.lbaf.Fits dev.geo
  exact : ∀ a, nvmAddrCheckL a dev.geo = 0 →
    ((nvmAddrGen2devL dev.lbaf a).toNat + 1) * dev.geo.nbytes ≤ 2 ^ 63
  wsOpt_pos : 0 < dev.geo.wsOpt
  wsOpt_dvd : dev.geo.wsOpt ∣ dev.geo.nsectr
  geo_eq : ∀ i, (vblk i).geo = dev.geo
  scalar : ∀ i, (vblk i).mode = .scalar
  sync : ∀ i, (vblk i).isAsync = false
  noMeta : ∀ i, (vblk i).metaMode = .none
  distinct : ∀ i j (s t : Slot), s.chunk < (vblk i).nblks → t.chunk < (vblk j).nblks →
    ((vblk i).addr s).chunkOf = ((vblk j).addr t).chunkOf → i = j ∧ s.chunk = t.chunk

/-- The bytes at `dst` after the kernel has answered `res` to a call on `len` of them: they may be any after
a failure. -/
def kernelStore (res : Int) (dst len : Nat) (data junk : Nat → UInt8) : Store UInt8 :=
  if res < 0 then ⟨dst, len, junk⟩ else ⟨dst, min res.toNat len, data⟩

/-- The `pwrite` of `nvm_be_lbd_scalar_write`. -/
def DevL.lbdPwrite (dev : DevL) (v : VblkL) (data junk : Nat → UInt8) (res : Int) (c : CmdL) :
    List (Store UInt8) :=
  match c.addrs v with
  | [] => []
  | a :: _ =>
    let range := dev.lbdRange a c.naddrs
    [kernelStore res range.1.toNat range.2 (c.buf.bytes data) junk]

/-- The `pread` of `nvm_be_lbd_scalar_read`, into the buffer of the caller. -/
def DevL.lbdPread (dev : DevL) (v : VblkL) (file junk : Nat → UInt8) (res : Int) (c : CmdL) :
    List (Store UInt8) :=
  match c.addrs v with
  | [] => []
  | a :: _ =>
    let range := dev.lbdRange a c.naddrs
    [kernelStore res c.buf.off range.2 (fun x => file (range.1.toNat + x)) junk]

/-- The `BLKDISCARD`s of a command; the bytes of a range may be any after it, also when it fails. -/
def DevL.lbdDiscard (dev : DevL) (ioctl : Nat → Option Errno) (junk : Nat → UInt8) (addrs : List LAddr) :
    List (Store UInt8) :=
  (nvmBeLbdScalarErase dev ioctl addrs 0x0).1.map fun r =>
    ⟨r.1.toNat, r.2.toNat, fun x => junk (r.1.toNat + x)⟩

/-- The results of the kernel and what a failed command leaves are by the number of the command. -/
structure LbdWrite where
  data : Nat → UInt8
  count : Nat
  offset : Nat
  res : Nat → Int
  junk : Nat → Nat → UInt8
  order : Order (CmdL × Nat)

structure LbdErase where
  naddrsMax : Nat
  env : IoEnv
  cur : Cursors
  ioctl : Nat → Nat → Option Errno
  junk : Nat → UInt8

inductive LbdCall (ι : Type) where
  | write (i : ι) (w : LbdWrite)
  | erase (i : ι) (e : LbdErase)

namespace LbdBlks

variable {ι : Type}

/-- A call that does not return is not in a run, see `Meets`. -/
def step (b : LbdBlks ι) (file : Nat → UInt8) : LbdCall ι → Nat → UInt8
  | .write i w =>
    match (b.vblk i).io (.write false) w.count w.offset
        (lbdEnv (b.vblk i) (.write false) (fun _ => true) (fun _ => false) w.res) with
    | .returns cmds _ => applyAll file ((w.order.run cmds.zipIdx).flatMap fun c =>
        b.dev.lbdPwrite (b.vblk i) w.data (w.junk c.2) (w.res c.2) c.1)
    | _ => file
  | .erase i e =>
    match (vblkEraseS20 (b.vblk i) e.env e.naddrsMax e.cur).1 with
    | .returns cmds _ => applyAll file (cmds.zipIdx.flatMap fun c =>
        b.dev.lbdDiscard (e.ioctl c.2) e.junk c.1)
    | _ => file

/-- What a read of the block gives the caller, and the buffer after it. -/
def read (b : LbdBlks ι) (file : Nat → UInt8) (i : ι) (count offset : Nat) (res : Nat → Int)
    (junk : Nat → Nat → UInt8) (order : Order (CmdL × Nat)) (buf : Nat → UInt8) :
    Option (Except Errno Int × (Nat → UInt8)) :=
  match (b.vblk i).io .read count offset
      (lbdEnv (b.vblk i) .read (fun _ => true) (fun _ => false) res) with
  | .returns cmds ret => some (ret, applyAll buf ((order.run cmds.zipIdx).flatMap fun c =>
      b.dev.lbdPread (b.vblk i) file (junk c.2) (res c.2) c.1))
  | _ => none

/-- The bytes of a write unit. -/
def unit (b : LbdBlks ι) : Nat := b.dev.geo.wsOpt * b.dev.geo.nbytes

/-- What a caller knows of the blocks: a unit whose `pwrite` fails is unknown, one that is cut short is new
as far as it was written, and a block is unknown after an erase. -/
def learn (b : LbdBlks ι) [DecidableEq ι] (known : ι → Nat → Option UInt8) : LbdCall ι → ι → Nat → Option UInt8
  | .write i w => Function.update known i fun x =>
      if w.offset ≤ x ∧ x < w.offset + w.count then
        let res := w.res ((x - w.offset) / b.unit)
        if res < 0 then none
        else if (x - w.offset) % b.unit < res.toNat then some (w.data (x - w.offset))
        else known i x
      else known i x
  | .erase i _ => Function.update known i fun _ => none

def Meets (b : LbdBlks ι) : LbdCall ι → Prop
  | .write i w => (b.vblk i).InRange w.count w.offset ∧ ¬ (w.count = 0 ∧ w.offset = 0)
  | .erase _ e => 0 < e.naddrsMax ∧ e.naddrsMax ≤ naddrMax

/-! Where the blocks are. -/

def lba (b : LbdBlks ι) (i : ι) (s : Slot) : Nat := (nvmAddrGen2devL b.dev.lbaf ((b.vblk i).addr s)).toNat

structure Holds (b : LbdBlks ι) (i : ι) (s : Slot) : Prop where
  chunk : s.chunk < (b.vblk i).nblks
  sectr : s.sectr < b.dev.geo.nsectr

/-- The byte of the file is one of a sector of the block. -/
def Owns (b : LbdBlks ι) (i : ι) (y : Nat) : Prop := ∃ s, b.Holds i s ∧ y / b.dev.geo.nbytes = b.lba i s

section

variable {b : LbdBlks ι} {i j : ι} {s t : Slot} {y : Nat}

theorem sectorRuns (b : LbdBlks ι) : b.dev.SectorRuns := by
  obtain ⟨-, hssw, hbytes⟩ := nvmBePopulate_s20 b.populated
  exact DevL.sectorRuns b.fits hssw hbytes

theorem Holds.check (h : b.Holds i s) : nvmAddrCheckL ((b.vblk i).addr s) b.dev.geo = 0 := by
  rw [← b.geo_eq i, VblkL.addr_check h.chunk, b.geo_eq i, Nat.mod_eq_of_lt (h.sectr.trans b.dev.geo.nsectr_lt)]
  exact h.sectr

theorem Holds.sectr_eq (h : b.Holds i s) : ((b.vblk i).addr s).sectr.toNat = s.sectr := by
  simp only [VblkL.addr, BitVec.toNat_ofNat]
  exact Nat.mod_eq_of_lt (h.sectr.trans b.dev.geo.nsectr_lt)

theorem Holds.lba_inj (hs : b.Holds i s) (ht : b.Holds j t) (h : b.lba i s = b.lba j t) : i = j ∧ s = t := by
  rw [lba, lba, toNat_gen2devL b.fits hs.check, toNat_gen2devL b.fits ht.check] at h
  have hlt := hs.sectr.trans_le b.fits.nsectr_le
  have hlt' := ht.sectr.trans_le b.fits.nsectr_le
  rw [← hs.sectr_eq] at hlt
  rw [← ht.sectr_eq] at hlt'
  obtain ⟨hno, hsectr⟩ := Striping.digits_inj hlt hlt' h
  obtain ⟨hij, hchunk⟩ := b.distinct i j s t hs.chunk ht.chunk (chunkNo_inj b.fits hs.check ht.check hno)
  rw [hs.sectr_eq, ht.sectr_eq] at hsectr
  cases s
  cases t
  exact ⟨hij, by simp_all⟩

theorem Owns.unique (hi : b.Owns i y) (hj : b.Owns j y) : i = j := by
  obtain ⟨s, hs, hy⟩ := hi
  obtain ⟨t, ht, hy'⟩ := hj
  exact (hs.lba_inj ht (hy.symm.trans hy')).1

theorem Holds.off (h : b.Holds i s) :
    (nvmAddrGen2off b.dev.fmt ((b.vblk i).addr s)).toNat = b.lba i s * b.dev.geo.nbytes := by
  obtain ⟨-, hssw, hbytes⟩ := nvmBePopulate_s20 b.populated
  have hexact := b.exact _ h.check
  have hpos := b.dev.geo.nbytes_pos
  have hoff : (nvmAddrGen2off b.dev.fmt ((b.vblk i).addr s)).toNat = b.lba i s * 2 ^ b.dev.ssw % 2 ^ 64 :=
    toNat_shl hssw
  rw [Nat.succ_mul] at hexact
  rw [hoff, ← hbytes, Nat.mod_eq_of_lt]
  change b.lba i s * b.dev.geo.nbytes + b.dev.geo.nbytes ≤ 2 ^ 63 at hexact
  omega

theorem Holds.lba_add {c q r : Nat} (h : b.Holds i ⟨c, q + r⟩) : b.lba i ⟨c, q + r⟩ = b.lba i ⟨c, q⟩ + r := by
  have hq : b.Holds i ⟨c, q⟩ := ⟨h.chunk, (Nat.le_add_right q r).trans_lt h.sectr⟩
  refine (b.sectorRuns _ _ r hq.check h.check rfl ?_).1
  rw [h.sectr_eq, hq.sectr_eq]

end

def units (b : LbdBlks ι) (i : ι) : Nat := (b.vblk i).nblks * (b.dev.geo.nsectr / b.dev.geo.wsOpt)

/-- The first sector of a unit. -/
def unitSlot (b : LbdBlks ι) (i : ι) (u : Nat) : Slot :=
  ⟨u % (b.vblk i).nblks, u / (b.vblk i).nblks * b.dev.geo.wsOpt⟩

def base (b : LbdBlks ι) (i : ι) (u : Nat) : Nat :=
  (nvmAddrGen2off b.dev.fmt ((b.vblk i).addr (b.unitSlot i u))).toNat

section

variable {b : LbdBlks ι} {i : ι} {u t r : Nat}

theorem unit_pos (b : LbdBlks ι) : 0 < b.unit := Nat.mul_pos b.wsOpt_pos b.dev.geo.nbytes_pos

theorem holds_unit (hu : u < b.units i) (hr : r < b.dev.geo.wsOpt) :
    b.Holds i ⟨u % (b.vblk i).nblks, u / (b.vblk i).nblks * b.dev.geo.wsOpt + r⟩ := by
  have hn : 0 < (b.vblk i).nblks := Nat.pos_of_ne_zero (by rintro h0; simp [units, h0] at hu)
  refine ⟨Nat.mod_lt _ hn, ?_⟩
  have hlt : u / (b.vblk i).nblks < b.dev.geo.nsectr / b.dev.geo.wsOpt := Nat.div_lt_of_lt_mul hu
  have hend := Striping.digits_lt hlt hr
  rwa [Nat.div_mul_cancel b.wsOpt_dvd] at hend

theorem base_eq (hu : u < b.units i) : b.base i u = b.lba i (b.unitSlot i u) * b.dev.geo.nbytes :=
  (holds_unit hu b.wsOpt_pos).off

theorem base_add_div (hu : u < b.units i) (hr : r < b.unit) : (b.base i u + r) / b.dev.geo.nbytes =
    b.lba i ⟨u % (b.vblk i).nblks, u / (b.vblk i).nblks * b.dev.geo.wsOpt + r / b.dev.geo.nbytes⟩ := by
  have hsectr : r / b.dev.geo.nbytes < b.dev.geo.wsOpt := Nat.div_lt_of_lt_mul (by rwa [Nat.mul_comm])
  rw [(holds_unit hu hsectr).lba_add, base_eq hu, Nat.add_comm, Nat.add_mul_div_right _ _ b.dev.geo.nbytes_pos,
    Nat.add_comm]
  rfl

theorem base_apart (hu : u < b.units i) (ht : t < b.units i) (hle : b.base i u ≤ b.base i t)
    (hlt : b.base i t < b.base i u + b.unit) : u = t := by
  obtain ⟨r, hr⟩ := Nat.exists_eq_add_of_le hle
  have hr' : r < b.unit := by omega
  have hsectr : r / b.dev.geo.nbytes < b.dev.geo.wsOpt := Nat.div_lt_of_lt_mul (by rwa [Nat.mul_comm])
  have hlba := base_add_div hu hr'
  rw [← hr, base_eq ht, Nat.mul_div_cancel _ b.dev.geo.nbytes_pos] at hlba
  have hslot := ((holds_unit ht b.wsOpt_pos).lba_inj (holds_unit hu hsectr) hlba).2
  simp only [Slot.mk.injEq] at hslot
  obtain ⟨hrnd, -⟩ := Striping.digits_inj b.wsOpt_pos hsectr hslot.2
  rw [← Nat.div_add_mod u (b.vblk i).nblks, ← Nat.div_add_mod t (b.vblk i).nblks, hslot.1, hrnd]

end

/-- The bytes of a block in the file. -/
def layout (b : LbdBlks ι) (i : ι) : Layout where
  unit := b.unit
  units := b.units i
  base := b.base i
  unit_pos := b.unit_pos
  apart _ _ := base_apart

end LbdBlks

end LightNvm
