import LightNvm.S12Flat
import LightNvm.VblkPad
import LightNvm.WriteOrder

/-! The commands of a write or a read of a virtual block of either kind as one cut of a range of
sectors, and what the calls return. -/

namespace LightNvm

open SizeLoop (width rounds)

namespace Vblk

/-- The `j`-th of the commands that transfer `n` sectors from sector `bgn` on, `q` at a time; those of a
write without a buffer all take the padding. -/
def cutCmd (b : Vblk) (bufNull : Bool) (q bgn n j : Nat) : WriteCmd where
  sectors := (List.range (min q (n - j * q))).map fun i => b.sector (bgn + (j * q + i))
  buf := if bufNull then .pad else .user (j * q * b.sectorNbytes)

def cut (b : Vblk) (bufNull : Bool) (q bgn n : Nat) : List WriteCmd :=
  (List.range (rounds n q)).map (b.cutCmd bufNull q bgn n)

/-- The sectors of a full write command. -/
def cmdNsectors : Vblk → Nat
  | .s12 v w _ => cmdNspages v.nblks (w / v.spageNaddrs) * v.spageNaddrs
  | .s20 v => v.wsOpt

def metaMode : Vblk → MetaMode
  | .s12 v _ _ => v.metaMode
  | .s20 v => v.metaMode

/-- The size of the metadata buffer of a write. -/
def metaNbytes : Vblk → Nat
  | .s12 v w _ => cmdNspages v.nblks (w / v.spageNaddrs) * v.spageNaddrs * v.geo.metaNbytes % width
  | .s20 v => v.wsOpt * v.geo.nbytesOob % width

def hasBuffers (b : Vblk) (env : IoEnv) (bufNull : Bool) (count : Nat) : Bool :=
  (!bufNull || nvmBufAlloc env (b.padNbytes count)) &&
    (b.metaMode = .none || nvmBufAlloc env b.metaNbytes)

/-- What the alignment of a range is checked against. -/
def align : Vblk → Nat
  | .s12 v _ _ => v.align
  | .s20 v => v.wsOpt * v.geo.nbytes

structure InRange (b : Vblk) (count offset : Nat) : Prop where
  dvd_count : b.align ∣ count
  dvd_offset : b.align ∣ offset
  bound : offset + count ≤ b.nbytes

instance (b : Vblk) (count offset : Nat) : Decidable (b.InRange count offset) :=
  decidable_of_iff (b.align ∣ count ∧ b.align ∣ offset ∧ offset + count ≤ b.nbytes)
    ⟨fun h => ⟨h.1, h.2.1, h.2.2⟩, fun h => ⟨h.1, h.2, h.3⟩⟩

def Sync : Vblk → Prop
  | .s12 _ _ _ => True
  | .s20 v => v.isAsync = false

/-- The transfers of a read command: a sector and where its bytes go. -/
abbrev Reads := List ((GAddr ⊕ LAddr) × Nat)

def readIo (b : Vblk) (count offset : Nat) (env : IoEnv) : Io Reads :=
  match b with
  | .s12 v _ r => (v.io r .read count offset env).map fun c => (c.reads v).map fun t => (.inl t.1, t.2)
  | .s20 v => (v.io .read count offset env).map fun c => (c.reads v).map fun t => (.inr t.1, t.2)

end Vblk

/-- The bytes that a command puts on each of its sectors. -/
def WriteCmd.writes (nb : Nat) (data : Nat → UInt8) (c : WriteCmd) :
    List ((GAddr ⊕ LAddr) × (Fin nb → UInt8)) :=
  c.sectors.mapIdx fun i a => (a, fun j => c.buf.bytes data (i * nb + j))

theorem withBuffers_eq {κ : Type} (env : IoEnv) (pad : Bool) (padNbytes : Nat) (metaMode : MetaMode)
    (metaTbytes : Nat) (io : Io κ) : withBuffers env pad padNbytes metaMode metaTbytes io =
      if (!pad || nvmBufAlloc env padNbytes) && (metaMode = .none || nvmBufAlloc env metaTbytes) then io
      else .returns [] (.error .enomem) := by
  rw [withBuffers]
  cases pad <;> cases nvmBufAlloc env padNbytes <;> cases nvmBufAlloc env metaTbytes <;>
    by_cases hm : metaMode = .none <;> simp [hm]

/-- What the commands of a read transfer, in any order, with each address taken into the sum. -/
theorem reads_flatten {κ α β : Type} {nb bgn n : Nat} {place : Nat → α} {f : κ → List (α × Nat)}
    {cmds : List κ} (h : FlatArray.Reads nb place bgn n (cmds.flatMap f)) (g : α → β)
    (order : Order (List (β × Nat))) : FlatArray.Reads nb (fun s => g (place s)) bgn n
      (order.run (cmds.map fun c => (f c).map fun t => (g t.1, t.2))).flatten := by
  intro t
  simp only [List.mem_flatten, Order.mem_run, List.mem_map]
  constructor
  · rintro ⟨_, ⟨c, hc, rfl⟩, ht⟩
    obtain ⟨t', ht', rfl⟩ := List.mem_map.mp ht
    obtain ⟨i, hi, rfl⟩ := (h t').mp (List.mem_flatMap.mpr ⟨c, hc, ht'⟩)
    exact ⟨i, hi, rfl⟩
  · rintro ⟨i, hi, rfl⟩
    obtain ⟨c, hc, ht⟩ := List.mem_flatMap.mp ((h _).mpr ⟨i, hi, rfl⟩)
    exact ⟨_, ⟨c, hc, rfl⟩, List.mem_map.mpr ⟨_, ht, rfl⟩⟩

/-! OCSSD 1.2. -/

section

variable {v : VblkG} {w r : Fin (naddrMax + 1)} {count offset : Nat}

theorem VblkG.inRange_iff : (Vblk.s12 v w r).InRange count offset ↔ v.InRange count offset :=
  ⟨fun h => ⟨h.1, h.2, h.3⟩, fun h => ⟨h.1, h.2, h.3⟩⟩

theorem VblkG.Spages.sectors {naddrsMax k b c : Nat} (h : v.Spages naddrsMax count offset k b c) :
    offset / v.geo.sectorNbytes = b * v.spageNaddrs ∧ count / v.geo.sectorNbytes = k * v.spageNaddrs := by
  have hsb := v.geo.sectorNbytes_pos
  constructor
  · rw [h.offset_sectors, Nat.mul_div_cancel _ hsb]
  · rw [h.count_sectors, Nat.mul_div_cancel _ hsb]

theorem VblkG.cutCmds_toWrite {k b c : Nat} (h : v.Spages w count offset k b c) (bufNull : Bool) :
    ((List.range (rounds k c)).map (v.cutCmd bufNull k b c)).map CmdG.toWrite =
      (Vblk.s12 v w r).cut bufNull (Vblk.s12 v w r).cmdNsectors (offset / v.geo.sectorNbytes)
        (count / v.geo.sectorNbytes) := by
  obtain ⟨hoffset, hcount⟩ := h.sectors
  have hq : (Vblk.s12 v w r).cmdNsectors = c * v.spageNaddrs := by rw [Vblk.cmdNsectors, ← h.cmd]
  rw [Vblk.cut, hq, hoffset, hcount, SizeLoop.rounds_mul_right h.cmd_pos h.spage_pos, List.map_map]
  refine List.map_congr_left fun j _ => ?_
  have hlen : min (c * v.spageNaddrs) (k * v.spageNaddrs - j * (c * v.spageNaddrs)) =
      min c (k - j * c) * v.spageNaddrs := by
    rw [← Nat.mul_assoc, ← Nat.sub_mul, Nat.mul_min_mul_right]
  rw [Vblk.cutCmd, hlen, ← Nat.mul_assoc]
  simp only [Function.comp_apply, CmdG.toWrite, VblkG.cutCmd, List.map_map]
  rfl

theorem VblkG.writeIo_eq (hn : 0 < v.nblks) {bufNull : Bool}
    (hm : (Vblk.s12 v w r).MeetsWhen (.write bufNull) count offset) (alloc : Nat → Bool) :
    (Vblk.s12 v w r).writeIo bufNull count offset (.succeeding alloc) =
      if (Vblk.s12 v w r).InRange count offset then
        if (Vblk.s12 v w r).hasBuffers (.succeeding alloc) bufNull count then
          .returns ((Vblk.s12 v w r).cut bufNull (Vblk.s12 v w r).cmdNsectors (offset / v.geo.sectorNbytes)
            (count / v.geo.sectorNbytes)) (.ok count)
        else .returns [] (.error .enomem)
      else .returns [] (.error .einval) := by
  by_cases hr : (Vblk.s12 v w r).InRange count offset
  · rw [if_pos hr]
    have haccepts : v.Accepts w count offset :=
      (VblkG.inRange_iff.mp hr).accepts hm.spage_pos hm.spage_le (Nat.le_of_lt_succ w.isLt)
    obtain ⟨k, b, c, h⟩ := haccepts.spages
    rw [← VblkG.cutCmds_toWrite h bufNull]
    simp only [Vblk.writeIo, VblkG.io]
    rw [VblkG.pwrite_cuts haccepts h, loopIo_succeeding _ _ h.nspages_pos, h.ssize_count, withBuffers_eq,
      Vblk.hasBuffers, Vblk.padNbytes, Vblk.metaNbytes, Vblk.metaMode, ← h.cmd]
    split_ifs <;> rfl
  · have hrejects : v.io w (.write bufNull) count offset (.succeeding alloc) = .returns [] (.error .einval) :=
      (((Vblk.s12 v w r).meets_iff _ _ _ hn).mpr hm).rejects (mt VblkG.inRange_iff.mpr hr) _
    rw [if_neg hr, Vblk.writeIo, hrejects]
    rfl

theorem VblkG.readIo_ok (hm : (Vblk.s12 v w r).MeetsWhen .read count offset)
    (hr : (Vblk.s12 v w r).InRange count offset) :
    ∃ cmds, (Vblk.s12 v w r).readIo count offset .good = .returns cmds (.ok count) ∧
      ∀ order : Order Vblk.Reads, FlatArray.Reads v.geo.sectorNbytes (Vblk.s12 v w r).sector
        (offset / v.geo.sectorNbytes) (count / v.geo.sectorNbytes) (order.run cmds).flatten := by
  have haccepts : v.Accepts r count offset :=
    (VblkG.inRange_iff.mp hr).accepts hm.spage_pos hm.spage_le (Nat.le_of_lt_succ r.isLt)
  obtain ⟨k, b, c, h⟩ := haccepts.spages
  obtain ⟨hoffset, hcount⟩ := h.sectors
  have hio : (Vblk.s12 v w r).readIo count offset .good = .returns (((List.range (rounds k c)).map
      (v.cutCmd false k b c)).map fun c => (c.reads v).map fun t => (.inl t.1, t.2)) (.ok count) := by
    simp only [Vblk.readIo, VblkG.io, VblkG.pread_accepts haccepts h]
    rfl
  refine ⟨_, hio, fun order => ?_⟩
  rw [hoffset, hcount]
  exact reads_flatten (VblkG.reads_cutCmds h .loop) .inl order

end

/-! OCSSD 2.0. -/

section

variable {v : VblkL} {count offset : Nat}

theorem VblkL.inRange_iff : (Vblk.s20 v).InRange count offset ↔ v.InRange count offset :=
  ⟨fun h => ⟨h.1, h.2, h.3⟩, fun h => ⟨h.1, h.2, h.3⟩⟩

theorem unitCmds_toWrite {k u : Nat} (h : v.Units count offset k u) (hw : 0 < v.wsOpt) (bufNull : Bool) :
    ((List.range k).map fun j => v.unitCmd bufNull j (u + j)).map (CmdL.toWrite v) =
      (Vblk.s20 v).cut bufNull v.wsOpt (offset / v.geo.nbytes) (count / v.geo.nbytes) := by
  rw [Vblk.cut, h.offset_div, h.count_div, SizeLoop.rounds_mul hw, List.map_map]
  refine List.map_congr_left fun j hj => ?_
  rw [Vblk.cutCmd, SizeLoop.min_piece_of_dvd (List.mem_range.mp hj)]
  rw [Function.comp_apply, CmdL.toWrite, sectors_unitCmd, List.map_map, Nat.add_mul]
  simp only [Function.comp_def, Nat.add_assoc]
  rfl

theorem VblkL.InRange.serves {op : IoOp} (hm : v.MeetsWhen op count offset)
    (hs : v.isAsync = false) (hr : v.InRange count offset) :
    ∃ k u, v.Units count offset k u ∧ ¬(k = 0 ∧ u = 0) := by
  obtain ⟨k, u, h⟩ := VblkL.units_of_dvd hr.dvd_count hr.dvd_offset
  refine ⟨k, u, h, fun h0 => ?_⟩
  rw [← h.count_eq_zero hm.wsOpt_pos, ← h.offset_eq_zero hm.wsOpt_pos] at h0
  exact (hm.serves hr).ends hs h0

theorem VblkL.writeIo_eq (hn : 0 < v.nblks) (hs : v.isAsync = false) {bufNull : Bool}
    (hm : (Vblk.s20 v).MeetsWhen (.write bufNull) count offset) (alloc : Nat → Bool) :
    (Vblk.s20 v).writeIo bufNull count offset (.succeeding alloc) =
      if (Vblk.s20 v).InRange count offset then
        if (Vblk.s20 v).hasBuffers (.succeeding alloc) bufNull count then
          .returns ((Vblk.s20 v).cut bufNull v.wsOpt (offset / v.geo.nbytes) (count / v.geo.nbytes))
            (.ok count)
        else .returns [] (.error .enomem)
      else .returns [] (.error .einval) := by
  by_cases hr : (Vblk.s20 v).InRange count offset
  · rw [if_pos hr]
    have hr' := VblkL.inRange_iff.mp hr
    obtain ⟨k, u, h, hne⟩ := VblkL.InRange.serves hm hs hr'
    have hw := hm.wsOpt_pos
    have hcmds := syncWriteCmds_eq h bufNull hw hne (h.fits hr'.bound) (VblkL.Units.count_lt hr'.bound)
    have hsize : ssize count = count := ssize_eq_iff.mpr (hm.serves hr').count_lt
    rw [← unitCmds_toWrite h hw bufNull]
    simp only [Vblk.writeIo, VblkL.io, hs, Bool.false_eq_true, if_false]
    rw [vblkSyncPwriteS20, checked_inRange hw h, hcmds,
      loopIo_succeeding _ _ fun _ => h.nblks_pos hw hr'.bound hne, hsize, VblkL.buffered, withBuffers_eq,
      Vblk.hasBuffers, Vblk.padNbytes, Vblk.metaNbytes, Vblk.metaMode]
    split_ifs <;> rfl
  · have hrejects : v.io (.write bufNull) count offset (.succeeding alloc) = .returns [] (.error .einval) :=
      (((Vblk.s20 v).meets_iff _ _ _ hn).mpr hm).rejects (mt VblkL.inRange_iff.mpr hr) _
    rw [if_neg hr, Vblk.writeIo, hrejects]
    rfl

/-- A vector read goes on to the end of its last command. -/
theorem VblkL.readIo_ok (hs : v.isAsync = false)
    (hm : (Vblk.s20 v).MeetsWhen .read count offset) (hr : (Vblk.s20 v).InRange count offset) :
    ∃ cmds n, (Vblk.s20 v).readIo count offset .good = .returns cmds (.ok count) ∧ count / v.geo.nbytes ≤ n ∧
      ∀ order : Order Vblk.Reads, FlatArray.Reads v.geo.nbytes (Vblk.s20 v).sector
        (offset / v.geo.nbytes) n (order.run cmds).flatten := by
  have hr' := VblkL.inRange_iff.mp hr
  obtain ⟨k, u, h, hne⟩ := VblkL.InRange.serves hm hs hr'
  have hw := hm.wsOpt_pos
  have hq := readNsectr_pos hw
  have hsize : ssize count = count := ssize_eq_iff.mpr (hm.serves hr').count_lt
  have hio : (Vblk.s20 v).readIo count offset .good = .returns (((List.range (rounds (k * v.wsOpt)
      v.readNsectr)).map fun j => v.syncReadCmd (u * v.wsOpt) (u * v.wsOpt + j * v.readNsectr)).map fun c =>
        (c.reads v).map fun t => (.inr t.1, t.2)) (.ok count) := by
    simp only [Vblk.readIo, VblkL.io, hs, Bool.false_eq_true, if_false]
    rw [vblkSyncPreadS20, checked_inRange hw h, syncReadCmds_eq h hw hne (h.readFits hr'.bound),
      loopIo_good (h.nblks_pos hw hr'.bound hne), hsize]
    rfl
  refine ⟨_, rounds (k * v.wsOpt) v.readNsectr * v.readNsectr, hio, ?_, fun order => ?_⟩
  · rw [h.count_div]
    exact SizeLoop.rounds_mul_ge hq
  · rw [h.offset_div]
    exact reads_flatten (reads_readCmds h hw (VblkL.Units.count_lt hr'.bound) (h.readFits hr'.bound) .loop)
      .inr order

end

/-! Either kind. -/

namespace Vblk

variable {b : Vblk} {count offset : Nat}

theorem writeIo_eq (hn : 0 < b.nblks) (hs : b.Sync) {bufNull : Bool}
    (hm : b.MeetsWhen (.write bufNull) count offset) (alloc : Nat → Bool) :
    b.writeIo bufNull count offset (.succeeding alloc) =
      if b.InRange count offset then
        if b.hasBuffers (.succeeding alloc) bufNull count then
          .returns (b.cut bufNull b.cmdNsectors (offset / b.sectorNbytes) (count / b.sectorNbytes)) (.ok count)
        else .returns [] (.error .enomem)
      else .returns [] (.error .einval) := by
  cases b with
  | s12 v w r => exact VblkG.writeIo_eq hn hm alloc
  | s20 v => exact VblkL.writeIo_eq hn hs hm alloc

theorem readIo_ok (hs : b.Sync) (hm : b.MeetsWhen .read count offset)
    (hr : b.InRange count offset) :
    ∃ cmds n, b.readIo count offset .good = .returns cmds (.ok count) ∧ count / b.sectorNbytes ≤ n ∧
      ∀ order : Order Reads, FlatArray.Reads b.sectorNbytes b.sector (offset / b.sectorNbytes) n
        (order.run cmds).flatten := by
  cases b with
  | s12 v w r =>
    obtain ⟨cmds, hio, hreads⟩ := VblkG.readIo_ok hm hr
    exact ⟨cmds, _, hio, le_rfl, hreads⟩
  | s20 v => exact VblkL.readIo_ok hs hm hr

theorem io_einval {op : IoOp} (hm : b.Meets op count offset) (hr : ¬ b.InRange count offset) (env : IoEnv) :
    b.io op count offset env = some (.error .einval) := by
  cases b with
  | s12 v w r => exact congrArg Io.ret (hm.rejects (mt VblkG.inRange_iff.mpr hr) env)
  | s20 v => exact congrArg Io.ret (hm.rejects (mt VblkL.inRange_iff.mpr hr) env)

theorem ret_readIo (b : Vblk) (count offset : Nat) (env : IoEnv) :
    (b.readIo count offset env).ret = b.io .read count offset env := by
  cases b with
  | s12 v w r => exact Io.ret_map _ _
  | s20 v => exact Io.ret_map _ _

/-! The sectors and the bytes of a cut. -/

theorem cut_sectors {q : Nat} (hq : 0 < q) (bufNull : Bool) (bgn n : Nat) :
    (b.cut bufNull q bgn n).flatMap WriteCmd.sectors = (List.range n).map fun i => b.sector (bgn + i) := by
  rw [cut, List.flatMap_map]
  exact SizeLoop.flatMap_pieces hq fun i => b.sector (bgn + i)

theorem exists_of_mem_cut {q bgn n : Nat} (hq : 0 < q) {bufNull : Bool} {c : WriteCmd}
    (hc : c ∈ b.cut bufNull q bgn n) {a : GAddr ⊕ LAddr} (ha : a ∈ c.sectors) :
    ∃ s, bgn ≤ s ∧ s < bgn + n ∧ a = b.sector s := by
  have hmem := List.mem_flatMap.mpr ⟨c, hc, ha⟩
  rw [cut_sectors hq] at hmem
  obtain ⟨i, hi, rfl⟩ := List.mem_map.mp hmem
  have hlt := List.mem_range.mp hi
  exact ⟨bgn + i, Nat.le_add_right _ _, Nat.add_lt_add_left hlt _, rfl⟩

/-- The bytes of a write: those of the caller or, without a buffer, the padding, which every command
takes from its start. -/
def fill (b : Vblk) : Option (Nat → UInt8) → Nat → UInt8
  | some buf, x => buf x
  | none, x => BufRef.pad.bytes (fun _ => 0) (x % (b.cmdNsectors * b.sectorNbytes))

theorem cut_writes (hq : 0 < b.cmdNsectors) (buf : Option (Nat → UInt8)) (bgn n : Nat) :
    (b.cut buf.isNone b.cmdNsectors bgn n).flatMap (WriteCmd.writes b.sectorNbytes (buf.getD fun _ => 0)) =
      (List.range n).map fun i => (b.sector (bgn + i), fun x : Fin b.sectorNbytes =>
        b.fill buf (i * b.sectorNbytes + x)) := by
  rw [← SizeLoop.flatMap_pieces hq fun i => (b.sector (bgn + i), fun x : Fin b.sectorNbytes =>
    b.fill buf (i * b.sectorNbytes + x)), cut, List.flatMap_map]
  refine List.flatMap_congr fun j _ => ?_
  rw [WriteCmd.writes, cutCmd, mapIdx_map_range]
  refine List.map_congr_left fun i hi => ?_
  have hlt : i < b.cmdNsectors := (List.mem_range.mp hi).trans_le (Nat.min_le_left _ _)
  congr 1
  funext x
  have hsplit : (j * b.cmdNsectors + i) * b.sectorNbytes + x =
      j * (b.cmdNsectors * b.sectorNbytes) + (i * b.sectorNbytes + x) := by ring
  cases buf with
  | some buf =>
    rw [hsplit, ← Nat.mul_assoc]
    rfl
  | none =>
    have hbyte : i * b.sectorNbytes + x < b.cmdNsectors * b.sectorNbytes := Striping.digits_lt hlt x.isLt
    rw [hsplit, fill, Nat.mul_add_mod_self_right, Nat.mod_eq_of_lt hbyte]
    rfl

end Vblk

end LightNvm
