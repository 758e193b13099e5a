import LightNvm.CmdWrap
import LightNvm.Cursors
import LightNvm.ScalarVector

/-! Erasing a virtual block: the commands that `nvm_vblk_erase` makes and the ranges that a scalar erase
becomes. -/

namespace LightNvm

open SizeLoop (width sizeFor rounds progression)

def cmdNblks (nblks cmdNblksMax : Nat) : Nat := cmdNspages nblks cmdNblksMax

/-- The loop over the blocks and the end of either function; all commands are tried. -/
def eraseLoop {κ : Type} (env : IoEnv) (nblks nbytes cmdNblks : Nat) (cmd : Nat → κ) (s : Cursors) :
    Io κ × Cursors :=
  match sizeFor (fun off => off < nblks) cmdNblks 0 with
  | none => (.hangs, s)
  | some offs =>
    if (List.range offs.length).all env.cmdOk then
      (.returns (offs.map cmd) (.ok (ssize nbytes)), { s with posWrite := 0, posRead := 0 })
    else (.returns (offs.map cmd) (.error .eio), s)

def VblkG.eraseCmd (v : VblkG) (cmdNblks off : Nat) : List GAddr :=
  let blkNaddrs := v.geo.nplanes
  let nblks := min cmdNblks (v.nblks - off)
  (List.range (nblks * blkNaddrs)).map fun i =>
    { v.blks.getD (off + i / blkNaddrs) ⟨0, 0, 0, 0, 0, 0⟩ with pl := BitVec.ofNat 8 (i % v.geo.nplanes) }

/-- `vblk_erase_s12`; a setting below the number of planes makes it divide by zero. -/
def vblkEraseS12 (v : VblkG) (env : IoEnv) (eraseNaddrsMax : Nat) (s : Cursors) : Io (List GAddr) × Cursors :=
  let blkNaddrs := v.geo.nplanes
  if eraseNaddrsMax / blkNaddrs = 0 then (.traps, s)
  else
    let cmdNblks := cmdNblks v.nblks (eraseNaddrsMax / blkNaddrs)
    eraseLoop env v.nblks v.nbytes cmdNblks (v.eraseCmd cmdNblks) s

def VblkL.eraseCmd (v : VblkL) (cmdNblks off : Nat) : List LAddr :=
  (List.range (min cmdNblks (v.nblks - off))).map fun i => v.blks.getD (off + i) ⟨0, 0, 0, 0⟩

def vblkEraseS20 (v : VblkL) (env : IoEnv) (eraseNaddrsMax : Nat) (s : Cursors) : Io (List LAddr) × Cursors :=
  if eraseNaddrsMax = 0 then (.traps, s)
  else
    let cmdNblks := cmdNblks v.nblks eraseNaddrsMax
    eraseLoop env v.nblks v.nbytes cmdNblks (v.eraseCmd cmdNblks) s

/-! The scalar erase of the LBD backend. -/

def flagAsync (flags : BitVec 16) : Bool := flags &&& (0x1 <<< 5) ≠ 0

def DevL.discardRange (dev : DevL) (addr : LAddr) : BitVec 64 × BitVec 64 :=
  (nvmAddrGen2off dev.fmt addr, shl (BitVec.ofNat 64 dev.geo.nsectr) dev.ssw)

/-- The ranges that are handed to `ioctl`, whose `i`-th call fails with the error given for it. -/
def discardLoop (dev : DevL) (ioctl : Nat → Option Errno) :
    Nat → List LAddr → List (BitVec 64 × BitVec 64) × Except Errno Unit
  | _, [] => ([], .ok ())
  | i, addr :: addrs =>
    match ioctl i with
    | some err => ([dev.discardRange addr], .error err)
    | none =>
      let rest := discardLoop dev ioctl (i + 1) addrs
      (dev.discardRange addr :: rest.1, rest.2)

def nvmBeLbdScalarErase (dev : DevL) (ioctl : Nat → Option Errno) (addrs : List LAddr) (flags : BitVec 16) :
    List (BitVec 64 × BitVec 64) × Except Errno Unit :=
  if flagAsync flags then ([], .error .einval) else discardLoop dev ioctl 0 addrs

/-! What is to be erased. -/

def VblkG.blockPlanes (v : VblkG) : List GAddr :=
  v.blks.flatMap fun b => (List.range v.geo.nplanes).map fun pl => { b with pl := BitVec.ofNat 8 pl }

/-- Every target is named once, by commands of at most `naddrsMax` addresses, and the cursors are reset
when all of them succeed and else stay. -/
structure ErasesAll {α : Type} (env : IoEnv) (naddrsMax : Nat) (s : Cursors) (targets : List α)
    (cmds : List (List α)) (r : Io (List α) × Cursors) : Prop where
  issued : ∃ ret, r.1 = .returns cmds ret ∧
    ((∃ n, ret = .ok n) ↔ (List.range cmds.length).all env.cmdOk = true)
  targets : cmds.flatten = targets
  naddrs : ∀ c ∈ cmds, 0 < c.length ∧ c.length ≤ naddrsMax
  cursors : r.2 = nvmVblkErase s ((List.range cmds.length).all env.cmdOk)

def DevL.SectorOf (dev : DevL) (b a : LAddr) : Prop := nvmAddrCheckL a dev.geo = 0 ∧ a.chunkOf = b.chunkOf

def DevL.InChunk (dev : DevL) (b : LAddr) (lba : Nat) : Prop :=
  ∃ a, dev.SectorOf b a ∧ (nvmAddrGen2devL dev.lbaf a).toNat = lba

def DsmRange.Covers (r : DsmRange) (lba : Nat) : Prop :=
  r.slba.toNat ≤ lba ∧ lba < r.slba.toNat + r.nlb.toNat

/-- The bytes of the range are those of the sectors of the chunk. Offsets are those of
`nvm_addr_gen2off`, on 64 bits; they are exact when the device ends below `2 ^ 64` bytes. -/
structure DevL.DiscardsChunk (dev : DevL) (range : BitVec 64 × BitVec 64) (b : LAddr) : Prop where
  bytes : ∀ x : BitVec 64, (x - range.1).toNat < range.2.toNat ↔
    ∃ a, dev.SectorOf b a ∧ (x - nvmAddrGen2off dev.fmt a).toNat < dev.geo.nbytes
  exact : (∀ lba, dev.InChunk b lba → (lba + 1) * dev.geo.nbytes ≤ 2 ^ 64) → ∀ x,
    (range.1.toNat ≤ x ∧ x < range.1.toNat + range.2.toNat) ↔
      ∃ lba, dev.InChunk b lba ∧ lba * dev.geo.nbytes ≤ x ∧ x < (lba + 1) * dev.geo.nbytes

/-- What a scalar erase of the addresses comes to in the backends: a range for each chunk, no sector
more and none less. -/
structure DevL.ErasesChunks (dev : DevL) (addrs : List LAddr) : Prop where
  setup : ∀ (nsid : BitVec 32) (m : Allocs), m.wrap = true → m.dsmr = true →
    ∃ req : Req (dev.cmdDev nsid), req.opcode = .scalarErase ∧
      givenAddrs req.opcode req.naddrs req.addrs = addrs ∧ (nvmCmdWrapSetup (dev.cmdDev nsid) m req).isSome
  dsm : ∀ (nsid : BitVec 32) (req : Req (dev.cmdDev nsid)) (m : Allocs) (w : Wrap), req.opcode = .scalarErase →
    givenAddrs req.opcode req.naddrs req.addrs = addrs → nvmCmdWrapSetup (dev.cmdDev nsid) m req = some w →
    w.cmd.dsmNr.toNat + 1 = addrs.length ∧ ∃ rs, w.dsmrDma = some rs ∧
      List.Forall₂ (fun r b => ∀ lba, r.Covers lba ↔ dev.InChunk b lba) rs addrs
  discard : ∀ ioctl, let r := nvmBeLbdScalarErase dev ioctl addrs 0x0
    List.Forall₂ dev.DiscardsChunk r.1 (addrs.take r.1.length) ∧ (r.2 = .ok () → r.1.length = addrs.length)

/-! The commands. -/

theorem eraseLoop_eq {κ : Type} (env : IoEnv) {nblks k n : Nat} (hn : 0 < n) (hk : nblks = k * n)
    (hle : nblks ≤ 128) (hle' : n ≤ naddrMax) (nbytes : Nat) (cmd : Nat → κ) (s : Cursors) :
    eraseLoop env nblks nbytes n cmd s =
      (.returns ((List.range k).map fun j => cmd (j * n))
        (if (List.range k).all env.cmdOk then .ok (ssize nbytes) else .error .eio),
      nvmVblkErase s ((List.range k).all env.cmdOk)) := by
  have hw : width = 2 ^ 64 := rfl
  have hmax : naddrMax = 64 := rfl
  have hoffs : sizeFor (fun off => off < nblks) n 0 = some (progression 0 n k) := by
    have hrounds : rounds nblks n = k := by rw [hk, SizeLoop.rounds_mul hn]
    rw [← hrounds]
    refine SizeLoop.sizeFor_below hn (fun i _ => ?_) (by omega)
    rw [decide_eq_true_iff, Nat.zero_add]
  rw [eraseLoop, hoffs, SizeLoop.progression_zero]
  dsimp only
  rw [List.length_map, List.length_range, List.map_map]
  by_cases hok : (List.range k).all env.cmdOk = true
  · rw [if_pos hok, if_pos hok, hok]
    rfl
  · rw [if_neg hok, if_neg hok, eq_false_of_ne_true hok]
    rfl

theorem map_range_getD {α : Type} (l : List α) (d : α) :
    (List.range l.length).map (fun i => l.getD i d) = l := by
  apply List.ext_getElem
  · simp
  · intro i hi hi'
    simp [hi']

theorem eraseLoop_erasesAll {α : Type} (env : IoEnv) {nblks k n p naddrsMax : Nat} (hn : 0 < n) (hp : 0 < p)
    (hk : nblks = k * n) (hle : nblks ≤ 128) (hle' : n ≤ naddrMax) (hnaddrs : n * p ≤ naddrsMax) (nbytes : Nat)
    (s : Cursors) {cmd : Nat → List α} {f : Nat → α}
    (hcmd : ∀ j < k, cmd (j * n) = (List.range (n * p)).map fun i => f (j * (n * p) + i)) :
    ∃ cmds, ErasesAll env naddrsMax s ((List.range (nblks * p)).map f) cmds
      (eraseLoop env nblks nbytes n cmd s) := by
  refine ⟨(List.range k).map fun j => cmd (j * n), ?_⟩
  rw [eraseLoop_eq env hn hk hle hle']
  have hlen : ((List.range k).map fun j => cmd (j * n)).length = k := by simp
  refine ⟨⟨_, rfl, ?_⟩, ?_, ?_, by rw [hlen]⟩
  · rw [hlen]
    split_ifs with hok <;> simp [hok]
  · have hcmds : ((List.range k).map fun j => cmd (j * n)) =
        (List.range k).map fun j => (List.range (n * p)).map fun i => f (j * (n * p) + i) :=
      List.map_congr_left fun j hj => hcmd j (List.mem_range.mp hj)
    rw [hcmds, ← List.flatMap_def, Striping.flatMap_digits, hk, Nat.mul_assoc]
  · intro c hc
    obtain ⟨j, hj, rfl⟩ := List.mem_map.mp hc
    rw [hcmd j (List.mem_range.mp hj), List.length_map, List.length_range]
    exact ⟨Nat.mul_pos hn hp, hnaddrs⟩

theorem VblkG.eraseCmd_eq (v : VblkG) {k n j : Nat} (hk : v.nblks = k * n) (hj : j < k) :
    v.eraseCmd n (j * n) = (List.range (n * v.geo.nplanes)).map fun i =>
      { v.blks.getD ((j * (n * v.geo.nplanes) + i) / v.geo.nplanes) ⟨0, 0, 0, 0, 0, 0⟩ with
        pl := BitVec.ofNat 8 ((j * (n * v.geo.nplanes) + i) % v.geo.nplanes) } := by
  rw [VblkG.eraseCmd, hk, SizeLoop.min_piece_of_dvd hj]
  refine List.map_congr_left fun i _ => ?_
  have hsplit : j * (n * v.geo.nplanes) + i = i + j * n * v.geo.nplanes := by ring
  rw [hsplit, Nat.add_mul_div_right _ _ v.geo.nplanes_pos, Nat.add_mul_mod_self_right, Nat.add_comm (j * n)]

theorem VblkG.blockPlanes_eq (v : VblkG) : v.blockPlanes = (List.range (v.nblks * v.geo.nplanes)).map fun i =>
    { v.blks.getD (i / v.geo.nplanes) ⟨0, 0, 0, 0, 0, 0⟩ with pl := BitVec.ofNat 8 (i % v.geo.nplanes) } := by
  rw [← Striping.flatMap_digits, VblkG.blockPlanes]
  nth_rewrite 1 [← map_range_getD v.blks ⟨0, 0, 0, 0, 0, 0⟩]
  rw [List.flatMap_map]
  refine congrArg List.flatten (List.map_congr_left fun b _ => List.map_congr_left fun pl hpl => ?_)
  have hlt := List.mem_range.mp hpl
  rw [Nat.add_comm, Nat.add_mul_div_right _ _ v.geo.nplanes_pos, Nat.add_mul_mod_self_right, Nat.div_eq_of_lt hlt,
    Nat.zero_add, Nat.mod_eq_of_lt hlt]

theorem vblkEraseS12_erasesAll (v : VblkG) (env : IoEnv) {naddrsMax : Nat} (hge : v.geo.nplanes ≤ naddrsMax)
    (hle : naddrsMax ≤ naddrMax) (s : Cursors) :
    ∃ cmds, ErasesAll env naddrsMax s v.blockPlanes cmds (vblkEraseS12 v env naddrsMax s) := by
  have hmax : 0 < naddrsMax / v.geo.nplanes := Nat.div_pos hge v.geo.nplanes_pos
  rw [vblkEraseS12, if_neg hmax.ne', VblkG.blockPlanes_eq]
  obtain ⟨k, hk⟩ := cmdNspages_dvd v.nblks hmax
  have hcmd := cmdNspages_le v.nblks (naddrsMax / v.geo.nplanes)
  have hk' : v.nblks = k * cmdNblks v.nblks (naddrsMax / v.geo.nplanes) := hk.trans (Nat.mul_comm _ _)
  refine eraseLoop_erasesAll env (cmdNspages_pos _ hmax) v.geo.nplanes_pos hk' v.nblks_le ?_ ?_ _ s ?_
  · exact hcmd.trans ((Nat.div_le_self _ _).trans hle)
  · exact (Nat.mul_le_mul_right _ hcmd).trans (Nat.div_mul_le_self _ _)
  · exact fun j hj => v.eraseCmd_eq hk' hj

theorem VblkL.eraseCmd_eq (v : VblkL) {k n j : Nat} (hk : v.nblks = k * n) (hj : j < k) :
    v.eraseCmd n (j * n) = (List.range (n * 1)).map fun i => v.blks.getD (j * (n * 1) + i) ⟨0, 0, 0, 0⟩ := by
  rw [VblkL.eraseCmd, hk, SizeLoop.min_piece_of_dvd hj, Nat.mul_one]

theorem vblkEraseS20_erasesAll (v : VblkL) (env : IoEnv) {naddrsMax : Nat} (hge : 0 < naddrsMax)
    (hle : naddrsMax ≤ naddrMax) (s : Cursors) :
    ∃ cmds, ErasesAll env naddrsMax s v.blks cmds (vblkEraseS20 v env naddrsMax s) := by
  obtain ⟨k, hk⟩ := cmdNspages_dvd v.nblks hge
  have hcmd := cmdNspages_le v.nblks naddrsMax
  have hk' : v.nblks = k * cmdNblks v.nblks naddrsMax := hk.trans (Nat.mul_comm _ _)
  rw [vblkEraseS20, if_neg hge.ne', ← map_range_getD v.blks ⟨0, 0, 0, 0⟩, ← Nat.mul_one v.blks.length]
  refine eraseLoop_erasesAll env (cmdNspages_pos _ hge) Nat.one_pos hk' v.nblks_le (hcmd.trans hle) ?_ _ s ?_
  · exact (Nat.mul_one _).trans_le hcmd
  · exact fun j hj => v.eraseCmd_eq hk' hj

/-! The ranges. -/

theorem toNat_sub_lt_mul_iff {x start : BitVec 64} {n len : Nat} (h : n * len ≤ 2 ^ 64) :
    (x - start).toNat < n * len ↔ ∃ i < n, (x - (start + BitVec.ofNat 64 (i * len))).toNat < len := by
  have hcell : ∀ i < n, i * len + len ≤ 2 ^ 64 := by
    intro i hi
    rw [← Nat.succ_mul]
    exact (Nat.mul_le_mul_right len hi).trans h
  have hshift : ∀ i < n, (x - (start + BitVec.ofNat 64 (i * len))).toNat < len ↔
      i * len ≤ (x - start).toNat ∧ (x - start).toNat < i * len + len := by
    intro i hi
    have hfit := hcell i hi
    have hlt := (x - start).isLt
    rw [← BitVec.sub_sub, BitVec.toNat_sub, BitVec.toNat_ofNat]
    rcases Nat.lt_or_ge (i * len) (2 ^ 64) with hm | hm
    · rw [Nat.mod_eq_of_lt hm]
      rcases Nat.lt_or_ge (x - start).toNat (i * len) with hbelow | habove
      · rw [Nat.mod_eq_of_lt (by omega)]
        omega
      · rw [show 2 ^ 64 - i * len + (x - start).toNat = (x - start).toNat - i * len + 2 ^ 64 by omega,
          Nat.add_mod_right, Nat.mod_eq_of_lt (by omega)]
        omega
    · omega
  constructor
  · intro hx
    have hlen : 0 < len := Nat.pos_of_ne_zero (by rintro rfl; simp at hx)
    have hi : (x - start).toNat / len < n := Nat.div_lt_of_lt_mul (by rwa [Nat.mul_comm])
    have hdiv := Nat.div_add_mod' (x - start).toNat len
    have hmod := Nat.mod_lt (x - start).toNat hlen
    exact ⟨_, hi, (hshift _ hi).mpr ⟨by omega, by omega⟩⟩
  · rintro ⟨i, hi, hx⟩
    have hend : i * len + len ≤ n * len := by
      rw [← Nat.succ_mul]
      exact Nat.mul_le_mul_right len hi
    exact ((hshift i hi).mp hx).2.trans_le hend

section

variable {dev : DevL} {b : LAddr}

theorem DevL.SectorOf.run (hruns : dev.SectorRuns) (hb : nvmAddrCheckL b dev.geo = 0) (hs : b.sectr = 0)
    {a : LAddr} (ha : dev.SectorOf b a) : a.sectr.toNat < dev.geo.nsectr ∧
      (nvmAddrGen2devL dev.lbaf a).toNat = (nvmAddrGen2devL dev.lbaf b).toNat + a.sectr.toNat ∧
      nvmAddrGen2off dev.fmt a =
        nvmAddrGen2off dev.fmt b + BitVec.ofNat 64 (a.sectr.toNat * dev.geo.nbytes) := by
  have hnext : a.sectr.toNat = b.sectr.toNat + a.sectr.toNat := by simp [hs]
  obtain ⟨hdev, hoff, -⟩ := hruns b a _ hb ha.1 ha.2.symm hnext
  exact ⟨(nvmAddrCheckL_eq_zero.mp ha.1).2.2.2, hdev, hoff⟩

theorem DevL.exists_sectorOf (hb : nvmAddrCheckL b dev.geo = 0) {i : Nat} (hi : i < dev.geo.nsectr) :
    ∃ a, dev.SectorOf b a ∧ a.sectr.toNat = i := by
  obtain ⟨hgrp, hunit, hchunk, -⟩ := nvmAddrCheckL_eq_zero.mp hb
  have hval : (BitVec.ofNat 32 i).toNat = i := by
    rw [BitVec.toNat_ofNat, Nat.mod_eq_of_lt (hi.trans dev.geo.nsectr_lt)]
  refine ⟨{ b with sectr := BitVec.ofNat 32 i }, ⟨?_, rfl⟩, hval⟩
  exact nvmAddrCheckL_eq_zero.mpr ⟨hgrp, hunit, hchunk, hval.trans_lt hi⟩

theorem DevL.inChunk_iff (hruns : dev.SectorRuns) (hb : nvmAddrCheckL b dev.geo = 0) (hs : b.sectr = 0)
    (lba : Nat) : dev.InChunk b lba ↔ (nvmAddrGen2devL dev.lbaf b).toNat ≤ lba ∧
      lba < (nvmAddrGen2devL dev.lbaf b).toNat + dev.geo.nsectr := by
  constructor
  · rintro ⟨a, ha, rfl⟩
    obtain ⟨hlt, hdev, -⟩ := ha.run hruns hb hs
    omega
  · rintro ⟨hge, hlt⟩
    obtain ⟨a, ha, hi⟩ := DevL.exists_sectorOf (i := lba - (nvmAddrGen2devL dev.lbaf b).toNat) hb (by omega)
    refine ⟨a, ha, ?_⟩
    rw [(ha.run hruns hb hs).2.1, hi]
    omega

theorem DevL.dsmRange_covers (hruns : dev.SectorRuns) (hb : nvmAddrCheckL b dev.geo = 0) (hs : b.sectr = 0)
    (nsid : BitVec 32) (lba : Nat) :
    DsmRange.Covers ⟨0, BitVec.ofNat 32 (dev.cmdDev nsid).nsectr, (dev.cmdDev nsid).fmt.gen2dev b⟩ lba ↔
      dev.InChunk b lba := by
  have hnlb : (BitVec.ofNat 32 (dev.cmdDev nsid).nsectr).toNat = dev.geo.nsectr := by
    rw [BitVec.toNat_ofNat]
    exact Nat.mod_eq_of_lt dev.geo.nsectr_lt
  rw [DevL.inChunk_iff hruns hb hs, DsmRange.Covers, hnlb]
  rfl

theorem DevL.discardRange_length (hssw : dev.ssw < 32) (hbytes : dev.geo.nbytes = 2 ^ dev.ssw) (a : LAddr) :
    (dev.discardRange a).2.toNat = dev.geo.nsectr * dev.geo.nbytes ∧
      dev.geo.nsectr * dev.geo.nbytes < 2 ^ 64 := by
  have hsectr := dev.geo.nsectr_lt
  have hprod : dev.geo.nsectr * 2 ^ dev.ssw < 2 ^ 64 := by
    have hle : 2 ^ dev.ssw ≤ 2 ^ 32 := Nat.pow_le_pow_right (by decide) hssw.le
    exact (Nat.mul_le_mul_left _ hle).trans_lt (Nat.mul_lt_mul_of_pos_right hsectr (by decide))
  rw [DevL.discardRange, toNat_shl (by omega), BitVec.toNat_ofNat, hbytes,
    Nat.mod_eq_of_lt (hsectr.trans (by decide)), Nat.mod_eq_of_lt hprod]
  exact ⟨rfl, hprod⟩

theorem DevL.discardsChunk (hruns : dev.SectorRuns) (hssw : dev.ssw < 32)
    (hbytes : dev.geo.nbytes = 2 ^ dev.ssw) (hb : nvmAddrCheckL b dev.geo = 0) (hs : b.sectr = 0) :
    dev.DiscardsChunk (dev.discardRange b) b := by
  obtain ⟨hlen, hlt⟩ := DevL.discardRange_length hssw hbytes b
  constructor
  · intro x
    rw [hlen, toNat_sub_lt_mul_iff hlt.le]
    constructor
    · rintro ⟨i, hi, hx⟩
      obtain ⟨a, ha, rfl⟩ := DevL.exists_sectorOf hb hi
      refine ⟨a, ha, ?_⟩
      rw [(ha.run hruns hb hs).2.2]
      exact hx
    · rintro ⟨a, ha, hx⟩
      obtain ⟨hi, -, hoff⟩ := ha.run hruns hb hs
      refine ⟨a.sectr.toNat, hi, ?_⟩
      rw [hoff] at hx
      exact hx
  · intro hend x
    have hpos := (nvmAddrCheckL_eq_zero.mp hb).2.2.2
    have hbpos := dev.geo.nbytes_pos
    have hfirst := hend _ ((DevL.inChunk_iff hruns hb hs _).mpr ⟨le_rfl, by omega⟩)
    have hstart : (dev.discardRange b).1.toNat = (nvmAddrGen2devL dev.lbaf b).toNat * dev.geo.nbytes := by
      rw [Nat.succ_mul] at hfirst
      have hoff : (dev.discardRange b).1.toNat = (nvmAddrGen2devL dev.lbaf b).toNat * 2 ^ dev.ssw % 2 ^ 64 :=
        toNat_shl (show dev.ssw < 64 by omega)
      rw [hoff, ← hbytes, Nat.mod_eq_of_lt (by omega)]
    simp only [hlen, hstart, DevL.inChunk_iff hruns hb hs, ← Nat.add_mul]
    constructor
    · rintro ⟨hge, hx⟩
      have hdiv : (nvmAddrGen2devL dev.lbaf b).toNat ≤ x / dev.geo.nbytes :=
        (Nat.le_div_iff_mul_le hbpos).mpr hge
      have hdiv' : x / dev.geo.nbytes < (nvmAddrGen2devL dev.lbaf b).toNat + dev.geo.nsectr :=
        Nat.div_lt_of_lt_mul (by rwa [Nat.mul_comm])
      exact ⟨x / dev.geo.nbytes, ⟨hdiv, hdiv'⟩, Nat.div_mul_le_self _ _,
        Nat.lt_mul_of_div_lt (Nat.lt_succ_self _) hbpos⟩
    · rintro ⟨lba, ⟨hge, hlba⟩, hx, hx'⟩
      exact ⟨(Nat.mul_le_mul_right _ hge).trans hx, hx'.trans_le (Nat.mul_le_mul_right _ hlba)⟩

theorem discardLoop_spec (dev : DevL) (ioctl : Nat → Option Errno) (i : Nat) (addrs : List LAddr) :
    (discardLoop dev ioctl i addrs).1 =
        (addrs.take (discardLoop dev ioctl i addrs).1.length).map dev.discardRange ∧
      ((discardLoop dev ioctl i addrs).2 = .ok () →
        (discardLoop dev ioctl i addrs).1.length = addrs.length) := by
  induction addrs generalizing i with
  | nil => exact ⟨rfl, fun _ => rfl⟩
  | cons addr addrs ih =>
    rw [discardLoop]
    cases ioctl i with
    | some err => exact ⟨rfl, nofun⟩
    | none =>
      obtain ⟨hranges, hlen⟩ := ih (i + 1)
      refine ⟨?_, fun hok => ?_⟩
      · rw [List.length_cons, List.take_succ_cons, List.map_cons, ← hranges]
      · rw [List.length_cons, List.length_cons, hlen hok]

def DevL.eraseReq (dev : DevL) (nsid : BitVec 32) (addrs : List LAddr) (hpos : 0 < addrs.length)
    (hlen : addrs.length ≤ naddrMax) (hcheck : ∀ b ∈ addrs, nvmAddrCheckL b dev.geo = 0) :
    Req (dev.cmdDev nsid) where
  opcode := .scalarErase
  data := none
  md := none
  addrs := fun i => addrs.getD i ⟨0, 0, 0, 0⟩
  dst := none
  naddrs := addrs.length
  flags := 0
  naddrs_pos := hpos
  naddrs_lt := hlen.trans_lt (by decide)
  dst_isSome := by simp
  accepted := by
    rw [givenAddrs_list (.inr rfl), map_range_getD]
    exact hcheck
  accepted_dst := by simp

theorem DevL.eraseReq_setup (dev : DevL) (nsid : BitVec 32) {addrs : List LAddr} (hpos : 0 < addrs.length)
    (hlen : addrs.length ≤ naddrMax) (hcheck : ∀ b ∈ addrs, nvmAddrCheckL b dev.geo = 0) {m : Allocs}
    (hwrap : m.wrap = true) (hdsmr : m.dsmr = true) :
    (nvmCmdWrapSetup (dev.cmdDev nsid) m (dev.eraseReq nsid addrs hpos hlen hcheck)).isSome := by
  refine (nvmCmdWrapSetup_isSome m _).mpr ⟨hwrap, fun _ => hdsmr, ?_, ?_, ?_, ?_⟩ <;>
    simp [DevL.eraseReq, nvmCmdIsScalar]

theorem DevL.erasesChunks (hruns : dev.SectorRuns) (hssw : dev.ssw < 32)
    (hbytes : dev.geo.nbytes = 2 ^ dev.ssw) {addrs : List LAddr}
    (hcheck : ∀ b ∈ addrs, nvmAddrCheckL b dev.geo = 0) (hsectr : ∀ b ∈ addrs, b.sectr = 0)
    (hpos : 0 < addrs.length) (hlen : addrs.length ≤ naddrMax) : dev.ErasesChunks addrs := by
  constructor
  · intro nsid m hwrap hdsmr
    refine ⟨dev.eraseReq nsid addrs hpos hlen hcheck, rfl, ?_,
      dev.eraseReq_setup nsid hpos hlen hcheck hwrap hdsmr⟩
    exact (givenAddrs_list (.inr rfl) _ _).trans (map_range_getD _ _)
  · rintro nsid req m w ho rfl hw
    have he := encoded_of_setup hw
    have hgiven := givenAddrs_list (.inr ho) req.naddrs req.addrs
    rw [hgiven] at hcheck hsectr hlen ⊢
    rw [List.length_map, List.length_range] at hlen ⊢
    refine ⟨?_, _, he.ranges ho, ?_⟩
    · have hcount := he.count
      have hmax : naddrMax = 64 := rfl
      have hpos := req.naddrs_pos
      rw [ho] at hcount
      change w.cmd.dsmNr.toNat = (req.naddrs - 1) % 2 ^ 8 at hcount
      rw [hcount, Nat.mod_eq_of_lt (by omega)]
      omega
    · rw [List.forall₂_map_left_iff, List.forall₂_map_right_iff, List.forall₂_same]
      intro i hi lba
      have hmem := List.mem_map_of_mem (f := req.addrs) hi
      exact DevL.dsmRange_covers hruns (hcheck _ hmem) (hsectr _ hmem) nsid lba
  · intro ioctl
    obtain ⟨hranges, hall⟩ := discardLoop_spec dev ioctl 0 addrs
    refine ⟨?_, hall⟩
    change List.Forall₂ dev.DiscardsChunk (discardLoop dev ioctl 0 addrs).1 _
    rw [hranges, List.forall₂_map_left_iff]
    refine List.forall₂_same.mpr fun b hb => ?_
    have hmem := List.mem_of_mem_take hb
    exact DevL.discardsChunk hruns hssw hbytes (hcheck b hmem) (hsectr b hmem)

theorem nvmBePopulate_ssw_lt {idfy : Idfy} (h : nvmBePopulate idfy = .ok (.s20 dev)) : dev.ssw < 32 := by
  rcases nvmBePopulate_cases h with ⟨hp, hdev⟩ | hdev
  · exact absurd hdev (by simp)
  · obtain rfl := Dev.s20.inj hdev
    have hlt := idfy.s20.ds_lt
    dsimp only
    rw [Nat.one_shiftLeft, ilog2, ilog2Loop_two_pow]
    omega

end

/-- On either version an erase names every block of the virtual block once, with each plane on
OCSSD 1.2; scalar erases touch the chunks and nothing else. -/
theorem vblk_erase_covers :
    (∀ (v : VblkG) (env : IoEnv) (eraseNaddrsMax : Nat) (s : Cursors), v.geo.nplanes ≤ eraseNaddrsMax →
      eraseNaddrsMax ≤ naddrMax →
      ∃ cmds, ErasesAll env eraseNaddrsMax s v.blockPlanes cmds (vblkEraseS12 v env eraseNaddrsMax s)) ∧
    (∀ (v : VblkL) (env : IoEnv) (eraseNaddrsMax : Nat) (s : Cursors), 0 < eraseNaddrsMax →
      eraseNaddrsMax ≤ naddrMax →
      ∃ cmds, ErasesAll env eraseNaddrsMax s v.blks cmds (vblkEraseS20 v env eraseNaddrsMax s) ∧
        ∀ (idfy : Idfy) (dev : DevL), nvmBePopulate idfy = .ok (.s20 dev) → dev.lbaf.Fits dev.geo →
          v.geo = dev.geo → (∀ b ∈ v.blks, b.sectr = 0) → ∀ c ∈ cmds, dev.ErasesChunks c) := by
  refine ⟨fun v env eraseNaddrsMax s hge hle => vblkEraseS12_erasesAll v env hge hle s, ?_⟩
  intro v env eraseNaddrsMax s hge hle
  obtain ⟨cmds, hall⟩ := vblkEraseS20_erasesAll v env hge hle s
  refine ⟨cmds, hall, fun idfy dev hdev hf hgeo hsectr c hc => ?_⟩
  obtain ⟨-, hssw, hbytes⟩ := nvmBePopulate_s20 hdev
  have hmem : ∀ b ∈ c, b ∈ v.blks := by
    intro b hb
    rw [← hall.targets]
    exact List.mem_flatten.mpr ⟨c, hc, hb⟩
  refine DevL.erasesChunks (DevL.sectorRuns hf hssw hbytes) (nvmBePopulate_ssw_lt hdev) hbytes ?_ ?_
    (hall.naddrs c hc).1 ?_
  · exact fun b hb => hgeo ▸ v.blks_check b (hmem b hb)
  · exact fun b hb => hsectr b (hmem b hb)
  · exact (hall.naddrs c hc).2.trans hle

theorem vblk_erase_covers_small :
    (∃ cmds, ErasesAll .good 2 ⟨1024, 0⟩ tinyVblkG.blockPlanes cmds (vblkEraseS12 tinyVblkG .good 2 ⟨1024, 0⟩)) ∧
    ∃ cmds dev, ErasesAll .good 64 ⟨65536, 0⟩ smallVblk.blks cmds (vblkEraseS20 smallVblk .good 64 ⟨65536, 0⟩) ∧
      nvmBePopulate (smallIdfy 3) = .ok (.s20 dev) ∧ ∀ c ∈ cmds, dev.ErasesChunks c := by
  refine ⟨vblk_erase_covers.1 tinyVblkG .good 2 ⟨1024, 0⟩ (by decide) (by decide), ?_⟩
  obtain ⟨cmds, hall, hchunks⟩ := vblk_erase_covers.2 smallVblk .good 64 ⟨65536, 0⟩ (by decide) (by decide)
  refine ⟨cmds, _, hall, rfl, hchunks (smallIdfy 3) _ rfl ?_ rfl ?_⟩
  · exact ⟨by decide, by decide, by decide, by decide, by decide⟩
  · decide

end LightNvm
