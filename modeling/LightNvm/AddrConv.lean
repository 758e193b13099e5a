import LightNvm.AddrFormat
import LightNvm.BitFields

/-! The address format of a device as `nvm_be_populate` sets it up, and the conversions of
`nvm_addr.c` between generic addresses, device addresses and byte offsets. -/

namespace LightNvm

open BitFields

/-- `struct nvm_spec_ppaf_nand`: offset and width of each component. -/
structure PpafNand where
  chOff : BitVec 8
  chLen : BitVec 8
  lunOff : BitVec 8
  lunLen : BitVec 8
  plOff : BitVec 8
  plLen : BitVec 8
  blkOff : BitVec 8
  blkLen : BitVec 8
  pgOff : BitVec 8
  pgLen : BitVec 8
  secOff : BitVec 8
  secLen : BitVec 8
  deriving DecidableEq

def PpafNand.a (p : PpafNand) : List (BitVec 8) :=
  [p.chOff, p.chLen, p.lunOff, p.lunLen, p.plOff, p.plLen, p.blkOff, p.blkLen, p.pgOff, p.pgLen,
    p.secOff, p.secLen]

structure PpafMask where
  ch : BitVec 64
  lun : BitVec 64
  pl : BitVec 64
  blk : BitVec 64
  pg : BitVec 64
  sec : BitVec 64

def PpafMask.ofA (a : List (BitVec 64)) : PpafMask :=
  ⟨a.getD 0 0, a.getD 1 0, a.getD 2 0, a.getD 3 0, a.getD 4 0, a.getD 5 0⟩

def shr (x : BitVec 64) (n : Nat) : BitVec 64 := x >>> (n % 64)

def bitMask (off len : Nat) : BitVec 64 := shl (shl 1 len - 1) off

def constructPpafMask (ppaf : PpafNand) : PpafMask :=
  .ofA ((List.range 12).foldl (fun mask i =>
    if i % 2 ≠ 0 then
      mask.set (i / 2) (bitMask (ppaf.a.getD (i - 1) 0).toNat (ppaf.a.getD i 0).toNat)
    else mask) (List.replicate 6 0))

structure Lbam where
  pugrp : BitVec 64
  punit : BitVec 64
  chunk : BitVec 64
  sectr : BitVec 64

def ilog2Loop (x val : Nat) : Nat :=
  if x >>> 1 = 0 then val else ilog2Loop (x >>> 1) (val + 1)
termination_by x
decreasing_by
  rw [Nat.shiftRight_eq_div_pow] at *
  omega

def ilog2 (x : Nat) : Nat := ilog2Loop x 0

structure DevG where
  geo : GeoG
  ppaf : PpafNand
  mask : PpafMask
  ssw : Nat

structure DevL where
  geo : GeoL
  lbaf : Lbaf
  lbam : Lbam
  ssw : Nat

inductive Dev where
  | s12 (dev : DevG)
  | s20 (dev : DevL)

/-- The part of `struct nvm_spec_idfy_s12` that `nvm_be_populate` reads. A sector of no bytes is
divided by. -/
structure IdfyS12 where
  fpgSz : BitVec 16
  csecs : BitVec 16
  sos : BitVec 16
  numCh : BitVec 8
  numLun : BitVec 8
  numPln : BitVec 8
  numBlk : BitVec 16
  numPg : BitVec 16
  ppaf : PpafNand
  csecs_pos : 0 < csecs.toNat

/-- The part of `struct nvm_spec_idfy_s20` that `nvm_be_populate` reads, with the data size `ds` and
the metadata size `ms` of the namespace's format; `1 << ds` is an `int`. -/
structure IdfyS20 where
  npugrp : BitVec 16
  npunit : BitVec 16
  nchunk : BitVec 32
  nsectr : BitVec 32
  wsOpt : Nat
  lbaf : Lbaf
  ds : Nat
  ms : BitVec 16
  wsOpt_lt : wsOpt < 2 ^ 31
  ds_lt : ds < 31

structure Idfy where
  verid : BitVec 8
  s12 : IdfyS12
  s20 : IdfyS20

/-- The fixed value that `nvm_be_populate_quirks` puts in the place of large OOB areas. It is called
with an empty serial number, which matches every device. -/
def quirkMetaNbytes (metaNbytes sectorNbytes : Nat) : Nat :=
  if sectorNbytes < 10 * metaNbytes then 16 else metaNbytes

def IdfyS12.geo (i : IdfyS12) (h : i.numPln.toNat = 1 ∨ i.numPln.toNat = 2 ∨ i.numPln.toNat = 4) :
    GeoG where
  nchannels := i.numCh.toNat
  nluns := i.numLun.toNat
  nblocks := i.numBlk.toNat
  sectorNbytes := i.csecs.toNat
  metaNbytes := quirkMetaNbytes i.sos.toNat i.csecs.toNat
  nplanes := i.numPln.toNat
  npages := i.numPg.toNat
  pageNbytes := i.fpgSz.toNat
  nchannels_lt := i.numCh.isLt
  nluns_lt := i.numLun.isLt
  nblocks_lt := i.numBlk.isLt
  npages_lt := i.numPg.isLt
  pageNbytes_lt := i.fpgSz.isLt
  metaNbytes_lt := by
    rw [quirkMetaNbytes]
    split_ifs
    · decide
    · exact i.sos.isLt
  sectorNbytes_pos := i.csecs_pos
  nplanes_mem := h

def IdfyS20.geo (i : IdfyS20) : GeoL where
  npugrp := i.npugrp.toNat
  npunit := i.npunit.toNat
  nchunk := i.nchunk.toNat
  nsectr := i.nsectr.toNat
  nbytes := 1 <<< i.ds
  nbytesOob := i.ms.toNat
  wsOpt := i.wsOpt
  nsectr_lt := i.nsectr.isLt
  nbytes_pos := by simp [Nat.shiftLeft_eq]
  wsOpt_lt := i.wsOpt_lt

def IdfyS20.lbam (i : IdfyS20) : Lbam where
  sectr := bitMask 0 i.lbaf.sectr
  chunk := bitMask i.lbaf.zchunk i.lbaf.chunk
  punit := bitMask i.lbaf.zpunit i.lbaf.punit
  pugrp := bitMask i.lbaf.zpugrp i.lbaf.pugrp

def nvmBePopulate (idfy : Idfy) : Except Errno Dev :=
  let verid := if idfy.verid = 0x3 then 0x2 else idfy.verid
  if verid = 0x1 then
    if h : idfy.s12.numPln.toNat = 1 ∨ idfy.s12.numPln.toNat = 2 ∨ idfy.s12.numPln.toNat = 4 then
      .ok (.s12 ⟨idfy.s12.geo h, idfy.s12.ppaf, constructPpafMask idfy.s12.ppaf,
        ilog2 idfy.s12.csecs.toNat⟩)
    else .error .einval
  else if verid = 0x2 then
    .ok (.s20 ⟨idfy.s20.geo, idfy.s20.lbaf, idfy.s20.lbam, ilog2 (1 <<< idfy.s20.ds)⟩)
  else .error .enosys

/-! The conversions. -/

def nvmAddrGen2devG (p : PpafNand) (a : GAddr) : BitVec 64 :=
  shl (a.ch.setWidth 64) p.chOff.toNat ||| shl (a.lun.setWidth 64) p.lunOff.toNat |||
    shl (a.pl.setWidth 64) p.plOff.toNat ||| shl (a.blk.setWidth 64) p.blkOff.toNat |||
    shl (a.pg.setWidth 64) p.pgOff.toNat ||| shl (a.sec.setWidth 64) p.secOff.toNat

def nvmAddrDev2genG (dev : DevG) (d : BitVec 64) : GAddr where
  ch := (shr (d &&& dev.mask.ch) dev.ppaf.chOff.toNat).setWidth 8
  lun := (shr (d &&& dev.mask.lun) dev.ppaf.lunOff.toNat).setWidth 8
  pl := (shr (d &&& dev.mask.pl) dev.ppaf.plOff.toNat).setWidth 8
  blk := (shr (d &&& dev.mask.blk) dev.ppaf.blkOff.toNat).setWidth 16
  pg := (shr (d &&& dev.mask.pg) dev.ppaf.pgOff.toNat).setWidth 16
  sec := (shr (d &&& dev.mask.sec) dev.ppaf.secOff.toNat).setWidth 8

def nvmAddrDev2genL (dev : DevL) (d : BitVec 64) : LAddr where
  pugrp := (shr (d &&& dev.lbam.pugrp) dev.lbaf.zpugrp).setWidth 8
  punit := (shr (d &&& dev.lbam.punit) dev.lbaf.zpunit).setWidth 8
  chunk := (shr (d &&& dev.lbam.chunk) dev.lbaf.zchunk).setWidth 16
  sectr := (shr (d &&& dev.lbam.sectr) 0).setWidth 32

/-- The address functions of a device, with the masks and the widths that they go by. -/
structure AddrFmt (α : Type) where
  check : α → Nat
  gen2dev : α → BitVec 64
  dev2gen : BitVec 64 → α
  fields : List Field
  generic : Prop
  mask : BitVec 64
  ssw : Nat

def nvmAddrGen2off {α : Type} (fmt : AddrFmt α) (a : α) : BitVec 64 := shl (fmt.gen2dev a) fmt.ssw

def nvmAddrOff2gen {α : Type} (fmt : AddrFmt α) (off : BitVec 64) : α := fmt.dev2gen (shr off fmt.ssw)

def nvmAddrDev2off {α : Type} (fmt : AddrFmt α) (d : BitVec 64) : BitVec 64 := shl d fmt.ssw

def nvmAddrOff2dev {α : Type} (fmt : AddrFmt α) (off : BitVec 64) : BitVec 64 := shr off fmt.ssw

def PpafNand.fields (p : PpafNand) : List Field :=
  [⟨p.chOff.toNat, p.chLen.toNat⟩, ⟨p.lunOff.toNat, p.lunLen.toNat⟩, ⟨p.plOff.toNat, p.plLen.toNat⟩,
    ⟨p.blkOff.toNat, p.blkLen.toNat⟩, ⟨p.pgOff.toNat, p.pgLen.toNat⟩, ⟨p.secOff.toNat, p.secLen.toNat⟩]

def Lbaf.fields (f : Lbaf) : List Field :=
  [⟨f.zpugrp, f.pugrp⟩, ⟨f.zpunit, f.punit⟩, ⟨f.zchunk, f.chunk⟩, ⟨0, f.sectr⟩]

def DevG.fmt (dev : DevG) : AddrFmt GAddr where
  check := fun a => nvmAddrCheckG a dev.geo
  gen2dev := nvmAddrGen2devG dev.ppaf
  dev2gen := nvmAddrDev2genG dev
  fields := dev.ppaf.fields
  generic := dev.ppaf.chLen.toNat ≤ 8 ∧ dev.ppaf.lunLen.toNat ≤ 8 ∧ dev.ppaf.plLen.toNat ≤ 8 ∧
    dev.ppaf.blkLen.toNat ≤ 16 ∧ dev.ppaf.pgLen.toNat ≤ 16 ∧ dev.ppaf.secLen.toNat ≤ 8
  mask := dev.mask.ch ||| dev.mask.lun ||| dev.mask.pl ||| dev.mask.blk ||| dev.mask.pg ||| dev.mask.sec
  ssw := dev.ssw

def DevL.fmt (dev : DevL) : AddrFmt LAddr where
  check := fun a => nvmAddrCheckL a dev.geo
  gen2dev := nvmAddrGen2devL dev.lbaf
  dev2gen := nvmAddrDev2genL dev
  fields := dev.lbaf.fields
  generic := dev.lbaf.pugrp ≤ 8 ∧ dev.lbaf.punit ≤ 8 ∧ dev.lbaf.chunk ≤ 16 ∧ dev.lbaf.sectr ≤ 32
  mask := dev.lbam.pugrp ||| dev.lbam.punit ||| dev.lbam.chunk ||| dev.lbam.sectr
  ssw := dev.ssw

structure AddrFmt.Lossless {α : Type} (fmt : AddrFmt α) : Prop where
  dev2gen_gen2dev : ∀ a, fmt.check a = 0 → fmt.dev2gen (fmt.gen2dev a) = a
  gen2dev_inj : ∀ a b, fmt.check a = 0 → fmt.check b = 0 → fmt.gen2dev a = fmt.gen2dev b → a = b
  gen2dev_dev2gen : fmt.generic → ∀ d, d &&& ~~~fmt.mask = 0 → fmt.gen2dev (fmt.dev2gen d) = d
  off2gen_gen2off : ∀ a, fmt.check a = 0 → (fmt.gen2dev a).toNat < 2 ^ (64 - fmt.ssw) →
    nvmAddrOff2gen fmt (nvmAddrGen2off fmt a) = a
  off2dev_dev2off : ∀ a, fmt.check a = 0 → (fmt.gen2dev a).toNat < 2 ^ (64 - fmt.ssw) →
    nvmAddrOff2dev fmt (nvmAddrDev2off fmt (fmt.gen2dev a)) = fmt.gen2dev a

structure WellPlaced (fs : List Field) : Prop where
  apart : fs.Pairwise Field.Apart
  below : ∀ f ∈ fs, f.Below 64

/-! Shifts and masks. -/

theorem shr_eq {x : BitVec 64} {n : Nat} (h : n < 64 ∨ x = 0) : shr x n = x >>> n := by
  rcases h with h | rfl
  · rw [shr, Nat.mod_eq_of_lt h]
  · simp [shr]

theorem shr_shl {x : BitVec 64} {n : Nat} (hn : n < 64) (hx : x.toNat < 2 ^ (64 - n)) :
    shr (shl x n) n = x := by
  have hlt : x.toNat * 2 ^ n < 2 ^ 64 := by
    have h := mul_two_pow_lt (j := n) hx
    rwa [Nat.sub_add_cancel hn.le] at h
  apply BitVec.eq_of_toNat_eq
  rw [shr_eq (.inl hn), shl_eq (.inl hn), BitVec.toNat_ushiftRight, BitVec.toNat_shiftLeft,
    Nat.shiftLeft_eq, Nat.mod_eq_of_lt hlt, Nat.shiftRight_eq_div_pow,
    Nat.mul_div_cancel _ (Nat.two_pow_pos n)]

theorem off_lt_of_below {f : Field} (hb : f.Below 64) : f.off < 64 ∨ f.len = 0 := by
  by_contra h
  have := hb f.off ⟨by omega, by omega⟩
  omega

theorem len_le_of_below {f : Field} (hb : f.Below 64) : f.len = 0 ∨ f.off + f.len ≤ 64 := by
  by_contra h
  have := hb (f.off + f.len - 1) ⟨by omega, by omega⟩
  omega

theorem shl_off {f : Field} (hb : f.Below 64) {x : BitVec 64} (hx : x.toNat < 2 ^ f.len) :
    shl x f.off = x <<< f.off := by
  apply shl_eq
  refine (off_lt_of_below hb).imp_right fun h => ?_
  rw [h] at hx
  exact BitVec.eq_of_toNat_eq (Nat.lt_one_iff.mp hx)

theorem bitMask_eq {f : Field} (hb : f.Below 64) (hl : f.len ≠ 64) :
    bitMask f.off f.len = f.mask 64 := by
  have hlt : f.len < 64 := by
    have := len_le_of_below hb
    omega
  rw [bitMask, shl_eq (.inl hlt), shl_eq]
  · rfl
  · refine (off_lt_of_below hb).imp_right fun h => ?_
    rw [h]
    decide

/-- The mask of a field of all 64 bits has none of them. -/
theorem bitMask_wide (off : Nat) : bitMask off 64 = 0 := by
  simp [bitMask, shl]

theorem shr_and_bitMask {f : Field} (hb : f.Below 64) (hl : f.len ≠ 64) (d : BitVec 64) :
    shr (d &&& bitMask f.off f.len) f.off = f.read d := by
  rw [bitMask_eq hb hl, shr_eq]
  · rfl
  · refine (off_lt_of_below hb).imp_right fun h => ?_
    simp [Field.mask, h]

theorem bitMask_eq_zero {fs : List Field} (hp : WellPlaced fs) {f : Field} (hf : f ∈ fs)
    (hl : f.len = 64) {g : Field} (hg : g ∈ fs) : bitMask g.off g.len = 0 := by
  by_cases hgl : g.len = 64
  · rw [hgl, bitMask_wide]
  have hsymm : Std.Symm Field.Apart := ⟨fun _ _ => Field.Apart.symm⟩
  have hapart : f.Apart g := hp.apart.forall hf hg (fun h => hgl (h ▸ hl))
  have hoff := len_le_of_below (hp.below f hf)
  have hempty : g.len = 0 := by
    by_contra hne
    have hhas : g.Has g.off := ⟨by omega, by omega⟩
    exact hapart g.off ⟨by omega, by have := hp.below g hg _ hhas; omega⟩ hhas
  rw [bitMask_eq (hp.below g hg) hgl]
  simp [Field.mask, hempty]

theorem has_of_bitMask {f : Field} (hb : f.Below 64) {i : Nat}
    (h : (bitMask f.off f.len).getLsbD i = true) : f.Has i := by
  by_cases hl : f.len = 64
  · rw [hl, bitMask_wide] at h
    simp at h
  · rw [bitMask_eq hb hl, getLsbD_mask] at h
    exact h.2

theorem within_of_and_not {fs : List Field} {m d : BitVec 64}
    (hm : ∀ i, m.getLsbD i = true → ∃ f ∈ fs, f.Has i) (h : d &&& ~~~m = 0) : Within fs d := by
  intro i hi
  apply hm
  by_contra hno
  have hbit : (d &&& ~~~m).getLsbD i = true := by
    rw [BitVec.getLsbD_and, BitVec.getLsbD_not, hi, Bool.eq_false_iff.mpr hno,
      decide_eq_true (BitVec.lt_of_getLsbD hi)]
    rfl
  rw [h] at hbit
  simp at hbit

theorem setWidth_setWidth_of_lt {x : BitVec 64} {n : Nat} (h : x.toNat < 2 ^ n) :
    (x.setWidth n).setWidth 64 = x := by
  apply BitVec.eq_of_toNat_eq
  rw [BitVec.toNat_setWidth, BitVec.toNat_setWidth, Nat.mod_eq_of_lt h, Nat.mod_eq_of_lt x.isLt]

theorem toNat_read_lt_of_le {f : Field} {n : Nat} (hn : f.len ≤ n) (d : BitVec 64) :
    (f.read d).toNat < 2 ^ n :=
  (toNat_read_lt f d).trans_le (Nat.pow_le_pow_right (by decide) hn)

section

variable {α : Type} {fmt : AddrFmt α}

theorem zip_map_self {β γ : Type} (l : List β) (g : β → γ) : l.zip (l.map g) = l.map fun b => (b, g b) := by
  simpa using List.zip_map' (f := id) (g := g) (l := l)

theorem AddrFmt.lossless_iff (hssw : fmt.ssw < 64)
    (hinj : ∀ a b, fmt.check a = 0 → fmt.check b = 0 → fmt.gen2dev a = fmt.gen2dev b → a = b)
    (hgen : fmt.generic → ∀ d, d &&& ~~~fmt.mask = 0 → fmt.gen2dev (fmt.dev2gen d) = d) :
    fmt.Lossless ↔ ∀ a, fmt.check a = 0 → fmt.dev2gen (fmt.gen2dev a) = a := by
  refine ⟨fun h => h.dev2gen_gen2dev, fun h => ⟨h, hinj, hgen, ?_, ?_⟩⟩
  · intro a ha hlt
    rw [nvmAddrOff2gen, nvmAddrGen2off, shr_shl hssw hlt, h a ha]
  · intro a _ hlt
    rw [nvmAddrOff2dev, nvmAddrDev2off, shr_shl hssw hlt]

/-- The format puts the components of an address into its fields and takes them from there. -/
structure AddrFmt.ByFields (fmt : AddrFmt α) (comps : α → List (BitVec 64))
    (ofComps : List (BitVec 64) → α) : Prop where
  length_comps : ∀ a, (comps a).length = fmt.fields.length
  ofComps_comps : ∀ a, ofComps (comps a) = a
  comps_read : fmt.generic → ∀ d : BitVec 64,
    comps (ofComps (fmt.fields.map (·.read d))) = fmt.fields.map (·.read d)
  gen2dev_eq : ∀ a, fmt.gen2dev a =
    (fmt.fields.zip (comps a)).foldr (fun q d => shl q.2 q.1.off ||| d) 0
  dev2gen_eq : ∀ d, fmt.dev2gen d =
    ofComps (fmt.fields.map fun f => shr (d &&& bitMask f.off f.len) f.off)
  mask_has : ∀ i, fmt.mask.getLsbD i = true →
    ∃ f ∈ fmt.fields, (bitMask f.off f.len).getLsbD i = true
  len_lt : fmt.generic → ∀ f ∈ fmt.fields, f.len < 64

def Fit (fs : List Field) (vs : List (BitVec 64)) : Prop :=
  ∀ q ∈ fs.zip vs, q.2.toNat < 2 ^ q.1.len

namespace AddrFmt.ByFields

variable {comps : α → List (BitVec 64)} {ofComps : List (BitVec 64) → α}
  (m : fmt.ByFields comps ofComps)

include m

theorem dev2gen_gen2dev_zero {z : α} (hz : comps z = fmt.fields.map fun _ => 0) :
    fmt.dev2gen (fmt.gen2dev z) = z := by
  have hgen : fmt.gen2dev z = 0 := by
    rw [m.gen2dev_eq, hz]
    generalize fmt.fields = fs
    induction fs with
    | nil => rfl
    | cons f fs ih => simpa [shl] using ih
  have hread : (fmt.fields.map fun f => shr (0 &&& bitMask f.off f.len) f.off) = comps z := by
    rw [hz]
    exact List.map_congr_left fun f _ => by simp [shr]
  rw [hgen, m.dev2gen_eq, hread, m.ofComps_comps]

variable (hp : WellPlaced fmt.fields)

include hp

theorem gen2dev_eq_pack {a : α} (ha : Fit fmt.fields (comps a)) :
    fmt.gen2dev a = pack (fmt.fields.zip (comps a)) := by
  rw [m.gen2dev_eq, pack]
  refine List.foldr_ext _ _ _ fun q hq d => ?_
  rw [shl_off (hp.below _ (List.of_mem_zip hq).1) (ha q hq)]

theorem read_gen2dev {a : α} (ha : Fit fmt.fields (comps a)) :
    fmt.fields.map (·.read (fmt.gen2dev a)) = comps a := by
  have hfst : (fmt.fields.zip (comps a)).map Prod.fst = fmt.fields :=
    List.map_fst_zip (m.length_comps a).ge
  have hsnd : (fmt.fields.zip (comps a)).map Prod.snd = comps a :=
    List.map_snd_zip (m.length_comps a).le
  have hread : ∀ q ∈ fmt.fields.zip (comps a),
      q.1.read (pack (fmt.fields.zip (comps a))) = q.2 := fun q hq =>
    read_pack (by rw [hfst]; exact hp.apart) ha hq (hp.below _ (List.of_mem_zip hq).1)
  have hzip : ∀ d : BitVec 64, fmt.fields.map (·.read d) =
      (fmt.fields.zip (comps a)).map fun q => q.1.read d := by
    intro d
    conv_lhs => rw [← hfst, List.map_map]
    rfl
  rw [m.gen2dev_eq_pack hp ha, hzip, List.map_congr_left hread, hsnd]

theorem gen2dev_inj {a b : α} (ha : Fit fmt.fields (comps a)) (hb : Fit fmt.fields (comps b))
    (h : fmt.gen2dev a = fmt.gen2dev b) : a = b := by
  rw [← m.ofComps_comps a, ← m.read_gen2dev hp ha, h, m.read_gen2dev hp hb, m.ofComps_comps]

theorem dev2gen_eq_read (hw : ∀ f ∈ fmt.fields, f.len ≠ 64) (d : BitVec 64) :
    fmt.dev2gen d = ofComps (fmt.fields.map (·.read d)) := by
  rw [m.dev2gen_eq]
  exact congrArg ofComps (List.map_congr_left fun f hf => shr_and_bitMask (hp.below f hf) (hw f hf) d)

theorem dev2gen_wide {f : Field} (hf : f ∈ fmt.fields) (hl : f.len = 64) {z : α}
    (hz : comps z = fmt.fields.map fun _ => 0) (d : BitVec 64) : fmt.dev2gen d = z := by
  have hread : (fmt.fields.map fun g => shr (d &&& bitMask g.off g.len) g.off) = comps z := by
    rw [hz]
    refine List.map_congr_left fun g hg => ?_
    rw [bitMask_eq_zero hp hf hl hg]
    simp [shr]
  rw [m.dev2gen_eq, hread, m.ofComps_comps]

theorem gen2dev_dev2gen (hgen : fmt.generic) {d : BitVec 64} (hd : d &&& ~~~fmt.mask = 0) :
    fmt.gen2dev (fmt.dev2gen d) = d := by
  have hwithin : Within fmt.fields d := by
    refine within_of_and_not (fun i hi => ?_) hd
    obtain ⟨f, hf, hbit⟩ := m.mask_has i hi
    exact ⟨f, hf, has_of_bitMask (hp.below f hf) hbit⟩
  have hread := m.dev2gen_eq_read hp (fun f hf => (m.len_lt hgen f hf).ne) d
  have hzip : fmt.fields.zip (comps (fmt.dev2gen d)) = fmt.fields.map fun f => (f, f.read d) := by
    rw [hread, m.comps_read hgen, zip_map_self]
  rw [m.gen2dev_eq_pack hp, hzip, pack_read hwithin]
  intro q hq
  rw [hzip] at hq
  obtain ⟨f, -, rfl⟩ := List.mem_map.mp hq
  exact toNat_read_lt f d

theorem lossless_iff (hssw : fmt.ssw < 64) (hfit : ∀ a, fmt.check a = 0 → Fit fmt.fields (comps a))
    {z : α} (hz : comps z = fmt.fields.map fun _ => 0) :
    fmt.Lossless ↔ (∀ f ∈ fmt.fields, f.len ≠ 64) ∨ ∀ a, fmt.check a = 0 → a = z := by
  rw [AddrFmt.lossless_iff hssw (fun a b ha hb => m.gen2dev_inj hp (hfit a ha) (hfit b hb))
    (fun hgen _ hd => m.gen2dev_dev2gen hp hgen hd)]
  constructor
  · intro h
    by_cases hw : ∀ f ∈ fmt.fields, f.len ≠ 64
    · exact .inl hw
    · push Not at hw
      obtain ⟨f, hf, hl⟩ := hw
      exact .inr fun a ha => (h a ha).symm.trans (m.dev2gen_wide hp hf hl hz _)
  · rintro (hw | hzero) a ha
    · rw [m.dev2gen_eq_read hp hw, m.read_gen2dev hp (hfit a ha), m.ofComps_comps]
    · rw [hzero a ha, m.dev2gen_gen2dev_zero hz]

end AddrFmt.ByFields

end

end LightNvm
