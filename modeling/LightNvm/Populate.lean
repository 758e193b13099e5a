import LightNvm.AddrLossless

/-! How `nvm_be_populate` fills in a device: the geometry of the identify page, the values that it
derives, and the quirks that go by the serial number. -/

namespace LightNvm

namespace Populate

structure NvmeLbaf where
  ms : BitVec 16
  ds : BitVec 8

structure NvmeNs where
  ncap : BitVec 64
  flbas : BitVec 8
  lbaf : BitVec 4 → NvmeLbaf

def NvmeNs.format (ns : NvmeNs) : NvmeLbaf := ns.lbaf ((ns.flbas &&& 0xf).setWidth 4)

/-- `1 << ds`, which C defines only up to the sign bit of an `int`. -/
def oneShl (ds : BitVec 8) : Option Nat := if ds.toNat < 31 then some (1 <<< ds.toNat) else none

structure RawS20 where
  npugrp : BitVec 16
  npunit : BitVec 16
  nchunk : BitVec 32
  nsectr : BitVec 32
  lbaf : Lbaf

structure RawIdfy where
  verid : BitVec 8
  s12 : IdfyS12
  s20 : RawS20

def RawIdfy.version (idfy : RawIdfy) : BitVec 8 := if idfy.verid = 0x3 then 0x2 else idfy.verid

structure FieldsG where
  nchannels : Nat
  nluns : Nat
  nblocks : Nat
  nsectors : Nat
  sectorNbytes : Nat
  metaNbytes : Nat
  nplanes : Nat
  npages : Nat
  pageNbytes : Nat
  deriving DecidableEq

/-- `struct nvm_geo` through its accessor `l`, which lies over `g`. -/
structure FieldsL where
  npugrp : Nat
  npunit : Nat
  nchunk : Nat
  nsectr : Nat
  nbytes : Nat
  nbytesOob : Nat
  deriving DecidableEq

inductive Fields where
  | g (geo : FieldsG)
  | l (geo : FieldsL)
  deriving DecidableEq

structure Populated where
  geo : Fields
  tbytes : Nat
  ssw : Nat
  quirks : BitVec 32
  deriving DecidableEq

def quirkPmodeEraseRunroll : BitVec 32 := 0x1

def quirkOobRead1st4bytesNull : BitVec 32 := 0x1 <<< 2

def quirkOob2lrg : BitVec 32 := 0x1 <<< 3

def strncmpEq : List Char → List Char → Nat → Bool
  | _, _, 0 => true
  | [], [], _ + 1 => true
  | c :: cs, d :: ds, n + 1 => c == d && strncmpEq cs ds n
  | _, _, _ + 1 => false

def quirkSerial : List Char := ['C', 'X', '8', '8', '0', '0', 'E', 'S']

/-- The fields `meta_nbytes` and `nbytes_oob` are one, and so are `sector_nbytes` and `nbytes`. -/
def Fields.patchOob : Fields → Fields
  | .g geo => .g { geo with metaNbytes := quirkMetaNbytes geo.metaNbytes geo.sectorNbytes }
  | .l geo => .l { geo with nbytesOob := quirkMetaNbytes geo.nbytesOob geo.nbytes }

def nvmBePopulateQuirks (dev : Populated) (serial : List Char) : Populated :=
  if strncmpEq quirkSerial serial (if 8 < serial.length then 8 else serial.length) then
    let quirks := dev.quirks ||| quirkPmodeEraseRunroll ||| match dev.geo with
      | .g _ => quirkOob2lrg
      | .l _ => quirkOobRead1st4bytesNull
    { dev with
      quirks := quirks
      geo := if quirks &&& quirkOob2lrg ≠ 0 then dev.geo.patchOob else dev.geo }
  else dev

def nvmBePopulateDerived (geo : Fields) : Except Errno Populated :=
  match geo with
  | .g geo =>
    let geo := { geo with nsectors := geo.pageNbytes / geo.sectorNbytes }
    if geo.nplanes = 1 ∨ geo.nplanes = 2 ∨ geo.nplanes = 4 then
      .ok ⟨.g geo, geo.nchannels * geo.nluns * geo.nplanes * geo.nblocks * geo.npages * geo.nsectors *
        geo.sectorNbytes % 2 ^ 64, ilog2 geo.sectorNbytes, 0⟩
    else .error .einval
  | .l geo =>
    .ok ⟨.l geo, geo.npugrp * geo.npunit * geo.nchunk * geo.nsectr * geo.nbytes % 2 ^ 64,
      ilog2 geo.nbytes, 0⟩

def RawIdfy.fieldsG (idfy : RawIdfy) : FieldsG where
  nchannels := idfy.s12.numCh.toNat
  nluns := idfy.s12.numLun.toNat
  nblocks := idfy.s12.numBlk.toNat
  nsectors := 0
  sectorNbytes := idfy.s12.csecs.toNat
  metaNbytes := idfy.s12.sos.toNat
  nplanes := idfy.s12.numPln.toNat
  npages := idfy.s12.numPg.toNat
  pageNbytes := idfy.s12.fpgSz.toNat

def RawIdfy.fieldsL (idfy : RawIdfy) (ns : NvmeNs) (nbytes : Nat) : FieldsL where
  npugrp := idfy.s20.npugrp.toNat
  npunit := idfy.s20.npunit.toNat
  nchunk := idfy.s20.nchunk.toNat
  nsectr := idfy.s20.nsectr.toNat
  nbytes := nbytes
  nbytesOob := ns.format.ms.toNat

/-- The serial number that `nvm_be_populate` passes on is empty. There is no outcome where C defines
none. -/
def nvmBePopulate (idfy : RawIdfy) (ns : NvmeNs) : Option (Except Errno Populated) :=
  if idfy.version = 0x1 then
    some ((nvmBePopulateDerived (.g idfy.fieldsG)).map fun dev => nvmBePopulateQuirks dev [])
  else if idfy.version = 0x2 then
    (oneShl ns.format.ds).map fun nbytes =>
      (nvmBePopulateDerived (.l (idfy.fieldsL ns nbytes))).map fun dev => nvmBePopulateQuirks dev []
  else some (.error .enosys)

/-! What it is for. -/

def Begins (serial : List Char) : Prop := quirkSerial <+: serial

structure WellFormed (idfy : RawIdfy) (ns : NvmeNs) : Prop where
  supported : idfy.version = 0x1 ∨ idfy.version = 0x2
  pow : idfy.version = 0x1 → ∃ k, idfy.s12.csecs.toNat = 2 ^ k
  dvd : idfy.version = 0x1 → idfy.s12.csecs.toNat ∣ idfy.s12.fpgSz.toNat
  ltG : idfy.version = 0x1 → idfy.s12.numCh.toNat * idfy.s12.numLun.toNat * idfy.s12.numPln.toNat *
    idfy.s12.numBlk.toNat * idfy.s12.numPg.toNat * idfy.s12.fpgSz.toNat < 2 ^ 64
  ltL : idfy.version = 0x2 → idfy.s20.npugrp.toNat * idfy.s20.npunit.toNat * idfy.s20.nchunk.toNat *
    idfy.s20.nsectr.toNat * 2 ^ ns.format.ds.toNat < 2 ^ 64

def NPlanesOk (idfy : RawIdfy) : Prop :=
  idfy.s12.numPln.toNat = 1 ∨ idfy.s12.numPln.toNat = 2 ∨ idfy.s12.numPln.toNat = 4

/-- The geometry of the device is the one that it identifies with; only the size of the metadata may
differ, and that only on the devices that the quirks are meant for. -/
def TakenGeo (idfy : RawIdfy) (ns : NvmeNs) (serial : List Char) : Fields → Prop
  | .g geo => idfy.version = 0x1 ∧
    { geo with nsectors := 0, metaNbytes := idfy.s12.sos.toNat } = idfy.fieldsG ∧
    (geo.metaNbytes ≠ idfy.s12.sos.toNat → Begins serial)
  | .l geo => idfy.version = 0x2 ∧
    { geo with nbytesOob := ns.format.ms.toNat } = idfy.fieldsL ns (2 ^ ns.format.ds.toNat) ∧
    (geo.nbytesOob ≠ ns.format.ms.toNat → Begins serial)

def DerivedOk (ssw tbytes : Nat) : Fields → Prop
  | .g geo => geo.nsectors * geo.sectorNbytes = geo.pageNbytes ∧ 2 ^ ssw = geo.sectorNbytes ∧
    tbytes = geo.nchannels * geo.nluns * geo.nplanes * geo.nblocks * geo.npages * geo.nsectors *
      geo.sectorNbytes
  | .l geo => 2 ^ ssw = geo.nbytes ∧
    tbytes = geo.npugrp * geo.npunit * geo.nchunk * geo.nsectr * geo.nbytes

structure Taken (idfy : RawIdfy) (ns : NvmeNs) (serial : List Char) (dev : Populated) : Prop where
  geo : TakenGeo idfy ns serial dev.geo
  derived : DerivedOk dev.ssw dev.tbytes dev.geo
  quirks : dev.quirks ≠ 0 → Begins serial

/-! The quirks. -/

theorem strncmpEq_iff (a b : List Char) (n : Nat) : strncmpEq a b n = true ↔ a.take n = b.take n := by
  induction n generalizing a b with
  | zero => simp [strncmpEq]
  | succ n ih => cases a <;> cases b <;> simp [strncmpEq, ih]

/-- The comparison goes over the serial number only, so that each of its own prefixes passes. -/
theorem serial_matches_iff (serial : List Char) :
    strncmpEq quirkSerial serial (if 8 < serial.length then 8 else serial.length) = true ↔
      serial <+: quirkSerial ∨ Begins serial := by
  have hlen : quirkSerial.length = 8 := rfl
  rw [strncmpEq_iff]
  split_ifs with h
  · have hbegins : Begins serial ↔ quirkSerial = serial.take 8 := List.prefix_iff_eq_take
    rw [List.take_of_length_le hlen.le, hbegins]
    refine ⟨.inr, ?_⟩
    rintro (hp | hp)
    · exact absurd hp.length_le (by omega)
    · exact hp
  · rw [List.take_of_length_le (Nat.le_refl serial.length)]
    constructor
    · intro he
      exact .inl (List.prefix_iff_eq_take.mpr he.symm)
    · rintro (hp | hp)
      · exact (List.prefix_iff_eq_take.mp hp).symm
      · have heq := hp.eq_of_length (by have := hp.length_le; omega)
        rw [← heq, List.take_length]

theorem quirks_eq_of_not {serial : List Char} (h : ¬ (serial <+: quirkSerial ∨ Begins serial))
    (dev : Populated) : nvmBePopulateQuirks dev serial = dev := by
  rw [nvmBePopulateQuirks, if_neg (mt (serial_matches_iff serial).mp h)]

theorem quirks_g {serial : List Char} (h : serial <+: quirkSerial ∨ Begins serial) (geo : FieldsG)
    (tbytes ssw : Nat) : nvmBePopulateQuirks ⟨.g geo, tbytes, ssw, 0⟩ serial =
      ⟨Fields.patchOob (.g geo), tbytes, ssw, 0x9⟩ := by
  rw [nvmBePopulateQuirks, if_pos ((serial_matches_iff serial).mpr h)]
  have hq : (0 ||| quirkPmodeEraseRunroll ||| quirkOob2lrg : BitVec 32) = 0x9 := by decide
  dsimp only
  rw [hq, if_pos (by decide)]

theorem quirks_l {serial : List Char} (h : serial <+: quirkSerial ∨ Begins serial) (geo : FieldsL)
    (tbytes ssw : Nat) : nvmBePopulateQuirks ⟨.l geo, tbytes, ssw, 0⟩ serial =
      ⟨.l geo, tbytes, ssw, 0x5⟩ := by
  rw [nvmBePopulateQuirks, if_pos ((serial_matches_iff serial).mpr h)]
  have hq : (0 ||| quirkPmodeEraseRunroll ||| quirkOobRead1st4bytesNull : BitVec 32) = 0x5 := by decide
  dsimp only
  rw [hq, if_neg (by decide)]

theorem quirks_unchanged_iff (serial : List Char) :
    (¬ Begins serial → ∀ dev, nvmBePopulateQuirks dev serial = dev) ↔
      Begins serial ∨ ¬ serial <+: quirkSerial := by
  constructor
  · intro hsame
    by_contra hno
    rw [not_or, not_not] at hno
    have hq := congrArg Populated.quirks (hsame hno.1 ⟨.l ⟨0, 0, 0, 0, 0, 0⟩, 0, 0, 0⟩)
    rw [quirks_l (.inl hno.2)] at hq
    exact absurd hq (by decide)
  · rintro (hb | hp) hnot dev
    · exact absurd hb hnot
    · exact quirks_eq_of_not (not_or.mpr ⟨hp, hnot⟩) dev

/-! A populated device. -/

def RawIdfy.derivedG (idfy : RawIdfy) : FieldsG :=
  { idfy.fieldsG with nsectors := idfy.s12.fpgSz.toNat / idfy.s12.csecs.toNat }

theorem derived_g_of_planes {geo : FieldsG} (h : geo.nplanes = 1 ∨ geo.nplanes = 2 ∨ geo.nplanes = 4) :
    nvmBePopulateDerived (.g geo) = .ok ⟨.g { geo with nsectors := geo.pageNbytes / geo.sectorNbytes },
      geo.nchannels * geo.nluns * geo.nplanes * geo.nblocks * geo.npages *
        (geo.pageNbytes / geo.sectorNbytes) * geo.sectorNbytes % 2 ^ 64, ilog2 geo.sectorNbytes, 0⟩ :=
  if_pos h

theorem populate_s12_of_planes {idfy : RawIdfy} (ns : NvmeNs) (h12 : idfy.version = 0x1)
    (hp : NPlanesOk idfy) : ∃ tbytes, nvmBePopulate idfy ns = some (.ok
      ⟨Fields.patchOob (.g idfy.derivedG), tbytes, ilog2 idfy.s12.csecs.toNat, 0x9⟩) ∧
      tbytes = idfy.s12.numCh.toNat * idfy.s12.numLun.toNat * idfy.s12.numPln.toNat *
        idfy.s12.numBlk.toNat * idfy.s12.numPg.toNat *
        (idfy.s12.fpgSz.toNat / idfy.s12.csecs.toNat) * idfy.s12.csecs.toNat % 2 ^ 64 := by
  refine ⟨_, ?_, rfl⟩
  have hderived := derived_g_of_planes (show idfy.fieldsG.nplanes = 1 ∨ _ from hp)
  rw [nvmBePopulate, if_pos h12, hderived, Except.map, quirks_g (.inl List.nil_prefix)]
  rfl

theorem populate_s12_of_not {idfy : RawIdfy} (ns : NvmeNs) (h12 : idfy.version = 0x1)
    (hp : ¬ NPlanesOk idfy) : nvmBePopulate idfy ns = some (.error .einval) := by
  have hderived : nvmBePopulateDerived (.g idfy.fieldsG) = .error .einval := if_neg hp
  rw [nvmBePopulate, if_pos h12, hderived]
  rfl

theorem populate_s20 {idfy : RawIdfy} {ns : NvmeNs} (h20 : idfy.version = 0x2)
    (hds : ns.format.ds.toNat < 31) : ∃ tbytes, nvmBePopulate idfy ns = some (.ok
      ⟨.l (idfy.fieldsL ns (2 ^ ns.format.ds.toNat)), tbytes, ns.format.ds.toNat, 0x5⟩) ∧
      tbytes = idfy.s20.npugrp.toNat * idfy.s20.npunit.toNat * idfy.s20.nchunk.toNat *
        idfy.s20.nsectr.toNat * 2 ^ ns.format.ds.toNat % 2 ^ 64 := by
  refine ⟨_, ?_, rfl⟩
  rw [nvmBePopulate, if_neg (by rw [h20]; decide), if_pos h20, oneShl, if_pos hds, Nat.one_shiftLeft]
  have hssw : ilog2 (2 ^ ns.format.ds.toNat) = ns.format.ds.toNat := by
    rw [ilog2, ilog2Loop_two_pow, Nat.zero_add]
  simp only [Option.map_some, nvmBePopulateDerived, Except.map, quirks_l (.inl List.nil_prefix),
    RawIdfy.fieldsL, hssw]

theorem populate_s20_of_not {idfy : RawIdfy} {ns : NvmeNs} (h20 : idfy.version = 0x2)
    (hds : ¬ ns.format.ds.toNat < 31) : nvmBePopulate idfy ns = none := by
  rw [nvmBePopulate, if_neg (by rw [h20]; decide), if_pos h20, oneShl, if_neg hds, Option.map_none]

theorem taken_s12 {idfy : RawIdfy} {ns : NvmeNs} (hwf : WellFormed idfy ns) (h12 : idfy.version = 0x1)
    {serial : List Char} (hb : Begins serial) {tbytes : Nat}
    (ht : tbytes = idfy.s12.numCh.toNat * idfy.s12.numLun.toNat * idfy.s12.numPln.toNat *
        idfy.s12.numBlk.toNat * idfy.s12.numPg.toNat *
        (idfy.s12.fpgSz.toNat / idfy.s12.csecs.toNat) * idfy.s12.csecs.toNat % 2 ^ 64) :
    Taken idfy ns serial ⟨Fields.patchOob (.g idfy.derivedG), tbytes, ilog2 idfy.s12.csecs.toNat, 0x9⟩ := by
  obtain ⟨k, hk⟩ := hwf.pow h12
  have hpage := Nat.div_mul_cancel (hwf.dvd h12)
  have hssw : ilog2 idfy.s12.csecs.toNat = k := by rw [hk, ilog2, ilog2Loop_two_pow, Nat.zero_add]
  refine ⟨⟨h12, rfl, fun _ => hb⟩, ⟨hpage, ?_, ?_⟩, fun _ => hb⟩
  · rw [hssw]
    exact hk.symm
  · rw [ht]
    refine Nat.mod_eq_of_lt ?_
    rw [Nat.mul_assoc, hpage]
    exact hwf.ltG h12

theorem taken_s20 {idfy : RawIdfy} {ns : NvmeNs} (hwf : WellFormed idfy ns) (h20 : idfy.version = 0x2)
    {serial : List Char} (hb : Begins serial) {tbytes : Nat}
    (ht : tbytes = idfy.s20.npugrp.toNat * idfy.s20.npunit.toNat * idfy.s20.nchunk.toNat *
        idfy.s20.nsectr.toNat * 2 ^ ns.format.ds.toNat % 2 ^ 64) :
    Taken idfy ns serial
      ⟨.l (idfy.fieldsL ns (2 ^ ns.format.ds.toNat)), tbytes, ns.format.ds.toNat, 0x5⟩ := by
  refine ⟨⟨h20, rfl, fun _ => hb⟩, ⟨rfl, ?_⟩, fun _ => hb⟩
  rw [ht]
  exact Nat.mod_eq_of_lt (hwf.ltL h20)

theorem populate_taken_iff {idfy : RawIdfy} {ns : NvmeNs} (hwf : WellFormed idfy ns) (serial : List Char) :
    (∃ r, nvmBePopulate idfy ns = some r ∧ ∀ dev, r = .ok dev → Taken idfy ns serial dev) ↔
      (idfy.version = 0x2 → ns.format.ds.toNat < 31) ∧
        (Begins serial ∨ idfy.version = 0x1 ∧ ¬ NPlanesOk idfy) := by
  have hne : (0x1 : BitVec 8) ≠ 0x2 := by decide
  rcases hwf.supported with h12 | h20
  · rw [h12]
    by_cases hp : NPlanesOk idfy
    · obtain ⟨tbytes, heq, ht⟩ := populate_s12_of_planes ns h12 hp
      simp only [heq, hne, hp, false_implies, true_and, not_true, and_false, or_false]
      constructor
      · rintro ⟨r, hr, htaken⟩
        obtain rfl := Option.some.inj hr
        have hset : (0x9 : BitVec 32) ≠ 0 := by decide
        exact (htaken _ rfl).quirks hset
      · intro hb
        refine ⟨_, rfl, fun dev hdev => ?_⟩
        obtain rfl := Except.ok.inj hdev
        exact taken_s12 hwf h12 hb ht
    · simp only [populate_s12_of_not ns h12 hp, hne, hp, false_implies, not_false_eq_true, and_self, or_true,
        iff_true]
      exact ⟨_, rfl, fun dev hdev => nomatch hdev⟩
  · rw [h20]
    by_cases hds : ns.format.ds.toNat < 31
    · obtain ⟨tbytes, heq, ht⟩ := populate_s20 h20 hds
      simp only [heq, hne.symm, hds, implies_true, true_and, false_and, or_false]
      constructor
      · rintro ⟨r, hr, htaken⟩
        obtain rfl := Option.some.inj hr
        have hset : (0x5 : BitVec 32) ≠ 0 := by decide
        exact (htaken _ rfl).quirks hset
      · intro hb
        refine ⟨_, rfl, fun dev hdev => ?_⟩
        obtain rfl := Except.ok.inj hdev
        exact taken_s20 hwf h20 hb ht
    · simp [populate_s20_of_not h20 hds, hds]

/-! The same identification through the device that the address functions work on. -/

def RawS20.idfy (s20 : RawS20) (ns : NvmeNs) (wsOpt : Nat) (hw : wsOpt < 2 ^ 31)
    (hds : ns.format.ds.toNat < 31) : IdfyS20 where
  npugrp := s20.npugrp
  npunit := s20.npunit
  nchunk := s20.nchunk
  nsectr := s20.nsectr
  wsOpt := wsOpt
  lbaf := s20.lbaf
  ds := ns.format.ds.toNat
  ms := ns.format.ms
  wsOpt_lt := hw
  ds_lt := hds

def Fields.ofDev : Dev → Fields
  | .s12 dev => .g {
    nchannels := dev.geo.nchannels, nluns := dev.geo.nluns, nblocks := dev.geo.nblocks
    nsectors := dev.geo.nsectors, sectorNbytes := dev.geo.sectorNbytes, metaNbytes := dev.geo.metaNbytes
    nplanes := dev.geo.nplanes, npages := dev.geo.npages, pageNbytes := dev.geo.pageNbytes }
  | .s20 dev => .l {
    npugrp := dev.geo.npugrp, npunit := dev.geo.npunit, nchunk := dev.geo.nchunk
    nsectr := dev.geo.nsectr, nbytes := dev.geo.nbytes, nbytesOob := dev.geo.nbytesOob }

/-- Both models of `nvm_be_populate` accept the same identify pages with the same geometry. -/
theorem populate_geo_eq (idfy : RawIdfy) (ns : NvmeNs) {wsOpt : Nat} (hw : wsOpt < 2 ^ 31)
    (hds : ns.format.ds.toNat < 31) :
    (nvmBePopulate idfy ns).map (fun r => r.map Populated.geo) =
      some ((LightNvm.nvmBePopulate ⟨idfy.verid, idfy.s12, idfy.s20.idfy ns wsOpt hw hds⟩).map
        Fields.ofDev) := by
  set dev := LightNvm.nvmBePopulate ⟨idfy.verid, idfy.s12, idfy.s20.idfy ns wsOpt hw hds⟩
  by_cases h12 : idfy.version = 0x1
  · by_cases hp : NPlanesOk idfy
    · obtain ⟨tbytes, heq, -⟩ := populate_s12_of_planes ns h12 hp
      have hok : dev = .ok (.s12 ⟨idfy.s12.geo hp, idfy.s12.ppaf, constructPpafMask idfy.s12.ppaf,
        ilog2 idfy.s12.csecs.toNat⟩) := (if_pos h12).trans (dif_pos hp)
      rw [heq, hok]
      rfl
    · have herr : dev = .error .einval := (if_pos h12).trans (dif_neg hp)
      rw [populate_s12_of_not ns h12 hp, herr]
      rfl
  · by_cases h20 : idfy.version = 0x2
    · obtain ⟨tbytes, heq, -⟩ := populate_s20 h20 hds
      have hok : dev = .ok (.s20 ⟨(idfy.s20.idfy ns wsOpt hw hds).geo, idfy.s20.lbaf,
          (idfy.s20.idfy ns wsOpt hw hds).lbam, ilog2 (1 <<< ns.format.ds.toNat)⟩) :=
        (if_neg h12).trans (if_pos h20)
      rw [heq, hok]
      simp only [Option.map_some, Except.map, Fields.ofDev, RawIdfy.fieldsL, IdfyS20.geo, RawS20.idfy,
        Nat.one_shiftLeft]
    · have herr : dev = .error .enosys := (if_neg h12).trans (if_neg h20)
      rw [nvmBePopulate, if_neg h12, if_neg h20, herr]
      rfl

end Populate

open Populate

/-- The serial number is compared over its own length, and `nvm_be_populate` passes an empty one: no
device but those with the quirks is taken over as it identifies. -/
theorem populate_faithful_iff (idfy : RawIdfy) (ns : NvmeNs) (serial : List Char) (hwf : WellFormed idfy ns) :
    ((∃ r, Populate.nvmBePopulate idfy ns = some r ∧ ∀ dev, r = .ok dev → Taken idfy ns serial dev) ↔
      (idfy.version = 0x2 → ns.format.ds.toNat < 31) ∧
        (Begins serial ∨ idfy.version = 0x1 ∧ ¬ NPlanesOk idfy)) ∧
    ((¬ Begins serial → ∀ dev, nvmBePopulateQuirks dev serial = dev) ↔
      Begins serial ∨ ¬ serial <+: quirkSerial) :=
  ⟨populate_taken_iff hwf serial, quirks_unchanged_iff serial⟩

theorem quirkIdfy_csecs_pos : 0 < (4096 : BitVec 16).toNat := by decide

def quirkIdfy (verid : BitVec 8) (sos : BitVec 16) : RawIdfy where
  verid := verid
  s12 := {
    fpgSz := 8192, csecs := 4096, sos := sos, numCh := 2, numLun := 2, numPln := 2, numBlk := 4, numPg := 4
    ppaf := ⟨7, 1, 6, 1, 5, 1, 3, 2, 1, 2, 0, 1⟩
    csecs_pos := quirkIdfy_csecs_pos }
  s20 := ⟨2, 2, 4, 16, ⟨1, 1, 2, 4⟩⟩

def quirkNs : NvmeNs := ⟨256, 0, fun _ => ⟨16, 12⟩⟩

theorem quirkIdfy_wellFormed (sos : BitVec 16) : WellFormed (quirkIdfy 0x1 sos) quirkNs where
  supported := .inl rfl
  pow := fun _ => ⟨12, by simp [quirkIdfy]⟩
  dvd := fun _ => by simp [quirkIdfy]
  ltG := fun _ => by simp [quirkIdfy]
  ltL := fun _ => by simp [quirkIdfy, quirkNs, NvmeNs.format]

theorem populate_faithful_iff_quirk_device :
    ∃ r, Populate.nvmBePopulate (quirkIdfy 0x1 16) quirkNs = some r ∧
      ∀ dev, r = .ok dev → Taken (quirkIdfy 0x1 16) quirkNs (quirkSerial ++ ['1']) dev :=
  (populate_faithful_iff (quirkIdfy 0x1 16) quirkNs (quirkSerial ++ ['1']) (quirkIdfy_wellFormed 16)).1.mpr
    ⟨fun h => absurd h (by decide), .inl ⟨['1'], rfl⟩⟩

/-- A device of another vendor with 512 bytes of metadata in a sector is populated with 16, and an empty
serial number changes a device without quirks. -/
theorem populate_patches_any_device : WellFormed (quirkIdfy 0x1 512) quirkNs ∧ ¬ Begins ['Q', 'E', 'M', 'U'] ∧
    ¬ Begins [] ∧
    (∃ dev geo, Populate.nvmBePopulate (quirkIdfy 0x1 512) quirkNs = some (.ok dev) ∧
      ¬ Taken (quirkIdfy 0x1 512) quirkNs ['Q', 'E', 'M', 'U'] dev ∧
      dev.quirks ≠ 0 ∧ dev.geo = .g geo ∧ geo.metaNbytes = 16) ∧
    ∃ dev, nvmBePopulateQuirks dev [] ≠ dev := by
  have hother : ¬ Begins ['Q', 'E', 'M', 'U'] := by
    rw [Begins]
    decide
  have hempty : ¬ Begins [] := by
    rw [Begins]
    decide
  refine ⟨quirkIdfy_wellFormed 512, hother, hempty, ?_, ?_⟩
  · have h12 : (quirkIdfy 0x1 512).version = 0x1 := rfl
    obtain ⟨tbytes, heq, -⟩ := populate_s12_of_planes quirkNs h12 (.inr (.inl rfl))
    have hset : (0x9 : BitVec 32) ≠ 0 := by decide
    exact ⟨_, _, heq, fun htaken => hother (htaken.quirks hset), hset, rfl, rfl⟩
  · by_contra hall
    push Not at hall
    exact (quirks_unchanged_iff []).mp (fun _ => hall) |>.elim hempty fun h => h List.nil_prefix

end LightNvm
