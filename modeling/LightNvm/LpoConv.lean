import Mathlib.Logic.Equiv.Fin.Basic
import LightNvm.NocdGeo
import LightNvm.RprtArbs

/-! The chunks of a device and the entries of its chunk-information log page: `nvm_addr_gen2lpo` and
`nvm_addr_lpo2gen`. -/

namespace LightNvm

def nvmAddrLpo2gen (geo : GeoL) (lpo : Nat) : LAddr :=
  let i := lpo / descrNbytes
  { sectr := 0
    chunk := BitVec.ofNat 16 (i % geo.nchunk)
    punit := BitVec.ofNat 8 (i / geo.nchunk % geo.npunit)
    pugrp := BitVec.ofNat 8 (i / geo.nchunk / geo.npunit % geo.npugrp) }

/-! The log page. -/

abbrev GeoL.Chunk (geo : GeoL) := (Fin geo.npugrp × Fin geo.npunit) × Fin geo.nchunk

def GeoL.nentries (geo : GeoL) : Nat := geo.npugrp * geo.npunit * geo.nchunk

/-- The chunks in the order of their entries. -/
def GeoL.entry (geo : GeoL) : geo.Chunk ≃ Fin geo.nentries :=
  (finProdFinEquiv.prodCongr (.refl _)).trans finProdFinEquiv

def GeoL.addrOf (geo : GeoL) (c : geo.Chunk) : LAddr :=
  ⟨BitVec.ofNat 8 c.1.1, BitVec.ofNat 8 c.1.2, BitVec.ofNat 16 c.2, 0⟩

structure GeoL.ChunkAddr (geo : GeoL) (a : LAddr) : Prop where
  check : nvmAddrCheckL a geo = 0
  sectr : a.sectr = 0

/-- Descriptor `a.chunk` of the report on the unit of `a` and descriptor `lpo / 32` of the report on the
device are one entry of the log page: they are at one offset, commands that read both reports store the
same bytes for them, and so does the copy of NOCD. -/
structure GeoL.SameEntry (geo : GeoL) (a : LAddr) : Prop where
  inUnit : a.chunk.toNat < rprtNdescr geo (some a.unitOf)
  inDevice : nvmAddrGen2lpo geo a / descrNbytes < rprtNdescr geo none
  offset : lpoOff geo (some a.unitOf) + a.chunk.toNat * descrNbytes =
    lpoOff geo none + nvmAddrGen2lpo geo a / descrNbytes * descrNbytes
  read : ∀ ps qs, ReadsEntries (lpoOff geo (some a.unitOf)) (rprtNdescr geo (some a.unitOf)) ps →
    ReadsEntries (lpoOff geo none) (rprtNdescr geo none) qs →
    ∀ (log buf buf' : Nat → UInt8) (j : Nat), j < descrNbytes →
      Tiling.copies log buf ps (descrNbytes * a.chunk.toNat + j) =
        Tiling.copies log buf' qs (descrNbytes * (nvmAddrGen2lpo geo a / descrNbytes) + j)
  nocd : ∀ (nocd : NocdState) (ds es : List RprtDescr), nocd.dev.geo = geo →
    nvmBeNocdRprt nocd (some a.unitOf) true = some (.ok ds) →
    nvmBeNocdRprt nocd none true = some (.ok es) →
    ds[a.chunk.toNat]? = es[nvmAddrGen2lpo geo a / descrNbytes]?

section

variable {geo : GeoL}

theorem GeoL.entry_val (c : geo.Chunk) :
    (geo.entry c : Nat) = c.1.1 * geo.npunit * geo.nchunk + c.1.2 * geo.nchunk + c.2 := by
  change c.2 + geo.nchunk * (c.1.2 + geo.npunit * c.1.1) = _
  ring

theorem GeoL.entry_symm (e : Fin geo.nentries) :
    ((geo.entry.symm e).1.1 : Nat) = e / geo.nchunk / geo.npunit ∧
      ((geo.entry.symm e).1.2 : Nat) = e / geo.nchunk % geo.npunit ∧
      ((geo.entry.symm e).2 : Nat) = e % geo.nchunk :=
  ⟨rfl, rfl, rfl⟩

theorem GeoL.entry_unit (c : geo.Chunk) (hpos : 0 < geo.nchunk) :
    (geo.entry c : Nat) = geo.entry (c.1, ⟨0, hpos⟩) + c.2 := by
  rw [entry_val, entry_val, Nat.add_zero]

/-! The code. -/

theorem gen2lpo_eq (htotal : geo.nentries * descrNbytes < 2 ^ 64) {a : LAddr} {c : geo.Chunk}
    (hg : a.pugrp.toNat = c.1.1) (hu : a.punit.toNat = c.1.2) (hc : a.chunk.toNat = c.2) :
    nvmAddrGen2lpo geo a = geo.entry c * descrNbytes := by
  have hlt : (geo.entry c : Nat) * descrNbytes ≤ geo.nentries * descrNbytes :=
    Nat.mul_le_mul_right _ (geo.entry c).isLt.le
  rw [nvmAddrGen2lpo, hg, hu, hc, ← GeoL.entry_val]
  exact Nat.mod_eq_of_lt (hlt.trans_lt htotal)

theorem lpo2gen_eq (e : Fin geo.nentries) :
    nvmAddrLpo2gen geo (e * descrNbytes) = geo.addrOf (geo.entry.symm e) := by
  have hdiv : (e : Nat) * descrNbytes / descrNbytes = e := Nat.mul_div_cancel _ (by decide)
  obtain ⟨hg, hu, hc⟩ := GeoL.entry_symm e
  have hlt : (e : Nat) / geo.nchunk / geo.npunit < geo.npugrp := by
    rw [← hg]
    exact (geo.entry.symm e).1.1.isLt
  rw [nvmAddrLpo2gen, GeoL.addrOf, hg, hu, hc, hdiv, Nat.mod_eq_of_lt hlt]

def GeoL.ChunkAddr.chunk {a : LAddr} (h : geo.ChunkAddr a) : geo.Chunk :=
  have hb := nvmAddrCheckL_eq_zero.mp h.check
  ((⟨a.pugrp.toNat, hb.1⟩, ⟨a.punit.toNat, hb.2.1⟩), ⟨a.chunk.toNat, hb.2.2.1⟩)

theorem GeoL.ChunkAddr.addrOf_chunk {a : LAddr} (h : geo.ChunkAddr a) : geo.addrOf h.chunk = a := by
  have hs := h.sectr
  cases a
  simp_all [addrOf, chunk]

theorem GeoL.ChunkAddr.gen2lpo {a : LAddr} (h : geo.ChunkAddr a)
    (htotal : geo.nentries * descrNbytes < 2 ^ 64) :
    nvmAddrGen2lpo geo a = geo.entry h.chunk * descrNbytes :=
  gen2lpo_eq htotal rfl rfl rfl

theorem GeoL.ChunkAddr.unitOf {a : LAddr} (h : geo.ChunkAddr a) : geo.ChunkAddr a.unitOf := by
  obtain ⟨hg, hu, hc, hs⟩ := nvmAddrCheckL_eq_zero.mp h.check
  exact ⟨nvmAddrCheckL_eq_zero.mpr ⟨hg, hu, Nat.zero_lt_of_lt hc, hs⟩, h.sectr⟩

theorem GeoL.ChunkAddr.gen2lpo_unit {a : LAddr} (h : geo.ChunkAddr a)
    (htotal : geo.nentries * descrNbytes < 2 ^ 64) :
    nvmAddrGen2lpo geo a = nvmAddrGen2lpo geo a.unitOf + a.chunk.toNat * descrNbytes := by
  have hunit : (geo.entry h.chunk : Nat) = geo.entry h.unitOf.chunk + a.chunk.toNat :=
    GeoL.entry_unit h.chunk (Nat.zero_lt_of_lt h.chunk.2.isLt)
  rw [h.gen2lpo htotal, h.unitOf.gen2lpo htotal, hunit, Nat.add_mul]

theorem GeoL.ChunkAddr.lpo2gen_gen2lpo {a : LAddr} (h : geo.ChunkAddr a)
    (htotal : geo.nentries * descrNbytes < 2 ^ 64) :
    nvmAddrLpo2gen geo (nvmAddrGen2lpo geo a) = a := by
  rw [h.gen2lpo htotal, lpo2gen_eq, Equiv.symm_apply_apply, h.addrOf_chunk]

theorem gen2lpo_lpo2gen (htotal : geo.nentries * descrNbytes < 2 ^ 64) (hg : geo.npugrp ≤ 256)
    (hu : geo.npunit ≤ 256) (hc : geo.nchunk ≤ 65536) {lpo : Nat} (hdvd : descrNbytes ∣ lpo)
    (hlt : lpo < geo.nentries * descrNbytes) : nvmAddrGen2lpo geo (nvmAddrLpo2gen geo lpo) = lpo := by
  obtain ⟨e, rfl⟩ := hdvd
  rw [Nat.mul_comm] at hlt ⊢
  have he : e < geo.nentries := Nat.lt_of_mul_lt_mul_right hlt
  have heq := lpo2gen_eq (⟨e, he⟩ : Fin geo.nentries)
  have hgrp := (geo.entry.symm ⟨e, he⟩).1.1.isLt
  have hunit := (geo.entry.symm ⟨e, he⟩).1.2.isLt
  have hchunk := (geo.entry.symm ⟨e, he⟩).2.isLt
  rw [heq, gen2lpo_eq htotal (c := geo.entry.symm ⟨e, he⟩), Equiv.apply_symm_apply]
  · exact (BitVec.toNat_ofNat _ _).trans (Nat.mod_eq_of_lt (by omega))
  · exact (BitVec.toNat_ofNat _ _).trans (Nat.mod_eq_of_lt (by omega))
  · exact (BitVec.toNat_ofNat _ _).trans (Nat.mod_eq_of_lt (by omega))

/-! The reports. -/

theorem rprtNdescr_none (htotal : geo.nentries * descrNbytes < 2 ^ 64) :
    rprtNdescr geo none = geo.nentries := by
  have hcomm : geo.nchunk * geo.npunit * geo.npugrp = geo.nentries := by
    rw [GeoL.nentries]
    ring
  rw [rprtNdescr, hcomm]
  refine Nat.mod_eq_of_lt ((Nat.le_mul_of_pos_right _ ?_).trans_lt htotal)
  decide

theorem GeoL.ChunkAddr.gen2lpo_div {a : LAddr} (h : geo.ChunkAddr a)
    (htotal : geo.nentries * descrNbytes < 2 ^ 64) :
    nvmAddrGen2lpo geo a / descrNbytes = geo.entry h.chunk := by
  rw [h.gen2lpo htotal, Nat.mul_div_cancel _ (by decide)]

theorem GeoL.ChunkAddr.lpoOff_eq {a : LAddr} (h : geo.ChunkAddr a)
    (htotal : geo.nentries * descrNbytes < 2 ^ 64) :
    lpoOff geo (some a.unitOf) + a.chunk.toNat * descrNbytes =
      lpoOff geo none + nvmAddrGen2lpo geo a / descrNbytes * descrNbytes := by
  rw [lpoOff, lpoOff, h.gen2lpo_div htotal, Nat.zero_add, ← h.gen2lpo htotal]
  exact (h.gen2lpo_unit htotal).symm

theorem GeoL.ChunkAddr.nocd_index_eq {a : LAddr} (h : geo.ChunkAddr a)
    (htotal : geo.nentries * descrNbytes < 2 ^ 64) :
    lpoOff geo (some a.unitOf) / descrNbytes + a.chunk.toNat =
      lpoOff geo none / descrNbytes + nvmAddrGen2lpo geo a / descrNbytes := by
  have hentry : (geo.entry h.chunk : Nat) = geo.entry h.unitOf.chunk + a.chunk.toNat :=
    GeoL.entry_unit h.chunk (Nat.zero_lt_of_lt h.chunk.2.isLt)
  rw [lpoOff, lpoOff, h.unitOf.gen2lpo_div htotal, h.gen2lpo_div htotal, hentry, Nat.zero_div, Nat.zero_add]

theorem GeoL.ChunkAddr.sameEntry {a : LAddr} (h : geo.ChunkAddr a)
    (htotal : geo.nentries * descrNbytes < 2 ^ 64) : geo.SameEntry a := by
  have hin : a.chunk.toNat < rprtNdescr geo (some a.unitOf) := h.chunk.2.isLt
  have hin' : nvmAddrGen2lpo geo a / descrNbytes < rprtNdescr geo none := by
    rw [h.gen2lpo_div htotal, rprtNdescr_none htotal]
    exact (geo.entry h.chunk).isLt
  refine ⟨hin, hin', h.lpoOff_eq htotal, ?_, ?_⟩
  · intro ps qs hps hqs log buf buf' j hj
    rw [hps.descr log buf _ j hin hj, hqs.descr log buf' _ j hin' hj]
    congr 2
    rw [Nat.mul_comm, Nat.mul_comm descrNbytes]
    exact h.lpoOff_eq htotal
  · intro nocd ds es hgeo hds hes
    subst hgeo
    obtain ⟨-, rfl⟩ := nvmBeNocdRprt_eq_ok_iff.mp hds
    obtain ⟨-, rfl⟩ := nvmBeNocdRprt_eq_ok_iff.mp hes
    rw [List.getElem?_take_of_lt hin, List.getElem?_take_of_lt hin', List.getElem?_drop, List.getElem?_drop]
    congr 1
    exact h.nocd_index_eq htotal

/-- The reports of `nvm_be_ioctl_rprt` on a unit and on the device agree on each chunk. -/
theorem GeoL.ChunkAddr.ioctl_agree {a : LAddr} (h : geo.ChunkAddr a)
    (htotal : geo.npugrp * geo.npunit * geo.nchunk < 2 ^ 31) (log buf buf' : Nat → UInt8) {j : Nat}
    (hj : j < descrNbytes) :
    Tiling.copies log buf ((nvmBeIoctlRprt geo (some a.unitOf)).map IoctlGlp.piece)
        (descrNbytes * a.chunk.toNat + j) =
      Tiling.copies log buf' ((nvmBeIoctlRprt geo none).map IoctlGlp.piece)
        (descrNbytes * (nvmAddrGen2lpo geo a / descrNbytes) + j) := by
  have hbytes : geo.nentries * descrNbytes < 2 ^ 64 := by
    rw [GeoL.nentries, descrNbytes]
    omega
  obtain ⟨hgrp, hunit, -, -⟩ := nvmAddrCheckL_eq_zero.mp h.check
  have hdev : RprtOk geo none := rprtOk_none_iff.mpr htotal
  have hok : RprtOk geo (some a.unitOf) := rprtOk_some_iff.mpr ⟨htotal, hgrp, hunit, rfl, h.sectr⟩
  exact (h.sameEntry hbytes).read _ _ (ioctl_reads hok) (ioctl_reads hdev) log buf buf' j hj

/-- Offsets and chunk addresses correspond one to one, and so do the reports on a unit and on the device. -/
theorem lpo_chunk_correspondence (geo : GeoL) (htotal : geo.nentries * descrNbytes < 2 ^ 64) :
    (∀ a, geo.ChunkAddr a → nvmAddrLpo2gen geo (nvmAddrGen2lpo geo a) = a) ∧
    Set.InjOn (nvmAddrGen2lpo geo) { a | geo.ChunkAddr a } ∧
    (∀ a, geo.ChunkAddr a → descrNbytes ∣ nvmAddrGen2lpo geo a ∧
      nvmAddrGen2lpo geo a < geo.nentries * descrNbytes ∧
      nvmAddrGen2lpo geo a = nvmAddrGen2lpo geo a.unitOf + a.chunk.toNat * descrNbytes) ∧
    (geo.npugrp ≤ 256 → geo.npunit ≤ 256 → geo.nchunk ≤ 65536 → ∀ lpo, descrNbytes ∣ lpo →
      lpo < geo.nentries * descrNbytes → nvmAddrGen2lpo geo (nvmAddrLpo2gen geo lpo) = lpo) ∧
    ∀ a, geo.ChunkAddr a → geo.SameEntry a := by
  have hleft : ∀ a, geo.ChunkAddr a → nvmAddrLpo2gen geo (nvmAddrGen2lpo geo a) = a :=
    fun a ha => ha.lpo2gen_gen2lpo htotal
  refine ⟨hleft, ?_, ?_, ?_, fun a ha => ha.sameEntry htotal⟩
  · intro a ha b hb heq
    rw [← hleft a ha, heq, hleft b hb]
  · intro a ha
    refine ⟨?_, ?_, ha.gen2lpo_unit htotal⟩
    · rw [ha.gen2lpo htotal]
      exact Nat.dvd_mul_left _ _
    · rw [ha.gen2lpo htotal]
      exact Nat.mul_lt_mul_of_pos_right (geo.entry ha.chunk).isLt (by decide)
  · exact fun hg hu hc lpo hdvd hlt => gen2lpo_lpo2gen htotal hg hu hc hdvd hlt

end

theorem lpo_chunk_correspondence_last :
    let geo := reportGeo 8 4 5000
    nvmAddrGen2lpo geo ⟨7, 3, 4999, 0⟩ = 5119968 ∧
    nvmAddrLpo2gen geo (nvmAddrGen2lpo geo ⟨7, 3, 4999, 0⟩) = ⟨7, 3, 4999, 0⟩ ∧
    nvmAddrGen2lpo geo (nvmAddrLpo2gen geo 5119968) = 5119968 ∧ geo.SameEntry ⟨7, 3, 4999, 0⟩ := by
  intro geo
  have ha : geo.ChunkAddr ⟨7, 3, 4999, 0⟩ := ⟨by decide, rfl⟩
  obtain ⟨hleft, -, -, hright, hsame⟩ := lpo_chunk_correspondence geo (by decide)
  refine ⟨by decide, hleft _ ha, ?_, hsame _ ha⟩
  exact hright (by decide) (by decide) (by decide) _ (by decide) (by decide)

end LightNvm
