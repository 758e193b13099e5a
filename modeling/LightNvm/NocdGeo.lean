import Mathlib.Data.Set.Function
import Mathlib.Order.Interval.Set.Basic
import LightNvm.ChunkReport
import LightNvm.Populate

/-! The geometry that the NOCD backend makes up for a namespace without open channels, and the chunk
descriptors that it keeps for it. -/

namespace LightNvm

open Populate (NvmeNs)

theorem nocdWsOpt_lt : 4 < 2 ^ 31 := by decide

def nocdIdfyS20 (ns : NvmeNs) (h : ns.format.ds.toNat < 31) : IdfyS20 :=
  let lbaByts := 1 <<< ns.format.ds.toNat
  let ncapByts := ns.ncap.toNat * lbaByts % 2 ^ 64
  { npugrp := 1
    npunit := 1
    nsectr := 4096
    nchunk := BitVec.ofNat 32 (ncapByts / (4096 * lbaByts % 2 ^ 64))
    wsOpt := 4
    lbaf := ⟨1, 1, 16, 12⟩
    ds := ns.format.ds.toNat
    ms := ns.format.ms
    wsOpt_lt := nocdWsOpt_lt
    ds_lt := h }

/-- Nothing reads the page as one of an OCSSD 1.2 device. There is no outcome where C defines none for
`1 << ds`. -/
def nvmBeNocdIdfy (ns : NvmeNs) (s12 : IdfyS12) (alloc : Bool) : Option (Except Errno Idfy) :=
  if h : ns.format.ds.toNat < 31 then
    some (if alloc then .ok ⟨0x2, s12, nocdIdfyS20 ns h⟩ else .error .enomem)
  else none

structure RprtDescr where
  cs : BitVec 8
  ct : BitVec 8
  wli : BitVec 8
  addr : BitVec 64
  naddrs : BitVec 64
  wp : BitVec 64

def chunkStateFree : BitVec 8 := 0x1 <<< 0

def chunkTypeArwr : BitVec 8 := 0x1 <<< 1

/-- `addr.l.chunk = idx` keeps 16 bits of the index. -/
def nocdDescr (dev : DevL) (idx : Nat) : RprtDescr where
  cs := chunkStateFree
  ct := chunkTypeArwr
  wli := 0
  addr := nvmAddrGen2devL dev.lbaf ⟨0, 0, BitVec.ofNat 16 idx, 0⟩
  naddrs := BitVec.ofNat 64 dev.geo.nsectr
  wp := 0

def nvmBeNocdReinit (dev : DevL) (alloc : Bool) : Except Errno (List RprtDescr) :=
  let ndescr := dev.geo.npugrp * dev.geo.npunit * dev.geo.nchunk % 2 ^ 64
  let nbytes := ndescr * descrNbytes % 2 ^ 64
  if ndescr = 0 ∨ nbytes = 0 then .error .einval
  else if alloc then .ok ((List.range (ndescr % 2 ^ 32)).map (nocdDescr dev))
  else .error .enomem

structure NocdState where
  dev : DevL
  descr : List RprtDescr

def nvmBeNocdOpen (ns : NvmeNs) (s12 : IdfyS12) (idfyAlloc stateAlloc : Bool) :
    Option (Except Errno NocdState) :=
  (nvmBeNocdIdfy ns s12 idfyAlloc).map fun r => do
    let idfy ← r
    match ← nvmBePopulate idfy with
    | .s12 _ => .error .einval
    | .s20 dev => (nvmBeNocdReinit dev stateAlloc).map fun descr => ⟨dev, descr⟩

/-- `nvm_be_nocd_rprt`; there is no outcome when `memcpy` reads behind the descriptors. -/
def nvmBeNocdRprt (nocd : NocdState) (addr : Option LAddr) (alloc : Bool) :
    Option (Except Errno (List RprtDescr)) :=
  let idx := lpoOff nocd.dev.geo addr / descrNbytes
  let ndescr := rprtNdescr nocd.dev.geo addr
  if !alloc then some (.error .enomem)
  else if idx + ndescr ≤ nocd.descr.length then some (.ok ((nocd.descr.drop idx).take ndescr))
  else none

/-! What the backend is for. -/

def RprtDescr.extent (d : RprtDescr) : Set Nat := Set.Ico d.addr.toNat (d.addr.toNat + d.naddrs.toNat)

def NocdState.lba (nocd : NocdState) (a : LAddr) : Nat := (nvmAddrGen2devL nocd.dev.lbaf a).toNat

def NocdState.lbas (nocd : NocdState) : Set Nat := Set.Iio (nocd.dev.geo.nchunk * 4096)

structure NocdState.DescrCover (nocd : NocdState) (descr : List RprtDescr) : Prop where
  disjoint : descr.Pairwise fun d e => ∀ l ∈ d.extent, l ∉ e.extent
  cover : ∀ l, l ∈ nocd.lbas ↔ ∃ d ∈ descr, l ∈ d.extent
  chunk : ∀ i d, descr[i]? = some d → ∃ a, nvmAddrCheckL a nocd.dev.geo = 0 ∧ a.chunk.toNat = i ∧
    a.sectr = 0 ∧ d.addr = nvmAddrGen2devL nocd.dev.lbaf a

structure NocdState.Covers (nocd : NocdState) (ns : NvmeNs) : Prop where
  bijOn : Set.BijOn nocd.lba { a | nvmAddrCheckL a nocd.dev.geo = 0 } nocd.lbas
  below : ∀ l ∈ nocd.lbas, l < ns.ncap.toNat
  table : nocd.DescrCover nocd.descr
  rprt : ∀ addr : Option LAddr, (∀ a ∈ addr, a.pugrp = 0 ∧ a.punit = 0 ∧ a.chunk = 0) →
    ∃ descr, nvmBeNocdRprt nocd addr true = some (.ok descr) ∧ nocd.DescrCover descr

/-! The addresses of the synthetic geometry. -/

/-- The device that `nvm_be_populate` makes of the synthetic identify page, with `m` chunks. -/
structure NocdShape (dev : DevL) (m : Nat) : Prop where
  npugrp : dev.geo.npugrp = 1
  npunit : dev.geo.npunit = 1
  nchunk : dev.geo.nchunk = m
  nsectr : dev.geo.nsectr = 4096
  lbaf : dev.lbaf = ⟨1, 1, 16, 12⟩

theorem gen2dev_nocd {a : LAddr} (hg : a.pugrp = 0) (hu : a.punit = 0) (hs : a.sectr.toNat < 4096) :
    (nvmAddrGen2devL ⟨1, 1, 16, 12⟩ a).toNat = a.chunk.toNat * 4096 + a.sectr.toNat := by
  -- every chunk that the 16 bits can name
  let geo : GeoL := ⟨1, 1, 2 ^ 16, 4096, 1, 0, 0, by decide, by decide, by decide⟩
  have hfits : Lbaf.Fits ⟨1, 1, 16, 12⟩ geo :=
    ⟨by decide, by decide, Nat.le_refl _, by decide, by decide⟩
  have hcheck : nvmAddrCheckL a geo = 0 := by
    refine nvmAddrCheckL_eq_zero.mpr ⟨?_, ?_, a.chunk.isLt, hs⟩
    · rw [hg]
      decide
    · rw [hu]
      decide
  rw [toNat_gen2devL hfits hcheck, Lbaf.chunkNo, hg, hu]
  simp

theorem toNat_chunk {i : Nat} (hi : i < 65536) : (BitVec.ofNat 16 i).toNat = i := by
  rw [BitVec.toNat_ofNat]
  exact Nat.mod_eq_of_lt hi

section

variable {dev : DevL} {m : Nat}

theorem NocdShape.check_iff (h : NocdShape dev m) {a : LAddr} : nvmAddrCheckL a dev.geo = 0 ↔
    a.pugrp = 0 ∧ a.punit = 0 ∧ a.chunk.toNat < m ∧ a.sectr.toNat < 4096 := by
  have hzero : ∀ x : BitVec 8, x.toNat < 1 ↔ x = 0 := by
    intro x
    rw [Nat.lt_one_iff]
    exact ⟨fun hx => BitVec.eq_of_toNat_eq hx, fun hx => by rw [hx]; rfl⟩
  rw [nvmAddrCheckL_eq_zero, h.npugrp, h.npunit, h.nchunk, h.nsectr, hzero, hzero]

theorem NocdShape.lba_eq (h : NocdShape dev m) {descr : List RprtDescr} {a : LAddr}
    (ha : nvmAddrCheckL a dev.geo = 0) :
    NocdState.lba ⟨dev, descr⟩ a = a.chunk.toNat * 4096 + a.sectr.toNat := by
  obtain ⟨hg, hu, -, hs⟩ := h.check_iff.mp ha
  rw [NocdState.lba, h.lbaf, gen2dev_nocd hg hu hs]

theorem NocdShape.bijOn (h : NocdShape dev m) (hm : m ≤ 65536) (descr : List RprtDescr) :
    Set.BijOn (NocdState.lba ⟨dev, descr⟩) { a | nvmAddrCheckL a dev.geo = 0 }
      (NocdState.lbas ⟨dev, descr⟩) := by
  refine ⟨fun a ha => ?_, fun a ha b hb hab => ?_, fun l hl => ?_⟩
  · obtain ⟨-, -, hc, hs⟩ := h.check_iff.mp ha
    simp only [NocdState.lbas, Set.mem_Iio, h.lba_eq ha, h.nchunk]
    omega
  · obtain ⟨hga, hua, -, hsa⟩ := h.check_iff.mp ha
    obtain ⟨hgb, hub, -, hsb⟩ := h.check_iff.mp hb
    rw [h.lba_eq ha, h.lba_eq hb] at hab
    have hc : a.chunk = b.chunk := BitVec.eq_of_toNat_eq (by omega)
    have hs : a.sectr = b.sectr := BitVec.eq_of_toNat_eq (by omega)
    cases a
    cases b
    simp_all
  · have hl : l < m * 4096 := by simpa only [NocdState.lbas, Set.mem_Iio, h.nchunk] using hl
    have hc : (BitVec.ofNat 16 (l / 4096)).toNat = l / 4096 := toNat_chunk (by omega)
    have hs : (BitVec.ofNat 32 (l % 4096)).toNat = l % 4096 := by
      rw [BitVec.toNat_ofNat]
      exact Nat.mod_eq_of_lt (by omega)
    have ha : nvmAddrCheckL ⟨0, 0, BitVec.ofNat 16 (l / 4096), BitVec.ofNat 32 (l % 4096)⟩ dev.geo = 0 :=
      h.check_iff.mpr ⟨rfl, rfl, hc.trans_lt (by omega), hs.trans_lt (by omega)⟩
    refine ⟨_, ha, ?_⟩
    rw [h.lba_eq ha]
    dsimp only
    rw [hc, hs]
    omega

/-- The 16 bits of a chunk reach no further than 65536 chunks. -/
theorem NocdShape.le_of_surjOn (h : NocdShape dev m) {descr : List RprtDescr}
    (hs : Set.SurjOn (NocdState.lba ⟨dev, descr⟩) { a | nvmAddrCheckL a dev.geo = 0 }
      (NocdState.lbas ⟨dev, descr⟩)) : m ≤ 65536 := by
  by_contra hlt
  have hmem : 65536 * 4096 ∈ NocdState.lbas ⟨dev, descr⟩ := by
    simp only [NocdState.lbas, Set.mem_Iio, h.nchunk]
    omega
  obtain ⟨a, ha, hl⟩ := hs hmem
  obtain ⟨-, -, -, hsect⟩ := h.check_iff.mp ha
  rw [h.lba_eq ha] at hl
  have := a.chunk.isLt
  omega

/-! The descriptors. -/

theorem NocdShape.descr_extent (h : NocdShape dev m) {i : Nat} (hi : i < 65536) :
    (nocdDescr dev i).extent = Set.Ico (i * 4096) (i * 4096 + 4096) := by
  have hsectr : (0 : BitVec 32).toNat < 4096 := by decide
  have haddr : (nocdDescr dev i).addr.toNat = i * 4096 := by
    rw [nocdDescr, h.lbaf, gen2dev_nocd rfl rfl hsectr]
    dsimp only
    rw [toNat_chunk hi]
    simp
  have hnaddrs : (nocdDescr dev i).naddrs.toNat = 4096 := by
    rw [nocdDescr, h.nsectr]
    rfl
  rw [RprtDescr.extent, haddr, hnaddrs]

theorem NocdShape.descrCover (h : NocdShape dev m) (hm : m ≤ 65536) (descr : List RprtDescr) :
    NocdState.DescrCover ⟨dev, descr⟩ ((List.range m).map (nocdDescr dev)) where
  disjoint := by
    rw [List.pairwise_map]
    refine List.Pairwise.imp_of_mem ?_ List.pairwise_lt_range
    intro i j hi hj hij
    have hi := List.mem_range.mp hi
    have hj := List.mem_range.mp hj
    rw [h.descr_extent (by omega), h.descr_extent (by omega)]
    intro l hl hl'
    rw [Set.mem_Ico] at hl hl'
    omega
  cover := by
    intro l
    simp only [NocdState.lbas, Set.mem_Iio, h.nchunk]
    constructor
    · intro hl
      have hlt : l / 4096 < m := by omega
      refine ⟨nocdDescr dev (l / 4096), List.mem_map.mpr ⟨_, List.mem_range.mpr hlt, rfl⟩, ?_⟩
      rw [h.descr_extent (by omega), Set.mem_Ico]
      omega
    · rintro ⟨d, hd, hl⟩
      obtain ⟨i, hi, rfl⟩ := List.mem_map.mp hd
      have hi := List.mem_range.mp hi
      rw [h.descr_extent (by omega), Set.mem_Ico] at hl
      omega
  chunk := by
    intro i d hd
    obtain ⟨j, hj, rfl⟩ := Option.map_eq_some_iff.mp (List.getElem?_map.symm.trans hd)
    obtain ⟨hlt, rfl⟩ := List.getElem?_eq_some_iff.mp hj
    rw [List.length_range] at hlt
    have hchunk : (BitVec.ofNat 16 i).toNat = i := toNat_chunk (by omega)
    have hsectr : (0 : BitVec 32).toNat < 4096 := by decide
    refine ⟨⟨0, 0, BitVec.ofNat 16 i, 0⟩, ?_, hchunk, rfl, ?_⟩
    · exact h.check_iff.mpr ⟨rfl, rfl, hchunk.trans_lt hlt, hsectr⟩
    · rw [List.getElem_range]
      rfl

theorem nvmBeNocdRprt_eq_ok_iff {nocd : NocdState} {addr : Option LAddr} {ds : List RprtDescr} :
    nvmBeNocdRprt nocd addr true = some (.ok ds) ↔
      lpoOff nocd.dev.geo addr / descrNbytes + rprtNdescr nocd.dev.geo addr ≤ nocd.descr.length ∧
        (nocd.descr.drop (lpoOff nocd.dev.geo addr / descrNbytes)).take (rprtNdescr nocd.dev.geo addr) = ds := by
  rw [nvmBeNocdRprt, if_neg (by decide)]
  split_ifs with hle
  · simp [hle]
  · simp [hle]

theorem NocdShape.rprt_eq (h : NocdShape dev m) (hm : m < 2 ^ 32) {descr : List RprtDescr}
    (hlen : descr.length = m) {addr : Option LAddr}
    (ha : ∀ a ∈ addr, a.pugrp = 0 ∧ a.punit = 0 ∧ a.chunk = 0) :
    nvmBeNocdRprt ⟨dev, descr⟩ addr true = some (.ok descr) := by
  have hidx : lpoOff dev.geo addr = 0 := by
    cases addr with
    | none => rfl
    | some a =>
      obtain ⟨hg, hu, hc⟩ := ha a rfl
      rw [lpoOff, nvmAddrGen2lpo, hg, hu, hc]
      simp
  have hnd : rprtNdescr dev.geo addr = m := by
    cases addr with
    | none =>
      rw [rprtNdescr, h.npugrp, h.npunit, h.nchunk, Nat.mul_one, Nat.mul_one]
      exact Nat.mod_eq_of_lt (by omega)
    | some a => exact h.nchunk
  have htake : (descr.drop 0).take m = descr := by
    rw [List.drop_zero]
    exact List.take_of_length_le hlen.le
  rw [nvmBeNocdRprt_eq_ok_iff, hidx, hnd, Nat.zero_div, Nat.zero_add]
  exact ⟨hlen.ge, htake⟩

theorem NocdShape.covers_iff (h : NocdShape dev m) (hm : m < 2 ^ 32) {ns : NvmeNs}
    (hcap : m * 4096 ≤ ns.ncap.toNat) :
    NocdState.Covers ⟨dev, (List.range m).map (nocdDescr dev)⟩ ns ↔ m ≤ 65536 := by
  constructor
  · intro hcov
    exact h.le_of_surjOn hcov.bijOn.surjOn
  · intro hle
    refine ⟨h.bijOn hle _, fun l hl => ?_, h.descrCover hle _, fun addr ha => ?_⟩
    · have hlt : l < m * 4096 := by simpa only [NocdState.lbas, Set.mem_Iio, h.nchunk] using hl
      omega
    · exact ⟨_, h.rprt_eq hm (by simp) ha, h.descrCover hle _⟩

end

/-! Opening the device. -/

/-- The number of chunks, as the 32 bits of the identify page hold it. -/
def NvmeNs.chunks (ns : NvmeNs) : Nat := ns.ncap.toNat / 4096 % 2 ^ 32

theorem NocdShape.reinit_eq {dev : DevL} {m : Nat} (h : NocdShape dev m) (hm : m < 2 ^ 32) (alloc : Bool) :
    nvmBeNocdReinit dev alloc = if m = 0 then .error .einval
      else if alloc then .ok ((List.range m).map (nocdDescr dev)) else .error .enomem := by
  have hnd : 1 * 1 * m % 2 ^ 64 = m := by
    rw [Nat.one_mul]
    exact Nat.mod_eq_of_lt (by omega)
  have hnb : m * descrNbytes % 2 ^ 64 = m * 32 := Nat.mod_eq_of_lt (by rw [descrNbytes]; omega)
  have hzero : m = 0 ∨ m * 32 = 0 ↔ m = 0 := by omega
  rw [nvmBeNocdReinit, h.npugrp, h.npunit, h.nchunk, hnd, hnb, Nat.mod_eq_of_lt hm]
  simp only [hzero]

/-- The capacity and the size of a chunk are both counted in bytes, which cancels out. -/
theorem nocd_nchunk {ncap ds : Nat} (hds : ds < 31) (hcap : ncap * 2 ^ ds < 2 ^ 64) :
    ncap * 2 ^ ds % 2 ^ 64 / (4096 * 2 ^ ds % 2 ^ 64) = ncap / 4096 := by
  have hpow : 2 ^ ds < 2 ^ 31 := Nat.pow_lt_pow_right (by decide) hds
  rw [Nat.mod_eq_of_lt hcap, Nat.mod_eq_of_lt (by omega)]
  exact Nat.mul_div_mul_right _ _ (Nat.two_pow_pos ds)

theorem nocdOpen_eq {ns : NvmeNs} (s12 : IdfyS12) (hds : ns.format.ds.toNat < 31)
    (hcap : ns.ncap.toNat * 2 ^ ns.format.ds.toNat < 2 ^ 64) : ∃ dev, NocdShape dev (NvmeNs.chunks ns) ∧
      ∀ idfyAlloc stateAlloc, nvmBeNocdOpen ns s12 idfyAlloc stateAlloc =
        some (if idfyAlloc then (nvmBeNocdReinit dev stateAlloc).map fun descr => ⟨dev, descr⟩
          else .error .enomem) := by
  let s20 := nocdIdfyS20 ns hds
  refine ⟨⟨s20.geo, s20.lbaf, s20.lbam, ilog2 (1 <<< s20.ds)⟩, ?_, fun idfyAlloc stateAlloc => ?_⟩
  · refine ⟨rfl, rfl, ?_, rfl, rfl⟩
    dsimp only [IdfyS20.geo, s20, nocdIdfyS20]
    rw [Nat.one_shiftLeft, nocd_nchunk hds hcap, BitVec.toNat_ofNat, NvmeNs.chunks]
  · rw [nvmBeNocdOpen, nvmBeNocdIdfy, dif_pos hds, Option.map_some]
    cases idfyAlloc
    · rfl
    · rfl

/-- Whenever its allocations succeed, the backend opens a device that covers its namespace. -/
def NocdOpens (ns : NvmeNs) (s12 : IdfyS12) (idfyAlloc stateAlloc : Bool) : Prop :=
  ∃ r, nvmBeNocdOpen ns s12 idfyAlloc stateAlloc = some r ∧
    (idfyAlloc = true → stateAlloc = true → ∃ nocd, r = .ok nocd ∧ nocd.Covers ns)

/-- A chunk is named by 16 bits, also where the namespace has more of them. -/
theorem nocd_covers_iff (ns : NvmeNs) (s12 : IdfyS12) (idfyAlloc stateAlloc : Bool)
    (hcap : ns.ncap.toNat * 2 ^ ns.format.ds.toNat < 2 ^ 64) :
    NocdOpens ns s12 idfyAlloc stateAlloc ↔ ns.format.ds.toNat < 31 ∧
      (idfyAlloc = true → stateAlloc = true → NvmeNs.chunks ns ≠ 0 ∧ NvmeNs.chunks ns ≤ 65536) := by
  by_cases hds : ns.format.ds.toNat < 31
  · obtain ⟨dev, hshape, hopen⟩ := nocdOpen_eq s12 hds hcap
    have hlt : NvmeNs.chunks ns < 2 ^ 32 := Nat.mod_lt _ (by decide)
    have hle : NvmeNs.chunks ns ≤ ns.ncap.toNat / 4096 := Nat.mod_le _ _
    have hcov := hshape.covers_iff hlt (show NvmeNs.chunks ns * 4096 ≤ ns.ncap.toNat by omega)
    rw [NocdOpens, hopen]
    simp only [hds, true_and, Option.some.injEq, exists_eq_left']
    refine imp_congr_right fun hidfy => imp_congr_right fun hstate => ?_
    rw [if_pos hidfy, hshape.reinit_eq hlt, hstate]
    by_cases hzero : NvmeNs.chunks ns = 0
    · simp [hzero, Except.map]
    · rw [if_neg hzero, if_pos rfl, ← hcov]
      simp [hzero, Except.map]
  · have hnone : nvmBeNocdOpen ns s12 idfyAlloc stateAlloc = none := by
      rw [nvmBeNocdOpen, nvmBeNocdIdfy, dif_neg hds, Option.map_none]
    rw [NocdOpens, hnone]
    simp [hds]

def nocdNs (ncap : BitVec 64) : NvmeNs := ⟨ncap, 0, fun _ => ⟨0, 12⟩⟩

theorem nocd_covers_iff_two_chunks : NocdOpens (nocdNs 8192) (smallIdfy 0x1).s12 true true := by
  refine (nocd_covers_iff (nocdNs 8192) (smallIdfy 0x1).s12 true true ?_).mpr ⟨?_, fun _ _ => ?_⟩
  · simp [nocdNs, NvmeNs.format]
  · simp [nocdNs, NvmeNs.format]
  · simp [nocdNs, NvmeNs.chunks]

/-- A namespace with one chunk more than 16 bits name: nothing maps to the last chunk, and its
descriptor is that of the first. -/
theorem nocd_last_chunk_unreachable : ∃ nocd,
    nvmBeNocdOpen (nocdNs (65537 * 4096)) (smallIdfy 0x1).s12 true true = some (.ok nocd) ∧
      nocd.dev.geo.nchunk = 65537 ∧ ¬ nocd.Covers (nocdNs (65537 * 4096)) ∧
      nocd.descr[65536]? = nocd.descr[0]? := by
  have hchunks : NvmeNs.chunks (nocdNs (65537 * 4096)) = 65537 := by simp [nocdNs, NvmeNs.chunks]
  have hncap : (nocdNs (65537 * 4096)).ncap.toNat = 65537 * 4096 := by simp [nocdNs]
  obtain ⟨dev, hshape, hopen⟩ := nocdOpen_eq (smallIdfy 0x1).s12
    (show (nocdNs (65537 * 4096)).format.ds.toNat < 31 by simp [nocdNs, NvmeNs.format])
    (by simp [nocdNs, NvmeNs.format])
  rw [hchunks] at hshape
  refine ⟨⟨dev, (List.range 65537).map (nocdDescr dev)⟩, ?_, hshape.nchunk, ?_, ?_⟩
  · rw [hopen, hshape.reinit_eq (by decide)]
    rfl
  · rw [hshape.covers_iff (by decide) (by rw [hncap])]
    decide
  · rw [List.getElem?_map, List.getElem?_map, List.getElem?_range (by decide), List.getElem?_range (by decide)]
    rfl

end LightNvm
