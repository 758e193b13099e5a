import LightNvm.AddrFormat
import LightNvm.FlatArray

/-! Vector reads and writes of the NOCD backend, which it makes of scalar commands:
`nvm_be_nocd_vector_write` and `nvm_be_nocd_vector_read`. -/

namespace LightNvm

open FlatArray (store load)

structure NocdDev where
  geo : GeoL
  lbaf : Lbaf
  fits : lbaf.Fits geo

structure NocdDev.Media (d : NocdDev) where
  data : FlatArray.Media Nat UInt8 d.geo.nbytes
  md : FlatArray.Media Nat UInt8 d.geo.nbytesOob

structure NocdBufs where
  data : Nat → UInt8
  md : Option (Nat → UInt8)

/-- A call of `nvm_be_spdk_scalar_write` or `nvm_be_spdk_scalar_read`: the start address, the
number of sectors, and where its pointers point into the caller's buffers. -/
structure ScalarCmd where
  addr : LAddr
  naddrs : Nat
  dataOff : Nat
  metaOff : Nat

def NocdDev.lba (d : NocdDev) (a : LAddr) : Nat := (nvmAddrGen2devL d.lbaf a).toNat

def ScalarCmd.writes (d : NocdDev) {nb : Nat} (buf : Nat → UInt8) (off : Nat) (c : ScalarCmd) :
    List (Nat × (Fin nb → UInt8)) :=
  (List.range c.naddrs).map fun i => (d.lba c.addr + i, fun j => buf (off + (i * nb + j)))

def ScalarCmd.reads (d : NocdDev) (nb off : Nat) (c : ScalarCmd) : List (Nat × Nat) :=
  (List.range c.naddrs).map fun i => (d.lba c.addr + i, off + i * nb)

/-- The test for a contiguous list looks at the sectors only. -/
def contig : List LAddr → Bool
  | a :: b :: addrs => b.sectr.toNat = a.sectr.toNat + 1 && contig (b :: addrs)
  | _ => true

/-- The scalar commands for a list of addresses. The loop of the split path advances
`cdata` and `cmeta` but hands `data` and `meta` to every command. -/
def nocdVectorCmds (addrs : List LAddr) (async : Bool) : Except Errno (List ScalarCmd) :=
  if contig addrs then .ok [⟨addrs.headD ⟨0, 0, 0, 0⟩, addrs.length, 0, 0⟩]
  else if async then .error .enosys
  else .ok (addrs.map fun a => ⟨a, 1, 0, 0⟩)

def NocdDev.scalarWrites (d : NocdDev) (cmds : List ScalarCmd) (b : NocdBufs) (m : d.Media) : d.Media where
  data := store m.data (cmds.flatMap fun c => c.writes d b.data c.dataOff)
  md := match b.md with
    | some md => store m.md (cmds.flatMap fun c => c.writes d md c.metaOff)
    | none => m.md

def NocdDev.scalarReads (d : NocdDev) (cmds : List ScalarCmd) (m : d.Media) (b : NocdBufs) : NocdBufs where
  data := load m.data b.data (cmds.flatMap fun c => c.reads d d.geo.nbytes c.dataOff)
  md := b.md.map fun md => load m.md md (cmds.flatMap fun c => c.reads d d.geo.nbytesOob c.metaOff)

theorem NocdDev.scalarReads_data (d : NocdDev) (cmds : List ScalarCmd) (m : d.Media) (b : NocdBufs) :
    (d.scalarReads cmds m b).data =
      load m.data b.data (cmds.flatMap fun c => c.reads d d.geo.nbytes c.dataOff) := rfl

def nocdVectorWrite (d : NocdDev) (addrs : List LAddr) (async : Bool) (b : NocdBufs) (m : d.Media) :
    Except Errno d.Media :=
  (nocdVectorCmds addrs async).map fun cmds => d.scalarWrites cmds b m

def nocdVectorRead (d : NocdDev) (addrs : List LAddr) (async : Bool) (m : d.Media) (b : NocdBufs) :
    Except Errno NocdBufs :=
  (nocdVectorCmds addrs async).map fun cmds => d.scalarReads cmds m b

/-! Vector commands as a device that has them executes them: one slot for one address. -/

def NocdDev.slots (d : NocdDev) {nb : Nat} (addrs : List LAddr) (buf : Nat → UInt8) :
    List (Nat × (Fin nb → UInt8)) :=
  addrs.mapIdx fun i a => (d.lba a, fun j => buf (i * nb + j))

def NocdDev.WriteFaithful (d : NocdDev) (addrs : List LAddr) : Prop :=
  ∀ (b : NocdBufs) (m : d.Media), ∃ m', nocdVectorWrite d addrs false b m = .ok m' ∧
    m'.data = store m.data (d.slots addrs b.data) ∧
    m'.md = b.md.elim m.md fun md => store m.md (d.slots addrs md)

def NocdDev.ReadFaithful (d : NocdDev) (addrs : List LAddr) : Prop :=
  ∀ (m : d.Media) (b : NocdBufs), ∃ b', nocdVectorRead d addrs false m b = .ok b' ∧
    (∀ i a, addrs[i]? = some a → ∀ j : Fin d.geo.nbytes,
      b'.data (i * d.geo.nbytes + j) = m.data (d.lba a) j) ∧
    b'.md.isSome = b.md.isSome ∧ ∀ md, b'.md = some md → ∀ i a, addrs[i]? = some a →
      ∀ j : Fin d.geo.nbytesOob, md (i * d.geo.nbytesOob + j) = m.md (d.lba a) j

/-- Consecutive sectors of one chunk. -/
def SectorRun (addrs : List LAddr) : Prop :=
  addrs.IsChain fun a b => b.chunkOf = a.chunkOf ∧ b.sectr.toNat = a.sectr.toNat + 1

theorem contig_iff {addrs : List LAddr} :
    contig addrs = true ↔ addrs.IsChain fun a b => b.sectr.toNat = a.sectr.toNat + 1 := by
  induction addrs with
  | nil => simp [contig]
  | cons a addrs ih =>
    cases addrs with
    | nil => simp [contig]
    | cons b addrs => rw [contig, Bool.and_eq_true, decide_eq_true_iff, ih, List.isChain_cons_cons]

theorem isChain_count {α : Type*} {g : α → Nat} {as : List α} {a : α}
    (h : (a :: as).IsChain fun x y => g y = g x + 1) {i : Nat} {x : α} (hx : (a :: as)[i]? = some x) :
    g x = g a + i := by
  induction as generalizing a i with
  | nil =>
    cases i with
    | zero => simp_all
    | succ i => simp at hx
  | cons b as ih =>
    rw [List.isChain_cons_cons] at h
    cases i with
    | zero => simp_all
    | succ i =>
      rw [List.getElem?_cons_succ] at hx
      rw [ih h.2 hx, h.1]
      omega

section

variable {d : NocdDev} {a : LAddr} {as : List LAddr}

theorem sectorRun_iff (hgeo : ∀ x ∈ a :: as, nvmAddrCheckL x d.geo = 0) :
    SectorRun (a :: as) ↔
      contig (a :: as) = true ∧ ∀ i x, (a :: as)[i]? = some x → d.lba x = d.lba a + i := by
  have hlba : ∀ x ∈ a :: as, d.lba x = d.lbaf.chunkNo x * 2 ^ d.lbaf.sectr + x.sectr.toNat :=
    fun x hx => toNat_gen2devL d.fits (hgeo x hx)
  constructor
  · intro h
    have hchain : (a :: as).IsChain fun x y => d.lba y = d.lba x + 1 := by
      rw [SectorRun, List.isChain_iff_getElem] at h
      rw [List.isChain_iff_getElem]
      intro i hi
      obtain ⟨hchunk, hsectr⟩ := h i hi
      rw [hlba _ (List.getElem_mem _), hlba _ (List.getElem_mem _), chunkNo_congr hchunk, hsectr,
        Nat.add_assoc]
    exact ⟨contig_iff.mpr (h.imp fun _ _ hxy => hxy.2), fun i x hx => isChain_count hchain hx⟩
  · rintro ⟨hcontig, hcount⟩
    rw [contig_iff, List.isChain_iff_getElem] at hcontig
    rw [SectorRun, List.isChain_iff_getElem]
    intro i hi
    have hsectr := hcontig i hi
    have h₁ := hcount i _ (List.getElem?_eq_getElem (by omega))
    have h₂ := hcount (i + 1) _ (List.getElem?_eq_getElem hi)
    rw [hlba _ (List.getElem_mem _)] at h₁ h₂
    have hmul : d.lbaf.chunkNo (a :: as)[i + 1] * 2 ^ d.lbaf.sectr =
        d.lbaf.chunkNo (a :: as)[i] * 2 ^ d.lbaf.sectr := by omega
    refine ⟨chunkNo_inj d.fits (hgeo _ (List.getElem_mem _)) (hgeo _ (List.getElem_mem _)) ?_, hsectr⟩
    exact Nat.eq_of_mul_eq_mul_right (Nat.two_pow_pos _) hmul

theorem nocdVectorCmds_contig (hc : contig (a :: as) = true) (async : Bool) :
    nocdVectorCmds (a :: as) async = .ok [⟨a, as.length + 1, 0, 0⟩] := by
  rw [nocdVectorCmds, if_pos hc]
  rfl

theorem nocdVectorCmds_split (hc : contig (a :: as) = false) :
    nocdVectorCmds (a :: as) false = .ok ((a :: as).map fun x => ⟨x, 1, 0, 0⟩) := by
  rw [nocdVectorCmds, if_neg (by simp [hc]), if_neg (by simp)]

theorem writes_single {nb : Nat} (buf : Nat → UInt8) (x : LAddr) :
    (ScalarCmd.writes d buf 0 ⟨x, 1, 0, 0⟩ : List (Nat × (Fin nb → UInt8))) =
      [(d.lba x, fun j : Fin nb => buf j)] := by
  simp [ScalarCmd.writes]

theorem reads_single (nb : Nat) (x : LAddr) : ScalarCmd.reads d nb 0 ⟨x, 1, 0, 0⟩ = [(d.lba x, 0)] := by
  simp [ScalarCmd.reads]

theorem exists_concat_of_split (hc : contig (a :: as) = false) :
    ∃ xs x, 0 < xs.length ∧ a :: as = xs ++ [x] := by
  cases as with
  | nil => simp [contig] at hc
  | cons b bs =>
    have hne : b :: bs ≠ [] := by simp
    exact ⟨a :: (b :: bs).dropLast, (b :: bs).getLast hne, by simp,
      by rw [List.cons_append, List.dropLast_append_getLast]⟩

/-! Writes. -/

theorem writes_eq_slots {nb : Nat} (hcount : ∀ i x, (a :: as)[i]? = some x → d.lba x = d.lba a + i)
    (buf : Nat → UInt8) :
    (ScalarCmd.writes d buf 0 ⟨a, as.length + 1, 0, 0⟩ : List (Nat × (Fin nb → UInt8))) =
      d.slots (a :: as) buf := by
  apply List.ext_getElem
  · simp [ScalarCmd.writes, NocdDev.slots]
  · intro i hi hi'
    have hlen : i < (a :: as).length := by simpa [NocdDev.slots] using hi'
    have hlba := hcount i _ (List.getElem?_eq_getElem hlen)
    simp only [ScalarCmd.writes, NocdDev.slots, List.getElem_map, List.getElem_range,
      List.getElem_mapIdx, hlba, Nat.zero_add]

theorem writeFaithful_of_run (hc : contig (a :: as) = true)
    (hcount : ∀ i x, (a :: as)[i]? = some x → d.lba x = d.lba a + i) :
    d.WriteFaithful (a :: as) := by
  intro b m
  rw [nocdVectorWrite, nocdVectorCmds_contig hc]
  refine ⟨_, rfl, ?_, ?_⟩
  · simp only [NocdDev.scalarWrites, List.flatMap_singleton, writes_eq_slots hcount]
  · cases hmd : b.md with
    | none => simp [NocdDev.scalarWrites, hmd]
    | some md =>
      simp only [NocdDev.scalarWrites, hmd, List.flatMap_singleton, writes_eq_slots hcount,
        Option.elim_some]

theorem count_of_writeFaithful (hc : contig (a :: as) = true) (h : d.WriteFaithful (a :: as))
    {i : Nat} {x : LAddr} (hx : (a :: as)[i]? = some x) : d.lba x = d.lba a + i := by
  have hnb := d.geo.nbytes_pos
  let buf : Nat → UInt8 := fun y => if y / d.geo.nbytes = i then 1 else 0
  obtain ⟨m', hw, hdata, -⟩ := h ⟨buf, none⟩ ⟨fun _ _ => 0, fun _ _ => 0⟩
  rw [nocdVectorWrite, nocdVectorCmds_contig hc] at hw
  obtain rfl := Except.ok.inj hw
  have hi : i < as.length + 1 := (List.getElem?_eq_some_iff.mp hx).1
  have hslot : ∀ k : Nat, buf (k * d.geo.nbytes) = if k = i then 1 else 0 := fun k => by
    simp only [buf, Nat.mul_div_cancel _ hnb]
  have hstored : store (fun _ _ => 0) (ScalarCmd.writes d buf 0 ⟨a, as.length + 1, 0, 0⟩)
      (d.lba a + i) ⟨0, hnb⟩ = 1 := by
    rw [FlatArray.store_of_mem (d := fun j => buf (0 + (i * d.geo.nbytes + j)))]
    · simpa using hslot i
    · exact List.mem_map.mpr ⟨i, List.mem_range.mpr hi, rfl⟩
    · intro t ht hta
      obtain ⟨k, -, rfl⟩ := List.mem_map.mp ht
      obtain rfl : k = i := by simpa using hta
      rfl
  simp only [NocdDev.scalarWrites, List.flatMap_singleton] at hdata
  rw [hdata] at hstored
  rcases FlatArray.store_mem_or (fun _ _ => 0) (d.slots (a :: as) buf) (d.lba a + i) with
    ⟨t, ht, hta, hst⟩ | hst
  · rw [hst] at hstored
    obtain ⟨k, hk, rfl⟩ := List.mem_mapIdx.mp ht
    have hki : k = i := by
      by_contra hne
      have hzero := hslot k
      rw [if_neg hne] at hzero
      exact UInt8.zero_ne_one (hzero.symm.trans hstored)
    subst hki
    rw [List.getElem?_eq_getElem hk] at hx
    obtain rfl := Option.some.inj hx
    exact hta
  · rw [hst] at hstored
    exact absurd hstored UInt8.zero_ne_one

theorem not_writeFaithful_of_split (hc : contig (a :: as) = false) : ¬ d.WriteFaithful (a :: as) := by
  intro h
  have hnb := d.geo.nbytes_pos
  let buf : Nat → UInt8 := fun y => if y < d.geo.nbytes then 0 else 1
  obtain ⟨m', hw, hdata, -⟩ := h ⟨buf, none⟩ ⟨fun _ _ => 0, fun _ _ => 0⟩
  rw [nocdVectorWrite, nocdVectorCmds_split hc] at hw
  obtain rfl := Except.ok.inj hw
  obtain ⟨xs, x, hlen, hxs⟩ := exists_concat_of_split hc
  have hlast : store (fun _ _ => 0) (d.slots (a :: as) buf) (d.lba x) ⟨0, hnb⟩ = 1 := by
    have hge : ¬ xs.length * d.geo.nbytes < d.geo.nbytes := not_lt.mpr (Nat.le_mul_of_pos_left _ hlen)
    rw [hxs, NocdDev.slots, List.mapIdx_concat]
    have hst := FlatArray.store_concat (fun _ _ => 0) (xs.mapIdx fun i a =>
      (d.lba a, fun j : Fin d.geo.nbytes => buf (i * d.geo.nbytes + j)))
      (d.lba x, fun j => buf (xs.length * d.geo.nbytes + j))
    rw [hst]
    simp [buf, hge]
  simp only [NocdDev.scalarWrites] at hdata
  rw [← hdata] at hlast
  rcases FlatArray.store_mem_or (fun _ _ => 0) (((a :: as).map fun x => ScalarCmd.mk x 1 0 0).flatMap
    fun c => c.writes d buf c.dataOff) (d.lba x) with ⟨t, ht, -, hst⟩ | hst
  · rw [hst] at hlast
    obtain ⟨c, hcm, htc⟩ := List.mem_flatMap.mp ht
    obtain ⟨y, -, rfl⟩ := List.mem_map.mp hcm
    rw [writes_single] at htc
    obtain rfl := List.mem_singleton.mp htc
    simp [buf, hnb] at hlast
  · rw [hst] at hlast
    exact UInt8.zero_ne_one hlast

/-! Reads. -/

theorem load_slot {nb n : Nat} {m : FlatArray.Media Nat UInt8 nb} (buf : Nat → UInt8) {i : Nat}
    (hi : i < n) (j : Fin nb) :
    load m buf (ScalarCmd.reads d nb 0 ⟨a, n, 0, 0⟩) (i * nb + j) = m (d.lba a + i) j := by
  apply FlatArray.load_of_mem j
  · exact List.mem_map.mpr ⟨i, List.mem_range.mpr hi, by rw [Nat.zero_add]⟩
  · intro t ht hr
    obtain ⟨k, -, rfl⟩ := List.mem_map.mp ht
    have hdiv : (i * nb + j) / nb = k := (Nat.div_eq_iff (by omega)).mpr (by simp only at hr; omega)
    rw [Striping.digits_div j.isLt] at hdiv
    rw [hdiv, Nat.zero_add]

theorem readFaithful_of_run (hc : contig (a :: as) = true)
    (hcount : ∀ i x, (a :: as)[i]? = some x → d.lba x = d.lba a + i) : d.ReadFaithful (a :: as) := by
  intro m b
  rw [nocdVectorRead, nocdVectorCmds_contig hc]
  have hslot : ∀ {nb : Nat} (m : FlatArray.Media Nat UInt8 nb) (buf : Nat → UInt8) (i : Nat) (x : LAddr),
      (a :: as)[i]? = some x → ∀ j : Fin nb,
        load m buf (ScalarCmd.reads d nb 0 ⟨a, as.length + 1, 0, 0⟩) (i * nb + j) = m (d.lba x) j := by
    intro nb m buf i x hx j
    have hi : i < as.length + 1 := (List.getElem?_eq_some_iff.mp hx).1
    rw [load_slot buf hi, hcount i x hx]
  refine ⟨_, rfl, ?_, ?_, ?_⟩
  · simp only [NocdDev.scalarReads, List.flatMap_singleton]
    exact hslot m.data b.data
  · simp [NocdDev.scalarReads]
  · intro md hmd
    obtain ⟨md₀, -, rfl⟩ := Option.map_eq_some_iff.mp hmd
    simp only [List.flatMap_singleton]
    exact hslot m.md md₀

theorem count_of_readFaithful (hc : contig (a :: as) = true) (h : d.ReadFaithful (a :: as))
    {i : Nat} {x : LAddr} (hx : (a :: as)[i]? = some x) : d.lba x = d.lba a + i := by
  have hnb := d.geo.nbytes_pos
  obtain ⟨b', hr, hdata, -⟩ := h ⟨fun l _ => if l = d.lba x then 1 else 0, fun _ _ => 0⟩ ⟨fun _ => 0, none⟩
  rw [nocdVectorRead, nocdVectorCmds_contig hc] at hr
  obtain rfl := Except.ok.inj hr
  have hi : i < as.length + 1 := (List.getElem?_eq_some_iff.mp hx).1
  have hread := hdata i x hx ⟨0, hnb⟩
  have hload : (if d.lba a + i = d.lba x then 1 else 0) = (1 : UInt8) := by
    rw [NocdDev.scalarReads_data, List.flatMap_singleton, load_slot _ hi] at hread
    simpa using hread
  by_contra hne
  rw [if_neg (Ne.symm hne)] at hload
  exact UInt8.zero_ne_one hload

theorem not_readFaithful_of_split (hc : contig (a :: as) = false) : ¬ d.ReadFaithful (a :: as) := by
  intro h
  have hnb := d.geo.nbytes_pos
  obtain ⟨b', hr, hdata, -⟩ := h ⟨fun _ _ => 1, fun _ _ => 0⟩ ⟨fun _ => 0, none⟩
  rw [nocdVectorRead, nocdVectorCmds_split hc] at hr
  obtain rfl := Except.ok.inj hr
  obtain ⟨xs, x, hlen, hxs⟩ := exists_concat_of_split hc
  have hload := hdata xs.length x (by rw [hxs, List.getElem?_concat_length]) ⟨0, hnb⟩
  have hge : d.geo.nbytes ≤ xs.length * d.geo.nbytes := Nat.le_mul_of_pos_left _ hlen
  rw [NocdDev.scalarReads_data, FlatArray.load_of_forall_not] at hload
  · exact UInt8.zero_ne_one hload
  · intro t ht hcover
    obtain ⟨c, hcm, htc⟩ := List.mem_flatMap.mp ht
    obtain ⟨y, -, rfl⟩ := List.mem_map.mp hcm
    rw [reads_single] at htc
    obtain rfl := List.mem_singleton.mp htc
    omega

end

/-- Both functions emulate vector commands on consecutive sectors of one chunk, a single
sector included, and on no other list of addresses. -/
theorem nocd_vector_faithful_iff (d : NocdDev) (addrs : List LAddr) (hne : addrs ≠ [])
    (hgeo : ∀ a ∈ addrs, nvmAddrCheckL a d.geo = 0) :
    (d.WriteFaithful addrs ↔ SectorRun addrs) ∧ (d.ReadFaithful addrs ↔ SectorRun addrs) := by
  obtain ⟨a, as, rfl⟩ := List.exists_cons_of_ne_nil hne
  rw [sectorRun_iff hgeo]
  cases hc : contig (a :: as) with
  | true =>
    simp only [true_and]
    exact ⟨⟨fun h i x => count_of_writeFaithful hc h, writeFaithful_of_run hc⟩,
      ⟨fun h i x => count_of_readFaithful hc h, readFaithful_of_run hc⟩⟩
  | false =>
    simp [not_writeFaithful_of_split hc, not_readFaithful_of_split hc]

def tinyNocd : NocdDev where
  geo := { tinyGeoL with wsOpt := 4, wsOpt_lt := by decide }
  lbaf := ⟨1, 1, 16, 12⟩
  fits := ⟨by decide, by decide, by decide, by decide, by decide⟩

theorem nocd_vector_faithful_iff_two_sectors :
    tinyNocd.WriteFaithful [⟨0, 1, 0, 1⟩, ⟨0, 1, 0, 2⟩] ∧
      tinyNocd.ReadFaithful [⟨0, 1, 0, 1⟩, ⟨0, 1, 0, 2⟩] := by
  have hrun : SectorRun [⟨0, 1, 0, 1⟩, ⟨0, 1, 0, 2⟩] := by
    rw [SectorRun]
    decide
  have h := nocd_vector_faithful_iff tinyNocd [⟨0, 1, 0, 1⟩, ⟨0, 1, 0, 2⟩] (by decide) (by decide)
  exact ⟨h.1.mpr hrun, h.2.mpr hrun⟩

/-- A list in reverse order takes the split path, and one that goes from sector 0 of one
unit to sector 1 of the other takes the contiguous one: neither is emulated. -/
theorem nocd_vector_misplaces :
    ((∀ a ∈ [⟨0, 0, 0, 1⟩, ⟨0, 0, 0, 0⟩], nvmAddrCheckL a tinyNocd.geo = 0) ∧
      ¬ tinyNocd.WriteFaithful [⟨0, 0, 0, 1⟩, ⟨0, 0, 0, 0⟩] ∧
      ¬ tinyNocd.ReadFaithful [⟨0, 0, 0, 1⟩, ⟨0, 0, 0, 0⟩]) ∧
    (∀ a ∈ [⟨0, 0, 0, 0⟩, ⟨0, 1, 0, 1⟩], nvmAddrCheckL a tinyNocd.geo = 0) ∧
      ¬ tinyNocd.WriteFaithful [⟨0, 0, 0, 0⟩, ⟨0, 1, 0, 1⟩] ∧
      ¬ tinyNocd.ReadFaithful [⟨0, 0, 0, 0⟩, ⟨0, 1, 0, 1⟩] := by
  have hlba : tinyNocd.lba ⟨0, 1, 0, 1⟩ ≠ tinyNocd.lba ⟨0, 0, 0, 0⟩ + 1 := by decide
  refine ⟨⟨by decide, not_writeFaithful_of_split (by decide), not_readFaithful_of_split (by decide)⟩,
    by decide, ?_, ?_⟩
  · exact fun h => hlba (count_of_writeFaithful (i := 1) (by decide) h rfl)
  · exact fun h => hlba (count_of_readFaithful (i := 1) (by decide) h rfl)

end LightNvm
