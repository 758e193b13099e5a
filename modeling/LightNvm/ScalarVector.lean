import LightNvm.WriteCut
import LightNvm.AddrLossless

/-! The commands of an OCSSD 2.0 virtual block as scalar commands, a first block and a count, and
as vector commands, a list of addresses. -/

namespace LightNvm

open SizeLoop (width sizeFor Visits)

def CmdL.addrs (v : VblkL) (c : CmdL) : List LAddr := c.slots.map v.addr

/-- Blocks of the device and offsets in the buffer: each address by itself. -/
def CmdL.vectorPairs (dev : DevL) (v : VblkL) (c : CmdL) : List (BitVec 64 × Nat) :=
  (c.addrs v).mapIdx fun i a => (nvmAddrGen2devL dev.lbaf a, c.buf.off + i * dev.geo.nbytes)

/-- Blocks of the device and offsets in the buffer: `naddrs` blocks from the first address on. -/
def CmdL.scalarPairs (dev : DevL) (v : VblkL) (c : CmdL) : List (BitVec 64 × Nat) :=
  match c.addrs v with
  | [] => []
  | a :: _ => (List.range c.naddrs).map fun i =>
      (nvmAddrGen2devL dev.lbaf a + BitVec.ofNat 64 i, c.buf.off + i * dev.geo.nbytes)

/-- Offset and length of the `pread` or `pwrite` that the scalar functions of LBD make. -/
def DevL.lbdRange (dev : DevL) (addr : LAddr) (naddrs : Nat) : BitVec 64 × Nat :=
  (nvmAddrGen2off dev.fmt addr, dev.geo.nbytes * naddrs)

/-- The command is one run of `ws_opt` sectors of one chunk, whichever way it is executed. -/
structure CmdL.OneRun (dev : DevL) (v : VblkL) (c : CmdL) : Prop where
  length : (c.addrs v).length = v.wsOpt
  naddrs : c.naddrs = v.wsOpt
  check : ∀ a ∈ c.addrs v, nvmAddrCheckL a dev.geo = 0
  chunk : ∀ a ∈ c.addrs v, ∀ b ∈ c.addrs v, a.chunkOf = b.chunkOf
  gen2dev : ∀ a₀ ∈ (c.addrs v)[0]?, ∀ i, ∀ a ∈ (c.addrs v)[i]?,
    (nvmAddrGen2devL dev.lbaf a).toNat = (nvmAddrGen2devL dev.lbaf a₀).toNat + i
  pairs : c.vectorPairs dev v = c.scalarPairs dev v
  lbd : ∀ a₀ ∈ (c.addrs v)[0]?,
    dev.lbdRange a₀ c.naddrs = (nvmAddrGen2off dev.fmt a₀, v.wsOpt * dev.geo.nbytes) ∧
    ∀ i, ∀ a ∈ (c.addrs v)[i]?,
      nvmAddrGen2off dev.fmt a = nvmAddrGen2off dev.fmt a₀ + BitVec.ofNat 64 (i * dev.geo.nbytes)

/-- The commands that the loop of `vblk_sync_pwrite_s20` builds, also when it does not end. -/
def VblkL.BuiltWrite (v : VblkL) (env : IoEnv) (bufNull : Bool) (count offset : Nat) (c : CmdL) : Prop :=
  v.Aligned count offset ∧ v.HasBuffers env bufNull count ∧ 0 < v.nblks ∧
  ∃ sectrOfz, Visits (fun sectrOfz => sectrOfz ≤ v.sectrEnd count offset) v.wsOpt (offset / v.geo.nbytes)
      sectrOfz ∧ c = v.syncWriteCmd bufNull (offset / v.geo.nbytes) sectrOfz

/-- For a call that returns, these are the commands it issued. -/
theorem mem_cmds_iff_builtWrite {v : VblkL} (hw : 0 < v.wsOpt) (hn : 0 < v.nblks) {env : IoEnv}
    {bufNull : Bool} {count offset : Nat} (ho : offset < width) {cmds : List CmdL} {ret : Except Errno Int}
    (h : vblkSyncPwriteS20 v env bufNull count offset = .returns cmds ret) (c : CmdL) :
    c ∈ cmds ↔ v.BuiltWrite env bufNull count offset c := by
  rw [vblkSyncPwriteS20, VblkL.checked, if_neg hw.ne'] at h
  by_cases hc : count / v.geo.nbytes % v.wsOpt = 0
  · by_cases hofs : offset / v.geo.nbytes % v.wsOpt = 0
    · rw [if_neg (not_not.mpr hc), if_neg (not_not.mpr hofs)] at h
      by_cases hbuf : v.HasBuffers env bufNull count
      · rw [buffered_of_hasBuffers hbuf] at h
        obtain ⟨ofzs, hofzs, rfl⟩ := Option.map_eq_some_iff.mp (loopIo_returns h)
        have hb : offset / v.geo.nbytes < width := (Nat.div_le_self _ _).trans_lt ho
        simp only [List.mem_map, SizeLoop.mem_walk_iff hb hofzs, VblkL.BuiltWrite]
        constructor
        · rintro ⟨o, hv, rfl⟩
          exact ⟨⟨hc, hofs⟩, hbuf, hn, o, hv, rfl⟩
        · rintro ⟨-, -, -, o, hv, rfl⟩
          exact ⟨o, hv, rfl⟩
      · rw [buffered_of_not_hasBuffers hbuf] at h
        obtain ⟨rfl, -⟩ := Io.returns.inj h
        simp [VblkL.BuiltWrite, hbuf]
    · rw [if_neg (not_not.mpr hc), if_pos hofs] at h
      obtain ⟨rfl, -⟩ := Io.returns.inj h
      simp [VblkL.BuiltWrite, VblkL.Aligned, hofs]
  · rw [if_pos hc] at h
    obtain ⟨rfl, -⟩ := Io.returns.inj h
    simp [VblkL.BuiltWrite, VblkL.Aligned, hc]

section

variable {dev : DevL} {v : VblkL}

theorem addr_check_run (hgeo : v.geo = dev.geo) {chunk sectr i : Nat} (hchunk : chunk < v.nblks)
    (hsectr : sectr + v.wsOpt ≤ v.geo.nsectr) (hi : i < v.wsOpt) :
    nvmAddrCheckL (v.addr ⟨chunk, sectr + i⟩) dev.geo = 0 := by
  have hN := v.geo.nsectr_lt
  rw [← hgeo, VblkL.addr_check hchunk]
  change (sectr + i) % 2 ^ 32 < v.geo.nsectr
  rw [Nat.mod_eq_of_lt (by omega)]
  omega

/-- Consecutive sectors of a chunk are consecutive blocks and offsets of the device. -/
theorem addr_run (hruns : dev.SectorRuns) (hgeo : v.geo = dev.geo) {chunk sectr i : Nat}
    (hchunk : chunk < v.nblks) (hsectr : sectr + v.wsOpt ≤ v.geo.nsectr) (hi : i < v.wsOpt) :
    (nvmAddrGen2devL dev.lbaf (v.addr ⟨chunk, sectr + i⟩)).toNat =
      (nvmAddrGen2devL dev.lbaf (v.addr ⟨chunk, sectr + 0⟩)).toNat + i ∧
    nvmAddrGen2off dev.fmt (v.addr ⟨chunk, sectr + i⟩) =
      nvmAddrGen2off dev.fmt (v.addr ⟨chunk, sectr + 0⟩) + BitVec.ofNat 64 (i * dev.geo.nbytes) := by
  have hN := v.geo.nsectr_lt
  have hnext : (v.addr ⟨chunk, sectr + i⟩).sectr.toNat = (v.addr ⟨chunk, sectr + 0⟩).sectr.toNat + i := by
    simp only [VblkL.addr, BitVec.toNat_ofNat]
    rw [Nat.mod_eq_of_lt (by omega), Nat.mod_eq_of_lt (by omega)]
    omega
  have hfirst := addr_check_run (i := 0) hgeo hchunk hsectr (by omega)
  obtain ⟨hdev, hoff, -⟩ := hruns _ _ i hfirst (addr_check_run hgeo hchunk hsectr hi) rfl hnext
  exact ⟨hdev, hoff⟩

theorem pairs_run (hruns : dev.SectorRuns) (hgeo : v.geo = dev.geo) {chunk sectr : Nat}
    (hchunk : chunk < v.nblks) (hsectr : sectr + v.wsOpt ≤ v.geo.nsectr) {c : CmdL}
    (haddrs : c.addrs v = (List.range v.wsOpt).map fun i => v.addr ⟨chunk, sectr + i⟩)
    (hnaddrs : c.naddrs = v.wsOpt) : c.vectorPairs dev v = c.scalarPairs dev v := by
  rw [CmdL.vectorPairs, CmdL.scalarPairs, haddrs, hnaddrs, mapIdx_map_range]
  cases hw : v.wsOpt with
  | zero => rfl
  | succ n =>
    rw [← hw]
    have hcons : (List.range v.wsOpt).map (fun i => v.addr ⟨chunk, sectr + i⟩) =
        v.addr ⟨chunk, sectr + 0⟩ :: ((List.range n).map fun i => v.addr ⟨chunk, sectr + (i + 1)⟩) := by
      rw [hw, List.range_succ_eq_map, List.map_cons, List.map_map]
      rfl
    rw [hcons]
    apply List.map_congr_left
    intro i hi
    have hlba : nvmAddrGen2devL dev.lbaf (v.addr ⟨chunk, sectr + i⟩) =
        nvmAddrGen2devL dev.lbaf (v.addr ⟨chunk, sectr + 0⟩) + BitVec.ofNat 64 i := by
      apply BitVec.eq_of_toNat_eq
      have hdev := (addr_run hruns hgeo hchunk hsectr (List.mem_range.mp hi)).1
      have hlt := (nvmAddrGen2devL dev.lbaf (v.addr ⟨chunk, sectr + i⟩)).isLt
      rw [BitVec.toNat_add, BitVec.toNat_ofNat, hdev]
      omega
    rw [hlba]

/-- Consecutive sectors of a chunk are one run. -/
theorem oneRun_run (hruns : dev.SectorRuns) (hgeo : v.geo = dev.geo) {chunk sectr : Nat}
    (hchunk : chunk < v.nblks) (hsectr : sectr + v.wsOpt ≤ v.geo.nsectr) (buf : BufRef) :
    CmdL.OneRun dev v ⟨(List.range v.wsOpt).map fun i => ⟨chunk, sectr + i⟩, v.wsOpt, buf⟩ := by
  have haddrs : CmdL.addrs v ⟨(List.range v.wsOpt).map fun i => ⟨chunk, sectr + i⟩, v.wsOpt, buf⟩ =
      (List.range v.wsOpt).map fun i => v.addr ⟨chunk, sectr + i⟩ := by
    rw [CmdL.addrs, List.map_map]
    rfl
  have hget : ∀ i, ∀ a ∈ ((List.range v.wsOpt).map fun i => v.addr ⟨chunk, sectr + i⟩)[i]?,
      i < v.wsOpt ∧ a = v.addr ⟨chunk, sectr + i⟩ := by
    intro i a ha
    simp only [List.getElem?_map, Option.mem_def, Option.map_eq_some_iff, List.getElem?_eq_some_iff,
      List.length_range, List.getElem_range] at ha
    obtain ⟨_, ⟨hi, rfl⟩, rfl⟩ := ha
    exact ⟨hi, rfl⟩
  constructor
  · simp [haddrs]
  · rfl
  · intro a ha
    rw [haddrs] at ha
    obtain ⟨i, hi, rfl⟩ := List.mem_map.mp ha
    exact addr_check_run hgeo hchunk hsectr (List.mem_range.mp hi)
  · intro a ha b hb
    rw [haddrs] at ha hb
    obtain ⟨i, -, rfl⟩ := List.mem_map.mp ha
    obtain ⟨j, -, rfl⟩ := List.mem_map.mp hb
    rfl
  · intro a₀ h₀ i a ha
    rw [haddrs] at h₀ ha
    obtain ⟨-, rfl⟩ := hget 0 a₀ h₀
    obtain ⟨hi, rfl⟩ := hget i a ha
    exact (addr_run hruns hgeo hchunk hsectr hi).1
  · exact pairs_run hruns hgeo hchunk hsectr haddrs rfl
  · intro a₀ h₀
    rw [haddrs] at h₀
    obtain ⟨-, rfl⟩ := hget 0 a₀ h₀
    refine ⟨by rw [DevL.lbdRange, Nat.mul_comm], fun i a ha => ?_⟩
    rw [haddrs] at ha
    obtain ⟨hi, rfl⟩ := hget i a ha
    exact (addr_run hruns hgeo hchunk hsectr hi).2

variable {count offset k u : Nat}

theorem oneRun_unitCmd (hruns : dev.SectorRuns) (hgeo : v.geo = dev.geo) (hw : 0 < v.wsOpt)
    (hn : 0 < v.nblks) (hdvd : v.wsOpt ∣ v.geo.nsectr) {w : Nat} (pad : Bool) (j : Nat)
    (hle : (w + 1) * v.wsOpt ≤ v.nblks * v.geo.nsectr) : (v.unitCmd pad j w).OneRun dev v :=
  oneRun_run hruns hgeo (Nat.mod_lt _ hn) (Striping.unit_end_le hw hdvd hle) _

theorem oneRun_asyncCmd (hruns : dev.SectorRuns) (hgeo : v.geo = dev.geo) (hw : 0 < v.wsOpt)
    (hn : 0 < v.nblks) (hdvd : v.wsOpt ∣ v.geo.nsectr) (pad : Bool) {vsectrBgn stripe : Nat}
    (hle : (stripe + 1) * v.wsOpt ≤ v.nblks * v.geo.nsectr) :
    (v.asyncCmd pad vsectrBgn stripe).OneRun dev v :=
  oneRun_run hruns hgeo (Nat.mod_lt _ hn) (Striping.unit_end_le hw hdvd hle) _

theorem oneRun_builtWrite (hruns : dev.SectorRuns) (hgeo : v.geo = dev.geo) (hw : 0 < v.wsOpt)
    (hdvd : v.wsOpt ∣ v.geo.nsectr) (h : v.Units count offset k u) (hb : offset + count ≤ v.nbytes)
    (hne : ¬ (k = 0 ∧ u = 0)) {env : IoEnv} {bufNull : Bool} {c : CmdL}
    (hc : v.BuiltWrite env bufNull count offset c) : c.OneRun dev v := by
  have hbuf := hc.2.1
  have hn := hc.2.2.1
  have hlt : v.nbytes < width := Nat.mod_lt _ (by decide)
  have hmem := (mem_cmds_iff_builtWrite hw hn (by omega) (syncPwriteS20_eq h hw hb hne hbuf) c).mpr hc
  obtain ⟨j, hj, rfl⟩ := List.mem_map.mp hmem
  have hle : (u + j + 1) * v.wsOpt ≤ (u + k) * v.wsOpt :=
    Nat.mul_le_mul_right _ (by have := List.mem_range.mp hj; omega)
  exact oneRun_unitCmd hruns hgeo hw hn hdvd bufNull j (hle.trans (h.sectors_le hb))

/-- The endless loop of an empty range at offset zero comes to the sector after the last one of
the first chunk. -/
theorem builtWrite_past_chunk (hgeo : v.geo = dev.geo) (hw : 0 < v.wsOpt)
    (hdvd : v.wsOpt ∣ v.geo.nsectr) (hn : 0 < v.nblks) {env : IoEnv} {bufNull : Bool}
    (hbuf : v.HasBuffers env bufNull 0) :
    ∃ c, v.BuiltWrite env bufNull 0 0 c ∧ ¬ c.OneRun dev v := by
  obtain ⟨q, hq⟩ := hdvd
  have hN := v.geo.nsectr_lt
  have hsum := v.nsectrs_le
  have hwidth : width = 2 ^ 64 := rfl
  have hend : v.sectrEnd 0 0 = width - 1 := by
    rw [VblkL.sectrEnd_eq (Nat.zero_div _) (Nat.zero_div _) (by decide), if_pos rfl]
  have hofz : q * v.nblks * v.wsOpt = v.nblks * v.geo.nsectr := by
    rw [hq]
    ring
  refine ⟨v.syncWriteCmd bufNull (0 / v.geo.nbytes) (q * v.nblks * v.wsOpt),
    ⟨?_, hbuf, hn, _, ⟨q * v.nblks, ?_, ?_⟩, rfl⟩, ?_⟩
  · simp [VblkL.Aligned]
  · rw [Nat.zero_div, Nat.zero_add, Nat.mod_eq_of_lt (by omega)]
  · intro j _
    have := Nat.mod_lt (0 / v.geo.nbytes + j * v.wsOpt) (show 0 < width by decide)
    rw [decide_eq_true_iff, hend]
    omega
  · intro hrun
    have hslot : v.sectrSlot ((q * v.nblks * v.wsOpt + 0) % width) = ⟨0, v.geo.nsectr⟩ := by
      rw [Nat.mod_eq_of_lt (by omega), VblkL.sectrSlot_unit hw, Nat.mul_mod_left, Nat.mul_div_cancel _ hn, hq,
        Nat.add_zero, Nat.mul_comm]
    have hmem : v.addr ⟨0, v.geo.nsectr⟩ ∈
        CmdL.addrs v (v.syncWriteCmd bufNull (0 / v.geo.nbytes) (q * v.nblks * v.wsOpt)) := by
      rw [CmdL.addrs, VblkL.syncWriteCmd, List.map_map]
      exact List.mem_map.mpr ⟨0, List.mem_range.mpr hw, by rw [Function.comp_apply, hslot]⟩
    have hcheck := hrun.check _ hmem
    rw [← hgeo, VblkL.addr_check hn] at hcheck
    change v.geo.nsectr % 2 ^ 32 < v.geo.nsectr at hcheck
    rw [Nat.mod_eq_of_lt hN] at hcheck
    omega

end

/-- Exactly when every synchronous write command is one run, and that every asynchronous command
is one. -/
theorem scalar_vector_same_media_iff (idfy : Idfy) (dev : DevL) (hdev : nvmBePopulate idfy = .ok (.s20 dev))
    (hf : dev.lbaf.Fits dev.geo) (v : VblkL) (hgeo : v.geo = dev.geo) (hw : 0 < v.wsOpt)
    (hdvd : v.wsOpt ∣ v.geo.nsectr) (count offset : Nat) (hr : v.InRange count offset) (env : IoEnv)
    (bufNull : Bool) :
    ((∀ c, v.BuiltWrite env bufNull count offset c → c.OneRun dev v) ↔
      ¬ (count = 0 ∧ offset = 0) ∨ v.nblks = 0 ∨ ¬ v.HasBuffers env bufNull count) ∧
    (∀ pad, ∀ c ∈ v.asyncCmds pad count offset, c.OneRun dev v) := by
  obtain ⟨-, hssw, hbytes⟩ := nvmBePopulate_s20 hdev
  have hruns := DevL.sectorRuns hf hssw hbytes
  obtain ⟨k, u, h⟩ := VblkL.units_of_dvd hr.dvd_count hr.dvd_offset
  constructor
  · constructor
    · intro hall
      by_contra hbad
      simp only [not_or, not_not] at hbad
      obtain ⟨⟨rfl, rfl⟩, hn, hbuf⟩ := hbad
      obtain ⟨c, hc, hnot⟩ := builtWrite_past_chunk hgeo hw hdvd (Nat.pos_of_ne_zero hn) hbuf
      exact hnot (hall c hc)
    · rintro (hne | hn | hbuf) c hc
      · rw [h.count_eq_zero hw, h.offset_eq_zero hw] at hne
        exact oneRun_builtWrite hruns hgeo hw hdvd h hr.bound hne hc
      · exact absurd hc.2.2.1 (by omega)
      · exact absurd hc.2.1 hbuf
  · intro pad c hc
    obtain ⟨stripe, hs, rfl⟩ := List.mem_map.mp hc
    rw [h.nstripes_eq hw] at hs
    have hk := List.mem_range.mp hs
    have hn : 0 < v.nblks := h.nblks_pos hw hr.bound (by omega)
    have hle : (stripe + 1) * v.wsOpt ≤ (u + k) * v.wsOpt := Nat.mul_le_mul_right _ (by omega)
    exact oneRun_asyncCmd hruns hgeo hw hn hdvd pad (hle.trans (h.sectors_le hr.bound))

/-- Two chunks of 16 sectors, written in units of 8. -/
def smallVblk : VblkL where
  geo := (smallIdfy 3).s20.geo
  metaMode := .none
  mode := .scalar
  isAsync := false
  blks := [⟨0, 0, 0, 0⟩, ⟨1, 1, 3, 0⟩]
  nblks_le := by decide
  blks_check := by decide

theorem scalar_vector_same_media_small :
    ∃ dev, nvmBePopulate (smallIdfy 3) = .ok (.s20 dev) ∧
      (∀ c, smallVblk.BuiltWrite .good false 65536 65536 c → c.OneRun dev smallVblk) ∧
      ∀ c ∈ smallVblk.asyncCmds false 65536 65536, c.OneRun dev smallVblk := by
  refine ⟨_, rfl, ?_⟩
  have h := scalar_vector_same_media_iff (smallIdfy 3) _ rfl
    ⟨by decide, by decide, by decide, by decide, by decide⟩ smallVblk rfl (by decide) (by decide) 65536 65536
    ⟨by decide, by decide, by decide⟩ .good false
  exact ⟨h.1.mpr (.inl (by decide)), h.2 false⟩

theorem empty_write_leaves_chunk :
    ∃ dev, nvmBePopulate (smallIdfy 3) = .ok (.s20 dev) ∧ dev.lbaf.Fits dev.geo ∧ smallVblk.geo = dev.geo ∧
      0 < smallVblk.wsOpt ∧ smallVblk.wsOpt ∣ smallVblk.geo.nsectr ∧ smallVblk.InRange 0 0 ∧
      ∃ c, smallVblk.BuiltWrite .good false 0 0 c ∧ ¬ c.OneRun dev smallVblk := by
  refine ⟨_, rfl, ⟨by decide, by decide, by decide, by decide, by decide⟩, rfl, by decide, by decide,
    ⟨by decide, by decide, by decide⟩, ?_⟩
  exact builtWrite_past_chunk rfl (by decide) (by decide) (by decide) ⟨by simp, fun h => absurd rfl h⟩

end LightNvm
