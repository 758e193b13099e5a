import LightNvm.VblkS12

/-! Ranges of an OCSSD 1.2 virtual block in super-pages: the calls that pass the checks, the
address of every sector and the commands, which are cuts of one stream of addresses. -/

namespace LightNvm

open SizeLoop (width rounds progression)

def GAddr.blockOf (a : GAddr) : BitVec 8 × BitVec 8 × BitVec 16 := (a.ch, a.lun, a.blk)

def VblkG.DistinctBlocks (v : VblkG) : Prop := (v.blks.map GAddr.blockOf).Nodup

/-- The address of a sector of the virtual block: sectors and planes of a super-page first,
then the blocks in turn, then the pages. -/
def VblkG.place (v : VblkG) (s : Nat) : GAddr :=
  { v.blks.getD (s / v.spageNaddrs % v.nblks) ⟨0, 0, 0, 0, 0, 0⟩ with
    pg := BitVec.ofNat 16 (s / v.spageNaddrs / v.nblks)
    pl := BitVec.ofNat 8 (s % v.spageNaddrs / v.geo.nsectors)
    sec := BitVec.ofNat 8 (s % v.spageNaddrs % v.geo.nsectors) }

def VblkG.Passes (v : VblkG) (naddrsMax count offset : Nat) : Prop :=
  ∀ io, v.checked naddrsMax count offset io = io (cmdNspages v.nblks (naddrsMax / v.spageNaddrs))

/-- A call that passes the checks without a wrap of `offset + count`, under a setting that
holds a super-page; the setters refuse more than `NVM_NADDR_MAX`. -/
structure VblkG.Accepts (v : VblkG) (naddrsMax count offset : Nat) : Prop where
  passes : v.Passes naddrsMax count offset
  no_wrap : offset + count < width
  spage_le : v.spageNaddrs ≤ naddrsMax
  le_max : naddrsMax ≤ naddrMax

/-- The range of `k` super-pages from super-page `b` on, with commands of up to `c`. -/
structure VblkG.Spages (v : VblkG) (naddrsMax count offset k b c : Nat) : Prop where
  count_eq : count = k * v.align
  offset_eq : offset = b * v.align
  bound : b + k ≤ v.nblks * v.geo.npages
  cmd : c = cmdNspages v.nblks (naddrsMax / v.spageNaddrs)
  cmd_pos : 0 < c
  cmd_le : c * v.spageNaddrs ≤ naddrsMax
  spage_pos : 0 < v.spageNaddrs
  naddrs_le : naddrsMax ≤ naddrMax
  bytes_lt : count < width

theorem cmdNspages_le (nblks max : Nat) : cmdNspages nblks max ≤ max := by
  induction max with
  | zero => exact le_refl 0
  | succ max ih =>
    rw [cmdNspages]
    split_ifs
    · exact ih.trans (Nat.le_succ max)
    · exact le_refl _

theorem cmdNspages_pos (nblks : Nat) {max : Nat} (h : 0 < max) : 0 < cmdNspages nblks max := by
  induction max with
  | zero => exact h
  | succ max ih =>
    rw [cmdNspages]
    split_ifs with hc
    · exact ih (by omega)
    · exact Nat.succ_pos max

theorem cmdNspages_dvd (nblks : Nat) {max : Nat} (h : 0 < max) : cmdNspages nblks max ∣ nblks := by
  induction max with
  | zero => exact absurd h (lt_irrefl 0)
  | succ max ih =>
    rw [cmdNspages]
    split_ifs with hc
    · exact ih (by omega)
    · rcases not_and_or.mp hc with hmod | hone
      · exact Nat.dvd_of_mod_eq_zero (not_not.mp hmod)
      · obtain rfl : max = 0 := by omega
        exact one_dvd nblks

theorem VblkG.align_pos {v : VblkG} (h : 0 < v.spageNaddrs) : 0 < v.align :=
  Nat.mul_pos h v.geo.sectorNbytes_pos

theorem VblkG.nbytes_eq (v : VblkG) :
    v.nblks * v.geo.nplanes * v.geo.npages * v.geo.nsectors * v.geo.sectorNbytes =
      v.nblks * v.geo.npages * v.align := by
  rw [VblkG.align, VblkG.spageNaddrs]
  ring

theorem VblkG.nspages_lt (v : VblkG) : v.nblks * v.geo.npages < 2 ^ 31 := by
  calc v.nblks * v.geo.npages ≤ 128 * 2 ^ 16 := Nat.mul_le_mul v.nblks_le v.geo.npages_lt.le
    _ < 2 ^ 31 := by norm_num

theorem VblkG.passes_iff {v : VblkG} {naddrsMax count offset : Nat} :
    v.Passes naddrsMax count offset ↔
      0 < v.spageNaddrs ∧ v.spageNaddrs ≤ naddrsMax ∧ (offset + count) % width ≤ v.nbytes ∧
        v.align ∣ count ∧ v.align ∣ offset := by
  constructor
  · intro h
    -- a loop that hangs is told apart from every outcome of the checks
    have hio := h fun _ => .hangs
    rw [VblkG.checked] at hio
    split_ifs at hio with htrap hbound halign
    rw [not_or, Nat.div_eq_zero_iff, not_or] at htrap
    exact ⟨Nat.pos_of_ne_zero htrap.1, not_lt.mp htrap.2.2, not_lt.mp hbound,
      Nat.dvd_of_mod_eq_zero (not_not.mp fun hc => halign (.inl hc)),
      Nat.dvd_of_mod_eq_zero (not_not.mp fun ho => halign (.inr ho))⟩
  · rintro ⟨hpos, hle, hbound, hcount, hoffset⟩ io
    have hdiv := (Nat.div_pos hle hpos).ne'
    rw [VblkG.checked, if_neg (by simp [hpos.ne', hdiv]), if_neg (not_lt.mpr hbound),
      if_neg (by simp [Nat.mod_eq_zero_of_dvd hcount, Nat.mod_eq_zero_of_dvd hoffset])]

theorem VblkG.Accepts.spages {v : VblkG} {naddrsMax count offset : Nat}
    (h : v.Accepts naddrsMax count offset) : ∃ k b c, v.Spages naddrsMax count offset k b c := by
  obtain ⟨hsp, hle, hbound, ⟨k, hk⟩, ⟨b, hb⟩⟩ := VblkG.passes_iff.mp h.passes
  rw [Nat.mod_eq_of_lt h.no_wrap] at hbound
  have hal := VblkG.align_pos hsp
  refine ⟨k, b, _, ?_, ?_, ?_, rfl, cmdNspages_pos _ (Nat.div_pos hle hsp), ?_, hsp, h.le_max, ?_⟩
  · rw [hk, Nat.mul_comm]
  · rw [hb, Nat.mul_comm]
  · apply Nat.le_of_mul_le_mul_right _ hal
    calc (b + k) * v.align = offset + count := by rw [hk, hb]; ring
      _ ≤ v.nblks * v.geo.npages * v.align := by
        rw [← v.nbytes_eq]
        exact hbound.trans (Nat.mod_le _ _)
  · calc cmdNspages v.nblks (naddrsMax / v.spageNaddrs) * v.spageNaddrs
        ≤ naddrsMax / v.spageNaddrs * v.spageNaddrs := Nat.mul_le_mul_right _ (cmdNspages_le _ _)
      _ ≤ naddrsMax := Nat.div_mul_le_self _ _
  · have := h.no_wrap
    omega

theorem VblkG.align_le (v : VblkG) : v.align ≤ 4 * 2 ^ 16 := by
  calc v.align = v.geo.nplanes * (v.geo.nsectors * v.geo.sectorNbytes) := by
        rw [VblkG.align, VblkG.spageNaddrs, Nat.mul_assoc]
    _ ≤ 4 * 2 ^ 16 := Nat.mul_le_mul v.geo.nplanes_le
        ((Nat.div_mul_le_self _ _).trans v.geo.pageNbytes_lt.le)

section

variable {v : VblkG} {naddrsMax count offset k b c : Nat}

theorem VblkG.Spages.sectorNbytes_lt (h : v.Spages naddrsMax count offset k b c) :
    v.geo.sectorNbytes < 2 ^ 16 := by
  have hsec : 0 < v.geo.nsectors := Nat.pos_of_mul_pos_left h.spage_pos
  exact (Nat.div_pos_iff.mp hsec).2.trans_lt v.geo.pageNbytes_lt

theorem VblkG.Spages.count_lt (h : v.Spages naddrsMax count offset k b c) : count < 2 ^ 63 := by
  have hk : k ≤ v.nblks * v.geo.npages := (Nat.le_add_left k b).trans h.bound
  calc count = k * v.align := h.count_eq
    _ ≤ 2 ^ 31 * (4 * 2 ^ 16) := Nat.mul_le_mul (hk.trans v.nspages_lt.le) v.align_le
    _ < 2 ^ 63 := by norm_num

theorem VblkG.Spages.ssize_count (h : v.Spages naddrsMax count offset k b c) :
    ssize count = count := by
  rw [ssize, if_pos h.count_lt]

theorem VblkG.Spages.size_ne_zero (h : v.Spages naddrsMax count offset k b c) {n : Nat} (hn : n < 2 ^ 16)
    (hpos : 0 < n) : c * v.spageNaddrs * n % width ≠ 0 := by
  have hcap : c * v.spageNaddrs ≤ 64 := h.cmd_le.trans h.naddrs_le
  have hle : c * v.spageNaddrs * n ≤ 64 * 2 ^ 16 := Nat.mul_le_mul hcap hn.le
  have hw : width = 2 ^ 64 := rfl
  rw [Nat.mod_eq_of_lt (by omega)]
  exact (Nat.mul_pos (Nat.mul_pos h.cmd_pos h.spage_pos) hpos).ne'

theorem VblkG.Spages.nspages_pos {κ : Type} {f : Nat → κ} (h : v.Spages naddrsMax count offset k b c)
    (hne : (List.range (rounds k c)).map f ≠ []) : 0 < v.nblks * v.geo.npages := by
  rw [Nat.pos_iff_ne_zero]
  intro h0
  have hk : k = 0 := by
    have := h.bound
    omega
  apply hne
  rw [hk, SizeLoop.rounds_zero h.cmd_pos, List.range_zero, List.map_nil]

end

/-! Addresses. -/

theorem int32_of_lt {n : Nat} (h : n < 2 ^ 31) : int32 n = n := by
  rw [int32, Nat.mod_eq_of_lt (by omega), if_pos h]

theorem VblkG.spgAddr_eq (v : VblkG) {off i : Nat} (hs : 0 < v.spageNaddrs)
    (h : off + i / v.spageNaddrs < v.nblks * v.geo.npages) :
    v.spgAddr off i = v.place (off * v.spageNaddrs + i) := by
  have hlt := v.nspages_lt
  have hspg : (off * v.spageNaddrs + i) / v.spageNaddrs = off + i / v.spageNaddrs := by
    rw [Nat.add_comm, Nat.add_mul_div_right _ _ hs, Nat.add_comm]
  have hin : (off * v.spageNaddrs + i) % v.spageNaddrs = i % v.spageNaddrs :=
    Nat.mul_add_mod_self_right _ _ _
  have hint : int32 ((off + i / v.spageNaddrs) % width) = (off + i / v.spageNaddrs : Nat) := by
    have hw : off + i / v.spageNaddrs < width := by
      have : width = 2 ^ 64 := rfl
      omega
    rw [Nat.mod_eq_of_lt hw, int32_of_lt (by omega)]
  have hidx : ((off + i / v.spageNaddrs : Nat) : Int).tmod v.nblks =
      ((off + i / v.spageNaddrs) % v.nblks : Nat) := by
    rw [Int.tmod_eq_emod_of_nonneg (Int.natCast_nonneg _), Int.natCast_emod]
  have hdiv : ((off + i / v.spageNaddrs : Nat) : Int).tdiv v.nblks =
      ((off + i / v.spageNaddrs) / v.nblks : Nat) := by
    rw [Int.tdiv_eq_ediv_of_nonneg (Int.natCast_nonneg _), Int.natCast_ediv]
  have hpg : (off + i / v.spageNaddrs) / v.nblks < v.geo.npages := Nat.div_lt_of_lt_mul h
  have hpg' : ((((off + i / v.spageNaddrs) / v.nblks : Nat) : Int) % (width : Int)).toNat %
      v.geo.npages = (off + i / v.spageNaddrs) / v.nblks := by
    have hw : (off + i / v.spageNaddrs) / v.nblks < width := by
      have := v.geo.npages_lt
      have : width = 2 ^ 64 := rfl
      omega
    rw [← Int.natCast_emod, Int.toNat_natCast, Nat.mod_eq_of_lt hw, Nat.mod_eq_of_lt hpg]
  have hpl : i / v.geo.nsectors % v.geo.nplanes = i % v.spageNaddrs / v.geo.nsectors := by
    rw [VblkG.spageNaddrs, Nat.mul_comm, Nat.mod_mul_right_div_self]
  have hsec : i % v.geo.nsectors = i % v.spageNaddrs % v.geo.nsectors := by
    rw [VblkG.spageNaddrs, Nat.mod_mod_of_dvd _ (Nat.dvd_mul_left _ _)]
  simp only [VblkG.spgAddr, VblkG.place, hint, hidx, hdiv, hpg', hspg, hin, hpl, ← hsec,
    Int.toNat_natCast]

theorem VblkG.blockOf_place (v : VblkG) (hn : 0 < v.nblks) {s : Nat} :
    (v.blks.map GAddr.blockOf)[s / v.spageNaddrs % v.nblks]? = some (v.place s).blockOf := by
  have hi : s / v.spageNaddrs % v.nblks < v.blks.length := Nat.mod_lt _ hn
  simp [VblkG.place, GAddr.blockOf, hi]

theorem ofNat_inj {w a b : Nat} (ha : a < 2 ^ w) (hb : b < 2 ^ w)
    (h : BitVec.ofNat w a = BitVec.ofNat w b) : a = b := by
  have h' := congrArg BitVec.toNat h
  rwa [BitVec.toNat_ofNat, BitVec.toNat_ofNat, Nat.mod_eq_of_lt ha, Nat.mod_eq_of_lt hb] at h'

theorem VblkG.place_inj {v : VblkG} (hd : v.DistinctBlocks) (hs : 0 < v.spageNaddrs)
    (hle : v.spageNaddrs ≤ naddrMax) {s t : Nat} (hst : s < v.nblks * v.geo.npages * v.spageNaddrs)
    (htt : t < v.nblks * v.geo.npages * v.spageNaddrs) (h : v.place s = v.place t) : s = t := by
  have hsec : 0 < v.geo.nsectors := Nat.pos_of_mul_pos_left hs
  have hn : 0 < v.nblks := Nat.pos_of_ne_zero (by rintro h0; simp [h0] at hst)
  have hnsec : v.geo.nsectors ≤ 64 :=
    (Nat.le_mul_of_pos_left _ v.geo.nplanes_pos).trans hle
  have hpl : ∀ x, x % v.spageNaddrs / v.geo.nsectors < v.geo.nplanes := fun x =>
    Nat.div_lt_of_lt_mul (by rw [Nat.mul_comm]; exact Nat.mod_lt x hs)
  have hpg : ∀ x, x < v.nblks * v.geo.npages * v.spageNaddrs →
      x / v.spageNaddrs / v.nblks < v.geo.npages := fun x hx =>
    Nat.div_lt_of_lt_mul (Nat.div_lt_of_lt_mul (by rwa [Nat.mul_comm]))
  have hplanes := v.geo.nplanes_le
  have hpages := v.geo.npages_lt
  have hidx : s / v.spageNaddrs % v.nblks = t / v.spageNaddrs % v.nblks := by
    have hs' : s / v.spageNaddrs % v.nblks < (v.blks.map GAddr.blockOf).length := by
      rw [List.length_map]
      exact Nat.mod_lt _ hn
    have hblk : (v.place s).blockOf = (v.place t).blockOf := by rw [h]
    apply (List.getElem?_inj hs' hd).mp
    rw [v.blockOf_place hn, v.blockOf_place hn, hblk]
  have hpage : s / v.spageNaddrs / v.nblks = t / v.spageNaddrs / v.nblks :=
    ofNat_inj ((hpg s hst).trans hpages) ((hpg t htt).trans hpages) (congrArg GAddr.pg h)
  have hplane : s % v.spageNaddrs / v.geo.nsectors = t % v.spageNaddrs / v.geo.nsectors :=
    ofNat_inj ((hpl s).trans_le (hplanes.trans (by decide))) ((hpl t).trans_le (hplanes.trans (by decide)))
      (congrArg GAddr.pl h)
  have hsect : s % v.spageNaddrs % v.geo.nsectors = t % v.spageNaddrs % v.geo.nsectors :=
    ofNat_inj ((Nat.mod_lt _ hsec).trans_le (hnsec.trans (by decide)))
      ((Nat.mod_lt _ hsec).trans_le (hnsec.trans (by decide))) (congrArg GAddr.sec h)
  have hspg : s / v.spageNaddrs = t / v.spageNaddrs := by
    rw [← Nat.div_add_mod' (s / v.spageNaddrs) v.nblks, ← Nat.div_add_mod' (t / v.spageNaddrs) v.nblks,
      hpage, hidx]
  have hin : s % v.spageNaddrs = t % v.spageNaddrs := by
    rw [← Nat.div_add_mod' (s % v.spageNaddrs) v.geo.nsectors,
      ← Nat.div_add_mod' (t % v.spageNaddrs) v.geo.nsectors, hplane, hsect]
  rw [← Nat.div_add_mod' s v.spageNaddrs, ← Nat.div_add_mod' t v.spageNaddrs, hspg, hin]

/-! Commands. -/

def VblkG.cutCmd (v : VblkG) (pad : Bool) (k b c j : Nat) : CmdG where
  addrs := (List.range (min c (k - j * c) * v.spageNaddrs)).map fun i =>
    v.place (b * v.spageNaddrs + (j * c * v.spageNaddrs + i))
  buf := if pad then .pad else .user (j * c * v.spageNaddrs * v.geo.sectorNbytes)

theorem VblkG.spgCmd_eq {v : VblkG} {naddrsMax count offset k b c : Nat}
    (h : v.Spages naddrsMax count offset k b c) (pad : Bool) {j : Nat} (hj : j * c < k) :
    v.spgCmd c pad b (b + k) (b + j * c) = v.cutCmd pad k b c j := by
  have hlt := v.nspages_lt
  have hbound := h.bound
  have hnspages : min (c : Int) (int32 (b + k - (b + j * c))) = (min c (k - j * c) : Nat) := by
    rw [Nat.add_sub_add_left, int32_of_lt (by omega)]
    exact (Nat.cast_min c (k - j * c)).symm
  have hnaddrs : (((min c (k - j * c) : Nat) : Int) * v.spageNaddrs).toNat =
      min c (k - j * c) * v.spageNaddrs := by
    rw [← Int.natCast_mul, Int.toNat_natCast]
  have haddr : ∀ i ∈ List.range (min c (k - j * c) * v.spageNaddrs),
      v.spgAddr (b + j * c) i = v.place (b * v.spageNaddrs + (j * c * v.spageNaddrs + i)) := by
    intro i hi
    have hi' : i / v.spageNaddrs < min c (k - j * c) :=
      Nat.div_lt_of_lt_mul (by rw [Nat.mul_comm]; exact List.mem_range.mp hi)
    rw [v.spgAddr_eq h.spage_pos (by omega), Nat.add_mul, Nat.add_assoc]
  have hoff : (b + j * c + width - b) % width = j * c := by
    have : width = 2 ^ 64 := rfl
    rw [show b + j * c + width - b = j * c + width by omega, Nat.add_mod_right,
      Nat.mod_eq_of_lt (by omega)]
  have hbytes : j * c * v.geo.sectorNbytes * v.spageNaddrs % width =
      j * c * v.spageNaddrs * v.geo.sectorNbytes := by
    have hle : j * c * v.align ≤ count := by
      rw [h.count_eq]
      exact Nat.mul_le_mul_right _ hj.le
    have hal : j * c * v.geo.sectorNbytes * v.spageNaddrs = j * c * v.align := by
      rw [VblkG.align]; ring
    have hcount := h.bytes_lt
    rw [hal, Nat.mod_eq_of_lt (by omega), VblkG.align]
    ring
  simp only [VblkG.spgCmd, VblkG.cutCmd, hnspages, hnaddrs, List.map_congr_left haddr, hoff, hbytes]

theorem VblkG.spgCmds_eq {v : VblkG} {naddrsMax count offset k b c : Nat}
    (h : v.Spages naddrsMax count offset k b c) (pad : Bool) :
    v.spgCmds c pad count offset = some ((List.range (rounds k c)).map (v.cutCmd pad k b c)) := by
  have hal := VblkG.align_pos h.spage_pos
  have hlt := v.nspages_lt
  have hbound := h.bound
  have hw : width = 2 ^ 64 := rfl
  have hb : offset / v.align = b := by rw [h.offset_eq, Nat.mul_div_cancel _ hal]
  have hk : count / v.align = k := by rw [h.count_eq, Nat.mul_div_cancel _ hal]
  have hc : c ≤ naddrMax :=
    (Nat.le_mul_of_pos_right c h.spage_pos).trans (h.cmd_le.trans h.naddrs_le)
  have hc64 : c ≤ 64 := hc
  have hfin : (b + k) % width = b + k := Nat.mod_eq_of_lt (by omega)
  have hloop : SizeLoop.sizeFor (fun off => decide (off < b + k)) c b =
      some (progression b c (rounds k c)) := by
    apply SizeLoop.sizeFor_below h.cmd_pos
    · intro i _
      rw [decide_eq_true_iff]
    · omega
  simp only [VblkG.spgCmds, hb, hk, hfin, hloop, Option.map_some, Option.some.injEq]
  rw [progression, List.map_map]
  apply List.map_congr_left
  intro j hj
  exact VblkG.spgCmd_eq h pad ((SizeLoop.lt_rounds h.cmd_pos).mp (List.mem_range.mp hj))

section

variable {v : VblkG} {naddrsMax count offset k b c : Nat}

theorem VblkG.pread_cuts (ha : v.Accepts naddrsMax count offset) (h : v.Spages naddrsMax count offset k b c)
    (env : IoEnv) : vblkPreadS12 v env naddrsMax count offset =
      loopIo env (v.nblks * v.geo.npages) count
        (some ((List.range (rounds k c)).map (v.cutCmd false k b c))) := by
  rw [vblkPreadS12, ha.passes, ← h.cmd, VblkG.spgCmds_eq h]

theorem VblkG.pwrite_cuts (ha : v.Accepts naddrsMax count offset) (h : v.Spages naddrsMax count offset k b c)
    (env : IoEnv) (bufNull : Bool) : vblkPwriteS12 v env naddrsMax bufNull count offset =
      withBuffers env bufNull (c * v.spageNaddrs * v.geo.sectorNbytes % width) v.metaMode
        (c * v.spageNaddrs * v.geo.metaNbytes % width) (loopIo env (v.nblks * v.geo.npages) count
          (some ((List.range (rounds k c)).map (v.cutCmd bufNull k b c)))) := by
  rw [vblkPwriteS12, ha.passes, ← h.cmd, VblkG.spgCmds_eq h]

end

end LightNvm
