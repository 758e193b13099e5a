import LightNvm.IoContract
import LightNvm.S12Spages

/-! When the OCSSD 1.2 functions meet the contract of `nvm_vblk_pwrite` and `nvm_vblk_pread`. -/

namespace LightNvm

open SizeLoop (width rounds)

structure VblkG.InRange (v : VblkG) (count offset : Nat) : Prop where
  dvd_count : v.align ∣ count
  dvd_offset : v.align ∣ offset
  bound : offset + count ≤ v.nbytes

def VblkG.io (v : VblkG) (naddrsMax : Nat) (op : IoOp) (count offset : Nat) (env : IoEnv) : Io CmdG :=
  match op with
  | .write bufNull => vblkPwriteS12 v env naddrsMax bufNull count offset
  | .read => vblkPreadS12 v env naddrsMax count offset

def CmdG.Valid (v : VblkG) (c : CmdG) : Prop := ∀ a ∈ c.addrs, nvmAddrCheckG a v.geo = 0

def VblkG.Meets (v : VblkG) (naddrsMax : Nat) (op : IoOp) (count offset : Nat) : Prop :=
  Contract (v.InRange count offset) count
    (Transfers v.geo.sectorNbytes op.bufNull count CmdG.buf fun c => c.addrs.length) (CmdG.Valid v)
    (v.io naddrsMax op count offset)

structure VblkG.MeetsWhen (v : VblkG) (naddrsMax : Nat) (op : IoOp) (count offset : Nat) : Prop where
  spage_pos : 0 < v.spageNaddrs
  spage_le : v.spageNaddrs ≤ naddrsMax
  no_wrap : ¬(width ≤ offset + count ∧ (offset + count) % width ≤ v.nbytes ∧
    v.align ∣ count ∧ v.align ∣ offset)
  metadata : v.InRange count offset → op ≠ .read → v.metaMode = .none ∨ v.geo.metaNbytes ≠ 0

section

variable {v : VblkG} {naddrsMax count offset k b c : Nat}

theorem VblkG.nbytes_lt (v : VblkG) : v.nbytes < width := Nat.mod_lt _ (by decide)

theorem VblkG.InRange.accepts (h : v.InRange count offset) (hs : 0 < v.spageNaddrs)
    (hle : v.spageNaddrs ≤ naddrsMax) (hmax : naddrsMax ≤ naddrMax) : v.Accepts naddrsMax count offset := by
  have hlt := h.bound.trans_lt v.nbytes_lt
  refine ⟨VblkG.passes_iff.mpr ⟨hs, hle, ?_, h.dvd_count, h.dvd_offset⟩, hlt, hle, hmax⟩
  rw [Nat.mod_eq_of_lt hlt]
  exact h.bound

theorem sum_cuts (k c m S : Nat) :
    ((List.range m).map fun j => min c (k - j * c) * S).sum = min (m * c) k * S := by
  induction m with
  | zero => simp
  | succ m ih =>
    have hmin : min (m * c) k + min c (k - m * c) = min ((m + 1) * c) k := by
      rw [Nat.succ_mul]
      omega
    rw [List.range_succ, List.map_append, List.sum_append, ih, ← hmin, Nat.add_mul]
    simp

theorem VblkG.transfers_cutCmds (h : v.Spages naddrsMax count offset k b c) (bufNull : Bool) :
    Transfers v.geo.sectorNbytes bufNull count CmdG.buf (fun c => c.addrs.length)
      ((List.range (rounds k c)).map (v.cutCmd bufNull k b c)) := by
  have hlen : ∀ j, (v.cutCmd bufNull k b c j).addrs.length = min c (k - j * c) * v.spageNaddrs := fun j => by
    simp [VblkG.cutCmd]
  constructor
  · have hge := SizeLoop.rounds_mul_ge (n := k) h.cmd_pos
    rw [List.map_map]
    simp only [Function.comp_def, hlen]
    rw [sum_cuts, min_eq_right hge, h.count_eq, VblkG.align, Nat.mul_assoc]
  · intro hnull x hx
    rw [h.count_eq] at hx
    obtain ⟨j, hj, i, hi, rfl⟩ := (SizeLoop.exists_pieces h.cmd_pos (q := (· = x))).mp ⟨x, hx, rfl⟩
    refine ⟨_, List.mem_map.mpr ⟨j, List.mem_range.mpr hj, rfl⟩, ?_⟩
    have hoff : (v.cutCmd bufNull k b c j).buf.off = j * c * v.align := by
      simp [VblkG.cutCmd, hnull, VblkG.align, Nat.mul_assoc]
    have hbytes : min c (k - j * c) * v.spageNaddrs * v.geo.sectorNbytes = min c (k - j * c) * v.align := by
      rw [VblkG.align, Nat.mul_assoc]
    rw [hlen, hoff, hbytes]
    omega

theorem VblkG.place_check (hn : 0 < v.nblks) (hs : 0 < v.spageNaddrs) (hle : v.spageNaddrs ≤ naddrMax)
    {s : Nat} (hs' : s < v.nblks * v.geo.npages * v.spageNaddrs) : nvmAddrCheckG (v.place s) v.geo = 0 := by
  have hi : s / v.spageNaddrs % v.nblks < v.blks.length := Nat.mod_lt _ hn
  have hmem : v.blks.getD (s / v.spageNaddrs % v.nblks) ⟨0, 0, 0, 0, 0, 0⟩ ∈ v.blks := by
    rw [List.getD_eq_getElem _ _ hi]
    exact List.getElem_mem hi
  obtain ⟨hch, hlun, -, hblk, -, -⟩ := nvmAddrCheckG_eq_zero.mp (v.blks_check _ hmem)
  have hsec : 0 < v.geo.nsectors := Nat.pos_of_mul_pos_left hs
  have hnsec : v.geo.nsectors ≤ 64 := (Nat.le_mul_of_pos_left _ v.geo.nplanes_pos).trans hle
  have hplanes := v.geo.nplanes_le
  have hpl : s % v.spageNaddrs / v.geo.nsectors < v.geo.nplanes :=
    Nat.div_lt_of_lt_mul (by rw [Nat.mul_comm]; exact Nat.mod_lt s hs)
  have hpg : s / v.spageNaddrs / v.nblks < v.geo.npages :=
    Nat.div_lt_of_lt_mul (Nat.div_lt_of_lt_mul (by rwa [Nat.mul_comm]))
  have hse := Nat.mod_lt (s % v.spageNaddrs) hsec
  have hpages := v.geo.npages_lt
  rw [nvmAddrCheckG_eq_zero]
  refine ⟨hch, hlun, ?_, hblk, ?_, ?_⟩
  · exact (Nat.mod_le _ _).trans_lt hpl
  · exact (Nat.mod_le _ _).trans_lt hpg
  · exact (Nat.mod_le _ _).trans_lt hse

theorem VblkG.valid_cutCmds (h : v.Spages naddrsMax count offset k b c) (hn : 0 < v.nblks)
    (hle : v.spageNaddrs ≤ naddrMax) (pad : Bool) :
    ∀ cmd ∈ (List.range (rounds k c)).map (v.cutCmd pad k b c), cmd.Valid v := by
  intro cmd hcmd a ha
  obtain ⟨j, hj, rfl⟩ := List.mem_map.mp hcmd
  obtain ⟨i, hi, rfl⟩ := List.mem_map.mp ha
  have hlt := (SizeLoop.lt_rounds h.cmd_pos).mp (List.mem_range.mp hj)
  have hi := List.mem_range.mp hi
  apply VblkG.place_check hn h.spage_pos hle
  have hcut : j * c + min c (k - j * c) ≤ k := by omega
  calc b * v.spageNaddrs + (j * c * v.spageNaddrs + i)
      < b * v.spageNaddrs + (j * c * v.spageNaddrs + min c (k - j * c) * v.spageNaddrs) := by omega
    _ = (b + (j * c + min c (k - j * c))) * v.spageNaddrs := by ring
    _ ≤ v.nblks * v.geo.npages * v.spageNaddrs :=
        Nat.mul_le_mul_right _ ((Nat.add_le_add_left hcut b).trans h.bound)

theorem VblkG.buffersFit_iff (h : v.Spages naddrsMax count offset k b c) (bufNull : Bool) :
    BuffersFit bufNull (c * v.spageNaddrs * v.geo.sectorNbytes % width) v.metaMode
      (c * v.spageNaddrs * v.geo.metaNbytes % width) ↔ v.metaMode = .none ∨ v.geo.metaNbytes ≠ 0 := by
  constructor
  · rintro ⟨-, hm⟩
    refine hm.imp_right fun hne h0 => hne ?_
    rw [h0, Nat.mul_zero, Nat.zero_mod]
  · intro hm
    refine ⟨fun _ => h.size_ne_zero h.sectorNbytes_lt v.geo.sectorNbytes_pos, hm.imp_right fun hne => ?_⟩
    exact h.size_ne_zero v.geo.metaNbytes_lt (Nat.pos_of_ne_zero hne)

theorem loopIo_subset {env : IoEnv} {n : Nat} {cl cmds : List CmdG} {ret : Except Errno Int}
    (h : loopIo env n count (some cl) = .returns cmds ret) : cmds ⊆ cl := by
  rw [Option.some.inj (loopIo_returns h)]
  exact List.Subset.refl _

theorem VblkG.io_subset (ha : v.Accepts naddrsMax count offset) (h : v.Spages naddrsMax count offset k b c)
    {op : IoOp} {env : IoEnv} {cmds : List CmdG} {ret : Except Errno Int}
    (hret : v.io naddrsMax op count offset env = .returns cmds ret) :
    cmds ⊆ (List.range (rounds k c)).map (v.cutCmd op.bufNull k b c) := by
  cases op with
  | read =>
    rw [VblkG.io, VblkG.pread_cuts ha h] at hret
    exact loopIo_subset hret
  | write bufNull =>
    rw [VblkG.io, VblkG.pwrite_cuts ha h] at hret
    rcases withBuffers_cases env bufNull (c * v.spageNaddrs * v.geo.sectorNbytes % width) v.metaMode
      (c * v.spageNaddrs * v.geo.metaNbytes % width) (loopIo env (v.nblks * v.geo.npages) count
        (some ((List.range (rounds k c)).map (v.cutCmd bufNull k b c)))) with hb | hb
    · exact loopIo_subset (hb.symm.trans hret)
    · rw [hb] at hret
      rw [← (Io.returns.inj hret).1]
      exact List.nil_subset _

theorem VblkG.meets_inRange (op : IoOp) (hn : 0 < v.nblks) (hr : v.InRange count offset)
    (ha : v.Accepts naddrsMax count offset) :
    v.Meets naddrsMax op count offset ↔ (op ≠ .read → v.metaMode = .none ∨ v.geo.metaNbytes ≠ 0) := by
  obtain ⟨k, b, c, h⟩ := ha.spages
  have hle : v.spageNaddrs ≤ naddrMax := ha.spage_le.trans ha.le_max
  have hsize : ssize count = count := h.ssize_count
  have hall := VblkG.valid_cutCmds h hn hle op.bufNull
  have key : v.Meets naddrsMax op count offset ↔
      (op ≠ .read → v.metaMode = .none ∨ v.geo.metaNbytes ≠ 0) ∧ ssize count = count ∧
        ∀ cmd ∈ (List.range (rounds k c)).map (v.cutCmd op.bufNull k b c), cmd.Valid v := by
    refine contract_iff_of_cmds hr ?_ ?_ ?_ (VblkG.transfers_cutCmds h op.bufNull)
    · exact fun env cmds ret hret => VblkG.io_subset ha h hret
    · intro hfit
      cases op with
      | read =>
        rw [VblkG.io, VblkG.pread_cuts ha h]
        exact loopIo_succeeding _ count h.nspages_pos
      | write bufNull =>
        rw [VblkG.io, VblkG.pwrite_cuts ha h,
          withBuffers_good_of_fit ((VblkG.buffersFit_iff h bufNull).mpr (hfit (by simp)))]
        exact loopIo_succeeding _ count h.nspages_pos
    · intro hfit cmds ret hret
      cases op with
      | read => exact hfit fun hne => absurd rfl hne
      | write bufNull =>
        have hbad : ¬ BuffersFit bufNull (c * v.spageNaddrs * v.geo.sectorNbytes % width) v.metaMode
            (c * v.spageNaddrs * v.geo.metaNbytes % width) := fun hb =>
          hfit fun _ => (VblkG.buffersFit_iff h bufNull).mp hb
        rw [VblkG.io, VblkG.pwrite_cuts ha h, withBuffers_good_of_not_fit hbad] at hret
        simp at hret
  rw [key]
  exact ⟨fun h => h.1, fun h => ⟨h, hsize, hall⟩⟩

theorem VblkG.io_checked (v : VblkG) (naddrsMax : Nat) (op : IoOp) (count offset : Nat) (env : IoEnv) :
    ∃ io, v.io naddrsMax op count offset env = v.checked naddrsMax count offset io ∧
      ∀ n, io n ≠ .returns [] (.error .einval) := by
  cases op with
  | read =>
    refine ⟨_, by rw [VblkG.io, vblkPreadS12], fun n => ?_⟩
    exact loopIo_ne_einval env _ count _ []
  | write bufNull =>
    refine ⟨_, by rw [VblkG.io, vblkPwriteS12], fun n => ?_⟩
    exact withBuffers_ne_einval (loopIo_ne_einval env _ count _ [])

theorem meets_iff_s12 (v : VblkG) (naddrsMax : Nat) (op : IoOp) (count offset : Nat) (hn : 0 < v.nblks)
    (hmax : naddrsMax ≤ naddrMax) :
    v.Meets naddrsMax op count offset ↔ v.MeetsWhen naddrsMax op count offset := by
  by_cases hs : 0 < v.spageNaddrs ∧ v.spageNaddrs ≤ naddrsMax
  · obtain ⟨hs, hle⟩ := hs
    by_cases hr : v.InRange count offset
    · rw [VblkG.meets_inRange op hn hr (hr.accepts hs hle hmax)]
      constructor
      · intro h
        refine ⟨hs, hle, fun hwrap => ?_, fun _ => h⟩
        have := hr.bound.trans_lt v.nbytes_lt
        omega
      · exact fun h => h.metadata hr
    · by_cases hp : v.Passes naddrsMax count offset
      · -- the sum wrapped: the call goes through on a range out of bounds
        obtain ⟨-, -, hbound, hc, ho⟩ := VblkG.passes_iff.mp hp
        have hwrap : width ≤ offset + count := by
          by_contra hlt
          rw [Nat.mod_eq_of_lt (not_le.mp hlt)] at hbound
          exact hr ⟨hc, ho, hbound⟩
        refine iff_of_false (not_contract_of_ne hr ?_) fun h => h.no_wrap ⟨hwrap, hbound, hc, ho⟩
        obtain ⟨io, hio, hne⟩ := VblkG.io_checked v naddrsMax op count offset .good
        rw [hio, hp]
        exact hne _
      · have hcase : ¬((offset + count) % width ≤ v.nbytes ∧ v.align ∣ count ∧ v.align ∣ offset) :=
          fun h => hp (VblkG.passes_iff.mpr ⟨hs, hle, h⟩)
        refine iff_of_true (contract_of_einval hr fun env => ?_)
          ⟨hs, hle, fun h => hcase h.2, fun hk => absurd hk hr⟩
        obtain ⟨io, hio, -⟩ := VblkG.io_checked v naddrsMax op count offset env
        have htrap : ¬(v.spageNaddrs = 0 ∨ naddrsMax / v.spageNaddrs = 0) := by
          simp [hs.ne', (Nat.div_pos hle hs).ne']
        rw [hio, VblkG.checked, if_neg htrap]
        split_ifs with hb ha
        · rfl
        · rfl
        · refine absurd ⟨not_lt.mp hb, ?_, ?_⟩ hcase
          · exact Nat.dvd_of_mod_eq_zero (not_not.mp fun hc => ha (.inl hc))
          · exact Nat.dvd_of_mod_eq_zero (not_not.mp fun ho => ha (.inr ho))
  · refine iff_of_false ?_ fun h => hs ⟨h.spage_pos, h.spage_le⟩
    have htrap : v.spageNaddrs = 0 ∨ naddrsMax / v.spageNaddrs = 0 := by
      rw [Nat.div_eq_zero_iff]
      omega
    obtain ⟨io, hio, -⟩ := VblkG.io_checked v naddrsMax op count offset .good
    apply not_contract_of_not_returns .traps
    · rw [hio, VblkG.checked, if_pos htrap]
    · simp

end

end LightNvm
