import LightNvm.S20Units
import LightNvm.FlatArray

/-! A synchronous OCSSD 2.0 virtual block as a flat array of bytes. Writes keep to the
range they are given; vector reads go on to the end of their last command. -/

namespace LightNvm

open SizeLoop (width rounds progression)

def VblkL.DistinctChunks (v : VblkL) : Prop := (v.blks.map LAddr.chunkOf).Nodup

structure VblkL.InRange (v : VblkL) (count offset : Nat) : Prop where
  dvd_count : v.wsOpt * v.geo.nbytes ∣ count
  dvd_offset : v.wsOpt * v.geo.nbytes ∣ offset
  bound : offset + count ≤ v.nbytes

abbrev VblkL.Media (v : VblkL) := FlatArray.Media LAddr UInt8 v.geo.nbytes

def VblkL.place (v : VblkL) (sectr : Nat) : LAddr := v.addr (v.sectrSlot sectr)

def VblkL.flat (v : VblkL) (m : v.Media) : Nat → UInt8 := FlatArray.flat v.place v.geo.nbytes_pos m

def CmdL.writes (v : VblkL) (data : Nat → UInt8) (c : CmdL) :
    List (LAddr × (Fin v.geo.nbytes → UInt8)) :=
  (c.sectors v).mapIdx fun i a => (a, fun j => c.buf.bytes data (i * v.geo.nbytes + j))

def CmdL.reads (v : VblkL) (c : CmdL) : List (LAddr × Nat) :=
  (c.sectors v).mapIdx fun i a => (a, c.buf.off + i * v.geo.nbytes)

structure WriteCallL where
  data : Nat → UInt8
  count : Nat
  offset : Nat
  order : Order CmdL

def VblkL.pwrite (v : VblkL) (m : v.Media) (w : WriteCallL) : Option v.Media :=
  match vblkSyncPwriteS20 v .good false w.count w.offset with
  | .returns cmds (.ok _) => some (FlatArray.store m ((w.order.run cmds).flatMap (CmdL.writes v w.data)))
  | _ => none

/-- The writes and the read return, the read takes only sectors of its range, stores only
below `count`, and fills the buffer with the bytes last written. -/
def VblkL.FlatRead (v : VblkL) (m : v.Media) (writes : List WriteCallL) (order : Order CmdL)
    (count offset : Nat) : Prop :=
  ∃ m' cmds ret, writes.foldlM v.pwrite m = some m' ∧
    vblkSyncPreadS20 v .good count offset = .returns cmds (.ok ret) ∧
    (∀ t ∈ (order.run cmds).flatMap (CmdL.reads v),
      (∃ s, offset / v.geo.nbytes ≤ s ∧ s < offset / v.geo.nbytes + count / v.geo.nbytes ∧
        t.1 = v.place s) ∧ t.2 + v.geo.nbytes ≤ count) ∧
    ∀ buf, ∀ x < count, FlatArray.load m' buf ((order.run cmds).flatMap (CmdL.reads v)) x =
      writes.foldl (fun f w => FlatArray.overwrite f w.offset w.count w.data) (v.flat m) (offset + x)

/-- With a metadata mode set, the metadata of a write is not empty. -/
def VblkL.MetaFits (v : VblkL) : Prop :=
  v.metaMode = .none ∨ v.wsOpt * v.geo.nbytesOob % width ≠ 0

/-! Placement. -/

theorem VblkL.place_unit {v : VblkL} {u i : Nat} (hi : i < v.wsOpt) :
    v.place (u * v.wsOpt + i) = v.addr ⟨u % v.nblks, u / v.nblks * v.wsOpt + i⟩ := by
  rw [VblkL.place, VblkL.sectrSlot_unit hi]

theorem VblkL.chunkOf_addr (v : VblkL) {s : Slot} (hs : s.chunk < v.nblks) :
    (v.blks.map LAddr.chunkOf)[s.chunk]? = some (v.addr s).chunkOf := by
  have hs' : s.chunk < v.blks.length := hs
  simp [VblkL.addr, LAddr.chunkOf, hs']

theorem VblkL.chunk_eq_of_chunkOf {v : VblkL} (hd : v.DistinctChunks) {s t : Slot}
    (hs : s.chunk < v.nblks) (ht : t.chunk < v.nblks) (h : (v.addr s).chunkOf = (v.addr t).chunkOf) :
    s.chunk = t.chunk := by
  have hs' : s.chunk < (v.blks.map LAddr.chunkOf).length := by
    rw [List.length_map]
    exact hs
  apply (List.getElem?_inj hs' hd).mp
  rw [v.chunkOf_addr hs, v.chunkOf_addr ht, h]

theorem VblkL.addr_inj {v : VblkL} (hd : v.DistinctChunks) {s t : Slot} (hs : s.chunk < v.nblks)
    (ht : t.chunk < v.nblks) (h : v.addr s = v.addr t) :
    s.chunk = t.chunk ∧ s.sectr % 2 ^ 32 = t.sectr % 2 ^ 32 := by
  constructor
  · exact VblkL.chunk_eq_of_chunkOf hd hs ht (by rw [h])
  · have hsectr := congrArg (fun a => a.sectr.toNat) h
    simpa [VblkL.addr] using hsectr

theorem VblkL.place_inj {v : VblkL} (hd : v.DistinctChunks) (hw : 0 < v.wsOpt)
    (hdvd : v.wsOpt ∣ v.geo.nsectr) {s t : Nat} (hs : s < v.nblks * v.geo.nsectr)
    (ht : t < v.nblks * v.geo.nsectr) (h : v.place s = v.place t) : s = t := by
  have hn : 0 < v.nblks := Nat.pos_of_ne_zero (by rintro h0; simp [h0] at hs)
  have hlt := v.geo.nsectr_lt
  have hps : Striping.pos v.wsOpt v.nblks s < v.geo.nsectr := Striping.pos_lt hw hdvd hs
  have hpt : Striping.pos v.wsOpt v.nblks t < v.geo.nsectr := Striping.pos_lt hw hdvd ht
  obtain ⟨hchunk, hsectr⟩ := VblkL.addr_inj hd (s := v.sectrSlot s) (t := v.sectrSlot t)
    (Nat.mod_lt _ hn) (Nat.mod_lt _ hn) h
  change Striping.pos v.wsOpt v.nblks s % 2 ^ 32 = Striping.pos v.wsOpt v.nblks t % 2 ^ 32 at hsectr
  rw [Nat.mod_eq_of_lt (by omega), Nat.mod_eq_of_lt (by omega)] at hsectr
  exact Striping.lane_pos_inj hw hchunk hsectr

/-! Commands. -/

theorem sectors_scalar {v : VblkL} (hm : v.mode = .scalar) (s : Slot) (ss : List Slot) (w : Nat)
    (buf : BufRef) : CmdL.sectors v ⟨s :: ss, w, buf⟩ =
      (List.range w).map fun i => v.addr ⟨s.chunk, s.sectr + i⟩ := by
  simp [CmdL.sectors, hm, VblkL.addr, BitVec.ofNat_add]

/-- The sectors a command transfers as chunks of the virtual block and sectors in them. -/
def CmdL.transfers (v : VblkL) (c : CmdL) : List Slot :=
  match v.mode with
  | .vector => c.slots
  | .scalar =>
    match c.slots with
    | [] => []
    | s :: _ => (List.range c.naddrs).map fun i => ⟨s.chunk, s.sectr + i⟩

theorem sectors_eq_transfers (v : VblkL) (c : CmdL) : c.sectors v = (c.transfers v).map v.addr := by
  rcases c with ⟨slots, naddrs, buf⟩
  cases hm : v.mode with
  | vector => simp [CmdL.sectors, CmdL.transfers, hm]
  | scalar =>
    cases slots with
    | nil => simp [CmdL.sectors, CmdL.transfers, hm]
    | cons s ss =>
      rw [sectors_scalar hm]
      simp [CmdL.transfers, hm, Function.comp_def]

theorem transfers_run (v : VblkL) (chunk sectr w : Nat) (buf : BufRef) :
    CmdL.transfers v ⟨(List.range w).map fun i => ⟨chunk, sectr + i⟩, w, buf⟩ =
      (List.range w).map fun i => ⟨chunk, sectr + i⟩ := by
  cases hm : v.mode with
  | vector => simp [CmdL.transfers, hm]
  | scalar =>
    cases w with
    | zero => simp [CmdL.transfers, hm]
    | succ w =>
      simp only [CmdL.transfers, hm]
      rw [List.range_succ_eq_map, List.map_cons, Nat.add_zero]
      rfl

theorem sectors_run (v : VblkL) (chunk sectr w : Nat) (buf : BufRef) :
    CmdL.sectors v ⟨(List.range w).map fun i => ⟨chunk, sectr + i⟩, w, buf⟩ =
      (List.range w).map fun i => v.addr ⟨chunk, sectr + i⟩ := by
  rw [sectors_eq_transfers, transfers_run, List.map_map]
  rfl

theorem transfers_unitCmd {v : VblkL} (pad : Bool) (j u : Nat) :
    (v.unitCmd pad j u).transfers v = (List.range v.wsOpt).map fun i => v.sectrSlot (u * v.wsOpt + i) := by
  rw [VblkL.unitCmd, transfers_run]
  apply List.map_congr_left
  intro i hi
  rw [VblkL.sectrSlot_unit (List.mem_range.mp hi)]

theorem sectors_unitCmd {v : VblkL} (pad : Bool) (j u : Nat) :
    (v.unitCmd pad j u).sectors v = (List.range v.wsOpt).map fun i => v.place (u * v.wsOpt + i) := by
  rw [sectors_eq_transfers, transfers_unitCmd, List.map_map]
  rfl

section

variable {v : VblkL} {cmd : Nat → CmdL} {b n q : Nat}

theorem writes_cmds (hs : ∀ j < n, (cmd j).sectors v = (List.range q).map fun i => v.place (b + (j * q + i)))
    (hb : ∀ j < n, (cmd j).buf = .user (j * q * v.geo.nbytes)) (data : Nat → UInt8) (order : Order CmdL) :
    FlatArray.Writes v.place b (n * q) data
      ((order.run ((List.range n).map cmd)).flatMap (CmdL.writes v data)) := by
  intro t
  rw [Striping.exists_digits, Order.mem_run_flatMap]
  apply exists_congr
  intro j
  apply and_congr_right
  intro hj
  have hdata : ∀ i x : Nat, j * q * v.geo.nbytes + (i * v.geo.nbytes + x) =
      (j * q + i) * v.geo.nbytes + x := fun i x => by ring
  simp only [CmdL.writes, hs j hj, hb j hj, List.mem_mapIdx, List.length_map, List.length_range,
    List.getElem_map, List.getElem_range, exists_prop, BufRef.bytes, hdata, eq_comm]

theorem reads_cmds (hs : ∀ j < n, (cmd j).sectors v = (List.range q).map fun i => v.place (b + (j * q + i)))
    (hb : ∀ j < n, (cmd j).buf.off = j * q * v.geo.nbytes) (order : Order CmdL) :
    FlatArray.Reads v.geo.nbytes v.place b (n * q)
      ((order.run ((List.range n).map cmd)).flatMap (CmdL.reads v)) := by
  intro t
  rw [Striping.exists_digits, Order.mem_run_flatMap]
  apply exists_congr
  intro j
  apply and_congr_right
  intro hj
  simp only [CmdL.reads, hs j hj, hb j hj, List.mem_mapIdx, List.length_map, List.length_range,
    List.getElem_map, List.getElem_range, exists_prop, Nat.add_mul, eq_comm]

end

theorem writes_unitCmds (v : VblkL) (data : Nat → UInt8) (order : Order CmdL)
    (k u : Nat) : FlatArray.Writes v.place (u * v.wsOpt) (k * v.wsOpt) data
      ((order.run ((List.range k).map fun j => v.unitCmd false j (u + j))).flatMap
        (CmdL.writes v data)) := by
  apply writes_cmds
  · intro j _
    rw [sectors_unitCmd]
    apply List.map_congr_left
    intro i _
    rw [Nat.add_mul, Nat.add_assoc]
  · exact fun _ _ => rfl

theorem checked_inRange {v : VblkL} (hw : 0 < v.wsOpt) {count offset k u : Nat}
    (h : v.Units count offset k u) (io : Io CmdL) : v.checked count offset io = io := by
  simp [VblkL.checked, h.count_div, h.offset_div, hw.ne']

theorem buffered_good {v : VblkL} (count : Nat) (io : Io CmdL) [Decidable v.MetaFits] :
    v.buffered .good false count io = if v.MetaFits then io else .returns [] (.error .enomem) := by
  by_cases hm : v.metaMode = .none
  · simp [VblkL.buffered, withBuffers, VblkL.MetaFits, hm]
  · by_cases h0 : v.wsOpt * v.geo.nbytesOob % width = 0
    · simp [VblkL.buffered, withBuffers, VblkL.MetaFits, hm, h0, nvmBufAlloc]
    · simp [VblkL.buffered, withBuffers, VblkL.MetaFits, hm, h0, nvmBufAlloc, IoEnv.good, IoEnv.succeeding]

theorem loopIo_good {κ : Type} {nblks : Nat} (hn : 0 < nblks) (count : Nat) (cmds : List κ) :
    loopIo .good nblks count (some cmds) = .returns cmds (.ok (ssize count)) :=
  loopIo_succeeding _ count fun _ => hn

section

variable {v : VblkL} {count offset k u : Nat}

theorem VblkL.Units.nblks_pos (h : v.Units count offset k u) (hw : 0 < v.wsOpt)
    (hb : offset + count ≤ v.nbytes) (hne : ¬(k = 0 ∧ u = 0)) : 0 < v.nblks := by
  have hle := h.sectors_le hb
  apply Nat.pos_of_ne_zero
  intro h0
  rw [h0, Nat.zero_mul, Nat.le_zero, Nat.mul_eq_zero] at hle
  omega

theorem pwrite_ok (h : v.Units count offset k u) (hw : 0 < v.wsOpt)
    (hb : offset + count ≤ v.nbytes) (hm : v.MetaFits) (hne : ¬(k = 0 ∧ u = 0)) (m : v.Media)
    (data : Nat → UInt8) (order : Order CmdL) : v.pwrite m ⟨data, count, offset, order⟩ =
      some (FlatArray.store m ((order.run ((List.range k).map fun j => v.unitCmd false j (u + j))).flatMap
        (CmdL.writes v data))) := by
  classical
  have hcmds := syncWriteCmds_eq h false hw hne (h.fits hb) (VblkL.Units.count_lt hb)
  simp only [VblkL.pwrite, vblkSyncPwriteS20, checked_inRange hw h, buffered_good, hm, if_true, hcmds,
    loopIo_good (h.nblks_pos hw hb hne)]

theorem pwrite_none (h : v.Units count offset k u) (hw : 0 < v.wsOpt)
    (hne : ¬(v.MetaFits ∧ ¬(k = 0 ∧ u = 0))) (m : v.Media) (data : Nat → UInt8) (order : Order CmdL) :
    v.pwrite m ⟨data, count, offset, order⟩ = none := by
  classical
  simp only [VblkL.pwrite, vblkSyncPwriteS20, checked_inRange hw h, buffered_good]
  by_cases hm : v.MetaFits
  · have h0 : k = 0 ∧ u = 0 := by
      by_contra h0
      exact hne ⟨hm, h0⟩
    have hend : v.syncWriteCmds false count offset = none := syncWriteCmds_endless false
      (by rw [h.offset_div, h0.2, Nat.zero_mul]) (by rw [h.count_div, h0.1, Nat.zero_mul])
    by_cases hn : v.nblks = 0 <;> simp [hm, hend, loopIo, hn]
  · simp [hm]

/-! Reads. -/

theorem readNsectr_pos (hw : 0 < v.wsOpt) : 0 < v.readNsectr := by
  cases hm : v.mode <;> simp [VblkL.readNsectr, hm, naddrMax, hw]

theorem syncReadCmd_buf (v : VblkL) (sectrBgn sectrOfz : Nat) :
    (v.syncReadCmd sectrBgn sectrOfz).buf = .user (v.bufOff sectrBgn sectrOfz) := rfl

theorem transfers_readCmd {u j : Nat} (hw : 0 < v.wsOpt)
    (hfit : u * v.wsOpt + j * v.readNsectr + v.readNsectr ≤ width) :
    (v.syncReadCmd (u * v.wsOpt) (u * v.wsOpt + j * v.readNsectr)).transfers v =
      (List.range v.readNsectr).map fun i => v.sectrSlot (u * v.wsOpt + (j * v.readNsectr + i)) := by
  cases hm : v.mode with
  | vector =>
    simp only [CmdL.transfers, VblkL.syncReadCmd, hm]
    apply List.map_congr_left
    intro i hi
    have hlt := List.mem_range.mp hi
    rw [Nat.mod_eq_of_lt (by omega), Nat.add_assoc]
  | scalar =>
    have hq : v.readNsectr = v.wsOpt := by simp [VblkL.readNsectr, hm]
    rw [hq] at hfit ⊢
    have hmin : min 1 v.wsOpt = 1 := by omega
    have hslot : v.sectrSlot ((u * v.wsOpt + j * v.wsOpt + 0) % width) =
        ⟨(u + j) % v.nblks, (u + j) / v.nblks * v.wsOpt⟩ := by
      have h0 := VblkL.sectrSlot_unit (u := u + j) hw
      rwa [Nat.mod_eq_of_lt (by omega), ← Nat.add_mul]
    simp only [CmdL.transfers, VblkL.syncReadCmd, hm, hq, hmin, List.range_one, List.map_cons, List.map_nil,
      hslot]
    apply List.map_congr_left
    intro i hi
    rw [← Nat.add_assoc, ← Nat.add_mul, VblkL.sectrSlot_unit (List.mem_range.mp hi)]

theorem sectors_readCmd {u j : Nat} (hw : 0 < v.wsOpt)
    (hfit : u * v.wsOpt + j * v.readNsectr + v.readNsectr ≤ width) :
    (v.syncReadCmd (u * v.wsOpt) (u * v.wsOpt + j * v.readNsectr)).sectors v =
      (List.range v.readNsectr).map fun i => v.place (u * v.wsOpt + (j * v.readNsectr + i)) := by
  rw [sectors_eq_transfers, transfers_readCmd hw hfit, List.map_map]
  rfl

theorem syncReadCmds_eq (h : v.Units count offset k u) (hw : 0 < v.wsOpt) (hne : ¬(k = 0 ∧ u = 0))
    (hfit : (u + k) * v.wsOpt + v.readNsectr ≤ width) :
    v.syncReadCmds count offset = some ((List.range (rounds (k * v.wsOpt) v.readNsectr)).map fun j =>
      v.syncReadCmd (u * v.wsOpt) (u * v.wsOpt + j * v.readNsectr)) := by
  have hsum : u * v.wsOpt + k * v.wsOpt = (u + k) * v.wsOpt := by ring
  have h0 : u * v.wsOpt + k * v.wsOpt ≠ 0 := by
    rw [hsum, ne_eq, Nat.mul_eq_zero]
    omega
  have hloop := sectrLoop_eq h.offset_div h.count_div (readNsectr_pos hw) h0 (by omega)
  simp only [VblkL.syncReadCmds, hloop, Option.map_some, Option.some.injEq]
  simp only [h.offset_div, progression, List.map_map, Function.comp_def]

theorem reads_readCmds (h : v.Units count offset k u) (hw : 0 < v.wsOpt) (hc : count < width)
    (hfit : (u + k) * v.wsOpt + v.readNsectr ≤ width) (order : Order CmdL) :
    FlatArray.Reads v.geo.nbytes v.place (u * v.wsOpt)
      (rounds (k * v.wsOpt) v.readNsectr * v.readNsectr)
      ((order.run ((List.range (rounds (k * v.wsOpt) v.readNsectr)).map fun j =>
        v.syncReadCmd (u * v.wsOpt) (u * v.wsOpt + j * v.readNsectr))).flatMap (CmdL.reads v)) := by
  have hsum : u * v.wsOpt + k * v.wsOpt = (u + k) * v.wsOpt := by ring
  apply reads_cmds
  · intro j hj
    have hjlt := (SizeLoop.lt_rounds (readNsectr_pos hw)).mp hj
    exact sectors_readCmd hw (by omega)
  · intro j hj
    have hjlt := (SizeLoop.lt_rounds (readNsectr_pos hw)).mp hj
    have hbytes : j * v.readNsectr * v.geo.nbytes ≤ count := by
      rw [h.count]
      exact Nat.mul_le_mul_right _ hjlt.le
    rw [syncReadCmd_buf, BufRef.off_user]
    exact VblkL.bufOff_add (by omega) (by omega)

end

theorem syncPwriteS20_good {v : VblkL} {count offset k u : Nat} (h : v.Units count offset k u)
    (hm : v.metaMode = .none) (hn : 0 < v.nblks) (hw : 0 < v.wsOpt) (hne : ¬(k = 0 ∧ u = 0))
    (hfit : (u + k) * v.wsOpt + v.wsOpt ≤ width) (hc : count < width) :
    vblkSyncPwriteS20 v .good false count offset =
      .returns ((List.range k).map fun j => v.unitCmd false j (u + j)) (.ok (ssize count)) := by
  rw [vblkSyncPwriteS20, checked_inRange hw h, syncWriteCmds_eq h false hw hne hfit hc, loopIo_good hn]
  simp [VblkL.buffered, withBuffers, hm]

/-! The flat array. -/

section

variable {v : VblkL} {count offset k u : Nat}

theorem pread_good (h : v.Units count offset k u) (hw : 0 < v.wsOpt) (hb : offset + count ≤ v.nbytes)
    (hne : ¬(k = 0 ∧ u = 0)) (hfit : (u + k) * v.wsOpt + v.readNsectr ≤ width) :
    vblkSyncPreadS20 v .good count offset =
      .returns ((List.range (rounds (k * v.wsOpt) v.readNsectr)).map fun j =>
        v.syncReadCmd (u * v.wsOpt) (u * v.wsOpt + j * v.readNsectr)) (.ok (ssize count)) := by
  rw [vblkSyncPreadS20, checked_inRange hw h, syncReadCmds_eq h hw hne hfit,
    loopIo_good (h.nblks_pos hw hb hne)]

theorem VblkL.Units.readFits (h : v.Units count offset k u) (hb : offset + count ≤ v.nbytes) :
    (u + k) * v.wsOpt + v.readNsectr ≤ width := by
  have h₁ := (h.sectors_le hb).trans v.nsectrs_le
  have h₂ : v.readNsectr < 2 ^ 31 := by
    cases hm : v.mode with
    | vector => simp [VblkL.readNsectr, hm, naddrMax]
    | scalar =>
      rw [VblkL.readNsectr, hm]
      exact v.geo.wsOpt_lt
  have h₃ : width = 2 ^ 64 := rfl
  omega

theorem readRounds_mul (h : v.Units count offset k u) (hw : 0 < v.wsOpt) :
    rounds (k * v.wsOpt) v.readNsectr * v.readNsectr = k * v.wsOpt ↔
      v.mode = .scalar ∨ naddrMax * v.geo.nbytes ∣ count := by
  cases hm : v.mode with
  | scalar => simp [VblkL.readNsectr, hm, SizeLoop.rounds_mul hw]
  | vector =>
    have hq : v.readNsectr = naddrMax := by simp [VblkL.readNsectr, hm]
    have h64 : 0 < naddrMax := by decide
    rw [hq, h.count, Nat.mul_dvd_mul_iff_right v.geo.nbytes_pos]
    constructor
    · exact fun he => .inr (Dvd.intro_left _ he)
    · rintro (hv | ⟨r, hr⟩)
      · simp at hv
      · rw [hr, Nat.mul_comm naddrMax r, SizeLoop.rounds_mul h64]

theorem pwrite_flat (hd : v.DistinctChunks) (hw : 0 < v.wsOpt) (hdvd : v.wsOpt ∣ v.geo.nsectr)
    (h : v.Units count offset k u) (hb : offset + count ≤ v.nbytes) (hm : v.MetaFits)
    (hne : ¬(k = 0 ∧ u = 0)) (m : v.Media) (data : Nat → UInt8) (order : Order CmdL) :
    ∃ m', v.pwrite m ⟨data, count, offset, order⟩ = some m' ∧
      ∀ x < v.nblks * v.geo.nsectr * v.geo.nbytes,
        v.flat m' x = FlatArray.overwrite (v.flat m) offset count data x := by
  refine ⟨_, pwrite_ok h hw hb hm hne m data order, fun x hx => ?_⟩
  have hle : u * v.wsOpt + k * v.wsOpt ≤ v.nblks * v.geo.nsectr := by
    rw [← Nat.add_mul]
    exact h.sectors_le hb
  rw [h.offset, h.count]
  exact FlatArray.flat_store (fun s t hs ht => VblkL.place_inj hd hw hdvd hs ht) hle
    (writes_unitCmds v data order k u) hx

/-- What a write of an aligned range in bounds needs so as to end. -/
theorem pwrite_fits (hw : 0 < v.wsOpt) {w : WriteCallL} (hr : v.InRange w.count w.offset) {m m' : v.Media}
    (hstep : v.pwrite m w = some m') : v.MetaFits ∧ ¬(w.count = 0 ∧ w.offset = 0) := by
  obtain ⟨k, u, h⟩ := VblkL.units_of_dvd hr.dvd_count hr.dvd_offset
  rw [h.count_eq_zero hw, h.offset_eq_zero hw]
  by_contra hbad
  rw [pwrite_none h hw hbad] at hstep
  simp at hstep

theorem pwrite_overwrites (hd : v.DistinctChunks) (hw : 0 < v.wsOpt) (hdvd : v.wsOpt ∣ v.geo.nsectr)
    {w : WriteCallL} (hr : v.InRange w.count w.offset)
    (hfits : v.MetaFits ∧ ¬(w.count = 0 ∧ w.offset = 0)) (m : v.Media) :
    ∃ m', v.pwrite m w = some m' ∧ ∀ x < v.nblks * v.geo.nsectr * v.geo.nbytes,
      v.flat m' x = FlatArray.overwrite (v.flat m) w.offset w.count w.data x := by
  obtain ⟨k, u, h⟩ := VblkL.units_of_dvd hr.dvd_count hr.dvd_offset
  rw [h.count_eq_zero hw, h.offset_eq_zero hw] at hfits
  exact pwrite_flat hd hw hdvd h hr.bound hfits.1 hfits.2 m w.data w.order

end

/-- The flat array on every aligned range in bounds: the writes must end, and a vector
read must be of a multiple of its command size. -/
theorem sync_flat_array_iff (v : VblkL) (hd : v.DistinctChunks) (hw : 0 < v.wsOpt)
    (hdvd : v.wsOpt ∣ v.geo.nsectr) (m : v.Media) (writes : List WriteCallL)
    (hwrites : ∀ w ∈ writes, v.InRange w.count w.offset) (order : Order CmdL) (count offset : Nat)
    (hr : v.InRange count offset) (hpos : 0 < count) :
    v.FlatRead m writes order count offset ↔
      (∀ w ∈ writes, v.MetaFits ∧ ¬(w.count = 0 ∧ w.offset = 0)) ∧
      (v.mode = .scalar ∨ naddrMax * v.geo.nbytes ∣ count) := by
  obtain ⟨k, u, h⟩ := VblkL.units_of_dvd hr.dvd_count hr.dvd_offset
  have hk : k ≠ 0 := fun hk => hpos.ne' ((h.count_eq_zero hw).mpr hk)
  have hne : ¬(k = 0 ∧ u = 0) := fun h0 => hk h0.1
  have hcount := VblkL.Units.count_lt hr.bound
  have hread := pread_good h hw hr.bound hne (h.readFits hr.bound)
  have hreads := reads_readCmds h hw hcount (h.readFits hr.bound) order
  have hge := SizeLoop.rounds_mul_ge (n := k * v.wsOpt) (readNsectr_pos hw)
  rw [← readRounds_mul h hw]
  constructor
  · rintro ⟨m', cmds, ret, hfold, hret, hts, -⟩
    obtain ⟨rfl, -⟩ : _ = cmds ∧ _ = Except.ok ret := by
      rw [hread] at hret
      exact Io.returns.inj hret
    constructor
    · intro w hwm
      obtain ⟨m₁, m₂, hstep⟩ := FlatArray.step_of_foldlM hfold w hwm
      exact pwrite_fits hw (hwrites w hwm) hstep
    · apply le_antisymm _ hge
      by_contra hlt
      have hmem := (hreads (v.place (u * v.wsOpt + k * v.wsOpt), k * v.wsOpt * v.geo.nbytes)).mpr
        ⟨k * v.wsOpt, not_le.mp hlt, rfl⟩
      have hend := (hts _ hmem).2
      have hnb := v.geo.nbytes_pos
      rw [h.count] at hend
      omega
  · rintro ⟨hok, hmul⟩
    have hstep := fun w hwm => pwrite_overwrites hd hw hdvd (hwrites w hwm) (hok w hwm)
    obtain ⟨m', hfold, hflat⟩ := FlatArray.flat_foldlM writes hstep m (v.flat m) (fun _ _ => rfl)
    refine ⟨m', _, _, hfold, hread, ?_, ?_⟩
    · intro t ht
      obtain ⟨i, hi, rfl⟩ := (hreads t).mp ht
      rw [hmul] at hi
      refine ⟨⟨u * v.wsOpt + i, ?_, ?_, rfl⟩, ?_⟩
      · rw [h.offset_div]; omega
      · rw [h.offset_div, h.count_div]; omega
      · rw [h.count, ← Nat.succ_mul]
        exact Nat.mul_le_mul_right _ hi
    · intro buf x hx
      have hload : FlatArray.load m' buf _ x = if x < _ * v.geo.nbytes then
          v.flat m' (u * v.wsOpt * v.geo.nbytes + x) else buf x := FlatArray.load_flat hreads x
      rw [hmul, ← h.count, if_pos hx, ← h.offset] at hload
      have hle := v.nbytes_le
      have hbound := hr.bound
      rw [hload]
      exact hflat (offset + x) (by omega)

theorem sync_flat_array_iff_scalar :
    (tinyVblk .scalar false).FlatRead (fun _ _ => 0) [⟨fun x => UInt8.ofNat x, 4096, 0, .loop⟩] .loop
      1024 1024 := by
  refine (sync_flat_array_iff (tinyVblk .scalar false) ?_ (by decide) (by decide) _ _ ?_ .loop 1024 1024
    ⟨by decide, by decide, by decide⟩ (by decide)).mpr ⟨?_, .inl rfl⟩
  · rw [VblkL.DistinctChunks]
    decide
  · intro w hw
    obtain rfl := List.mem_singleton.mp hw
    exact ⟨by decide, by decide, by decide⟩
  · intro w hw
    obtain rfl := List.mem_singleton.mp hw
    exact ⟨.inl rfl, by simp⟩

/-- In vector mode the read of one unit of two sectors takes 64 sectors. -/
theorem vector_read_exceeds_range :
    let v := tinyVblk .vector false
    v.DistinctChunks ∧ 0 < v.wsOpt ∧ v.wsOpt ∣ v.geo.nsectr ∧ v.InRange 1024 0 ∧
    ¬ v.FlatRead (fun _ _ => 0) [] .loop 1024 0 := by
  intro v
  have hw : 0 < v.wsOpt := by decide
  have hr : v.InRange 1024 0 := ⟨by decide, by decide, by decide⟩
  have h : v.Units 1024 0 1 0 := ⟨by decide, by decide⟩
  refine ⟨?_, hw, by decide, hr, ?_⟩
  · rw [VblkL.DistinctChunks]
    decide
  · rintro ⟨m', cmds, ret, -, hret, hts, -⟩
    rw [pread_good h hw hr.bound (by decide) (h.readFits hr.bound)] at hret
    obtain ⟨rfl, -⟩ := Io.returns.inj hret
    have hmem := (reads_readCmds h hw (by decide) (h.readFits hr.bound) .loop (v.place (0 + 63), 63 * 512)).mpr
      ⟨63, by decide, rfl⟩
    exact absurd (hts _ hmem).2 (by decide)

end LightNvm
