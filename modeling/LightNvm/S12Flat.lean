import LightNvm.S12Spages
import LightNvm.FlatArray
import LightNvm.Runs

/-! An OCSSD 1.2 virtual block as a flat array of bytes, whatever the command sizes of the
single calls. -/

namespace LightNvm

open SizeLoop (width rounds)

abbrev VblkG.Media (v : VblkG) := FlatArray.Media GAddr UInt8 v.geo.sectorNbytes

def VblkG.flat (v : VblkG) (m : v.Media) : Nat → UInt8 :=
  FlatArray.flat v.place v.geo.sectorNbytes_pos m

def CmdG.writes (v : VblkG) (data : Nat → UInt8) (c : CmdG) :
    List (GAddr × (Fin v.geo.sectorNbytes → UInt8)) :=
  c.addrs.mapIdx fun i a => (a, fun j => c.buf.bytes data (i * v.geo.sectorNbytes + j))

def CmdG.reads (v : VblkG) (c : CmdG) : List (GAddr × Nat) :=
  c.addrs.mapIdx fun i a => (a, c.buf.off + i * v.geo.sectorNbytes)

structure WriteCallG where
  buf : Option (Nat → UInt8)
  count : Nat
  offset : Nat
  naddrsMax : Nat
  alloc : Nat → Bool
  order : Order CmdG

def WriteCallG.io (w : WriteCallG) (v : VblkG) : Io CmdG :=
  vblkPwriteS12 v (.succeeding w.alloc) w.naddrsMax w.buf.isNone w.count w.offset

/-- The bytes of the call's range: those of the caller or, without a buffer, the fill
pattern, which every command takes from its start. -/
def WriteCallG.data (w : WriteCallG) (v : VblkG) (x : Nat) : UInt8 :=
  match w.buf with
  | some buf => buf x
  | none => BufRef.pad.bytes (fun _ => 0)
      (x % (cmdNspages v.nblks (w.naddrsMax / v.spageNaddrs) * v.align))

def VblkG.pwrite (v : VblkG) (m : v.Media) (w : WriteCallG) : v.Media :=
  match w.io v with
  | .returns cmds _ => FlatArray.store m
      ((w.order.run cmds).flatMap (CmdG.writes v (w.buf.getD fun _ => 0)))
  | _ => m

def VblkG.record (v : VblkG) (f : Nat → UInt8) (w : WriteCallG) : Nat → UInt8 :=
  match w.io v with
  | .returns _ (.ok _) => FlatArray.overwrite f w.offset w.count (w.data v)
  | _ => f

/-- A write returns its count or fails for want of memory; it does not fail when every
allocation of a non-empty buffer succeeds. Its commands keep to the configured number of
addresses and change only sectors of its range. -/
structure VblkG.WriteContract (v : VblkG) (w : WriteCallG) : Prop where
  returns : (∃ cmds, w.io v = .returns cmds (.ok w.count)) ∨ w.io v = .returns [] (.error .enomem)
  succeeds : (∀ n, n ≠ 0 → w.alloc n = true) → (v.metaMode = .none ∨ 0 < v.geo.metaNbytes) →
    ∃ cmds, w.io v = .returns cmds (.ok w.count)
  naddrs_le : ∀ cmds ret, w.io v = .returns cmds ret → ∀ c ∈ cmds, c.addrs.length ≤ w.naddrsMax
  frame : ∀ m a, (∀ s, w.offset / v.geo.sectorNbytes ≤ s →
    s < (w.offset + w.count) / v.geo.sectorNbytes → v.place s ≠ a) → v.pwrite m w a = m a

/-- A read returns its count with commands of the configured number of addresses, and
fills the buffer up to `count` with the bytes of `f`. -/
def VblkG.ReadsBack (v : VblkG) (m : v.Media) (f : Nat → UInt8) (naddrsMax count offset : Nat)
    (order : Order CmdG) : Prop :=
  ∃ cmds, vblkPreadS12 v .good naddrsMax count offset = .returns cmds (.ok count) ∧
    (∀ c ∈ cmds, c.addrs.length ≤ naddrsMax) ∧
    ∀ buf x, FlatArray.load m buf ((order.run cmds).flatMap (CmdG.reads v)) x =
      if x < count then f (offset + x) else buf x

section

variable {v : VblkG} {naddrsMax count offset k b c : Nat}

theorem VblkG.Spages.count_sectors (h : v.Spages naddrsMax count offset k b c) :
    count = k * v.spageNaddrs * v.geo.sectorNbytes := by
  rw [h.count_eq, VblkG.align, Nat.mul_assoc]

theorem VblkG.Spages.offset_sectors (h : v.Spages naddrsMax count offset k b c) :
    offset = b * v.spageNaddrs * v.geo.sectorNbytes := by
  rw [h.offset_eq, VblkG.align, Nat.mul_assoc]

theorem VblkG.length_cutCmd (h : v.Spages naddrsMax count offset k b c) (pad : Bool) (j : Nat) :
    (v.cutCmd pad k b c j).addrs.length ≤ naddrsMax := by
  calc (v.cutCmd pad k b c j).addrs.length = min c (k - j * c) * v.spageNaddrs := by
        simp [VblkG.cutCmd]
    _ ≤ c * v.spageNaddrs := Nat.mul_le_mul_right _ (min_le_left _ _)
    _ ≤ naddrsMax := h.cmd_le

theorem VblkG.cutCmd_bytes {w : WriteCallG} {j i x : Nat}
    (h : v.Spages w.naddrsMax count offset k b c) (hi : i < min c (k - j * c) * v.spageNaddrs)
    (hx : x < v.geo.sectorNbytes) :
    (v.cutCmd w.buf.isNone k b c j).buf.bytes (w.buf.getD fun _ => 0) (i * v.geo.sectorNbytes + x) =
      w.data v ((j * c * v.spageNaddrs + i) * v.geo.sectorNbytes + x) := by
  have hsplit : (j * c * v.spageNaddrs + i) * v.geo.sectorNbytes + x =
      j * (c * v.align) + (i * v.geo.sectorNbytes + x) := by
    rw [VblkG.align]
    ring
  cases hb : w.buf with
  | some buf =>
    simp only [VblkG.cutCmd, WriteCallG.data, hb, Option.isNone_some, Option.getD_some, BufRef.bytes,
      Bool.false_eq_true, if_false]
    congr 1
    ring
  | none =>
    have hlt : i * v.geo.sectorNbytes + x < c * v.align := by
      calc i * v.geo.sectorNbytes + x < (c * v.spageNaddrs) * v.geo.sectorNbytes :=
            Striping.digits_lt (hi.trans_le (Nat.mul_le_mul_right _ (min_le_left _ _))) hx
        _ = c * v.align := by rw [VblkG.align, Nat.mul_assoc]
    simp only [VblkG.cutCmd, WriteCallG.data, hb, Option.isNone_none, BufRef.bytes, if_true, ← h.cmd,
      hsplit, Nat.mul_add_mod_self_right, Nat.mod_eq_of_lt hlt]

theorem VblkG.writes_cutCmd {w : WriteCallG} (h : v.Spages w.naddrsMax count offset k b c) (j : Nat) :
    CmdG.writes v (w.buf.getD fun _ => 0) (v.cutCmd w.buf.isNone k b c j) =
      (List.range (min c (k - j * c) * v.spageNaddrs)).map fun i =>
        (v.place (b * v.spageNaddrs + (j * c * v.spageNaddrs + i)), fun x : Fin v.geo.sectorNbytes =>
          w.data v ((j * c * v.spageNaddrs + i) * v.geo.sectorNbytes + x)) := by
  apply List.ext_getElem
  · simp [CmdG.writes, VblkG.cutCmd]
  · intro i hi hi'
    have hi : i < min c (k - j * c) * v.spageNaddrs := by
      rwa [List.length_map, List.length_range] at hi'
    rw [List.getElem_map, List.getElem_range]
    simp only [CmdG.writes, List.getElem_mapIdx, Prod.mk.injEq]
    refine ⟨by simp [VblkG.cutCmd], funext fun x => ?_⟩
    exact VblkG.cutCmd_bytes h hi x.isLt

theorem VblkG.writes_cutCmds {w : WriteCallG} (h : v.Spages w.naddrsMax count offset k b c) :
    FlatArray.Writes v.place (b * v.spageNaddrs) (k * v.spageNaddrs) (w.data v)
      ((w.order.run ((List.range (rounds k c)).map (v.cutCmd w.buf.isNone k b c))).flatMap
        (CmdG.writes v (w.buf.getD fun _ => 0))) := by
  intro t
  rw [SizeLoop.exists_pieces h.cmd_pos, Order.mem_run_flatMap]
  simp only [VblkG.writes_cutCmd h, List.mem_map, List.mem_range]
  simp only [eq_comm]

theorem VblkG.reads_cutCmds (h : v.Spages naddrsMax count offset k b c) (order : Order CmdG) :
    FlatArray.Reads v.geo.sectorNbytes v.place (b * v.spageNaddrs) (k * v.spageNaddrs)
      ((order.run ((List.range (rounds k c)).map (v.cutCmd false k b c))).flatMap (CmdG.reads v)) := by
  intro t
  rw [SizeLoop.exists_pieces h.cmd_pos, Order.mem_run_flatMap]
  apply exists_congr
  intro j
  apply and_congr_right
  intro _
  simp only [CmdG.reads, VblkG.cutCmd, List.mem_mapIdx, List.length_map, List.length_range,
    List.getElem_map, List.getElem_range, exists_prop, Bool.false_eq_true, if_false, BufRef.off_user,
    Nat.add_mul, eq_comm]

theorem VblkG.pread_accepts (ha : v.Accepts naddrsMax count offset)
    (h : v.Spages naddrsMax count offset k b c) :
    vblkPreadS12 v .good naddrsMax count offset =
      .returns ((List.range (rounds k c)).map (v.cutCmd false k b c)) (.ok count) := by
  rw [VblkG.pread_cuts ha h, IoEnv.good, loopIo_succeeding _ _ h.nspages_pos, h.ssize_count]

theorem WriteCallG.io_accepts {w : WriteCallG} (ha : v.Accepts w.naddrsMax w.count w.offset)
    (h : v.Spages w.naddrsMax w.count w.offset k b c) :
    w.io v = withBuffers (.succeeding w.alloc) w.buf.isNone
      (c * v.spageNaddrs * v.geo.sectorNbytes % width) v.metaMode
      (c * v.spageNaddrs * v.geo.metaNbytes % width)
      (.returns ((List.range (rounds k c)).map (v.cutCmd w.buf.isNone k b c)) (.ok w.count)) := by
  rw [WriteCallG.io, VblkG.pwrite_cuts ha h, loopIo_succeeding _ _ h.nspages_pos, h.ssize_count]

theorem WriteCallG.io_cases {w : WriteCallG} (ha : v.Accepts w.naddrsMax w.count w.offset)
    (h : v.Spages w.naddrsMax w.count w.offset k b c) :
    w.io v = .returns ((List.range (rounds k c)).map (v.cutCmd w.buf.isNone k b c)) (.ok w.count) ∨
      w.io v = .returns [] (.error .enomem) := by
  rw [w.io_accepts ha h]
  exact withBuffers_cases ..

theorem VblkG.writeContract {w : WriteCallG} (ha : v.Accepts w.naddrsMax w.count w.offset) :
    v.WriteContract w := by
  obtain ⟨k, b, c, h⟩ := ha.spages
  constructor
  · exact (w.io_cases ha h).imp (fun hio => ⟨_, hio⟩) id
  · intro halloc hmeta
    refine ⟨_, (w.io_accepts ha h).trans (withBuffers_alloc halloc ?_ ?_ _)⟩
    · intro _
      exact h.size_ne_zero h.sectorNbytes_lt v.geo.sectorNbytes_pos
    · exact hmeta.imp_right (h.size_ne_zero v.geo.metaNbytes_lt)
  · intro cmds ret hret cmd hcmd
    rcases w.io_cases ha h with hio | hio
    · rw [hio] at hret
      obtain ⟨rfl, -⟩ := Io.returns.inj hret
      obtain ⟨j, -, rfl⟩ := List.mem_map.mp hcmd
      exact VblkG.length_cutCmd h _ j
    · rw [hio] at hret
      obtain ⟨rfl, -⟩ := Io.returns.inj hret
      simp at hcmd
  · intro m a hne
    rcases w.io_cases ha h with hio | hio
    · simp only [VblkG.pwrite, hio]
      apply FlatArray.store_frame (VblkG.writes_cutCmds h)
      intro i hi
      have hnb := v.geo.sectorNbytes_pos
      apply hne
      · rw [h.offset_sectors, Nat.mul_div_cancel _ hnb]
        omega
      · rw [h.offset_sectors, h.count_sectors, ← Nat.add_mul, Nat.mul_div_cancel _ hnb]
        omega
    · simp only [VblkG.pwrite, hio, List.Perm.eq_nil (w.order.perm []), List.flatMap_nil]
      rfl

theorem VblkG.pwrite_record {w : WriteCallG} (hd : v.DistinctBlocks)
    (ha : v.Accepts w.naddrsMax w.count w.offset) (m : v.Media) (f : Nat → UInt8)
    (hf : ∀ x < v.nblks * v.geo.npages * v.align, v.flat m x = f x) :
    ∀ x < v.nblks * v.geo.npages * v.align, v.flat (v.pwrite m w) x = v.record f w x := by
  obtain ⟨k, b, c, h⟩ := ha.spages
  intro x hx
  rcases w.io_cases ha h with hio | hio
  · have hle : b * v.spageNaddrs + k * v.spageNaddrs ≤ v.nblks * v.geo.npages * v.spageNaddrs := by
      rw [← Nat.add_mul]
      exact Nat.mul_le_mul_right _ h.bound
    have hx' : x < v.nblks * v.geo.npages * v.spageNaddrs * v.geo.sectorNbytes := by
      rwa [Nat.mul_assoc]
    have hinj : ∀ s t, s < v.nblks * v.geo.npages * v.spageNaddrs →
        t < v.nblks * v.geo.npages * v.spageNaddrs → v.place s = v.place t → s = t :=
      fun s t hs ht => VblkG.place_inj hd h.spage_pos (ha.spage_le.trans ha.le_max) hs ht
    have hstore : v.flat (v.pwrite m w) x = FlatArray.overwrite (v.flat m)
        (b * v.spageNaddrs * v.geo.sectorNbytes) (k * v.spageNaddrs * v.geo.sectorNbytes)
        (w.data v) x := by
      simp only [VblkG.pwrite, hio]
      exact FlatArray.flat_store hinj hle (VblkG.writes_cutCmds h) hx'
    simp only [hstore, VblkG.record, hio, ← h.count_sectors, ← h.offset_sectors, FlatArray.overwrite,
      hf x hx]
  · simp only [VblkG.pwrite, VblkG.record, hio, List.Perm.eq_nil (w.order.perm []), List.flatMap_nil]
    exact hf x hx

theorem VblkG.readsBack (ha : v.Accepts naddrsMax count offset) (order : Order CmdG) (m : v.Media)
    (f : Nat → UInt8) (hf : ∀ x < v.nblks * v.geo.npages * v.align, v.flat m x = f x) :
    v.ReadsBack m f naddrsMax count offset order := by
  obtain ⟨k, b, c, h⟩ := ha.spages
  refine ⟨_, VblkG.pread_accepts ha h, ?_, fun buf x => ?_⟩
  · intro cmd hcmd
    obtain ⟨j, -, rfl⟩ := List.mem_map.mp hcmd
    exact VblkG.length_cutCmd h _ j
  · have hload : FlatArray.load m buf _ x = if x < _ * v.geo.sectorNbytes then
        v.flat m (_ * v.geo.sectorNbytes + x) else buf x :=
      FlatArray.load_flat (VblkG.reads_cutCmds h order) x
    rw [hload, ← h.count_sectors, ← h.offset_sectors]
    split_ifs with hx
    · apply hf
      calc offset + x < offset + count := by omega
        _ = (b + k) * v.align := by rw [h.offset_eq, h.count_eq, Nat.add_mul]
        _ ≤ v.nblks * v.geo.npages * v.align := Nat.mul_le_mul_right _ h.bound
    · rfl

end

/-- The flat array for every sequence of accepted writes and an accepted read after it. -/
theorem s12_flat_array (v : VblkG) (hd : v.DistinctBlocks) (m : v.Media) (writes : List WriteCallG)
    (hwrites : ∀ w ∈ writes, v.Accepts w.naddrsMax w.count w.offset) :
    (∀ w ∈ writes, v.WriteContract w) ∧
    ∀ naddrsMax count offset, v.Accepts naddrsMax count offset → ∀ order : Order CmdG,
      v.ReadsBack (Runs.run v.pwrite m writes) (Runs.run v.record (v.flat m) writes)
        naddrsMax count offset order := by
  constructor
  · exact fun w hw => VblkG.writeContract (hwrites w hw)
  · intro naddrsMax count offset ha order
    apply VblkG.readsBack ha order
    -- both runs go through the same calls and stay equal below the size of the block
    exact Runs.run_relates (R := fun m f => ∀ x < v.nblks * v.geo.npages * v.align, v.flat m x = f x)
      (fun w hw m f hf => VblkG.pwrite_record hd (hwrites w hw) m f hf) (fun _ _ => rfl)

theorem s12_flat_array_changed_sizes :
    let writes : List WriteCallG :=
      [⟨some fun x => UInt8.ofNat x, 2048, 0, 2, fun _ => true, .loop⟩,
        ⟨none, 1024, 1024, 4, fun _ => true, .loop⟩]
    tinyVblkG.ReadsBack (Runs.run tinyVblkG.pwrite (fun _ _ => 0) writes)
      (Runs.run tinyVblkG.record (tinyVblkG.flat fun _ _ => 0) writes) 64 4096 0 .loop := by
  intro writes
  refine (s12_flat_array tinyVblkG ?_ _ writes ?_).2 64 4096 0
    ⟨VblkG.passes_iff.mpr (by decide), by decide, by decide, by decide⟩ .loop
  · rw [VblkG.DistinctBlocks]
    decide
  · intro w hw
    rcases List.mem_cons.mp hw with rfl | hw
    · exact ⟨VblkG.passes_iff.mpr (by decide), by decide, by decide, by decide⟩
    · obtain rfl := List.mem_singleton.mp hw
      exact ⟨VblkG.passes_iff.mpr (by decide), by decide, by decide, by decide⟩

end LightNvm
