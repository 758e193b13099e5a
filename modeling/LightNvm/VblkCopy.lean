import LightNvm.WriteCut

/-! Copying one virtual block to another: `nvm_vblk_copy` and `vblk_copy_s20`. -/

namespace LightNvm

open SizeLoop (width sizeFor rounds progression)

/-- The address lists of a copy command. -/
structure CopyCmd where
  addrsSrc : List LAddr
  addrsDst : List LAddr
  deriving DecidableEq

/-- Stripes of `ws_min` sectors, where reads and writes use `ws_opt`. -/
def copySlot (wsMin nchunks sectr : Nat) : Slot :=
  let wunit := sectr / wsMin
  let rnd := wunit / nchunks
  ⟨wunit % nchunks, sectr % wsMin + rnd * wsMin⟩

def cmdNsectrMax (wsMin : Nat) : Nat := naddrMax / wsMin * wsMin

def copyCmd (src dst : VblkL) (wsMin sectrEnd sectrOfz : Nat) : CopyCmd :=
  let cmdNsectr := min ((sectrEnd + width - sectrOfz + 1) % width) (cmdNsectrMax wsMin)
  let slots := (List.range cmdNsectr).map fun idx => copySlot wsMin src.nblks ((sectrOfz + idx) % width)
  ⟨slots.map src.addr, slots.map dst.addr⟩

def copyCmds (src dst : VblkL) (wsMin : Nat) : Option (List CopyCmd) :=
  let sectrEnd := src.sectrEnd src.nbytes 0
  (sizeFor (fun sectrOfz => sectrOfz ≤ sectrEnd) (cmdNsectrMax wsMin) (0 / src.geo.nbytes)).map
    fun ofzs => ofzs.map (copyCmd src dst wsMin sectrEnd)

def vblkCopyS20 (src dst : VblkL) (wsMin : Nat) (env : IoEnv) : Io CopyCmd :=
  if wsMin = 0 then .traps
  else if src.nbytes / src.geo.nbytes % wsMin ≠ 0 then .returns [] (.error .einval)
  else if 0 / src.geo.nbytes % wsMin ≠ 0 then .returns [] (.error .einval)
  else loopIo env src.nblks src.nbytes (copyCmds src dst wsMin)

/-- `nvm_vblk_copy`; `sameDev` tells whether both virtual blocks are of one device. -/
def nvmVblkCopy (sameDev : Bool) (src dst : Vblk) (wsMin : Nat) (env : IoEnv) : Io CopyCmd :=
  if !sameDev then .returns [] (.error .enosys)
  else if src.nblks ≠ dst.nblks then .returns [] (.error .enosys)
  else if src.nbytes ≠ dst.nbytes then .returns [] (.error .enosys)
  else
    match src, dst with
    | .s20 src, .s20 dst => vblkCopyS20 src dst wsMin env
    | _, _ => .returns [] (.error .enosys)

def CopyCmd.pairs (c : CopyCmd) : List (LAddr × LAddr) := c.addrsSrc.zip c.addrsDst

/-- The media after the commands, each copying `addrs_src[i]` to `addrs_dst[i]`. -/
def copied {γ : Type} (m : LAddr → γ) (cmds : List CopyCmd) : LAddr → γ :=
  cmds.foldl (fun m c => FlatArray.copy m c.pairs) m

/-- The call returns the size of the source after commands that copy it exactly. -/
def CopiesExactly (src dst : VblkL) (io : Io CopyCmd) : Prop :=
  ∃ cmds, io = .returns cmds (.ok src.nbytes) ∧
    (∀ m : src.Media,
      (∀ c < src.nblks, ∀ s < src.geo.nsectr, copied m cmds (dst.addr ⟨c, s⟩) = m (src.addr ⟨c, s⟩)) ∧
      ∀ a, (∀ c < src.nblks, ∀ s < src.geo.nsectr, dst.addr ⟨c, s⟩ ≠ a) → copied m cmds a = m a) ∧
    (∀ c < src.nblks, ∀ s < src.geo.nsectr,
      (cmds.flatMap CopyCmd.pairs).count (src.addr ⟨c, s⟩, dst.addr ⟨c, s⟩) = 1) ∧
    (∀ p ∈ cmds.flatMap CopyCmd.pairs, ∃ c < src.nblks, ∃ s < src.geo.nsectr,
      p = (src.addr ⟨c, s⟩, dst.addr ⟨c, s⟩)) ∧
    (∀ c ∈ cmds, c.addrsSrc.length = c.addrsDst.length ∧ 1 ≤ c.addrsDst.length ∧
      c.addrsDst.length ≤ naddrMax) ∧
    (cmds.flatMap CopyCmd.addrsDst).Pairwise fun a b => a.chunkOf = b.chunkOf → a.sectr < b.sectr

/-! The commands. -/

theorem copied_eq {γ : Type} (m : LAddr → γ) (cmds : List CopyCmd) :
    copied m cmds = FlatArray.copy m (cmds.flatMap CopyCmd.pairs) := by
  induction cmds generalizing m with
  | nil => rfl
  | cons c cmds ih =>
    rw [copied, List.foldl_cons, ← copied, ih, List.flatMap_cons, FlatArray.copy, FlatArray.copy,
      FlatArray.copy, List.foldl_append]

theorem cmdNsectrMax_pos {wsMin : Nat} (hw : 0 < wsMin) (hmax : wsMin ≤ naddrMax) : 0 < cmdNsectrMax wsMin :=
  Nat.mul_pos (Nat.div_pos hmax hw) hw

theorem cmdNsectrMax_le (wsMin : Nat) : cmdNsectrMax wsMin ≤ naddrMax := Nat.div_mul_le_self _ _

section

variable {src dst : VblkL} {wsMin : Nat}

/-- The part of the copy that the command from `j * cmdNsectrMax wsMin` on makes. -/
def copyPiece (src dst : VblkL) (wsMin n j : Nat) : CopyCmd :=
  let slots := (List.range (min (cmdNsectrMax wsMin) (n - j * cmdNsectrMax wsMin))).map fun i =>
    copySlot wsMin src.nblks (j * cmdNsectrMax wsMin + i)
  ⟨slots.map src.addr, slots.map dst.addr⟩

theorem copyCmd_eq {n j : Nat} (hn : 0 < n) (hlt : j * cmdNsectrMax wsMin < n)
    (hfit : n + naddrMax ≤ width) :
    copyCmd src dst wsMin (n - 1) (0 + j * cmdNsectrMax wsMin) = copyPiece src dst wsMin n j := by
  have hmax := cmdNsectrMax_le wsMin
  have h64 : 0 < naddrMax := by decide
  have hlen : (n - 1 + width - (0 + j * cmdNsectrMax wsMin) + 1) % width = n - j * cmdNsectrMax wsMin := by
    rw [show n - 1 + width - (0 + j * cmdNsectrMax wsMin) + 1 = n - j * cmdNsectrMax wsMin + width by omega,
      Nat.add_mod_right, Nat.mod_eq_of_lt (by omega)]
  have hslots : ∀ idx ∈ List.range (min (n - j * cmdNsectrMax wsMin) (cmdNsectrMax wsMin)),
      copySlot wsMin src.nblks ((0 + j * cmdNsectrMax wsMin + idx) % width) =
        copySlot wsMin src.nblks (j * cmdNsectrMax wsMin + idx) := by
    intro idx hidx
    have := List.mem_range.mp hidx
    rw [Nat.mod_eq_of_lt (by omega), Nat.zero_add]
  rw [copyCmd, copyPiece, hlen]
  simp only [List.map_congr_left hslots, Nat.min_comm (cmdNsectrMax wsMin)]

theorem copyCmds_eq {n : Nat} (hw : 0 < wsMin) (hmax : wsMin ≤ naddrMax)
    (hdiv : src.nbytes / src.geo.nbytes = n) (hn : 0 < n) (hfit : n + naddrMax ≤ width) :
    copyCmds src dst wsMin =
      some ((List.range (rounds n (cmdNsectrMax wsMin))).map (copyPiece src dst wsMin n)) := by
  have hpos := cmdNsectrMax_pos hw hmax
  have hle := cmdNsectrMax_le wsMin
  have h0 : 0 / src.geo.nbytes = 0 := Nat.zero_div _
  have hend : src.sectrEnd src.nbytes 0 = n - 1 := by
    rw [VblkL.sectrEnd_eq h0 hdiv (by omega), if_neg (by omega), Nat.zero_add]
  have hloop := sectrLoop_eq h0 hdiv hpos (by omega) (by omega)
  simp only [copyCmds, hloop, Option.map_some, Option.some.injEq]
  rw [hend, progression, List.map_map]
  apply List.map_congr_left
  intro j hj
  have hlt := (SizeLoop.lt_rounds hpos).mp (List.mem_range.mp hj)
  exact copyCmd_eq hn hlt hfit

theorem copyCmds_endless (hdiv : src.nbytes / src.geo.nbytes = 0) : copyCmds src dst wsMin = none := by
  simp only [copyCmds, sectrLoop_endless _ (Nat.zero_div _) hdiv, Option.map_none]

theorem pairs_copyPieces (src dst : VblkL) {n : Nat} (hw : 0 < wsMin) (hmax : wsMin ≤ naddrMax) :
    ((List.range (rounds n (cmdNsectrMax wsMin))).map (copyPiece src dst wsMin n)).flatMap CopyCmd.pairs =
      (List.range n).map fun x =>
        (src.addr (copySlot wsMin src.nblks x), dst.addr (copySlot wsMin src.nblks x)) := by
  rw [List.flatMap_map, ← SizeLoop.flatMap_pieces (cmdNsectrMax_pos hw hmax)]
  apply List.flatMap_congr
  intro j _
  rw [CopyCmd.pairs, copyPiece]
  simp only [List.map_map, List.zip_map', Function.comp_apply]

theorem addrsDst_copyPieces (src dst : VblkL) {n : Nat} (hw : 0 < wsMin) (hmax : wsMin ≤ naddrMax) :
    ((List.range (rounds n (cmdNsectrMax wsMin))).map (copyPiece src dst wsMin n)).flatMap CopyCmd.addrsDst =
      (List.range n).map fun x => dst.addr (copySlot wsMin src.nblks x) := by
  rw [List.flatMap_map, ← SizeLoop.flatMap_pieces (cmdNsectrMax_pos hw hmax)]
  apply List.flatMap_congr
  intro j _
  simp only [copyPiece, List.map_map, Function.comp_def]

theorem vblkCopyS20_eq {n : Nat} (hw : 0 < wsMin) (hmax : wsMin ≤ naddrMax) (hblks : 0 < src.nblks)
    (hdiv : src.nbytes / src.geo.nbytes = n) (hn : 0 < n) (hal : wsMin ∣ n) (hfit : n + naddrMax ≤ width)
    (env : IoEnv) :
    vblkCopyS20 src dst wsMin env = finish env src.nbytes
      ((List.range (rounds n (cmdNsectrMax wsMin))).map (copyPiece src dst wsMin n)) := by
  have h0 : 0 / src.geo.nbytes % wsMin = 0 := by rw [Nat.zero_div, Nat.zero_mod]
  have hmod : src.nbytes / src.geo.nbytes % wsMin = 0 := by rw [hdiv]; exact Nat.mod_eq_zero_of_dvd hal
  rw [vblkCopyS20, if_neg hw.ne', if_neg (not_not.mpr hmod), if_neg (not_not.mpr h0),
    copyCmds_eq hw hmax hdiv hn hfit, loopIo_some hblks]

/-! The whole copy. -/

theorem nsectr_pos (h : 0 < src.nblks) : 0 < src.geo.nsectr := by
  obtain ⟨b, bs, hb⟩ := List.exists_cons_of_length_pos h
  have hcheck := nvmAddrCheckL_eq_zero.mp (src.blks_check b (by simp [hb]))
  omega

/-- The sectors of both virtual blocks are different sectors of the media. -/
structure ChunksApart (src dst : VblkL) : Prop where
  nblks : src.nblks = dst.nblks
  chunks : ((src.blks ++ dst.blks).map LAddr.chunkOf).Nodup

theorem ChunksApart.src_distinct (h : ChunksApart src dst) : src.DistinctChunks := by
  have hc := h.chunks
  rw [List.map_append, List.nodup_append] at hc
  exact hc.1

theorem ChunksApart.dst_distinct (h : ChunksApart src dst) : dst.DistinctChunks := by
  have hc := h.chunks
  rw [List.map_append, List.nodup_append] at hc
  exact hc.2.1

theorem ChunksApart.addr_ne (h : ChunksApart src dst) {s t : Slot} (hs : s.chunk < src.nblks)
    (ht : t.chunk < src.nblks) : src.addr s ≠ dst.addr t := by
  intro heq
  have hc := h.chunks
  rw [List.map_append, List.nodup_append] at hc
  have hsrc := List.mem_of_getElem? (src.chunkOf_addr hs)
  have hdst := List.mem_of_getElem? (dst.chunkOf_addr (h.nblks ▸ ht))
  exact hc.2.2 _ hsrc _ hdst (by rw [heq])

theorem sectors_le (src : VblkL) : src.nbytes / src.geo.nbytes ≤ src.nblks * src.geo.nsectr := by
  calc src.nbytes / src.geo.nbytes ≤ src.nblks * src.geo.nsectr * src.geo.nbytes / src.geo.nbytes :=
        Nat.div_le_div_right src.nbytes_le
    _ = src.nblks * src.geo.nsectr := Nat.mul_div_cancel _ src.geo.nbytes_pos

theorem sectors_fit (src : VblkL) : src.nbytes / src.geo.nbytes + naddrMax ≤ width := by
  have h := (sectors_le src).trans src.nsectrs_le
  have hw : width = 2 ^ 64 := rfl
  have h64 : naddrMax = 64 := rfl
  omega

theorem coversOnce_copySlot (hw : 0 < wsMin) (hdvd : wsMin ∣ src.geo.nsectr) (hn : 0 < src.nblks) :
    CoversOnce src.nblks src.geo.nsectr
      ((List.range (src.nblks * src.geo.nsectr)).map (copySlot wsMin src.nblks)) :=
  coversOnce_striping hw hn hdvd

/-- Copying every sector of the source once, in any order of the sectors. -/
theorem copy_slots (h : ChunksApart src dst) (hgeo : dst.geo = src.geo) {slots : List Slot}
    (hcovers : CoversOnce src.nblks src.geo.nsectr slots) (m : src.Media) :
    (∀ c < src.nblks, ∀ s < src.geo.nsectr,
      FlatArray.copy m (slots.map fun t => (src.addr t, dst.addr t)) (dst.addr ⟨c, s⟩) = m (src.addr ⟨c, s⟩)) ∧
    ∀ a, (∀ c < src.nblks, ∀ s < src.geo.nsectr, dst.addr ⟨c, s⟩ ≠ a) →
      FlatArray.copy m (slots.map fun t => (src.addr t, dst.addr t)) a = m a := by
  constructor
  · intro c hc s hs
    have hnodup : ((slots.map fun t => (src.addr t, dst.addr t)).map Prod.snd).Nodup := by
      rw [List.map_map]
      rw [h.nblks, ← hgeo] at hcovers
      exact hcovers.nodup_addr h.dst_distinct
    refine FlatArray.copy_of_mem hnodup ?_ (List.mem_map.mpr ⟨⟨c, s⟩, hcovers.mem hc hs, rfl⟩)
    intro p hp q hq
    obtain ⟨s, hs, rfl⟩ := List.mem_map.mp hp
    obtain ⟨t, ht, rfl⟩ := List.mem_map.mp hq
    exact h.addr_ne (hcovers.inside s hs).1 (hcovers.inside t ht).1
  · intro a ha
    apply FlatArray.copy_of_forall_ne
    intro p hp
    obtain ⟨t, ht, rfl⟩ := List.mem_map.mp hp
    exact ha t.chunk (hcovers.inside t ht).1 t.sectr (hcovers.inside t ht).2

theorem length_copyPiece (hw : 0 < wsMin) (hmax : wsMin ≤ naddrMax) {n j : Nat}
    (hj : j < rounds n (cmdNsectrMax wsMin)) :
    (copyPiece src dst wsMin n j).addrsSrc.length = (copyPiece src dst wsMin n j).addrsDst.length ∧
    1 ≤ (copyPiece src dst wsMin n j).addrsDst.length ∧
    (copyPiece src dst wsMin n j).addrsDst.length ≤ naddrMax := by
  have hpos := cmdNsectrMax_pos hw hmax
  have hle := cmdNsectrMax_le wsMin
  have hlt := (SizeLoop.lt_rounds hpos).mp hj
  simp only [copyPiece, List.length_map, List.length_range, true_and]
  omega

/-- What the commands for every sector of the source do. -/
theorem copiesExactly_pieces (h : ChunksApart src dst) (hgeo : dst.geo = src.geo) (hn : 0 < src.nblks)
    (hw : 0 < wsMin) (hmax : wsMin ≤ naddrMax) (hdvd : wsMin ∣ src.geo.nsectr) {io : Io CopyCmd}
    (hio : io = .returns ((List.range (rounds (src.nblks * src.geo.nsectr) (cmdNsectrMax wsMin))).map
      (copyPiece src dst wsMin (src.nblks * src.geo.nsectr))) (.ok src.nbytes)) :
    CopiesExactly src dst io := by
  have hcovers := coversOnce_copySlot hw hdvd hn
  have hpairs := pairs_copyPieces src dst (n := src.nblks * src.geo.nsectr) hw hmax
  have hdsts := addrsDst_copyPieces src dst (n := src.nblks * src.geo.nsectr) hw hmax
  set slots := (List.range (src.nblks * src.geo.nsectr)).map (copySlot wsMin src.nblks) with hslots
  replace hpairs : _ = slots.map fun t => (src.addr t, dst.addr t) :=
    hpairs.trans (by rw [hslots, List.map_map]; rfl)
  replace hdsts : _ = slots.map dst.addr := hdsts.trans (by rw [hslots, List.map_map]; rfl)
  have hincreasing : (slots.map dst.addr).Pairwise fun a b => a.chunkOf = b.chunkOf → a.sectr < b.sectr := by
    have hcovers' := hcovers
    rw [h.nblks, ← hgeo] at hcovers'
    exact hcovers'.increasing_addr h.dst_distinct
  have hsrc : (slots.map src.addr).Nodup := hcovers.nodup_addr h.src_distinct
  refine ⟨_, hio, ?_, ?_, ?_, ?_, ?_⟩
  · intro m
    rw [copied_eq, hpairs]
    exact copy_slots h hgeo hcovers m
  · intro c hc s hs
    rw [hpairs]
    apply List.count_eq_one_of_mem
    · apply List.Nodup.of_map Prod.fst
      rwa [List.map_map]
    · exact List.mem_map.mpr ⟨⟨c, s⟩, hcovers.mem hc hs, rfl⟩
  · intro p hp
    rw [hpairs] at hp
    obtain ⟨t, ht, rfl⟩ := List.mem_map.mp hp
    exact ⟨t.chunk, (hcovers.inside t ht).1, t.sectr, (hcovers.inside t ht).2, rfl⟩
  · intro c hc
    obtain ⟨j, hj, rfl⟩ := List.mem_map.mp hc
    exact length_copyPiece hw hmax (List.mem_range.mp hj)
  · rw [hdsts]
    exact hincreasing

theorem nvmVblkCopy_eq (h : ChunksApart src dst) (hgeo : dst.geo = src.geo) (env : IoEnv) :
    nvmVblkCopy true (.s20 src) (.s20 dst) wsMin env = vblkCopyS20 src dst wsMin env := by
  have hnbytes : src.nbytes = dst.nbytes := by rw [VblkL.nbytes, VblkL.nbytes, hgeo, h.nblks]
  have hnblks := h.nblks
  simp [nvmVblkCopy, Vblk.nblks, Vblk.nbytes, hnblks, hnbytes]

/-- A copy that comes back with the size of the source has made the commands for the sectors
that `nbytes` counts. -/
theorem vblkCopyS20_returned (hw : 0 < wsMin) (hmax : wsMin ≤ naddrMax) (hn : 0 < src.nblks) {env : IoEnv}
    {cmds : List CopyCmd} {ret : Int} (h : vblkCopyS20 src dst wsMin env = .returns cmds (.ok ret)) :
    ret = ssize src.nbytes ∧ cmds.flatMap CopyCmd.pairs =
      (List.range (src.nbytes / src.geo.nbytes)).map fun x =>
        (src.addr (copySlot wsMin src.nblks x), dst.addr (copySlot wsMin src.nblks x)) := by
  rw [vblkCopyS20, if_neg hw.ne'] at h
  split_ifs at h
  · simp at h
  · simp at h
  · rcases Nat.eq_zero_or_pos (src.nbytes / src.geo.nbytes) with h0 | hpos
    · rw [copyCmds_endless h0, loopIo, if_neg hn.ne'] at h
      simp at h
    · rw [copyCmds_eq hw hmax rfl hpos (sectors_fit src), loopIo_some hn, finish] at h
      obtain ⟨rfl, hret⟩ := Io.returns.inj h
      refine ⟨?_, pairs_copyPieces src dst hw hmax⟩
      split_ifs at hret
      exact (Except.ok.inj hret).symm

end

def hugeGeoL : GeoL :=
  { tinyGeoL with
    nchunk := 8
    nsectr := 2 ^ 31
    nbytes := 2 ^ 30
    nsectr_lt := by decide
    nbytes_pos := by decide }

/-- Eight chunks of 2 EiB: the size of the virtual block wraps to zero. -/
def hugeVblk (punit : Fin 2) : VblkL where
  geo := hugeGeoL
  metaMode := .none
  mode := .vector
  isAsync := false
  blks := (List.range 8).map fun i => ⟨0, BitVec.ofNat 8 punit, BitVec.ofNat 16 i, 0⟩
  nblks_le := by simp
  blks_check := by revert punit; decide

end LightNvm
