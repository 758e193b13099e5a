import LightNvm.OrderedTeam
import LightNvm.S12Spages
import LightNvm.S20Flat

/-! The order of the writes within a block when the loops of `vblk_pwrite_s12` and
`vblk_sync_pwrite_s20` run on a team of threads. -/

namespace LightNvm

open SizeLoop (width rounds)

def VblkG.nthreads (v : VblkG) (naddrsMax : Nat) : Nat :=
  let cmdNspages := cmdNspages v.nblks (naddrsMax / v.spageNaddrs)
  if v.nblks < cmdNspages then 1 else v.nblks / cmdNspages

def VblkL.nthreads (v : VblkL) (count : Nat) : Nat :=
  min v.nblks (count / v.geo.nbytes / v.wsOpt)

def touchesG (cmds : List CmdG) (i : Nat) (b : BitVec 8 × BitVec 8 × BitVec 16) (p : Nat) : Prop :=
  ∃ c, cmds[i]? = some c ∧ ∃ a ∈ c.addrs, a.blockOf = b ∧ a.pg.toNat = p

def touchesL (v : VblkL) (cmds : List CmdL) (i : Nat) (b : BitVec 8 × BitVec 8 × BitVec 16)
    (p : Nat) : Prop :=
  ∃ c, cmds[i]? = some c ∧ ∃ a ∈ c.sectors v, a.chunkOf = b ∧ a.sectr.toNat = p

/-- The sectors of the range within their chunks fit the sector field of an address. -/
def VblkL.SectrFits (v : VblkL) (count offset : Nat) : Prop :=
  ∀ s, offset / v.geo.nbytes ≤ s → s < offset / v.geo.nbytes + count / v.geo.nbytes →
    (v.sectrSlot s).sectr < 2 ^ 32

theorem getElem?_map_range {α : Type*} {f : Nat → α} {n i : Nat} {x : α}
    (h : ((List.range n).map f)[i]? = some x) : i < n ∧ f i = x := by
  rw [List.getElem?_map] at h
  obtain ⟨j, hj, rfl⟩ := Option.map_eq_some_iff.mp h
  obtain ⟨hi, rfl⟩ := List.getElem?_eq_some_iff.mp hj
  rw [List.length_range] at hi
  rw [List.getElem_range]
  exact ⟨hi, rfl⟩

theorem exists_rounds_between {n a b : Nat} (hab : a < b) (h : a % n = b % n) :
    ∃ d, 0 < d ∧ b = a + n * d ∧ (0 < n → b / n = a / n + d) := by
  obtain ⟨d, hd⟩ : n ∣ b - a := Nat.dvd_of_mod_eq_zero (Nat.sub_mod_eq_zero_of_mod_eq h.symm)
  have hb : b = a + n * d := by omega
  refine ⟨d, Nat.pos_of_ne_zero ?_, hb, fun hn => ?_⟩
  · rintro rfl
    omega
  · rw [hb, Nat.add_mul_div_left _ _ hn]

/-! OCSSD 2.0. -/

section

variable {v : VblkL} {count offset k u M : Nat}

theorem touchesL_unitCmds {pad : Bool} (hfit : ∀ j < k, (u + j) / v.nblks * v.wsOpt + v.wsOpt ≤ 2 ^ 32)
    {j : Nat} {b : BitVec 8 × BitVec 8 × BitVec 16} {p : Nat}
    (h : touchesL v ((List.range k).map fun j => v.unitCmd pad j (u + j)) j b p) :
    (v.addr ⟨(u + j) % v.nblks, 0⟩).chunkOf = b ∧
      (u + j) / v.nblks * v.wsOpt ≤ p ∧ p < (u + j) / v.nblks * v.wsOpt + v.wsOpt := by
  obtain ⟨c, hc, a, ha, hb, hp⟩ := h
  obtain ⟨hj, rfl⟩ := getElem?_map_range hc
  rw [sectors_unitCmd] at ha
  obtain ⟨i, hi, rfl⟩ := List.mem_map.mp ha
  have hi := List.mem_range.mp hi
  have hlt := hfit j hj
  rw [VblkL.place_unit hi] at hb hp
  have hsectr : p = (u + j) / v.nblks * v.wsOpt + i := by
    have hlt' : (u + j) / v.nblks * v.wsOpt + i < 2 ^ 32 := by omega
    rw [← hp, VblkL.addr, BitVec.toNat_ofNat, Nat.mod_eq_of_lt hlt']
  exact ⟨hb, by omega, by omega⟩

theorem spread_unitCmds {pad : Bool} (hd : v.DistinctChunks) (hn : 0 < v.nblks)
    (hfit : ∀ j < k, (u + j) / v.nblks * v.wsOpt + v.wsOpt ≤ 2 ^ 32) (hM : M ≤ v.nblks) :
    OrderedTeam.Spread M k (touchesL v ((List.range k).map fun j => v.unitCmd pad j (u + j))) := by
  intro i j b p q hij _ hp hq
  obtain ⟨hbi, -, hpu⟩ := touchesL_unitCmds hfit hp
  obtain ⟨hbj, hql, -⟩ := touchesL_unitCmds hfit hq
  have hidx : (u + i) % v.nblks = (u + j) % v.nblks :=
    VblkL.chunk_eq_of_chunkOf hd (s := ⟨(u + i) % v.nblks, 0⟩) (t := ⟨(u + j) % v.nblks, 0⟩)
      (Nat.mod_lt _ hn) (Nat.mod_lt _ hn) (hbi.trans hbj.symm)
  obtain ⟨d, hpos, hji, hdiv⟩ := exists_rounds_between (by omega : u + i < u + j) hidx
  have hge : v.nblks ≤ v.nblks * d := Nat.le_mul_of_pos_right _ hpos
  have hround : (u + i) / v.nblks * v.wsOpt + v.wsOpt ≤ (u + j) / v.nblks * v.wsOpt := by
    rw [← Nat.succ_mul]
    apply Nat.mul_le_mul_right
    have := hdiv hn
    omega
  omega

theorem VblkL.SectrFits.unit (h : v.SectrFits count offset) (hw : 0 < v.wsOpt)
    (hk : count / v.geo.nbytes = k * v.wsOpt) (hu : offset / v.geo.nbytes = u * v.wsOpt) {j : Nat}
    (hj : j < k) : (u + j) / v.nblks * v.wsOpt + v.wsOpt ≤ 2 ^ 32 := by
  -- the last sector of the unit
  have hle : (j + 1) * v.wsOpt ≤ k * v.wsOpt := Nat.mul_le_mul_right _ hj
  have hadd : (u + j) * v.wsOpt + (v.wsOpt - 1) = u * v.wsOpt + ((j + 1) * v.wsOpt - 1) := by
    rw [Nat.add_mul, Nat.succ_mul]
    omega
  have hlast := h ((u + j) * v.wsOpt + (v.wsOpt - 1)) (by rw [hadd, hu]; omega) (by
    rw [hadd, hu, hk]
    rw [Nat.succ_mul] at *
    omega)
  rw [VblkL.sectrSlot_unit (by omega)] at hlast
  simp only at hlast
  omega

theorem VblkL.SectrFits.fits (h : v.SectrFits count offset) (hw : 0 < v.wsOpt) (hn : 0 < v.nblks)
    (hk : count / v.geo.nbytes = k * v.wsOpt) (hu : offset / v.geo.nbytes = u * v.wsOpt)
    (hpos : 0 < k) : (u + k) * v.wsOpt + v.wsOpt ≤ width := by
  have hunit := h.unit hw hk hu (Nat.sub_lt hpos one_pos)
  have hlt : u + (k - 1) < ((u + (k - 1)) / v.nblks + 1) * v.nblks := by
    rw [Nat.mul_comm]
    exact Nat.lt_mul_div_succ _ hn
  have hws := v.geo.wsOpt_lt
  have hbound : (u + k) * v.wsOpt ≤ 2 ^ 32 * 128 := by
    calc (u + k) * v.wsOpt ≤ ((u + (k - 1)) / v.nblks + 1) * v.nblks * v.wsOpt :=
          Nat.mul_le_mul_right _ (by omega)
      _ = ((u + (k - 1)) / v.nblks * v.wsOpt + v.wsOpt) * v.nblks := by ring
      _ ≤ 2 ^ 32 * 128 := Nat.mul_le_mul hunit v.nblks_le
  have hwidth : width = 2 ^ 64 := rfl
  have hws' : v.wsOpt < 2 ^ 31 := hws
  omega

end

/-! OCSSD 1.2. -/

section

variable {v : VblkG} {naddrsMax count offset k b c M : Nat}

theorem touchesG_cutCmds {pad : Bool} (h : v.Spages naddrsMax count offset k b c) {j : Nat}
    {blk : BitVec 8 × BitVec 8 × BitVec 16} {p : Nat}
    (ht : touchesG ((List.range (rounds k c)).map (v.cutCmd pad k b c)) j blk p) :
    ∃ x < c, (v.blks.map GAddr.blockOf)[(b + j * c + x) % v.nblks]? = some blk ∧
      p = (b + j * c + x) / v.nblks := by
  obtain ⟨cmd, hc, a, ha, hb, hp⟩ := ht
  obtain ⟨hj, rfl⟩ := getElem?_map_range hc
  obtain ⟨t, ht, rfl⟩ := List.mem_map.mp ha
  have hlt := (SizeLoop.lt_rounds h.cmd_pos).mp hj
  have hx : t / v.spageNaddrs < min c (k - j * c) :=
    Nat.div_lt_of_lt_mul (by rw [Nat.mul_comm]; exact List.mem_range.mp ht)
  have hbound := h.bound
  have hdiv : (b * v.spageNaddrs + (j * c * v.spageNaddrs + t)) / v.spageNaddrs =
      b + j * c + t / v.spageNaddrs := by
    rw [← Nat.add_assoc, ← Nat.add_mul, Nat.add_comm, Nat.add_mul_div_right _ _ h.spage_pos, Nat.add_comm]
  have hpos : 0 < v.nblks := Nat.pos_of_ne_zero (by
    intro h0
    rw [h0, Nat.zero_mul] at hbound
    omega)
  have hpg : (b + j * c + t / v.spageNaddrs) / v.nblks < v.geo.npages :=
    Nat.div_lt_of_lt_mul (by omega)
  refine ⟨t / v.spageNaddrs, by omega, ?_, ?_⟩
  · rw [← hdiv, v.blockOf_place hpos, hb]
  · rw [← hp, VblkG.place, BitVec.toNat_ofNat, hdiv]
    exact Nat.mod_eq_of_lt (hpg.trans v.geo.npages_lt)

theorem spread_cutCmds {pad : Bool} (hd : v.DistinctBlocks) (h : v.Spages naddrsMax count offset k b c)
    (hdvd : c ∣ v.nblks) (hM : M * c ≤ v.nblks) :
    OrderedTeam.Spread M (rounds k c) (touchesG ((List.range (rounds k c)).map (v.cutCmd pad k b c))) := by
  intro i j blk p q hij _ hp hq
  obtain ⟨x, hx, hbi, rfl⟩ := touchesG_cutCmds h hp
  obtain ⟨y, hy, hbj, rfl⟩ := touchesG_cutCmds h hq
  obtain ⟨T, hT⟩ := hdvd
  have hidx : (b + i * c + x) % v.nblks = (b + j * c + y) % v.nblks := by
    obtain ⟨hlt, -⟩ := List.getElem?_eq_some_iff.mp hbi
    exact (List.getElem?_inj hlt hd).mp (hbi.trans hbj.symm)
  have hstep : i * c + c ≤ j * c := by
    rw [← Nat.succ_mul]
    exact Nat.mul_le_mul_right _ hij
  obtain ⟨d, hpos, hji, hdiv⟩ := exists_rounds_between (by omega : b + i * c + x < b + j * c + y) hidx
  -- the commands start at multiples of `c` that divides the distance
  have hsplit : j * c + y = (i + T * d) * c + x := by
    have : v.nblks * d = T * d * c := by rw [hT]; ring
    rw [Nat.add_mul]
    omega
  obtain ⟨hj, -⟩ := Striping.digits_inj hy hx hsplit
  have hnblks : 0 < v.nblks := Nat.pos_of_ne_zero fun h0 => by
    have hT0 : T = 0 := by
      rw [h0] at hT
      exact (Nat.mul_eq_zero.mp hT.symm).resolve_left h.cmd_pos.ne'
    rw [hT0, Nat.zero_mul] at hj
    omega
  constructor
  · have hMT : M ≤ T := by
      apply Nat.le_of_mul_le_mul_right _ h.cmd_pos
      rwa [Nat.mul_comm T c, ← hT]
    have := Nat.le_mul_of_pos_right T hpos
    omega
  · have := hdiv hnblks
    omega

end

/-! The functions. -/

theorem inOrder_nil {β : Type*} {M : Nat} (touches : Nat → β → Nat → Prop) :
    OrderedTeam.InOrder M 0 touches :=
  OrderedTeam.Spread.inOrder fun _ _ _ _ _ _ hj => absurd hj (Nat.not_lt_zero _)

theorem pwriteS12_cmds {v : VblkG} {env : IoEnv} {naddrsMax count offset : Nat} {bufNull : Bool}
    {cmds : List CmdG} {ret : Except Errno Int} (ha : v.Passes naddrsMax count offset)
    (h : vblkPwriteS12 v env naddrsMax bufNull count offset = .returns cmds ret) :
    cmds = [] ∨ v.spgCmds (cmdNspages v.nblks (naddrsMax / v.spageNaddrs)) bufNull count offset =
      some cmds := by
  rw [vblkPwriteS12, ha] at h
  rcases withBuffers_cases env bufNull _ v.metaMode _ _ with hio | hio
  · rw [hio] at h
    exact .inr (loopIo_returns h)
  · rw [hio] at h
    exact .inl (Io.returns.inj h).1.symm

theorem syncPwriteS20_cmds {v : VblkL} {env : IoEnv} {count offset : Nat} {bufNull : Bool}
    {cmds : List CmdL} {ret : Except Errno Int}
    (h : vblkSyncPwriteS20 v env bufNull count offset = .returns cmds ret) :
    cmds = [] ∨ 0 < v.wsOpt ∧ v.wsOpt ∣ count / v.geo.nbytes ∧ v.wsOpt ∣ offset / v.geo.nbytes ∧
      v.syncWriteCmds bufNull count offset = some cmds := by
  rw [vblkSyncPwriteS20, VblkL.checked] at h
  split_ifs at h with hw hc ho
  · exact .inl (Io.returns.inj h).1.symm
  · exact .inl (Io.returns.inj h).1.symm
  · rcases withBuffers_cases env bufNull _ v.metaMode _ _ with hio | hio
    · rw [VblkL.buffered, hio] at h
      exact .inr ⟨Nat.pos_of_ne_zero hw, Nat.dvd_of_mod_eq_zero (not_not.mp hc),
        Nat.dvd_of_mod_eq_zero (not_not.mp ho), loopIo_returns h⟩
    · rw [VblkL.buffered, hio] at h
      exact .inl (Io.returns.inj h).1.symm

theorem pwriteS12_inOrder {v : VblkG} {env : IoEnv} {naddrsMax count offset M : Nat} {bufNull : Bool}
    {cmds : List CmdG} {ret : Except Errno Int} (hd : v.DistinctBlocks)
    (ha : v.Accepts naddrsMax count offset)
    (h : vblkPwriteS12 v env naddrsMax bufNull count offset = .returns cmds ret)
    (hM : M ≤ v.nthreads naddrsMax) : OrderedTeam.InOrder M cmds.length (touchesG cmds) := by
  obtain ⟨k, b, c, hs⟩ := ha.spages
  obtain ⟨hsp, hle, -⟩ := VblkG.passes_iff.mp ha.passes
  rcases pwriteS12_cmds ha.passes h with rfl | hcmds
  · exact inOrder_nil _
  rw [← hs.cmd, VblkG.spgCmds_eq hs] at hcmds
  obtain rfl := Option.some.inj hcmds
  rw [List.length_map, List.length_range]
  have hdvd : c ∣ v.nblks := by
    rw [hs.cmd]
    exact cmdNspages_dvd _ (Nat.div_pos hle hsp)
  rw [VblkG.nthreads, ← hs.cmd] at hM
  split_ifs at hM with hlt
  · -- a divisor above `nblks`: there is no block and no command
    have h0 : v.nblks = 0 := Nat.eq_zero_of_dvd_of_lt hdvd hlt
    have hk : k = 0 := by
      have := hs.bound
      rw [h0, Nat.zero_mul] at this
      omega
    rw [hk, SizeLoop.rounds_zero hs.cmd_pos]
    exact inOrder_nil _
  · exact (spread_cutCmds hd hs hdvd ((Nat.le_div_iff_mul_le hs.cmd_pos).mp hM)).inOrder

theorem syncPwriteS20_inOrder {v : VblkL} {env : IoEnv} {count offset M : Nat} {bufNull : Bool}
    {cmds : List CmdL} {ret : Except Errno Int} (hd : v.DistinctChunks) (hcount : count < width)
    (hf : v.SectrFits count offset)
    (h : vblkSyncPwriteS20 v env bufNull count offset = .returns cmds ret) (hpos : 1 ≤ M)
    (hM : M ≤ v.nthreads count) : OrderedTeam.InOrder M cmds.length (touchesL v cmds) := by
  rcases syncPwriteS20_cmds h with rfl | ⟨hw, ⟨k, hk⟩, ⟨u, hu⟩, hcmds⟩
  · exact inOrder_nil _
  rw [Nat.mul_comm] at hk hu
  have hn : 0 < v.nblks := (hpos.trans hM).trans (min_le_left _ _)
  have hk0 : 0 < k := by
    have := (hpos.trans hM).trans (min_le_right _ _)
    rwa [hk, Nat.mul_div_cancel _ hw] at this
  rw [syncWriteCmds_of_div bufNull hw hk hu (by omega) (hf.fits hw hn hk hu hk0) hcount] at hcmds
  obtain rfl := Option.some.inj hcmds
  rw [List.length_map, List.length_range]
  exact (spread_unitCmds hd hn (fun j hj => hf.unit hw hk hu hj) (hM.trans (min_le_left _ _))).inOrder

/-- Writes of a virtual block of distinct blocks stay sequential within every block, for every
team and every interleaving. -/
theorem parallel_writes_in_order :
    (∀ (v : VblkG) (env : IoEnv) (naddrsMax : Nat) (bufNull : Bool) (count offset : Nat),
      v.DistinctBlocks → v.Accepts naddrsMax count offset → ∀ cmds ret,
      vblkPwriteS12 v env naddrsMax bufNull count offset = .returns cmds ret →
      ∀ M, 1 ≤ M → M ≤ v.nthreads naddrsMax → OrderedTeam.InOrder M cmds.length (touchesG cmds)) ∧
    (∀ (v : VblkL) (env : IoEnv) (bufNull : Bool) (count offset : Nat),
      v.DistinctChunks → count < width → v.SectrFits count offset → ∀ cmds ret,
      vblkSyncPwriteS20 v env bufNull count offset = .returns cmds ret →
      ∀ M, 1 ≤ M → M ≤ v.nthreads count → OrderedTeam.InOrder M cmds.length (touchesL v cmds)) :=
  ⟨fun _ _ _ _ _ _ hd ha _ _ h _ _ hM => pwriteS12_inOrder hd ha h hM,
    fun _ _ _ _ _ hd hc hf _ _ h _ hpos hM => syncPwriteS20_inOrder hd hc hf h hpos hM⟩

theorem pwriteS12_good {v : VblkG} {naddrsMax count offset : Nat} {cmds : List CmdG}
    (hp : v.Passes naddrsMax count offset) (hm : v.metaMode = .none) (hn : 0 < v.nblks * v.geo.npages)
    (hcmds : v.spgCmds (cmdNspages v.nblks (naddrsMax / v.spageNaddrs)) false count offset = some cmds) :
    vblkPwriteS12 v .good naddrsMax false count offset = .returns cmds (.ok (ssize count)) := by
  rw [vblkPwriteS12, hp, hcmds, loopIo_good hn]
  simp [withBuffers, hm]

theorem parallel_writes_in_order_two_threads :
    (∃ cmds, vblkPwriteS12 tinyVblkG .good 2 false 4096 0 = .returns cmds (.ok 4096) ∧
      OrderedTeam.InOrder 2 cmds.length (touchesG cmds)) ∧
    ∃ cmds, vblkSyncPwriteS20 (tinyVblk .vector false) .good false 4096 0 = .returns cmds (.ok 4096) ∧
      OrderedTeam.InOrder 2 cmds.length (touchesL (tinyVblk .vector false) cmds) := by
  constructor
  · have ha : tinyVblkG.Accepts 2 4096 0 :=
      ⟨VblkG.passes_iff.mpr (by decide), by decide, by decide, by decide⟩
    obtain ⟨k, b, c, hs⟩ := ha.spages
    have hcmds := VblkG.spgCmds_eq hs false
    rw [hs.cmd] at hcmds
    have hio := pwriteS12_good ha.passes rfl (by decide) hcmds
    refine ⟨_, hio, parallel_writes_in_order.1 tinyVblkG .good 2 false 4096 0 ?_ ha _ _ hio 2
      (by decide) (by decide)⟩
    rw [VblkG.DistinctBlocks]
    decide
  · have hu : (tinyVblk .vector false).Units 4096 0 4 0 := ⟨by decide, by decide⟩
    have hio := syncPwriteS20_good hu rfl (by decide) (by decide) (by decide) (by decide) (by decide)
    refine ⟨_, hio, parallel_writes_in_order.2 (tinyVblk .vector false) .good false 4096 0 ?_
      (by decide) ?_ _ _ hio 2 (by decide) (by decide)⟩
    · rw [VblkL.DistinctChunks]
      decide
    · intro s _ hs
      have hlt : s < 8 := hs
      have hall : ∀ s < 8, ((tinyVblk .vector false).sectrSlot s).sectr < 2 ^ 32 := by decide
      exact hall s hlt

def tinyTwiceL : VblkL :=
  { tinyVblk .vector false with
    blks := [⟨0, 0, 0, 0⟩, ⟨0, 0, 0, 0⟩]
    nblks_le := by decide
    blks_check := by decide }

def tinyOnceL : VblkL :=
  { tinyVblk .vector false with
    blks := [⟨0, 0, 0, 0⟩]
    nblks_le := by decide
    blks_check := by decide }

def tinyTwiceG : VblkG :=
  { tinyVblkG with
    blks := [⟨0, 0, 0, 0, 0, 0⟩, ⟨0, 0, 0, 0, 0, 0⟩]
    nblks_le := by decide
    blks_check := by decide }

def tinyOnceG : VblkG :=
  { tinyVblkG with
    blks := [⟨0, 0, 0, 0, 0, 0⟩]
    nblks_le := by decide
    blks_check := by decide }

theorem not_inOrder_of_both_touch {β : Type*} {N : Nat} {touches : Nat → β → Nat → Prop} {b : β} {p q : Nat}
    (hN : 2 ≤ N) (hp : touches 0 b p) (hq : touches 1 b q) : ¬ OrderedTeam.InOrder 2 N touches := by
  intro h
  have hes : Runs.Along (OrderedTeam.step 2) (OrderedTeam.Enabled 2 N) OrderedTeam.init
      [.start 0, .start 1] := by
    simp [OrderedTeam.Enabled, OrderedTeam.step, OrderedTeam.init, OrderedTeam.Team.iter]
    omega
  refine (h _ hes).1 0 1 (by decide) (by decide) (by decide) ?_ ?_ b p q ?_ ?_
  · simp [OrderedTeam.step, OrderedTeam.init]
  · simp [OrderedTeam.step, OrderedTeam.init]
  · exact hp
  · exact hq

theorem not_inOrder_of_descending {β : Type*} {N : Nat} {touches : Nat → β → Nat → Prop} {b : β} {p q : Nat}
    (hN : 2 ≤ N) (hp : touches 0 b p) (hq : touches 1 b q) (hpq : q ≤ p) :
    ¬ OrderedTeam.InOrder 1 N touches := by
  intro h
  have hes : Runs.Along (OrderedTeam.step 1) (OrderedTeam.Enabled 1 N) OrderedTeam.init
      [.start 0, .finish 0, .order 0, .start 0] := by
    simp [OrderedTeam.Enabled, OrderedTeam.step, OrderedTeam.init, OrderedTeam.Team.iter]
    omega
  have hissued := (h _ hes).2
  simp only [OrderedTeam.step, OrderedTeam.init, OrderedTeam.Team.iter, Runs.run, List.foldl_cons,
    List.foldl_nil] at hissued
  have hlt := List.rel_of_pairwise_cons hissued (List.mem_singleton.mpr rfl) b p q hp hq
  omega

/-- A chunk or block that is in the virtual block twice is written by two threads at a time.
Past the end, a single thread goes down: the sector field of a 2.0 address wraps, and so does
the sum that `vblk_pwrite_s12` checks, after which the page number starts again. -/
theorem parallel_writes_out_of_order :
    (∃ cmds, vblkSyncPwriteS20 tinyTwiceL .good false 2048 0 = .returns cmds (.ok 2048) ∧
      2 ≤ tinyTwiceL.nthreads 2048 ∧
      ¬ OrderedTeam.InOrder 2 cmds.length (touchesL tinyTwiceL cmds)) ∧
    (∃ cmds, vblkPwriteS12 tinyTwiceG .good 2 false 2048 0 = .returns cmds (.ok 2048) ∧
      2 ≤ tinyTwiceG.nthreads 2 ∧ ¬ OrderedTeam.InOrder 2 cmds.length (touchesG cmds)) ∧
    (∃ cmds, vblkSyncPwriteS20 tinyOnceL .good false 2048 ((2 ^ 31 - 1) * 1024) =
        .returns cmds (.ok 2048) ∧
      1 ≤ tinyOnceL.nthreads 2048 ∧ ¬ OrderedTeam.InOrder 1 cmds.length (touchesL tinyOnceL cmds)) ∧
    ∃ cmds, vblkPwriteS12 tinyOnceG .good 2 false 2048 (2 ^ 64 - 1024) = .returns cmds (.ok 2048) ∧
      1 ≤ tinyOnceG.nthreads 2 ∧ ¬ OrderedTeam.InOrder 1 cmds.length (touchesG cmds) := by
  refine ⟨?_, ?_, ?_, ?_⟩
  · have hu : tinyTwiceL.Units 2048 0 2 0 := ⟨by decide, by decide⟩
    have hio := syncPwriteS20_good hu rfl (by decide) (by decide) (by decide) (by decide) (by decide)
    refine ⟨_, hio, by decide, not_inOrder_of_both_touch (b := (0, 0, 0)) (p := 0) (q := 0) (by decide) ?_ ?_⟩
    · exact ⟨_, rfl, ⟨0, 0, 0, 0⟩, by decide, rfl, rfl⟩
    · exact ⟨_, rfl, ⟨0, 0, 0, 0⟩, by decide, rfl, rfl⟩
  · have ha : tinyTwiceG.Accepts 2 2048 0 :=
      ⟨VblkG.passes_iff.mpr (by decide), by decide, by decide, by decide⟩
    have hs : tinyTwiceG.Spages 2 2048 0 2 0 1 :=
      ⟨by decide, by decide, by decide, by decide, by decide, by decide, by decide, by decide, by decide⟩
    have hio := pwriteS12_good ha.passes rfl (by decide) (VblkG.spgCmds_eq hs false)
    refine ⟨_, hio, by decide, not_inOrder_of_both_touch (b := (0, 0, 0)) (p := 0) (q := 0) (by decide) ?_ ?_⟩
    · exact ⟨_, rfl, ⟨0, 0, 0, 0, 0, 0⟩, by decide, rfl, rfl⟩
    · exact ⟨_, rfl, ⟨0, 0, 0, 0, 0, 0⟩, by decide, rfl, rfl⟩
  · have hu : tinyOnceL.Units 2048 ((2 ^ 31 - 1) * 1024) 2 (2 ^ 31 - 1) := ⟨by decide, by decide⟩
    have hio := syncPwriteS20_good hu rfl (by decide) (by decide) (by decide) (by decide) (by decide)
    refine ⟨_, hio, by decide, not_inOrder_of_descending (b := (0, 0, 0)) (p := 2 ^ 32 - 2) (q := 0)
      (by decide) ?_ ?_ (by decide)⟩
    · exact ⟨_, rfl, ⟨0, 0, 0, 2 ^ 32 - 2⟩, by decide, rfl, by decide⟩
    · exact ⟨_, rfl, ⟨0, 0, 0, 0⟩, by decide, rfl, rfl⟩
  · have hp : tinyOnceG.Passes 2 2048 (2 ^ 64 - 1024) := VblkG.passes_iff.mpr (by decide)
    have hloop : SizeLoop.sizeFor (fun off => decide (off < 2 ^ 54 + 1)) 1 (2 ^ 54 - 1) =
        some [2 ^ 54 - 1, 2 ^ 54] := by
      rw [SizeLoop.sizeFor_below (n := 2) one_pos (by intro i _; simp) (by decide)]
      rfl
    have hcmds : tinyOnceG.spgCmds 1 false 2048 (2 ^ 64 - 1024) =
        some ([2 ^ 54 - 1, 2 ^ 54].map (tinyOnceG.spgCmd 1 false (2 ^ 54 - 1) (2 ^ 54 + 1))) := by
      have hbgn : (2 ^ 64 - 1024) / tinyOnceG.align = 2 ^ 54 - 1 := by decide
      have hfin : (2 ^ 54 - 1 + 2048 / tinyOnceG.align) % width = 2 ^ 54 + 1 := by decide
      simp only [VblkG.spgCmds, hbgn, hfin, hloop, Option.map_some]
    have hio := pwriteS12_good hp rfl (by decide) hcmds
    refine ⟨_, hio, by decide, not_inOrder_of_descending (b := (0, 0, 0)) (p := 1) (q := 0)
      (by decide) ?_ ?_ (by decide)⟩
    · exact ⟨_, rfl, ⟨0, 0, 0, 0, 1, 0⟩, by decide, rfl, rfl⟩
    · exact ⟨_, rfl, ⟨0, 0, 0, 0, 0, 0⟩, by decide, rfl, rfl⟩

end LightNvm
