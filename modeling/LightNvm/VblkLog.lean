import LightNvm.Erase
import LightNvm.SeqZone
import LightNvm.VblkCut

/-! A synchronous virtual block on media that take the sectors of a block or chunk in order only, with
writes by teams of threads: an append-only log of bytes. -/

namespace LightNvm

open SizeLoop (width rounds)

abbrev BlockId := BitVec 8 × BitVec 8 × BitVec 16

/-- The position of a sector in its block: pages, then planes, then sectors. -/
def VblkG.rank (v : VblkG) (a : GAddr) : Nat :=
  (a.pg.toNat * v.geo.nplanes + a.pl.toNat) * v.geo.nsectors + a.sec.toNat

namespace Vblk

def layout (b : Vblk) : SeqZone.Layout (GAddr ⊕ LAddr) BlockId where
  zone := Sum.elim GAddr.blockOf LAddr.chunkOf
  rank :=
    match b with
    | .s12 v _ _ => Sum.elim v.rank fun a => a.sectr.toNat
    | .s20 _ => Sum.elim (fun _ => 0) fun a => a.sectr.toNat

def nsectors (b : Vblk) : Nat := b.nbytes / b.sectorNbytes

/-- Blocks or chunks that are not in the virtual block twice, on OCSSD 1.2 with super-pages that fit a
command and on OCSSD 2.0 of whole write units. -/
def Regular : Vblk → Prop
  | .s12 v w _ => v.DistinctBlocks ∧ 0 < v.spageNaddrs ∧ v.spageNaddrs ≤ w
  | .s20 v => v.DistinctChunks ∧ v.isAsync = false ∧ 0 < v.wsOpt ∧ v.wsOpt ∣ v.geo.nsectr ∧
      v.nblks * v.geo.nsectr * v.geo.nbytes < width

/-- The sectors of one block or chunk. -/
def zoneNsectors : Vblk → Nat
  | .s12 v _ _ => v.geo.npages * v.spageNaddrs
  | .s20 v => v.geo.nsectr

def nthreads (b : Vblk) (count : Nat) : Nat :=
  match b with
  | .s12 v w _ => v.nthreads w
  | .s20 v => v.nthreads count

end Vblk

/-- Media with a write pointer for each block or chunk, and whether they have refused a command. -/
structure SeqMedia (b : Vblk) where
  sectors : FlatArray.Media (GAddr ⊕ LAddr) UInt8 b.sectorNbytes
  wp : BlockId → Nat
  refused : Bool

namespace SeqMedia

variable {b : Vblk}

def write (data : Nat → UInt8) (m : SeqMedia b) (c : WriteCmd) : SeqMedia b :=
  match SeqZone.acceptAll b.layout m.wp c.sectors with
  | some wp => { m with sectors := FlatArray.store m.sectors (c.writes b.sectorNbytes data), wp := wp }
  | none => { m with refused := true }

def erase (m : SeqMedia b) (addrs : List (GAddr ⊕ LAddr)) : SeqMedia b :=
  { m with wp := fun z => if z ∈ addrs.map b.layout.zone then 0 else m.wp z }

end SeqMedia

/-- The threads of a write and how they interleave. -/
structure WriteTeam where
  size : Nat
  events : List OrderedTeam.Event

/-- The commands of a list in the order in which the team begins them. -/
def WriteTeam.issue (team : WriteTeam) (cmds : List WriteCmd) : List WriteCmd :=
  (OrderedTeam.order team.size team.events).filterMap fun i => cmds[i]?

/-- The calls; without a buffer a write is padded. -/
inductive LogOp where
  | write (buf : Option (Nat → UInt8)) (count : Nat) (alloc : Nat → Bool) (team : WriteTeam)
  | pad (alloc : Nat → Bool) (team : WriteTeam)
  | read (count : Nat)
  | erase (naddrsMax : Nat)

structure VblkState (b : Vblk) where
  cur : Cursors
  media : SeqMedia b

namespace Vblk

def eraseIo (b : Vblk) (naddrsMax : Nat) (s : Cursors) : Io (List (GAddr ⊕ LAddr)) × Cursors :=
  match b with
  | .s12 v _ _ =>
    let r := vblkEraseS12 v .good naddrsMax s
    (r.1.map (List.map .inl), r.2)
  | .s20 v =>
    let r := vblkEraseS20 v .good naddrsMax s
    (r.1.map (List.map .inr), r.2)

def writeOn (b : Vblk) (s : VblkState b) (buf : Option (Nat → UInt8)) (count : Nat) (alloc : Nat → Bool)
    (team : WriteTeam) : VblkState b :=
  let cmds := (b.writeIo buf.isNone count s.cur.posWrite (.succeeding alloc)).cmds
  { cur := nvmVblkWrite b s.cur buf.isNone count (.succeeding alloc)
    media := (team.issue cmds).foldl (SeqMedia.write (buf.getD fun _ => 0)) s.media }

def logStep (b : Vblk) (s : VblkState b) : LogOp → VblkState b
  | .write buf count alloc team => b.writeOn s buf count alloc team
  | .pad alloc team => b.writeOn s none (padCount b s.cur) alloc team
  | .read count => { s with cur := nvmVblkRead b s.cur count .good }
  | .erase naddrsMax =>
    let r := b.eraseIo naddrsMax s.cur
    { cur := r.2, media := s.media.erase r.1.cmds.flatten }

/-- A team of at most the threads that the call asks for makes every iteration of its loop. -/
def TeamOf (b : Vblk) (s : Cursors) (bufNull : Bool) (count : Nat) (alloc : Nat → Bool) (team : WriteTeam) :
    Prop :=
  team.size ≤ b.nthreads count ∧ OrderedTeam.Complete team.size
    (b.writeIo bufNull count s.posWrite (.succeeding alloc)).cmds.length team.events

/-- The calls meet their contract and erases take a whole block at a time. -/
def LogMeets (b : Vblk) (s : VblkState b) : LogOp → Prop
  | .write buf count alloc team => b.MeetsWhen (.write buf.isNone) count s.cur.posWrite ∧
      b.TeamOf s.cur buf.isNone count alloc team
  | .pad alloc team => b.MeetsWhen (.write true) (padCount b s.cur) s.cur.posWrite ∧
      b.TeamOf s.cur true (padCount b s.cur) alloc team
  | .read count => b.MeetsWhen .read count s.cur.posRead
  | .erase naddrsMax =>
    match b with
    | .s12 v _ _ => v.geo.nplanes ≤ naddrsMax ∧ naddrsMax ≤ naddrMax
    | .s20 _ => 0 < naddrsMax ∧ naddrsMax ≤ naddrMax

end Vblk

/-! What the virtual block is for: a log that is appended to, read from a position and emptied. -/

structure ByteLog where
  bytes : List UInt8
  pos : Nat

namespace ByteLog

def append (l : ByteLog) (n : Nat) (data : Nat → UInt8) : ByteLog :=
  { l with bytes := l.bytes ++ (List.range n).map data }

end ByteLog

namespace Vblk

def byteStep (b : Vblk) (l : ByteLog) : LogOp → ByteLog
  | .write buf count alloc _ =>
    if b.InRange count l.bytes.length ∧ b.hasBuffers (.succeeding alloc) buf.isNone count = true then
      l.append count (b.fill buf)
    else l
  | .pad alloc _ =>
    let count := b.nbytes - l.bytes.length
    if b.hasBuffers (.succeeding alloc) true count = true then l.append count (b.fill none) else l
  | .read count => if b.InRange count l.pos then { l with pos := l.pos + count } else l
  | .erase _ => ⟨[], 0⟩

end Vblk

/-! The sectors of the virtual block in their blocks or chunks. -/

theorem VblkG.zone_place_iff {v : VblkG} (hd : v.DistinctBlocks) (hn : 0 < v.nblks) (r s : Nat) :
    (v.place r).blockOf = (v.place s).blockOf ↔
      Striping.lane v.spageNaddrs v.nblks r = Striping.lane v.spageNaddrs v.nblks s := by
  have hr : Striping.lane v.spageNaddrs v.nblks r < (v.blks.map GAddr.blockOf).length := by
    rw [List.length_map]
    exact Nat.mod_lt _ hn
  rw [← List.getElem?_inj hr hd, Striping.lane, Striping.lane, v.blockOf_place hn, v.blockOf_place hn,
    Option.some_inj]

theorem VblkG.rank_place {v : VblkG} (hs : 0 < v.spageNaddrs) (hle : v.spageNaddrs ≤ naddrMax) {s : Nat}
    (hlt : s < v.nblks * v.geo.npages * v.spageNaddrs) :
    v.rank (v.place s) = Striping.pos v.spageNaddrs v.nblks s := by
  have hsec : 0 < v.geo.nsectors := Nat.pos_of_mul_pos_left hs
  have hnsec : v.geo.nsectors ≤ 64 := (Nat.le_mul_of_pos_left _ v.geo.nplanes_pos).trans hle
  have hplanes := v.geo.nplanes_le
  have hpages := v.geo.npages_lt
  have hpg : s / v.spageNaddrs / v.nblks < v.geo.npages :=
    Nat.div_lt_of_lt_mul (Nat.div_lt_of_lt_mul (by rwa [Nat.mul_comm]))
  have hpl : s % v.spageNaddrs / v.geo.nsectors < v.geo.nplanes :=
    Nat.div_lt_of_lt_mul (by rw [Nat.mul_comm]; exact Nat.mod_lt _ hs)
  have hmod := Nat.mod_lt (s % v.spageNaddrs) hsec
  have hdiv := Nat.div_add_mod' (s % v.spageNaddrs) v.geo.nsectors
  have hpg' : s / v.spageNaddrs / v.nblks % 2 ^ 16 = s / v.spageNaddrs / v.nblks :=
    Nat.mod_eq_of_lt (hpg.trans hpages)
  have hpl' : s % v.spageNaddrs / v.geo.nsectors % 2 ^ 8 = s % v.spageNaddrs / v.geo.nsectors :=
    Nat.mod_eq_of_lt (by omega)
  have hsec' : s % v.spageNaddrs % v.geo.nsectors % 2 ^ 8 = s % v.spageNaddrs % v.geo.nsectors :=
    Nat.mod_eq_of_lt (by omega)
  simp only [VblkG.rank, VblkG.place, BitVec.toNat_ofNat, hpg', hpl', hsec']
  rw [Nat.add_mul, Nat.add_assoc, hdiv, Striping.pos_eq, Nat.mul_assoc, ← VblkG.spageNaddrs]

theorem VblkL.zone_place_iff {v : VblkL} (hd : v.DistinctChunks) (hn : 0 < v.nblks) (r s : Nat) :
    (v.place r).chunkOf = (v.place s).chunkOf ↔
      Striping.lane v.wsOpt v.nblks r = Striping.lane v.wsOpt v.nblks s := by
  have hlt : ∀ s, (v.sectrSlot s).chunk < v.nblks := fun s => Nat.mod_lt _ hn
  have hr : (v.sectrSlot r).chunk < (v.blks.map LAddr.chunkOf).length := by
    rw [List.length_map]
    exact hlt r
  change _ ↔ (v.sectrSlot r).chunk = (v.sectrSlot s).chunk
  rw [← List.getElem?_inj hr hd, v.chunkOf_addr (hlt r), v.chunkOf_addr (hlt s), Option.some_inj]
  rfl

theorem VblkL.rank_place {v : VblkL} (hw : 0 < v.wsOpt) (hdvd : v.wsOpt ∣ v.geo.nsectr) {s : Nat}
    (hlt : s < v.nblks * v.geo.nsectr) : (v.place s).sectr.toNat = Striping.pos v.wsOpt v.nblks s := by
  have hpos : Striping.pos v.wsOpt v.nblks s < v.geo.nsectr := Striping.pos_lt hw hdvd hlt
  have hlt' := v.geo.nsectr_lt
  change (BitVec.ofNat 32 (Striping.pos v.wsOpt v.nblks s)).toNat = _
  rw [BitVec.toNat_ofNat, Nat.mod_eq_of_lt (by omega)]

namespace Vblk

variable {b : Vblk}

theorem sectorNbytes_pos (b : Vblk) : 0 < b.sectorNbytes := by
  cases b with
  | s12 v w r => exact v.geo.sectorNbytes_pos
  | s20 v => exact v.geo.nbytes_pos

theorem nsectors_s12 (v : VblkG) (w r : Fin (naddrMax + 1)) :
    (Vblk.s12 v w r).nsectors = v.nblks * v.geo.npages * v.spageNaddrs := by
  have hnbytes : (Vblk.s12 v w r).nbytes = v.nblks * v.geo.npages * v.spageNaddrs * v.geo.sectorNbytes := by
    rw [Vblk.nbytes, v.nbytes_eq_align, VblkG.align, Nat.mul_assoc _ v.spageNaddrs]
  rw [nsectors, hnbytes]
  exact Nat.mul_div_cancel _ v.geo.sectorNbytes_pos

theorem nsectors_s20 {v : VblkL} (hr : (Vblk.s20 v).Regular) : (Vblk.s20 v).nsectors = v.nblks * v.geo.nsectr := by
  obtain ⟨-, -, -, -, hlt⟩ := hr
  rw [nsectors, Vblk.nbytes, VblkL.nbytes, Nat.mod_eq_of_lt hlt]
  exact Nat.mul_div_cancel _ v.geo.nbytes_pos

/-- The sectors that the virtual block has in a row in one block or chunk. -/
def stripe : Vblk → Nat
  | .s12 v _ _ => v.spageNaddrs
  | .s20 v => v.wsOpt

theorem Regular.nsectors (hr : b.Regular) : b.nsectors = b.nblks * b.zoneNsectors := by
  cases b with
  | s12 v w r => rw [nsectors_s12, Nat.mul_assoc]; rfl
  | s20 v => exact nsectors_s20 hr

theorem Regular.striped (hr : b.Regular) (hn : 0 < b.nblks) :
    SeqZone.Striped b.layout b.sector b.stripe b.nblks b.zoneNsectors := by
  cases b with
  | s12 v w r =>
    obtain ⟨hd, hs, hle⟩ := hr
    refine ⟨hs, hn, Nat.dvd_mul_left _ _, fun r _ s _ => VblkG.zone_place_iff hd hn r s, fun s hlt => ?_⟩
    refine VblkG.rank_place hs (hle.trans (Nat.le_of_lt_succ w.isLt)) ?_
    rw [Nat.mul_assoc]
    exact hlt
  | s20 v =>
    obtain ⟨hd, -, hw, hdvd, -⟩ := hr
    exact ⟨hw, hn, hdvd, fun r _ s _ => VblkL.zone_place_iff hd hn r s,
      fun s hlt => VblkL.rank_place hw hdvd hlt⟩

theorem Regular.placed (hr : b.Regular) (hn : 0 < b.nblks) :
    SeqZone.Placed b.layout b.sector b.nsectors := by
  rw [hr.nsectors]
  exact (hr.striped hn).placed

end Vblk

/-! The order in which a team issues the commands of a write. -/

theorem filterMap_range_getElem? {α : Type*} (l : List α) :
    (List.range l.length).filterMap (fun i => l[i]?) = l := by
  induction l with
  | nil => rfl
  | cons a l ih =>
    rw [List.length_cons, List.range_succ_eq_map, List.filterMap_cons, List.filterMap_map]
    exact congrArg (a :: ·) ih

theorem WriteTeam.issue_perm {team : WriteTeam} {cmds : List WriteCmd}
    (h : OrderedTeam.Complete team.size cmds.length team.events) : (team.issue cmds).Perm cmds := by
  have hperm : (team.issue cmds).Perm ((List.range cmds.length).filterMap fun i => cmds[i]?) :=
    h.perm.filterMap _
  rwa [filterMap_range_getElem?] at hperm

/-- The write commands of a team go up in each zone when the loop is in order there. -/
theorem WriteTeam.issue_pairwise {team : WriteTeam} {cmds : List WriteCmd} {β : Type*}
    {touches : Nat → β → Nat → Prop} (h : OrderedTeam.Complete team.size cmds.length team.events)
    (hin : OrderedTeam.InOrder team.size cmds.length touches) {R : WriteCmd → WriteCmd → Prop}
    (hR : ∀ i j c d, cmds[i]? = some c → cmds[j]? = some d →
      (∀ z p q, touches i z p → touches j z q → p < q) → R c d) : (team.issue cmds).Pairwise R := by
  rw [WriteTeam.issue, List.pairwise_filterMap]
  exact (hin team.events h.1).2.imp fun {i j} hij c hc d hd => hR i j c d hc hd hij

theorem VblkG.rank_lt_of_pg {v : VblkG} {w r : Fin (naddrMax + 1)} (hr : (Vblk.s12 v w r).Regular)
    (hn : 0 < v.nblks) {s t : Nat} (hs : s < (Vblk.s12 v w r).nsectors) (ht : t < (Vblk.s12 v w r).nsectors)
    (hz : (v.place s).blockOf = (v.place t).blockOf) (hpg : (v.place s).pg.toNat < (v.place t).pg.toNat) :
    v.rank (v.place s) < v.rank (v.place t) := by
  have hpages : ∀ x < (Vblk.s12 v w r).nsectors, (v.place x).pg.toNat = x / v.spageNaddrs / v.nblks := by
    intro x hx
    rw [Vblk.nsectors_s12] at hx
    have hlt : x / v.spageNaddrs / v.nblks < v.geo.npages :=
      Nat.div_lt_of_lt_mul (Nat.div_lt_of_lt_mul (by rwa [Nat.mul_comm]))
    rw [VblkG.place, BitVec.toNat_ofNat, Nat.mod_eq_of_lt (hlt.trans v.geo.npages_lt)]
  have hst : s < t := by
    by_contra hge
    rw [hpages s hs, hpages t ht] at hpg
    exact absurd hpg (Nat.div_le_div_right (Nat.div_le_div_right (not_lt.mp hge))).not_gt
  exact (hr.placed (b := .s12 v w r) hn).mono s t hst ht hz

/-- The commands of a write, or of a pad, of the range. -/
def Vblk.rangeCmds (b : Vblk) (bufNull : Bool) (count offset : Nat) : List WriteCmd :=
  b.cut bufNull b.cmdNsectors (offset / b.sectorNbytes) (count / b.sectorNbytes)

def Vblk.Before (b : Vblk) (x y : GAddr ⊕ LAddr) : Prop :=
  b.layout.zone x = b.layout.zone y → b.layout.rank x < b.layout.rank y

section

variable {b : Vblk} {bufNull : Bool} {count offset : Nat}

theorem Vblk.Regular.cmdNsectors_pos (hr : b.Regular) : 0 < b.cmdNsectors := by
  cases b with
  | s12 v w r =>
    obtain ⟨-, hs, hle⟩ := hr
    exact Nat.mul_pos (cmdNspages_pos _ (Nat.div_pos hle hs)) hs
  | s20 v => exact hr.2.2.1

theorem Vblk.Regular.sync (hr : b.Regular) : b.Sync := by
  cases b with
  | s12 v w r => trivial
  | s20 v => exact hr.2.1

theorem Vblk.align_dvd (b : Vblk) : b.sectorNbytes ∣ b.align := by
  cases b with
  | s12 v w r => exact Nat.dvd_mul_left _ _
  | s20 v => exact Nat.dvd_mul_left _ _

/-- A range in bounds as sectors. -/
theorem Vblk.InRange.sectors (h : b.InRange count offset) :
    offset / b.sectorNbytes * b.sectorNbytes = offset ∧ count / b.sectorNbytes * b.sectorNbytes = count ∧
      offset / b.sectorNbytes + count / b.sectorNbytes = (offset + count) / b.sectorNbytes ∧
      offset / b.sectorNbytes + count / b.sectorNbytes ≤ b.nsectors := by
  have hoffset := b.align_dvd.trans h.dvd_offset
  have hcount := b.align_dvd.trans h.dvd_count
  have hadd := Nat.add_div_of_dvd_right hoffset (b := count)
  refine ⟨Nat.div_mul_cancel hoffset, Nat.div_mul_cancel hcount, hadd.symm, ?_⟩
  rw [← hadd]
  exact Nat.div_le_div_right h.bound

theorem Vblk.writeIo_cmds (hr : b.Regular) (hn : 0 < b.nblks) (hm : b.MeetsWhen (.write bufNull) count offset)
    (hin : b.InRange count offset) {alloc : Nat → Bool}
    (hbuf : b.hasBuffers (.succeeding alloc) bufNull count = true) :
    b.writeIo bufNull count offset (.succeeding alloc) =
      .returns (b.rangeCmds bufNull count offset) (.ok count) := by
  rw [b.writeIo_eq hn hr.sync hm, if_pos hin, if_pos hbuf]
  rfl

theorem VblkG.issue_sorted {v : VblkG} {w r : Fin (naddrMax + 1)} (hr : (Vblk.s12 v w r).Regular)
    (hn : 0 < v.nblks) (hin : (Vblk.s12 v w r).InRange count offset) {alloc : Nat → Bool}
    {cmds : List WriteCmd} (hcmds : cmds = (Vblk.s12 v w r).rangeCmds bufNull count offset)
    {ret : Except Errno Int}
    (hio : (Vblk.s12 v w r).writeIo bufNull count offset (.succeeding alloc) = .returns cmds ret)
    {team : WriteTeam} (hM : team.size ≤ v.nthreads w)
    (hteam : OrderedTeam.Complete team.size cmds.length team.events) :
    (team.issue cmds).Pairwise fun c d => ∀ x ∈ c.sectors, ∀ y ∈ d.sectors, (Vblk.s12 v w r).Before x y := by
  obtain ⟨hd, hs, hle⟩ := id hr
  have haccepts := (VblkG.inRange_iff.mp hin).accepts hs hle (Nat.le_of_lt_succ w.isLt)
  have hbound := hin.sectors.2.2.2
  have hmem : ∀ c ∈ cmds, ∀ x ∈ c.sectors, ∃ s < (Vblk.s12 v w r).nsectors, x = .inl (v.place s) := by
    intro c hc x hx
    rw [hcmds] at hc
    obtain ⟨s, -, hlt, rfl⟩ := Vblk.exists_of_mem_cut hr.cmdNsectors_pos hc hx
    exact ⟨s, hlt.trans_le hbound, rfl⟩
  obtain ⟨cmds', hcall, rfl⟩ := Io.map_eq_returns hio
  rw [List.length_map] at hteam
  have horder := pwriteS12_inOrder hd haccepts hcall hM
  refine WriteTeam.issue_pairwise (by rwa [List.length_map]) (by rwa [List.length_map]) ?_
  intro i j c d hc hd' hpg x hx y hy hz
  obtain ⟨s, hslt, rfl⟩ := hmem c (List.mem_of_getElem? hc) x hx
  obtain ⟨t, htlt, rfl⟩ := hmem d (List.mem_of_getElem? hd') y hy
  rw [List.getElem?_map] at hc hd'
  obtain ⟨c', hc', rfl⟩ := Option.map_eq_some_iff.mp hc
  obtain ⟨d', hd'', rfl⟩ := Option.map_eq_some_iff.mp hd'
  obtain ⟨a, ha, hinl⟩ := List.mem_map.mp hx
  obtain ⟨a', ha', hinl'⟩ := List.mem_map.mp hy
  obtain rfl := Sum.inl.inj hinl
  obtain rfl := Sum.inl.inj hinl'
  refine VblkG.rank_lt_of_pg hr hn hslt htlt hz (hpg (v.place s).blockOf _ _ ?_ ?_)
  · exact ⟨c', hc', _, ha, rfl, rfl⟩
  · exact ⟨d', hd'', _, ha', hz.symm, rfl⟩

theorem VblkL.issue_sorted {v : VblkL} (hr : (Vblk.s20 v).Regular) (hin : (Vblk.s20 v).InRange count offset)
    {alloc : Nat → Bool} {cmds : List WriteCmd} {ret : Except Errno Int}
    (hio : (Vblk.s20 v).writeIo bufNull count offset (.succeeding alloc) = .returns cmds ret)
    {team : WriteTeam} (hM : team.size ≤ v.nthreads count)
    (hteam : OrderedTeam.Complete team.size cmds.length team.events) :
    (team.issue cmds).Pairwise fun c d => ∀ x ∈ c.sectors, ∀ y ∈ d.sectors, (Vblk.s20 v).Before x y := by
  rcases Nat.eq_zero_or_pos cmds.length with h0 | hpos
  · have hnil : team.issue cmds = [] := by
      rw [← List.length_eq_zero_iff, (WriteTeam.issue_perm hteam).length_eq, h0]
    rw [hnil]
    exact List.Pairwise.nil
  obtain ⟨hd, hs, hw, hdvd, -⟩ := id hr
  have hbound := hin.sectors.2.2.2
  rw [Vblk.nsectors_s20 hr] at hbound
  have hfits : v.SectrFits count offset := by
    intro s _ hlt
    have hpos : Striping.pos v.wsOpt v.nblks s < v.geo.nsectr := Striping.pos_lt hw hdvd (hlt.trans_le hbound)
    exact hpos.trans v.geo.nsectr_lt
  have hcount : count < width := by
    have := hin.bound
    have := (Vblk.s20 v).nbytes_lt
    omega
  obtain ⟨cmds', hcall, rfl⟩ := Io.map_eq_returns hio
  rw [List.length_map] at hteam
  have hcall' : vblkSyncPwriteS20 v (.succeeding alloc) bufNull count offset = .returns cmds' ret := by
    rw [← hcall, VblkL.io, hs]
    rfl
  rw [List.length_map] at hpos
  have horder := syncPwriteS20_inOrder hd hcount hfits hcall' (hteam.pos hpos) hM
  refine WriteTeam.issue_pairwise (by rwa [List.length_map]) (by rwa [List.length_map]) ?_
  intro i j c d hc hd' hsectr x hx y hy hz
  rw [List.getElem?_map] at hc hd'
  obtain ⟨c', hc', rfl⟩ := Option.map_eq_some_iff.mp hc
  obtain ⟨d', hd'', rfl⟩ := Option.map_eq_some_iff.mp hd'
  obtain ⟨a, ha, rfl⟩ := List.mem_map.mp hx
  obtain ⟨a', ha', rfl⟩ := List.mem_map.mp hy
  exact hsectr a.chunkOf _ _ ⟨c', hc', a, ha, rfl, rfl⟩ ⟨d', hd'', a', ha', Eq.symm hz, rfl⟩

theorem Vblk.issue_sorted (hr : b.Regular) (hn : 0 < b.nblks) (hm : b.MeetsWhen (.write bufNull) count offset)
    (hin : b.InRange count offset) {alloc : Nat → Bool}
    (hbuf : b.hasBuffers (.succeeding alloc) bufNull count = true) {team : WriteTeam}
    (hM : team.size ≤ b.nthreads count)
    (hteam : OrderedTeam.Complete team.size (b.rangeCmds bufNull count offset).length team.events) :
    ((team.issue (b.rangeCmds bufNull count offset)).flatMap WriteCmd.sectors).Pairwise b.Before := by
  have hio := b.writeIo_cmds hr hn hm hin hbuf
  have hbound := hin.sectors.2.2.2
  rw [List.pairwise_flatMap]
  constructor
  · intro c hc
    obtain ⟨j, hj, rfl⟩ := List.mem_map.mp ((WriteTeam.issue_perm hteam).subset hc)
    -- a command goes up through the sectors of its piece
    rw [Vblk.cutCmd, List.pairwise_map]
    refine List.pairwise_lt_range.imp_of_mem fun {i i'} hi hi' hlt => ?_
    have hj' := (SizeLoop.lt_rounds hr.cmdNsectors_pos).mp (List.mem_range.mp hj)
    have hi'' := List.mem_range.mp hi'
    exact (hr.placed hn).mono _ _ (by omega) (by omega)
  · cases b with
    | s12 v w r => exact VblkG.issue_sorted hr hn hin rfl hio hM hteam
    | s20 v => exact VblkL.issue_sorted hr hin hio hM hteam

end

end LightNvm
