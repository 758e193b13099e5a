import LightNvm.VblkLog

/-! Runs of calls on a virtual block over sequential media: no command is refused, and what is read is
what the log holds. -/

namespace LightNvm

open SizeLoop (width rounds)

namespace SeqMedia

variable {b : Vblk}

/-- Commands whose sectors are all taken in turn are executed as one sequence of transfers. -/
theorem foldl_write (data : Nat → UInt8) {cmds : List WriteCmd} {m : SeqMedia b} {wp : BlockId → Nat}
    (h : SeqZone.acceptAll b.layout m.wp (cmds.flatMap WriteCmd.sectors) = some wp) :
    cmds.foldl (write data) m =
      { m with
        sectors := FlatArray.store m.sectors (cmds.flatMap (WriteCmd.writes b.sectorNbytes data))
        wp := wp } := by
  induction cmds generalizing m with
  | nil =>
    obtain rfl : m.wp = wp := Option.some.inj h
    rfl
  | cons c cmds ih =>
    rw [List.flatMap_cons, SeqZone.acceptAll_append] at h
    obtain ⟨wp', hc, hrest⟩ := Option.bind_eq_some_iff.mp h
    have hwrite : m.write data c =
        { m with sectors := FlatArray.store m.sectors (c.writes b.sectorNbytes data), wp := wp' } := by
      rw [write, hc]
    rw [List.foldl_cons, hwrite, ih hrest, List.flatMap_cons, FlatArray.store, FlatArray.store,
      FlatArray.store, List.foldl_append]

end SeqMedia

namespace Vblk

/-- The bytes on the media in the order of the virtual block. -/
def flat (b : Vblk) (m : SeqMedia b) : Nat → UInt8 := FlatArray.flat b.sector b.sectorNbytes_pos m.sectors

/-- The virtual block holds the log: cursors, contents, and the write pointers of its blocks or chunks. -/
structure Tracks (b : Vblk) (s : VblkState b) (l : ByteLog) : Prop where
  write : s.cur.posWrite = l.bytes.length
  read : s.cur.posRead = l.pos
  fits : l.bytes.length ≤ b.nbytes
  dvd : b.align ∣ l.bytes.length
  wp : SeqZone.At b.layout b.sector b.nsectors (l.bytes.length / b.sectorNbytes) s.media.wp
  data : ∀ x (hx : x < l.bytes.length), b.flat s.media x = l.bytes[x]
  refused : s.media.refused = false

section

variable {b : Vblk} {s : VblkState b} {l : ByteLog} {count : Nat} {alloc : Nat → Bool} {team : WriteTeam}

theorem nsectors_mul (hr : b.Regular) : b.nsectors * b.sectorNbytes = b.nbytes := by
  refine Nat.div_mul_cancel ?_
  cases b with
  | s12 v w r =>
    rw [nbytes, v.nbytes_eq_align]
    exact Dvd.dvd.mul_left (Nat.dvd_mul_left _ _) _
  | s20 v =>
    obtain ⟨-, -, -, -, hlt⟩ := hr
    rw [nbytes, VblkL.nbytes, Nat.mod_eq_of_lt hlt]
    exact Nat.dvd_mul_left _ _

theorem writeOn_failed {buf : Option (Nat → UInt8)} {e : Errno}
    (hio : b.writeIo buf.isNone count s.cur.posWrite (.succeeding alloc) = .returns [] (.error e)) :
    b.writeOn s buf count alloc team = s := by
  have hret : b.io (.write buf.isNone) count s.cur.posWrite (.succeeding alloc) = some (.error e) := by
    rw [← b.ret_writeIo, hio]
    rfl
  have hissue : team.issue [] = [] := by
    rw [WriteTeam.issue, List.filterMap_eq_nil_iff]
    exact fun i _ => rfl
  rw [writeOn, hio, nvmVblkWrite, hret]
  simp only [Io.cmds, hissue, List.foldl_nil]
  rfl

theorem writeOn_ok {buf : Option (Nat → UInt8)} (hr : b.Regular) (hn : 0 < b.nblks) (h : b.Tracks s l)
    (hm : b.MeetsWhen (.write buf.isNone) count l.bytes.length)
    (hM : team.size ≤ b.nthreads count)
    (hteam : OrderedTeam.Complete team.size (b.rangeCmds buf.isNone count l.bytes.length).length team.events)
    (hin : b.InRange count l.bytes.length) (hbuf : b.hasBuffers (.succeeding alloc) buf.isNone count = true) :
    b.Tracks (b.writeOn s buf count alloc team) (l.append count (b.fill buf)) := by
  obtain ⟨hoffset, hcount, hsum, hbound⟩ := hin.sectors
  have hq := hr.cmdNsectors_pos
  have hlt := b.nbytes_lt
  have hend := hin.bound
  have hio := b.writeIo_cmds hr hn hm hin hbuf
  have hperm := WriteTeam.issue_perm hteam
  have hret : b.io (.write buf.isNone) count l.bytes.length (.succeeding alloc) = some (.ok count) := by
    rw [← b.ret_writeIo, hio]
    rfl
  have hmem : ∀ a, a ∈ (team.issue (b.rangeCmds buf.isNone count l.bytes.length)).flatMap WriteCmd.sectors ↔
      ∃ t, l.bytes.length / b.sectorNbytes ≤ t ∧
        t < l.bytes.length / b.sectorNbytes + count / b.sectorNbytes ∧ a = b.sector t := by
    intro a
    rw [(hperm.flatMap_right _).mem_iff, rangeCmds, cut_sectors hq]
    simp only [List.mem_map, List.mem_range]
    constructor
    · rintro ⟨i, hi, rfl⟩
      exact ⟨_, Nat.le_add_right _ _, Nat.add_lt_add_left hi _, rfl⟩
    · rintro ⟨t, hle, ht, rfl⟩
      obtain ⟨i, rfl⟩ := Nat.exists_eq_add_of_le hle
      exact ⟨i, Nat.lt_of_add_lt_add_left ht, rfl⟩
  have haccept := (hr.placed hn).accepts (Nat.le_add_right _ _) hbound h.wp hmem
    (issue_sorted hr hn hm hin hbuf hM hteam)
  have hmedia := SeqMedia.foldl_write (buf.getD fun _ => 0) haccept
  have hwrites : FlatArray.Writes b.sector (l.bytes.length / b.sectorNbytes) (count / b.sectorNbytes)
      (b.fill buf) ((team.issue (b.rangeCmds buf.isNone count l.bytes.length)).flatMap
        (WriteCmd.writes b.sectorNbytes (buf.getD fun _ => 0))) := by
    intro t
    rw [(hperm.flatMap_right _).mem_iff, rangeCmds, cut_writes hq]
    simp only [List.mem_map, List.mem_range, eq_comm]
  have hstate : b.writeOn s buf count alloc team = ⟨{ s.cur with posWrite := l.bytes.length + count },
      { s.media with
        sectors := FlatArray.store s.media.sectors ((team.issue (b.rangeCmds buf.isNone count
          l.bytes.length)).flatMap (WriteCmd.writes b.sectorNbytes (buf.getD fun _ => 0)))
        wp := SeqZone.advance b.layout b.sector (l.bytes.length / b.sectorNbytes)
          (l.bytes.length / b.sectorNbytes + count / b.sectorNbytes) s.media.wp }⟩ := by
    have hcur : nvmVblkWrite b s.cur buf.isNone count (.succeeding alloc) =
        { s.cur with posWrite := l.bytes.length + count } := by
      rw [nvmVblkWrite, h.write, hret, moved, if_neg (by omega), Int.toNat_natCast,
        Nat.mod_eq_of_lt (by omega)]
    rw [writeOn, hcur, h.write, hio]
    simp only [Io.cmds]
    rw [hmedia]
  have hlen : (l.append count (b.fill buf)).bytes.length = l.bytes.length + count := by
    rw [ByteLog.append, List.length_append, List.length_map, List.length_range]
  rw [hstate]
  constructor
  · exact hlen.symm
  · exact h.read
  · exact hlen.trans_le hend
  · rw [hlen]
    exact Nat.dvd_add hin.dvd_offset hin.dvd_count
  · rw [hlen, ← hsum]
    exact SeqZone.at_advance h.wp (Nat.le_add_right _ _)
  · intro x hx
    rw [hlen] at hx
    have hx' : x < b.nsectors * b.sectorNbytes := by
      rw [nsectors_mul hr]
      omega
    refine (FlatArray.flat_store (fun r t hr' ht' => (hr.placed hn).inj hr' ht') hbound hwrites hx').trans ?_
    rw [hoffset, hcount]
    simp only [ByteLog.append]
    rw [FlatArray.overwrite]
    split_ifs with hnew
    · rw [List.getElem_append_right hnew.1, List.getElem_map, List.getElem_range]
    · have hold : x < l.bytes.length := by omega
      rw [List.getElem_append_left hold]
      exact h.data x hold
  · exact h.refused

/-- A write, or a pad, leaves the log as it is or appends to it. -/
theorem writeOn_tracks (buf : Option (Nat → UInt8)) (hr : b.Regular) (hn : 0 < b.nblks) (h : b.Tracks s l)
    (hm : b.MeetsWhen (.write buf.isNone) count s.cur.posWrite)
    (hteam : b.TeamOf s.cur buf.isNone count alloc team) :
    b.Tracks (b.writeOn s buf count alloc team)
      (if b.InRange count l.bytes.length ∧ b.hasBuffers (.succeeding alloc) buf.isNone count = true then
        l.append count (b.fill buf)
      else l) := by
  obtain ⟨hM, hcomplete⟩ := hteam
  have hio := b.writeIo_eq hn hr.sync hm alloc
  rw [h.write] at hm hio hcomplete
  by_cases hin : b.InRange count l.bytes.length
  · by_cases hbuf : b.hasBuffers (.succeeding alloc) buf.isNone count = true
    · rw [if_pos ⟨hin, hbuf⟩]
      rw [b.writeIo_cmds hr hn hm hin hbuf] at hcomplete
      exact writeOn_ok hr hn h hm hM hcomplete hin hbuf
    · rw [if_neg (fun hc => hbuf hc.2)]
      rw [if_pos hin, if_neg hbuf, ← h.write] at hio
      rwa [writeOn_failed hio]
  · rw [if_neg (fun hc => hin hc.1)]
    rw [if_neg hin, ← h.write] at hio
    rwa [writeOn_failed hio]

theorem Tracks.pad_inRange (hr : b.Regular) (h : b.Tracks s l) :
    b.InRange (b.nbytes - l.bytes.length) l.bytes.length := by
  have hnbytes : b.align ∣ b.nbytes := by
    cases b with
    | s12 v w r => exact v.align_dvd_nbytes
    | s20 v =>
      obtain ⟨-, -, -, hdvd, hlt⟩ := hr
      rw [nbytes, VblkL.nbytes, Nat.mod_eq_of_lt hlt]
      exact Nat.mul_dvd_mul_right (Dvd.dvd.mul_left hdvd _) _
  have hfits := h.fits
  exact ⟨Nat.dvd_sub hnbytes h.dvd, h.dvd, by omega⟩

theorem read_tracks (hr : b.Regular) (hn : 0 < b.nblks) (h : b.Tracks s l)
    (hm : b.MeetsWhen .read count s.cur.posRead) :
    b.Tracks (b.logStep s (.read count)) (b.byteStep l (.read count)) := by
  have hpos : (nvmVblkRead b s.cur count .good).posRead =
      (if b.InRange count l.pos then { l with pos := l.pos + count } else l).pos := by
    rw [h.read] at hm
    rw [nvmVblkRead, h.read]
    by_cases hin : b.InRange count l.pos
    · obtain ⟨cmds, n, hio, -⟩ := b.readIo_ok hr.sync hm hin
      have hret : b.io .read count l.pos .good = some (.ok count) := by
        rw [← b.ret_readIo, hio]
        rfl
      have hbound := hin.bound
      have hlt := b.nbytes_lt
      rw [if_pos hin, hret, moved, if_neg (by omega), Int.toNat_natCast, Nat.mod_eq_of_lt (by omega)]
    · rw [if_neg hin, b.io_einval ((b.meets_iff _ _ _ hn).mpr hm) hin]
      rfl
  have hbytes : (b.byteStep l (.read count)).bytes = l.bytes := by
    rw [byteStep]
    split_ifs <;> rfl
  obtain ⟨hwrite, -, hfits, hdvd, hwp, hdata, hrefused⟩ := h
  refine ⟨?_, hpos, ?_, ?_, ?_, ?_, hrefused⟩
  · rw [hbytes]
    exact hwrite
  · rw [hbytes]
    exact hfits
  · rw [hbytes]
    exact hdvd
  · rw [hbytes]
    exact hwp
  · intro x hx
    rw [hbytes] at hx
    simp only [hbytes]
    exact hdata x hx

/-- An erase resets the cursors and the write pointers of all blocks or chunks. -/
theorem eraseIo_spec (hn : 0 < b.nblks) {naddrsMax : Nat} (h : b.LogMeets s (.erase naddrsMax)) (c : Cursors) :
    (b.eraseIo naddrsMax c).2 = ⟨0, 0⟩ ∧
      ∀ t, b.layout.zone (b.sector t) ∈ (b.eraseIo naddrsMax c).1.cmds.flatten.map b.layout.zone := by
  have hgood : ∀ n, (List.range n).all IoEnv.good.cmdOk = true := fun n =>
    List.all_eq_true.mpr fun _ _ => rfl
  cases b with
  | s12 v w r =>
    obtain ⟨cmds, herase⟩ := vblkEraseS12_erasesAll v .good h.1 h.2 c
    obtain ⟨ret, hio, -⟩ := herase.issued
    refine ⟨?_, fun t => ?_⟩
    · rw [eraseIo, herase.cursors, hgood]
      rfl
    · have hlane : t / v.spageNaddrs % v.nblks < v.blks.length := Nat.mod_lt _ hn
      simp only [eraseIo, hio, Io.map, Io.cmds]
      rw [← List.map_flatten, herase.targets, List.map_map, List.mem_map]
      refine ⟨{ v.blks[t / v.spageNaddrs % v.nblks] with pl := BitVec.ofNat 8 0 }, ?_, ?_⟩
      · exact List.mem_flatMap.mpr ⟨_, List.getElem_mem hlane,
          List.mem_map.mpr ⟨0, List.mem_range.mpr v.geo.nplanes_pos, rfl⟩⟩
      · simp [layout, sector, VblkG.place, GAddr.blockOf, hlane]
  | s20 v =>
    obtain ⟨cmds, herase⟩ := vblkEraseS20_erasesAll v .good h.1 h.2 c
    obtain ⟨ret, hio, -⟩ := herase.issued
    refine ⟨?_, fun t => ?_⟩
    · rw [eraseIo, herase.cursors, hgood]
      rfl
    · have hlane : (v.sectrSlot t).chunk < v.blks.length := Nat.mod_lt _ hn
      simp only [eraseIo, hio, Io.map, Io.cmds]
      rw [← List.map_flatten, herase.targets, List.map_map, List.mem_map]
      refine ⟨v.blks[(v.sectrSlot t).chunk], List.getElem_mem hlane, ?_⟩
      simp [layout, sector, VblkL.addr, LAddr.chunkOf, hlane]

theorem erase_tracks (hn : 0 < b.nblks) {naddrsMax : Nat} (h : b.LogMeets s (.erase naddrsMax))
    (hs : s.media.refused = false) : b.Tracks (b.logStep s (.erase naddrsMax)) ⟨[], 0⟩ := by
  obtain ⟨hcur, hzones⟩ := eraseIo_spec hn h s.cur
  refine ⟨?_, ?_, Nat.zero_le _, Nat.dvd_zero _, fun t _ => ?_, fun x hx => absurd hx (Nat.not_lt_zero x), hs⟩
  · exact congrArg Cursors.posWrite hcur
  · exact congrArg Cursors.posRead hcur
  · rw [List.length_nil, Nat.zero_div, SeqZone.level_zero]
    exact if_pos (hzones t)

theorem logStep_tracks (hr : b.Regular) (hn : 0 < b.nblks) (s : VblkState b) (l : ByteLog) (op : LogOp)
    (h : b.Tracks s l) (hop : b.LogMeets s op) : b.Tracks (b.logStep s op) (b.byteStep l op) := by
  cases op with
  | write buf count alloc team => exact writeOn_tracks buf hr hn h hop.1 hop.2
  | pad alloc team =>
    have hin := h.pad_inRange hr
    have hcount : padCount b s.cur = b.nbytes - l.bytes.length := by
      rw [padCount_eq (by rw [h.write]; exact h.fits), h.write]
    have hpad := writeOn_tracks none hr hn h hop.1 hop.2
    rw [hcount] at hpad
    rw [logStep, hcount, byteStep]
    by_cases hbuf : b.hasBuffers (.succeeding alloc) true (b.nbytes - l.bytes.length) = true
    · rw [if_pos hbuf]
      rwa [if_pos ⟨hin, hbuf⟩] at hpad
    · rw [if_neg hbuf]
      rwa [if_neg (fun hc => hbuf hc.2)] at hpad
  | read count => exact read_tracks hr hn h hop
  | erase naddrsMax => exact erase_tracks hn hop h.refused

theorem run_tracks (hr : b.Regular) (hn : 0 < b.nblks) {naddrsMax : Nat} {ops : List LogOp}
    (hs : s.media.refused = false) (hops : Runs.Along b.logStep b.LogMeets s (.erase naddrsMax :: ops)) :
    b.Tracks (Runs.run b.logStep s (.erase naddrsMax :: ops)) (Runs.run b.byteStep ⟨[], 0⟩ ops) := by
  obtain ⟨herase, hrest⟩ := Runs.along_cons.mp hops
  have hrun := hrest.relates (logStep_tracks hr hn) (erase_tracks hn herase hs)
  exact hrun

/-! A run on a small virtual block: half of it is written by two threads, then the rest is padded. -/

def tinyLog : Vblk := .s20 (tinyVblk .vector false)

def tinyTeam : WriteTeam := ⟨2, [.start 0, .start 1, .finish 1, .finish 0, .order 0, .order 1]⟩

def tinyOps : List LogOp :=
  [.erase 1, .write (some UInt8.ofNat) 2048 (fun _ => true) tinyTeam, .pad (fun _ => true) tinyTeam]

def tinyState : VblkState tinyLog := ⟨⟨512, 0⟩, ⟨fun _ _ => 0, fun _ => 3, false⟩⟩

theorem tinyLog_regular : tinyLog.Regular := by
  refine ⟨?_, rfl, by decide, by decide, by decide⟩
  rw [VblkL.DistinctChunks]
  decide

theorem tinyTeam_complete : OrderedTeam.Complete tinyTeam.size 2 tinyTeam.events := by
  refine ⟨?_, rfl⟩
  simp [tinyTeam, OrderedTeam.Enabled, OrderedTeam.step, OrderedTeam.init, OrderedTeam.Team.iter,
    Function.update]

theorem tinyLog_write (bufNull : Bool) {offset : Nat} (ho : offset = 0 ∨ offset = 2048) :
    tinyLog.MeetsWhen (.write bufNull) 2048 offset ∧ tinyLog.InRange 2048 offset ∧
      (tinyLog.rangeCmds bufNull 2048 offset).length = 2 ∧
      tinyLog.hasBuffers (.succeeding fun _ => true) bufNull 2048 = true := by
  rcases ho with rfl | rfl <;>
  · refine ⟨⟨by decide, fun hr => absurd ⟨by decide, by decide, by decide⟩ hr, fun _ => ?_⟩,
      ⟨by decide, by decide, by decide⟩, ?_, ?_⟩
    · exact ⟨by decide, ⟨fun _ => by decide, .inl rfl⟩, fun _ => by decide,
        fun _ => by cases bufNull <;> decide⟩
    · rw [rangeCmds, cut, List.length_map]
      decide
    · cases bufNull <;> decide

theorem tinyLog_team {bufNull : Bool} {c : Cursors} (hc : c.posWrite = 0 ∨ c.posWrite = 2048) :
    tinyLog.TeamOf c bufNull 2048 (fun _ => true) tinyTeam := by
  obtain ⟨hm, hin, hlen, hbuf⟩ := tinyLog_write bufNull hc
  refine ⟨by decide, ?_⟩
  rw [writeIo_cmds tinyLog_regular (by decide) hm hin hbuf]
  simp only [Io.cmds, hlen]
  exact tinyTeam_complete

theorem tinyOps_meets : Runs.Along tinyLog.logStep tinyLog.LogMeets tinyState tinyOps := by
  have hn : 0 < tinyLog.nblks := by decide
  have herase : tinyLog.LogMeets tinyState (.erase 1) := ⟨by decide, by decide⟩
  have h₁ := erase_tracks hn herase rfl
  have hwrite : tinyLog.LogMeets (tinyLog.logStep tinyState (.erase 1))
      (.write (some UInt8.ofNat) 2048 (fun _ => true) tinyTeam) := by
    refine ⟨?_, tinyLog_team (.inl h₁.write)⟩
    rw [h₁.write]
    exact (tinyLog_write _ (.inl rfl)).1
  have h₂ := logStep_tracks tinyLog_regular hn _ _ _ h₁ hwrite
  have hpos := h₂.write
  have hbytes : (tinyLog.byteStep ⟨[], 0⟩ (.write (some UInt8.ofNat) 2048 (fun _ => true) tinyTeam)).bytes.length =
      2048 := by
    obtain ⟨-, hin, -, hbuf⟩ := tinyLog_write false (.inl rfl)
    rw [byteStep, if_pos ⟨hin, hbuf⟩, ByteLog.append, List.length_append, List.length_map, List.length_range]
    rfl
  rw [hbytes] at hpos
  refine ⟨herase, hwrite, ⟨?_, ?_⟩, trivial⟩
  · rw [padCount, hpos]
    exact (tinyLog_write _ (.inr rfl)).1
  · rw [padCount, hpos]
    exact tinyLog_team (.inr hpos)

/-- From an erase on no command of a run of calls is refused; the write pointer of each block or chunk is
the number of its sectors among those written, and no write of those would be taken again. -/
theorem vblk_writes_in_sequence (b : Vblk) (hr : b.Regular) (hn : 0 < b.nblks) (s : VblkState b)
    (hs : s.media.refused = false) (naddrsMax : Nat) (ops : List LogOp)
    (hops : Runs.Along b.logStep b.LogMeets s (.erase naddrsMax :: ops)) :
    let s' := Runs.run b.logStep s (.erase naddrsMax :: ops)
    let written := s'.cur.posWrite / b.sectorNbytes
    s'.media.refused = false ∧
      (∀ t < b.nsectors, s'.media.wp (b.layout.zone (b.sector t)) =
        SeqZone.level b.layout b.sector written (b.layout.zone (b.sector t))) ∧
      (s'.cur.posWrite = b.nbytes → ∀ t < b.nsectors,
        s'.media.wp (b.layout.zone (b.sector t)) = b.zoneNsectors) ∧
      ∀ t < written, ∀ as, b.sector t ∈ as → SeqZone.acceptAll b.layout s'.media.wp as = none := by
  intro s' written
  have h : b.Tracks s' (Runs.run b.byteStep ⟨[], 0⟩ ops) := run_tracks hr hn hs hops
  have hat : SeqZone.At b.layout b.sector b.nsectors written s'.media.wp := by
    simp only [written, h.write]
    exact h.wp
  have hle : written ≤ b.nsectors := by
    refine Nat.div_le_div_right ?_
    rw [h.write]
    exact h.fits
  refine ⟨h.refused, hat, fun hfull t ht => ?_, fun t ht as hmem => ?_⟩
  · have hwritten : written = b.nsectors := by
      simp only [written, hfull]
      rfl
    rw [hat t ht, hwritten, hr.nsectors]
    exact (hr.striped hn).level_full (by rwa [← hr.nsectors])
  · exact (hr.placed hn).rejects hle hat ht hmem

theorem vblk_writes_in_sequence_two_threads :
    let s' := Runs.run tinyLog.logStep tinyState tinyOps
    s'.media.refused = false ∧ ∀ t < 8, s'.media.wp (tinyLog.layout.zone (tinyLog.sector t)) =
      SeqZone.level tinyLog.layout tinyLog.sector (s'.cur.posWrite / 512)
        (tinyLog.layout.zone (tinyLog.sector t)) := by
  obtain ⟨hrefused, hwp, -⟩ := vblk_writes_in_sequence tinyLog tinyLog_regular (by decide) tinyState rfl 1
    _ tinyOps_meets
  exact ⟨hrefused, hwp⟩

/-- From an erase on the virtual block is the log: its cursors are the end of the log and the position in
it, and a read takes what the log holds. -/
theorem vblk_refines_log (b : Vblk) (hr : b.Regular) (hn : 0 < b.nblks) (s : VblkState b)
    (hs : s.media.refused = false) (naddrsMax : Nat) (ops : List LogOp)
    (hops : Runs.Along b.logStep b.LogMeets s (.erase naddrsMax :: ops)) :
    let s' := Runs.run b.logStep s (.erase naddrsMax :: ops)
    let l := Runs.run b.byteStep ⟨[], 0⟩ ops
    s'.cur = ⟨l.bytes.length, l.pos⟩ ∧ l.bytes.length ≤ b.nbytes ∧
      ∀ count offset, b.MeetsWhen .read count offset → b.InRange count offset →
        ∃ cmds, b.readIo count offset .good = .returns cmds (.ok count) ∧
          ∀ (order : Order Reads) (buf : Nat → UInt8) (x : Nat), x < count →
            ∀ hx : offset + x < l.bytes.length,
              FlatArray.load s'.media.sectors buf (order.run cmds).flatten x = l.bytes[offset + x] := by
  intro s' l
  have h : b.Tracks s' l := run_tracks hr hn hs hops
  refine ⟨?_, h.fits, fun count offset hm hin => ?_⟩
  · rw [← h.write, ← h.read]
  · obtain ⟨cmds, n, hio, hle, hreads⟩ := b.readIo_ok hr.sync hm hin
    refine ⟨cmds, hio, fun order buf x hx hlt => ?_⟩
    obtain ⟨hoffset, hcount, -⟩ := hin.sectors
    have hmul := Nat.mul_le_mul_right b.sectorNbytes hle
    have hload : FlatArray.load s'.media.sectors buf (order.run cmds).flatten x =
        if x < n * b.sectorNbytes then
          FlatArray.flat b.sector b.sectorNbytes_pos s'.media.sectors (offset / b.sectorNbytes * b.sectorNbytes + x)
        else buf x := FlatArray.load_flat (hreads order) x
    rw [hload, if_pos (by omega), hoffset]
    exact h.data _ hlt

theorem vblk_refines_log_two_threads :
    (Runs.run tinyLog.logStep tinyState tinyOps).cur =
      ⟨(Runs.run tinyLog.byteStep ⟨[], 0⟩ tinyOps.tail).bytes.length,
        (Runs.run tinyLog.byteStep ⟨[], 0⟩ tinyOps.tail).pos⟩ :=
  (vblk_refines_log tinyLog tinyLog_regular (by decide) tinyState rfl 1 _ tinyOps_meets).1

end

end Vblk

end LightNvm
