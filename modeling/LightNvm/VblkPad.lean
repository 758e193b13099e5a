import LightNvm.Cursors
import LightNvm.WriteCut

/-! `nvm_vblk_pad`: what it writes, where it leaves the cursor and what a second call does. -/

namespace LightNvm

open SizeLoop (width rounds)

/-- A write command of either version: the sectors it transfers and where their data is. -/
structure WriteCmd where
  sectors : List (GAddr ⊕ LAddr)
  buf : BufRef

def CmdG.toWrite (c : CmdG) : WriteCmd := ⟨c.addrs.map .inl, c.buf⟩

def CmdL.toWrite (v : VblkL) (c : CmdL) : WriteCmd := ⟨(c.sectors v).map .inr, c.buf⟩

def Io.map {κ κ' : Type} (f : κ → κ') : Io κ → Io κ'
  | .returns cmds ret => .returns (cmds.map f) ret
  | .hangs => .hangs
  | .traps => .traps

namespace Vblk

def writeIo (b : Vblk) (bufNull : Bool) (count offset : Nat) (env : IoEnv) : Io WriteCmd :=
  match b with
  | .s12 v w _ => (v.io w (.write bufNull) count offset env).map CmdG.toWrite
  | .s20 v => (v.io (.write bufNull) count offset env).map (CmdL.toWrite v)

def sectorNbytes : Vblk → Nat
  | .s12 v _ _ => v.geo.sectorNbytes
  | .s20 v => v.geo.nbytes

def sector : Vblk → Nat → GAddr ⊕ LAddr
  | .s12 v _ _, n => .inl (v.place n)
  | .s20 v, n => .inr (v.addr (v.sectrSlot n))

def sectorRange (b : Vblk) (bgn fin : Nat) : List (GAddr ⊕ LAddr) :=
  (List.range ((fin - bgn) / b.sectorNbytes)).map fun i => b.sector (bgn / b.sectorNbytes + i)

/-- The size of the padding buffer that a write of `count` bytes allocates. -/
def padNbytes : Vblk → Nat → Nat
  | .s12 v w _, _ => cmdNspages v.nblks (w / v.spageNaddrs) * v.spageNaddrs * v.geo.sectorNbytes % width
  | .s20 v, count => v.wsOpt * (count / v.geo.nbytes) * v.geo.nbytes % width

def padIo (b : Vblk) (s : Cursors) : Io WriteCmd := b.writeIo true (padCount b s) s.posWrite .good

/-- The rest of the virtual block is written once, from the padding buffer, and the cursor is at its
end. -/
structure PadCompletes (b : Vblk) (s : Cursors) : Prop where
  io : ∃ cmds, b.padIo s = .returns cmds (.ok (b.nbytes - s.posWrite : Nat)) ∧
    cmds.flatMap WriteCmd.sectors = b.sectorRange s.posWrite b.nbytes ∧
    ∀ c ∈ cmds, c.buf = .pad ∧ c.sectors.length * b.sectorNbytes ≤ b.padNbytes (padCount b s)
  cursor : nvmVblkPad b s .good = { s with posWrite := b.nbytes }

/-- After a pad that completes the virtual block another one has nothing to do. -/
structure PadsOnce (b : Vblk) (s : Cursors) : Prop where
  completes : b.PadCompletes s
  again : b.padIo (nvmVblkPad b s .good) = .returns [] (.ok 0)

/-- A write, of a count that is a `size_t`, that returns no error. -/
def WriteOk (b : Vblk) (s : Cursors) : VblkOp → Prop
  | .write bufNull count env =>
    count < width ∧ ∃ n : Nat, b.io (.write bufNull) count s.posWrite env = some (.ok n)
  | _ => False

def PadsWhen : Vblk → Prop
  | .s12 v w _ => 0 < v.spageNaddrs ∧ v.spageNaddrs ≤ w ∧ (v.metaMode = .none ∨ v.geo.metaNbytes ≠ 0)
  | .s20 _ => False

end Vblk

theorem Io.map_eq_returns {κ κ' : Type} {f : κ → κ'} {io : Io κ} {cmds : List κ'} {ret : Except Errno Int}
    (h : io.map f = .returns cmds ret) : ∃ cmds', io = .returns cmds' ret ∧ cmds = cmds'.map f := by
  cases io with
  | returns cmds' ret' =>
    obtain ⟨rfl, rfl⟩ := Io.returns.inj h
    exact ⟨cmds', rfl, rfl⟩
  | hangs => cases h
  | traps => cases h

theorem Io.ret_map {κ κ' : Type} (f : κ → κ') (io : Io κ) : (io.map f).ret = io.ret := by
  cases io <;> rfl

theorem Vblk.ret_writeIo (b : Vblk) (bufNull : Bool) (count offset : Nat) (env : IoEnv) :
    (b.writeIo bufNull count offset env).ret = b.io (.write bufNull) count offset env := by
  cases b with
  | s12 v w r => exact Io.ret_map _ _
  | s20 v => exact Io.ret_map _ _

theorem Vblk.nvmVblkPad_eq (b : Vblk) (s : Cursors) :
    nvmVblkPad b s .good = { s with posWrite := moved s.posWrite (b.padIo s).ret } := by
  rw [nvmVblkPad, nvmVblkWrite, padIo, ret_writeIo]

/-! OCSSD 1.2. -/

section

variable {v : VblkG} {naddrsMax count offset : Nat}

theorem VblkG.spages_lt_two_pow (v : VblkG) : v.nblks * v.geo.npages * v.align < 2 ^ 63 :=
  (Nat.mul_le_mul v.nspages_lt.le v.align_le).trans_lt (by decide)

theorem VblkG.nbytes_eq_align (v : VblkG) : v.nbytes = v.nblks * v.geo.npages * v.align := by
  rw [VblkG.nbytes, VblkG.nbytes_eq, Nat.mod_eq_of_lt (v.spages_lt_two_pow.trans (by decide))]

theorem VblkG.nbytes_lt_two_pow (v : VblkG) : v.nbytes < 2 ^ 63 := by
  rw [VblkG.nbytes_eq_align]
  exact v.spages_lt_two_pow

theorem VblkG.align_dvd_nbytes (v : VblkG) : v.align ∣ v.nbytes := by
  rw [VblkG.nbytes_eq_align]
  exact Nat.dvd_mul_left _ _

theorem pwriteS12_passes {env : IoEnv} {bufNull : Bool} {cmds : List CmdG} {ret : Int}
    (h : vblkPwriteS12 v env naddrsMax bufNull count offset = .returns cmds (.ok ret)) :
    v.Passes naddrsMax count offset := by
  intro io
  rw [vblkPwriteS12, VblkG.checked] at h
  rw [VblkG.checked]
  split_ifs at h with htrap hbound halign
  · simp at h
  · simp at h
  · rw [if_neg htrap, if_neg hbound, if_neg halign]

theorem pwriteS12_inRange {env : IoEnv} {bufNull : Bool} {cmds : List CmdG} {n : Nat}
    (hcount : count < width) (hoffset : offset ≤ v.nbytes)
    (h : vblkPwriteS12 v env naddrsMax bufNull count offset = .returns cmds (.ok n)) :
    v.InRange count offset ∧ n = count := by
  obtain ⟨-, -, hbound, hdvd, hdvd'⟩ := VblkG.passes_iff.mp (pwriteS12_passes h)
  have hret : (n : Int) = ssize count := by
    have hio : v.io naddrsMax (.write bufNull) count offset env = .returns cmds (.ok n) := h
    exact VblkG.io_ok hio
  have hw : (width : Int) = 2 ^ 64 := rfl
  have hw' : width = 2 ^ 64 := rfl
  have hsmall : count < 2 ^ 63 := by
    by_contra hbig
    rw [ssize, if_neg hbig, hw] at hret
    omega
  have hlt := v.nbytes_lt_two_pow
  rw [Nat.mod_eq_of_lt (by omega)] at hbound
  rw [ssize, if_pos hsmall] at hret
  exact ⟨⟨hdvd, hdvd', hbound⟩, Int.ofNat.inj hret⟩

end

section

variable {v : VblkG} {w r : Fin (naddrMax + 1)}

/-- What a run of successful writes keeps: the cursor is between super-pages, in bounds. -/
def Cursors.AtSpage (v : VblkG) (s : Cursors) : Prop := s.posWrite ≤ v.nbytes ∧ v.align ∣ s.posWrite

theorem writeOk_atSpage {s : Cursors} {op : VblkOp} (hs : s.AtSpage v) (hop : (Vblk.s12 v w r).WriteOk s op) :
    (vblkStep (.s12 v w r) s op).AtSpage v := by
  obtain ⟨hle, hdvd⟩ := hs
  cases op with
  | write bufNull count env =>
    obtain ⟨hcount, n, hret⟩ := hop
    have hio : ∃ cmds, vblkPwriteS12 v env w bufNull count s.posWrite = .returns cmds (.ok n) := by
      change (vblkPwriteS12 v env w bufNull count s.posWrite).ret = some (.ok n) at hret
      match hcall : vblkPwriteS12 v env w bufNull count s.posWrite with
      | .returns cmds ret =>
        rw [hcall] at hret
        obtain rfl : ret = .ok n := Option.some.inj hret
        exact ⟨cmds, rfl⟩
      | .hangs => simp [hcall, Io.ret] at hret
      | .traps => simp [hcall, Io.ret] at hret
    obtain ⟨cmds, hio⟩ := hio
    obtain ⟨hrange, rfl⟩ := pwriteS12_inRange hcount hle hio
    have hlt := v.nbytes_lt
    have hbound := hrange.bound
    have hpos : (vblkStep (.s12 v w r) s (.write bufNull n env)).posWrite = s.posWrite + n := by
      rw [vblkStep, nvmVblkWrite, hret, moved, if_neg (by omega), Int.toNat_natCast, Nat.mod_eq_of_lt (by omega)]
    rw [Cursors.AtSpage, hpos]
    exact ⟨hbound, Nat.dvd_add hdvd hrange.dvd_count⟩
  | read count env => exact hop.elim
  | pad env => exact hop.elim
  | erase ok => exact hop.elim
  | setPosRead pos => exact hop.elim
  | setPosWrite pos => exact hop.elim

theorem padCount_eq {b : Vblk} {s : Cursors} (hs : s.posWrite ≤ b.nbytes) :
    padCount b s = b.nbytes - s.posWrite := by
  have hlt := b.nbytes_lt
  rw [padCount, show b.nbytes + width - s.posWrite = b.nbytes - s.posWrite + width by omega, Nat.add_mod_right,
    Nat.mod_eq_of_lt (by omega)]

theorem Cursors.AtSpage.inRange {s : Cursors} (hs : s.AtSpage v) :
    v.InRange (v.nbytes - s.posWrite) s.posWrite := by
  have hle := hs.1
  exact ⟨Nat.dvd_sub v.align_dvd_nbytes hs.2, hs.2, by omega⟩

theorem VblkG.flatMap_cutCmds {naddrsMax count offset k b c : Nat} (h : v.Spages naddrsMax count offset k b c)
    (pad : Bool) : ((List.range (rounds k c)).map (v.cutCmd pad k b c)).flatMap CmdG.addrs =
      (List.range (k * v.spageNaddrs)).map fun i => v.place (b * v.spageNaddrs + i) := by
  have hpieces := SizeLoop.flatMap_pieces (n := k * v.spageNaddrs) (Nat.mul_pos h.cmd_pos h.spage_pos)
    fun i => v.place (b * v.spageNaddrs + i)
  rw [← hpieces, SizeLoop.rounds_mul_right h.cmd_pos h.spage_pos, List.flatMap_map]
  refine congrArg List.flatten (List.map_congr_left fun j _ => ?_)
  rw [VblkG.cutCmd, ← Nat.mul_assoc, ← Nat.sub_mul, Nat.mul_min_mul_right]

theorem VblkG.pwrite_inRange {count offset : Nat} (hr : v.InRange count offset)
    (hwhen : (Vblk.s12 v w r).PadsWhen) (bufNull : Bool) :
    ∃ k b c, v.Spages w count offset k b c ∧ vblkPwriteS12 v .good w bufNull count offset =
      .returns ((List.range (rounds k c)).map (v.cutCmd bufNull k b c)) (.ok count) := by
  obtain ⟨hspage, hle, hmeta⟩ := hwhen
  have haccepts := hr.accepts hspage hle (Nat.le_of_lt_succ w.isLt)
  obtain ⟨k, b, c, h⟩ := haccepts.spages
  refine ⟨k, b, c, h, ?_⟩
  rw [VblkG.pwrite_cuts haccepts h, withBuffers_good_of_fit ((VblkG.buffersFit_iff h bufNull).mpr hmeta),
    IoEnv.good, loopIo_succeeding _ _ h.nspages_pos, h.ssize_count]

theorem writeOk_inRange {s : Cursors} {count : Nat} (hr : v.InRange count s.posWrite)
    (hwhen : (Vblk.s12 v w r).PadsWhen) (bufNull : Bool) :
    (Vblk.s12 v w r).WriteOk s (.write bufNull count .good) := by
  obtain ⟨k, b, c, -, hio⟩ := VblkG.pwrite_inRange hr hwhen bufNull
  have hlt := hr.bound.trans_lt v.nbytes_lt
  refine ⟨by omega, count, ?_⟩
  change (vblkPwriteS12 v .good w bufNull count s.posWrite).ret = some (.ok count)
  rw [hio]
  rfl

theorem padIo_eq {s : Cursors} (hs : s.AtSpage v) : (Vblk.s12 v w r).padIo s =
    (vblkPwriteS12 v .good w true (v.nbytes - s.posWrite) s.posWrite).map CmdG.toWrite := by
  have hcount : padCount (Vblk.s12 v w r) s = v.nbytes - s.posWrite := padCount_eq hs.1
  rw [Vblk.padIo, hcount]
  rfl

theorem padCompletes_s12 {s : Cursors} (hs : s.AtSpage v) (hwhen : (Vblk.s12 v w r).PadsWhen) :
    (Vblk.s12 v w r).PadCompletes s := by
  obtain ⟨k, b, c, h, hpad⟩ := VblkG.pwrite_inRange hs.inRange hwhen true
  have hio : (Vblk.s12 v w r).padIo s = .returns (((List.range (rounds k c)).map (v.cutCmd true k b c)).map
      CmdG.toWrite) (.ok (v.nbytes - s.posWrite : Nat)) := by
    rw [padIo_eq hs, hpad]
    rfl
  have hpos := hs.1
  have hlt := v.nbytes_lt
  have hsb := v.geo.sectorNbytes_pos
  refine ⟨⟨_, hio, ?_, ?_⟩, ?_⟩
  · have hcount : (v.nbytes - s.posWrite) / v.geo.sectorNbytes = k * v.spageNaddrs := by
      rw [h.count_eq, VblkG.align, ← Nat.mul_assoc, Nat.mul_div_cancel _ hsb]
    have hoffset : s.posWrite / v.geo.sectorNbytes = b * v.spageNaddrs := by
      rw [h.offset_eq, VblkG.align, ← Nat.mul_assoc, Nat.mul_div_cancel _ hsb]
    have hsectors : (Vblk.s12 v w r).sectorRange s.posWrite (Vblk.s12 v w r).nbytes =
        ((List.range (k * v.spageNaddrs)).map fun i => v.place (b * v.spageNaddrs + i)).map .inl := by
      rw [List.map_map, ← hcount, ← hoffset]
      rfl
    rw [hsectors, ← VblkG.flatMap_cutCmds h true, List.map_flatMap, List.flatMap_map]
    rfl
  · intro cmd hcmd
    obtain ⟨cut, hcut, rfl⟩ := List.mem_map.mp hcmd
    obtain ⟨j, -, rfl⟩ := List.mem_map.mp hcut
    refine ⟨rfl, ?_⟩
    have hlen : (v.cutCmd true k b c j).toWrite.sectors.length = min c (k - j * c) * v.spageNaddrs := by
      simp [CmdG.toWrite, VblkG.cutCmd]
    have hbuf : (Vblk.s12 v w r).padNbytes (padCount (.s12 v w r) s) =
        c * v.spageNaddrs * v.geo.sectorNbytes := by
      have hcap : c * v.spageNaddrs * v.geo.sectorNbytes ≤ naddrMax * 2 ^ 16 :=
        Nat.mul_le_mul (h.cmd_le.trans h.naddrs_le) h.sectorNbytes_lt.le
      rw [Vblk.padNbytes, ← h.cmd, Nat.mod_eq_of_lt (hcap.trans_lt (by decide))]
    rw [hlen, hbuf]
    exact Nat.mul_le_mul_right _ (Nat.mul_le_mul_right _ (min_le_left _ _))
  · have hmoved : moved s.posWrite ((Vblk.s12 v w r).padIo s).ret = v.nbytes := by
      rw [hio, Io.ret, moved, if_neg (by omega), Int.toNat_natCast,
        show s.posWrite + (v.nbytes - s.posWrite) = v.nbytes by omega, Nat.mod_eq_of_lt hlt]
    rw [Vblk.nvmVblkPad_eq, hmoved]
    rfl

theorem padsOnce_s12 {s : Cursors} (hs : s.AtSpage v) (hwhen : (Vblk.s12 v w r).PadsWhen) :
    (Vblk.s12 v w r).PadsOnce s := by
  have hfirst := padCompletes_s12 hs hwhen
  refine ⟨hfirst, ?_⟩
  rw [hfirst.cursor]
  have hfull : Cursors.AtSpage v { s with posWrite := v.nbytes } := ⟨le_rfl, v.align_dvd_nbytes⟩
  obtain ⟨k, b, c, h, hpad⟩ := VblkG.pwrite_inRange hfull.inRange hwhen true
  have hk : k = 0 := by
    have hcount := h.count_eq
    dsimp only at hcount
    rw [Nat.sub_self] at hcount
    exact (Nat.mul_eq_zero.mp hcount.symm).resolve_right (VblkG.align_pos h.spage_pos).ne'
  have hio := padIo_eq (w := w) (r := r) hfull
  dsimp only at hio hpad
  rw [hpad, hk, SizeLoop.rounds_zero h.cmd_pos, Nat.sub_self] at hio
  exact hio

theorem padsWhen_of_padsOnce_s12 {s : Cursors} (hs : s.AtSpage v) (h : (Vblk.s12 v w r).PadsOnce s) :
    (Vblk.s12 v w r).PadsWhen := by
  obtain ⟨cmds, hio, -⟩ := h.completes.io
  rw [padIo_eq hs] at hio
  obtain ⟨cmds', hpad, -⟩ := Io.map_eq_returns hio
  obtain ⟨hspage, hle, -⟩ := VblkG.passes_iff.mp (pwriteS12_passes hpad)
  refine ⟨hspage, hle, ?_⟩
  have haccepts := hs.inRange.accepts hspage hle (Nat.le_of_lt_succ w.isLt)
  obtain ⟨k, b, c, hspages⟩ := haccepts.spages
  by_contra hmeta
  rw [VblkG.pwrite_cuts haccepts hspages,
    withBuffers_good_of_not_fit (mt (VblkG.buffersFit_iff hspages true).mp hmeta)] at hpad
  simp at hpad

end

/-! OCSSD 2.0. -/

/-- Neither function allocates a buffer for a write of no bytes. -/
theorem VblkL.io_empty (v : VblkL) (offset : Nat) :
    v.io (.write true) 0 offset .good = v.checked 0 offset (.returns [] (.error .enomem)) := by
  have hbuf : ∀ io, v.buffered .good true 0 io = .returns [] (.error .enomem) := by
    intro io
    rw [VblkL.buffered, Nat.zero_div, Nat.mul_zero, Nat.zero_mul, Nat.zero_mod]
    exact withBuffers_good_of_not_fit (fun h => h.1 rfl rfl) io
  rw [VblkL.io, vblkAsyncPwriteS20, vblkSyncPwriteS20, hbuf, hbuf, ite_self]

/-- At the end of the virtual block there is nothing to pad, and the buffer of no bytes is refused. -/
theorem not_padsOnce_s20 (v : VblkL) (s : Cursors) : ¬ (Vblk.s20 v).PadsOnce s := by
  intro h
  have hagain := h.again
  rw [h.completes.cursor, Vblk.padIo, padCount_eq le_rfl, Nat.sub_self] at hagain
  obtain ⟨cmds, hio, -⟩ := Io.map_eq_returns hagain
  rw [v.io_empty, VblkL.checked] at hio
  split_ifs at hio <;> simp at hio

/-- When padding completes the virtual block and is idempotent, after an erase and any writes. -/
theorem vblk_pad_once_iff (b : Vblk) (s : Cursors) (ops : List VblkOp)
    (hops : Runs.Along (vblkStep b) b.WriteOk ⟨0, 0⟩ ops) :
    b.PadsOnce (Runs.run (vblkStep b) s (.erase true :: ops)) ↔ b.PadsWhen := by
  rw [Runs.run_cons]
  change b.PadsOnce (Runs.run (vblkStep b) ⟨0, 0⟩ ops) ↔ b.PadsWhen
  cases b with
  | s12 v w r =>
    have hinit : Cursors.AtSpage v ⟨0, 0⟩ := ⟨Nat.zero_le _, Nat.dvd_zero _⟩
    have hs : (Runs.run (vblkStep (.s12 v w r)) ⟨0, 0⟩ ops).AtSpage v :=
      Runs.run_invariant (fun _ _ hs hop => writeOk_atSpage hs hop) hinit hops
    exact ⟨padsWhen_of_padsOnce_s12 hs, padsOnce_s12 hs⟩
  | s20 v => exact iff_of_false (not_padsOnce_s20 v _) id

theorem vblk_pad_once_half :
    let b := Vblk.s12 tinyVblkG 4 4
    b.PadsOnce (Runs.run (vblkStep b) ⟨0, 512⟩ [.erase true, .write false 1024 .good]) := by
  intro b
  have hwhen : b.PadsWhen := ⟨by decide, by decide, .inl rfl⟩
  have hok : b.WriteOk ⟨0, 0⟩ (.write false 1024 .good) :=
    writeOk_inRange ⟨by decide, by decide, by decide⟩ hwhen false
  exact (vblk_pad_once_iff b ⟨0, 512⟩ [.write false 1024 .good] ⟨hok, trivial⟩).mpr hwhen

/-- Of two pads on an OCSSD 2.0 device the second fails, as it allocates no bytes. -/
theorem pad_again_refused :
    let b := Vblk.s20 (tinyVblk .vector false)
    let s := Runs.run (vblkStep b) ⟨0, 0⟩ [.erase true, .write false 2048 .good]
    Runs.Along (vblkStep b) b.WriteOk ⟨0, 0⟩ [.write false 2048 .good] ∧ s = ⟨2048, 0⟩ ∧
      nvmVblkPad b s .good = ⟨4096, 0⟩ ∧ b.padIo ⟨4096, 0⟩ = .returns [] (.error .enomem) ∧ ¬ b.PadsOnce s := by
  intro b s
  have hwrite : b.io (.write false) 2048 0 .good = some (.ok 2048) := by
    have hu : (tinyVblk .vector false).Units 2048 0 2 0 := ⟨by decide, by decide⟩
    simp only [b, Vblk.io, VblkL.io]
    rw [if_neg (by decide),
      syncPwriteS20_good hu rfl (by decide) (by decide) (by decide) (by decide) (by decide)]
    rfl
  have hs : s = ⟨2048, 0⟩ := by
    simp only [s, Runs.run, List.foldl_cons, List.foldl_nil, vblkStep, nvmVblkErase, nvmVblkWrite, if_true,
      hwrite]
    decide
  have hpad : nvmVblkPad b s .good = ⟨4096, 0⟩ := by
    have hu : (tinyVblk .vector false).Units 2048 2048 2 2 := ⟨by decide, by decide⟩
    have hio : b.io (.write true) 2048 2048 .good = some (.ok 2048) := by
      simp only [b, Vblk.io, VblkL.io]
      rw [if_neg (by decide),
        syncPwriteS20_eq hu (by decide) (by decide) (by decide) ⟨fun _ => by decide, by decide⟩]
      rfl
    rw [hs, nvmVblkPad, nvmVblkWrite, show padCount b ⟨2048, 0⟩ = 2048 by decide, hio]
    decide
  have hagain : b.padIo ⟨4096, 0⟩ = .returns [] (.error .enomem) := by
    rw [Vblk.padIo, show padCount b ⟨4096, 0⟩ = 0 by decide, Vblk.writeIo, VblkL.io_empty]
    rfl
  exact ⟨⟨⟨by decide, 2048, hwrite⟩, trivial⟩, hs, hpad, hagain, not_padsOnce_s20 _ s⟩

end LightNvm
