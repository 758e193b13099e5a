import LightNvm.IoContractS12
import LightNvm.Runs

/-! The cursors of a virtual block: `nvm_vblk_write`, `nvm_vblk_read`, `nvm_vblk_pad`,
`nvm_vblk_erase` and the functions that set them. -/

namespace LightNvm

open SizeLoop (width)

/-- A virtual block of either kind of device; on OCSSD 1.2 with the settings for the number of
addresses in a command, which the setters keep at `NVM_NADDR_MAX` or below. -/
inductive Vblk where
  | s12 (v : VblkG) (writeNaddrsMax readNaddrsMax : Fin (naddrMax + 1))
  | s20 (v : VblkL)

def Vblk.nblks : Vblk → Nat
  | .s12 v _ _ => v.nblks
  | .s20 v => v.nblks

def Vblk.nbytes : Vblk → Nat
  | .s12 v _ _ => v.nbytes
  | .s20 v => v.nbytes

def IoOp.naddrsMax (writeNaddrsMax readNaddrsMax : Fin (naddrMax + 1)) : IoOp → Nat
  | .read => readNaddrsMax
  | .write _ => writeNaddrsMax

def Vblk.Meets (b : Vblk) (op : IoOp) (count offset : Nat) : Prop :=
  match b with
  | .s12 v w r => v.Meets (op.naddrsMax w r) op count offset
  | .s20 v => v.Meets op count offset

def Vblk.MeetsWhen (b : Vblk) (op : IoOp) (count offset : Nat) : Prop :=
  match b with
  | .s12 v w r => v.MeetsWhen (op.naddrsMax w r) op count offset
  | .s20 v => v.MeetsWhen op count offset

def Io.ret {κ : Type} : Io κ → Option (Except Errno Int)
  | .returns _ ret => some ret
  | _ => none

theorem Io.ret_eq_some_iff {κ : Type} {io : Io κ} {ret : Except Errno Int} :
    io.ret = some ret ↔ ∃ cmds, io = .returns cmds ret := by
  cases io with
  | returns cmds ret' => simp [Io.ret]
  | hangs => simp [Io.ret]
  | traps => simp [Io.ret]

def Vblk.io (b : Vblk) (op : IoOp) (count offset : Nat) (env : IoEnv) : Option (Except Errno Int) :=
  match b with
  | .s12 v w r => (v.io (op.naddrsMax w r) op count offset env).ret
  | .s20 v => (v.io op count offset env).ret

structure Cursors where
  posWrite : Nat
  posRead : Nat
  deriving DecidableEq

/-- A cursor after a call that returned `nbytes`, as `size_t`. -/
def moved (pos : Nat) : Option (Except Errno Int) → Nat
  | some (.ok nbytes) => if nbytes < 0 then pos else (pos + nbytes.toNat) % width
  | _ => pos

def nvmVblkWrite (b : Vblk) (s : Cursors) (bufNull : Bool) (count : Nat) (env : IoEnv) : Cursors :=
  { s with posWrite := moved s.posWrite (b.io (.write bufNull) count s.posWrite env) }

def nvmVblkRead (b : Vblk) (s : Cursors) (count : Nat) (env : IoEnv) : Cursors :=
  { s with posRead := moved s.posRead (b.io .read count s.posRead env) }

def padCount (b : Vblk) (s : Cursors) : Nat := (b.nbytes + width - s.posWrite) % width

def nvmVblkPad (b : Vblk) (s : Cursors) (env : IoEnv) : Cursors :=
  nvmVblkWrite b s true (padCount b s) env

/-- `nvm_vblk_erase`, by whether its commands succeed. -/
def nvmVblkErase (s : Cursors) (ok : Bool) : Cursors := if ok then ⟨0, 0⟩ else s

def nvmVblkSetPosRead (b : Vblk) (s : Cursors) (pos : Nat) : Cursors :=
  if pos > b.nbytes then s else { s with posRead := pos }

def nvmVblkSetPosWrite (b : Vblk) (s : Cursors) (pos : Nat) : Cursors :=
  if pos > b.nbytes then s else { s with posWrite := pos }

inductive VblkOp where
  | write (bufNull : Bool) (count : Nat) (env : IoEnv)
  | read (count : Nat) (env : IoEnv)
  | pad (env : IoEnv)
  | erase (ok : Bool)
  | setPosRead (pos : Nat)
  | setPosWrite (pos : Nat)

def vblkStep (b : Vblk) (s : Cursors) : VblkOp → Cursors
  | .write bufNull count env => nvmVblkWrite b s bufNull count env
  | .read count env => nvmVblkRead b s count env
  | .pad env => nvmVblkPad b s env
  | .erase ok => nvmVblkErase s ok
  | .setPosRead pos => nvmVblkSetPosRead b s pos
  | .setPosWrite pos => nvmVblkSetPosWrite b s pos

/-- The calls that a step makes meet the condition of their contract. -/
def Vblk.StepMeets (b : Vblk) (s : Cursors) : VblkOp → Prop
  | .write bufNull count _ => b.MeetsWhen (.write bufNull) count s.posWrite
  | .read count _ => b.MeetsWhen .read count s.posRead
  | .pad _ => b.MeetsWhen (.write true) (padCount b s) s.posWrite
  | _ => True

def Cursors.InBounds (b : Vblk) (s : Cursors) : Prop := s.posWrite ≤ b.nbytes ∧ s.posRead ≤ b.nbytes

/-! Calls that return successfully. -/

theorem finish_ok {κ : Type} {env : IoEnv} {count : Nat} {cmds cmds' : List κ} {ret : Int}
    (h : finish env count cmds = .returns cmds' (.ok ret)) : ret = ssize count := by
  have h := (Io.returns.inj h).2
  split_ifs at h
  exact (Except.ok.inj h).symm

theorem loopIo_ok {κ : Type} {env : IoEnv} {nblks count : Nat} {loop : Option (List κ)} {cmds : List κ}
    {ret : Int} (h : loopIo env nblks count loop = .returns cmds (.ok ret)) : ret = ssize count := by
  rcases loop with _ | _ | ⟨c, cs⟩
  · rw [loopIo] at h
    split_ifs at h
  · exact finish_ok h
  · rw [loopIo] at h
    split_ifs at h
    exact finish_ok h

theorem withBuffers_ok {κ : Type} {env : IoEnv} {pad : Bool} {padNbytes : Nat} {metaMode : MetaMode}
    {metaTbytes : Nat} {io : Io κ} {cmds : List κ} {ret : Int}
    (h : withBuffers env pad padNbytes metaMode metaTbytes io = .returns cmds (.ok ret)) :
    io = .returns cmds (.ok ret) := by
  rcases withBuffers_cases env pad padNbytes metaMode metaTbytes io with hio | hio
  · exact hio.symm.trans h
  · rw [hio] at h
    simp at h

theorem ioAsync_ok {v : VblkL} {env : IoEnv} {pad : Bool} {count offset : Nat} {cmds : List CmdL}
    {ret : Int} (h : vblkIoAsync v env pad count offset = .returns cmds (.ok ret)) : ret = ssize count := by
  rw [vblkIoAsync] at h
  split_ifs at h
  simp only at h
  split_ifs at h
  · exact finish_ok h
  · simp at h

theorem VblkL.io_ok {v : VblkL} {op : IoOp} {count offset : Nat} {env : IoEnv} {cmds : List CmdL}
    {ret : Int} (h : v.io op count offset env = .returns cmds (.ok ret)) : ret = ssize count := by
  rw [VblkL.io_eq, VblkL.checked] at h
  split_ifs at h
  · simp at h
  · simp at h
  have hio : ∀ loop, (if v.isAsync then vblkIoAsync v env op.bufNull count offset
      else loopIo env v.nblks count loop) = .returns cmds (.ok ret) → ret = ssize count := by
    intro loop hret
    split_ifs at hret
    · exact ioAsync_ok hret
    · exact loopIo_ok hret
  cases op with
  | write bufNull => exact hio _ (withBuffers_ok h)
  | read => exact hio _ h

theorem VblkG.io_ok {v : VblkG} {naddrsMax : Nat} {op : IoOp} {count offset : Nat} {env : IoEnv}
    {cmds : List CmdG} {ret : Int} (h : v.io naddrsMax op count offset env = .returns cmds (.ok ret)) :
    ret = ssize count := by
  cases op with
  | read =>
    rw [VblkG.io, vblkPreadS12, VblkG.checked] at h
    split_ifs at h
    · simp at h
    · simp at h
    · exact loopIo_ok h
  | write bufNull =>
    rw [VblkG.io, vblkPwriteS12, VblkG.checked] at h
    split_ifs at h
    · simp at h
    · simp at h
    · exact loopIo_ok (withBuffers_ok h)

theorem Vblk.meets_iff (b : Vblk) (op : IoOp) (count offset : Nat) (hn : 0 < b.nblks) :
    b.Meets op count offset ↔ b.MeetsWhen op count offset := by
  cases b with
  | s12 v w r =>
    refine meets_iff_s12 v _ op count offset hn ?_
    cases op with
    | read => exact Nat.le_of_lt_succ r.isLt
    | write bufNull => exact Nat.le_of_lt_succ w.isLt
  | s20 v => exact meets_iff_s20 v op count offset hn

theorem Vblk.nbytes_lt (b : Vblk) : b.nbytes < width := by
  cases b with
  | s12 v w r => exact v.nbytes_lt
  | s20 v => exact Nat.mod_lt _ (by decide)

theorem Vblk.io_ok {b : Vblk} {op : IoOp} {count offset : Nat} {env : IoEnv} {ret : Int}
    (hm : b.Meets op count offset) (h : b.io op count offset env = some (.ok ret)) :
    offset + count ≤ b.nbytes ∧ ret = ssize count := by
  cases b with
  | s12 v w r =>
    obtain ⟨cmds, hio⟩ := Io.ret_eq_some_iff.mp h
    have hrange := Contract.ok_of_returns hm hio
    exact ⟨hrange.bound, VblkG.io_ok hio⟩
  | s20 v =>
    obtain ⟨cmds, hio⟩ := Io.ret_eq_some_iff.mp h
    have hrange := Contract.ok_of_returns hm hio
    exact ⟨hrange.bound, VblkL.io_ok hio⟩

theorem moved_le {b : Vblk} {op : IoOp} {count pos : Nat} {env : IoEnv} (hm : b.Meets op count pos)
    (hpos : pos ≤ b.nbytes) : moved pos (b.io op count pos env) ≤ b.nbytes := by
  match h : b.io op count pos env with
  | none => exact hpos
  | some (.error e) => exact hpos
  | some (.ok ret) =>
    obtain ⟨hle, rfl⟩ := b.io_ok hm h
    rw [moved]
    split_ifs with hneg
    · exact hpos
    · have hlt := b.nbytes_lt
      have hcount : count < 2 ^ 63 := by
        by_contra hbig
        have hw : (width : Int) = 2 ^ 64 := rfl
        have hw' : width = 2 ^ 64 := rfl
        rw [ssize, if_neg hbig, hw] at hneg
        omega
      rw [ssize, if_pos hcount, Int.toNat_natCast, Nat.mod_eq_of_lt (by omega)]
      exact hle

theorem vblkStep_inBounds (b : Vblk) (hn : 0 < b.nblks) (s : Cursors) (op : VblkOp) (hs : s.InBounds b)
    (hm : b.StepMeets s op) : (vblkStep b s op).InBounds b := by
  obtain ⟨hw, hr⟩ := hs
  cases op with
  | write bufNull count env => exact ⟨moved_le ((b.meets_iff _ _ _ hn).mpr hm) hw, hr⟩
  | read count env => exact ⟨hw, moved_le ((b.meets_iff _ _ _ hn).mpr hm) hr⟩
  | pad env => exact ⟨moved_le ((b.meets_iff _ _ _ hn).mpr hm) hw, hr⟩
  | erase ok =>
    cases ok with
    | true => exact ⟨Nat.zero_le _, Nat.zero_le _⟩
    | false => exact ⟨hw, hr⟩
  | setPosRead pos =>
    simp only [vblkStep, nvmVblkSetPosRead]
    split_ifs with hpos
    · exact ⟨hw, hr⟩
    · exact ⟨hw, not_lt.mp hpos⟩
  | setPosWrite pos =>
    simp only [vblkStep, nvmVblkSetPosWrite]
    split_ifs with hpos
    · exact ⟨hw, hr⟩
    · exact ⟨not_lt.mp hpos, hr⟩

end LightNvm
