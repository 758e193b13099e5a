import Mathlib.Data.List.TakeWhile
import LightNvm.IoContract

/-! What the LBD backend makes of the result that the kernel gives for a read or a write, and what
`nvm_vblk_pwrite` and `nvm_vblk_pread` make of that. -/

namespace LightNvm

/-- The synchronous part of the scalar functions of LBD: the result of `pread` or `pwrite`, which is
a number of bytes or negative. -/
def lbdScalarRw (hasMeta : Bool) (res : Int) : Int :=
  if hasMeta then -1
  else if res < 0 then -1
  else 0

def nvmBeLbdScalarRead (hasMeta : Bool) (res : Int) : Int := lbdScalarRw hasMeta res

def nvmBeLbdScalarWrite (hasMeta : Bool) (res : Int) : Int := lbdScalarRw hasMeta res

structure IoEvent where
  res : Int
  res2 : Int

def kernelEvent (res : Int) : IoEvent := ⟨res, 0⟩

def retStatus (event : IoEvent) : Int := event.res2

def VblkL.passesMeta (v : VblkL) : IoOp → Bool
  | .read => false
  | .write _ => v.metaMode ≠ .none

def IoOp.lbdScalar : IoOp → Bool → Int → Int
  | .read => nvmBeLbdScalarRead
  | .write _ => nvmBeLbdScalarWrite

/-- LBD under a virtual block with scalar commands: `res` are the results of the kernel for the
commands of a call, `refused` the submissions that `io_submit` does not take. -/
def lbdEnv (v : VblkL) (op : IoOp) (alloc refused : Nat → Bool) (res : Nat → Int) : IoEnv where
  alloc := alloc
  refuses i := v.passesMeta op || refused i
  cmdOk i :=
    if v.isAsync then retStatus (kernelEvent (res i)) = 0
    else op.lbdScalar (v.passesMeta op) (res i) = 0

/-! How a call comes to its result. -/

def VblkL.Refused (v : VblkL) (count : Nat) (env : IoEnv) : Prop :=
  v.isAsync = true ∧ ∃ i < v.nstripes count, env.refuses i = true

section

variable {v : VblkL} {env : IoEnv} {count offset : Nat} {cmds : List CmdL} {ret : Except Errno Int}

/-- A call that returns has been refused before its first command, or at one of its submissions, or
its commands decide. -/
def VblkL.Outcome (v : VblkL) (env : IoEnv) (count : Nat) (cmds : List CmdL) (ret : Except Errno Int) :
    Prop :=
  (cmds = [] ∧ ∃ err, ret = .error err) ∨
  (v.Refused count env ∧ ∃ err, ret = .error err) ∨
  (¬ v.Refused count env ∧
    ret = if (List.range cmds.length).all env.cmdOk then .ok (ssize count) else .error .eio)

theorem checked_outcome {io : Io CmdL} (hio : io = .returns cmds ret → v.Outcome env count cmds ret)
    (h : v.checked count offset io = .returns cmds ret) : v.Outcome env count cmds ret := by
  rw [VblkL.checked] at h
  split_ifs at h
  · obtain ⟨rfl, rfl⟩ := Io.returns.inj h
    exact Or.inl ⟨rfl, _, rfl⟩
  · obtain ⟨rfl, rfl⟩ := Io.returns.inj h
    exact Or.inl ⟨rfl, _, rfl⟩
  · exact hio h

theorem buffered_outcome {bufNull : Bool} {io : Io CmdL}
    (hio : io = .returns cmds ret → v.Outcome env count cmds ret)
    (h : v.buffered env bufNull count io = .returns cmds ret) : v.Outcome env count cmds ret := by
  rw [VblkL.buffered] at h
  rcases withBuffers_cases env bufNull _ v.metaMode _ io with hb | hb
  · rw [hb] at h
    exact hio h
  · rw [hb] at h
    obtain ⟨rfl, rfl⟩ := Io.returns.inj h
    exact Or.inl ⟨rfl, _, rfl⟩

theorem loopIo_outcome {nblks : Nat} {loop : Option (List CmdL)} (hsync : v.isAsync = false)
    (h : loopIo env nblks count loop = .returns cmds ret) : v.Outcome env count cmds ret := by
  have hret : finish env count cmds = .returns cmds ret := by
    obtain rfl := loopIo_returns h
    cases cmds with
    | nil => rwa [loopIo] at h
    | cons c cmds =>
      rw [loopIo] at h
      split_ifs at h
      exact h
  refine Or.inr (Or.inr ⟨fun hr => ?_, ?_⟩)
  · exact absurd hr.1 (by simp [hsync])
  · rw [finish] at hret
    exact (Io.returns.inj hret).2.symm

theorem vblkIoAsync_outcome {pad : Bool} (hasync : v.isAsync = true)
    (h : vblkIoAsync v env pad count offset = .returns cmds ret) : v.Outcome env count cmds ret := by
  have hlen : (v.asyncCmds pad count offset).length = v.nstripes count := by simp [VblkL.asyncCmds]
  dsimp only [vblkIoAsync] at h
  split_ifs at h with hn hall
  · rw [hlen] at hall
    have hissued := (List.takeWhile_prefix _).eq_of_length (hall.trans List.length_range.symm)
    refine Or.inr (Or.inr ⟨?_, ?_⟩)
    · rintro ⟨-, i, hi, href⟩
      have := List.takeWhile_eq_self_iff.mp hissued i (List.mem_range.mpr hi)
      simp [href] at this
    · rw [finish] at h
      obtain ⟨rfl, hret⟩ := Io.returns.inj h
      exact hret.symm
  · refine Or.inr (Or.inl ⟨⟨hasync, ?_⟩, .eio, (Io.returns.inj h).2.symm⟩)
    by_contra hnone
    push Not at hnone
    apply hall
    rw [hlen, List.takeWhile_eq_self_iff.mpr, List.length_range]
    intro i hi
    simpa using hnone i (List.mem_range.mp hi)

theorem io_outcome {op : IoOp} (h : v.io op count offset env = .returns cmds ret) :
    v.Outcome env count cmds ret := by
  cases op with
  | read =>
    rw [VblkL.io] at h
    split_ifs at h with ha
    · exact checked_outcome (vblkIoAsync_outcome ha) h
    · exact checked_outcome (loopIo_outcome (by simpa using ha)) h
  | write bufNull =>
    rw [VblkL.io] at h
    split_ifs at h with ha
    · exact checked_outcome (buffered_outcome (vblkIoAsync_outcome ha)) h
    · exact checked_outcome (buffered_outcome (loopIo_outcome (by simpa using ha))) h

end

def VblkL.Transferred (v : VblkL) (cmds : List CmdL) (res : Nat → Int) : Prop :=
  ∀ i c, cmds[i]? = some c → res i = v.geo.nbytes * c.naddrs

/-- LBD reports a failure for one of the commands, or takes no part in it. -/
def VblkL.LbdReports (v : VblkL) (op : IoOp) (count : Nat) (cmds : List CmdL) (refused : Nat → Bool)
    (res : Nat → Int) : Prop :=
  (v.isAsync = false ∧ ∃ i < cmds.length, v.passesMeta op = true ∨ res i < 0) ∨
  (v.isAsync = true ∧ ∃ i < v.nstripes count, v.passesMeta op = true ∨ refused i = true)

theorem lbdScalarRw_eq_zero {hasMeta : Bool} {res : Int} :
    lbdScalarRw hasMeta res = 0 ↔ ¬ (hasMeta = true ∨ res < 0) := by
  rw [lbdScalarRw]
  cases hasMeta
  · by_cases hr : res < 0 <;> simp [hr]
  · simp

theorem lbdScalar_eq (op : IoOp) : op.lbdScalar = lbdScalarRw := by
  cases op <;> rfl

theorem lbdReports_iff {v : VblkL} {op : IoOp} {count : Nat} {cmds : List CmdL} {refused : Nat → Bool}
    {res : Nat → Int} (alloc : Nat → Bool) : v.LbdReports op count cmds refused res ↔
      (List.range cmds.length).all (lbdEnv v op alloc refused res).cmdOk = false ∨
        v.Refused count (lbdEnv v op alloc refused res) := by
  rw [VblkL.LbdReports, VblkL.Refused, List.all_eq_false]
  cases ha : v.isAsync with
  | false =>
    have hok : ∀ i, (¬ (lbdEnv v op alloc refused res).cmdOk i = true) ↔ v.passesMeta op = true ∨ res i < 0 := by
      intro i
      simp only [lbdEnv, ha, Bool.false_eq_true, if_false, lbdScalar_eq, decide_eq_true_eq,
        lbdScalarRw_eq_zero, not_not]
    simp [hok]
  | true =>
    have hok : ∀ i, (lbdEnv v op alloc refused res).cmdOk i = true := by
      intro i
      simp [lbdEnv, ha, retStatus, kernelEvent]
    have href : ∀ i, (lbdEnv v op alloc refused res).refuses i = true ↔
        v.passesMeta op = true ∨ refused i = true := by
      intro i
      simp [lbdEnv]
    simp [hok, href]

/-- Success of a command or of a call means that all bytes went over exactly when nothing is lost,
or when something fails in a way that LBD reports. -/
theorem lbd_success_complete_iff (v : VblkL) (op : IoOp) (hasMeta : Bool) (total : Nat) (result : Int)
    (count offset : Nat) (alloc refused : Nat → Bool) (res : Nat → Int) :
    ((nvmBeLbdScalarRead hasMeta result = 0 → result = total) ↔
      hasMeta = true ∨ result < 0 ∨ result = total) ∧
    ((nvmBeLbdScalarWrite hasMeta result = 0 → result = total) ↔
      hasMeta = true ∨ result < 0 ∨ result = total) ∧
    ((retStatus (kernelEvent result) = 0 → result = total) ↔ result = total) ∧
    ∀ cmds ret, v.io op count offset (lbdEnv v op alloc refused res) = .returns cmds ret →
      (((∃ nbytes, ret = .ok nbytes) → v.Transferred cmds res) ↔
        v.LbdReports op count cmds refused res ∨ v.Transferred cmds res) := by
  have hscalar : (lbdScalarRw hasMeta result = 0 → result = total) ↔
      hasMeta = true ∨ result < 0 ∨ result = total := by
    rw [lbdScalarRw_eq_zero, ← or_assoc]
    exact ⟨fun h => or_iff_not_imp_left.mpr h, fun h hn => h.resolve_left hn⟩
  refine ⟨hscalar, hscalar, by simp [retStatus, kernelEvent], fun cmds ret h => ?_⟩
  rw [lbdReports_iff alloc]
  have herror : ∀ err, ret = .error err → (∃ nbytes, ret = .ok nbytes) → v.Transferred cmds res := by
    rintro err rfl ⟨nbytes, hok⟩
    cases hok
  rcases io_outcome h with ⟨rfl, err, hret⟩ | ⟨href, err, hret⟩ | ⟨hnref, hret⟩
  · -- refused before the first command, so there is nothing to transfer
    exact iff_of_true (herror err hret) (Or.inr (fun i c hc => by simp at hc))
  · exact iff_of_true (herror err hret) (Or.inl (Or.inr href))
  · cases hall : (List.range cmds.length).all (lbdEnv v op alloc refused res).cmdOk with
    | true =>
      rw [hall, if_pos rfl] at hret
      simp [hret, hnref]
    | false =>
      rw [hall, if_neg (by simp)] at hret
      exact iff_of_true (herror .eio hret) (Or.inl (Or.inl rfl))

def tinyAsyncCmds : List CmdL := (tinyVblk .scalar true).asyncCmds false 2048 0

theorem lbd_success_complete_iff_all_bytes :
    (tinyVblk .scalar true).io (.write false) 2048 0
        (lbdEnv (tinyVblk .scalar true) (.write false) (fun _ => true) (fun _ => false) fun _ => 1024) =
      .returns tinyAsyncCmds (.ok 2048) ∧
    (tinyVblk .scalar true).Transferred tinyAsyncCmds fun _ => 1024 := by
  have hio : (tinyVblk .scalar true).io (.write false) 2048 0
      (lbdEnv (tinyVblk .scalar true) (.write false) (fun _ => true) (fun _ => false) fun _ => 1024) =
        .returns tinyAsyncCmds (.ok 2048) := by decide
  refine ⟨hio, ?_⟩
  refine ((lbd_success_complete_iff _ _ false 0 0 _ _ _ _ _).2.2.2 _ _ hio).mpr (Or.inr ?_) ⟨_, rfl⟩
  intro i c hc
  have hmem := List.mem_of_getElem? hc
  have hlen : ∀ c ∈ tinyAsyncCmds, (1024 : Int) = (tinyVblk .scalar true).geo.nbytes * c.naddrs := by decide
  exact hlen c hmem

/-- Both commands fail with `EIO` and the write returns its count; so does a write of which half is
transferred. -/
theorem lbd_failed_write_succeeds : retStatus (kernelEvent (-5)) = 0 ∧ nvmBeLbdScalarWrite false 512 = 0 ∧
    (tinyVblk .scalar true).io (.write false) 2048 0
        (lbdEnv (tinyVblk .scalar true) (.write false) (fun _ => true) (fun _ => false) fun _ => -5) =
      .returns tinyAsyncCmds (.ok 2048) ∧
    ¬ (tinyVblk .scalar true).Transferred tinyAsyncCmds fun _ => -5 := by
  refine ⟨by decide, by decide, by decide, fun h => ?_⟩
  exact absurd (h 0 _ rfl) (by decide)

end LightNvm
