import LightNvm.Addr
import LightNvm.SizeLoop

/-! What the virtual-block functions of `nvm_vblk.c` share: buffers, the outcome of a
call and the outcome of its command loop. -/

namespace LightNvm

open SizeLoop (width)

inductive MetaMode where
  | none | alpha | const
  deriving DecidableEq, Repr

/-- Where the data pointer of a command points: into the caller's buffer, or at the
start of the padding buffer. -/
inductive BufRef where
  | user (off : Nat)
  | pad
  deriving DecidableEq, Repr

def BufRef.bytes (buf : Nat → UInt8) : BufRef → Nat → UInt8
  | .user off => fun x => buf (off + x)
  | .pad => fun x => UInt8.ofNat (65 + x % 26)

def BufRef.off : BufRef → Nat
  | .user off => off
  | .pad => 0

@[simp] theorem BufRef.off_user (off : Nat) : (BufRef.user off).off = off := rfl

/-- What the surroundings of one call decide: whether an allocation of so many bytes
succeeds, whether the submission of the `n`-th command is refused for good (asynchronous
calls only) and whether the `n`-th command succeeds. -/
structure IoEnv where
  alloc : Nat → Bool
  refuses : Nat → Bool
  cmdOk : Nat → Bool

def nvmBufAlloc (env : IoEnv) (nbytes : Nat) : Bool := nbytes ≠ 0 && env.alloc nbytes

def ssize (count : Nat) : Int := if count < 2 ^ 63 then count else count - width

/-- The outcome of a call: the commands it issued with its result, or no return at all,
because its loop does not end or because it divides by zero. -/
inductive Io (κ : Type) where
  | returns (cmds : List κ) (ret : Except Errno Int)
  | hangs
  | traps
  deriving DecidableEq

variable {κ : Type}

def finish (env : IoEnv) (count : Nat) (cmds : List κ) : Io κ :=
  .returns cmds (if (List.range cmds.length).all env.cmdOk then .ok (ssize count) else .error .eio)

def loopIo (env : IoEnv) (nblks count : Nat) : Option (List κ) → Io κ
  | some [] => finish env count []
  | some (cmd :: cmds) => if nblks = 0 then .traps else finish env count (cmd :: cmds)
  | none => if nblks = 0 then .traps else .hangs

def withBuffers (env : IoEnv) (pad : Bool) (padNbytes : Nat) (metaMode : MetaMode)
    (metaTbytes : Nat) (io : Io κ) : Io κ :=
  if pad && !nvmBufAlloc env padNbytes then .returns [] (.error .enomem)
  else if metaMode ≠ .none && !nvmBufAlloc env metaTbytes then .returns [] (.error .enomem)
  else io

/-- The order in which the threads of a team happen to issue the commands of a call. -/
structure Order (κ : Type) where
  run : List κ → List κ
  perm : ∀ cmds, (run cmds).Perm cmds

def Order.loop : Order κ := ⟨id, fun _ => .rfl⟩

@[simp] theorem Order.mem_run (o : Order κ) {c : κ} {cmds : List κ} : c ∈ o.run cmds ↔ c ∈ cmds :=
  (o.perm cmds).mem_iff

theorem Order.mem_run_flatMap {α : Type} (o : Order κ) {f : κ → List α} {cmd : Nat → κ} {n : Nat} {t : α} :
    t ∈ (o.run ((List.range n).map cmd)).flatMap f ↔ ∃ j < n, t ∈ f (cmd j) := by
  simp only [List.mem_flatMap, mem_run, List.mem_map, List.mem_range, exists_exists_and_eq_and]

def IoEnv.succeeding (alloc : Nat → Bool) : IoEnv := ⟨alloc, fun _ => false, fun _ => true⟩

def IoEnv.good : IoEnv := .succeeding fun _ => true

theorem loopIo_succeeding {nblks : Nat} (alloc : Nat → Bool) (count : Nat) {cmds : List κ}
    (hn : cmds ≠ [] → 0 < nblks) :
    loopIo (.succeeding alloc) nblks count (some cmds) = .returns cmds (.ok (ssize count)) := by
  cases cmds with
  | nil => simp [loopIo, finish]
  | cons c cmds => simp [loopIo, finish, IoEnv.succeeding, (hn (by simp)).ne']

theorem withBuffers_cases (env : IoEnv) (pad : Bool) (padNbytes : Nat) (metaMode : MetaMode)
    (metaTbytes : Nat) (io : Io κ) :
    withBuffers env pad padNbytes metaMode metaTbytes io = io ∨
      withBuffers env pad padNbytes metaMode metaTbytes io = .returns [] (.error .enomem) := by
  rw [withBuffers]
  split_ifs <;> simp

theorem loopIo_returns {env : IoEnv} {nblks count : Nat} {loop : Option (List κ)} {cmds : List κ}
    {ret : Except Errno Int} (h : loopIo env nblks count loop = .returns cmds ret) : loop = some cmds := by
  rcases loop with _ | _ | ⟨c, cs⟩
  · rw [loopIo] at h
    split_ifs at h
  · rw [loopIo, finish] at h
    rw [(Io.returns.inj h).1]
  · rw [loopIo] at h
    split_ifs at h
    rw [finish] at h
    rw [(Io.returns.inj h).1]

theorem withBuffers_alloc {alloc : Nat → Bool} (halloc : ∀ n, n ≠ 0 → alloc n = true) {pad : Bool}
    {padNbytes : Nat} {metaMode : MetaMode} {metaTbytes : Nat} (hpad : pad = true → padNbytes ≠ 0)
    (hmeta : metaMode = .none ∨ metaTbytes ≠ 0) (io : Io κ) :
    withBuffers (.succeeding alloc) pad padNbytes metaMode metaTbytes io = io := by
  have hbuf : ∀ n, n ≠ 0 → nvmBufAlloc (.succeeding alloc) n = true := fun n hn => by
    simp [nvmBufAlloc, IoEnv.succeeding, hn, halloc n hn]
  rw [withBuffers, if_neg, if_neg]
  · rcases hmeta with hm | hm
    · simp [hm]
    · simp [hbuf _ hm]
  · cases pad with
    | false => simp
    | true => simp [hbuf _ (hpad rfl)]

end LightNvm
