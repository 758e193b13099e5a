import LightNvm.Addr
import LightNvm.Runs
import LightNvm.SlotPool

/-! An asynchronous context of the LBD backend: the control blocks that `cmd_async_scalar_wr` takes
from its pool and `cmd_async_getevents` puts back, with callbacks that submit again. -/

namespace LightNvm

inductive WrOpcode where
  | scalarWrite
  | scalarRead
  | other
  deriving DecidableEq

/-- `struct nvm_async_ctx` with the LBD state; the kernel has the control blocks in `inFlight`. -/
structure LbdCtx where
  depth : Nat
  outstanding : Nat
  iocbs : Nat → Option Nat
  inFlight : List Nat

def lbdAsyncDefaultIodepth : Nat := 256

/-- `nvm_be_lbd_async_init`, with the control blocks it allocates and the error of
`io_queue_init`, if any. -/
def nvmBeLbdAsyncInit (depth : Nat) (iocb : Nat → Nat) (refused : Option Errno) : Except Errno LbdCtx :=
  let depth := if depth = 0 then lbdAsyncDefaultIodepth else depth
  match refused with
  | some err => .error err
  | none => .ok ⟨depth, 0, fun i => if i < depth then some (iocb i) else none, []⟩

def LbdCtx.objs (ctx : LbdCtx) (iocb : Nat → Nat) : List Nat := (List.range ctx.depth).map iocb

/-- A call of `cmd_async_scalar_wr`, with the error that `io_submit` answers it with, if any. -/
structure WrCall where
  opcode : WrOpcode
  refused : Option Errno
  deriving DecidableEq

def cmdAsyncScalarWr (ctx : LbdCtx) (c : WrCall) : LbdCtx × Except Errno Unit :=
  if ctx.outstanding = ctx.depth then (ctx, .error .eagain)
  else
    let iocb := ctx.iocbs ctx.outstanding
    let ctx := { ctx with outstanding := ctx.outstanding + 1 }
    if c.opcode = .other then (ctx, .error .einval)
    else match c.refused with
      | none => ({ ctx with inFlight := iocb.toList ++ ctx.inFlight }, .ok ())
      | some err => (ctx, .error err)

def wrStep (ctx : LbdCtx) (c : WrCall) : LbdCtx := (cmdAsyncScalarWr ctx c).1

/-- A completion: the control block, and the calls that the callback of its command makes. -/
structure LbdEvent where
  obj : Nat
  callback : List WrCall

/-- The body of the loop over the events of a batch; the kernel hands out what it has in flight. -/
def LbdCtx.event (ctx : LbdCtx) (e : LbdEvent) : LbdCtx :=
  if e.obj ∈ ctx.inFlight then
    let ctx := Runs.run wrStep ctx e.callback
    { ctx with
      outstanding := ctx.outstanding - 1
      iocbs := Function.update ctx.iocbs (ctx.outstanding - 1) (some e.obj)
      inFlight := ctx.inFlight.erase e.obj }
  else ctx

def cmdAsyncGetevents (ctx : LbdCtx) : List (List LbdEvent) → LbdCtx
  | [] => ctx
  | batch :: batches =>
    if ctx.outstanding = 0 then ctx
    else if batch = [] then ctx
    else cmdAsyncGetevents (batch.foldl LbdCtx.event ctx) batches

inductive LbdLabel where
  | wr (c : WrCall)
  | event (e : LbdEvent)

def LbdCtx.step (ctx : LbdCtx) : LbdLabel → LbdCtx
  | .wr c => wrStep ctx c
  | .event e => ctx.event e

theorem cmdAsyncGetevents_eq_run (batches : List (List LbdEvent)) (ctx : LbdCtx) :
    ∃ es, es <+: batches.flatten ∧
      cmdAsyncGetevents ctx batches = Runs.run LbdCtx.step ctx (es.map .event) := by
  induction batches generalizing ctx with
  | nil => exact ⟨[], List.nil_prefix, rfl⟩
  | cons batch batches ih =>
    rw [cmdAsyncGetevents]
    split_ifs
    · exact ⟨[], List.nil_prefix, rfl⟩
    · exact ⟨[], List.nil_prefix, rfl⟩
    · obtain ⟨es, hes, hrun⟩ := ih (batch.foldl LbdCtx.event ctx)
      refine ⟨batch ++ es, (List.prefix_append_right_inj batch).mpr hes, ?_⟩
      have hbatch : batch.foldl LbdCtx.event ctx = Runs.run LbdCtx.step ctx (batch.map .event) := by
        rw [Runs.run, List.foldl_map]
        rfl
      rw [hrun, List.map_append, Runs.run_append, hbatch]

/-! The pool. -/

/-- The counter counts the commands in flight, and each control block is free or in flight. -/
structure LbdCtx.PoolOk (objs : List Nat) (ctx : LbdCtx) : Prop where
  outstanding_eq : ctx.outstanding = ctx.inFlight.length
  perm : (SlotPool.free ctx.iocbs ctx.outstanding objs.length ++ ctx.inFlight.map some).Perm (objs.map some)
  nodup : (SlotPool.free ctx.iocbs ctx.outstanding objs.length ++ ctx.inFlight.map some).Nodup

def WrKeeps (ctx : LbdCtx) (c : WrCall) : Prop :=
  ∀ err, (cmdAsyncScalarWr ctx c).2 = .error err → wrStep ctx c = ctx

/-- A call that gets past the check on the depth is taken by the kernel. -/
def WrTaken (ctx : LbdCtx) (c : WrCall) : Prop :=
  ctx.outstanding = ctx.depth ∨ (c.opcode ≠ .other ∧ c.refused = none)

def LbdLabel.Calls (P : LbdCtx → WrCall → Prop) (ctx : LbdCtx) : LbdLabel → Prop
  | .wr c => P ctx c
  | .event e => e.obj ∈ ctx.inFlight → Runs.Along wrStep P ctx e.callback

def KeepsPool (objs : List Nat) (ctx : LbdCtx) (l : LbdLabel) : Prop :=
  (ctx.step l).PoolOk objs ∧ l.Calls WrKeeps ctx

structure LbdCtx.Inv (objs : List Nat) (ctx : LbdCtx) : Prop where
  depth_eq : ctx.depth = objs.length
  holds : SlotPool.Holds objs ctx.iocbs ctx.outstanding ctx.inFlight

section

variable {objs : List Nat} {ctx : LbdCtx}

theorem LbdCtx.Inv.ok (h : ctx.Inv objs) (hnd : objs.Nodup) : ctx.PoolOk objs :=
  ⟨h.holds.sp_eq, h.holds.perm, h.holds.nodup hnd⟩

theorem wrStep_inv (h : ctx.Inv objs) {c : WrCall} (hc : WrTaken ctx c) : (wrStep ctx c).Inv objs := by
  rcases hc with hfull | ⟨hop, hsub⟩
  · simpa [wrStep, cmdAsyncScalarWr, hfull] using h
  · by_cases hfull : ctx.outstanding = ctx.depth
    · simpa [wrStep, cmdAsyncScalarWr, hfull] using h
    · have hle := h.holds.le
      have hdepth := h.depth_eq
      obtain ⟨iocb, hiocb, hholds⟩ := h.holds.take (by omega)
      rw [wrStep, cmdAsyncScalarWr, if_neg hfull, if_neg hop, hsub]
      refine ⟨hdepth, ?_⟩
      simpa [hiocb] using hholds

theorem wrKeeps_iff (ctx : LbdCtx) (c : WrCall) : WrKeeps ctx c ↔ WrTaken ctx c := by
  have hne : ({ ctx with outstanding := ctx.outstanding + 1 } : LbdCtx) ≠ ctx := by
    intro heq
    have := congrArg LbdCtx.outstanding heq
    simp at this
  rw [WrKeeps, WrTaken, wrStep, cmdAsyncScalarWr]
  by_cases hfull : ctx.outstanding = ctx.depth
  · rw [if_pos hfull]
    exact iff_of_true (fun _ _ => rfl) (Or.inl hfull)
  · rw [if_neg hfull]
    by_cases hop : c.opcode = .other
    · rw [if_pos hop]
      exact iff_of_false (fun h => hne (h _ rfl)) (by simp [hfull, hop])
    · rw [if_neg hop]
      cases hsub : c.refused with
      | none => exact iff_of_true (fun _ h => by cases h) (Or.inr ⟨hop, rfl⟩)
      | some err => exact iff_of_false (fun h => hne (h _ rfl)) (by simp [hfull])

theorem callback_inv (h : ctx.Inv objs) {calls : List WrCall} (hc : Runs.Along wrStep WrTaken ctx calls) :
    (Runs.run wrStep ctx calls).Inv objs :=
  Runs.run_invariant (I := LbdCtx.Inv objs) (fun _ _ hi ht => wrStep_inv hi ht) h hc

theorem mem_inFlight_run {obj : Nat} (h : obj ∈ ctx.inFlight) (calls : List WrCall) :
    obj ∈ (Runs.run wrStep ctx calls).inFlight := by
  induction calls generalizing ctx with
  | nil => exact h
  | cons c calls ih =>
    apply ih
    rw [wrStep, cmdAsyncScalarWr]
    split_ifs
    · exact h
    · exact h
    · split
      · exact List.mem_append_right _ h
      · exact h

theorem step_inv (h : ctx.Inv objs) {l : LbdLabel} (hl : l.Calls WrTaken ctx) : (ctx.step l).Inv objs := by
  cases l with
  | wr c => exact wrStep_inv h hl
  | event e =>
    rw [LbdCtx.step, LbdCtx.event]
    split_ifs with hmem
    · -- the block that has completed stays in flight while its callback submits
      have hinv := callback_inv h (hl hmem)
      exact ⟨hinv.depth_eq, hinv.holds.give (mem_inFlight_run hmem e.callback)⟩
    · exact h

theorem calls_iff (h : ctx.Inv objs) (l : LbdLabel) : l.Calls WrKeeps ctx ↔ l.Calls WrTaken ctx := by
  cases l with
  | wr c => exact wrKeeps_iff ctx c
  | event e =>
    have halong : Runs.Along wrStep WrKeeps ctx e.callback ↔ Runs.Along wrStep WrTaken ctx e.callback :=
      Runs.along_iff_of_invariant (I := LbdCtx.Inv objs) (fun _ _ hi ht => wrStep_inv hi ht)
        (fun s c _ => wrKeeps_iff s c) h
    exact imp_congr Iff.rfl halong

theorem keepsPool_iff (hnd : objs.Nodup) (h : ctx.Inv objs) (l : LbdLabel) :
    KeepsPool objs ctx l ↔ l.Calls WrTaken ctx := by
  constructor
  · exact fun hk => (calls_iff h l).mp hk.2
  · exact fun ht => ⟨(step_inv h ht).ok hnd, (calls_iff h l).mpr ht⟩

end

theorem init_inv {depth : Nat} {iocb : Nat → Nat} {refused : Option Errno} {ctx : LbdCtx}
    (h : nvmBeLbdAsyncInit depth iocb refused = .ok ctx) : ctx.Inv (ctx.objs iocb) := by
  cases refused with
  | some err => cases h
  | none =>
    obtain rfl := Except.ok.inj h
    refine ⟨by simp [LbdCtx.objs], ?_⟩
    rw [LbdCtx.objs]
    generalize (if depth = 0 then lbdAsyncDefaultIodepth else depth) = d
    have hslots : (fun i => if i < d then some (iocb i) else none) =
        fun i => ((List.range d).map iocb)[i]? := by
      funext i
      split_ifs with hi
      · simp [hi]
      · simp [List.getElem?_eq_none (show (List.range d).length ≤ i by simpa using hi)]
    rw [hslots]
    exact SlotPool.Holds.init _

/-- Over every run, the pool is in order after each step and failing calls leave it as it was,
exactly when every call that finds room in the queue is taken by the kernel. -/
theorem lbd_pool_iff {depth : Nat} {iocb : Nat → Nat} {refused : Option Errno} {ctx : LbdCtx}
    (hinj : Function.Injective iocb) (hinit : nvmBeLbdAsyncInit depth iocb refused = .ok ctx)
    (labels : List LbdLabel) :
    ctx.PoolOk (ctx.objs iocb) ∧
    (Runs.Along LbdCtx.step (KeepsPool (ctx.objs iocb)) ctx labels ↔
      Runs.Along LbdCtx.step (fun ctx l => l.Calls WrTaken ctx) ctx labels) := by
  have hnd : (ctx.objs iocb).Nodup := List.nodup_range.map hinj
  have hinv := init_inv hinit
  refine ⟨hinv.ok hnd, ?_⟩
  exact Runs.along_iff_of_invariant (I := LbdCtx.Inv (ctx.objs iocb))
    (P := fun ctx l => l.Calls WrTaken ctx)
    (fun _ _ hi ht => step_inv hi ht) (fun _ l hi => keepsPool_iff hnd hi l) hinv

theorem lbd_pool_iff_resubmits : ∃ ctx, nvmBeLbdAsyncInit 2 id none = .ok ctx ∧
    Runs.Along LbdCtx.step (KeepsPool (ctx.objs id)) ctx
      [.wr ⟨.scalarWrite, none⟩, .wr ⟨.scalarWrite, none⟩, .event ⟨1, [⟨.scalarRead, none⟩]⟩,
        .event ⟨0, [⟨.scalarRead, none⟩]⟩] := by
  obtain ⟨ctx, hctx⟩ : ∃ ctx, nvmBeLbdAsyncInit 2 id none = .ok ctx := ⟨_, rfl⟩
  refine ⟨ctx, hctx, ((lbd_pool_iff Function.injective_id hctx _).2).mpr ?_⟩
  refine ⟨?_, ?_, ?_, ?_, trivial⟩
  · exact Or.inr ⟨by decide, rfl⟩
  · exact Or.inr ⟨by decide, rfl⟩
  · exact fun _ => ⟨Or.inr ⟨by decide, rfl⟩, trivial⟩
  · exact fun _ => ⟨Or.inr ⟨by decide, rfl⟩, trivial⟩

/-- A submission that the kernel refuses keeps its control block and its place in the queue: with
nothing in flight the next call finds the queue full. -/
theorem lbd_refused_leaks : ∃ ctx, nvmBeLbdAsyncInit 1 id none = .ok ctx ∧
    (cmdAsyncScalarWr ctx ⟨.scalarWrite, some .eagain⟩).2 = .error .eagain ∧
    (wrStep ctx ⟨.scalarWrite, some .eagain⟩).outstanding = 1 ∧
    (wrStep ctx ⟨.scalarWrite, some .eagain⟩).inFlight = [] ∧
    (cmdAsyncScalarWr (wrStep ctx ⟨.scalarWrite, some .eagain⟩) ⟨.scalarWrite, none⟩).2 = .error .eagain :=
  ⟨_, rfl, rfl, rfl, rfl, rfl⟩

end LightNvm
