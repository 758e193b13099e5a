import LightNvm.DevMem
import LightNvm.LbdAsync

/-! The memory of an asynchronous context of the LBD backend, from `nvm_be_lbd_async_init` to
`nvm_be_lbd_async_term`: what the pool of control blocks must look like for the context to be closed. -/

namespace LightNvm

open Blocks

/-- The blocks of the context, of its state, of the array of events and of the table of control blocks. -/
structure LbdBlocks where
  state : Nat
  self : Nat
  events : Option Nat
  table : Nat
  deriving DecidableEq, Repr

def allocIocbs : Nat → MemProg (List (Option Nat))
  | 0 => pure []
  | n + 1 => do
    let iocb ← alloc .libc
    let iocbs ← allocIocbs n
    pure (iocb :: iocbs)

/-- `nvm_be_lbd_async_init`, which looks at none of its allocations. -/
def nvmBeLbdAsyncInitMem (depth : Nat) (refused : Option Errno) : MemProg (Except Errno (LbdBlocks × LbdCtx)) := do
  let state ← alloc .libc
  let ctx ← alloc .libc
  let depth := if depth = 0 then lbdAsyncDefaultIodepth else depth
  let ctx ← deref ctx
  let state ← deref state
  let events ← alloc .libc
  let table ← alloc .libc
  let table ← deref table
  let iocbs ← allocIocbs depth
  match refused with
  | some err => pure (.error err)
  | none => pure (.ok (⟨state, ctx, events, table⟩, ⟨depth, 0, fun i => iocbs[i]?.join, []⟩))

/-- `cmd_async_scalar_wr`, which follows the pointer to the control block that it takes. -/
def cmdAsyncScalarWrMem (b : LbdBlocks) (ctx : LbdCtx) (c : WrCall) : MemProg LbdCtx :=
  if ctx.outstanding = ctx.depth ∨ c.opcode = .other then pure (wrStep ctx c)
  else do
    let _ ← deref (some b.table)
    let _ ← deref (ctx.iocbs ctx.outstanding)
    pure (wrStep ctx c)

def LbdCtx.eventMem (b : LbdBlocks) (ctx : LbdCtx) (e : LbdEvent) : MemProg LbdCtx :=
  if e.obj ∈ ctx.inFlight then do
    let ctx ← e.callback.foldlM (cmdAsyncScalarWrMem b) ctx
    let _ ← deref (some b.table)
    pure { ctx with
      outstanding := ctx.outstanding - 1
      iocbs := Function.update ctx.iocbs (ctx.outstanding - 1) (some e.obj)
      inFlight := ctx.inFlight.erase e.obj }
  else pure ctx

def LbdCtx.stepMem (b : LbdBlocks) (ctx : LbdCtx) : LbdLabel → MemProg LbdCtx
  | .wr c => cmdAsyncScalarWrMem b ctx c
  | .event e => ctx.eventMem b e

/-- The table of control blocks. -/
def LbdCtx.slots (ctx : LbdCtx) : List (Option Nat) := (List.range ctx.depth).map ctx.iocbs

/-- `nvm_be_lbd_async_term`; `refused` is what `io_queue_release` answers. -/
def nvmBeLbdAsyncTermMem (b : LbdBlocks) (ctx : LbdCtx) (refused : Option Errno) :
    MemProg (Except Errno Unit) := do
  let state ← deref (some b.state)
  let table ← deref (some b.table)
  freeAll .libc ctx.slots
  free .libc b.events
  free .libc (some table)
  match refused with
  | some err => pure (.error err)
  | none =>
    free .libc (some state)
    free .libc (some b.self)
    pure (.ok ())

/-- An open context is used and closed. -/
def LbdCtx.use (b : LbdBlocks) (ctx : LbdCtx) (labels : List LbdLabel) (termRefused : Option Errno) :
    MemProg (LbdCtx × Except Errno Unit) := do
  let ctx ← labels.foldlM (LbdCtx.stepMem b) ctx
  let r ← nvmBeLbdAsyncTermMem b ctx termRefused
  pure (ctx, r)

def lbdSession (depth : Nat) (initRefused : Option Errno) (labels : List LbdLabel)
    (termRefused : Option Errno) : MemProg (Except Errno (LbdBlocks × LbdCtx × Except Errno Unit)) := do
  match ← nvmBeLbdAsyncInitMem depth initRefused with
  | .error err => pure (.error err)
  | .ok (b, ctx) =>
    let r ← ctx.use b labels termRefused
    pure (.ok (b, r))

/-- The call finds a control block where it looks for one. -/
def WrHasIocb (ctx : LbdCtx) (c : WrCall) : Prop :=
  ctx.outstanding = ctx.depth ∨ c.opcode = .other ∨ (ctx.iocbs ctx.outstanding).isSome

/-- No control block is in the table twice. -/
def LbdCtx.Distinct (ctx : LbdCtx) : Prop := ctx.slots.reduceOption.Nodup

/-- Every call of the run finds a control block, and at its end none is in the table twice. -/
def LbdCtx.Closable (ctx : LbdCtx) (labels : List LbdLabel) : Prop :=
  Runs.Along LbdCtx.step (fun ctx l => l.Calls WrHasIocb ctx) ctx labels ∧
    (Runs.run LbdCtx.step ctx labels).Distinct

/-- What is in the table and in flight comes from the control blocks of the context, and an empty slot stays
the exception. -/
structure LbdCtx.Owns (objs : List (Option Nat)) (ctx : LbdCtx) : Prop where
  depth : ctx.depth = objs.length
  le : ctx.outstanding ≤ ctx.depth
  slots : ∀ i < ctx.depth, ctx.iocbs i ∈ objs
  inFlight : ∀ o ∈ ctx.inFlight, some o ∈ objs
  count : objs.countP Option.isSome ≤ (List.range ctx.depth).countP fun i => (ctx.iocbs i).isSome

def LbdBlocks.mem (b : LbdBlocks) : Mem :=
  held .libc (some b.state) + (held .libc (some b.self) + (held .libc b.events + held .libc (some b.table)))

section

variable {objs : List (Option Nat)} {ctx : LbdCtx}

theorem wrStep_owns (h : ctx.Owns objs) (c : WrCall) : (wrStep ctx c).Owns objs := by
  rw [wrStep, cmdAsyncScalarWr]
  by_cases hfull : ctx.outstanding = ctx.depth
  · rw [if_pos hfull]
    exact h
  · rw [if_neg hfull]
    have hlt : ctx.outstanding < ctx.depth := lt_of_le_of_ne h.le hfull
    have htaken : ({ ctx with outstanding := ctx.outstanding + 1 } : LbdCtx).Owns objs :=
      ⟨h.depth, hlt, h.slots, h.inFlight, h.count⟩
    dsimp only
    split_ifs
    · exact htaken
    · cases c.refused with
      | some err => exact htaken
      | none =>
        refine ⟨h.depth, hlt, h.slots, fun o ho => ?_, h.count⟩
        obtain ho | ho := List.mem_append.mp ho
        · exact Option.mem_toList.mp ho ▸ h.slots _ hlt
        · exact h.inFlight o ho

theorem callback_owns (h : ctx.Owns objs) (calls : List WrCall) : (Runs.run wrStep ctx calls).Owns objs := by
  induction calls generalizing ctx with
  | nil => exact h
  | cons c calls ih => exact ih (wrStep_owns h c)

theorem step_owns (h : ctx.Owns objs) (l : LbdLabel) : (ctx.step l).Owns objs := by
  cases l with
  | wr c => exact wrStep_owns h c
  | event e =>
    rw [LbdCtx.step, LbdCtx.event]
    by_cases hmem : e.obj ∈ ctx.inFlight
    · rw [if_pos hmem]
      have hobj : some e.obj ∈ objs := h.inFlight _ hmem
      have hrun := callback_owns h e.callback
      refine ⟨hrun.depth, (Nat.sub_le _ _).trans hrun.le, fun i hi => ?_, fun o ho => ?_, ?_⟩
      · dsimp only
        by_cases hi' : i = (Runs.run wrStep ctx e.callback).outstanding - 1
        · rw [hi', Function.update_self]
          exact hobj
        · rw [Function.update_of_ne hi']
          exact hrun.slots i hi
      · exact hrun.inFlight o (List.mem_of_mem_erase ho)
      · refine hrun.count.trans (List.countP_mono_left fun i _ hi => ?_)
        dsimp only
        by_cases hi' : i = (Runs.run wrStep ctx e.callback).outstanding - 1
        · rw [hi', Function.update_self]
          rfl
        · rw [Function.update_of_ne hi']
          exact hi
    · rw [if_neg hmem]
      exact h

/-- A table without doubles holds every control block. -/
theorem LbdCtx.Owns.perm (h : ctx.Owns objs) (hd : ctx.Distinct) :
    ctx.slots.reduceOption.Perm objs.reduceOption := by
  have hsubset : ctx.slots.reduceOption ⊆ objs.reduceOption := by
    intro a ha
    obtain ⟨i, hi, hslot⟩ := List.mem_map.mp (List.reduceOption_mem_iff.mp ha)
    have hmem := h.slots i (List.mem_range.mp hi)
    rw [hslot] at hmem
    exact List.reduceOption_mem_iff.mpr hmem
  refine (List.subperm_of_subset hd hsubset).perm_of_length_le ?_
  have hcount := h.count
  rw [List.reduceOption_length_eq, List.reduceOption_length_eq, ← List.countP_eq_length_filter,
    ← List.countP_eq_length_filter, LbdCtx.slots, List.countP_map]
  exact hcount

end

/-! Calls and completions leave the memory alone. -/

section

variable {objs : List (Option Nat)} {b : LbdBlocks} {ctx : LbdCtx}

theorem deref_table (b : LbdBlocks) (rest : Mem) :
    Triple (b.mem + rest) (deref (some b.table)) fun a bs => a = b.table ∧ bs = b.mem + rest :=
  triple_deref (k := .libc) (by simp [LbdBlocks.mem])

theorem block_mem_heldAll {a : Nat} (ha : some a ∈ objs) : Block.mk a Allocator.libc ∈ heldAll .libc objs := by
  rw [heldAll_eq]
  exact Multiset.mem_map_of_mem _ (List.reduceOption_mem_iff.mpr ha)

theorem triple_cmdAsyncScalarWrMem (h : ctx.Owns objs) {c : WrCall} (hc : WrHasIocb ctx c) :
    Triple (b.mem + heldAll .libc objs) (cmdAsyncScalarWrMem b ctx c) fun t bs =>
      t = wrStep ctx c ∧ bs = b.mem + heldAll .libc objs := by
  rw [cmdAsyncScalarWrMem]
  split_ifs with hquiet
  · exact Triple.pure ⟨rfl, rfl⟩
  · obtain ⟨hfull, hother⟩ := not_or.mp hquiet
    obtain ⟨iocb, hiocb⟩ := Option.isSome_iff_exists.mp ((hc.resolve_left hfull).resolve_left hother)
    have hmem : some iocb ∈ objs := hiocb ▸ h.slots _ (lt_of_le_of_ne h.le hfull)
    refine (deref_table b _).bind fun _ bs hbs => ?_
    rw [hbs.2, hiocb]
    refine (triple_deref (Multiset.mem_add.mpr (Or.inr (block_mem_heldAll hmem)))).bind fun _ cs hcs => ?_
    exact Triple.pure ⟨rfl, hcs.2⟩

theorem faults_cmdAsyncScalarWrMem {c : WrCall} (hc : ¬ WrHasIocb ctx c) :
    Faults (b.mem + heldAll .libc objs) (cmdAsyncScalarWrMem b ctx c) := by
  obtain ⟨hfull, hrest⟩ := not_or.mp hc
  obtain ⟨hother, hnone⟩ := not_or.mp hrest
  have hslot : ctx.iocbs ctx.outstanding = none := by simpa using hnone
  rw [cmdAsyncScalarWrMem, if_neg (not_or.mpr ⟨hfull, hother⟩), hslot]
  refine (deref_table b _).bind_faults fun _ bs _ => ?_
  exact faults_deref.bind _

theorem along_callback (h : ctx.Owns objs) (calls : List WrCall) :
    (Runs.Along wrStep WrHasIocb ctx calls →
      Triple (b.mem + heldAll .libc objs) (calls.foldlM (cmdAsyncScalarWrMem b) ctx) fun t bs =>
        t = Runs.run wrStep ctx calls ∧ bs = b.mem + heldAll .libc objs) ∧
    (¬ Runs.Along wrStep WrHasIocb ctx calls →
      Faults (b.mem + heldAll .libc objs) (calls.foldlM (cmdAsyncScalarWrMem b) ctx)) :=
  foldlM_along (I := LbdCtx.Owns objs) (fun _ c hi _ => wrStep_owns hi c)
    (fun _ _ hi hc => triple_cmdAsyncScalarWrMem hi hc) (fun _ _ _ hc => faults_cmdAsyncScalarWrMem hc) h

theorem triple_stepMem (h : ctx.Owns objs) {l : LbdLabel} (hl : l.Calls WrHasIocb ctx) :
    Triple (b.mem + heldAll .libc objs) (ctx.stepMem b l) fun t bs =>
      t = ctx.step l ∧ bs = b.mem + heldAll .libc objs := by
  cases l with
  | wr c => exact triple_cmdAsyncScalarWrMem h hl
  | event e =>
    rw [LbdCtx.stepMem, LbdCtx.step, LbdCtx.eventMem, LbdCtx.event]
    by_cases hmem : e.obj ∈ ctx.inFlight
    · rw [if_pos hmem, if_pos hmem]
      refine ((along_callback h e.callback).1 (hl hmem)).bind fun t bs hbs => ?_
      obtain ⟨rfl, rfl⟩ := hbs
      refine (deref_table b _).bind fun _ cs hcs => ?_
      exact Triple.pure ⟨rfl, hcs.2⟩
    · rw [if_neg hmem, if_neg hmem]
      exact Triple.pure ⟨rfl, rfl⟩

theorem faults_stepMem (h : ctx.Owns objs) {l : LbdLabel} (hl : ¬ l.Calls WrHasIocb ctx) :
    Faults (b.mem + heldAll .libc objs) (ctx.stepMem b l) := by
  cases l with
  | wr c => exact faults_cmdAsyncScalarWrMem hl
  | event e =>
    obtain ⟨hmem, hcalls⟩ := Classical.not_imp.mp hl
    rw [LbdCtx.stepMem, LbdCtx.eventMem, if_pos hmem]
    exact ((along_callback h e.callback).2 hcalls).bind _

theorem along_stepMem (h : ctx.Owns objs) (labels : List LbdLabel) :
    (Runs.Along LbdCtx.step (fun ctx l => l.Calls WrHasIocb ctx) ctx labels →
      Triple (b.mem + heldAll .libc objs) (labels.foldlM (LbdCtx.stepMem b) ctx) fun t bs =>
        t = Runs.run LbdCtx.step ctx labels ∧ bs = b.mem + heldAll .libc objs) ∧
    (¬ Runs.Along LbdCtx.step (fun ctx l => l.Calls WrHasIocb ctx) ctx labels →
      Faults (b.mem + heldAll .libc objs) (labels.foldlM (LbdCtx.stepMem b) ctx)) :=
  foldlM_along (I := LbdCtx.Owns objs) (fun _ l hi _ => step_owns hi l)
    (fun _ _ hi hl => triple_stepMem hi hl) (fun _ _ hi hl => faults_stepMem hi hl) h

theorem run_owns (h : ctx.Owns objs) (labels : List LbdLabel) :
    (Runs.run LbdCtx.step ctx labels).Owns objs := by
  induction labels generalizing ctx with
  | nil => exact h
  | cons l labels ih => exact ih (step_owns h l)

end

/-! The end of a context. -/

/-- What `nvm_be_lbd_async_term` leaves: the context itself, when the kernel does not release the queue, with
pointers to what is gone. -/
def LbdBlocks.Closed (b : LbdBlocks) (ctx : LbdCtx) (refused : Option Errno) (live : Mem)
    (r : Except Errno Unit) (h : Heap Allocator) : Prop :=
  match refused with
  | none => r = .ok () ∧ h.live = live
  | some err => r = .error err ∧
      h.live = held .libc (some b.state) + (held .libc (some b.self) + live) ∧
      ∀ again, nvmBeLbdAsyncTermMem b ctx again h = none

section

variable {objs : List (Option Nat)} {b : LbdBlocks} {ctx : LbdCtx} {live : Mem} {h : Heap Allocator}

theorem ends_nvmBeLbdAsyncTermMem (hown : ctx.Owns objs) (hd : ctx.Distinct) (refused : Option Errno)
    (hlive : h.live = b.mem + (heldAll .libc objs + live)) :
    Ends (nvmBeLbdAsyncTermMem b ctx refused) h (b.Closed ctx refused live) := by
  have hslots : heldAll Allocator.libc ctx.slots = heldAll .libc objs := by
    rw [heldAll_eq, heldAll_eq, Multiset.coe_eq_coe.mpr (hown.perm hd)]
  have hstate : Block.mk b.state Allocator.libc ∈ h.live := by simp [hlive, LbdBlocks.mem]
  have htable : Block.mk b.table Allocator.libc ∈ h.live := by simp [hlive, LbdBlocks.mem]
  have hall : h.live = heldAll .libc ctx.slots + (held .libc b.events + (held .libc (some b.table) +
      (held .libc (some b.state) + (held .libc (some b.self) + live)))) := by
    rw [hlive, hslots, LbdBlocks.mem]
    ac_rfl
  rw [nvmBeLbdAsyncTermMem, Ends, bind_eq (deref_eq hstate), bind_eq (deref_eq htable)]
  refine (triple_freeAll (add_zero (heldAll .libc ctx.slots)).symm h _ hall).bind fun _ h₁ hfreed => ?_
  obtain ⟨bs, rfl, hlive₁⟩ := hfreed
  rw [zero_add] at hlive₁
  refine (ends_free hlive₁).bind fun _ h₂ hfreed => ?_
  have hlive₂ := hfreed.2.2
  refine (ends_free hlive₂).bind fun _ h₃ hfreed => ?_
  have hlive₃ := hfreed.2.2
  cases refused with
  | none =>
    refine (ends_free hlive₃).bind fun _ h₄ hfreed => ?_
    refine (ends_free hfreed.2.2).bind fun _ h₅ hfreed => ?_
    exact Ends.pure ⟨rfl, hfreed.2.2⟩
  | some err =>
    refine Ends.pure ⟨rfl, hlive₃, fun again => ?_⟩
    have hstate₃ : Block.mk b.state Allocator.libc ∈ h₃.live := by simp [hlive₃]
    rw [nvmBeLbdAsyncTermMem, bind_eq (deref_eq hstate₃)]
    exact bind_eq_none (deref_eq_none hlive₂ hlive₃.le) _

/-- A control block that is in the table twice is given back twice. -/
theorem distinct_of_nvmBeLbdAsyncTermMem {refused : Option Errno} {r : Except Errno Unit × Heap Allocator}
    (hrun : nvmBeLbdAsyncTermMem b ctx refused h = some r) : ctx.Distinct := by
  obtain ⟨_, h₁, -, hrun⟩ := bind_eq_some.mp hrun
  obtain ⟨_, h₂, -, hrun⟩ := bind_eq_some.mp hrun
  obtain ⟨_, h₃, hfree, -⟩ := bind_eq_some.mp hrun
  exact nodup_of_freeAll hfree

theorem use_run (hown : ctx.Owns objs) (hlive : h.live = b.mem + (heldAll .libc objs + live))
    (labels : List LbdLabel) (refused : Option Errno) :
    (ctx.Closable labels → Ends (ctx.use b labels refused) h fun r h' =>
      r.1 = Runs.run LbdCtx.step ctx labels ∧ b.Closed r.1 refused live r.2 h') ∧
    (¬ ctx.Closable labels → ctx.use b labels refused h = none) := by
  obtain ⟨hends, hfaults⟩ := along_stepMem (b := b) hown labels
  have hframe : h.live = b.mem + heldAll .libc objs + live := by rw [hlive, add_assoc]
  by_cases halong : Runs.Along LbdCtx.step (fun ctx l => l.Calls WrHasIocb ctx) ctx labels
  · obtain ⟨_, h₁, hrun, bs, ⟨rfl, rfl⟩, hlive₁⟩ := hends halong h live hframe
    rw [LbdCtx.use, Ends, bind_eq hrun]
    refine ⟨fun hgood => ?_, fun hbad => ?_⟩
    · have hown₁ : h₁.live = b.mem + (heldAll .libc objs + live) := by rw [hlive₁, add_assoc]
      have hterm := ends_nvmBeLbdAsyncTermMem (run_owns hown labels) hgood.2 refused hown₁
      exact hterm.bind fun r h₂ hclosed => Ends.pure ⟨rfl, hclosed⟩
    · have hterm : nvmBeLbdAsyncTermMem b (Runs.run LbdCtx.step ctx labels) refused h₁ = none :=
        Option.eq_none_iff_forall_ne_some.mpr fun r hterm =>
          hbad ⟨halong, distinct_of_nvmBeLbdAsyncTermMem hterm⟩
      exact bind_eq_none hterm _
  · exact ⟨fun hgood => absurd hgood.1 halong, fun _ => bind_eq_none (hfaults halong h live hframe) _⟩

end

/-! The start of a context. -/

theorem ends_allocIocbs (n : Nat) (h : Heap Allocator) : Ends (allocIocbs n) h fun iocbs h' =>
    iocbs = (List.range' h.next n).map h.answer ∧ h'.live = heldAll .libc iocbs + h.live := by
  induction n generalizing h with
  | zero => exact Ends.pure ⟨rfl, (zero_add _).symm⟩
  | succ n ih =>
    refine (ends_alloc_answer .libc h).bind fun iocb h' halloc => ?_
    obtain ⟨rfl, hgrants, hnext, hlive⟩ := halloc
    refine (ih h').bind fun iocbs h'' hrest => Ends.pure ⟨?_, ?_⟩
    · have hanswer : h'.answer = h.answer := by
        funext a
        rw [Heap.answer, Heap.answer, hgrants]
      rw [hrest.1, hnext, hanswer, List.range'_succ, List.map_cons]
    · rw [hrest.2, hlive, heldAll_cons]
      ac_rfl

/-- The context itself, its state and the table have memory: nobody looks. -/
def LbdInitGranted (h : Heap Allocator) : Prop :=
  h.grants h.next = true ∧ h.grants (h.next + 1) = true ∧ h.grants (h.next + 3) = true

/-- The control blocks that a context is opened with. -/
def lbdIocbs (depth : Nat) (h : Heap Allocator) : List (Option Nat) :=
  (List.range' (h.next + 4) (if depth = 0 then lbdAsyncDefaultIodepth else depth)).map h.answer

def LbdCtx.opened (objs : List (Option Nat)) : LbdCtx := ⟨objs.length, 0, fun i => objs[i]?.join, []⟩

theorem opened_owns (objs : List (Option Nat)) : (LbdCtx.opened objs).Owns objs := by
  have hslot : ∀ i (hi : i < objs.length), objs[i]?.join = objs[i] := by
    intro i hi
    rw [List.getElem?_eq_getElem hi]
    rfl
  have hslots : objs = (List.range objs.length).map fun i => objs[i]?.join := by
    refine List.ext_getElem (by simp) fun i hi _ => ?_
    rw [List.getElem_map, List.getElem_range, hslot i hi]
  refine ⟨rfl, Nat.zero_le _, fun i hi => ?_, fun o ho => absurd ho List.not_mem_nil, ?_⟩
  · change objs[i]?.join ∈ objs
    rw [hslot i hi]
    exact List.getElem_mem hi
  · refine le_of_eq ?_
    conv_lhs => rw [hslots, List.countP_map]
    rfl

/-- What `nvm_be_lbd_async_init` gives, or loses when the kernel refuses the queue. -/
theorem nvmBeLbdAsyncInitMem_run (depth : Nat) (refused : Option Errno) (h : Heap Allocator) :
    (LbdInitGranted h → Ends (nvmBeLbdAsyncInitMem depth refused) h fun r h' =>
      ∃ b : LbdBlocks, h'.live = b.mem + (heldAll .libc (lbdIocbs depth h) + h.live) ∧
        r = match refused with
          | some err => .error err
          | none => .ok (b, .opened (lbdIocbs depth h))) ∧
    (¬ LbdInitGranted h → nvmBeLbdAsyncInitMem depth refused h = none) := by
  obtain ⟨state, h₁, hrun₁, hsome₁, hg₁, hn₁, hlive₁⟩ := ends_alloc Allocator.libc h
  obtain ⟨ctx, h₂, hrun₂, hsome₂, hg₂, hn₂, hlive₂⟩ := ends_alloc Allocator.libc h₁
  obtain ⟨events, h₃, hrun₃, -, hg₃, hn₃, hlive₃⟩ := ends_alloc Allocator.libc h₂
  obtain ⟨table, h₄, hrun₄, hsome₄, hg₄, hn₄, hlive₄⟩ := ends_alloc Allocator.libc h₃
  rw [hg₁, hn₁] at hsome₂
  rw [hg₃, hg₂, hg₁, hn₃, hn₂, hn₁] at hsome₄
  rw [nvmBeLbdAsyncInitMem, Ends, bind_eq hrun₁, bind_eq hrun₂]
  cases ctx with
  | none => exact ⟨fun hgranted => by simp [hgranted.2.1] at hsome₂, fun _ => bind_eq_none rfl _⟩
  | some ctx =>
    have hctx : Block.mk ctx Allocator.libc ∈ h₂.live := by simp [hlive₂]
    rw [bind_eq (deref_eq hctx)]
    cases state with
    | none => exact ⟨fun hgranted => by simp [hgranted.1] at hsome₁, fun _ => bind_eq_none rfl _⟩
    | some state =>
      have hstate : Block.mk state Allocator.libc ∈ h₂.live := by simp [hlive₂, hlive₁]
      rw [bind_eq (deref_eq hstate), bind_eq hrun₃, bind_eq hrun₄]
      cases table with
      | none => exact ⟨fun hgranted => by simp [hgranted.2.2] at hsome₄, fun _ => bind_eq_none rfl _⟩
      | some table =>
        have htable : Block.mk table Allocator.libc ∈ h₄.live := by simp [hlive₄]
        refine ⟨fun _ => ?_, fun hno => absurd ⟨hsome₁.symm, hsome₂.symm, hsome₄.symm⟩ hno⟩
        rw [bind_eq (deref_eq htable)]
        refine (ends_allocIocbs _ h₄).bind fun iocbs h₅ hiocbs => ?_
        obtain ⟨hanswers, hlive₅⟩ := hiocbs
        have hanswer : h₄.answer = h.answer := by
          funext a
          rw [Heap.answer, Heap.answer, hg₄, hg₃, hg₂, hg₁]
        have hobjs : iocbs = lbdIocbs depth h := by
          rw [hanswers, hanswer, hn₄, hn₃, hn₂, hn₁, lbdIocbs]
        have hlen : (lbdIocbs depth h).length = if depth = 0 then lbdAsyncDefaultIodepth else depth := by
          rw [lbdIocbs, List.length_map, List.length_range']
        subst hobjs
        have hlive : h₅.live = (LbdBlocks.mk state ctx events table).mem +
            (heldAll .libc (lbdIocbs depth h) + h.live) := by
          rw [hlive₅, hlive₄, hlive₃, hlive₂, hlive₁, LbdBlocks.mem]
          ac_rfl
        cases refused with
        | some err => exact Ends.pure ⟨_, hlive, rfl⟩
        | none => exact Ends.pure ⟨_, hlive, by rw [LbdCtx.opened, hlen]⟩

/-- What a session leaves live, beside what was live before it: everything that was allocated for a context
that could not be opened, and what is left of one that was closed. -/
def LbdSessionLeaves (depth : Nat) (initRefused : Option Errno) (labels : List LbdLabel)
    (termRefused : Option Errno) (h : Heap Allocator)
    (r : Except Errno (LbdBlocks × LbdCtx × Except Errno Unit)) (h' : Heap Allocator) : Prop :=
  match r with
  | .error err => initRefused = some err ∧
      ∃ b : LbdBlocks, h'.live = b.mem + (heldAll .libc (lbdIocbs depth h) + h.live)
  | .ok (b, ctx, r) => initRefused = none ∧ ctx = Runs.run LbdCtx.step (.opened (lbdIocbs depth h)) labels ∧
      b.Closed ctx termRefused h.live r h'

/-- A session faults exactly when the context, its state or the table has no memory, when a call takes a
control block that has none, or when at the end a control block is in the table twice. -/
theorem lbd_async_memory (depth : Nat) (initRefused : Option Errno) (labels : List LbdLabel)
    (termRefused : Option Errno) (h : Heap Allocator) :
    ((∃ r, lbdSession depth initRefused labels termRefused h = some r) ↔
      LbdInitGranted h ∧ (initRefused = none → (LbdCtx.opened (lbdIocbs depth h)).Closable labels)) ∧
    ∀ r h', lbdSession depth initRefused labels termRefused h = some (r, h') →
      LbdSessionLeaves depth initRefused labels termRefused h r h' := by
  obtain ⟨hends, hnone⟩ := nvmBeLbdAsyncInitMem_run depth initRefused h
  by_cases hgranted : LbdInitGranted h
  · obtain ⟨r, h₁, hrun₁, b, hlive₁, hr⟩ := hends hgranted
    rw [lbdSession, bind_eq hrun₁]
    cases initRefused with
    | some err =>
      subst hr
      refine ⟨iff_of_true ⟨_, rfl⟩ ⟨hgranted, fun h => by cases h⟩, fun r h' hr => ?_⟩
      cases hr
      exact ⟨rfl, b, hlive₁⟩
    | none =>
      subst hr
      obtain ⟨hgood, hbad⟩ := use_run (opened_owns (lbdIocbs depth h)) hlive₁ labels termRefused
      simp only [forall_const, hgranted, true_and]
      by_cases hclose : (LbdCtx.opened (lbdIocbs depth h)).Closable labels
      · obtain ⟨⟨ctx, r⟩, h₂, hrun₂, hctx, hclosed⟩ := hgood hclose
        rw [bind_eq hrun₂]
        refine ⟨iff_of_true ⟨_, rfl⟩ hclose, fun r h' hr => ?_⟩
        cases hr
        exact ⟨rfl, hctx, hclosed⟩
      · rw [bind_eq_none (hbad hclose)]
        exact ⟨iff_of_false (by simp) hclose, fun r h' hr => by cases hr⟩
  · have hfault : lbdSession depth initRefused labels termRefused h = none := bind_eq_none (hnone hgranted) _
    rw [hfault]
    exact ⟨iff_of_false (by simp) fun hyes => hgranted hyes.1, fun r h' hr => by cases hr⟩

/-- A submission that the kernel refuses keeps its slot, and the block that completes next is then in the
table twice. -/
example : ¬ (LbdCtx.opened [some 4, some 5]).Closable
    [.wr ⟨.scalarWrite, none⟩, .wr ⟨.scalarWrite, some .eagain⟩, .event ⟨4, []⟩] := by
  rw [LbdCtx.Closable, LbdCtx.Distinct]
  exact fun h => absurd h.2 (by decide)

/-! Contexts that are drained before they are closed. -/

section

variable {objs : List Nat} {ctx : LbdCtx}

theorem opened_eq_init {depth : Nat} {h : Heap Allocator} {ctx : LbdCtx} (hall : ∀ n, h.grants n = true)
    (hinit : nvmBeLbdAsyncInit depth (fun i => h.next + 4 + i) none = .ok ctx) :
    LbdCtx.opened (lbdIocbs depth h) = ctx := by
  obtain rfl := Except.ok.inj hinit
  have hanswer : h.answer = some := funext fun a => if_pos (hall a)
  have hlen : (lbdIocbs depth h).length = if depth = 0 then lbdAsyncDefaultIodepth else depth := by
    rw [lbdIocbs, List.length_map, List.length_range']
  rw [LbdCtx.opened, hlen, lbdIocbs, hanswer]
  generalize (if depth = 0 then lbdAsyncDefaultIodepth else depth) = d
  congr 1
  funext i
  rw [List.getElem?_map]
  split_ifs with hi
  · rw [List.getElem?_range' hi, Nat.one_mul]
    rfl
  · rw [List.getElem?_eq_none (by simpa using hi)]
    rfl

theorem LbdCtx.Inv.hasIocb (h : ctx.Inv objs) (c : WrCall) : WrHasIocb ctx c := by
  refine or_iff_not_imp_left.mpr fun hfull => Or.inr ?_
  have hle := h.holds.le
  have hdepth := h.depth_eq
  obtain ⟨iocb, hiocb, -⟩ := h.holds.take (by omega)
  rw [hiocb]
  rfl

theorem calls_hasIocb (h : ctx.Inv objs) {l : LbdLabel} (hl : l.Calls WrTaken ctx) : l.Calls WrHasIocb ctx := by
  cases l with
  | wr c => exact h.hasIocb c
  | event e =>
    intro hmem
    exact (hl hmem).imp (I := LbdCtx.Inv objs) (fun _ _ _ hi ht => wrStep_inv hi ht)
      (fun _ c _ hi _ => hi.hasIocb c) h

/-- With nothing outstanding the table is the pool. -/
theorem LbdCtx.Inv.distinct (h : ctx.Inv objs) (hnd : objs.Nodup) (hquiet : ctx.outstanding = 0) :
    ctx.Distinct := by
  have hnone : ctx.inFlight = [] := List.eq_nil_of_length_eq_zero (h.holds.sp_eq ▸ hquiet)
  have hperm := h.holds.perm
  rw [hquiet, hnone, List.map_nil, List.append_nil, SlotPool.free, Nat.sub_zero, ← List.range_eq_range',
    ← h.depth_eq] at hperm
  have hpool : ctx.slots.reduceOption.Perm objs := by
    have := hperm.filterMap id
    simpa [List.reduceOption, LbdCtx.slots, List.filterMap_map] using this
  exact hpool.nodup_iff.mpr hnd

end

/-- With memory for everything, calls that the kernel takes and nothing outstanding at the end, a session
ends and leaves no trace. -/
theorem lbd_drained_closes {depth : Nat} {labels : List LbdLabel} {h : Heap Allocator} {ctx : LbdCtx}
    (hall : ∀ n, h.grants n = true)
    (hinit : nvmBeLbdAsyncInit depth (fun i => h.next + 4 + i) none = .ok ctx)
    (htaken : Runs.Along LbdCtx.step (fun ctx l => l.Calls WrTaken ctx) ctx labels)
    (hquiet : (Runs.run LbdCtx.step ctx labels).outstanding = 0) :
    ∃ b ctx' h', lbdSession depth none labels none h = some (.ok (b, ctx', .ok ()), h') ∧ h'.live = h.live := by
  have hnd : (ctx.objs fun i => h.next + 4 + i).Nodup :=
    List.nodup_range.map fun i j hij => Nat.add_left_cancel hij
  have hinv := init_inv hinit
  have hclose : ctx.Closable labels := by
    refine ⟨htaken.imp (fun _ _ _ hi ht => step_inv hi ht) (fun _ _ _ hi ht => calls_hasIocb hi ht) hinv, ?_⟩
    have hend := Runs.run_invariant (I := LbdCtx.Inv (ctx.objs fun i => h.next + 4 + i))
      (fun _ _ hi ht => step_inv hi ht) hinv htaken
    exact hend.distinct hnd hquiet
  rw [← opened_eq_init hall hinit] at hclose
  have hends := fun hgranted => (nvmBeLbdAsyncInitMem_run depth none h).1 hgranted
  obtain ⟨_, h₁, hrun₁, b, hlive₁, rfl⟩ := hends ⟨hall _, hall _, hall _⟩
  obtain ⟨⟨ctx', r⟩, h₂, hrun₂, -, hclosed⟩ := (use_run (opened_owns _) hlive₁ labels none).1 hclose
  obtain ⟨rfl, hlive₂⟩ := hclosed
  refine ⟨b, ctx', h₂, ?_, hlive₂⟩
  rw [lbdSession, bind_eq hrun₁]
  exact bind_eq hrun₂ _

theorem lbd_drained_closes_resubmits : ∃ b ctx' h',
    lbdSession 2 none [.wr ⟨.scalarWrite, none⟩, .event ⟨4, [⟨.scalarRead, none⟩]⟩, .event ⟨5, []⟩] none
      (.empty fun _ => true) = some (.ok (b, ctx', .ok ()), h') ∧ h'.live = 0 := by
  obtain ⟨ctx, hctx⟩ : ∃ ctx, nvmBeLbdAsyncInit 2 (fun i => 0 + 4 + i) none = .ok ctx := ⟨_, rfl⟩
  refine lbd_drained_closes (fun _ => rfl) hctx ⟨?_, ?_, ?_, trivial⟩ ?_
  · exact Or.inr ⟨by decide, rfl⟩
  · exact fun _ => ⟨Or.inr ⟨by decide, rfl⟩, trivial⟩
  · exact fun _ => trivial
  · cases hctx
    decide

end LightNvm
