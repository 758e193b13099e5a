import LightNvm.CmdWrap
import LightNvm.DevMem
import LightNvm.SpdkAsync

/-! The memory of commands on the SPDK and NOCD backends: the wrap of a command and the lists that it has
for the device, from `nvm_cmd_wrap_setup` to the `nvm_cmd_wrap_term` behind the callback. -/

namespace LightNvm

open Blocks

/-- The pointers of a `struct nvm_cmd_wrap`, and the block that it lies in. -/
structure WrapMem where
  wrap : Nat
  dsmr : Option Nat
  addrs : Option Nat
  dst : Option Nat
  deriving DecidableEq, Repr

def nvmCmdWrapTerm (be : BeId) (w : WrapMem) : MemProg Unit := do
  be.nvmBufFree w.dsmr
  be.nvmBufFree w.addrs
  be.nvmBufFree w.dst
  free .libc (some w.wrap)

/-- The label `failed`. -/
def wrapFailed (be : BeId) (w : WrapMem) : MemProg (Option WrapMem) := do
  nvmCmdWrapTerm be w
  pure none

def sizeofDsmRange : Nat := 16

section

variable {α : Type} {dev : CmdDev α}

/-- A vector erase with metadata that have no physical address. -/
def Req.eraseMetaFails (req : Req dev) : Bool :=
  req.opcode = .vectorErase && req.md.any fun d => d.phys.isNone

/-- A list of `cmd_wrap_setup_sgl` is missing. -/
def Req.lacksSgl (req : Req dev) : Bool :=
  req.opcode ≠ .scalarErase && flagSgl req.flags &&
    (req.data.isNone || (flagSglMeta req.flags && req.md.isNone))

def wrapDsmMem (be : BeId) (req : Req dev) (w : WrapMem) : MemProg (Option WrapMem) := do
  match ← be.nvmBufAlloc (sizeofDsmRange * req.naddrs) with
  | none => wrapFailed be w
  | some dsmr => pure (some { w with dsmr := some dsmr })

/-- A list of more than one address: `w` is the wrap before, and `put` the one with the list. -/
def wrapListMem (be : BeId) (naddrs : Nat) (w : WrapMem) (put : Nat → WrapMem) : MemProg (Option WrapMem) :=
  if 1 < naddrs then do
    match ← be.nvmBufAlloc (naddrs * 8) with
    | none => wrapFailed be w
    | some list => pure (some (put list))
  else pure (some w)

def wrapVectorMem (be : BeId) (req : Req dev) (w : WrapMem) : MemProg (Option WrapMem) := do
  match ← wrapListMem be req.naddrs w fun list => { w with addrs := some list } with
  | none => pure none
  | some w =>
    match req.dst with
    | none => pure (some w)
    | some _ => wrapListMem be req.naddrs w fun list => { w with dst := some list }

/-- `nvm_cmd_wrap_setup`; it faults where `cmd_wrap_setup_sgl` follows a null pointer. -/
def wrapSetupMem (be : BeId) (req : Req dev) : MemProg (Option WrapMem) := do
  match ← alloc .libc with
  | none => pure none
  | some wrap =>
    let w : WrapMem := ⟨wrap, none, none, none⟩
    if req.opcode = .scalarErase then wrapDsmMem be req w
    else if req.eraseMetaFails then wrapFailed be w
    else if req.lacksSgl then fun _ => none
    else if nvmCmdIsScalar req.opcode then pure (some w)
    else wrapVectorMem be req w

def nvmCmdWrapPass : MemProg (Option WrapMem) := do
  match ← alloc .libc with
  | none => pure none
  | some wrap => pure (some ⟨wrap, none, none, none⟩)

/-- A command: an erase, write, read or copy, or one that is passed through. -/
inductive MemCmd (dev : CmdDev α) where
  | ewrc (req : Req dev)
  | pass

def MemCmd.setup (be : BeId) : MemCmd dev → MemProg (Option WrapMem)
  | .ewrc req => wrapSetupMem be req
  | .pass => nvmCmdWrapPass

def MemCmd.lacksSgl : MemCmd dev → Bool
  | .ewrc req => req.lacksSgl
  | .pass => false

/-- A call with `NVM_CMD_ASYNC`: its command, and whether SPDK takes it. -/
structure MemCall (dev : CmdDev α) where
  cmd : MemCmd dev
  taken : Bool

/-- A command that SPDK has, with the number of its call. -/
structure OwnedCmd (dev : CmdDev α) where
  call : Nat
  cmd : MemCmd dev
  wrap : WrapMem

structure SpdkOwned (dev : CmdDev α) where
  ctx : SpdkCtx
  sent : List (OwnedCmd dev)

def SpdkOwned.record (s : SpdkOwned dev) (sub : Submission) : SpdkOwned dev :=
  { s with ctx := LightNvm.record (cmdAsync s.ctx s.ctx.results.length sub) }

/-- `cmd_async_ewrc` and `cmd_async_pass`. -/
def cmdAsyncMem (be : BeId) (s : SpdkOwned dev) (c : MemCall dev) : MemProg (SpdkOwned dev) :=
  if (s.ctx.outstanding + 1) % 2 ^ 32 > s.ctx.depth then pure (s.record ⟨false, c.taken⟩)
  else do
    match ← c.cmd.setup be with
    | none => pure (s.record ⟨false, c.taken⟩)
    | some w =>
      if c.taken then
        pure { s.record ⟨true, true⟩ with sent := ⟨s.ctx.results.length, c.cmd, w⟩ :: s.sent }
      else do
        nvmCmdWrapTerm be w
        pure (s.record ⟨true, false⟩)

/-- `cmd_sync_ewrc` and `cmd_sync_pass`: the wrap lives for the call, whether the command is taken or not. -/
def cmdSyncMem (be : BeId) (cmd : MemCmd dev) : MemProg Unit := do
  match ← cmd.setup be with
  | none => pure ()
  | some w => nvmCmdWrapTerm be w

/-- `cmd_async_cb` for the `i`-th of the commands that SPDK has: the calls that the callback makes come
before the wrap is given back. -/
def cmdAsyncCbMem (be : BeId) (s : SpdkOwned dev) (i : Nat) (callback : List (MemCall dev)) :
    MemProg (SpdkOwned dev) :=
  match s.sent[i]? with
  | none => pure s
  | some c => do
    let s ← callback.foldlM (cmdAsyncMem be) ⟨cmdAsyncCb s.ctx c.call, s.sent.eraseIdx i⟩
    nvmCmdWrapTerm be c.wrap
    pure s

inductive SpdkOwnedOp (dev : CmdDev α) where
  | async (c : MemCall dev)
  | sync (cmd : MemCmd dev)
  | complete (i : Nat) (callback : List (MemCall dev))

def SpdkOwned.step (be : BeId) (s : SpdkOwned dev) : SpdkOwnedOp dev → MemProg (SpdkOwned dev)
  | .async c => cmdAsyncMem be s c
  | .sync cmd => do
    cmdSyncMem be cmd
    pure s
  | .complete i callback => cmdAsyncCbMem be s i callback

/-- No command lacks a list that its flags announce. -/
def SpdkOwnedOp.GivesSgl : SpdkOwnedOp dev → Prop
  | .async c => c.cmd.lacksSgl = false
  | .sync cmd => cmd.lacksSgl = false
  | .complete _ callback => ∀ c ∈ callback, c.cmd.lacksSgl = false

end

/-! Setting up a wrap. -/

def WrapMem.mem (be : BeId) (w : WrapMem) : Mem :=
  bufMem be w.dsmr + (bufMem be w.addrs + (bufMem be w.dst + held .libc (some w.wrap)))

def OwnsWrap (be : BeId) (rest : Mem) (P : WrapMem → Prop) (w : Option WrapMem) (bs : Mem) : Prop :=
  match w with
  | none => bs = rest
  | some w => P w ∧ bs = w.mem be + rest

section

variable {be : BeId} {pre rest : Mem} {P : WrapMem → Prop}

theorem triple_nvmCmdWrapTerm {w : WrapMem} (hpre : pre = w.mem be + rest) :
    Triple pre (nvmCmdWrapTerm be w) fun _ bs => bs = rest := by
  simp only [WrapMem.mem, add_assoc] at hpre
  refine (triple_nvmBufFree hpre).bind fun _ bs hbs => ?_
  refine (triple_nvmBufFree hbs).bind fun _ bs hbs => ?_
  refine (triple_nvmBufFree hbs).bind fun _ bs hbs => ?_
  exact triple_free hbs

theorem triple_wrapFailed {w : WrapMem} (hpre : pre = w.mem be + rest) :
    Triple pre (wrapFailed be w) (OwnsWrap be rest P) :=
  (triple_nvmCmdWrapTerm hpre).bind fun _ _ hbs => Triple.pure hbs

theorem triple_wrapListMem {naddrs : Nat} {w : WrapMem} {put : Nat → WrapMem} (hpre : pre = w.mem be + rest)
    (hput : ∀ list, (put list).mem be = bufMem be (some list) + w.mem be)
    (hP : 1 < naddrs → ∀ list, P (put list)) (hone : ¬ 1 < naddrs → P w) :
    Triple pre (wrapListMem be naddrs w put) (OwnsWrap be rest P) := by
  rw [wrapListMem]
  split_ifs with hn
  · refine (triple_nvmBufAlloc be (naddrs * 8) pre).bind fun list bs hbs => ?_
    cases list with
    | none => exact triple_wrapFailed (by rw [hbs, bufMem_none, zero_add, hpre])
    | some list => exact Triple.pure ⟨hP hn list, by rw [hbs, hpre, hput, add_assoc]⟩
  · exact Triple.pure ⟨hone hn, hpre⟩

end

section

variable {α : Type} {dev : CmdDev α} {be : BeId} {pre rest : Mem} {w : WrapMem}

/-- The lists that a request needs, by its opcode and the number of its addresses. -/
structure Req.Lists (req : Req dev) (w : WrapMem) : Prop where
  dsmr : w.dsmr.isSome ↔ req.opcode = .scalarErase
  addrs : w.addrs.isSome ↔ nvmCmdIsScalar req.opcode = false ∧ 1 < req.naddrs
  dst : w.dst.isSome ↔ req.dst.isSome ∧ 1 < req.naddrs

theorem wrapMem_init (be : BeId) (wrap : Nat) :
    (WrapMem.mk wrap none none none).mem be = held .libc (some wrap) := by
  simp only [WrapMem.mem, bufMem_none, zero_add]

theorem triple_wrapDsmMem {req : Req dev} {wrap : Nat} (ho : req.opcode = .scalarErase)
    (hpre : pre = held .libc (some wrap) + rest) :
    Triple pre (wrapDsmMem be req ⟨wrap, none, none, none⟩) (OwnsWrap be rest req.Lists) := by
  have hdst : req.dst = none := Req.dst_eq_none (by simp [ho])
  refine (triple_nvmBufAlloc be _ pre).bind fun dsmr bs hbs => ?_
  cases dsmr with
  | none => exact triple_wrapFailed (by rw [hbs, bufMem_none, zero_add, hpre, wrapMem_init])
  | some dsmr =>
    refine Triple.pure ⟨⟨by simp [ho], by simp [ho, nvmCmdIsScalar], by simp [hdst]⟩, ?_⟩
    simp only [hbs, hpre, WrapMem.mem, bufMem_none, zero_add, add_assoc]

theorem triple_wrapVectorMem {req : Req dev} {wrap : Nat} (hs : nvmCmdIsScalar req.opcode = false)
    (hpre : pre = held .libc (some wrap) + rest) :
    Triple pre (wrapVectorMem be req ⟨wrap, none, none, none⟩) (OwnsWrap be rest req.Lists) := by
  have ho : req.opcode ≠ .scalarErase := by
    intro h
    rw [h] at hs
    cases hs
  have hmid : Triple pre (wrapListMem be req.naddrs ⟨wrap, none, none, none⟩ fun list =>
      ⟨wrap, none, some list, none⟩) (OwnsWrap be rest fun w =>
        w.dsmr = none ∧ w.dst = none ∧ (w.addrs.isSome ↔ 1 < req.naddrs)) := by
    refine triple_wrapListMem (by rw [wrapMem_init, hpre]) ?_ ?_ ?_
    · intro list
      simp only [WrapMem.mem, bufMem_none, zero_add]
    · exact fun hn list => ⟨rfl, rfl, by simp [hn]⟩
    · exact fun hn => ⟨rfl, rfl, by simp [hn]⟩
  refine hmid.bind fun w bs hbs => ?_
  cases w with
  | none => exact Triple.pure hbs
  | some w =>
    obtain ⟨⟨hdsmr, hdst, haddrs⟩, hmem⟩ := hbs
    dsimp only
    cases hd : req.dst with
    | none => exact Triple.pure ⟨⟨by simp [hdsmr, ho], by simp [haddrs, hs], by simp [hdst, hd]⟩, hmem⟩
    | some d =>
      refine triple_wrapListMem hmem ?_ ?_ ?_
      · intro list
        simp only [WrapMem.mem, hdst, bufMem_none, zero_add]
        ac_rfl
      · exact fun hn list => ⟨by simp [hdsmr, ho], by simp [haddrs, hs], by simp [hd, hn]⟩
      · exact fun hn => ⟨by simp [hdsmr, ho], by simp [haddrs, hs], by simp [hdst, hd, hn]⟩

/-- A wrap that is handed out owns its block and the lists that its request needs; otherwise nothing
stays behind. -/
theorem triple_wrapSetupMem {req : Req dev} (hsgl : req.lacksSgl = false) (pre : Mem) :
    Triple pre (wrapSetupMem be req) (OwnsWrap be pre req.Lists) := by
  refine (triple_alloc .libc pre).bind fun wrap bs hbs => ?_
  cases wrap with
  | none => exact Triple.pure (by rw [OwnsWrap, hbs, held_none, zero_add])
  | some wrap =>
    dsimp only
    by_cases ho : req.opcode = .scalarErase
    · rw [if_pos ho]
      exact triple_wrapDsmMem ho hbs
    · rw [if_neg ho]
      by_cases hm : req.eraseMetaFails = true
      · rw [if_pos hm]
        exact triple_wrapFailed (by rw [hbs, wrapMem_init])
      · rw [if_neg hm, if_neg (by simp [hsgl])]
        by_cases hs : nvmCmdIsScalar req.opcode = true
        · have hdst : req.dst = none := by
            refine Req.dst_eq_none fun h => ?_
            rw [h] at hs
            cases hs
          rw [if_pos hs]
          exact Triple.pure ⟨⟨by simp [ho], by simp [hs], by simp [hdst]⟩, by rw [hbs, wrapMem_init]⟩
        · rw [if_neg hs]
          exact triple_wrapVectorMem (by simpa using hs) hbs

theorem triple_nvmCmdWrapPass (pre : Mem) : Triple pre nvmCmdWrapPass
    (OwnsWrap be pre fun w => w.dsmr = none ∧ w.addrs = none ∧ w.dst = none) := by
  refine (triple_alloc .libc pre).bind fun wrap bs hbs => ?_
  cases wrap with
  | none => exact Triple.pure (by rw [OwnsWrap, hbs, held_none, zero_add])
  | some wrap => exact Triple.pure ⟨⟨rfl, rfl, rfl⟩, by rw [hbs, wrapMem_init]⟩

def MemCmd.Lists : MemCmd dev → WrapMem → Prop
  | .ewrc req, w => req.Lists w
  | .pass, w => w.dsmr = none ∧ w.addrs = none ∧ w.dst = none

theorem triple_setup (be : BeId) {cmd : MemCmd dev} (hsgl : cmd.lacksSgl = false) (pre : Mem) :
    Triple pre (cmd.setup be) (OwnsWrap be pre cmd.Lists) := by
  cases cmd with
  | ewrc req => exact triple_wrapSetupMem hsgl pre
  | pass => exact triple_nvmCmdWrapPass pre

/-! The wraps that are built. -/

theorem wrapList_dma {naddrs : Nat} {phys : Option (BitVec 64)} {addrs : Nat → α}
    {r : BitVec 64 × Option DmaList} (h : wrapList dev naddrs phys addrs = some r) :
    r.2.isSome ↔ 1 < naddrs := by
  rw [wrapList] at h
  split_ifs at h with hn
  · obtain ⟨p, -, h⟩ := Option.bind_eq_some_iff.mp h
    rw [← Option.some.inj h]
    simp [hn]
  · rw [← Option.some.inj h]
    simp [hn]

theorem wrapVector_lists {m : Allocs} {req : Req dev} {v v' : Wrap} (h : wrapVector dev m req v = some v')
    (hnone : v.dstDma = none) : v'.dsmrDma = v.dsmrDma ∧ (v'.addrsDma.isSome ↔ 1 < req.naddrs) ∧
      (v'.dstDma.isSome ↔ req.dst.isSome ∧ 1 < req.naddrs) := by
  obtain ⟨src, hsrc, h⟩ := Option.bind_eq_some_iff.mp h
  have hsome := wrapList_dma hsrc
  cases hd : req.dst with
  | none =>
    rw [hd] at h
    cases h
    exact ⟨rfl, hsome, by simp [hnone]⟩
  | some d =>
    rw [hd] at h
    obtain ⟨dst, hdst, h⟩ := Option.bind_eq_some_iff.mp h
    cases h
    exact ⟨rfl, hsome, by simpa using wrapList_dma hdst⟩

/-- The lists that own memory are those that the entry points to. -/
theorem Req.Lists.of_setup {m : Allocs} {req : Req dev} {v : Wrap} (h : nvmCmdWrapSetup dev m req = some v)
    (hw : req.Lists w) : (w.dsmr.isSome ↔ v.dsmrDma.isSome) ∧ (w.addrs.isSome ↔ v.addrsDma.isSome) ∧
      (w.dst.isSome ↔ v.dstDma.isSome) := by
  rw [hw.dsmr, hw.addrs, hw.dst]
  simp only [nvmCmdWrapSetup] at h
  split_ifs at h with hwrap ho
  · have hnone : req.dst = none := Req.dst_eq_none (by simp [ho])
    rw [wrapDsm] at h
    split_ifs at h
    cases h
    simp [ho, hnone, nvmCmdIsScalar, wrapInit]
  · obtain ⟨v₁, hmeta, h⟩ := Option.bind_eq_some_iff.mp h
    obtain ⟨v₂, hsgl, h⟩ := Option.bind_eq_some_iff.mp h
    have hentry : v₂.entry = (wrapCount dev req (wrapInit dev req)).entry :=
      (cmdWrapSetupSgl_entry hsgl).trans (wrapEraseMeta_entry hmeta)
    have hnone : v₂.dsmrDma = none ∧ v₂.addrsDma = none ∧ v₂.dstDma = none := by
      have hkeep := congrArg (fun e => e.2.2.2.2) hentry
      rw [wrapCount] at hkeep
      cases hver : dev.verid <;> simpa [hver, Wrap.entry, wrapInit] using hkeep
    rw [wrapAddrs] at h
    split_ifs at h with hs
    · have hdst : req.dst = none := Req.dst_eq_none (by rintro hc; simp [hc, nvmCmdIsScalar] at hs)
      cases h
      simp [hnone, ho, hs, hdst]
    · obtain ⟨hdsmr', haddrs', hdst'⟩ := wrapVector_lists h hnone.2.2
      rw [hdsmr', haddrs', hdst', hnone.1]
      simp [ho, hs]

end

/-! Runs. -/

section

variable {α : Type} {dev : CmdDev α}

def sentMem (be : BeId) (sent : List (OwnedCmd dev)) : Mem := (sent.map fun c => c.wrap.mem be).sum

/-- What is live is what the commands that SPDK has own, and the counter counts them. -/
structure SpdkOwned.Inv (be : BeId) (depth : Nat) (s : SpdkOwned dev) (bs : Mem) : Prop where
  mem : bs = sentMem be s.sent
  lists : ∀ c ∈ s.sent, c.cmd.Lists c.wrap
  calls : (s.sent.map OwnedCmd.call).Perm s.ctx.inFlight
  ctx : s.ctx.Inv
  depth_eq : s.ctx.depth = depth

variable {be : BeId} {depth : Nat} {s : SpdkOwned dev} {bs rest : Mem}

theorem record_inFlight_of_takes {ctx : SpdkCtx} (hinv : ctx.Inv) (hlt : ctx.depth + 1 < 2 ^ 32)
    {sub : Submission} (htakes : ctx.takes sub) :
    (record (cmdAsync ctx ctx.results.length sub)).inFlight = ctx.results.length :: ctx.inFlight := by
  have hle := hinv.le_depth
  rcases cmdAsync_cases (show ctx.outstanding + 1 < 2 ^ 32 by omega) ctx.results.length sub with
    ⟨-, heq⟩ | ⟨hno, -⟩
  · rw [record, heq]
  · exact absurd htakes hno

theorem record_inFlight_of_not_takes {ctx : SpdkCtx} (hinv : ctx.Inv) (hlt : ctx.depth + 1 < 2 ^ 32)
    {sub : Submission} (hno : ¬ ctx.takes sub) :
    (record (cmdAsync ctx ctx.results.length sub)).inFlight = ctx.inFlight := by
  have hle := hinv.le_depth
  rcases cmdAsync_cases (show ctx.outstanding + 1 < 2 ^ 32 by omega) ctx.results.length sub with
    ⟨htakes, -⟩ | ⟨-, heq⟩
  · exact absurd htakes hno
  · rw [record, heq]

theorem cmdAsyncCb_inFlight {ctx : SpdkCtx} {call : Nat} (hmem : call ∈ ctx.inFlight) :
    (cmdAsyncCb ctx call).inFlight = ctx.inFlight.erase call := by
  rw [cmdAsyncCb, if_pos hmem]

theorem cmdAsyncCb_depth (ctx : SpdkCtx) (call : Nat) : (cmdAsyncCb ctx call).depth = ctx.depth := by
  rw [cmdAsyncCb]
  split_ifs <;> rfl

theorem SpdkOwned.Inv.refused (h : s.Inv be depth bs) (hlt : depth + 1 < 2 ^ 32) {sub : Submission}
    (hno : ¬ s.ctx.takes sub) : (s.record sub).Inv be depth bs := by
  have hlt' : s.ctx.depth + 1 < 2 ^ 32 := h.depth_eq ▸ hlt
  refine ⟨h.mem, h.lists, ?_, record_cmdAsync_inv h.ctx hlt' sub, ?_⟩
  · rw [SpdkOwned.record, record_inFlight_of_not_takes h.ctx hlt' hno]
    exact h.calls
  · exact (cmdAsync_depth _ _).trans h.depth_eq

theorem SpdkOwned.Inv.accepted (h : s.Inv be depth bs) (hlt : depth + 1 < 2 ^ 32)
    (hroom : (s.ctx.outstanding + 1) % 2 ^ 32 ≤ s.ctx.depth) {cmd : MemCmd dev} {w : WrapMem}
    (hw : cmd.Lists w) :
    ({ s.record ⟨true, true⟩ with sent := ⟨s.ctx.results.length, cmd, w⟩ :: s.sent } : SpdkOwned dev).Inv
      be depth (w.mem be + bs) := by
  have hlt' : s.ctx.depth + 1 < 2 ^ 32 := h.depth_eq ▸ hlt
  refine ⟨?_, List.forall_mem_cons.mpr ⟨hw, h.lists⟩, ?_, record_cmdAsync_inv h.ctx hlt' _, ?_⟩
  · rw [h.mem, sentMem, sentMem, List.map_cons, List.sum_cons]
  · rw [SpdkOwned.record, record_inFlight_of_takes h.ctx hlt' ⟨hroom, rfl, rfl⟩, List.map_cons]
    exact h.calls.cons _
  · exact (cmdAsync_depth _ _).trans h.depth_eq

/-- A step that keeps the invariant whatever other blocks the program owns. -/
def InvWith (be : BeId) (depth : Nat) (rest : Mem) (s : SpdkOwned dev) (bs : Mem) : Prop :=
  ∃ own, s.Inv be depth own ∧ bs = own + rest

theorem triple_cmdAsyncMem (hlt : depth + 1 < 2 ^ 32) {c : MemCall dev} (hsgl : c.cmd.lacksSgl = false)
    (h : InvWith be depth rest s bs) : Triple bs (cmdAsyncMem be s c) (InvWith be depth rest) := by
  obtain ⟨own, hinv, rfl⟩ := h
  rw [cmdAsyncMem]
  by_cases hfull : (s.ctx.outstanding + 1) % 2 ^ 32 > s.ctx.depth
  · rw [if_pos hfull]
    exact Triple.pure ⟨own, hinv.refused hlt fun htakes => absurd htakes.1 (by omega), rfl⟩
  · rw [if_neg hfull]
    refine (triple_setup be hsgl (own + rest)).bind fun w cs hcs => ?_
    cases w with
    | none => exact Triple.pure ⟨own, hinv.refused hlt (by simp [SpdkCtx.takes]), hcs⟩
    | some w =>
      dsimp only
      by_cases htaken : c.taken = true
      · rw [if_pos htaken]
        refine Triple.pure ⟨w.mem be + own, ?_, by rw [hcs.2, add_assoc]⟩
        exact hinv.accepted hlt (by omega) hcs.1
      · rw [if_neg htaken]
        refine (triple_nvmCmdWrapTerm hcs.2).bind fun _ ds hds => ?_
        exact Triple.pure ⟨own, hinv.refused hlt (by simp [SpdkCtx.takes]), hds⟩

theorem triple_cmdSyncMem (be : BeId) {cmd : MemCmd dev} (hsgl : cmd.lacksSgl = false) (pre : Mem) :
    Triple pre (cmdSyncMem be cmd) fun _ bs => bs = pre := by
  refine (triple_setup be hsgl pre).bind fun w bs hbs => ?_
  cases w with
  | none => exact Triple.pure hbs
  | some w => exact triple_nvmCmdWrapTerm hbs.2

theorem SpdkOwned.Inv.completed (h : s.Inv be depth bs) (hlt : depth + 1 < 2 ^ 32) {i : Nat} {c : OwnedCmd dev}
    (hi : s.sent[i]? = some c) :
    InvWith be depth (c.wrap.mem be) ⟨cmdAsyncCb s.ctx c.call, s.sent.eraseIdx i⟩ bs := by
  have hlt' : s.ctx.depth + 1 < 2 ^ 32 := h.depth_eq ▸ hlt
  have hperm : (c :: s.sent.eraseIdx i).Perm s.sent := by
    obtain ⟨hlen, rfl⟩ := List.getElem?_eq_some_iff.mp hi
    exact List.getElem_cons_eraseIdx_perm hlen
  have hcalls := (hperm.map OwnedCmd.call).trans h.calls
  rw [List.map_cons] at hcalls
  have hmem : c.call ∈ s.ctx.inFlight := hcalls.mem_iff.mp (List.mem_cons_self ..)
  refine ⟨sentMem be (s.sent.eraseIdx i), ⟨rfl, ?_, ?_, cmdAsyncCb_inv h.ctx hlt' _, ?_⟩, ?_⟩
  · exact fun d hd => h.lists d (List.eraseIdx_subset hd)
  · rw [cmdAsyncCb_inFlight hmem]
    exact List.Perm.cons_inv (hcalls.trans (List.perm_cons_erase hmem))
  · exact (cmdAsyncCb_depth _ _).trans h.depth_eq
  · rw [h.mem, sentMem, sum_eraseIdx _ hi, add_comm]
    rfl

theorem SpdkOwned.Inv.step (hlt : depth + 1 < 2 ^ 32) {op : SpdkOwnedOp dev} (hop : op.GivesSgl)
    (h : s.Inv be depth bs) : Triple bs (s.step be op) (SpdkOwned.Inv be depth) := by
  have hdone : ∀ (t : SpdkOwned dev) (cs : Mem), InvWith be depth 0 t cs → t.Inv be depth cs := by
    rintro t cs ⟨own, hinv, rfl⟩
    rwa [add_zero]
  cases op with
  | async c => exact (triple_cmdAsyncMem hlt hop ⟨bs, h, (add_zero bs).symm⟩).mono hdone
  | sync cmd =>
    refine (triple_cmdSyncMem be hop bs).bind fun _ cs hcs => ?_
    exact Triple.pure (hcs ▸ h)
  | complete i callback =>
    rw [SpdkOwned.step, cmdAsyncCbMem]
    cases hi : s.sent[i]? with
    | none => exact Triple.pure h
    | some c =>
      -- the wrap that has completed is still owned while the callback submits
      have hloop : Triple bs (callback.foldlM (cmdAsyncMem be) ⟨cmdAsyncCb s.ctx c.call, s.sent.eraseIdx i⟩)
          (InvWith be depth (c.wrap.mem be)) :=
        Triple.foldlM (fun _ _ d hd hs => triple_cmdAsyncMem hlt (hop d hd) hs) (h.completed hlt hi)
      refine hloop.bind fun t cs hcs => ?_
      obtain ⟨own, hinv, hmem⟩ := hcs
      have hown : cs = c.wrap.mem be + own := by rw [hmem, add_comm]
      refine (triple_nvmCmdWrapTerm hown).bind fun _ ds hds => ?_
      exact Triple.pure (hds ▸ hinv)

/-- Over every run of asynchronous and synchronous commands, whichever allocations and submissions fail and
whatever the callbacks submit, nothing is given back twice, and what is live is the memory of the commands
that SPDK has: the wrap of each of them and its lists. -/
theorem spdk_commands_memory (be : BeId) (hlt : depth + 1 < 2 ^ 32) {ops : List (SpdkOwnedOp dev)}
    (hops : ∀ op ∈ ops, op.GivesSgl) (h : Heap Allocator) :
    ∃ s h', ops.foldlM (SpdkOwned.step be) ⟨nvmBeSpdkAsyncInit depth, []⟩ h = some (s, h') ∧
      h'.live = sentMem be s.sent + h.live ∧ (∀ c ∈ s.sent, c.cmd.Lists c.wrap) ∧
      s.ctx.outstanding = s.sent.length ∧ (s.ctx.outstanding = 0 → h'.live = h.live) := by
  have hinit : SpdkOwned.Inv be depth (⟨nvmBeSpdkAsyncInit depth, []⟩ : SpdkOwned dev) 0 :=
    ⟨rfl, by simp, List.Perm.nil, ⟨fun _ => by simp [nvmBeSpdkAsyncInit], rfl, Nat.zero_le _⟩, rfl⟩
  have hrun := Triple.foldlM (fun _ _ op hop hs => SpdkOwned.Inv.step hlt (hops op hop) hs) hinit
  obtain ⟨s, h', hs, bs, hinv, hlive⟩ := hrun h h.live (zero_add _).symm
  have hout : s.ctx.outstanding = s.sent.length := by
    rw [hinv.ctx.outstanding_eq, ← hinv.calls.length_eq, List.length_map]
  refine ⟨s, h', hs, by rw [hlive, hinv.mem], hinv.lists, hout, fun h0 => ?_⟩
  have hnil : s.sent = [] := List.length_eq_zero_iff.mp (hout.symm.trans h0)
  rw [hlive, hinv.mem, hnil, sentMem, List.map_nil, List.sum_nil, zero_add]

end

theorem spdk_commands_memory_resubmits :
    ∃ s h', [SpdkOwnedOp.async ⟨.ewrc (writeReq 2 (by decide) (by decide)), true⟩, .sync .pass,
        .complete 0 [⟨.pass, true⟩], .complete 0 []].foldlM (SpdkOwned.step .spdk)
          ⟨nvmBeSpdkAsyncInit 4, []⟩ (Heap.empty fun _ => true) = some (s, h') ∧
      h'.live = sentMem .spdk s.sent + (Heap.empty fun _ => true).live ∧
      (∀ c ∈ s.sent, c.cmd.Lists c.wrap) ∧ s.ctx.outstanding = s.sent.length ∧
      (s.ctx.outstanding = 0 → h'.live = (Heap.empty fun _ => true).live) := by
  refine spdk_commands_memory .spdk (by decide) ?_ _
  intro op hop
  simp only [List.mem_cons, List.not_mem_nil, or_false] at hop
  rcases hop with rfl | rfl | rfl | rfl
  · exact (rfl : (writeReq 2 (by decide) (by decide)).lacksSgl = false)
  · rfl
  · simp [SpdkOwnedOp.GivesSgl, MemCmd.lacksSgl]
  · simp [SpdkOwnedOp.GivesSgl]

end LightNvm
