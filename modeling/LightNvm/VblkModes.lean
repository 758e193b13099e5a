import LightNvm.AsyncLoop
import LightNvm.Cursors

/-! The mode of a virtual block: its command flags and the asynchronous context with its array of
return structures, over sequences of calls on the block. -/

namespace LightNvm

def nvmCmdSync : BitVec 32 := 0x1 <<< 4
def nvmCmdAsync : BitVec 32 := 0x1 <<< 5
def nvmCmdScalar : BitVec 32 := 0x1 <<< 6
def nvmCmdVector : BitVec 32 := 0x1 <<< 7
def nvmCmdPrp : BitVec 32 := 0x1 <<< 8

def nvmVblkCmdOpts : BitVec 32 := nvmCmdSync ||| nvmCmdVector ||| nvmCmdPrp

/-- The functions that backends have for `async_init`: none on the ioctl backend, with its own
default depth on LBD, with the default of the controller on SPDK and NOCD. -/
inductive AsyncInit where
  | nosys
  | lbd
  | spdk (ioQueueSize : Nat)
  deriving DecidableEq

/-- `nvm_async_init`: the depth of the context, if there is one. -/
def nvmAsyncInit (be : AsyncInit) (depth : Nat) (ok : Bool) : Option Nat :=
  match be with
  | .nosys => none
  | .lbd => if ok then some (if depth = 0 then 256 else depth) else none
  | .spdk ioQueueSize => if ok then some (if depth ≠ 0 then depth else ioQueueSize) else none

structure VblkMode where
  flags : BitVec 32
  asyncCtx : Option Nat
  nrets : Nat
  rets : Nat → Option Nat
  retsp : Nat
  outstanding : List AsyncCmd

def nvmVblkAlloc : VblkMode := ⟨nvmVblkCmdOpts, none, 0, fun _ => none, 0, []⟩

/-- The allocations of `nvm_vblk_set_async`: the array, and what its entries are filled with. What
lies behind the array in memory stands in `rets` too. -/
structure SetAsyncAlloc where
  array : Bool
  rets : Nat → Option Nat

/-- `none` when the call does not survive. -/
def nvmVblkSetAsync (be : AsyncInit) (m : VblkMode) (depth : Nat) (ok : Bool) (alloc : SetAsyncAlloc) :
    Option (VblkMode × Int) :=
  let m := { m with flags := m.flags &&& ~~~nvmCmdSync ||| nvmCmdAsync }
  match m.asyncCtx with
  | some _ => some (m, 0)
  | none =>
    match nvmAsyncInit be depth ok with
    | none => some (m, -1)
    | some ctxDepth =>
      let depth := if depth = 0 then ctxDepth else depth
      if depth ≠ 0 ∧ !alloc.array then none
      else some ({ m with asyncCtx := some ctxDepth, nrets := depth, rets := alloc.rets }, 0)

def nvmVblkSetScalar (m : VblkMode) : VblkMode :=
  { m with flags := m.flags &&& ~~~nvmCmdVector ||| nvmCmdScalar }

def VblkMode.ioAsync (v : VblkL) (m : VblkMode) (pad : Bool) (count offset depth : Nat)
    (events : List AsyncEvent) : Option VblkMode :=
  let st := Runs.run (AsyncCall.step ⟨v, pad, count, offset, depth⟩)
    ⟨.stripe 0, m.outstanding, [], m.rets, m.retsp, 0⟩ events
  match st.pc with
  | .returned _ => some { m with rets := st.rets, retsp := st.retsp, outstanding := st.outstanding }
  | _ => none

/-- The asynchronous branch of `nvm_vblk_pwrite` and `nvm_vblk_pread`; `none` when the call does not
survive or does not return. -/
def VblkMode.asyncIo (be : AsyncInit) (v : VblkL) (m : VblkMode) (pad : Bool) (count offset : Nat)
    (bufs : Bool) (events : List AsyncEvent) : Option VblkMode :=
  if v.wsOpt = 0 then none
  else if count / v.geo.nbytes % v.wsOpt ≠ 0 ∨ offset / v.geo.nbytes % v.wsOpt ≠ 0 ∨ !bufs then some m
  else if v.nblks = 0 then none
  else match m.asyncCtx with
    | none => if be = .nosys ∧ v.nstripes count = 0 then some m else none
    | some depth => m.ioAsync v pad count offset depth events

inductive ModeCall where
  | setAsync (depth : Nat) (ok : Bool) (alloc : SetAsyncAlloc)
  | setScalar
  | erase
  | io (pad : Bool) (count offset : Nat) (bufs : Bool) (events : List AsyncEvent)

def VblkMode.io (be : AsyncInit) (b : Vblk) (m : VblkMode) (pad : Bool) (count offset : Nat)
    (bufs : Bool) (events : List AsyncEvent) : Option VblkMode :=
  match b with
  | .s12 _ _ _ => some m
  | .s20 v => if m.flags &&& nvmCmdAsync ≠ 0 then m.asyncIo be v pad count offset bufs events else some m

def ModeCall.run (be : AsyncInit) (b : Vblk) (m : VblkMode) : ModeCall → Option VblkMode
  | .setAsync depth ok alloc => (nvmVblkSetAsync be m depth ok alloc).map Prod.fst
  | .setScalar => some (nvmVblkSetScalar m)
  | .erase => some m
  | .io pad count offset bufs events => m.io be b pad count offset bufs events

def modeStep (be : AsyncInit) (b : Vblk) (s : Option VblkMode) (c : ModeCall) : Option VblkMode :=
  s.bind fun m => c.run be b m

/-- The flags name one way to wait and one way to address, and the asynchronous one has what it
needs. -/
structure VblkMode.Usable (m : VblkMode) : Prop where
  iomd : (m.flags &&& nvmCmdSync ≠ 0 ∧ m.flags &&& nvmCmdAsync = 0) ∨
    (m.flags &&& nvmCmdSync = 0 ∧ m.flags &&& nvmCmdAsync ≠ 0)
  addr : (m.flags &&& nvmCmdScalar ≠ 0 ∧ m.flags &&& nvmCmdVector = 0) ∨
    (m.flags &&& nvmCmdScalar = 0 ∧ m.flags &&& nvmCmdVector ≠ 0)
  ctx : m.flags &&& nvmCmdAsync ≠ 0 → ∃ depth, m.asyncCtx = some depth ∧ m.nrets = depth ∧
    ∀ i < depth, m.rets i ≠ none

def KeepsMode (be : AsyncInit) (b : Vblk) (s : Option VblkMode) (c : ModeCall) : Prop :=
  (∀ m ∈ modeStep be b s c, m.Usable) ∧
  ∀ depth ok alloc m, c = .setAsync depth ok alloc → s = some m → ∀ m',
    nvmVblkSetAsync be m depth ok alloc = some (m', -1) → m' = m

/-- A context that has to be made is made, with all its return structures. -/
def ContextMade (be : AsyncInit) (s : Option VblkMode) : ModeCall → Prop
  | .setAsync depth ok alloc => ∀ m ∈ s, m.asyncCtx = none → ∃ ctxDepth,
      nvmAsyncInit be depth ok = some ctxDepth ∧ (alloc.array → ∀ i < ctxDepth, alloc.rets i ≠ none)
  | _ => True

/-! The loop never clears an entry of the array. -/

theorem callback_rets_ne_none {s : AsyncSt} {i : Nat} (h : s.rets i ≠ none) (completion : Nat × Bool) :
    (s.callback completion).rets i ≠ none := by
  rw [AsyncSt.callback]
  split
  · exact h
  · dsimp only
    split_ifs
    · exact Option.some_ne_none _
    · exact h

theorem deliver_rets_ne_none {s : AsyncSt} {i : Nat} (h : s.rets i ≠ none) (e : AsyncEvent) :
    (s.deliver e).rets i ≠ none := by
  rw [AsyncSt.deliver]
  generalize e.completions = cs
  induction cs generalizing s with
  | nil => exact h
  | cons c cs ih => exact ih (callback_rets_ne_none h c)

theorem AsyncCall.step_rets_ne_none {call : AsyncCall} {s : AsyncSt} {i : Nat} (h : s.rets i ≠ none)
    (e : AsyncEvent) : (call.step s e).rets i ≠ none := by
  have hdel := deliver_rets_ne_none h e
  rw [AsyncCall.step]
  split
  · split_ifs <;> exact h
  · dsimp only
    split_ifs <;> first | exact h | exact hdel
  · exact h
  · split_ifs <;> exact h
  · dsimp only
    split_ifs <;> first | exact h | exact hdel
  · dsimp only
    split_ifs <;> first | exact h | exact hdel
  · exact h

theorem AsyncCall.run_rets_ne_none {call : AsyncCall} {s : AsyncSt} {i : Nat} (h : s.rets i ≠ none)
    (events : List AsyncEvent) : (Runs.run call.step s events).rets i ≠ none := by
  induction events generalizing s with
  | nil => exact h
  | cons e events ih => exact ih (AsyncCall.step_rets_ne_none h e)

/-! The calls. -/

section

variable {flags off on : BitVec 32}

theorem switch_on (h : on ≠ 0) : (flags &&& ~~~off ||| on) &&& on ≠ 0 := by
  rw [BitVec.and_or_distrib_right, BitVec.and_self]
  exact fun h0 => h (BitVec.or_eq_zero_iff.mp h0).2

theorem switch_off (h : on &&& off = 0) : (flags &&& ~~~off ||| on) &&& off = 0 := by
  rw [BitVec.and_or_distrib_right, h, BitVec.and_assoc]
  simp

theorem switch_other {mask : BitVec 32} (hoff : ~~~off &&& mask = mask) (hon : on &&& mask = 0) :
    (flags &&& ~~~off ||| on) &&& mask = flags &&& mask := by
  rw [BitVec.and_or_distrib_right, hon, BitVec.and_assoc, hoff]
  simp

end

def VblkMode.ModeInv (m : VblkMode) : Prop :=
  m.Usable ∧ (m.asyncCtx ≠ none → m.flags &&& nvmCmdAsync ≠ 0)

theorem nvmAsyncInit_depth {be : AsyncInit} {depth ctxDepth : Nat} {ok : Bool}
    (h : nvmAsyncInit be depth ok = some ctxDepth) : (if depth = 0 then ctxDepth else depth) = ctxDepth := by
  cases be <;> simp only [nvmAsyncInit] at h <;> split_ifs at h ⊢ <;> simp_all

section

variable {be : AsyncInit} {b : Vblk} {m : VblkMode}

theorem nvmVblkAlloc_inv : nvmVblkAlloc.ModeInv := by
  refine ⟨⟨Or.inl (by decide), Or.inr (by decide), fun h => ?_⟩, fun h => absurd rfl h⟩
  exact absurd h (by decide)

theorem setScalar_inv (h : m.ModeInv) : (nvmVblkSetScalar m).ModeInv := by
  obtain ⟨⟨hiomd, -, hctx⟩, hused⟩ := h
  have hsync : (nvmVblkSetScalar m).flags &&& nvmCmdSync = m.flags &&& nvmCmdSync :=
    switch_other (by decide) (by decide)
  have hasync : (nvmVblkSetScalar m).flags &&& nvmCmdAsync = m.flags &&& nvmCmdAsync :=
    switch_other (by decide) (by decide)
  refine ⟨⟨?_, Or.inl ⟨switch_on (by decide), switch_off (by decide)⟩, ?_⟩, ?_⟩
  · rwa [hsync, hasync]
  · rwa [hasync]
  · rwa [hasync]

theorem asyncFlags_usable (h : m.ModeInv) {m' : VblkMode}
    (hflags : m'.flags = m.flags &&& ~~~nvmCmdSync ||| nvmCmdAsync)
    (hctx : ∃ depth, m'.asyncCtx = some depth ∧ m'.nrets = depth ∧ ∀ i < depth, m'.rets i ≠ none) :
    m'.ModeInv := by
  have hsync : m'.flags &&& nvmCmdSync = 0 := by
    rw [hflags]
    exact switch_off (by decide)
  have hasync : m'.flags &&& nvmCmdAsync ≠ 0 := by
    rw [hflags]
    exact switch_on (by decide)
  have hscalar : m'.flags &&& nvmCmdScalar = m.flags &&& nvmCmdScalar := by
    rw [hflags]
    exact switch_other (by decide) (by decide)
  have hvector : m'.flags &&& nvmCmdVector = m.flags &&& nvmCmdVector := by
    rw [hflags]
    exact switch_other (by decide) (by decide)
  refine ⟨⟨Or.inr ⟨hsync, hasync⟩, ?_, fun _ => hctx⟩, fun _ => hasync⟩
  rw [hscalar, hvector]
  exact h.1.addr

theorem setAsync_again {d : Nat} (hctx : m.asyncCtx = some d) (depth : Nat) (ok : Bool)
    (alloc : SetAsyncAlloc) : nvmVblkSetAsync be m depth ok alloc =
      some ({ m with flags := m.flags &&& ~~~nvmCmdSync ||| nvmCmdAsync }, 0) := by
  simp [nvmVblkSetAsync, hctx]

theorem setAsync_null {depth : Nat} {ok : Bool} (hctx : m.asyncCtx = none)
    (hinit : nvmAsyncInit be depth ok = none) (alloc : SetAsyncAlloc) :
    nvmVblkSetAsync be m depth ok alloc =
      some ({ m with flags := m.flags &&& ~~~nvmCmdSync ||| nvmCmdAsync }, -1) := by
  simp [nvmVblkSetAsync, hctx, hinit]

theorem setAsync_made {depth d : Nat} {ok : Bool} (hctx : m.asyncCtx = none)
    (hinit : nvmAsyncInit be depth ok = some d) (alloc : SetAsyncAlloc) :
    nvmVblkSetAsync be m depth ok alloc = if d ≠ 0 ∧ !alloc.array then none else
      some ({ m with flags := m.flags &&& ~~~nvmCmdSync ||| nvmCmdAsync, asyncCtx := some d,
                     nrets := d, rets := alloc.rets }, 0) := by
  simp only [nvmVblkSetAsync, hctx, hinit, nvmAsyncInit_depth hinit]

theorem setAsync_inv (h : m.ModeInv) {depth : Nat} {ok : Bool} {alloc : SetAsyncAlloc}
    (hmade : ContextMade be (some m) (.setAsync depth ok alloc)) {m' : VblkMode} {ret : Int}
    (hret : nvmVblkSetAsync be m depth ok alloc = some (m', ret)) : m'.ModeInv ∧ ret = 0 := by
  cases hctx : m.asyncCtx with
  | some d =>
    rw [setAsync_again hctx, Option.some.injEq, Prod.mk.injEq] at hret
    obtain ⟨rfl, rfl⟩ := hret
    exact ⟨asyncFlags_usable h rfl (h.1.ctx (h.2 (by simp [hctx]))), rfl⟩
  | none =>
    obtain ⟨d, hinit, hrets⟩ := hmade m rfl hctx
    rw [setAsync_made hctx hinit] at hret
    split_ifs at hret with hd
    rw [Option.some.injEq, Prod.mk.injEq] at hret
    obtain ⟨rfl, rfl⟩ := hret
    refine ⟨asyncFlags_usable h rfl ⟨d, rfl, rfl, fun i hi => ?_⟩, rfl⟩
    have harray : alloc.array = true := by
      by_contra hno
      exact hd ⟨by omega, by simpa using hno⟩
    exact hrets harray i hi

theorem contextMade_of_keeps (h : m.ModeInv) {depth : Nat} {ok : Bool} {alloc : SetAsyncAlloc}
    (hkeeps : KeepsMode be b (some m) (.setAsync depth ok alloc)) :
    ContextMade be (some m) (.setAsync depth ok alloc) := by
  rintro m' hm' hctx
  obtain rfl : m = m' := by simpa using hm'
  obtain ⟨husable, hfails⟩ := hkeeps
  cases hinit : nvmAsyncInit be depth ok with
  | none =>
    -- the flag is set by then, while the block was in synchronous mode
    have hm := hfails depth ok alloc m rfl rfl _ (setAsync_null hctx hinit alloc)
    have hasync : m.flags &&& nvmCmdAsync ≠ 0 := by
      rw [← hm]
      exact switch_on (by decide)
    obtain ⟨d, hd, -⟩ := h.1.ctx hasync
    rw [hctx] at hd
    cases hd
  | some d =>
    refine ⟨d, rfl, fun harray i hi => ?_⟩
    have hset := setAsync_made hctx hinit alloc
    rw [if_neg (by simp [harray])] at hset
    have hrun := husable _ (by
      rw [modeStep, Option.bind_some, ModeCall.run, hset, Option.map_some]
      exact Option.mem_some_self _)
    obtain ⟨d', hd', -, hrets⟩ := hrun.ctx (switch_on (by decide))
    obtain rfl : d = d' := by simpa using hd'
    exact hrets i hi

theorem ioAsync_inv (h : m.ModeInv) {v : VblkL} {pad : Bool} {count offset depth : Nat}
    {events : List AsyncEvent} {m' : VblkMode}
    (hret : m.ioAsync v pad count offset depth events = some m') : m'.ModeInv := by
  rw [VblkMode.ioAsync] at hret
  split at hret
  · rw [Option.some.injEq] at hret
    subst hret
    obtain ⟨⟨hiomd, haddr, hneeds⟩, hused⟩ := h
    refine ⟨⟨hiomd, haddr, fun hasync => ?_⟩, hused⟩
    obtain ⟨d, hd, hn, hrets⟩ := hneeds hasync
    exact ⟨d, hd, hn, fun i hi => AsyncCall.run_rets_ne_none (hrets i hi) events⟩
  · cases hret

theorem asyncIo_inv (h : m.ModeInv) {v : VblkL} {pad : Bool} {count offset : Nat} {bufs : Bool}
    {events : List AsyncEvent} {m' : VblkMode}
    (hret : m.asyncIo be v pad count offset bufs events = some m') : m'.ModeInv := by
  rw [VblkMode.asyncIo] at hret
  cases hctx : m.asyncCtx with
  | none =>
    simp only [hctx] at hret
    split_ifs at hret <;> exact (Option.some.inj hret) ▸ h
  | some d =>
    simp only [hctx] at hret
    split_ifs at hret
    · exact (Option.some.inj hret) ▸ h
    · exact ioAsync_inv h hret

theorem io_inv (h : m.ModeInv) {pad : Bool} {count offset : Nat} {bufs : Bool} {events : List AsyncEvent}
    {m' : VblkMode} (hret : m.io be b pad count offset bufs events = some m') : m'.ModeInv := by
  cases b with
  | s12 v w r => exact (Option.some.inj hret) ▸ h
  | s20 v =>
    rw [VblkMode.io] at hret
    split_ifs at hret
    · exact asyncIo_inv h hret
    · exact (Option.some.inj hret) ▸ h

theorem keepsMode_of_inv {s : Option VblkMode} {c : ModeCall}
    (hc : ∀ depth ok alloc, c ≠ .setAsync depth ok alloc)
    (h : ∀ m ∈ modeStep be b s c, m.ModeInv) : KeepsMode be b s c :=
  ⟨fun m hm => (h m hm).1, fun depth ok alloc _ hset => absurd hset (hc depth ok alloc)⟩

theorem modeStep_inv {s : Option VblkMode} (h : ∀ m ∈ s, m.ModeInv) {c : ModeCall}
    (hmade : ContextMade be s c) : ∀ m ∈ modeStep be b s c, m.ModeInv := by
  intro m' hm'
  obtain ⟨m, rfl, hrun⟩ := Option.bind_eq_some_iff.mp hm'
  have hinv := h m rfl
  cases c with
  | setAsync depth ok alloc =>
    obtain ⟨⟨m₁, ret⟩, hset, rfl⟩ := Option.map_eq_some_iff.mp hrun
    exact (setAsync_inv hinv hmade hset).1
  | setScalar => exact (Option.some.inj hrun) ▸ setScalar_inv hinv
  | erase => exact (Option.some.inj hrun) ▸ hinv
  | io pad count offset bufs events => exact io_inv hinv hrun

theorem keepsMode_iff {s : Option VblkMode} (h : ∀ m ∈ s, m.ModeInv) (c : ModeCall) :
    KeepsMode be b s c ↔ ContextMade be s c := by
  cases c with
  | setAsync depth ok alloc =>
    constructor
    · intro hkeeps m hm
      obtain rfl : s = some m := hm
      exact contextMade_of_keeps (h m rfl) hkeeps m rfl
    · intro hmade
      refine ⟨fun m hm => (modeStep_inv h hmade m hm).1, ?_⟩
      rintro depth' ok' alloc' m hset rfl m' hret
      cases hset
      exact absurd (setAsync_inv (h m rfl) hmade hret).2 (by decide)
  | setScalar => exact iff_of_true (keepsMode_of_inv (by simp) (modeStep_inv h trivial)) trivial
  | erase => exact iff_of_true (keepsMode_of_inv (by simp) (modeStep_inv h trivial)) trivial
  | io pad count offset bufs events =>
    exact iff_of_true (keepsMode_of_inv (by simp) (modeStep_inv h trivial)) trivial

/-- Over every sequence of calls on a new virtual block, each call leaves a usable block and fails
without a trace, exactly when every context that has to be made is made. -/
theorem vblk_mode_usable_iff (be : AsyncInit) (b : Vblk) (calls : List ModeCall) :
    nvmVblkAlloc.Usable ∧
    (Runs.Along (modeStep be b) (KeepsMode be b) (some nvmVblkAlloc) calls ↔
      Runs.Along (modeStep be b) (ContextMade be) (some nvmVblkAlloc) calls) := by
  refine ⟨nvmVblkAlloc_inv.1, ?_⟩
  have hinit : ∀ m ∈ some nvmVblkAlloc, m.ModeInv := by
    rintro m hm
    exact (Option.some.inj hm) ▸ nvmVblkAlloc_inv
  exact Runs.along_iff_of_invariant (I := fun s => ∀ m ∈ s, m.ModeInv)
    (fun s c hs hmade => modeStep_inv hs hmade) (fun s c hs => keepsMode_iff hs c) hinit

end

/-- On the ioctl backend the call fails, and leaves the block in asynchronous mode without a
context. -/
theorem set_async_fails_async : ∃ m, nvmVblkSetAsync .nosys nvmVblkAlloc 4 true ⟨true, some⟩ = some (m, -1) ∧
    m.flags ≠ nvmVblkAlloc.flags ∧ ¬ m.Usable := by
  refine ⟨_, setAsync_null rfl rfl _, by decide, fun h => ?_⟩
  obtain ⟨d, hd, -⟩ := h.ctx (by decide)
  cases hd

end LightNvm
