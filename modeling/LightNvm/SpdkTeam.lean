import Mathlib.Data.List.Nodup
import LightNvm.LockTeam
import LightNvm.SpdkSync

/-! The synchronous commands of any number of threads on the one queue pair of the SPDK backend:
`cmd_sync_ewrc` and `cmd_sync_pass` with `qpair_lock`, the callback that any thread may run for
any other one, and the wraps on the heap that they share. Each load and store is one step. -/

namespace LightNvm

open LockTeam (Team Prog)

/-- A command that SPDK has taken: the call that it is of, as a thread and the number of calls that
the thread has made before, and its `cb_arg`. -/
structure Request (T : Type*) where
  call : T × Nat
  arg : Nat
  deriving DecidableEq

/-- `struct nvm_cmd_wrap` on the heap, with the thread that has allocated it. -/
structure TeamWrap (T : Type*) where
  owner : T
  ret : Option Nat
  completed : Int

/-- What a call returns, with what its `ret` points to then. -/
structure TeamReturn (T : Type*) where
  call : T × Nat
  res : Int
  errno : Option Errno
  ret : Option Ret

/-- Where a thread is in `cmd_sync_ewrc`. From `poll` to `cbCompleted` it is in
`spdk_nvme_qpair_process_completions`, in the last two in the callback: before its stores to `ret`,
and before its store to `completed`. -/
inductive TeamPc where
  | out
  | lockSubmit
  | submit
  | unlockSubmit (err : Bool)
  | check
  | lockPoll
  | poll
  | cbRet
  | cbCompleted
  | unlockPoll
  | judge
  | term
  deriving DecidableEq

structure TeamLoc where
  pc : TeamPc
  calls : Nat
  wrap : Nat
  res : Int
  errno : Option Errno

/-- The memory of the threads, and the queue pair: the commands sent, the completion queue, and
the completion whose callback runs. `answers`, `invoked` and `returns` are what the controller has
answered, the calls whose callback has run, and the calls that have returned; `fault` says that
memory has been used that was not allocated. -/
structure SpdkMem (T : Type*) where
  heap : Nat → Option (TeamWrap T)
  rets : Nat → Ret
  inFlight : List (Request T)
  cq : List (Request T × Cpl)
  running : Option (Request T × Cpl)
  answers : List ((T × Nat) × Cpl)
  invoked : List (T × Nat)
  returns : List (TeamReturn T)
  fault : Bool

inductive TeamAct where
  | call (ret : Option Nat) (wrap : Option Nat)
  | submit (taken : Bool)
  | check
  | poll
  | storeRet
  | storeCompleted
  | leave
  | judge
  | term

/-- The controller answers a command. -/
structure TeamAnswer (T : Type*) where
  req : Request T
  cpl : Cpl

def TeamPc.inside : TeamPc → Bool
  | .submit | .unlockSubmit _ | .poll | .cbRet | .cbCompleted | .unlockPoll => true
  | _ => false

/-- `omp_set_lock(qpair_lock)`. -/
def teamLock (l : TeamLoc) : Option TeamLoc :=
  match l.pc with
  | .lockSubmit => some { l with pc := .submit }
  | .lockPoll => some { l with pc := .poll }
  | _ => none

/-- `omp_unset_lock(qpair_lock)`, and the test of `err` behind the first one. -/
def teamUnlock (l : TeamLoc) : Option TeamLoc :=
  match l.pc with
  | .unlockSubmit err => some (if err then { l with pc := .term, res := -1 } else { l with pc := .check })
  | .unlockPoll => some { l with pc := .check }
  | _ => none

section

variable {T : Type*}

def SpdkMem.crash (g : SpdkMem T) : SpdkMem T := { g with fault := true }

def SpdkMem.storeRet (g : SpdkMem T) (w : TeamWrap T) (x : Ret) : SpdkMem T :=
  match w.ret with
  | none => g
  | some r => { g with rets := Function.update g.rets r x }

/-- The last store of a callback. -/
def SpdkMem.storeCompleted (g : SpdkMem T) (req : Request T) (w : TeamWrap T) (v : Int) : SpdkMem T :=
  { g with
    heap := Function.update g.heap req.arg (some { w with completed := v })
    running := none
    invoked := req.call :: g.invoked }

/-- `calloc` gives a wrap that is not in use, or none. -/
def teamCan (_ : T) (a : TeamAct) (g : SpdkMem T) (l : TeamLoc) : Prop :=
  match a with
  | .call _ wrap => l.pc = .out ∧ ∀ x ∈ wrap, g.heap x = none
  | .submit _ => l.pc = .submit
  | .check => l.pc = .check
  | .poll => l.pc = .poll ∧ g.cq ≠ []
  | .storeRet => l.pc = .cbRet
  | .storeCompleted => l.pc = .cbCompleted
  | .leave => l.pc = .poll
  | .judge => l.pc = .judge
  | .term => l.pc = .term

def teamAct (t : T) (a : TeamAct) (g : SpdkMem T) (l : TeamLoc) : SpdkMem T × TeamLoc :=
  match a with
  | .call ret none =>
    -- `nvm_cmd_wrap_setup` has failed
    ({ g with returns := g.returns ++ [⟨(t, l.calls), -1, none, ret.map g.rets⟩] },
      { l with calls := l.calls + 1 })
  | .call ret (some x) =>
    ({ g with heap := Function.update g.heap x (some ⟨t, ret, 0⟩) },
      { l with pc := .lockSubmit, wrap := x, res := 0, errno := none })
  | .submit taken =>
    match g.heap l.wrap with
    | none => (g.crash, l)
    | some _ =>
      if taken then
        ({ g with inFlight := ⟨(t, l.calls), l.wrap⟩ :: g.inFlight }, { l with pc := .unlockSubmit false })
      else (g, { l with pc := .unlockSubmit true })
  | .check =>
    match g.heap l.wrap with
    | none => (g.crash, l)
    | some w => (g, { l with pc := if w.completed = 0 then .lockPoll else .judge })
  | .poll =>
    match g.cq with
    | [] => (g, l)
    | x :: cq => ({ g with cq := cq, running := some x }, { l with pc := .cbRet })
  | .storeRet =>
    match g.running with
    | none => (g.crash, l)
    | some (req, c) =>
      match g.heap req.arg with
      | none => (g.crash, l)
      | some w =>
        (g.storeRet w c.ret, { l with pc := .cbCompleted })
  | .storeCompleted =>
    match g.running with
    | none => (g.crash, l)
    | some (req, c) =>
      match g.heap req.arg with
      | none => (g.crash, l)
      | some w =>
        (g.storeCompleted req w (nvmCmdWrapCpl c), { l with pc := .poll })
  | .leave => (g, { l with pc := .unlockPoll })
  | .judge =>
    match g.heap l.wrap with
    | none => (g.crash, l)
    | some w =>
      (g, if w.completed < 0 then { l with pc := .term, res := -1, errno := some .eio }
        else { l with pc := .term })
  | .term =>
    match g.heap l.wrap with
    | none => (g.crash, l)
    | some w =>
      ({ g with
        heap := Function.update g.heap l.wrap none
        returns := g.returns ++ [⟨(t, l.calls), l.res, l.errno, w.ret.map g.rets⟩] },
        { l with pc := .out, calls := l.calls + 1 })

def teamAnswer [DecidableEq T] (e : TeamAnswer T) (g : SpdkMem T) : SpdkMem T :=
  { g with
    inFlight := g.inFlight.erase e.req
    cq := g.cq ++ [(e.req, e.cpl)]
    answers := g.answers ++ [(e.req.call, e.cpl)] }

theorem teamAct_inside {t : T} {a : TeamAct} {g : SpdkMem T} {l : TeamLoc} (h : teamCan t a g l) :
    (teamAct t a g l).2.pc.inside = l.pc.inside := by
  cases a with
  | call ret wrap => cases wrap <;> simp [teamAct, h.1, TeamPc.inside]
  | submit taken =>
    have hpc : l.pc = .submit := h
    cases hw : g.heap l.wrap <;> cases taken <;> simp [teamAct, hw, hpc, TeamPc.inside]
  | check =>
    have hpc : l.pc = .check := h
    cases hw : g.heap l.wrap with
    | none => simp [teamAct, hw]
    | some w => by_cases hc : w.completed = 0 <;> simp [teamAct, hw, hpc, hc, TeamPc.inside]
  | poll => cases hq : g.cq <;> simp [teamAct, hq, h.1, TeamPc.inside]
  | storeRet =>
    have hpc : l.pc = .cbRet := h
    cases hr : g.running with
    | none => simp [teamAct, hr]
    | some x => cases hw : g.heap x.1.arg <;> simp [teamAct, hr, hw, hpc, TeamPc.inside]
  | storeCompleted =>
    have hpc : l.pc = .cbCompleted := h
    cases hr : g.running with
    | none => simp [teamAct, hr]
    | some x => cases hw : g.heap x.1.arg <;> simp [teamAct, hr, hw, hpc, TeamPc.inside]
  | leave =>
    have hpc : l.pc = .poll := h
    simp [teamAct, hpc, TeamPc.inside]
  | judge =>
    have hpc : l.pc = .judge := h
    cases hw : g.heap l.wrap with
    | none => simp [teamAct, hw]
    | some w => by_cases hc : w.completed < 0 <;> simp [teamAct, hw, hpc, hc, TeamPc.inside]
  | term =>
    have hpc : l.pc = .term := h
    cases hw : g.heap l.wrap <;> simp [teamAct, hw, hpc, TeamPc.inside]

def spdkTeam (T : Type*) [DecidableEq T] : Prog T TeamLoc (SpdkMem T) TeamAct (TeamAnswer T) where
  lock := teamLock
  unlock := teamUnlock
  can := teamCan
  act := teamAct
  canEnv e g := e.req ∈ g.inFlight
  env := teamAnswer
  inside l := l.pc.inside = true
  lock_inside := by
    intro l l' h
    cases hpc : l.pc <;> simp [teamLock, hpc] at h <;> subst h <;> rfl
  unlock_inside := by
    intro l l' h
    cases hpc : l.pc with
    | unlockSubmit err => cases err <;> simp [teamUnlock, hpc] at h <;> subst h <;> simp [TeamPc.inside]
    | unlockPoll => simp [teamUnlock, hpc] at h; subst h; simp [TeamPc.inside]
    | _ => simp [teamUnlock, hpc] at h
  act_inside h := by rw [teamAct_inside h]

def SpdkMem.init (rets : Nat → Ret) : SpdkMem T :=
  ⟨fun _ => none, rets, [], [], none, [], [], [], false⟩

def teamInit (rets : Nat → Ret) : Team T TeamLoc (SpdkMem T) :=
  ⟨none, fun _ => ⟨.out, 0, 0, 0, none⟩, .init rets⟩

end

instance decidableTeamCan {T : Type*} (t : T) (a : TeamAct) (g : SpdkMem T) (l : TeamLoc) :
    Decidable (teamCan t a g l) :=
  match a with
  | .call _ none => decidable_of_iff (l.pc = .out) (by simp [teamCan])
  | .call _ (some x) => decidable_of_iff (l.pc = .out ∧ (g.heap x).isNone = true) (by simp [teamCan])
  | .submit _ => inferInstanceAs (Decidable (l.pc = .submit))
  | .check => inferInstanceAs (Decidable (l.pc = .check))
  | .poll => decidable_of_iff (l.pc = .poll ∧ g.cq.isEmpty = false) (by simp [teamCan])
  | .storeRet => inferInstanceAs (Decidable (l.pc = .cbRet))
  | .storeCompleted => inferInstanceAs (Decidable (l.pc = .cbCompleted))
  | .leave => inferInstanceAs (Decidable (l.pc = .poll))
  | .judge => inferInstanceAs (Decidable (l.pc = .judge))
  | .term => inferInstanceAs (Decidable (l.pc = .term))

instance decidableTeamEnabled {T : Type*} [DecidableEq T] (s : Team T TeamLoc (SpdkMem T))
    (e : LockTeam.Event T TeamAct (TeamAnswer T)) : Decidable (LockTeam.Enabled (spdkTeam T) s e) :=
  match e with
  | .lock t => inferInstanceAs (Decidable (s.lock = none ∧ (teamLock (s.loc t)).isSome))
  | .unlock t => inferInstanceAs (Decidable ((teamUnlock (s.loc t)).isSome))
  | .act t a => inferInstanceAs (Decidable (teamCan t a s.mem (s.loc t)))
  | .env e => inferInstanceAs (Decidable (e.req ∈ s.mem.inFlight))

section

variable {T : Type*}

/-! What the memory says about the calls of one thread, and about one call. -/

def SpdkMem.pending (g : SpdkMem T) : List (Request T) :=
  g.inFlight ++ g.cq.map (·.1) ++ (g.running.map (·.1)).toList

def SpdkMem.answersOf [DecidableEq T] (g : SpdkMem T) (k : T × Nat) : List Cpl :=
  (g.answers.filter fun x => x.1 = k).map (·.2)

def SpdkMem.pendingOf [DecidableEq T] (g : SpdkMem T) (t : T) : List (Request T) :=
  g.pending.filter fun req => req.call.1 = t

def SpdkMem.returnsOf [DecidableEq T] (g : SpdkMem T) (t : T) : List (TeamReturn T) :=
  g.returns.filter fun r => r.call.1 = t

variable [DecidableEq T]

/-- A call has returned what `cmd_sync_ewrc` returns for the answer to its command, if that has been
taken, and the callback has run once for it. -/
def TeamReturn.Fits (own : Prop) (g : SpdkMem T) (r : TeamReturn T) : Prop :=
  ∃ cpl : Option Cpl, g.answersOf r.call = cpl.toList ∧ g.invoked.count r.call = cpl.toList.length ∧
    r.res = (if (cmdSyncEwrc true cpl).ok then 0 else -1) ∧
    r.errno = (if ∃ c ∈ cpl, ¬ c.Ok then some .eio else none) ∧
    (own → ∀ x ∈ r.ret, ∀ y ∈ (cmdSyncEwrc true cpl).ret, x = y)

/-- No other call under way has the same `ret`. -/
def OwnRet (_ : T) (a : TeamAct) (g : SpdkMem T) : Prop :=
  match a with
  | .call ret _ => ∀ r ∈ ret, ∀ x, ∀ w ∈ g.heap x, r ∉ w.ret
  | _ => True

/-- `own` says whether each call under way has a `ret` of its own. -/
structure MemInv (own : Prop) (g : SpdkMem T) : Prop where
  sound : g.fault = false
  live : ∀ req ∈ g.pending, ∃ w, g.heap req.arg = some w ∧ w.owner = req.call.1
  calls : (g.pending.map Request.call).Nodup
  unanswered : ∀ req ∈ g.inFlight, g.answersOf req.call = []
  answered : ∀ x ∈ g.cq ++ g.running.toList, g.answersOf x.1.call = [x.2]
  uninvoked : ∀ req ∈ g.pending, req.call ∉ g.invoked
  rets : own → ∀ x y v w r, g.heap x = some v → g.heap y = some w → r ∈ v.ret → r ∈ w.ret → x = y
  returned : ∀ r ∈ g.returns, r.Fits own g ∧ ∀ req ∈ g.pending, req.call ≠ r.call

def Unsent (t : T) (l : TeamLoc) (g : SpdkMem T) : Prop :=
  g.pendingOf t = [] ∧ g.answersOf (t, l.calls) = [] ∧ (t, l.calls) ∉ g.invoked

def Answered (own : Prop) (t : T) (l : TeamLoc) (g : SpdkMem T) (w : TeamWrap T) (c : Cpl) : Prop :=
  g.pendingOf t = [] ∧ g.answersOf (t, l.calls) = [c] ∧ g.invoked.count (t, l.calls) = 1 ∧
    (own → ∀ r ∈ w.ret, g.rets r = c.ret)

/-- The command waits for its callback, or this has run. -/
def Sent (own : Prop) (t : T) (l : TeamLoc) (g : SpdkMem T) (w : TeamWrap T) : Prop :=
  (g.pendingOf t = [⟨(t, l.calls), l.wrap⟩] ∧ w.completed = 0) ∨
    ∃ c, Answered own t l g w c ∧ w.completed = nvmCmdWrapCpl c

def Judged (own : Prop) (t : T) (l : TeamLoc) (g : SpdkMem T) (w : TeamWrap T) : Prop :=
  (Unsent t l g ∧ l.res = -1 ∧ l.errno = none) ∨
    ∃ c, Answered own t l g w c ∧ l.res = (if c.Ok then 0 else -1) ∧
      l.errno = if c.Ok then none else some .eio

/-- What a thread knows of its wrap, by where it is in its call. -/
def Stage (own : Prop) (t : T) (l : TeamLoc) (g : SpdkMem T) (w : TeamWrap T) : Prop :=
  match l.pc with
  | .out => True
  | .lockSubmit | .submit | .unlockSubmit true =>
    Unsent t l g ∧ w.completed = 0 ∧ l.res = 0 ∧ l.errno = none
  | .judge => l.res = 0 ∧ l.errno = none ∧
    ∃ c, Answered own t l g w c ∧ w.completed = nvmCmdWrapCpl c
  | .term => Judged own t l g w
  | _ => l.res = 0 ∧ l.errno = none ∧ Sent own t l g w

/-- What a thread knows of the callback that runs, by where it is. -/
def Running (own : Prop) (pc : TeamPc) (g : SpdkMem T) : Prop :=
  match pc with
  | .submit | .unlockSubmit _ | .poll | .unlockPoll => g.running = none
  | .cbRet => g.running.isSome
  | .cbCompleted => ∃ x, g.running = some x ∧
    (own → ∀ w ∈ g.heap x.1.arg, ∀ r ∈ w.ret, g.rets r = x.2.ret)
  | _ => True

/-- What holds of the calls of a thread, whoever has the lock. -/
structure CallInv (own : Prop) (t : T) (l : TeamLoc) (g : SpdkMem T) : Prop where
  wraps : ∀ x w, g.heap x = some w → w.owner = t → l.pc ≠ .out ∧ x = l.wrap
  later : ∀ n, l.calls < n → g.answersOf (t, n) = [] ∧ (t, n) ∉ g.invoked
  returned : (g.returnsOf t).map (·.call.2) = List.range l.calls
  out : l.pc = .out → Unsent t l g
  stage : l.pc ≠ .out → ∃ w, g.heap l.wrap = some w ∧ w.owner = t ∧ Stage own t l g w

def LocInv (own : Prop) (t : T) (l : TeamLoc) (g : SpdkMem T) : Prop :=
  CallInv own t l g ∧ Running own l.pc g

/-- What the steps of the others leave to the thread `u`. -/
structure Frame (own : Prop) (u : T) (g g' : SpdkMem T) : Prop where
  heap : ∀ x w, w.owner = u → (g'.heap x = some w ↔ g.heap x = some w)
  pending : (g'.pendingOf u).Perm (g.pendingOf u)
  answers : ∀ n, (∀ req ∈ g.pending, req.call ≠ (u, n)) → g'.answersOf (u, n) = g.answersOf (u, n)
  invoked : ∀ n, g'.invoked.count (u, n) = g.invoked.count (u, n)
  returns : g'.returnsOf u = g.returnsOf u
  rets : own → g.pendingOf u = [] → ∀ x w, g.heap x = some w → w.owner = u → ∀ r ∈ w.ret,
    g'.rets r = g.rets r

variable {own : Prop} {t u : T} {g g' : SpdkMem T} {l : TeamLoc}

theorem pendingOf_eq_nil_iff : g.pendingOf t = [] ↔ ∀ req ∈ g.pending, req.call.1 ≠ t := by
  simp [SpdkMem.pendingOf, List.filter_eq_nil_iff]

theorem pendingOf_perm (h : g'.pending.Perm g.pending) (u : T) :
    (g'.pendingOf u).Perm (g.pendingOf u) :=
  h.filter _

def TeamPc.Waiting : TeamPc → Prop
  | .unlockSubmit false | .check | .lockPoll | .poll | .cbRet | .cbCompleted | .unlockPoll => True
  | _ => False

theorem stage_waiting (h : l.pc.Waiting) (w : TeamWrap T) :
    Stage own t l g w ↔ l.res = 0 ∧ l.errno = none ∧ Sent own t l g w := by
  unfold Stage
  cases hpc : l.pc with
  | unlockSubmit err => cases err <;> simp_all [TeamPc.Waiting]
  | _ => simp_all [TeamPc.Waiting]

/-- A thread whose command is pending waits for it. -/
theorem CallInv.waits (h : CallInv own t l g) (hp : g.pendingOf t ≠ []) :
    l.pc.Waiting ∧ g.pendingOf t = [⟨(t, l.calls), l.wrap⟩] ∧
      ∃ w, g.heap l.wrap = some w ∧ w.owner = t ∧ w.completed = 0 ∧ l.res = 0 ∧ l.errno = none := by
  have hout : l.pc ≠ .out := fun hpc => hp (h.out hpc).1
  obtain ⟨w, hw, ho, hs⟩ := h.stage hout
  have hwait : l.pc.Waiting := by
    unfold Stage at hs
    split at hs
    · exact absurd ‹_› hout
    · exact absurd hs.1.1 hp
    · exact absurd hs.1.1 hp
    · exact absurd hs.1.1 hp
    · obtain ⟨-, -, c, hc, -⟩ := hs
      exact absurd hc.1 hp
    · rcases hs with hs | ⟨c, hc, -⟩
      · exact absurd hs.1.1 hp
      · exact absurd hc.1 hp
    · cases hpc : l.pc with
      | unlockSubmit err => cases err <;> simp_all [TeamPc.Waiting]
      | _ => simp_all [TeamPc.Waiting]
  obtain ⟨hres, herr, hs⟩ := (stage_waiting hwait w).mp hs
  rcases hs with ⟨hpend, h0⟩ | ⟨c, hc, -⟩
  · exact ⟨hwait, hpend, w, hw, ho, h0, hres, herr⟩
  · exact absurd hc.1 hp

theorem CallInv.pending_call (h : CallInv own t l g) {req : Request T} (hreq : req ∈ g.pending)
    (ht : req.call.1 = t) : req = ⟨(t, l.calls), l.wrap⟩ := by
  have hmem : req ∈ g.pendingOf t := by simp [SpdkMem.pendingOf, hreq, ht]
  rw [(h.waits (List.ne_nil_of_mem hmem)).2.1] at hmem
  exact List.mem_singleton.mp hmem

theorem CallInv.pending_ne (h : CallInv own t l g) {n : Nat} (hn : l.calls ≠ n) {req : Request T}
    (hreq : req ∈ g.pending) : req.call ≠ (t, n) := by
  intro hc
  have := h.pending_call hreq (by rw [hc])
  rw [this] at hc
  exact hn (Prod.mk.inj hc).2

/-! The steps of the other threads. -/

theorem Frame.pendingOf_nil (h : Frame own u g g') : g'.pendingOf u = [] ↔ g.pendingOf u = [] :=
  ⟨fun hn => List.perm_nil.mp (hn ▸ h.pending.symm), fun hn => List.perm_nil.mp (hn ▸ h.pending)⟩

theorem Frame.not_mem_invoked (h : Frame own u g g') (n : Nat) :
    (u, n) ∉ g'.invoked ↔ (u, n) ∉ g.invoked := by
  rw [← List.count_eq_zero, h.invoked, List.count_eq_zero]

theorem Frame.answersOf (h : Frame own u g g') (hp : g.pendingOf u = []) (n : Nat) :
    g'.answersOf (u, n) = g.answersOf (u, n) :=
  h.answers n fun req hreq hc => pendingOf_eq_nil_iff.mp hp req hreq (by rw [hc])

theorem Frame.unsent (h : Frame own u g g') (hun : Unsent u l g) : Unsent u l g' :=
  ⟨h.pendingOf_nil.mpr hun.1, (h.answersOf hun.1 _).trans hun.2.1, (h.not_mem_invoked _).mpr hun.2.2⟩

theorem Frame.answered (h : Frame own u g g') {x : Nat} {w : TeamWrap T} (hw : g.heap x = some w)
    (ho : w.owner = u) {c : Cpl} (ha : Answered own u l g w c) : Answered own u l g' w c := by
  obtain ⟨hp, han, hin, hr⟩ := ha
  refine ⟨h.pendingOf_nil.mpr hp, (h.answersOf hp _).trans han, (h.invoked _).trans hin, ?_⟩
  intro hown r hmem
  rw [h.rets hown hp x w hw ho r hmem, hr hown r hmem]

theorem Frame.stage (h : Frame own u g g') {x : Nat} {w : TeamWrap T} (hw : g.heap x = some w)
    (ho : w.owner = u) (hs : Stage own u l g w) : Stage own u l g' w := by
  have hsent : Sent own u l g w → Sent own u l g' w := by
    rintro (⟨hp, h0⟩ | ⟨c, hc, hd⟩)
    · exact .inl ⟨List.perm_singleton.mp (hp ▸ h.pending), h0⟩
    · exact .inr ⟨c, h.answered hw ho hc, hd⟩
  unfold Stage at hs ⊢
  split at hs
  · trivial
  · exact ⟨h.unsent hs.1, hs.2⟩
  · exact ⟨h.unsent hs.1, hs.2⟩
  · exact ⟨h.unsent hs.1, hs.2⟩
  · obtain ⟨hr, he, c, hc, hd⟩ := hs
    exact ⟨hr, he, c, h.answered hw ho hc, hd⟩
  · rcases hs with ⟨hun, hr⟩ | ⟨c, hc, hr⟩
    · exact .inl ⟨h.unsent hun, hr⟩
    · exact .inr ⟨c, h.answered hw ho hc, hr⟩
  · exact ⟨hs.1, hs.2.1, hsent hs.2.2⟩

theorem CallInv.frame (h : CallInv own u l g) (hf : Frame own u g g') : CallInv own u l g' := by
  refine ⟨?_, ?_, by rw [hf.returns]; exact h.returned, fun hp => hf.unsent (h.out hp), ?_⟩
  · intro x w hw ho
    exact h.wraps x w ((hf.heap x w ho).mp hw) ho
  · intro n hn
    rw [hf.answers n fun req hreq => h.pending_ne (Nat.ne_of_lt hn) hreq, hf.not_mem_invoked]
    exact h.later n hn
  · intro hp
    obtain ⟨w, hw, ho, hs⟩ := h.stage hp
    exact ⟨w, (hf.heap _ w ho).mpr hw, ho, hf.stage hw ho hs⟩

theorem Frame.refl (own : Prop) (u : T) (g : SpdkMem T) : Frame own u g g :=
  ⟨fun _ _ _ => Iff.rfl, List.Perm.refl _, fun _ _ => rfl, fun _ => rfl, rfl, fun _ _ _ _ _ _ _ _ => rfl⟩

/-! What each step does to the memory. -/

theorem TeamReturn.Fits.keep {r : TeamReturn T} (h : r.Fits own g)
    (ha : g'.answersOf r.call = g.answersOf r.call)
    (hi : g'.invoked.count r.call = g.invoked.count r.call) : r.Fits own g' := by
  rw [TeamReturn.Fits, ha, hi]
  exact h

theorem MemInv.alloc (h : MemInv own g) {x : Nat} (hx : g.heap x = none) {ret : Option Nat}
    (hown : own → ∀ r ∈ ret, ∀ y, ∀ w ∈ g.heap y, r ∉ w.ret) :
    MemInv own { g with heap := Function.update g.heap x (some ⟨t, ret, 0⟩) } := by
  refine ⟨h.sound, ?_, h.calls, h.unanswered, h.answered, h.uninvoked, ?_, h.returned⟩
  · intro req hreq
    obtain ⟨w, hw, ho⟩ := h.live req hreq
    have hne : req.arg ≠ x := fun he => by rw [he, hx] at hw; cases hw
    exact ⟨w, by simpa [Function.update_of_ne hne] using hw, ho⟩
  · intro ho y z v w r hv hw hrv hrw
    by_cases hy : y = x
    · by_cases hz : z = x
      · rw [hy, hz]
      · -- the new `ret` is not that of any other call
        obtain rfl : TeamWrap.mk t ret 0 = v := by simpa [hy] using hv
        have hw : g.heap z = some w := by simpa [Function.update_of_ne hz] using hw
        exact absurd hrw (hown ho r hrv z w hw)
    · have hv : g.heap y = some v := by simpa [Function.update_of_ne hy] using hv
      by_cases hz : z = x
      · obtain rfl : TeamWrap.mk t ret 0 = w := by simpa [hz] using hw
        exact absurd hrv (hown ho r hrw y v hv)
      · have hw : g.heap z = some w := by simpa [Function.update_of_ne hz] using hw
        exact h.rets ho y z v w r hv hw hrv hrw

theorem MemInv.return (h : MemInv own g) {r : TeamReturn T} (hr : r.Fits own g)
    (hp : ∀ req ∈ g.pending, req.call ≠ r.call) :
    MemInv own { g with returns := g.returns ++ [r] } := by
  refine ⟨h.sound, h.live, h.calls, h.unanswered, h.answered, h.uninvoked, h.rets, ?_⟩
  intro r' hr'
  rcases List.mem_append.mp hr' with hold | hnew
  · exact h.returned r' hold
  · obtain rfl := List.mem_singleton.mp hnew
    exact ⟨hr, hp⟩

theorem MemInv.free (h : MemInv own g) {x : Nat} (hp : ∀ req ∈ g.pending, req.arg ≠ x) :
    MemInv own { g with heap := Function.update g.heap x none } := by
  refine ⟨h.sound, ?_, h.calls, h.unanswered, h.answered, h.uninvoked, ?_, h.returned⟩
  · intro req hreq
    simpa [Function.update_of_ne (hp req hreq)] using h.live req hreq
  · intro ho y z v w r hv hw
    have hy : y ≠ x := fun he => by simp [he] at hv
    have hz : z ≠ x := fun he => by simp [he] at hw
    exact h.rets ho y z v w r (by simpa [Function.update_of_ne hy] using hv)
      (by simpa [Function.update_of_ne hz] using hw)

theorem MemInv.submit (h : MemInv own g) {req : Request T}
    (hw : ∃ w, g.heap req.arg = some w ∧ w.owner = req.call.1)
    (hp : ∀ other ∈ g.pending, other.call ≠ req.call) (ha : g.answersOf req.call = [])
    (hi : req.call ∉ g.invoked) (hr : ∀ r ∈ g.returns, r.call ≠ req.call) :
    MemInv own { g with inFlight := req :: g.inFlight } := by
  have hpend : SpdkMem.pending { g with inFlight := req :: g.inFlight } = req :: g.pending := by
    simp [SpdkMem.pending]
  refine ⟨h.sound, ?_, ?_, ?_, h.answered, ?_, h.rets, ?_⟩
  · rw [hpend]
    exact List.forall_mem_cons.mpr ⟨hw, h.live⟩
  · rw [hpend, List.map_cons, List.nodup_cons]
    refine ⟨fun hmem => ?_, h.calls⟩
    obtain ⟨other, ho, hc⟩ := List.mem_map.mp hmem
    exact hp other ho hc
  · exact List.forall_mem_cons.mpr ⟨ha, h.unanswered⟩
  · rw [hpend]
    exact List.forall_mem_cons.mpr ⟨hi, h.uninvoked⟩
  · intro r hmem
    obtain ⟨hfits, hne⟩ := h.returned r hmem
    refine ⟨hfits.keep rfl rfl, ?_⟩
    rw [hpend]
    exact List.forall_mem_cons.mpr ⟨(hr r hmem).symm, hne⟩

omit [DecidableEq T] in
theorem pending_poll {x : Request T × Cpl} {cq : List (Request T × Cpl)} (hcq : g.cq = x :: cq)
    (hrun : g.running = none) :
    (SpdkMem.pending { g with cq := cq, running := some x }).Perm g.pending := by
  have hold : g.pending = g.inFlight ++ x.1 :: cq.map (·.1) := by simp [SpdkMem.pending, hcq, hrun]
  have hnew : SpdkMem.pending { g with cq := cq, running := some x } =
      g.inFlight ++ (cq.map (·.1) ++ [x.1]) := by simp [SpdkMem.pending]
  rw [hold, hnew]
  exact (List.perm_append_singleton _ _).append_left _

theorem MemInv.poll (h : MemInv own g) {x : Request T × Cpl} {cq : List (Request T × Cpl)}
    (hcq : g.cq = x :: cq) (hrun : g.running = none) :
    MemInv own { g with cq := cq, running := some x } := by
  have hperm := pending_poll hcq hrun
  refine ⟨h.sound, fun req hreq => h.live req (hperm.mem_iff.mp hreq), (hperm.map _).nodup_iff.mpr h.calls,
    h.unanswered, ?_, fun req hreq => h.uninvoked req (hperm.mem_iff.mp hreq), h.rets, ?_⟩
  · intro y hy
    refine h.answered y ?_
    rw [hcq]
    rcases List.mem_append.mp hy with hy | hy
    · exact List.mem_append_left _ (List.mem_cons_of_mem _ hy)
    · obtain rfl : y = x := by simpa using hy
      exact List.mem_append_left _ List.mem_cons_self
  · intro r hr
    obtain ⟨hfits, hne⟩ := h.returned r hr
    exact ⟨hfits.keep rfl rfl, fun req hreq => hne req (hperm.mem_iff.mp hreq)⟩

omit [DecidableEq T] in
theorem pending_storeCompleted {req : Request T} {c : Cpl} (hrun : g.running = some (req, c))
    (w : TeamWrap T) (v : Int) : g.pending.Perm (req :: (g.storeCompleted req w v).pending) := by
  have hold : g.pending = (g.inFlight ++ g.cq.map (·.1)) ++ [req] := by simp [SpdkMem.pending, hrun]
  have hnew : (g.storeCompleted req w v).pending = g.inFlight ++ g.cq.map (·.1) := by
    simp [SpdkMem.pending, SpdkMem.storeCompleted]
  rw [hold, hnew]
  exact List.perm_append_singleton _ _

theorem MemInv.running_mem (h : MemInv own g) {x : Request T × Cpl} (hrun : g.running = some x) :
    x.1 ∈ g.pending ∧ g.answersOf x.1.call = [x.2] := by
  refine ⟨?_, h.answered x (by simp [hrun])⟩
  simp [SpdkMem.pending, hrun]

theorem MemInv.storeCompleted (h : MemInv own g) {req : Request T} {c : Cpl}
    (hrun : g.running = some (req, c)) {w : TeamWrap T} (hw : g.heap req.arg = some w) (v : Int) :
    MemInv own (g.storeCompleted req w v) := by
  have hperm := pending_storeCompleted hrun w v
  have hnd := (hperm.map Request.call).nodup_iff.mp h.calls
  obtain ⟨hnot, hnd⟩ := List.nodup_cons.mp hnd
  have hmem := fun other ho => hperm.mem_iff (a := other).mpr (List.mem_cons_of_mem req ho)
  have hcells : ∀ y v', (g.storeCompleted req w v).heap y = some v' →
      ∃ v₀, g.heap y = some v₀ ∧ v₀.owner = v'.owner ∧ v₀.ret = v'.ret := by
    intro y v' hy
    by_cases he : y = req.arg
    · subst he
      obtain rfl : { w with completed := v } = v' := by simpa [SpdkMem.storeCompleted] using hy
      exact ⟨w, hw, rfl, rfl⟩
    · exact ⟨v', by simpa [SpdkMem.storeCompleted, Function.update_of_ne he] using hy, rfl, rfl⟩
  refine ⟨h.sound, ?_, hnd, h.unanswered, ?_, ?_, ?_, ?_⟩
  · intro other ho
    obtain ⟨v', hv', hown⟩ := h.live other (hmem other ho)
    by_cases he : other.arg = req.arg
    · rw [he, hw] at hv'
      obtain rfl := Option.some.inj hv'
      exact ⟨{ w with completed := v }, by simp [SpdkMem.storeCompleted, he], hown⟩
    · exact ⟨v', by simpa [SpdkMem.storeCompleted, Function.update_of_ne he] using hv', hown⟩
  · intro y hy
    exact h.answered y (List.mem_append_left _ (by simpa [SpdkMem.storeCompleted] using hy))
  · intro other ho hinv
    rcases List.mem_cons.mp hinv with heq | hold
    · exact hnot (List.mem_map.mpr ⟨other, ho, heq⟩)
    · exact h.uninvoked other (hmem other ho) hold
  · intro ho y z v₁ v₂ r hv₁ hv₂ hr₁ hr₂
    obtain ⟨w₁, hw₁, -, he₁⟩ := hcells y v₁ hv₁
    obtain ⟨w₂, hw₂, -, he₂⟩ := hcells z v₂ hv₂
    exact h.rets ho y z w₁ w₂ r hw₁ hw₂ (he₁ ▸ hr₁) (he₂ ▸ hr₂)
  · intro r hr
    obtain ⟨hfits, hne⟩ := h.returned r hr
    refine ⟨hfits.keep rfl ?_, fun other ho => hne other (hmem other ho)⟩
    exact List.count_cons_of_ne (hne req (h.running_mem hrun).1)

theorem MemInv.storeRet (h : MemInv own g) (w : TeamWrap T) (x : Ret) :
    MemInv own (g.storeRet w x) := by
  unfold SpdkMem.storeRet
  split
  · exact h
  · exact ⟨h.sound, h.live, h.calls, h.unanswered, h.answered, h.uninvoked, h.rets, h.returned⟩

theorem pending_answer {req : Request T} (hreq : req ∈ g.inFlight) (c : Cpl) :
    (teamAnswer ⟨req, c⟩ g).pending.Perm g.pending := by
  have hnew : (teamAnswer ⟨req, c⟩ g).pending =
      g.inFlight.erase req ++ ((g.cq.map (·.1) ++ [req]) ++ (g.running.map (·.1)).toList) := by
    simp [SpdkMem.pending, teamAnswer]
  have hold : g.pending = g.inFlight ++ (g.cq.map (·.1) ++ (g.running.map (·.1)).toList) := by
    simp [SpdkMem.pending]
  rw [hnew, hold]
  have hmid : (g.inFlight.erase req ++ ((g.cq.map (·.1) ++ [req]) ++ (g.running.map (·.1)).toList)).Perm
      (req :: (g.inFlight.erase req ++ (g.cq.map (·.1) ++ (g.running.map (·.1)).toList))) := by
    have hmove : ((g.inFlight.erase req ++ g.cq.map (·.1)) ++ req :: (g.running.map (·.1)).toList).Perm
        (req :: ((g.inFlight.erase req ++ g.cq.map (·.1)) ++ (g.running.map (·.1)).toList)) :=
      List.perm_middle
    simpa using hmove
  exact hmid.trans ((List.perm_cons_erase hreq).symm.append_right
    (g.cq.map (·.1) ++ (g.running.map (·.1)).toList))

theorem answersOf_answer (req : Request T) (c : Cpl) (k : T × Nat) :
    (teamAnswer ⟨req, c⟩ g).answersOf k = g.answersOf k ++ if req.call = k then [c] else [] := by
  by_cases hk : req.call = k <;> simp [SpdkMem.answersOf, teamAnswer, hk]

theorem MemInv.answer (h : MemInv own g) {req : Request T} (hreq : req ∈ g.inFlight) (c : Cpl) :
    MemInv own (teamAnswer ⟨req, c⟩ g) := by
  have hperm := pending_answer hreq c
  have hmem : req ∈ g.pending := by simp [SpdkMem.pending, hreq]
  have hother : ∀ {l₁ l₂ : List (Request T)}, g.pending = l₁ ++ l₂ → req ∈ l₁ →
      (∀ other ∈ l₁.erase req, other.call ≠ req.call) ∧ ∀ other ∈ l₂, other.call ≠ req.call := by
    intro l₁ l₂ hp h₁
    have hnd : ((req :: (l₁.erase req ++ l₂)).map Request.call).Nodup := by
      refine (List.Perm.nodup_iff ?_).mp h.calls
      rw [hp]
      exact ((List.perm_cons_erase h₁).append_right l₂).map _
    have hnot := (List.nodup_cons.mp hnd).1
    refine ⟨fun other ho hc => hnot ?_, fun other ho hc => hnot ?_⟩
    · exact List.mem_map.mpr ⟨other, List.mem_append_left _ ho, hc⟩
    · exact List.mem_map.mpr ⟨other, List.mem_append_right _ ho, hc⟩
  obtain ⟨hflight, hrest⟩ := hother (List.append_assoc _ _ _) hreq
  have hkeep : ∀ k, k ≠ req.call → (teamAnswer ⟨req, c⟩ g).answersOf k = g.answersOf k := by
    intro k hk
    rw [answersOf_answer, if_neg (Ne.symm hk), List.append_nil]
  have hnew : (teamAnswer ⟨req, c⟩ g).answersOf req.call = [c] := by
    rw [answersOf_answer, if_pos rfl, h.unanswered req hreq, List.nil_append]
  refine ⟨h.sound, fun other ho => h.live other (hperm.mem_iff.mp ho), (hperm.map _).nodup_iff.mpr h.calls,
    ?_, ?_, fun other ho => h.uninvoked other (hperm.mem_iff.mp ho), h.rets, ?_⟩
  · intro other ho
    rw [hkeep _ (hflight other ho)]
    exact h.unanswered other (List.mem_of_mem_erase ho)
  · intro x hx
    have hold : ∀ y ∈ g.cq ++ g.running.toList, (teamAnswer ⟨req, c⟩ g).answersOf y.1.call = [y.2] := by
      intro y hy
      rw [hkeep _ (hrest y.1 ?_)]
      · exact h.answered y hy
      · rcases List.mem_append.mp hy with hy | hy
        · exact List.mem_append_left _ (List.mem_map_of_mem hy)
        · refine List.mem_append_right _ ?_
          cases hr : g.running with
          | none => simp [hr] at hy
          | some z =>
            obtain rfl : y = z := by simpa [hr] using hy
            simp
    have hcases : x ∈ g.cq ++ g.running.toList ∨ x = (req, c) := by
      simp only [teamAnswer, List.mem_append, List.mem_singleton] at hx ⊢
      tauto
    rcases hcases with hx | rfl
    · exact hold x hx
    · exact hnew
  · intro r hr
    obtain ⟨hfits, hne⟩ := h.returned r hr
    exact ⟨hfits.keep (hkeep _ (hne req hmem).symm) rfl, fun other ho => hne other (hperm.mem_iff.mp ho)⟩

/-! What each step leaves to the other threads. -/

theorem frame_alloc {x : Nat} (hx : g.heap x = none) (ret : Option Nat) (hu : t ≠ u) :
    Frame own u g { g with heap := Function.update g.heap x (some ⟨t, ret, 0⟩) } := by
  refine { Frame.refl own u g with heap := ?_ }
  intro y w ho
  by_cases hy : y = x
  · subst hy
    have hne : (⟨t, ret, 0⟩ : TeamWrap T) ≠ w := fun he => hu (by rw [← ho, ← he])
    simp [hx, hne]
  · simp [Function.update_of_ne hy]

theorem frame_return (r : TeamReturn T) (hu : r.call.1 ≠ u) :
    Frame own u g { g with returns := g.returns ++ [r] } := by
  refine { Frame.refl own u g with returns := ?_ }
  simp [SpdkMem.returnsOf, hu]

theorem frame_free {x : Nat} {w : TeamWrap T} (hx : g.heap x = some w) (hu : w.owner ≠ u) :
    Frame own u g { g with heap := Function.update g.heap x none } := by
  refine { Frame.refl own u g with heap := ?_ }
  intro y v ho
  by_cases hy : y = x
  · subst hy
    have hne : w ≠ v := fun he => hu (by rw [he, ho])
    simp [hx, hne]
  · simp [Function.update_of_ne hy]

theorem frame_submit (req : Request T) (hu : req.call.1 ≠ u) :
    Frame own u g { g with inFlight := req :: g.inFlight } := by
  refine { Frame.refl own u g with pending := ?_ }
  have hp : SpdkMem.pendingOf { g with inFlight := req :: g.inFlight } u = g.pendingOf u := by
    simp [SpdkMem.pendingOf, SpdkMem.pending, hu]
  rw [hp]

theorem frame_poll {x : Request T × Cpl} {cq : List (Request T × Cpl)} (hcq : g.cq = x :: cq)
    (hrun : g.running = none) (u : T) : Frame own u g { g with cq := cq, running := some x } :=
  { Frame.refl own u g with pending := pendingOf_perm (pending_poll hcq hrun) u }

theorem frame_storeRet (h : MemInv own g) {req : Request T} (hreq : req ∈ g.pending) {w : TeamWrap T}
    (hw : g.heap req.arg = some w) (x : Ret) (u : T) : Frame own u g (g.storeRet w x) := by
  cases hret : w.ret with
  | none => simpa [SpdkMem.storeRet, hret] using Frame.refl own u g
  | some r =>
    simp only [SpdkMem.storeRet, hret]
    refine { Frame.refl own u g with rets := ?_ }
    intro hown hp y v hv ho r' hr'
    by_cases he : r' = r
    · -- the owner of the wrap has a command pending, and `u` has none
      subst he
      obtain rfl := h.rets hown y req.arg v w r' hv hw hr' hret
      obtain ⟨v', hv', ho'⟩ := h.live req hreq
      rw [hv'] at hv
      obtain rfl := Option.some.inj hv
      exact absurd (ho'.symm.trans ho) (pendingOf_eq_nil_iff.mp hp req hreq)
    · simp [Function.update_of_ne he]

theorem frame_storeCompleted {req : Request T} {c : Cpl} (hrun : g.running = some (req, c))
    {w : TeamWrap T} (hw : g.heap req.arg = some w) (ho : w.owner = req.call.1) (v : Int)
    (hu : req.call.1 ≠ u) : Frame own u g (g.storeCompleted req w v) := by
  refine { Frame.refl own u g with heap := ?_, pending := ?_, invoked := ?_ }
  · intro y v' ho'
    by_cases hy : y = req.arg
    · subst hy
      have h₁ : w ≠ v' := fun he => hu (by rw [← ho, he, ho'])
      have h₂ : ({ w with completed := v } : TeamWrap T) ≠ v' := fun he =>
        hu (by rw [← ho, ← ho', ← he])
      simp [SpdkMem.storeCompleted, hw, h₁, h₂]
    · simp [SpdkMem.storeCompleted, Function.update_of_ne hy]
  · have hperm := (pending_storeCompleted hrun w v).filter fun other => decide (other.call.1 = u)
    rw [List.filter_cons_of_neg (by simpa using hu)] at hperm
    exact hperm.symm
  · intro n
    exact List.count_cons_of_ne fun he => hu (by rw [he])

theorem frame_answer {req : Request T} (hreq : req ∈ g.inFlight) (c : Cpl) (u : T) :
    Frame own u g (teamAnswer ⟨req, c⟩ g) := by
  refine { Frame.refl own u g with pending := pendingOf_perm (pending_answer hreq c) u, answers := ?_ }
  intro n hn
  have hne : req.call ≠ (u, n) := hn req (by simp [SpdkMem.pending, hreq])
  rw [answersOf_answer, if_neg hne, List.append_nil]

end

end LightNvm
