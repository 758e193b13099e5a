import LightNvm.LbdAsync

/-! `nvm_be_lbd_async_poke` and `nvm_be_lbd_async_wait`: one loop around `io_getevents` with the same
arguments in every round, while the callbacks change the number of outstanding commands. -/

namespace LightNvm

/-- What `io_getevents` answers: the events it hands out, or a negative error. -/
inductive GeteventsResult where
  | events (batch : List LbdEvent)
  | error (errno : Nat)

structure GeteventsArgs where
  min : Nat
  max : Nat
  timeout : Bool
  deriving DecidableEq

/-- A call of `io_getevents`, and the commands that are outstanding when it is made. -/
structure GeteventsCall where
  args : GeteventsArgs
  outstanding : Nat
  deriving DecidableEq

/-- What a poke or a wait has done; `ret` is absent while it is in the loop. -/
structure GeteventsOut where
  ctx : LbdCtx
  calls : List GeteventsCall
  ran : Nat
  failed : Bool
  ret : Option Int

/-- The body of the loop over the events of a batch. -/
def LbdCtx.complete (ctx : LbdCtx) (e : LbdEvent) : LbdCtx :=
  let ctx := Runs.run wrStep ctx e.callback
  { ctx with
    outstanding := ctx.outstanding - 1
    iocbs := Function.update ctx.iocbs (ctx.outstanding - 1) (some e.obj)
    inFlight := ctx.inFlight.erase e.obj }

def LbdCtx.completeAll (ctx : LbdCtx) (batch : List LbdEvent) : LbdCtx := batch.foldl complete ctx

/-- `cmd_async_getevents`, with `nevents` as it stands; the sum is an `int`. -/
def LbdCtx.getevents (args : GeteventsArgs) (ctx : LbdCtx) (nevents : Int) :
    List GeteventsResult → GeteventsOut
  | [] => ⟨ctx, if ctx.outstanding = 0 then [] else [⟨args, ctx.outstanding⟩], 0, false,
      if ctx.outstanding = 0 then some nevents else none⟩
  | r :: rs =>
    if ctx.outstanding = 0 then ⟨ctx, [], 0, false, some nevents⟩
    else match r with
      | .events [] => ⟨ctx, [⟨args, ctx.outstanding⟩], 0, false, some nevents⟩
      | .error errno => ⟨ctx, [⟨args, ctx.outstanding⟩], 0, true, some errno⟩
      | .events (e :: es) =>
        let out := (ctx.completeAll (e :: es)).getevents args
          ((nevents + (e :: es).length).bmod (2 ^ 32)) rs
        { out with
          calls := ⟨args, ctx.outstanding⟩ :: out.calls
          ran := (e :: es).length + out.ran }

def nvmBeLbdAsyncPoke (ctx : LbdCtx) (max : Nat) (rs : List GeteventsResult) : GeteventsOut :=
  ctx.getevents ⟨0, if max = 0 then ctx.depth else max, true⟩ 0 rs

def nvmBeLbdAsyncWait (ctx : LbdCtx) (rs : List GeteventsResult) : GeteventsOut :=
  ctx.getevents ⟨ctx.outstanding, ctx.depth, false⟩ 0 rs

theorem completeAll_eq_events {ctx : LbdCtx} {batch : List LbdEvent}
    (h : Runs.Along LbdCtx.complete (fun ctx e => e.obj ∈ ctx.inFlight) ctx batch) :
    ctx.completeAll batch = batch.foldl LbdCtx.event ctx := by
  rw [LbdCtx.completeAll]
  induction batch generalizing ctx with
  | nil => rfl
  | cons e es ih =>
    have hevent : ctx.event e = ctx.complete e := by
      rw [LbdCtx.event, if_pos h.1]
      rfl
    rw [List.foldl_cons, List.foldl_cons, hevent]
    exact ih h.2

/-- What the kernel hands out is in flight: then the context is that of the pool. -/
theorem getevents_ctx_eq {ctx : LbdCtx} {batches : List (List LbdEvent)}
    (h : Runs.Along LbdCtx.complete (fun ctx e => e.obj ∈ ctx.inFlight) ctx batches.flatten)
    (args : GeteventsArgs) (nevents : Int) :
    (ctx.getevents args nevents (batches.map .events)).ctx = cmdAsyncGetevents ctx batches := by
  induction batches generalizing ctx nevents with
  | nil => rfl
  | cons batch batches ih =>
    rw [List.flatten_cons, Runs.along_append] at h
    rw [List.map_cons, cmdAsyncGetevents]
    by_cases h0 : ctx.outstanding = 0
    · rw [LbdCtx.getevents.eq_def]
      dsimp only
      rw [if_pos h0, if_pos h0]
    · rw [if_neg h0]
      cases batch with
      | nil =>
        rw [LbdCtx.getevents, if_neg h0, if_pos rfl]
      | cons e es =>
        rw [LbdCtx.getevents, if_neg h0, if_neg (List.cons_ne_nil e es), ← completeAll_eq_events h.1]
        exact ih h.2 _

/-! The documented contract. -/

/-- Counted from `total` callbacks on. -/
def GeteventsOut.Reports (out : GeteventsOut) (total : Nat) : Prop :=
  ∀ ret, out.ret = some ret → ret = if out.failed then -1 else ((total + out.ran : Nat) : Int)

def GeteventsOut.Satisfiable (out : GeteventsOut) : Prop :=
  ∀ c ∈ out.calls, c.args.timeout = false → c.args.min ≤ c.outstanding

structure GeteventsOut.PokeOk (out : GeteventsOut) (max total : Nat) : Prop where
  limit : 0 < max → total + out.ran ≤ max
  reports : out.Reports total
  satisfiable : out.Satisfiable

structure GeteventsOut.WaitOk (out : GeteventsOut) (total : Nat) : Prop where
  reports : out.Reports total
  satisfiable : out.Satisfiable
  drained : ∀ ret, out.ret = some ret → 0 ≤ ret → out.ctx.outstanding = 0

/-! How full the queue is, from the numbers of commands that the callbacks submit. -/

def fillLevel (depth level calls : Nat) : Nat :=
  if level ≤ depth then min (level + calls) depth else level + calls

def levelAfter (depth level : Nat) (batch : List LbdEvent) : Nat :=
  batch.foldl (fun level e => fillLevel depth level e.callback.length - 1) level

/-- No error, at most `max` events in all, and no more than an `int` counts. -/
def PokeFits (depth max level total : Nat) : List GeteventsResult → Prop
  | [] => level = 0 → total < 2 ^ 31
  | r :: rs =>
    if level = 0 then total < 2 ^ 31
    else match r with
      | .events [] => total < 2 ^ 31
      | .error _ => False
      | .events (e :: es) => (0 < max → total + (e :: es).length ≤ max) ∧
          PokeFits depth max (levelAfter depth level (e :: es)) (total + (e :: es).length) rs

/-- Neither an error nor an empty answer, and the queue is never left filled below its first level. -/
def WaitFits (depth min level total : Nat) : List GeteventsResult → Prop
  | [] => if level = 0 then total < 2 ^ 31 else min ≤ level
  | r :: rs =>
    if level = 0 then total < 2 ^ 31
    else match r with
      | .events [] => False
      | .error _ => False
      | .events (e :: es) => min ≤ level ∧
          WaitFits depth min (levelAfter depth level (e :: es)) (total + (e :: es).length) rs

theorem wrStep_outstanding (ctx : LbdCtx) (c : WrCall) : (wrStep ctx c).depth = ctx.depth ∧
    (wrStep ctx c).outstanding =
      if ctx.outstanding = ctx.depth then ctx.outstanding else ctx.outstanding + 1 := by
  rw [wrStep, cmdAsyncScalarWr]
  by_cases hfull : ctx.outstanding = ctx.depth
  · rw [if_pos hfull, if_pos hfull]
    exact ⟨rfl, rfl⟩
  · rw [if_neg hfull, if_neg hfull]
    by_cases hop : c.opcode = .other
    · rw [if_pos hop]
      exact ⟨rfl, rfl⟩
    · rw [if_neg hop]
      cases c.refused <;> exact ⟨rfl, rfl⟩

theorem run_wrStep_outstanding (ctx : LbdCtx) (calls : List WrCall) :
    (Runs.run wrStep ctx calls).depth = ctx.depth ∧
      (Runs.run wrStep ctx calls).outstanding = fillLevel ctx.depth ctx.outstanding calls.length := by
  induction calls generalizing ctx with
  | nil =>
    refine ⟨rfl, ?_⟩
    rw [Runs.run_nil, fillLevel, List.length_nil]
    split_ifs <;> omega
  | cons c calls ih =>
    obtain ⟨hdepth, hout⟩ := wrStep_outstanding ctx c
    obtain ⟨ihdepth, ihout⟩ := ih (wrStep ctx c)
    rw [Runs.run_cons, ihdepth, ihout, hdepth, hout]
    refine ⟨rfl, ?_⟩
    simp only [fillLevel, List.length_cons]
    split_ifs <;> omega

theorem complete_outstanding (ctx : LbdCtx) (e : LbdEvent) : (ctx.complete e).depth = ctx.depth ∧
    (ctx.complete e).outstanding = fillLevel ctx.depth ctx.outstanding e.callback.length - 1 := by
  obtain ⟨hdepth, hout⟩ := run_wrStep_outstanding ctx e.callback
  refine ⟨hdepth, ?_⟩
  rw [LbdCtx.complete, ← hout]

theorem completeAll_outstanding (ctx : LbdCtx) (batch : List LbdEvent) :
    (ctx.completeAll batch).depth = ctx.depth ∧
      (ctx.completeAll batch).outstanding = levelAfter ctx.depth ctx.outstanding batch := by
  rw [LbdCtx.completeAll, levelAfter]
  induction batch generalizing ctx with
  | nil => exact ⟨rfl, rfl⟩
  | cons e es ih =>
    obtain ⟨hdepth, hout⟩ := complete_outstanding ctx e
    obtain ⟨ihdepth, ihout⟩ := ih (ctx.complete e)
    rw [hdepth] at ihdepth ihout
    rw [hout] at ihout
    exact ⟨ihdepth, ihout⟩

theorem bmod_eq_self_iff (total : Nat) : (total : Int).bmod (2 ^ 32) = total ↔ total < 2 ^ 31 := by
  rw [Int.bmod]
  constructor
  · intro h
    split_ifs at h <;> omega
  · intro h
    split_ifs <;> omega

/-! The two directions at each way out of the loop. -/

section

variable {ctx : LbdCtx} {args : GeteventsArgs} {total max : Nat} {rs : List GeteventsResult}

theorem reports_count_iff (ctx : LbdCtx) (calls : List GeteventsCall) :
    (GeteventsOut.mk ctx calls 0 false (some ((total : Int).bmod (2 ^ 32)))).Reports total ↔
      total < 2 ^ 31 := by
  rw [← bmod_eq_self_iff, GeteventsOut.Reports]
  constructor
  · intro h
    exact h _ rfl
  · rintro h ret hret
    obtain rfl := Option.some.inj hret
    exact h

theorem not_reports_error {calls : List GeteventsCall} {errno : Nat} :
    ¬ (GeteventsOut.mk ctx calls 0 true (some errno)).Reports total := by
  intro h
  have hret : (errno : Int) = -1 := h _ rfl
  omega

theorem reports_next_iff {out : GeteventsOut} {calls : List GeteventsCall} {n : Nat} :
    ({ out with calls := calls, ran := n + out.ran } : GeteventsOut).Reports total ↔
      out.Reports (total + n) := by
  simp only [GeteventsOut.Reports, Nat.add_assoc]

theorem satisfiable_next_iff {out : GeteventsOut} {c : GeteventsCall} {n : Nat} :
    ({ out with calls := c :: out.calls, ran := n } : GeteventsOut).Satisfiable ↔
      (c.args.timeout = false → c.args.min ≤ c.outstanding) ∧ out.Satisfiable := by
  simp only [GeteventsOut.Satisfiable, List.forall_mem_cons]

theorem pokeOk_next_iff {out : GeteventsOut} {c : GeteventsCall} (hc : c.args.timeout = true) {n : Nat} :
    ({ out with calls := c :: out.calls, ran := n + out.ran } : GeteventsOut).PokeOk max total ↔
      out.PokeOk max (total + n) := by
  have hsat : c.args.timeout = false → c.args.min ≤ c.outstanding := by simp [hc]
  constructor
  · rintro ⟨hlimit, hreports, hs⟩
    exact ⟨by rw [Nat.add_assoc]; exact hlimit, reports_next_iff.mp hreports, (satisfiable_next_iff.mp hs).2⟩
  · rintro ⟨hlimit, hreports, hs⟩
    exact ⟨by rw [← Nat.add_assoc]; exact hlimit, reports_next_iff.mpr hreports,
      satisfiable_next_iff.mpr ⟨hsat, hs⟩⟩

theorem pokeOk_stopped_iff {calls : List GeteventsCall} (htotal : 0 < max → total ≤ max)
    (hcalls : ∀ c ∈ calls, c.args.timeout = true) :
    (GeteventsOut.mk ctx calls 0 false (some ((total : Int).bmod (2 ^ 32)))).PokeOk max total ↔
      total < 2 ^ 31 := by
  rw [← reports_count_iff ctx calls]
  refine ⟨fun h => h.reports, fun h => ⟨htotal, h, fun c hc ht => ?_⟩⟩
  exact absurd ht (by simp [hcalls c hc])

theorem getevents_pokeOk_iff (htimeout : args.timeout = true) (htotal : 0 < max → total ≤ max) :
    (ctx.getevents args ((total : Int).bmod (2 ^ 32)) rs).PokeOk max total ↔
      PokeFits ctx.depth max ctx.outstanding total rs := by
  induction rs generalizing ctx total with
  | nil =>
    rw [LbdCtx.getevents, PokeFits]
    by_cases h0 : ctx.outstanding = 0
    · rw [if_pos h0, if_pos h0, pokeOk_stopped_iff htotal (by simp)]
      exact ⟨fun h _ => h, fun h => h h0⟩
    · rw [if_neg h0, if_neg h0]
      refine iff_of_true ⟨htotal, nofun, ?_⟩ fun h => absurd h h0
      simp [GeteventsOut.Satisfiable, htimeout]
  | cons r rs ih =>
    by_cases h0 : ctx.outstanding = 0
    · rw [LbdCtx.getevents.eq_def, PokeFits.eq_def]
      dsimp only
      rw [if_pos h0, if_pos h0]
      exact pokeOk_stopped_iff htotal (by simp)
    · cases r with
      | error errno =>
        rw [LbdCtx.getevents, PokeFits, if_neg h0, if_neg h0]
        exact iff_of_false (fun h => not_reports_error h.reports) id
      | events batch =>
        cases batch with
        | nil =>
          rw [LbdCtx.getevents, PokeFits, if_neg h0, if_neg h0]
          exact pokeOk_stopped_iff htotal (by simp [htimeout])
        | cons e es =>
          obtain ⟨hdepth, hout⟩ := completeAll_outstanding ctx (e :: es)
          rw [LbdCtx.getevents, PokeFits, if_neg h0, if_neg h0, pokeOk_next_iff htimeout,
            Int.bmod_add_bmod, ← hout, ← hdepth]
          by_cases hfit : 0 < max → total + (e :: es).length ≤ max
          · rw [and_iff_right hfit, ← Int.natCast_add]
            exact ih hfit
          · refine iff_of_false (fun h => hfit fun hmax => ?_) fun h => hfit h.1
            have := h.limit hmax
            omega

theorem waitOk_next_iff {out : GeteventsOut} {c : GeteventsCall} (hc : c.args.timeout = false) {n : Nat} :
    ({ out with calls := c :: out.calls, ran := n + out.ran } : GeteventsOut).WaitOk total ↔
      c.args.min ≤ c.outstanding ∧ out.WaitOk (total + n) := by
  constructor
  · rintro ⟨hreports, hs, hdrained⟩
    obtain ⟨hcall, hs⟩ := satisfiable_next_iff.mp hs
    exact ⟨hcall hc, reports_next_iff.mp hreports, hs, hdrained⟩
  · rintro ⟨hcall, hreports, hs, hdrained⟩
    exact ⟨reports_next_iff.mpr hreports, satisfiable_next_iff.mpr ⟨fun _ => hcall, hs⟩, hdrained⟩

theorem waitOk_drained_iff (h0 : ctx.outstanding = 0) :
    (GeteventsOut.mk ctx [] 0 false (some ((total : Int).bmod (2 ^ 32)))).WaitOk total ↔
      total < 2 ^ 31 := by
  rw [← reports_count_iff ctx []]
  exact ⟨fun h => h.reports, fun h => ⟨h, nofun, fun _ _ _ => h0⟩⟩

theorem not_waitOk_stopped {calls : List GeteventsCall} (h0 : ctx.outstanding ≠ 0) :
    ¬ (GeteventsOut.mk ctx calls 0 false (some ((total : Int).bmod (2 ^ 32)))).WaitOk total := by
  intro h
  have hret : (total : Int).bmod (2 ^ 32) = total := h.reports _ rfl
  exact h0 (h.drained _ rfl (by rw [hret]; exact Int.natCast_nonneg total))

theorem getevents_waitOk_iff (htimeout : args.timeout = false) :
    (ctx.getevents args ((total : Int).bmod (2 ^ 32)) rs).WaitOk total ↔
      WaitFits ctx.depth args.min ctx.outstanding total rs := by
  induction rs generalizing ctx total with
  | nil =>
    rw [LbdCtx.getevents, WaitFits]
    by_cases h0 : ctx.outstanding = 0
    · rw [if_pos h0, if_pos h0, if_pos h0]
      exact waitOk_drained_iff h0
    · rw [if_neg h0, if_neg h0, if_neg h0]
      constructor
      · intro h
        exact h.satisfiable _ (List.mem_singleton_self _) htimeout
      · intro h
        refine ⟨nofun, ?_, nofun⟩
        simpa [GeteventsOut.Satisfiable, htimeout] using h
  | cons r rs ih =>
    by_cases h0 : ctx.outstanding = 0
    · rw [LbdCtx.getevents.eq_def, WaitFits.eq_def]
      dsimp only
      rw [if_pos h0, if_pos h0]
      exact waitOk_drained_iff h0
    · cases r with
      | error errno =>
        rw [LbdCtx.getevents, WaitFits, if_neg h0, if_neg h0]
        exact iff_of_false (fun h => not_reports_error h.reports) id
      | events batch =>
        cases batch with
        | nil =>
          rw [LbdCtx.getevents, WaitFits, if_neg h0, if_neg h0]
          exact iff_of_false (not_waitOk_stopped h0) id
        | cons e es =>
          obtain ⟨hdepth, hout⟩ := completeAll_outstanding ctx (e :: es)
          rw [LbdCtx.getevents, WaitFits, if_neg h0, if_neg h0, waitOk_next_iff htimeout,
            Int.bmod_add_bmod, ← hout, ← hdepth, ← Int.natCast_add, ih]

end

/-- Exactly when a poke and a wait meet their contract, whatever `io_getevents` answers. -/
theorem lbd_poke_wait_contract_iff (ctx : LbdCtx) (max : Nat) (rs : List GeteventsResult) :
    ((nvmBeLbdAsyncPoke ctx max rs).PokeOk max 0 ↔ PokeFits ctx.depth max ctx.outstanding 0 rs) ∧
    ((nvmBeLbdAsyncWait ctx rs).WaitOk 0 ↔
      WaitFits ctx.depth ctx.outstanding ctx.outstanding 0 rs) := by
  have hzero : ((0 : Nat) : Int).bmod (2 ^ 32) = 0 := Int.zero_bmod
  constructor
  · rw [nvmBeLbdAsyncPoke, ← hzero]
    exact getevents_pokeOk_iff rfl fun _ => Nat.zero_le max
  · rw [nvmBeLbdAsyncWait, ← hzero]
    exact getevents_waitOk_iff rfl

/-- Two commands have completed: a poke for one reaps both. An error comes back as its number, and a
wait that is interrupted asks for two events of the one command that is left. -/
theorem lbd_poke_wait_breaks_contract :
    let ctx : LbdCtx := ⟨2, 2, fun _ => none, [0, 1]⟩
    let first : GeteventsResult := .events [⟨0, []⟩]
    let second : GeteventsResult := .events [⟨1, []⟩]
    (nvmBeLbdAsyncPoke ctx 1 [first, second]).ret = some 2 ∧
    (nvmBeLbdAsyncPoke ctx 1 [.error 5]).ret = some 5 ∧
    ¬ (nvmBeLbdAsyncPoke ctx 1 [first, second]).PokeOk 1 0 ∧
    ¬ (nvmBeLbdAsyncPoke ctx 1 [.error 5]).PokeOk 1 0 ∧
    ¬ (nvmBeLbdAsyncWait ctx [first, second]).WaitOk 0 := by
  refine ⟨by decide, by decide, fun h => ?_, fun h => ?_, fun h => ?_⟩
  · exact absurd (h.limit (by decide)) (by decide)
  · exact absurd (h.reports 5 rfl) (by decide)
  · exact absurd (h.satisfiable ⟨⟨2, 2, false⟩, 1⟩ (by decide) rfl) (by decide)

end LightNvm
