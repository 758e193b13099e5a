import Mathlib.Data.List.Nodup
import LightNvm.NocdVector
import LightNvm.Runs

/-! Asynchronous commands on one context of the SPDK and NOCD backends: which calls lead to a
callback, and what the counter of outstanding commands counts. -/

namespace LightNvm

/-- The fate of a submission: whether its wrap can be set up and whether SPDK takes it. -/
structure Submission where
  wrap : Bool
  taken : Bool
  deriving DecidableEq

/-- `struct nvm_async_ctx`. Calls are numbered as they are made: `results` says which of them
returned 0, `inFlight` has a call for each of its commands that SPDK has, `invoked` one for each
time that its callback has been run. -/
structure SpdkCtx where
  depth : Nat
  outstanding : Nat
  inFlight : List Nat
  results : List Bool
  invoked : List Nat

def cmdAsync (ctx : SpdkCtx) (call : Nat) (s : Submission) : SpdkCtx × Bool :=
  if (ctx.outstanding + 1) % 2 ^ 32 > ctx.depth then (ctx, false)
  else if !s.wrap then (ctx, false)
  else
    let ctx := { ctx with outstanding := (ctx.outstanding + 1) % 2 ^ 32 }
    if s.taken then ({ ctx with inFlight := call :: ctx.inFlight }, true)
    else ({ ctx with outstanding := (ctx.outstanding + 2 ^ 32 - 1) % 2 ^ 32 }, false)

def cmdAsyncEwrc (ctx : SpdkCtx) (call : Nat) (s : Submission) : SpdkCtx × Bool := cmdAsync ctx call s

def cmdAsyncPass (ctx : SpdkCtx) (call : Nat) (s : Submission) : SpdkCtx × Bool := cmdAsync ctx call s

def cmdAsyncCb (ctx : SpdkCtx) (call : Nat) : SpdkCtx :=
  if call ∈ ctx.inFlight then
    { ctx with
      outstanding := (ctx.outstanding + 2 ^ 32 - 1) % 2 ^ 32
      inFlight := ctx.inFlight.erase call
      invoked := call :: ctx.invoked }
  else ctx

/-- The loop of `nvm_be_nocd_vector_erase`: a scalar erase of all addresses for each address. -/
def nocdEraseLoop (ctx : SpdkCtx) (call : Nat) : List Submission → SpdkCtx × Bool
  | [] => (ctx, true)
  | s :: ss =>
    let r := cmdAsyncEwrc ctx call s
    if r.2 then nocdEraseLoop r.1 call ss else r

/-- The calls with `NVM_CMD_ASYNC`, by what they do with the context. -/
inductive AsyncReq where
  | scalarErase
  | scalarWrite
  | scalarRead
  | vectorErase (hasMeta : Bool) (naddrs : Nat)
  | vectorWrite (addrs : List LAddr)
  | vectorRead (addrs : List LAddr)
  | vectorCopy
  | pass (padc : Bool)

inductive SpdkBe where
  | spdk
  | nocd

def spdkAsync (ctx : SpdkCtx) (call : Nat) (s : Submission) : AsyncReq → SpdkCtx × Bool
  | .pass padc => if padc then (ctx, false) else cmdAsyncPass ctx call s
  | _ => cmdAsyncEwrc ctx call s

def nocdAsync (ctx : SpdkCtx) (call : Nat) (subs : Nat → Submission) : AsyncReq → SpdkCtx × Bool
  | .vectorErase hasMeta naddrs =>
    if hasMeta then (ctx, false) else nocdEraseLoop ctx call ((List.range naddrs).map subs)
  | .vectorWrite addrs => if contig addrs then spdkAsync ctx call (subs 0) .scalarWrite else (ctx, false)
  | .vectorRead addrs => if contig addrs then spdkAsync ctx call (subs 0) .scalarRead else (ctx, false)
  | req => spdkAsync ctx call (subs 0) req

def asyncCall (be : SpdkBe) (ctx : SpdkCtx) (call : Nat) (subs : Nat → Submission) (req : AsyncReq) :
    SpdkCtx × Bool :=
  match be with
  | .spdk => spdkAsync ctx call (subs 0) req
  | .nocd => nocdAsync ctx call subs req

inductive SpdkLabel where
  | call (req : AsyncReq) (subs : Nat → Submission)
  | complete (call : Nat)

def record (r : SpdkCtx × Bool) : SpdkCtx := { r.1 with results := r.1.results ++ [r.2] }

def SpdkCtx.step (be : SpdkBe) (ctx : SpdkCtx) : SpdkLabel → SpdkCtx
  | .call req subs => record (asyncCall be ctx ctx.results.length subs req)
  | .complete call => cmdAsyncCb ctx call

def nvmBeSpdkAsyncInit (depth : Nat) : SpdkCtx := ⟨depth, 0, [], [], []⟩

def SpdkCtx.pending (ctx : SpdkCtx) : List Nat :=
  (List.range ctx.results.length).filter fun call => ctx.results[call]? = some true ∧ call ∉ ctx.invoked

/-- A call that returned 0 has had its callback, or has one command in flight that will bring it;
any other call has neither. The counter counts the calls that wait for their callback. -/
structure SpdkCtx.ExactlyOnce (ctx : SpdkCtx) : Prop where
  once : ∀ call, ctx.invoked.count call + ctx.inFlight.count call =
    if ctx.results[call]? = some true then 1 else 0
  outstanding_eq : ctx.outstanding = ctx.pending.length
  le_depth : ctx.outstanding ≤ ctx.depth

def SpdkCtx.takes (ctx : SpdkCtx) (s : Submission) : Prop :=
  (ctx.outstanding + 1) % 2 ^ 32 ≤ ctx.depth ∧ s.wrap = true ∧ s.taken = true

/-- A vector erase on NOCD that is not one command: there is nothing to erase, or it goes on after
its first command. -/
def Splits (be : SpdkBe) (ctx : SpdkCtx) : SpdkLabel → Prop
  | .call (.vectorErase false naddrs) subs =>
    match be with
    | .nocd => naddrs = 0 ∨ (2 ≤ naddrs ∧ ctx.takes (subs 0))
    | .spdk => False
  | _ => False

structure SpdkCtx.Inv (ctx : SpdkCtx) : Prop where
  once : ∀ call, ctx.invoked.count call + ctx.inFlight.count call =
    if ctx.results[call]? = some true then 1 else 0
  outstanding_eq : ctx.outstanding = ctx.inFlight.length
  le_depth : ctx.outstanding ≤ ctx.depth

section

variable {ctx : SpdkCtx}

theorem inFlight_perm_pending (h : ∀ call, ctx.invoked.count call + ctx.inFlight.count call =
    if ctx.results[call]? = some true then 1 else 0) : ctx.inFlight.Perm ctx.pending := by
  have hnd : ctx.inFlight.Nodup := by
    rw [List.nodup_iff_count_le_one]
    intro call
    have hc := h call
    split_ifs at hc <;> omega
  have hnd' : ctx.pending.Nodup := List.nodup_range.filter _
  refine (List.perm_ext_iff_of_nodup hnd hnd').mpr fun call => ?_
  have hc := h call
  have hmem : call ∈ ctx.pending ↔
      call < ctx.results.length ∧ ctx.results[call]? = some true ∧ ctx.invoked.count call = 0 := by
    simp [SpdkCtx.pending, List.count_eq_zero]
  rw [hmem, ← List.count_pos_iff]
  constructor
  · intro hpos
    split_ifs at hc with hr
    · exact ⟨(List.getElem?_eq_some_iff.mp hr).1, hr, by omega⟩
    · omega
  · rintro ⟨-, hr, h0⟩
    rw [if_pos hr] at hc
    omega

theorem exactlyOnce_iff_inv : ctx.ExactlyOnce ↔ ctx.Inv := by
  constructor
  · rintro ⟨honce, hout, hle⟩
    exact ⟨honce, hout.trans (inFlight_perm_pending honce).length_eq.symm, hle⟩
  · rintro ⟨honce, hout, hle⟩
    exact ⟨honce, hout.trans (inFlight_perm_pending honce).length_eq, hle⟩

theorem cmdAsync_cases (hlt : ctx.outstanding + 1 < 2 ^ 32) (call : Nat) (s : Submission) :
    (ctx.takes s ∧ cmdAsync ctx call s =
      ({ ctx with outstanding := ctx.outstanding + 1, inFlight := call :: ctx.inFlight }, true)) ∨
    (¬ ctx.takes s ∧ cmdAsync ctx call s = (ctx, false)) := by
  have hsucc : (ctx.outstanding + 1) % 2 ^ 32 = ctx.outstanding + 1 := Nat.mod_eq_of_lt hlt
  have hpred : (ctx.outstanding + 1 + 2 ^ 32 - 1) % 2 ^ 32 = ctx.outstanding := by omega
  rw [cmdAsync, SpdkCtx.takes]
  split_ifs with hfull hwrap htaken
  · exact Or.inr ⟨fun h => by omega, rfl⟩
  · exact Or.inr ⟨fun h => by simp [h.2.1] at hwrap, rfl⟩
  · refine Or.inl ⟨⟨by omega, by simpa using hwrap, htaken⟩, ?_⟩
    dsimp only
    rw [hsucc]
  · refine Or.inr ⟨fun h => htaken h.2.2, ?_⟩
    dsimp only
    rw [hsucc, hpred]

theorem inv_taken (h : ctx.Inv) (hle : ctx.outstanding + 1 ≤ ctx.depth) :
    SpdkCtx.Inv { ctx with
      outstanding := ctx.outstanding + 1
      inFlight := ctx.results.length :: ctx.inFlight
      results := ctx.results ++ [true] } := by
  refine ⟨fun call => ?_, by simp [h.outstanding_eq], hle⟩
  have hc := h.once call
  rw [List.count_cons]
  rcases Nat.lt_trichotomy call ctx.results.length with hlt | rfl | hgt
  · rw [List.getElem?_append_left hlt, ← hc]
    simp [hlt.ne']
  · simp at hc ⊢
    omega
  · simp only [List.getElem?_eq_none hgt.le] at hc
    rw [List.getElem?_eq_none (by simp; omega)]
    simpa [hgt.ne] using hc

theorem inv_refused (h : ctx.Inv) : SpdkCtx.Inv { ctx with results := ctx.results ++ [false] } := by
  refine ⟨fun call => ?_, h.outstanding_eq, h.le_depth⟩
  have hc := h.once call
  rw [hc]
  rcases Nat.lt_trichotomy call ctx.results.length with hlt | rfl | hgt
  · rw [List.getElem?_append_left hlt]
  · simp
  · rw [List.getElem?_eq_none hgt.le, List.getElem?_eq_none (by simp; omega)]

theorem cmdAsyncCb_inv (h : ctx.Inv) (hlt : ctx.depth + 1 < 2 ^ 32) (call : Nat) :
    (cmdAsyncCb ctx call).Inv := by
  rw [cmdAsyncCb]
  split_ifs with hmem
  · have hpos := List.length_pos_of_mem hmem
    have hout := h.outstanding_eq
    have hle := h.le_depth
    have hpred : (ctx.outstanding + 2 ^ 32 - 1) % 2 ^ 32 = ctx.outstanding - 1 := by omega
    rw [hpred]
    refine ⟨fun c => ?_, ?_, ?_⟩
    · have hc := h.once c
      have hcount := List.count_pos_iff.mpr hmem
      dsimp only
      rw [List.count_cons, List.count_erase, ← hc]
      by_cases hcc : call = c
      · subst hcc
        simp
        omega
      · simp [hcc]
    · dsimp only
      rw [List.length_erase_of_mem hmem, hout]
    · dsimp only
      omega
  · exact h

theorem record_cmdAsync_inv (h : ctx.Inv) (hlt : ctx.depth + 1 < 2 ^ 32) (s : Submission) :
    (record (cmdAsync ctx ctx.results.length s)).Inv := by
  have hle := h.le_depth
  have hsucc : ctx.outstanding + 1 < 2 ^ 32 := by omega
  rcases cmdAsync_cases hsucc ctx.results.length s with ⟨htakes, heq⟩ | ⟨-, heq⟩
  · rw [heq]
    refine inv_taken h ?_
    have hroom := htakes.1
    rwa [Nat.mod_eq_of_lt hsucc] at hroom
  · rw [heq]
    exact inv_refused h

theorem record_spdkAsync_inv (h : ctx.Inv) (hlt : ctx.depth + 1 < 2 ^ 32) (s : Submission)
    (req : AsyncReq) : (record (spdkAsync ctx ctx.results.length s req)).Inv := by
  cases req with
  | pass padc =>
    rw [spdkAsync]
    split_ifs
    · exact inv_refused h
    · exact record_cmdAsync_inv h hlt s
  | _ => exact record_cmdAsync_inv h hlt s

theorem nocdEraseLoop_spec (call : Nat) (subs : List Submission) (hle : ctx.outstanding ≤ ctx.depth)
    (hlt : ctx.depth + 1 < 2 ^ 32) :
    ∃ k, (nocdEraseLoop ctx call subs).1.inFlight = List.replicate k call ++ ctx.inFlight ∧
      (nocdEraseLoop ctx call subs).1.invoked = ctx.invoked ∧
      (nocdEraseLoop ctx call subs).1.results = ctx.results ∧
      ((nocdEraseLoop ctx call subs).2 = true → k = subs.length) := by
  induction subs generalizing ctx with
  | nil => exact ⟨0, rfl, rfl, rfl, fun _ => rfl⟩
  | cons s ss ih =>
    have hsucc : ctx.outstanding + 1 < 2 ^ 32 := by omega
    rw [nocdEraseLoop, cmdAsyncEwrc]
    rcases cmdAsync_cases hsucc call s with ⟨htakes, heq⟩ | ⟨-, heq⟩
    · rw [heq]
      have hroom := htakes.1
      rw [Nat.mod_eq_of_lt hsucc] at hroom
      obtain ⟨k, hfl, hinv, hres, hk⟩ := @ih { ctx with
        outstanding := ctx.outstanding + 1, inFlight := call :: ctx.inFlight } hroom hlt
      refine ⟨k + 1, ?_, hinv, hres, fun hok => by rw [hk hok, List.length_cons]⟩
      rw [List.replicate_succ', List.append_assoc]
      exact hfl
    · rw [heq]
      exact ⟨0, rfl, rfl, rfl, fun hok => by cases hok⟩

theorem SpdkCtx.ExactlyOnce.last {r : SpdkCtx × Bool} (h : (record r).ExactlyOnce) :
    r.1.invoked.count r.1.results.length + r.1.inFlight.count r.1.results.length =
      if r.2 = true then 1 else 0 := by
  have hlast : (record r).results[r.1.results.length]? = some r.2 := by simp [record]
  have honce := h.once r.1.results.length
  simp only [hlast, Option.some.injEq] at honce
  exact honce

theorem not_mem_new (h : ctx.Inv) : ctx.inFlight.count ctx.results.length = 0 ∧
    ctx.invoked.count ctx.results.length = 0 := by
  have hnew := h.once ctx.results.length
  simp only [List.getElem?_eq_none (le_refl _), reduceCtorEq, if_false] at hnew
  omega

theorem not_exactlyOnce_of_splits (h : ctx.Inv) (hlt : ctx.depth + 1 < 2 ^ 32) {s s' : Submission}
    {ss : List Submission} (htakes : ctx.takes s) :
    ¬ (record (nocdEraseLoop ctx ctx.results.length (s :: s' :: ss))).ExactlyOnce := by
  have hle := h.le_depth
  have hsucc : ctx.outstanding + 1 < 2 ^ 32 := by omega
  obtain ⟨hfl₀, hinv₀⟩ := not_mem_new h
  obtain ⟨-, heq⟩ | ⟨hno, -⟩ := cmdAsync_cases hsucc ctx.results.length s
  · have hroom := htakes.1
    rw [Nat.mod_eq_of_lt hsucc] at hroom
    obtain ⟨k, hfl, hinv, hres, hk⟩ := @nocdEraseLoop_spec { ctx with
      outstanding := ctx.outstanding + 1, inFlight := ctx.results.length :: ctx.inFlight }
      ctx.results.length (s' :: ss) hroom hlt
    rw [nocdEraseLoop, cmdAsyncEwrc, heq]
    intro honce
    -- one command of the call is in flight already, so there may be no other
    have hlast := honce.last
    rw [if_pos rfl, hres, hinv, hfl] at hlast
    simp only [List.count_append, List.count_replicate_self, List.count_cons_self, hfl₀, hinv₀] at hlast
    split_ifs at hlast with hok
    have hlen := hk hok
    rw [List.length_cons] at hlen
    omega
  · exact absurd htakes hno

theorem nocdErase_exactlyOnce_iff (h : ctx.Inv) (hlt : ctx.depth + 1 < 2 ^ 32) (naddrs : Nat)
    (subs : Nat → Submission) :
    (record (nocdEraseLoop ctx ctx.results.length ((List.range naddrs).map subs))).ExactlyOnce ↔
      ¬ (naddrs = 0 ∨ (2 ≤ naddrs ∧ ctx.takes (subs 0))) := by
  have hle := h.le_depth
  have hsucc : ctx.outstanding + 1 < 2 ^ 32 := by omega
  rcases naddrs with _ | _ | k
  · -- nothing to erase: the call returns 0 and nothing will run its callback
    refine iff_of_false (fun honce => ?_) (by simp)
    have hlast := honce.last
    obtain ⟨hfl, hinv⟩ := not_mem_new h
    simp [nocdEraseLoop, hfl, hinv] at hlast
  · refine iff_of_true ?_ (by simp)
    have hone : nocdEraseLoop ctx ctx.results.length ((List.range 1).map subs) =
        cmdAsync ctx ctx.results.length (subs 0) := by
      rw [List.range_one, List.map_cons, List.map_nil, nocdEraseLoop, cmdAsyncEwrc]
      rcases cmdAsync_cases hsucc ctx.results.length (subs 0) with ⟨-, heq⟩ | ⟨-, heq⟩ <;> rw [heq] <;> rfl
    rw [hone]
    exact exactlyOnce_iff_inv.mpr (record_cmdAsync_inv h hlt _)
  · have hlist : (List.range (k + 1 + 1)).map subs =
        subs 0 :: subs 1 :: (List.range k).map fun i => subs (i + 2) := by
      simp [List.range_succ_eq_map, Function.comp_def]
    rw [hlist]
    by_cases htakes : ctx.takes (subs 0)
    · refine iff_of_false (not_exactlyOnce_of_splits h hlt htakes) ?_
      exact fun hno => hno (Or.inr ⟨by omega, htakes⟩)
    · refine iff_of_true ?_ (by simp [htakes])
      obtain ⟨hyes, -⟩ | ⟨-, heq⟩ := cmdAsync_cases hsucc ctx.results.length (subs 0)
      · exact absurd hyes htakes
      · rw [nocdEraseLoop, cmdAsyncEwrc, heq]
        exact exactlyOnce_iff_inv.mpr (inv_refused h)

theorem step_exactlyOnce_iff {be : SpdkBe} (h : ctx.Inv) (hlt : ctx.depth + 1 < 2 ^ 32) (l : SpdkLabel) :
    (ctx.step be l).ExactlyOnce ↔ ¬ Splits be ctx l := by
  have hspdk : ∀ s req, (record (spdkAsync ctx ctx.results.length s req)).ExactlyOnce :=
    fun s req => exactlyOnce_iff_inv.mpr (record_spdkAsync_inv h hlt s req)
  have hrefused : (record (ctx, false)).ExactlyOnce := exactlyOnce_iff_inv.mpr (inv_refused h)
  cases l with
  | complete call =>
    exact iff_of_true (exactlyOnce_iff_inv.mpr (cmdAsyncCb_inv h hlt call)) not_false
  | call req subs =>
    cases be with
    | spdk =>
      refine iff_of_true (hspdk _ req) ?_
      cases req with
      | vectorErase hasMeta naddrs => cases hasMeta <;> exact not_false
      | _ => exact not_false
    | nocd =>
      cases req with
      | vectorErase hasMeta naddrs =>
        cases hasMeta with
        | true => exact iff_of_true hrefused not_false
        | false => exact nocdErase_exactlyOnce_iff h hlt naddrs subs
      | vectorWrite addrs =>
        refine iff_of_true ?_ not_false
        rw [SpdkCtx.step, asyncCall, nocdAsync]
        split_ifs
        · exact hspdk _ _
        · exact hrefused
      | vectorRead addrs =>
        refine iff_of_true ?_ not_false
        rw [SpdkCtx.step, asyncCall, nocdAsync]
        split_ifs
        · exact hspdk _ _
        · exact hrefused
      | _ => exact iff_of_true (hspdk _ _) not_false

/-! The depth stays. -/

theorem cmdAsync_depth (call : Nat) (s : Submission) : (cmdAsync ctx call s).1.depth = ctx.depth := by
  simp only [cmdAsync, apply_ite Prod.fst, apply_ite SpdkCtx.depth, ite_self]

theorem nocdEraseLoop_depth (call : Nat) (subs : List Submission) :
    (nocdEraseLoop ctx call subs).1.depth = ctx.depth := by
  induction subs generalizing ctx with
  | nil => rfl
  | cons s ss ih =>
    have hone : (cmdAsyncEwrc ctx call s).1.depth = ctx.depth := cmdAsync_depth call s
    rw [nocdEraseLoop]
    split_ifs
    · exact ih.trans hone
    · exact hone

theorem spdkAsync_depth (call : Nat) (s : Submission) (req : AsyncReq) :
    (spdkAsync ctx call s req).1.depth = ctx.depth := by
  cases req with
  | pass padc =>
    rw [spdkAsync]
    split_ifs
    · rfl
    · exact cmdAsync_depth call s
  | _ => exact cmdAsync_depth call s

theorem nocdAsync_depth (call : Nat) (subs : Nat → Submission) (req : AsyncReq) :
    (nocdAsync ctx call subs req).1.depth = ctx.depth := by
  cases req with
  | vectorErase hasMeta naddrs =>
    rw [nocdAsync]
    split_ifs
    · rfl
    · exact nocdEraseLoop_depth _ _
  | vectorWrite addrs =>
    rw [nocdAsync]
    split_ifs
    · exact spdkAsync_depth _ _ _
    · rfl
  | vectorRead addrs =>
    rw [nocdAsync]
    split_ifs
    · exact spdkAsync_depth _ _ _
    · rfl
  | _ => exact spdkAsync_depth _ _ _

theorem step_depth (be : SpdkBe) (l : SpdkLabel) : (ctx.step be l).depth = ctx.depth := by
  cases l with
  | complete call =>
    rw [SpdkCtx.step, cmdAsyncCb]
    split_ifs <;> rfl
  | call req subs =>
    cases be with
    | spdk => exact spdkAsync_depth _ _ _
    | nocd => exact nocdAsync_depth _ _ _

end

end LightNvm
