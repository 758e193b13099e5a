import LightNvm.RetsLost
import LightNvm.SpdkAsync

/-! `vblk_io_async` on a context of the SPDK backend: the queue that the virtual block fills and empties, and
what it takes for the answers of a backend. -/

namespace LightNvm

/-- `stripes` tells for each command submitted on the context which stripe of its call it was made for. -/
structure VblkSpdk where
  call : AsyncCall
  st : AsyncSt
  ctx : SpdkCtx
  stripes : List Nat

def VblkSpdk.init (call : AsyncCall) (objs : List Nat) : VblkSpdk :=
  ⟨call, (VblkAsync.init call objs).st, nvmBeSpdkAsyncInit call.depth, []⟩

/-- What SPDK does when it is entered: the fate of a submission, the completions it finds, each with its
success, and whether processing them fails. It sets no `errno`; `stale` says that it has been `EAGAIN` before. -/
structure SpdkTurn where
  sub : Submission
  stale : Bool
  completions : List (Nat × Bool)
  fails : Bool

inductive VblkSpdkLabel where
  | call (pad : Bool) (count offset : Nat)
  | turn (t : SpdkTurn)

def VblkSpdk.goto (s : VblkSpdk) (pc : AsyncPc) : VblkSpdk := { s with st := { s.st with pc := pc } }

/-- `cmd_async_cb` with the callback of the virtual block. -/
def VblkSpdk.complete (s : VblkSpdk) (c : Nat × Bool) : VblkSpdk :=
  { s with
    ctx := cmdAsyncCb s.ctx c.1
    st := s.st.callback (s.stripes.getD c.1 0, c.2) }

/-- `spdk_nvme_qpair_process_completions`, with the number of completions that it returns. -/
def VblkSpdk.processCompletions (s : VblkSpdk) : List (Nat × Bool) → VblkSpdk × Nat
  | [] => (s, 0)
  | c :: cs =>
    if c.1 ∈ s.ctx.inFlight then
      let r := (s.complete c).processCompletions cs
      (r.1, r.2 + 1)
    else s.processCompletions cs

/-- `errno` is `EAGAIN` after a call that has failed. -/
def SpdkCtx.again (ctx : SpdkCtx) (t : SpdkTurn) : Bool :=
  if (ctx.outstanding + 1) % 2 ^ 32 > ctx.depth then true else t.sub.wrap && t.stale

def VblkSpdk.submit (s : VblkSpdk) (stripe ret : Nat) (t : SpdkTurn) : VblkSpdk :=
  let r := cmdAsyncEwrc s.ctx s.ctx.results.length t.sub
  let s' := { s with ctx := record r, stripes := s.stripes ++ [stripe] }
  if r.2 then
    { s' with st := { s.st with
        outstanding := ⟨stripe, ret⟩ :: s.st.outstanding
        submitted := s.st.submitted ++ [stripe]
        pc := if (stripe + 1) % s.call.vblk.nblks = 0 then .wait stripe else .stripe (stripe + 1) } }
  else if s.ctx.again t then s'.goto (.reap stripe (some ret) false)
  else s'.goto (.returned false)

/-- A poke of `_vblk_async_greedy_reap`. -/
def VblkSpdk.reap (s : VblkSpdk) (stripe : Nat) (held : Option Nat) (reaped : Bool) (t : SpdkTurn) : VblkSpdk :=
  if t.fails then s.goto (.returned false)
  else
    let r := s.processCompletions t.completions
    if r.2 ≠ 0 then r.1.goto (.reap stripe held true)
    else if reaped then
      r.1.goto (match held with | none => .take stripe | some ret => .submit stripe ret)
    else r.1

/-- A round of `nvm_be_spdk_async_wait`. -/
def VblkSpdk.wait (s : VblkSpdk) (next : AsyncPc) (t : SpdkTurn) : VblkSpdk :=
  if s.ctx.outstanding = 0 then s.goto next
  else if t.fails then s.goto (.returned false)
  else
    let r := s.processCompletions t.completions
    if r.1.ctx.outstanding = 0 then r.1.goto next else r.1

def VblkSpdk.step (s : VblkSpdk) : VblkSpdkLabel → VblkSpdk
  | .call pad count offset =>
    let v := (VblkAsync.mk s.call s.st).step (.call pad count offset)
    { s with call := v.call, st := v.st }
  | .turn t =>
    match s.st.pc with
    | .submit stripe ret => s.submit stripe ret t
    | .reap stripe held reaped => s.reap stripe held reaped t
    | .wait stripe => s.wait (.stripe (stripe + 1)) t
    | .drain => s.wait (.returned true) t
    | _ => { s with st := s.call.step s.st ⟨[], false, false⟩ }

/-! The two sides of the queue. -/

/-- What is in flight on the context is what the virtual block takes for outstanding. -/
structure VblkSpdk.Linked (s : VblkSpdk) : Prop where
  ctx : s.ctx.Inv
  depth : s.ctx.depth = s.call.depth
  calls : s.stripes.length = s.ctx.results.length
  inFlight : (s.ctx.inFlight.map fun call => s.stripes.getD call 0).Perm (s.st.outstanding.map AsyncCmd.stripe)

section

variable {s : VblkSpdk}

theorem VblkSpdk.Linked.outstanding_eq (h : s.Linked) : s.ctx.outstanding = s.st.outstanding.length := by
  rw [h.ctx.outstanding_eq]
  simpa using h.inFlight.length_eq

theorem SpdkCtx.Inv.lt_of_mem {ctx : SpdkCtx} (h : ctx.Inv) {call : Nat} (hmem : call ∈ ctx.inFlight) :
    call < ctx.results.length := by
  have hpos := List.count_pos_iff.mpr hmem
  have hc := h.once call
  by_contra hge
  rw [List.getElem?_eq_none (not_lt.mp hge)] at hc
  simp only [reduceCtorEq, if_false] at hc
  omega

theorem callback_find {st : AsyncSt} {stripe : Nat} (hmem : stripe ∈ st.outstanding.map AsyncCmd.stripe)
    (ok : Bool) : ∃ c ∈ st.outstanding, c.stripe = stripe ∧
      (st.callback (stripe, ok)).outstanding = st.outstanding.erase c := by
  rw [AsyncSt.callback]
  cases hf : st.outstanding.find? (fun c => c.stripe = (stripe, ok).1) with
  | none =>
    obtain ⟨c, hc, hstripe⟩ := List.mem_map.mp hmem
    have hno := List.find?_eq_none.mp hf c hc
    simp [hstripe] at hno
  | some c => exact ⟨c, List.mem_of_find?_eq_some hf, by simpa using List.find?_some hf, rfl⟩

theorem VblkSpdk.Linked.complete (h : s.Linked) (hlt : s.call.depth + 1 < 2 ^ 32) {c : Nat × Bool}
    (hmem : c.1 ∈ s.ctx.inFlight) : (s.complete c).Linked ∧
      (s.complete c).st.outstanding.length + 1 = s.st.outstanding.length := by
  have hstripe : s.stripes.getD c.1 0 ∈ s.st.outstanding.map AsyncCmd.stripe :=
    h.inFlight.mem_iff.mp (List.mem_map_of_mem hmem)
  obtain ⟨d, hd, hds, hout⟩ := callback_find hstripe c.2
  have hctx : (cmdAsyncCb s.ctx c.1).inFlight = s.ctx.inFlight.erase c.1 := by
    rw [cmdAsyncCb, if_pos hmem]
  have hres : (cmdAsyncCb s.ctx c.1).results = s.ctx.results := by
    rw [cmdAsyncCb, if_pos hmem]
  have hdep : (cmdAsyncCb s.ctx c.1).depth = s.ctx.depth := by
    rw [cmdAsyncCb, if_pos hmem]
  refine ⟨⟨cmdAsyncCb_inv h.ctx (by rw [h.depth]; exact hlt) c.1, hdep.trans h.depth,
    h.calls.trans (congrArg List.length hres).symm, ?_⟩, ?_⟩
  · have hleft := (List.perm_cons_erase hmem).map fun call => s.stripes.getD call 0
    have hright := (List.perm_cons_erase hd).map AsyncCmd.stripe
    rw [List.map_cons] at hleft hright
    rw [hds] at hright
    rw [VblkSpdk.complete]
    dsimp only
    rw [hctx, hout]
    exact ((hleft.symm.trans h.inFlight).trans hright).cons_inv
  · have hpos := List.length_pos_of_mem hd
    rw [VblkSpdk.complete]
    dsimp only
    rw [hout, List.length_erase_of_mem hd]
    omega

/-- Completions reach the virtual block, and as many as SPDK says. -/
theorem VblkSpdk.Linked.processCompletions (h : s.Linked) (hlt : s.call.depth + 1 < 2 ^ 32)
    (cs : List (Nat × Bool)) : (s.processCompletions cs).1.Linked ∧
      (s.processCompletions cs).1.call = s.call ∧
      (s.processCompletions cs).2 + (s.processCompletions cs).1.st.outstanding.length =
        s.st.outstanding.length ∧
      ∃ es : List (Nat × Bool), (s.processCompletions cs).1.st = es.foldl AsyncSt.callback s.st := by
  induction cs generalizing s with
  | nil => exact ⟨h, rfl, Nat.zero_add _, [], rfl⟩
  | cons c cs ih =>
    rw [VblkSpdk.processCompletions]
    split_ifs with hmem
    · obtain ⟨hnext, hlen⟩ := h.complete hlt hmem
      obtain ⟨hlink, hcall, hcount, es, hst⟩ := ih hnext hlt
      refine ⟨hlink, hcall, ?_, (s.stripes.getD c.1 0, c.2) :: es, hst⟩
      dsimp only
      omega
    · exact ih h hlt

/-- A turn of SPDK is an event of the backend, which says `EAGAIN` only when it was left over. -/
def VblkSpdk.Refines (s s' : VblkSpdk) (t : SpdkTurn) : Prop :=
  ∃ e : AsyncEvent, s'.call = s.call ∧ s'.st = s.call.step s.st e ∧ s'.Linked ∧ (e.again = true → t.stale = true)

theorem VblkSpdk.Linked.goto (h : s.Linked) (pc : AsyncPc) : (s.goto pc).Linked :=
  ⟨h.ctx, h.depth, h.calls, h.inFlight⟩

theorem VblkSpdk.Linked.reap (h : s.Linked) (hlt : s.call.depth + 1 < 2 ^ 32) {stripe : Nat} {held : Option Nat}
    {reaped : Bool} (hpc : s.st.pc = .reap stripe held reaped) (t : SpdkTurn) :
    s.Refines (s.reap stripe held reaped t) t := by
  unfold VblkSpdk.reap
  by_cases hf : t.fails
  · rw [if_pos hf]
    refine ⟨⟨[], false, true⟩, rfl, ?_, h.goto _, by simp⟩
    rw [AsyncCall.step, hpc]
    rfl
  · rw [if_neg hf]
    obtain ⟨hlink, hcall, hcount, es, hst⟩ := h.processCompletions hlt t.completions
    refine ⟨⟨es, false, false⟩, ?_, ?_, ?_, by simp⟩
    · dsimp only
      split_ifs <;> exact hcall
    · rw [AsyncCall.step, hpc]
      dsimp only
      rw [if_neg Bool.false_ne_true]
      have hdel : s.st.deliver ⟨es, false, false⟩ = (s.processCompletions t.completions).1.st := hst.symm
      have hless : (s.processCompletions t.completions).1.st.outstanding.length < s.st.outstanding.length ↔
          (s.processCompletions t.completions).2 ≠ 0 := by omega
      rw [hdel]
      simp only [hless]
      split_ifs <;> rfl
    · dsimp only
      split_ifs
      · exact hlink.goto _
      · exact hlink.goto _
      · exact hlink

theorem VblkSpdk.Linked.wait (h : s.Linked) (hlt : s.call.depth + 1 < 2 ^ 32) {next : AsyncPc}
    (hstep : ∀ e, s.call.step s.st e =
      if e.fails then { s.st with pc := .returned false }
      else if (s.st.deliver e).outstanding = [] then { s.st.deliver e with pc := next }
      else s.st.deliver e) (t : SpdkTurn) : s.Refines (s.wait next t) t := by
  rw [VblkSpdk.wait]
  by_cases hzero : s.ctx.outstanding = 0
  · have hempty : s.st.outstanding = [] := List.eq_nil_of_length_eq_zero (h.outstanding_eq ▸ hzero)
    rw [if_pos hzero]
    have hidle : s.st.deliver ⟨[], false, false⟩ = s.st := rfl
    refine ⟨⟨[], false, false⟩, rfl, ?_, h.goto _, by simp⟩
    rw [hstep, if_neg Bool.false_ne_true, hidle, if_pos hempty]
    rfl
  · rw [if_neg hzero]
    by_cases hf : t.fails
    · rw [if_pos hf]
      refine ⟨⟨[], false, true⟩, rfl, ?_, h.goto _, by simp⟩
      rw [hstep, if_pos rfl]
      rfl
    · rw [if_neg hf]
      obtain ⟨hlink, hcall, -, es, hst⟩ := h.processCompletions hlt t.completions
      have hdel : s.st.deliver ⟨es, false, false⟩ = (s.processCompletions t.completions).1.st := hst.symm
      have hdone : (s.processCompletions t.completions).1.ctx.outstanding = 0 ↔
          (s.processCompletions t.completions).1.st.outstanding = [] := by
        rw [hlink.outstanding_eq, List.length_eq_zero_iff]
      refine ⟨⟨es, false, false⟩, ?_, ?_, ?_, by simp⟩
      · dsimp only
        split_ifs <;> exact hcall
      · rw [hstep, if_neg Bool.false_ne_true, hdel]
        dsimp only
        simp only [hdone]
        split_ifs <;> rfl
      · dsimp only
        split_ifs
        · exact hlink.goto _
        · exact hlink

theorem VblkSpdk.Linked.submit (h : s.Linked) (hlt : s.call.depth + 1 < 2 ^ 32) {stripe ret : Nat}
    (hpc : s.st.pc = .submit stripe ret) (hroom : s.ctx.outstanding + 1 ≤ s.ctx.depth) (t : SpdkTurn) :
    s.Refines (s.submit stripe ret t) t := by
  have hdepth := h.depth
  have hsucc : s.ctx.outstanding + 1 < 2 ^ 32 := by omega
  have hlast : ∀ b, (s.stripes ++ [stripe]).length = (s.ctx.results ++ [b]).length := by
    intro b
    rw [List.length_append, List.length_append, h.calls]
    rfl
  have hold : (s.ctx.inFlight.map fun call => (s.stripes ++ [stripe]).getD call 0) =
      s.ctx.inFlight.map fun call => s.stripes.getD call 0 := by
    refine List.map_congr_left fun call hcall => ?_
    have hcall' := h.ctx.lt_of_mem hcall
    rw [← h.calls] at hcall'
    simp [List.getD_eq_getElem?_getD, List.getElem?_append_left hcall']
  rw [VblkSpdk.submit, cmdAsyncEwrc]
  obtain ⟨htakes, heq⟩ | ⟨hno, heq⟩ := cmdAsync_cases hsucc s.ctx.results.length t.sub
  · rw [heq]
    refine ⟨⟨[], false, false⟩, rfl, ?_, ⟨inv_taken h.ctx hroom, h.depth, hlast true, ?_⟩, by simp⟩
    · rw [AsyncCall.step, hpc]
      rfl
    · simp only [record, if_true, List.map_cons]
      rw [hold, ← h.calls]
      simpa using h.inFlight
  · have hagain : s.ctx.again t = (t.sub.wrap && t.stale) := by
      rw [SpdkCtx.again, Nat.mod_eq_of_lt hsucc, if_neg (by omega)]
    have hlink : VblkSpdk.Linked { s with ctx := record (s.ctx, false), stripes := s.stripes ++ [stripe] } :=
      ⟨inv_refused h.ctx, h.depth, hlast false, hold ▸ h.inFlight⟩
    rw [heq]
    simp only [Bool.false_eq_true, if_false]
    rw [hagain]
    by_cases ha : (t.sub.wrap && t.stale) = true
    · rw [if_pos ha]
      refine ⟨⟨[], true, false⟩, rfl, ?_, hlink.goto _, fun _ => (Bool.and_eq_true _ _ ▸ ha).2⟩
      rw [AsyncCall.step, hpc]
      rfl
    · rw [if_neg ha]
      refine ⟨⟨[], false, true⟩, rfl, ?_, hlink.goto _, by simp⟩
      rw [AsyncCall.step, hpc]
      rfl

/-- The stack of structures leaves room in the queue. -/
theorem VblkSpdk.Linked.room {objs lost : List Nat} (h : s.Linked) (hdepth : s.call.depth = objs.length)
    (hpool : s.st.Stack objs lost) {stripe ret : Nat} (hpc : s.st.pc = .submit stripe ret) :
    s.ctx.outstanding + 1 < s.ctx.depth := by
  have hsp := hpool.retsp_eq
  have hspare := hpool.spare
  have hheld : s.st.pc.held.length = 1 := by rw [hpc]; rfl
  rw [h.outstanding_eq, h.depth, hdepth]
  omega

theorem VblkSpdk.Linked.turn {objs lost : List Nat} (h : s.Linked) (hlt : s.call.depth + 1 < 2 ^ 32)
    (hdepth : s.call.depth = objs.length) (hpool : s.st.Stack objs lost) (t : SpdkTurn) :
    s.Refines (s.step (.turn t)) t := by
  have hidle : s.Refines { s with st := s.call.step s.st ⟨[], false, false⟩ } t ∨
      (s.call.step s.st ⟨[], false, false⟩).outstanding ≠ s.st.outstanding := by
    by_cases hout : (s.call.step s.st ⟨[], false, false⟩).outstanding = s.st.outstanding
    · exact .inl ⟨⟨[], false, false⟩, rfl, rfl, ⟨h.ctx, h.depth, h.calls, hout ▸ h.inFlight⟩, by simp⟩
    · exact .inr hout
  cases hpc : s.st.pc with
  | stripe j =>
    simp only [VblkSpdk.step, hpc]
    refine hidle.resolve_right fun hne => hne ?_
    rw [AsyncCall.step, hpc]
    dsimp only
    split_ifs <;> rfl
  | take j =>
    simp only [VblkSpdk.step, hpc]
    refine hidle.resolve_right fun hne => hne ?_
    rw [AsyncCall.step, hpc]
  | returned ok =>
    simp only [VblkSpdk.step, hpc]
    refine hidle.resolve_right fun hne => hne ?_
    rw [AsyncCall.step, hpc]
  | submit j ret =>
    simp only [VblkSpdk.step, hpc]
    exact h.submit hlt hpc (h.room hdepth hpool hpc).le t
  | reap j held reaped =>
    simp only [VblkSpdk.step, hpc]
    exact h.reap hlt hpc t
  | wait j =>
    simp only [VblkSpdk.step, hpc]
    refine h.wait hlt (fun e => ?_) t
    rw [AsyncCall.step, hpc]
  | drain =>
    simp only [VblkSpdk.step, hpc]
    refine h.wait hlt (fun e => ?_) t
    rw [AsyncCall.step, hpc]

end

/-! Runs. -/

/-- The virtual block takes what SPDK does for an event of a backend. -/
def VblkSpdkLabel.Seen : VblkSpdkLabel → VblkLabel → Prop
  | .call pad count offset, l => l = .call pad count offset
  | .turn t, l => ∃ e : AsyncEvent, l = .event (.backend e) ∧ (e.again = true → t.stale = true)

structure VblkSpdk.Rel (objs : List Nat) (s : VblkSpdk) (t : VblkHist) : Prop where
  vblk : t.vblk = ⟨s.call, s.st⟩
  depth : s.call.depth = objs.length
  linked : s.Linked
  pool : ∃ lost, lost.length = t.lost ∧ s.st.Pool objs lost

theorem VblkSpdk.Rel.step {objs : List Nat} (hlt : objs.length + 1 < 2 ^ 32) {s : VblkSpdk} {t : VblkHist}
    (h : s.Rel objs t) (l : VblkSpdkLabel) : ∃ l', l.Seen l' ∧ (s.step l).Rel objs (t.step l') := by
  obtain ⟨hvblk, hdepth, hlink, lost, hlost, hpool⟩ := h
  cases l with
  | call pad count offset =>
    refine ⟨.call pad count offset, rfl, ?_⟩
    rw [VblkHist.step, hvblk, VblkSpdk.step, VblkAsync.step]
    cases hpc : s.st.pc with
    | returned ok =>
      refine ⟨rfl, hdepth, ⟨hlink.ctx, hlink.depth, hlink.calls, hlink.inFlight⟩, lost, hlost, ?_⟩
      have hholds := hpool.holds
      rw [AsyncSt.attached, hpc] at hholds
      exact ⟨⟨hholds, hpool.spare⟩, trivial⟩
    | _ => exact ⟨rfl, hdepth, hlink, lost, hlost, hpool⟩
  | turn u =>
    obtain ⟨e, hcall, hst, hnext, hagain⟩ := hlink.turn (by omega) hdepth hpool.toStack u
    obtain ⟨lost', hlost', hpool'⟩ := AsyncCall.step_pool hdepth (by omega) hpool e
    refine ⟨.event (.backend e), ⟨e, rfl, hagain⟩, ?_, hcall ▸ hdepth, hnext, lost', ?_, hst ▸ hpool'⟩
    · simp only [VblkHist.step, hvblk, AsyncCall.stepE, hcall, hst]
    · simp only [VblkHist.step, hvblk, hlost', hlost]

/-- There is room in the queue for every submission and a structure for every command. -/
structure VblkSpdk.Sound (objs : List Nat) (lost : Nat) (s : VblkSpdk) : Prop where
  room : ∀ stripe ret, s.st.pc = .submit stripe ret → s.ctx.outstanding + 1 < s.ctx.depth
  take : ∀ stripe, s.st.pc = .take stripe → ∃ ret ∈ objs, s.st.rets s.st.retsp = some ret
  retsp : s.st.retsp = s.st.attached.length + lost ∧ s.st.retsp < objs.length
  attached : s.st.attached.Nodup
  outstanding : s.ctx.outstanding = s.st.outstanding.length
  once : s.ctx.ExactlyOnce
  spins : ∀ stripe, s.st.pc = .reap stripe none false → s.st.outstanding.length + lost + 1 = objs.length

theorem VblkSpdk.Rel.sound {objs : List Nat} (hnd : objs.Nodup) {s : VblkSpdk} {t : VblkHist}
    (h : s.Rel objs t) : s.Sound objs t.lost := by
  obtain ⟨-, hdepth, hlink, lost, hlost, hpool⟩ := h
  have hsp := hpool.retsp_eq
  refine ⟨fun stripe ret hpc => hlink.room hdepth hpool.toStack hpc, fun stripe hpc => ?_, ⟨?_, hpool.spare⟩, ?_,
    hlink.outstanding_eq, exactlyOnce_iff_inv.mpr hlink.ctx, fun stripe hpc => ?_⟩
  · obtain ⟨ret, hret, hholds⟩ := hpool.holds.take hpool.spare
    have hmem : some ret ∈ objs.map some := hholds.perm.mem_iff.mp (by simp)
    exact ⟨ret, by simpa using hmem, hret⟩
  · rw [hsp, AsyncSt.attached_length, hlost]
  · have hall := (hpool.holds.nodup hnd).of_append_right
    exact (List.Nodup.of_map _ hall).of_append_left
  · have hroom := hpool.room
    rw [hpc] at hroom
    have hfull : s.st.retsp + 1 = objs.length := hroom
    have hheld : s.st.pc.held.length = 0 := by rw [hpc]; rfl
    omega

/-- Over every run of calls on SPDK, whatever is refused or fails, what SPDK does is an event of a backend for
the virtual block, the queue is never full at a submission, each command in flight has a return structure of its
own and one callback to come, and the reap loop is entered with nothing outstanding only when all structures but
one have been lost. -/
theorem vblk_async_on_spdk {call : AsyncCall} {objs : List Nat} (hnd : objs.Nodup)
    (hdepth : call.depth = objs.length) (hpos : 1 ≤ call.depth) (hlt : call.depth + 1 < 2 ^ 32)
    (labels : List VblkSpdkLabel) :
    ∃ events, List.Forall₂ VblkSpdkLabel.Seen labels events ∧
      (Runs.run VblkHist.step (VblkHist.init call objs) events).vblk =
        ⟨(Runs.run VblkSpdk.step (VblkSpdk.init call objs) labels).call,
          (Runs.run VblkSpdk.step (VblkSpdk.init call objs) labels).st⟩ ∧
      (Runs.run VblkSpdk.step (VblkSpdk.init call objs) labels).Sound objs
        (Runs.run VblkHist.step (VblkHist.init call objs) events).lost := by
  have hctx : (nvmBeSpdkAsyncInit call.depth).Inv := ⟨fun _ => by simp [nvmBeSpdkAsyncInit], rfl, Nat.zero_le _⟩
  have hholds : SlotPool.Holds objs (fun i => objs[i]?) 0 [] := SlotPool.Holds.init objs
  have hinit : (VblkSpdk.init call objs).Rel objs (VblkHist.init call objs) :=
    ⟨rfl, hdepth, ⟨hctx, rfl, rfl, .nil⟩, [], rfl, ⟨⟨hholds, hdepth ▸ hpos⟩, trivial⟩⟩
  obtain ⟨events, hseen, hrel⟩ := Runs.run_simulated (A := VblkSpdkLabel.Seen) (R := VblkSpdk.Rel objs)
    (fun s t l hst => hst.step (hdepth ▸ hlt) l) hinit labels
  exact ⟨events, hseen, hrel.vblk, hrel.sound hnd⟩

/-- The first submission is refused, and the two of the next call go out with the structures that are left. -/
theorem vblk_async_on_spdk_refused :
    let call : AsyncCall := ⟨tinyVblk .vector true, false, 2048, 0, 3⟩
    let turn := fun taken completions => VblkSpdkLabel.turn ⟨⟨true, taken⟩, false, completions, false⟩
    let labels := [.call false 2048 0, turn true [], turn true [], turn false [], .call false 2048 0] ++
      List.replicate 4 (turn true []) ++ [turn true [(1, true)]] ++ List.replicate 3 (turn true [])
    let s := Runs.run VblkSpdk.step (VblkSpdk.init call [7, 9, 11]) labels
    s.st.pc = .wait 1 ∧ s.ctx.results = [false, true, true] ∧ ∃ lost, s.Sound [7, 9, 11] lost := by
  refine ⟨by decide, by decide, ?_⟩
  have hnd : [7, 9, 11].Nodup := by decide
  have hdepth : (⟨tinyVblk .vector true, false, 2048, 0, 3⟩ : AsyncCall).depth = [7, 9, 11].length := rfl
  obtain ⟨events, -, -, hsound⟩ := vblk_async_on_spdk hnd hdepth (by decide) (by decide) _
  exact ⟨_, hsound⟩

end LightNvm
