import LightNvm.AsyncLoop
import LightNvm.SlotPool

/-! The return structures of a virtual block over runs of `vblk_io_async`: each of them is free or
attached to one command, and there is always one for the next command. -/

namespace LightNvm

def AsyncPc.held : AsyncPc → List Nat
  | .reap _ (some ret) _ | .submit _ ret => [ret]
  | _ => []

def AsyncSt.attached (s : AsyncSt) : List Nat := s.pc.held ++ s.outstanding.map AsyncCmd.ret

/-- A virtual block in asynchronous mode: the call it runs, or the last one it ran. -/
structure VblkAsync where
  call : AsyncCall
  st : AsyncSt

inductive AsyncLabel where
  | call (pad : Bool) (count offset : Nat)
  | backend (e : AsyncEvent)

def VblkAsync.step (s : VblkAsync) : AsyncLabel → VblkAsync
  | .call pad count offset =>
    match s.st.pc with
    | .returned _ =>
      { call := { s.call with pad := pad, count := count, offset := offset }
        st := { s.st with pc := .stripe 0, submitted := [], nerr := 0 } }
    | _ => s
  | .backend e => { s with st := s.call.step s.st e }

def VblkAsync.init (call : AsyncCall) (objs : List Nat) : VblkAsync :=
  ⟨call, ⟨.returned true, [], [], fun i => objs[i]?, 0, 0⟩⟩

def VblkAsync.submits (s : VblkAsync) : AsyncLabel → Bool
  | .call _ _ _ => true
  | .backend e =>
    match s.st.pc with
    | .submit _ _ => if e.again then s.st.outstanding.length = s.call.depth else !e.fails
    | _ => true

structure AsyncSt.PoolOk (objs : List Nat) (s : AsyncSt) : Prop where
  retsp_eq : s.retsp = s.attached.length
  perm : (SlotPool.free s.rets s.retsp objs.length ++ s.attached.map some).Perm (objs.map some)
  nodup : (SlotPool.free s.rets s.retsp objs.length ++ s.attached.map some).Nodup
  read : ∀ stripe, s.pc = .take stripe → s.retsp < objs.length
  written : s.outstanding ≠ [] → (s.retsp + 2 ^ 32 - 1) % 2 ^ 32 < objs.length
  again : ∀ stripe ret reaped, s.pc ≠ .reap stripe (some ret) reaped

/-- One structure is spare at all times, two when the next command is about to take one. -/
structure AsyncSt.PoolInv (objs : List Nat) (s : AsyncSt) : Prop where
  holds : SlotPool.Holds objs s.rets s.retsp s.attached
  spare : s.retsp < objs.length
  taking : ∀ stripe, s.pc = .take stripe → s.retsp + 1 < objs.length
  reaped : ∀ stripe held, s.pc = .reap stripe held true → s.retsp + 1 < objs.length
  again : ∀ stripe ret reaped, s.pc ≠ .reap stripe (some ret) reaped

section

variable {objs : List Nat} {s : AsyncSt}

theorem AsyncSt.PoolInv.ok (h : s.PoolInv objs) (hnd : objs.Nodup) (hlt : objs.length < 2 ^ 32) :
    s.PoolOk objs where
  retsp_eq := h.holds.sp_eq
  perm := h.holds.perm
  nodup := h.holds.nodup hnd
  read _ _ := h.spare
  written hne := by
    have hpos : 0 < s.outstanding.length := List.length_pos_iff.mpr hne
    have hsp := h.holds.sp_eq
    have hspare := h.spare
    simp only [AsyncSt.attached, List.length_append, List.length_map] at hsp
    omega
  again := h.again

theorem AsyncSt.PoolInv.callback (h : s.PoolInv objs) (hlt : objs.length < 2 ^ 32)
    (completion : Nat × Bool) : (s.callback completion).PoolInv objs ∧
      (s.callback completion).retsp ≤ s.retsp := by
  rw [AsyncSt.callback]
  split
  · exact ⟨h, le_refl _⟩
  · next c hc =>
    have hmem : c ∈ s.outstanding := List.mem_of_find?_eq_some hc
    have hspare := h.spare
    have hout : s.attached.Perm (c.ret :: (s.pc.held ++ (s.outstanding.erase c).map AsyncCmd.ret)) :=
      (((List.perm_cons_erase hmem).map AsyncCmd.ret).append_left _).trans List.perm_middle
    have hret : c.ret ∈ s.attached := hout.mem_iff.mpr (List.mem_cons_self ..)
    have hpos : 0 < s.retsp := by
      rw [h.holds.sp_eq]
      exact List.length_pos_of_mem hret
    have hpred : (s.retsp + 2 ^ 32 - 1) % 2 ^ 32 = s.retsp - 1 := by omega
    have hgive := (h.holds.give hret).congr (by simpa using hout.erase c.ret)
    have hupd : Function.update s.rets (s.retsp - 1) (some c.ret) =
        fun i => if i = s.retsp - 1 then some c.ret else s.rets i := by
      funext i
      rw [Function.update_apply]
    rw [hupd] at hgive
    dsimp only
    rw [hpred]
    refine ⟨⟨hgive, ?_, ?_, ?_, h.again⟩, ?_⟩
    · dsimp only
      omega
    · intro j hj
      have := h.taking j hj
      dsimp only
      omega
    · intro j held hj
      have := h.reaped j held hj
      dsimp only
      omega
    · omega

theorem AsyncSt.PoolInv.callbacks (h : s.PoolInv objs) (hlt : objs.length < 2 ^ 32)
    (completions : List (Nat × Bool)) : (completions.foldl AsyncSt.callback s).PoolInv objs ∧
      (completions.foldl AsyncSt.callback s).retsp ≤ s.retsp := by
  induction completions generalizing s with
  | nil => exact ⟨h, le_refl _⟩
  | cons c cs ih =>
    obtain ⟨hinv, hle⟩ := h.callback hlt c
    obtain ⟨hinv', hle'⟩ := ih hinv
    exact ⟨hinv', hle'.trans hle⟩

theorem AsyncSt.PoolInv.setPc (h : s.PoolInv objs) (hheld : s.pc.held = []) {pc : AsyncPc}
    (hheld' : pc.held = []) (htaking : ∀ j, pc = .take j → s.retsp + 1 < objs.length)
    (hreaped : ∀ j held, pc = .reap j held true → s.retsp + 1 < objs.length)
    (hagain : ∀ j ret b, pc ≠ .reap j (some ret) b) : ({ s with pc := pc } : AsyncSt).PoolInv objs where
  holds := by
    have hholds := h.holds
    rw [AsyncSt.attached, hheld] at hholds
    rwa [AsyncSt.attached, hheld']
  spare := h.spare
  taking := htaking
  reaped := hreaped
  again := hagain

theorem AsyncSt.PoolInv.deliver (h : s.PoolInv objs) (hlt : objs.length < 2 ^ 32) (e : AsyncEvent) :
    (s.deliver e).PoolInv objs ∧ (s.deliver e).retsp ≤ s.retsp ∧ (s.deliver e).pc = s.pc := by
  obtain ⟨hinv, hle⟩ := h.callbacks hlt e.completions
  exact ⟨hinv, hle, (deliver_spec s e).1⟩

theorem AsyncSt.PoolInv.returned (h : s.PoolInv objs) (hheld : s.pc.held = []) (ok : Bool) :
    ({ s with pc := .returned ok } : AsyncSt).PoolInv objs :=
  h.setPc hheld rfl (by simp) (by simp) (by simp)

theorem AsyncSt.PoolInv.emptied (h : s.PoolInv objs) (hlt : objs.length < 2 ^ 32) (e : AsyncEvent)
    (hheld : s.pc.held = []) {pc : AsyncPc} (hpc : pc = .returned true ∨ ∃ j, pc = .stripe j) :
    (if e.fails then { s with pc := .returned false }
      else if (s.deliver e).outstanding = [] then { s.deliver e with pc := pc }
      else s.deliver e : AsyncSt).PoolInv objs := by
  obtain ⟨hdel, -, hdelpc⟩ := h.deliver hlt e
  split_ifs
  · exact h.returned hheld false
  · have hheld' : (s.deliver e).pc.held = [] := by rw [hdelpc, hheld]
    obtain rfl | ⟨j, rfl⟩ := hpc
    · exact hdel.returned hheld' true
    · exact hdel.setPc hheld' rfl (by simp) (by simp) (by simp)
  · exact hdel

theorem AsyncSt.PoolInv.retsp_eq (h : s.PoolInv objs) (hheld : s.pc.held = []) :
    s.retsp = s.outstanding.length := by
  rw [h.holds.sp_eq, AsyncSt.attached, hheld, List.nil_append, List.length_map]

variable {call : AsyncCall}

theorem AsyncCall.step_reap_poolInv (hlt : objs.length < 2 ^ 32) (h : s.PoolInv objs) (e : AsyncEvent)
    {j : Nat} {reaped : Bool} (hj : s.pc = .reap j none reaped) : (call.step s e).PoolInv objs := by
  obtain ⟨hdel, hle, hpc⟩ := h.deliver hlt e
  have hheld : s.pc.held = [] := by simp [hj, AsyncPc.held]
  have hheld' : (s.deliver e).pc.held = [] := by rw [hpc, hheld]
  have hspare := h.spare
  have hsp := h.retsp_eq hheld
  have hsp' := hdel.retsp_eq hheld'
  rw [AsyncCall.step, hj]
  dsimp only
  split_ifs with hf hless hre
  · exact h.returned hheld false
  · -- fewer commands are outstanding than before, so a structure came back
    refine hdel.setPc hheld' rfl (by simp) (fun _ _ _ => ?_) (by simp)
    show (s.deliver e).retsp + 1 < objs.length
    omega
  · refine hdel.setPc hheld' rfl (fun _ _ => ?_) (by simp) (by simp)
    have hroom := h.reaped j none (by rw [hj, hre])
    show (s.deliver e).retsp + 1 < objs.length
    omega
  · exact hdel

theorem AsyncCall.step_take_poolInv (hlt : objs.length < 2 ^ 32) (h : s.PoolInv objs) (e : AsyncEvent)
    {j : Nat} (hj : s.pc = .take j) : (call.step s e).PoolInv objs := by
  have hroom := h.taking j hj
  obtain ⟨ret, hret, hholds⟩ := h.holds.take h.spare
  have hatt : s.attached = s.outstanding.map AsyncCmd.ret := by simp [AsyncSt.attached, hj, AsyncPc.held]
  rw [AsyncCall.step, hj]
  dsimp only
  rw [hret, Nat.mod_eq_of_lt (by omega)]
  refine ⟨?_, hroom, by simp, by simp, by simp⟩
  rwa [hatt] at hholds

theorem AsyncCall.step_submit_poolInv (hdepth : call.depth = objs.length) (h : s.PoolInv objs)
    (e : AsyncEvent) (hsub : (VblkAsync.mk call s).submits (.backend e) = true) {j ret : Nat}
    (hj : s.pc = .submit j ret) : (call.step s e).PoolInv objs := by
  have hspare := h.spare
  have hatt : s.attached = ret :: s.outstanding.map AsyncCmd.ret := by
    simp [AsyncSt.attached, hj, AsyncPc.held]
  have hholds := h.holds
  rw [hatt] at hholds
  have hsp := hholds.sp_eq
  rw [List.length_cons, List.length_map] at hsp
  simp only [VblkAsync.submits, hj] at hsub
  rw [AsyncCall.step, hj]
  dsimp only
  split_ifs with ha hf
  · -- the structure being submitted leaves room in the queue
    rw [if_pos ha, decide_eq_true_eq] at hsub
    omega
  · simp [ha, hf] at hsub
  · exact ⟨hholds, hspare, by simp, by simp, by simp⟩
  · exact ⟨hholds, hspare, by simp, by simp, by simp⟩

theorem AsyncCall.step_poolInv (hdepth : call.depth = objs.length) (hlt : objs.length < 2 ^ 32)
    (h : s.PoolInv objs) (e : AsyncEvent)
    (hsub : (VblkAsync.mk call s).submits (.backend e) = true) : (call.step s e).PoolInv objs := by
  cases hj : s.pc with
  | stripe j =>
    have hheld : s.pc.held = [] := by simp [hj, AsyncPc.held]
    have hspare := h.spare
    rw [AsyncCall.step, hj]
    dsimp only
    split_ifs with hstripe hret
    · exact h.setPc hheld rfl (by simp) (by simp) (by simp)
    · refine h.setPc hheld rfl (fun _ _ => ?_) (by simp) (by simp)
      omega
    · exact h.setPc hheld rfl (by simp) (by simp) (by simp)
  | reap j held reaped =>
    cases held with
    | none => exact step_reap_poolInv hlt h e hj
    | some ret => exact absurd hj (h.again j ret reaped)
  | take j => exact step_take_poolInv hlt h e hj
  | submit j ret => exact step_submit_poolInv hdepth h e hsub hj
  | wait j =>
    rw [AsyncCall.step, hj]
    exact h.emptied hlt e (by simp [hj, AsyncPc.held]) (.inr ⟨j + 1, rfl⟩)
  | drain =>
    rw [AsyncCall.step, hj]
    exact h.emptied hlt e (by simp [hj, AsyncPc.held]) (.inl rfl)
  | returned ok =>
    rw [AsyncCall.step, hj]
    exact h

end

theorem VblkAsync.step_poolInv {s : VblkAsync} {objs : List Nat} (hlt : objs.length < 2 ^ 32)
    (hdepth : s.call.depth = objs.length) (h : s.st.PoolInv objs) (l : AsyncLabel)
    (hsub : s.submits l = true) :
    (s.step l).call.depth = objs.length ∧ (s.step l).st.PoolInv objs := by
  cases l with
  | call pad count offset =>
    simp only [VblkAsync.step]
    split
    · next ok hpc =>
      refine ⟨hdepth, ?_, h.spare, by simp, by simp, by simp⟩
      have hholds := h.holds
      rwa [AsyncSt.attached, hpc] at hholds
    · exact ⟨hdepth, h⟩
  | backend e => exact ⟨hdepth, AsyncCall.step_poolInv hdepth hlt h e hsub⟩

/-- Over every run of calls, at every point and between any two callbacks, the return structures
are free or attached to one command each, no slot out of the array is touched, and the queue is
never found full. -/
theorem vblk_rets_pool (call : AsyncCall) (objs : List Nat) (hnd : objs.Nodup)
    (hdepth : call.depth = objs.length) (hpos : 1 ≤ call.depth) (hlt : call.depth < 2 ^ 32)
    (labels : List AsyncLabel)
    (hsub : Runs.Along VblkAsync.step (fun s l => s.submits l = true) (VblkAsync.init call objs) labels)
    (completions : List (Nat × Bool)) :
    (completions.foldl AsyncSt.callback
      (Runs.run VblkAsync.step (VblkAsync.init call objs) labels).st).PoolOk objs := by
  rw [hdepth] at hlt hpos
  have hinit : (VblkAsync.init call objs).call.depth = objs.length ∧
      (VblkAsync.init call objs).st.PoolInv objs :=
    ⟨hdepth, SlotPool.Holds.init objs, hpos, by simp [VblkAsync.init], by simp [VblkAsync.init],
      by simp [VblkAsync.init]⟩
  have hrun := Runs.run_invariant (I := fun s => s.call.depth = objs.length ∧ s.st.PoolInv objs)
    (fun s l hi hs => VblkAsync.step_poolInv hlt hi.1 hi.2 l hs) hinit hsub
  exact (hrun.2.callbacks hlt completions).1.ok hnd hlt

theorem vblk_rets_pool_depth_two :
    let call : AsyncCall := ⟨tinyVblk .vector true, false, 2048, 0, 2⟩
    let labels := [.call false 2048 0] ++ List.replicate 4 (.backend ⟨[], false, false⟩) ++
      [.backend ⟨[(0, true)], false, false⟩] ++ List.replicate 3 (.backend ⟨[], false, false⟩)
    let s := (Runs.run VblkAsync.step (VblkAsync.init call [7, 9]) labels).st
    s.submitted = [0, 1] ∧ s.attached = [7] ∧ s.PoolOk [7, 9] := by
  refine ⟨by decide, by decide, ?_⟩
  exact vblk_rets_pool _ [7, 9] (by decide) rfl (by decide) (by decide) _ (by decide) []

end LightNvm
