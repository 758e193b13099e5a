import LightNvm.AsyncReap

/-! The return structures of a virtual block when submissions and pokes may fail: a call that fails may lose
the structure it has taken, and the others are still free or attached to one command. -/

namespace LightNvm

/-- What the test before a stripe has told of the stack of `n` structures. -/
def AsyncPc.Room (n retsp : Nat) : AsyncPc → Prop
  | .take _ | .reap _ none true => retsp + 1 < n
  | .reap _ none false => retsp + 1 = n
  | _ => True

/-- The structures that are not free are attached to commands, or lost. -/
structure AsyncSt.Stack (objs lost : List Nat) (s : AsyncSt) : Prop where
  holds : SlotPool.Holds objs s.rets s.retsp (s.attached ++ lost)
  spare : s.retsp < objs.length

structure AsyncSt.Pool (objs lost : List Nat) (s : AsyncSt) : Prop extends AsyncSt.Stack objs lost s where
  room : s.pc.Room objs.length s.retsp

section

variable {objs lost : List Nat} {s : AsyncSt}

theorem AsyncSt.Stack.retsp_eq (h : s.Stack objs lost) :
    s.retsp = s.pc.held.length + s.outstanding.length + lost.length := by
  rw [h.holds.sp_eq, List.length_append, AsyncSt.attached_length]

theorem AsyncSt.Stack.callback (h : s.Stack objs lost) (hlt : objs.length < 2 ^ 32) (completion : Nat × Bool) :
    (s.callback completion).Stack objs lost := by
  rw [AsyncSt.callback]
  cases hf : s.outstanding.find? (fun c => c.stripe = completion.1) with
  | none => exact h
  | some c =>
    have hmem : c ∈ s.outstanding := List.mem_of_find?_eq_some hf
    have hspare := h.spare
    have hout : (s.attached ++ lost).Perm
        (c.ret :: (s.pc.held ++ (s.outstanding.erase c).map AsyncCmd.ret ++ lost)) :=
      ((((List.perm_cons_erase hmem).map AsyncCmd.ret).append_left _).trans List.perm_middle).append_right _
    have hret : c.ret ∈ s.attached ++ lost := hout.mem_iff.mpr (List.mem_cons_self ..)
    have hpos : 0 < s.retsp := by
      rw [h.holds.sp_eq]
      exact List.length_pos_of_mem hret
    have hpred : (s.retsp + 2 ^ 32 - 1) % 2 ^ 32 = s.retsp - 1 := by omega
    have hrest := hout.erase c.ret
    rw [List.erase_cons_head] at hrest
    have hgive := (h.holds.give hret).congr hrest
    have hupd : Function.update s.rets (s.retsp - 1) (some c.ret) =
        fun i => if i = s.retsp - 1 then some c.ret else s.rets i := by
      funext i
      rw [Function.update_apply]
    rw [hupd] at hgive
    dsimp only
    rw [hpred]
    exact ⟨hgive, (Nat.sub_le _ _).trans_lt hspare⟩

theorem AsyncSt.Stack.deliver (h : s.Stack objs lost) (hlt : objs.length < 2 ^ 32) (e : AsyncEvent) :
    (s.deliver e).Stack objs lost := by
  rw [AsyncSt.deliver]
  generalize e.completions = cs
  induction cs generalizing s with
  | nil => exact h
  | cons c cs ih => exact ih (h.callback hlt c)

theorem AsyncSt.Stack.setPc (h : s.Stack objs lost) {pc : AsyncPc} (hheld : pc.held = s.pc.held) :
    ({ s with pc := pc } : AsyncSt).Stack objs lost := by
  have hholds := h.holds
  rw [AsyncSt.attached, ← hheld] at hholds
  exact ⟨hholds, h.spare⟩

/-- A call that returns loses the structure that it holds. -/
theorem AsyncSt.Stack.returned (h : s.Stack objs lost) (ok : Bool) :
    ({ s with pc := .returned ok } : AsyncSt).Pool objs (s.pc.held ++ lost) := by
  have hperm : (s.attached ++ lost).Perm (s.outstanding.map AsyncCmd.ret ++ (s.pc.held ++ lost)) := by
    rw [AsyncSt.attached, ← List.append_assoc]
    exact List.perm_append_comm.append_right _
  exact ⟨⟨h.holds.congr hperm, h.spare⟩, trivial⟩

variable {call : AsyncCall}

/-- The event of a backend leaves the pool with what the call has lost in it. -/
def AsyncSt.Leaves (objs lost : List Nat) (s s' : AsyncSt) (e : AsyncEvent) : Prop :=
  ∃ lost', lost'.length = lost.length + (s.loses (.backend e)).toNat ∧ s'.Pool objs lost'

theorem AsyncCall.step_stripe_pool (hdepth : call.depth = objs.length) (hlt : objs.length < 2 ^ 32)
    (h : s.Pool objs lost) (e : AsyncEvent) {j : Nat} (hj : s.pc = .stripe j) :
    s.Leaves objs lost (call.step s e) e := by
  have hspare := h.spare
  have hheld : s.pc.held = [] := by rw [hj]; rfl
  refine ⟨lost, by rw [AsyncSt.loses, hj]; rfl, ?_⟩
  rw [AsyncCall.step, hj]
  dsimp only
  split_ifs with hstripe hret
  · refine ⟨h.toStack.setPc hheld.symm, ?_⟩
    show s.retsp + 1 = objs.length
    omega
  · refine ⟨h.toStack.setPc hheld.symm, ?_⟩
    show s.retsp + 1 < objs.length
    omega
  · exact ⟨h.toStack.setPc hheld.symm, trivial⟩

theorem AsyncCall.step_reap_pool (hlt : objs.length < 2 ^ 32) (h : s.Pool objs lost) (e : AsyncEvent) {j : Nat}
    {held : Option Nat} {reaped : Bool} (hj : s.pc = .reap j held reaped) :
    s.Leaves objs lost (call.step s e) e := by
  have hdel := h.toStack.deliver hlt e
  obtain ⟨hpc, -, hsub⟩ := deliver_spec s e
  have hheld : s.pc.held = held.toList := by
    rw [hj]
    cases held <;> rfl
  have hheld' : (s.deliver e).pc.held = held.toList := by rw [hpc, hheld]
  have hsp := h.retsp_eq
  have hsp' := hdel.retsp_eq
  rw [hheld] at hsp
  rw [hheld'] at hsp'
  have hroom := h.room
  rw [hj] at hroom
  simp only [AsyncSt.Leaves, AsyncSt.loses, AsyncCall.step, hj]
  by_cases hf : e.fails
  · refine ⟨held.toList ++ lost, ?_, ?_⟩
    · rw [hf, Bool.and_true, List.length_append, Nat.add_comm]
      cases held <;> rfl
    · rw [if_pos hf, ← hheld]
      exact h.toStack.returned false
  · refine ⟨lost, by simp [hf], ?_⟩
    rw [if_neg hf]
    split_ifs with hless hre
    · refine ⟨hdel.setPc (by rw [hheld']; cases held <;> rfl), ?_⟩
      cases held with
      | none =>
        have hspare := h.spare
        show (s.deliver e).retsp + 1 < objs.length
        omega
      | some ret => trivial
    · refine ⟨hdel.setPc (by rw [hheld']; cases held <;> rfl), ?_⟩
      cases held with
      | none =>
        rw [hre] at hroom
        have hroom' : s.retsp + 1 < objs.length := hroom
        have hle := hsub.length_le
        show (s.deliver e).retsp + 1 < objs.length
        omega
      | some ret => trivial
    · refine ⟨hdel, ?_⟩
      rw [hpc, hj]
      have hle := hsub.length_le
      have hsame : (s.deliver e).retsp = s.retsp := by omega
      rw [hsame]
      exact hroom

theorem AsyncCall.step_take_pool (hlt : objs.length < 2 ^ 32) (h : s.Pool objs lost) (e : AsyncEvent) {j : Nat}
    (hj : s.pc = .take j) : s.Leaves objs lost (call.step s e) e := by
  have hroom : s.retsp + 1 < objs.length := by
    have hr := h.room
    rwa [hj] at hr
  obtain ⟨ret, hret, hholds⟩ := h.holds.take h.spare
  have hheld : s.pc.held = [] := by rw [hj]; rfl
  rw [AsyncSt.attached, hheld] at hholds
  refine ⟨lost, by rw [AsyncSt.loses, hj, hret]; rfl, ?_⟩
  rw [AsyncCall.step, hj]
  dsimp only
  rw [hret, Nat.mod_eq_of_lt (by omega)]
  exact ⟨⟨hholds, hroom⟩, trivial⟩

theorem AsyncCall.step_submit_pool (h : s.Pool objs lost) (e : AsyncEvent) {j ret : Nat}
    (hj : s.pc = .submit j ret) : s.Leaves objs lost (call.step s e) e := by
  have hheld : s.pc.held = [ret] := by rw [hj]; rfl
  simp only [AsyncSt.Leaves, AsyncSt.loses, AsyncCall.step, hj]
  by_cases ha : e.again
  · refine ⟨lost, by simp [ha], ?_⟩
    rw [if_pos ha]
    exact ⟨h.toStack.setPc hheld.symm, trivial⟩
  · rw [if_neg ha]
    by_cases hf : e.fails
    · refine ⟨ret :: lost, by simp [ha, hf], ?_⟩
      rw [if_pos hf]
      have hret := h.toStack.returned false
      rwa [hheld] at hret
    · refine ⟨lost, by simp [hf], ?_⟩
      rw [if_neg hf]
      have hholds := h.holds
      rw [AsyncSt.attached, hheld] at hholds
      split_ifs <;> exact ⟨⟨hholds, h.spare⟩, trivial⟩

/-- A wait goes on until nothing is outstanding. -/
theorem AsyncSt.Pool.emptied (hlt : objs.length < 2 ^ 32) (h : s.Pool objs lost) (e : AsyncEvent)
    (hheld : s.pc.held = []) (hroom : ∀ retsp, s.pc.Room objs.length retsp) {pc : AsyncPc}
    (hpc : pc = .returned true ∨ ∃ j, pc = .stripe j) :
    (if e.fails then { s with pc := .returned false }
      else if (s.deliver e).outstanding = [] then { s.deliver e with pc := pc }
      else s.deliver e : AsyncSt).Pool objs lost := by
  have hdel := h.toStack.deliver hlt e
  have hdelpc := (deliver_spec s e).1
  split_ifs
  · have hret := h.toStack.returned false
    rwa [hheld] at hret
  · obtain rfl | ⟨j, rfl⟩ := hpc
    · exact ⟨hdel.setPc (by rw [hdelpc, hheld]; rfl), trivial⟩
    · exact ⟨hdel.setPc (by rw [hdelpc, hheld]; rfl), trivial⟩
  · exact ⟨hdel, hdelpc ▸ hroom _⟩

theorem AsyncCall.step_pool (hdepth : call.depth = objs.length) (hlt : objs.length < 2 ^ 32)
    (h : s.Pool objs lost) (e : AsyncEvent) : s.Leaves objs lost (call.step s e) e := by
  cases hj : s.pc with
  | stripe j => exact step_stripe_pool hdepth hlt h e hj
  | reap j held reaped => exact step_reap_pool hlt h e hj
  | take j => exact step_take_pool hlt h e hj
  | submit j ret => exact step_submit_pool h e hj
  | wait j =>
    refine ⟨lost, by rw [AsyncSt.loses, hj]; rfl, ?_⟩
    rw [AsyncCall.step, hj]
    exact h.emptied hlt e (by rw [hj]; rfl) (by rw [hj]; exact fun _ => trivial) (.inr ⟨j + 1, rfl⟩)
  | drain =>
    refine ⟨lost, by rw [AsyncSt.loses, hj]; rfl, ?_⟩
    rw [AsyncCall.step, hj]
    exact h.emptied hlt e (by rw [hj]; rfl) (by rw [hj]; exact fun _ => trivial) (.inl rfl)
  | returned ok =>
    refine ⟨lost, by rw [AsyncSt.loses, hj]; rfl, ?_⟩
    rw [AsyncCall.step, hj]
    exact h

end

end LightNvm
