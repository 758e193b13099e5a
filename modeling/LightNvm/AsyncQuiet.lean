import LightNvm.RetsPool

/-! What `vblk_io_async` leaves behind when it returns, and when it spins in the reap loop: the
stack of return structures accounts for the outstanding commands and for the structures that
failed calls have lost. -/

namespace LightNvm

/-- An event of the backend; or a poke or wait that comes back with a result that is not negative
although it has not done what it was called for (LBD reports the errors of `io_getevents` as
positive numbers, and no events as zero); or one that fails after some completions. -/
inductive CallEvent where
  | backend (e : AsyncEvent)
  | early (e : AsyncEvent)
  | broken (e : AsyncEvent)

def AsyncCall.stepE (call : AsyncCall) (s : AsyncSt) : CallEvent → AsyncSt
  | .backend e => call.step s e
  | .early e =>
    match s.pc with
    | .reap stripe held _ => { s.deliver e with pc := .reap stripe held true }
    | .wait stripe => { s.deliver e with pc := .stripe (stripe + 1) }
    | .drain => { s.deliver e with pc := .returned true }
    | _ => s
  | .broken e =>
    match s.pc with
    | .reap _ _ _ | .wait _ | .drain => { s.deliver e with pc := .returned false }
    | _ => s

/-- The call returns with a return structure that it has taken and not given to a command. -/
def AsyncSt.loses (s : AsyncSt) : CallEvent → Bool
  | .backend e =>
    match s.pc with
    | .reap _ held _ => held.isSome && e.fails
    | .take _ => (s.rets s.retsp).isNone
    | .submit _ _ => !e.again && e.fails
    | _ => false
  | .early _ => false
  | .broken _ =>
    match s.pc with
    | .reap _ held _ => held.isSome
    | _ => false

/-- The stack pointer, a `uint32_t`, counts the structures of commands and those taken before. -/
def AsyncSt.Accounts (base : Nat) (s : AsyncSt) : Prop :=
  s.retsp = (base + s.attached.length) % 2 ^ 32

theorem AsyncSt.attached_length (s : AsyncSt) :
    s.attached.length = s.pc.held.length + s.outstanding.length := by
  rw [AsyncSt.attached, List.length_append, List.length_map]

section

variable {base : Nat} {s : AsyncSt}

theorem AsyncSt.Accounts.callback (h : s.Accounts base) (completion : Nat × Bool) :
    (s.callback completion).Accounts base := by
  rw [AsyncSt.Accounts, AsyncSt.attached_length] at h
  rw [AsyncSt.Accounts, AsyncSt.attached_length, AsyncSt.callback]
  split
  · exact h
  · next c hc =>
    have hmem : c ∈ s.outstanding := List.mem_of_find?_eq_some hc
    have hpos := List.length_pos_of_mem hmem
    dsimp only
    rw [List.length_erase_of_mem hmem, h]
    omega

theorem AsyncSt.Accounts.deliver (h : s.Accounts base) (e : AsyncEvent) : (s.deliver e).Accounts base := by
  rw [AsyncSt.deliver]
  generalize e.completions = cs
  induction cs generalizing s with
  | nil => exact h
  | cons c cs ih => exact ih (h.callback c)

theorem AsyncSt.Accounts.setPc (h : s.Accounts base) {pc : AsyncPc} (lost : Nat)
    (hheld : s.pc.held.length = pc.held.length + lost) :
    ({ s with pc := pc } : AsyncSt).Accounts (base + lost) := by
  rw [AsyncSt.Accounts, AsyncSt.attached_length] at h ⊢
  dsimp only
  rw [h]
  congr 1
  omega

theorem AsyncSt.Accounts.deliver_setPc (h : s.Accounts base) (e : AsyncEvent) {pc : AsyncPc} (lost : Nat)
    (hheld : s.pc.held.length = pc.held.length + lost) :
    ({ s.deliver e with pc := pc } : AsyncSt).Accounts (base + lost) := by
  have hpc := (deliver_spec s e).1
  exact (h.deliver e).setPc lost (by rw [hpc, hheld])

theorem AsyncPc.held_reap (stripe : Nat) (held : Option Nat) (reaped : Bool) :
    (AsyncPc.reap stripe held reaped).held.length = held.isSome.toNat := by
  cases held <;> rfl

theorem AsyncCall.step_accounts {call : AsyncCall} (h : s.Accounts base) (e : AsyncEvent) :
    (call.step s e).Accounts (base + (s.loses (.backend e)).toNat) := by
  rw [AsyncCall.step, AsyncSt.loses]
  cases hpc : s.pc with
  | stripe j =>
    dsimp only
    split_ifs <;> exact h.setPc 0 (by rw [hpc]; rfl)
  | reap j held reaped =>
    dsimp only
    by_cases hf : e.fails
    · rw [if_pos hf, hf, Bool.and_true]
      exact h.setPc _ (by rw [hpc, AsyncPc.held_reap]; exact (Nat.zero_add _).symm)
    · rw [if_neg hf, Bool.eq_false_of_not_eq_true hf, Bool.and_false]
      split_ifs
      · exact h.deliver_setPc e 0 (by rw [hpc, AsyncPc.held_reap, AsyncPc.held_reap]; rfl)
      · exact h.deliver_setPc e 0 (by rw [hpc, AsyncPc.held_reap]; cases held <;> rfl)
      · exact h.deliver e
  | take j =>
    rw [AsyncSt.Accounts, AsyncSt.attached_length, hpc] at h
    rw [AsyncSt.Accounts, AsyncSt.attached_length]
    have hlen : (AsyncPc.take j).held.length = 0 := rfl
    dsimp only
    cases s.rets s.retsp <;> simp only [AsyncPc.held, Option.isNone_none, Option.isNone_some,
      Bool.toNat_true, Bool.toNat_false, List.length_nil, List.length_singleton] <;> omega
  | submit j ret =>
    dsimp only
    by_cases ha : e.again
    · rw [if_pos ha, ha]
      exact h.setPc 0 (by rw [hpc]; rfl)
    · rw [if_neg ha, Bool.eq_false_of_not_eq_true ha]
      by_cases hf : e.fails
      · rw [if_pos hf, hf]
        exact h.setPc 1 (by rw [hpc]; rfl)
      · rw [if_neg hf, Bool.eq_false_of_not_eq_true hf]
        rw [AsyncSt.Accounts, AsyncSt.attached_length, hpc] at h
        rw [AsyncSt.Accounts, AsyncSt.attached_length]
        dsimp only
        rw [h]
        split_ifs <;> simp [AsyncPc.held, Nat.add_comm]
  | wait j =>
    dsimp only
    split_ifs
    · exact h.setPc 0 (by rw [hpc]; rfl)
    · exact h.deliver_setPc e 0 (by rw [hpc]; rfl)
    · exact h.deliver e
  | drain =>
    dsimp only
    split_ifs
    · exact h.setPc 0 (by rw [hpc]; rfl)
    · exact h.deliver_setPc e 0 (by rw [hpc]; rfl)
    · exact h.deliver e
  | returned ok => exact h

theorem AsyncCall.stepE_accounts {call : AsyncCall} (h : s.Accounts base) (ev : CallEvent) :
    (call.stepE s ev).Accounts (base + (s.loses ev).toNat) := by
  cases ev with
  | backend e => exact step_accounts h e
  | early e =>
    rw [AsyncCall.stepE]
    split
    · next j held reaped hpc =>
      exact h.deliver_setPc e 0 (by rw [hpc, AsyncPc.held_reap, AsyncPc.held_reap]; rfl)
    · next j hpc => exact h.deliver_setPc e 0 (by rw [hpc]; rfl)
    · next hpc => exact h.deliver_setPc e 0 (by rw [hpc]; rfl)
    · exact h
  | broken e =>
    rw [AsyncCall.stepE, AsyncSt.loses]
    cases hpc : s.pc with
    | reap j held reaped =>
      exact h.deliver_setPc e _ (by rw [hpc, AsyncPc.held_reap]; exact (Nat.zero_add _).symm)
    | wait j => exact h.deliver_setPc e 0 (by rw [hpc]; rfl)
    | drain => exact h.deliver_setPc e 0 (by rw [hpc]; rfl)
    | stripe j => exact h
    | take j => exact h
    | submit j ret => exact h
    | returned ok => exact h

end

/-! What a call leaves behind. -/

/-- When the call has returned, none of its commands is outstanding and the stack is as it was. -/
def AsyncSt.Quiescent (retsp : Nat) (s : AsyncSt) : Prop :=
  ∀ ok, s.pc = .returned ok → s.outstanding = [] ∧ s.retsp = retsp

/-- The exits that come while a command is outstanding or a return structure is taken. -/
def AsyncSt.leavesBehind (s : AsyncSt) : CallEvent → Bool
  | .backend e =>
    match s.pc with
    | .reap _ held _ => e.fails && (held.isSome || !s.outstanding.isEmpty)
    | .take _ => (s.rets s.retsp).isNone
    | .submit _ _ => !e.again && e.fails
    | .wait _ | .drain => e.fails && !s.outstanding.isEmpty
    | _ => false
  | .early e =>
    match s.pc with
    | .drain => !(s.deliver e).outstanding.isEmpty
    | _ => false
  | .broken e =>
    match s.pc with
    | .reap _ held _ => held.isSome || !(s.deliver e).outstanding.isEmpty
    | .wait _ | .drain => !(s.deliver e).outstanding.isEmpty
    | _ => false

section

variable {retsp : Nat} {s : AsyncSt}

theorem AsyncSt.quiescent_of_running (h : ∀ ok, s.pc ≠ .returned ok) : s.Quiescent retsp :=
  fun ok hok => absurd hok (h ok)

theorem AsyncSt.quiescent_returned_iff (hlt : retsp < 2 ^ 32) {lost : Bool} {ok : Bool}
    (h : s.Accounts (retsp + lost.toNat)) (hpc : s.pc = .returned ok) :
    s.Quiescent retsp ↔ lost = false ∧ s.outstanding = [] := by
  rw [AsyncSt.Accounts, AsyncSt.attached_length, hpc] at h
  have hheld : (AsyncPc.returned ok).held.length = 0 := rfl
  constructor
  · intro hq
    obtain ⟨hout, hsp⟩ := hq ok hpc
    rw [hout, List.length_nil, hheld] at h
    cases lost with
    | false => exact ⟨rfl, hout⟩
    | true => simp only [Bool.toNat_true] at h; omega
  · rintro ⟨rfl, hout⟩ _ _
    rw [hout, List.length_nil, hheld] at h
    refine ⟨hout, ?_⟩
    simp only [Bool.toNat_false] at h
    omega

theorem AsyncCall.quiescent_iff_of_running {call : AsyncCall} {ev : CallEvent}
    (hrun : ∀ ok, (call.stepE s ev).pc ≠ .returned ok) (h : s.leavesBehind ev = false) :
    (call.stepE s ev).Quiescent retsp ↔ s.leavesBehind ev = false :=
  iff_of_true (AsyncSt.quiescent_of_running hrun) h

theorem AsyncCall.quiescent_iff_of_returned {call : AsyncCall} {ev : CallEvent} (ok : Bool)
    (hlt : retsp < 2 ^ 32) (h : s.Accounts retsp) (hret : (call.stepE s ev).pc = .returned ok)
    (heq : s.leavesBehind ev = (s.loses ev || !(call.stepE s ev).outstanding.isEmpty)) :
    (call.stepE s ev).Quiescent retsp ↔ s.leavesBehind ev = false := by
  rw [AsyncSt.quiescent_returned_iff hlt (stepE_accounts h ev) hret, heq, Bool.or_eq_false_iff,
    Bool.not_eq_false', List.isEmpty_iff]

theorem AsyncCall.step_quiescent_iff {call : AsyncCall} (hlt : retsp < 2 ^ 32) (h : s.Accounts retsp)
    (hrun : ∀ ok, s.pc ≠ .returned ok) (e : AsyncEvent) :
    (call.stepE s (.backend e)).Quiescent retsp ↔ s.leavesBehind (.backend e) = false := by
  have hdel := (deliver_spec s e).1
  cases hj : s.pc with
  | stripe j =>
    apply quiescent_iff_of_running
    · simp only [AsyncCall.stepE, AsyncCall.step, hj]
      split_ifs <;> simp
    · simp [AsyncSt.leavesBehind, hj]
  | reap j held reaped =>
    by_cases hf : e.fails
    · apply quiescent_iff_of_returned false hlt h <;>
        simp [AsyncCall.stepE, AsyncCall.step, AsyncSt.leavesBehind, AsyncSt.loses, hj, hf]
    · apply quiescent_iff_of_running
      · simp only [AsyncCall.stepE, AsyncCall.step, hj]
        rw [if_neg hf]
        split_ifs <;> cases held <;> simp [hdel, hj]
      · simp [AsyncSt.leavesBehind, hj, hf]
  | take j =>
    cases hr : s.rets s.retsp with
    | none =>
      apply quiescent_iff_of_returned false hlt h <;>
        simp [AsyncCall.stepE, AsyncCall.step, AsyncSt.leavesBehind, AsyncSt.loses, hj, hr]
    | some ret =>
      apply quiescent_iff_of_running <;>
        simp [AsyncCall.stepE, AsyncCall.step, AsyncSt.leavesBehind, hj, hr]
  | submit j ret =>
    by_cases ha : e.again
    · apply quiescent_iff_of_running <;>
        simp [AsyncCall.stepE, AsyncCall.step, AsyncSt.leavesBehind, hj, ha]
    · by_cases hf : e.fails
      · apply quiescent_iff_of_returned false hlt h <;>
          simp [AsyncCall.stepE, AsyncCall.step, AsyncSt.leavesBehind, AsyncSt.loses, hj, ha, hf]
      · apply quiescent_iff_of_running
        · simp only [AsyncCall.stepE, AsyncCall.step, hj]
          rw [if_neg ha, if_neg hf]
          split_ifs <;> simp
        · simp [AsyncSt.leavesBehind, hj, hf]
  | wait j =>
    by_cases hf : e.fails
    · apply quiescent_iff_of_returned false hlt h <;>
        simp [AsyncCall.stepE, AsyncCall.step, AsyncSt.leavesBehind, AsyncSt.loses, hj, hf]
    · apply quiescent_iff_of_running
      · simp only [AsyncCall.stepE, AsyncCall.step, hj]
        rw [if_neg hf]
        split_ifs <;> simp [hdel, hj]
      · simp [AsyncSt.leavesBehind, hj, hf]
  | drain =>
    by_cases hf : e.fails
    · apply quiescent_iff_of_returned false hlt h <;>
        simp [AsyncCall.stepE, AsyncCall.step, AsyncSt.leavesBehind, AsyncSt.loses, hj, hf]
    · by_cases hout : (s.deliver e).outstanding = []
      · -- the last wait has emptied the queue
        apply quiescent_iff_of_returned true hlt h <;>
          simp [AsyncCall.stepE, AsyncCall.step, AsyncSt.leavesBehind, AsyncSt.loses, hj, hf, hout]
      · apply quiescent_iff_of_running <;>
          simp [AsyncCall.stepE, AsyncCall.step, AsyncSt.leavesBehind, hj, hf, hout, hdel]
  | returned ok => exact absurd hj (hrun ok)

theorem AsyncCall.stepE_quiescent_iff {call : AsyncCall} (hlt : retsp < 2 ^ 32) (h : s.Accounts retsp)
    (hrun : ∀ ok, s.pc ≠ .returned ok) (ev : CallEvent) :
    (call.stepE s ev).Quiescent retsp ↔ s.leavesBehind ev = false := by
  cases ev with
  | backend e => exact step_quiescent_iff hlt h hrun e
  | early e =>
    cases hj : s.pc with
    | drain =>
      apply quiescent_iff_of_returned true hlt h <;>
        simp [AsyncCall.stepE, AsyncSt.leavesBehind, AsyncSt.loses, hj]
    | returned ok => exact absurd hj (hrun ok)
    | _ => apply quiescent_iff_of_running <;> simp [AsyncCall.stepE, AsyncSt.leavesBehind, hj]
  | broken e =>
    cases hj : s.pc with
    | reap _ _ _ | wait _ | drain =>
      apply quiescent_iff_of_returned false hlt h <;>
        simp [AsyncCall.stepE, AsyncSt.leavesBehind, AsyncSt.loses, hj]
    | returned ok => exact absurd hj (hrun ok)
    | _ => apply quiescent_iff_of_running <;> simp [AsyncCall.stepE, AsyncSt.leavesBehind, hj]

theorem AsyncCall.stepE_returned {call : AsyncCall} {ok : Bool} (h : s.pc = .returned ok) (ev : CallEvent) :
    call.stepE s ev = s := by
  cases ev <;> simp [AsyncCall.stepE, AsyncCall.step, h]

theorem AsyncSt.loses_imp_returned {call : AsyncCall} {ev : CallEvent} (h : s.loses ev = true) :
    (call.stepE s ev).pc = .returned false := by
  cases ev <;> cases hj : s.pc <;> simp_all [AsyncSt.loses, AsyncCall.stepE, AsyncCall.step]

end

/-- As long as the call runs, the stack accounts for its commands. -/
def AsyncSt.Steady (retsp : Nat) (s : AsyncSt) : Prop := (∀ ok, s.pc ≠ .returned ok) → s.Accounts retsp

theorem AsyncCall.stepE_steady {call : AsyncCall} {retsp : Nat} {s : AsyncSt} (h : s.Steady retsp)
    (ev : CallEvent) : (call.stepE s ev).Steady retsp := by
  intro hrun
  have hpc : ∀ ok, s.pc ≠ .returned ok := by
    intro ok hok
    rw [stepE_returned hok] at hrun
    exact hrun ok hok
  have hkeep : s.loses ev = false := by
    by_contra hl
    exact hrun false (AsyncSt.loses_imp_returned (Bool.eq_true_of_not_eq_false hl))
  have hacc : (call.stepE s ev).Accounts (retsp + (s.loses ev).toNat) := stepE_accounts (h hpc) ev
  rwa [hkeep] at hacc

theorem AsyncCall.stepE_quiescent_iff_of_steady {call : AsyncCall} {retsp : Nat} (hlt : retsp < 2 ^ 32)
    {s : AsyncSt} (h : s.Steady retsp) (hq : s.Quiescent retsp) (ev : CallEvent) :
    (call.stepE s ev).Quiescent retsp ↔ s.leavesBehind ev = false := by
  by_cases hret : ∃ ok, s.pc = .returned ok
  · obtain ⟨ok, hok⟩ := hret
    rw [stepE_returned hok]
    refine iff_of_true hq ?_
    cases ev <;> simp [AsyncSt.leavesBehind, hok]
  · have hrun : ∀ ok, s.pc ≠ .returned ok := fun ok hok => hret ⟨ok, hok⟩
    exact stepE_quiescent_iff hlt (h hrun) hrun ev

/-- A call returns quiescent just when it takes none of the exits that leave something behind. -/
theorem async_io_quiescent_iff (call : AsyncCall) (rets : Nat → Option Nat) (retsp : Nat)
    (hlt : retsp < 2 ^ 32) (events : List CallEvent) :
    (∀ pre, pre <+: events →
      (Runs.run call.stepE (AsyncCall.init rets retsp) pre).Quiescent retsp) ↔
    Runs.Along call.stepE (fun s ev => s.leavesBehind ev = false) (AsyncCall.init rets retsp) events := by
  have hacc : (AsyncCall.init rets retsp).Steady retsp := by
    intro _
    rw [AsyncSt.Accounts]
    exact (Nat.mod_eq_of_lt hlt).symm
  have hq : (AsyncCall.init rets retsp).Quiescent retsp :=
    AsyncSt.quiescent_of_running fun _ => nofun
  refine (Runs.invariant_iff_along_under (J := AsyncSt.Steady retsp) (I := AsyncSt.Quiescent retsp)
    ?_ ?_ hacc).trans (and_iff_right hq)
  · exact fun s ev hs => AsyncCall.stepE_steady hs ev
  · exact fun s ev hs hq => AsyncCall.stepE_quiescent_iff_of_steady hlt hs hq ev

theorem async_io_quiescent_one_stripe :
    let call : AsyncCall := ⟨tinyVblk .vector true, false, 1024, 0, 4⟩
    let events := List.replicate 4 (CallEvent.backend ⟨[], false, false⟩) ++
      [.backend ⟨[(0, true)], false, false⟩]
    let s := AsyncCall.init (fun i => if i < 4 then some i else none) 0
    (Runs.run call.stepE s events).pc = .returned true ∧
      ∀ pre, pre <+: events → (Runs.run call.stepE s pre).Quiescent 0 :=
  ⟨by decide, (async_io_quiescent_iff _ _ 0 (by decide) _).mpr (by decide)⟩

/-- A submission that fails leaves the command before it outstanding. -/
theorem async_failed_submit_leaves_command :
    let call : AsyncCall := ⟨tinyVblk .vector true, false, 2048, 0, 4⟩
    let events := List.replicate 5 (CallEvent.backend ⟨[], false, false⟩) ++
      [.backend ⟨[], false, true⟩]
    let s := AsyncCall.init (fun i => if i < 4 then some i else none) 0
    let t := Runs.run call.stepE s events
    t.pc = .returned false ∧ t.outstanding = [⟨0, 0⟩] ∧ t.retsp = 2 ∧
      ¬ ∀ pre, pre <+: events → (Runs.run call.stepE s pre).Quiescent 0 := by
  refine ⟨by decide, by decide, by decide, fun h => ?_⟩
  exact absurd (h _ (List.prefix_refl _) false (by decide)).2 (by decide)

end LightNvm
