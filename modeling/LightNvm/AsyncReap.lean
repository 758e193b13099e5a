import LightNvm.AsyncQuiet

/-! When `_vblk_async_greedy_reap` is called over a sequence of calls: the decision compares `retsp`
with the depth, so it depends on the return structures that earlier calls have lost. -/

namespace LightNvm

inductive VblkLabel where
  | call (pad : Bool) (count offset : Nat)
  | event (ev : CallEvent)

/-- A virtual block, with the number of return structures its calls have lost so far. -/
structure VblkHist where
  vblk : VblkAsync
  lost : Nat

def VblkHist.init (call : AsyncCall) (objs : List Nat) : VblkHist := ⟨VblkAsync.init call objs, 0⟩

def VblkHist.step (s : VblkHist) : VblkLabel → VblkHist
  | .call pad count offset => { s with vblk := s.vblk.step (.call pad count offset) }
  | .event ev =>
    { vblk := { s.vblk with st := s.vblk.call.stepE s.vblk.st ev }
      lost := s.lost + (s.vblk.st.loses ev).toNat }

def VblkHist.pc (s : VblkHist) : AsyncPc := s.vblk.st.pc

def VblkHist.outstanding (s : VblkHist) : List AsyncCmd := s.vblk.st.outstanding

/-- The step enters the first loop of `_vblk_async_greedy_reap`. -/
def VblkHist.CallsReap (s : VblkHist) (l : VblkLabel) : Prop :=
  (∀ stripe held reaped, s.pc ≠ .reap stripe held reaped) ∧
    ∃ stripe held, (s.step l).pc = .reap stripe held false

/-- The device completes one command, and a poke returns it. -/
def AsyncCmd.completes (c : AsyncCmd) (ok : Bool) : VblkLabel :=
  .event (.backend ⟨[(c.stripe, ok)], false, false⟩)

/-- Some command is outstanding, and any completion ends the loop that spins for it. -/
def VblkHist.Progresses (s : VblkHist) (l : VblkLabel) : Prop :=
  s.CallsReap l → s.outstanding ≠ [] ∧ ∀ c ∈ s.outstanding, ∀ ok,
    ∃ stripe held, ((s.step l).step (c.completes ok)).pc = .reap stripe held true

/-- A stripe that begins with nothing outstanding does not find all structures but one lost, and
the queue is full only when it holds a command. -/
def VblkHist.inStep (s : VblkHist) : VblkLabel → Bool
  | .event (.backend e) =>
    match s.pc with
    | .stripe stripe => !decide (stripe < s.vblk.call.nstripes ∧ s.outstanding = [] ∧
        (s.lost + 1) % 2 ^ 32 = s.vblk.call.depth % 2 ^ 32)
    | .submit _ _ => !(e.again && s.outstanding.isEmpty)
    | _ => true
  | _ => true

section

variable {s : VblkHist}

theorem AsyncSt.callback_shortens {s : AsyncSt} {c : AsyncCmd} (h : c ∈ s.outstanding) (ok : Bool) :
    (s.callback (c.stripe, ok)).outstanding.length < s.outstanding.length := by
  rw [AsyncSt.callback]
  cases hf : s.outstanding.find? (fun d => d.stripe = c.stripe) with
  | none =>
    have hno := List.find?_eq_none.mp hf c h
    simp at hno
  | some d =>
    have hmem : d ∈ s.outstanding := List.mem_of_find?_eq_some hf
    have hpos := List.length_pos_of_mem hmem
    dsimp only
    rw [List.length_erase_of_mem hmem]
    omega

theorem VblkHist.completion_ends_spin {c : AsyncCmd} (hc : c ∈ s.outstanding) (ok : Bool) {stripe : Nat}
    {held : Option Nat} {reaped : Bool} (hpc : s.pc = .reap stripe held reaped) :
    (s.step (c.completes ok)).pc = .reap stripe held true := by
  have hless : (s.vblk.st.deliver ⟨[(c.stripe, ok)], false, false⟩).outstanding.length <
      s.vblk.st.outstanding.length := AsyncSt.callback_shortens hc ok
  have hj : s.vblk.st.pc = .reap stripe held reaped := hpc
  simp only [VblkHist.step, AsyncCmd.completes, AsyncCall.stepE, AsyncCall.step, VblkHist.pc, hj]
  rw [if_neg Bool.false_ne_true, if_pos hless]

/-- With nothing outstanding the loop goes round without end. -/
theorem VblkHist.empty_reap_spins {stripe : Nat} {held : Option Nat} (hpc : s.pc = .reap stripe held false)
    (hout : s.outstanding = []) {events : List AsyncEvent} (hf : ∀ e ∈ events, e.fails = false) :
    (Runs.run VblkHist.step s (events.map fun e => .event (.backend e))).pc = .reap stripe held false := by
  induction events generalizing s with
  | nil => exact hpc
  | cons e events ih =>
    have hj : s.vblk.st.pc = .reap stripe held false := hpc
    have ho : s.vblk.st.outstanding = [] := hout
    obtain ⟨hdpc, -, hdout⟩ := deliver_spec s.vblk.st e
    rw [ho, List.sublist_nil] at hdout
    have hstep : (s.step (.event (.backend e))).vblk.st = s.vblk.st.deliver e := by
      simp [VblkHist.step, AsyncCall.stepE, AsyncCall.step, hj, hf e (by simp), ho]
    rw [List.map_cons, Runs.run_cons]
    refine ih ?_ ?_ fun e he => hf e (by simp [he])
    · rw [VblkHist.pc, hstep, hdpc, hj]
    · rw [VblkHist.outstanding, hstep, hdout]

theorem AsyncCall.enters_reap {call : AsyncCall} {s : AsyncSt} {e : AsyncEvent} {stripe : Nat}
    {held : Option Nat} (hnot : ∀ stripe held reaped, s.pc ≠ .reap stripe held reaped)
    (h : (call.step s e).pc = .reap stripe held false) :
    (∃ j, s.pc = .stripe j ∧ j < call.nstripes ∧ s.retsp = (call.depth + 2 ^ 32 - 1) % 2 ^ 32) ∨
      ∃ j ret, s.pc = .submit j ret ∧ e.again = true := by
  have hdel := (deliver_spec s e).1
  rw [AsyncCall.step] at h
  cases hj : s.pc with
  | stripe j =>
    rw [hj] at h
    dsimp only at h
    split_ifs at h with hlt hret
    exact .inl ⟨j, rfl, hlt, hret⟩
  | reap j held' reaped => exact absurd hj (hnot j held' reaped)
  | take j =>
    rw [hj] at h
    dsimp only at h
    split at h <;> cases h
  | submit j ret =>
    rw [hj] at h
    dsimp only at h
    split_ifs at h with ha
    exact .inr ⟨j, ret, rfl, ha⟩
  | wait j =>
    rw [hj] at h hdel
    dsimp only at h
    split_ifs at h
    rw [hdel] at h
    cases h
  | drain =>
    rw [hj] at h hdel
    dsimp only at h
    split_ifs at h
    rw [hdel] at h
    cases h
  | returned ok =>
    rw [hj] at h
    dsimp only at h
    rw [hj] at h
    cases h

theorem VblkHist.callsReap_cases {l : VblkLabel} (h : s.CallsReap l) : ∃ e, l = .event (.backend e) ∧
    ((∃ j, s.pc = .stripe j ∧ j < s.vblk.call.nstripes ∧
        s.vblk.st.retsp = (s.vblk.call.depth + 2 ^ 32 - 1) % 2 ^ 32) ∨
      ∃ j ret, s.pc = .submit j ret ∧ e.again = true) := by
  obtain ⟨hnot, j, held, hstep⟩ := h
  cases l with
  | call pad count offset =>
    simp only [VblkHist.pc, VblkHist.step, VblkAsync.step] at hstep
    split at hstep
    · cases hstep
    · exact absurd hstep (hnot j held false)
  | event ev =>
    cases ev with
    | backend e => exact ⟨e, rfl, AsyncCall.enters_reap hnot hstep⟩
    | early e =>
      simp only [VblkHist.pc, VblkHist.step, AsyncCall.stepE] at hstep
      split at hstep <;> first | cases hstep | exact absurd hstep (hnot j held false)
    | broken e =>
      simp only [VblkHist.pc, VblkHist.step, AsyncCall.stepE] at hstep
      split at hstep <;> first | cases hstep | exact absurd hstep (hnot j held false)

theorem AsyncCall.step_full {call : AsyncCall} {s : AsyncSt} {j : Nat} (hj : s.pc = .stripe j)
    (hlt : j < call.nstripes) (hret : s.retsp = (call.depth + 2 ^ 32 - 1) % 2 ^ 32) (e : AsyncEvent) :
    call.step s e = { s with pc := .reap j none false } := by
  rw [AsyncCall.step, hj]
  dsimp only
  rw [if_pos hlt, if_pos hret]

theorem AsyncCall.step_again {call : AsyncCall} {s : AsyncSt} {j ret : Nat} (hj : s.pc = .submit j ret)
    {e : AsyncEvent} (ha : e.again = true) : call.step s e = { s with pc := .reap j (some ret) false } := by
  rw [AsyncCall.step, hj]
  dsimp only
  rw [if_pos ha]

theorem VblkHist.CallsReap.outstanding_eq {l : VblkLabel} (h : s.CallsReap l) :
    (s.step l).outstanding = s.outstanding := by
  obtain ⟨e, rfl, ⟨j, hj, hlt, hret⟩ | ⟨j, ret, hj, ha⟩⟩ := callsReap_cases h
  · simp only [VblkHist.outstanding, VblkHist.step, AsyncCall.stepE]
    rw [AsyncCall.step_full hj hlt hret]
  · simp only [VblkHist.outstanding, VblkHist.step, AsyncCall.stepE]
    rw [AsyncCall.step_again hj ha]

theorem VblkHist.progresses_of_outstanding {l : VblkLabel} (h : s.CallsReap l → s.outstanding ≠ []) :
    s.Progresses l := by
  intro hreap
  refine ⟨h hreap, fun c hc ok => ?_⟩
  have hmem : c ∈ (s.step l).outstanding := by rwa [hreap.outstanding_eq]
  obtain ⟨-, j, held, hpc⟩ := hreap
  exact ⟨j, held, completion_ends_spin hmem ok hpc⟩

theorem VblkHist.retsp_eq_iff (h : s.vblk.st.Accounts s.lost) {j : Nat} (hj : s.pc = .stripe j)
    (hout : s.outstanding = []) : s.vblk.st.retsp = (s.vblk.call.depth + 2 ^ 32 - 1) % 2 ^ 32 ↔
      (s.lost + 1) % 2 ^ 32 = s.vblk.call.depth % 2 ^ 32 := by
  have hheld : s.vblk.st.pc.held.length = 0 := congrArg (fun pc : AsyncPc => pc.held.length) hj
  have hlen : s.vblk.st.outstanding.length = 0 := congrArg List.length hout
  rw [AsyncSt.Accounts, AsyncSt.attached_length, hheld, hlen] at h
  omega

theorem VblkHist.progresses_iff (h : s.vblk.st.Accounts s.lost) (l : VblkLabel) :
    s.Progresses l ↔ s.inStep l = true := by
  constructor
  · intro hp
    by_contra hin
    cases l with
    | call pad count offset => exact hin rfl
    | event ev =>
      cases ev with
      | early e => exact hin rfl
      | broken e => exact hin rfl
      | backend e =>
        cases hpc : s.pc with
        | stripe j =>
          simp only [VblkHist.inStep, hpc, Bool.not_eq_true', decide_eq_false_iff_not, not_not] at hin
          obtain ⟨hlt, hout, hlost⟩ := hin
          have hret := (retsp_eq_iff h hpc hout).mpr hlost
          refine (hp ⟨by simp [hpc], j, none, ?_⟩).1 hout
          exact congrArg AsyncSt.pc (AsyncCall.step_full hpc hlt hret e)
        | submit j ret =>
          simp only [VblkHist.inStep, hpc, Bool.not_eq_true', Bool.not_eq_false, Bool.and_eq_true,
            List.isEmpty_iff] at hin
          refine (hp ⟨by simp [hpc], j, some ret, ?_⟩).1 hin.2
          exact congrArg AsyncSt.pc (AsyncCall.step_again hpc hin.1)
        | _ => simp [VblkHist.inStep, hpc] at hin
  · intro hin
    apply progresses_of_outstanding
    intro hreap hout
    obtain ⟨e, rfl, ⟨j, hj, hlt, hret⟩ | ⟨j, ret, hj, ha⟩⟩ := callsReap_cases hreap
    · have hlost := (retsp_eq_iff h hj hout).mp hret
      simp only [VblkHist.inStep, hj, Bool.not_eq_true', decide_eq_false_iff_not] at hin
      exact hin ⟨hlt, hout, hlost⟩
    · simp [VblkHist.inStep, hj, ha, hout] at hin

theorem VblkHist.step_accounts (h : s.vblk.st.Accounts s.lost) (l : VblkLabel) :
    (s.step l).vblk.st.Accounts (s.step l).lost := by
  cases l with
  | call pad count offset =>
    simp only [VblkHist.step, VblkAsync.step]
    split
    · next ok hpc => exact h.setPc 0 (by rw [hpc]; rfl)
    · exact h
  | event ev => exact AsyncCall.stepE_accounts h ev

end

/-- Over every sequence of calls, the reap loop is entered only with a command outstanding just when
the structures lost so far never make an empty queue look like one with a single free slot. -/
theorem greedy_reap_progresses_iff (call : AsyncCall) (objs : List Nat) (labels : List VblkLabel) :
    Runs.Along VblkHist.step VblkHist.Progresses (VblkHist.init call objs) labels ↔
      Runs.Along VblkHist.step (fun s l => s.inStep l = true) (VblkHist.init call objs) labels := by
  have hinit : (VblkHist.init call objs).vblk.st.Accounts (VblkHist.init call objs).lost := rfl
  exact Runs.along_iff_of_invariant (I := fun s => s.vblk.st.Accounts s.lost)
    (fun _ l hs _ => VblkHist.step_accounts hs l) (fun _ l hs => VblkHist.progresses_iff hs l) hinit

/-- A queue of depth one is taken for full before anything is submitted, and the loop spins. -/
theorem greedy_reap_spins_at_depth_one :
    let call : AsyncCall := ⟨tinyVblk .vector true, false, 1024, 0, 1⟩
    let labels := [.call false 1024 0, .event (.backend ⟨[], false, false⟩)]
    let s := Runs.run VblkHist.step (VblkHist.init call [7]) labels
    ¬ Runs.Along VblkHist.step VblkHist.Progresses (VblkHist.init call [7]) labels ∧
      ∀ events : List AsyncEvent, (∀ e ∈ events, e.fails = false) →
        (Runs.run VblkHist.step s (events.map fun e => .event (.backend e))).pc = .reap 0 none false := by
  constructor
  · intro h
    refine (h.2.1 ⟨?_, 0, none, by decide⟩).1 (by decide)
    intro stripe held reaped hpc
    exact absurd hpc (by simp [VblkHist.pc, VblkHist.step, VblkAsync.step, VblkHist.init, VblkAsync.init])
  · intro events hf
    exact VblkHist.empty_reap_spins (by decide) (by decide) hf

end LightNvm
