import LightNvm.SpdkTeamCalls

/-! No thread in `cmd_sync_ewrc` is ever stuck: the thread that has the lock can leave, the
controller can answer, and then the callback of the command can be run. -/

namespace LightNvm

open LockTeam (Team Prog Event)

section

variable {T : Type*} [DecidableEq T]

/-- The invariant of the team, whatever the callers do with their `ret`. -/
def TeamInv (s : Team T TeamLoc (SpdkMem T)) : Prop :=
  LockTeam.Inv ((spdkTeam T).restrict fun t a g => False → OwnRet t a g) (MemInv False)
    (fun g => g.running = none) (LocInv False) s

/-- A step that begins no call. -/
def Onward (s : Team T TeamLoc (SpdkMem T)) (e : Event T TeamAct (TeamAnswer T)) : Prop :=
  LockTeam.Enabled (spdkTeam T) s e ∧ ∀ t ret wrap, e ≠ .act t (.call ret wrap)

def Leads (s s' : Team T TeamLoc (SpdkMem T)) : Prop :=
  ∃ more, Runs.Along (LockTeam.step (spdkTeam T)) Onward s more ∧
    Runs.run (LockTeam.step (spdkTeam T)) s more = s'

variable {s s' : Team T TeamLoc (SpdkMem T)} {t u : T}

theorem Leads.refl (s : Team T TeamLoc (SpdkMem T)) : Leads s s := ⟨[], trivial, rfl⟩

theorem Leads.step {e : Event T TeamAct (TeamAnswer T)} (he : Onward s e)
    (h : Leads (LockTeam.step (spdkTeam T) s e) s') : Leads s s' := by
  obtain ⟨more, hmore, rfl⟩ := h
  exact ⟨e :: more, ⟨he, hmore⟩, rfl⟩

theorem Leads.trans {s'' : Team T TeamLoc (SpdkMem T)} (h : Leads s s') (h' : Leads s' s'') :
    Leads s s'' := by
  obtain ⟨more, hmore, rfl⟩ := h
  obtain ⟨more', hmore', rfl⟩ := h'
  exact ⟨more ++ more', Runs.along_append.mpr ⟨hmore, hmore'⟩, Runs.run_append _ _ _⟩

theorem TeamInv.step (h : TeamInv s) {e : Event T TeamAct (TeamAnswer T)}
    (he : LockTeam.Enabled (spdkTeam T) s e) : TeamInv (LockTeam.step (spdkTeam T) s e) := by
  refine LockTeam.Inv.step (team_kept False) h (e := e) ?_
  cases e with
  | act t a => exact ⟨he, fun h => h.elim⟩
  | _ => exact he

theorem TeamInv.leads (h : TeamInv s) (hl : Leads s s') : TeamInv s' := by
  obtain ⟨more, hmore, rfl⟩ := hl
  exact Runs.run_invariant (fun s e hi he => hi.step he.1) h hmore

theorem onward_act {a : TeamAct} (hc : teamCan t a s.mem (s.loc t)) (ha : ∀ ret wrap, a ≠ .call ret wrap) :
    Onward s (.act t a) := by
  refine ⟨hc, fun u ret wrap he => ?_⟩
  obtain ⟨-, rfl⟩ := Event.act.inj he
  exact ha ret wrap rfl

theorem leads_act {a : TeamAct} (hc : teamCan t a s.mem (s.loc t)) (ha : ∀ ret wrap, a ≠ .call ret wrap)
    {g : SpdkMem T} {l : TeamLoc} (h : teamAct t a s.mem (s.loc t) = (g, l)) :
    Leads s { s with loc := Function.update s.loc t l, mem := g } := by
  refine Leads.step (onward_act hc ha) ?_
  have heq : LockTeam.step (spdkTeam T) s (.act t a) =
      { s with loc := Function.update s.loc t l, mem := g } := by
    simp [LockTeam.step, spdkTeam, h]
  rw [heq]
  exact Leads.refl _

theorem leads_lock {l : TeamLoc} (hfree : s.lock = none) (h : teamLock (s.loc t) = some l) :
    Leads s { s with lock := some t, loc := Function.update s.loc t l } := by
  refine Leads.step (e := .lock t) ⟨⟨hfree, by simp [spdkTeam, h]⟩, fun _ _ _ he => by cases he⟩ ?_
  have heq : LockTeam.step (spdkTeam T) s (.lock t) =
      { s with lock := some t, loc := Function.update s.loc t l } := by
    simp [LockTeam.step, spdkTeam, h]
  rw [heq]
  exact Leads.refl _

theorem leads_unlock {l : TeamLoc} (h : teamUnlock (s.loc t) = some l) :
    Leads s { s with lock := none, loc := Function.update s.loc t l } := by
  refine Leads.step (e := .unlock t) ⟨by simp [LockTeam.Enabled, spdkTeam, h], fun _ _ _ he => by cases he⟩ ?_
  have heq : LockTeam.step (spdkTeam T) s (.unlock t) =
      { s with lock := none, loc := Function.update s.loc t l } := by
    simp [LockTeam.step, spdkTeam, h]
  rw [heq]
  exact Leads.refl _

/-! The thread that has the lock leaves. -/

/-- What a thread that leaves the lock brings about: it is in its call, and nothing has changed for the
others. -/
structure Left (s s' : Team T TeamLoc (SpdkMem T)) (u : T) : Prop where
  leads : Leads s s'
  free : s'.lock = none
  others : ∀ t, t ≠ u → s'.loc t = s.loc t
  calls : (s'.loc u).calls = (s.loc u).calls
  pc : (s'.loc u).pc = .check ∨ (s'.loc u).pc = .term

theorem Left.after {m : Team T TeamLoc (SpdkMem T)} (h : Left m s' u) (hl : Leads s m)
    (ho : ∀ t, t ≠ u → m.loc t = s.loc t) (hc : (m.loc u).calls = (s.loc u).calls) : Left s s' u :=
  ⟨hl.trans h.leads, h.free, fun t ht => (h.others t ht).trans (ho t ht), h.calls.trans hc, h.pc⟩

theorem leave_unlock {l : TeamLoc} (h : teamUnlock (s.loc u) = some l) (hc : l.calls = (s.loc u).calls)
    (hpc : l.pc = .check ∨ l.pc = .term) :
    Left s { s with lock := none, loc := Function.update s.loc u l } u where
  leads := leads_unlock h
  free := rfl
  others t ht := Function.update_of_ne ht _ _
  calls := by simpa using hc
  pc := by simpa using hpc

theorem leave_act {a : TeamAct} (hc : teamCan u a s.mem (s.loc u)) (ha : ∀ ret wrap, a ≠ .call ret wrap)
    {g : SpdkMem T} {l : TeamLoc} (h : teamAct u a s.mem (s.loc u) = (g, l))
    (hl : l.calls = (s.loc u).calls)
    (hleft : ∃ s', Left { s with loc := Function.update s.loc u l, mem := g } s' u) :
    ∃ s', Left s s' u := by
  obtain ⟨s', hs'⟩ := hleft
  exact ⟨s', hs'.after (leads_act hc ha h) (fun t ht => Function.update_of_ne ht _ _) (by simpa using hl)⟩

theorem leave_unlockSubmit {b : Bool} (hpc : (s.loc u).pc = .unlockSubmit b) : ∃ s', Left s s' u := by
  cases b with
  | false =>
    have h : teamUnlock (s.loc u) = some { s.loc u with pc := .check } := by simp [teamUnlock, hpc]
    exact ⟨_, leave_unlock h rfl (.inl rfl)⟩
  | true =>
    have h : teamUnlock (s.loc u) = some { s.loc u with pc := .term, res := -1 } := by
      simp [teamUnlock, hpc]
    exact ⟨_, leave_unlock h rfl (.inr rfl)⟩

theorem leave_unlockPoll (hpc : (s.loc u).pc = .unlockPoll) : ∃ s', Left s s' u := by
  have h : teamUnlock (s.loc u) = some { s.loc u with pc := .check } := by simp [teamUnlock, hpc]
  exact ⟨_, leave_unlock h rfl (.inl rfl)⟩

theorem leave_poll (hpc : (s.loc u).pc = .poll) : ∃ s', Left s s' u :=
  leave_act (a := .leave) hpc (fun _ _ => by simp) rfl rfl (leave_unlockPoll (by simp))

theorem TeamInv.storeCompleted_eq (h : TeamInv s) (hpc : (s.loc u).pc = .cbCompleted) :
    ∃ req c w, s.mem.running = some (req, c) ∧
      teamAct u .storeCompleted s.mem (s.loc u) =
        (s.mem.storeCompleted req w (nvmCmdWrapCpl c), { s.loc u with pc := .poll }) := by
  obtain ⟨⟨req, c⟩, hrun, -⟩ : ∃ x, s.mem.running = some x ∧
      (False → ∀ w ∈ s.mem.heap x.1.arg, ∀ r ∈ w.ret, s.mem.rets r = x.2.ret) := by
    simpa only [Running, hpc] using (h.loc u).2
  obtain ⟨w, hw, -⟩ := h.mem.live req (h.mem.running_mem hrun).1
  exact ⟨req, c, w, hrun, by simp [teamAct, hrun, hw]⟩

theorem TeamInv.storeRet_eq (h : TeamInv s) (hpc : (s.loc u).pc = .cbRet) :
    ∃ x w, teamAct u .storeRet s.mem (s.loc u) = (s.mem.storeRet w x, { s.loc u with pc := .cbCompleted }) := by
  have hsome : s.mem.running.isSome := by simpa only [Running, hpc] using (h.loc u).2
  obtain ⟨⟨req, c⟩, hrun⟩ := Option.isSome_iff_exists.mp hsome
  obtain ⟨w, hw, -⟩ := h.mem.live req (h.mem.running_mem hrun).1
  exact ⟨c.ret, w, by simp [teamAct, hrun, hw]⟩

theorem TeamInv.leave_cbCompleted (h : TeamInv s) (hpc : (s.loc u).pc = .cbCompleted) :
    ∃ s', Left s s' u := by
  obtain ⟨req, c, w, -, heq⟩ := h.storeCompleted_eq hpc
  exact leave_act (a := .storeCompleted) hpc (fun _ _ => by simp) heq rfl (leave_poll (by simp))

theorem TeamInv.leave_cbRet (h : TeamInv s) (hpc : (s.loc u).pc = .cbRet) : ∃ s', Left s s' u := by
  obtain ⟨x, w, heq⟩ := h.storeRet_eq hpc
  refine leave_act (a := .storeRet) hpc (fun _ _ => by simp) heq rfl (TeamInv.leave_cbCompleted ?_ (by simp))
  exact h.leads (leads_act (a := .storeRet) hpc (fun _ _ => by simp) heq)

theorem TeamInv.leave_submit (h : TeamInv s) (hpc : (s.loc u).pc = .submit) : ∃ s', Left s s' u := by
  obtain ⟨w, hw, -⟩ := (h.loc u).1.own_wrap (by simp [hpc])
  have heq : teamAct u (.submit true) s.mem (s.loc u) =
      ({ s.mem with inFlight := ⟨(u, (s.loc u).calls), (s.loc u).wrap⟩ :: s.mem.inFlight },
        { s.loc u with pc := .unlockSubmit false }) := by simp [teamAct, hw]
  exact leave_act (a := .submit true) hpc (fun _ _ => by simp) heq rfl
    (leave_unlockSubmit (b := false) (by simp))

/-- Whoever has the lock can give it back. -/
theorem TeamInv.leave (h : TeamInv s) (hlock : s.lock = some u) : ∃ s', Left s s' u := by
  have hin : (s.loc u).pc.inside = true := (h.exclusive u).mp hlock
  cases hpc : (s.loc u).pc with
  | submit => exact h.leave_submit hpc
  | unlockSubmit err => exact leave_unlockSubmit hpc
  | poll => exact leave_poll hpc
  | cbRet => exact h.leave_cbRet hpc
  | cbCompleted => exact h.leave_cbCompleted hpc
  | unlockPoll => exact leave_unlockPoll hpc
  | _ => simp [hpc, TeamPc.inside] at hin

/-! A thread goes on to the end of its call. -/

/-- The call that a thread is in can return. -/
def Returns (s : Team T TeamLoc (SpdkMem T)) (t : T) : Prop :=
  ∃ s', Leads s s' ∧ (s'.loc t).pc = .out ∧ (s'.loc t).calls = (s.loc t).calls + 1

theorem Returns.after (hl : Leads s s') (hc : (s'.loc t).calls = (s.loc t).calls) (h : Returns s' t) :
    Returns s t := by
  obtain ⟨s'', hl', hpc, hc'⟩ := h
  exact ⟨s'', hl.trans hl', hpc, by rw [hc', hc]⟩

theorem returns_act {a : TeamAct} (hc : teamCan t a s.mem (s.loc t)) (ha : ∀ ret wrap, a ≠ .call ret wrap)
    {g : SpdkMem T} {l : TeamLoc} (h : teamAct t a s.mem (s.loc t) = (g, l))
    (hl : l.calls = (s.loc t).calls)
    (hr : Returns { s with loc := Function.update s.loc t l, mem := g } t) : Returns s t :=
  hr.after (leads_act hc ha h) (by simpa using hl)

theorem TeamInv.returns_term (h : TeamInv s) (hpc : (s.loc t).pc = .term) : Returns s t := by
  obtain ⟨w, hw, -⟩ := (h.loc t).1.own_wrap (by simp [hpc])
  refine ⟨_, leads_act (a := .term) hpc (fun _ _ => by simp) (by simp only [teamAct, hw]; rfl), ?_, ?_⟩ <;>
    simp

theorem TeamInv.returns_judge (h : TeamInv s) (hpc : (s.loc t).pc = .judge) : Returns s t := by
  obtain ⟨w, hw, -⟩ := (h.loc t).1.own_wrap (by simp [hpc])
  have hlead := fun l heq => leads_act (a := .judge) (s := s) (t := t) (l := l) (g := s.mem) hpc
    (fun _ _ => by simp) heq
  by_cases hd : w.completed < 0
  · have heq : teamAct t .judge s.mem (s.loc t) =
        (s.mem, { s.loc t with pc := .term, res := -1, errno := some .eio }) := by simp [teamAct, hw, hd]
    exact ((h.leads (hlead _ heq)).returns_term (by simp)).after (hlead _ heq) (by simp)
  · have heq : teamAct t .judge s.mem (s.loc t) = (s.mem, { s.loc t with pc := .term }) := by
      simp [teamAct, hw, hd]
    exact ((h.leads (hlead _ heq)).returns_term (by simp)).after (hlead _ heq) (by simp)

/-- What the loop of a thread tests. -/
theorem TeamInv.check_eq (h : TeamInv s) (hpc : (s.loc t).pc = .check) :
    teamAct t .check s.mem (s.loc t) =
      (s.mem, { s.loc t with pc := if s.mem.pendingOf t = [] then .judge else .lockPoll }) := by
  obtain ⟨w, hw, -, hs⟩ := (h.loc t).1.stage (by simp [hpc])
  obtain ⟨-, -, hs⟩ := (stage_waiting (by simp [hpc, TeamPc.Waiting]) w).mp hs
  rcases hs with ⟨hp, h0⟩ | ⟨c, hc, hd⟩
  · simp [teamAct, hw, h0, hp]
  · simp [teamAct, hw, hd, hc.1, nvmCmdWrapCpl_ne_zero]

theorem TeamInv.returns_completed (h : TeamInv s) (hpc : (s.loc t).pc = .check)
    (hp : s.mem.pendingOf t = []) : Returns s t := by
  have heq := h.check_eq hpc
  rw [if_pos hp] at heq
  have hlead := leads_act (a := .check) hpc (fun _ _ => by simp) heq
  exact ((h.leads hlead).returns_judge (by simp)).after hlead (by simp)

/-- All completions of the queue can be processed. -/
theorem TeamInv.drain (n : Nat) (h : TeamInv s) (hpc : (s.loc t).pc = .poll) (hn : s.mem.cq.length = n) :
    ∃ s', Leads s s' ∧ (s'.loc t).pc = .poll ∧ (s'.loc t).calls = (s.loc t).calls ∧
      s'.mem.cq = [] ∧ s'.mem.inFlight = s.mem.inFlight := by
  induction n generalizing s with
  | zero => exact ⟨s, Leads.refl s, hpc, rfl, List.length_eq_zero_iff.mp hn, rfl⟩
  | succ n ih =>
    cases hcq : s.mem.cq with
    | nil => simp [hcq] at hn
    | cons x cq =>
      have heq : teamAct t .poll s.mem (s.loc t) =
          ({ s.mem with cq := cq, running := some x }, { s.loc t with pc := .cbRet }) := by
        simp [teamAct, hcq]
      have hl₁ := leads_act (a := .poll) ⟨hpc, by simp [hcq]⟩ (fun _ _ => by simp) heq
      have h₁ := h.leads hl₁
      obtain ⟨y, v, heq₂⟩ := h₁.storeRet_eq (u := t) (by simp)
      have hl₂ := leads_act (a := .storeRet) (show teamCan t .storeRet _ _ by simp [teamCan])
        (fun _ _ => by simp) heq₂
      have h₂ := h₁.leads hl₂
      obtain ⟨req, c, w, -, heq₃⟩ := h₂.storeCompleted_eq (u := t) (by simp)
      have hl₃ := leads_act (a := .storeCompleted) (show teamCan t .storeCompleted _ _ by simp [teamCan])
        (fun _ _ => by simp) heq₃
      have hlen : cq.length = n := by simpa [hcq] using hn
      have hsame : ∀ (g : SpdkMem T), (g.storeRet v y).cq = g.cq ∧ (g.storeRet v y).inFlight = g.inFlight := by
        intro g
        unfold SpdkMem.storeRet
        split <;> exact ⟨rfl, rfl⟩
      obtain ⟨s', hl', hpc', hc', hnil, hfl⟩ := ih (h₂.leads hl₃) (by simp)
        (by simpa [SpdkMem.storeCompleted, hsame] using hlen)
      refine ⟨s', (hl₁.trans hl₂).trans (hl₃.trans hl'), hpc', by simpa using hc', hnil, ?_⟩
      simpa [SpdkMem.storeCompleted, hsame] using hfl

theorem TeamInv.returns_poll (h : TeamInv s) (hpc : (s.loc t).pc = .poll)
    (hnone : ∀ req ∈ s.mem.inFlight, req.call.1 ≠ t) : Returns s t := by
  obtain ⟨s', hl, hpc', hc, hnil, hfl⟩ := h.drain _ hpc rfl
  refine Returns.after hl hc ?_
  have h' := h.leads hl
  have hrun : s'.mem.running = none := by simpa only [Running, hpc'] using (h'.loc t).2
  have hp : s'.mem.pendingOf t = [] := by
    rw [pendingOf_eq_nil_iff]
    simpa [SpdkMem.pending, hnil, hrun, hfl] using hnone
  refine returns_act (a := .leave) hpc' (fun _ _ => by simp) rfl rfl ?_
  have hleave := h'.leads (leads_act (a := .leave) hpc' (fun _ _ => by simp) rfl)
  have hunlock := leads_unlock (t := t) (l := { s'.loc t with pc := .check })
    (s := { s' with loc := Function.update s'.loc t { s'.loc t with pc := .unlockPoll } }) (by simp [teamUnlock])
  exact ((hleave.leads hunlock).returns_completed (t := t) (by simp) hp).after hunlock (by simp)

theorem TeamInv.answer_mine (h : TeamInv s) {req : Request T} (hreq : req ∈ s.mem.inFlight) (c : Cpl) :
    ∀ other ∈ (teamAnswer ⟨req, c⟩ s.mem).inFlight, other.call.1 ≠ req.call.1 := by
  intro other ho hc
  have hnd : (s.mem.inFlight.map Request.call).Nodup := by
    have hcalls := h.mem.calls
    rw [SpdkMem.pending, List.append_assoc, List.map_append] at hcalls
    exact (List.nodup_append.mp hcalls).1
  have hmem : ∀ r ∈ s.mem.inFlight, r ∈ s.mem.pending := fun r hr => by simp [SpdkMem.pending, hr]
  have hother : other ∈ s.mem.inFlight := List.mem_of_mem_erase ho
  have heq : other = req := ((h.loc req.call.1).1.pending_call (hmem other hother) hc).trans
    ((h.loc req.call.1).1.pending_call (hmem req hreq) rfl).symm
  subst heq
  exact ((List.Nodup.of_map _ hnd).mem_erase_iff.mp ho).1 rfl

theorem TeamInv.returns_lockPoll (h : TeamInv s) (hfree : s.lock = none)
    (hpc : (s.loc t).pc = .lockPoll) : Returns s t := by
  have hlocked : ∀ {m : Team T TeamLoc (SpdkMem T)}, TeamInv m → m.lock = none → (m.loc t).pc = .lockPoll →
      (∀ req ∈ m.mem.inFlight, req.call.1 ≠ t) → Returns m t := by
    intro m hm hfree hpc hnone
    have hl := leads_lock (t := t) (l := { m.loc t with pc := .poll }) hfree (by simp [teamLock, hpc])
    exact ((hm.leads hl).returns_poll (t := t) (by simp) hnone).after hl (by simp)
  by_cases hmine : ∃ req ∈ s.mem.inFlight, req.call.1 = t
  · obtain ⟨req, hreq, rfl⟩ := hmine
    have hon : Onward s (.env ⟨req, .code 0⟩) := ⟨hreq, fun _ _ _ he => by cases he⟩
    have hl := Leads.step hon (Leads.refl _)
    exact (hlocked (h.leads hl) hfree hpc (h.answer_mine hreq _)).after hl rfl
  · exact hlocked h hfree hpc fun req hreq hc => hmine ⟨req, hreq, hc⟩

theorem TeamInv.returns_check (h : TeamInv s) (hfree : s.lock = none) (hpc : (s.loc t).pc = .check) :
    Returns s t := by
  by_cases hp : s.mem.pendingOf t = []
  · exact h.returns_completed hpc hp
  · have heq := h.check_eq hpc
    rw [if_neg hp] at heq
    have hl := leads_act (a := .check) hpc (fun _ _ => by simp) heq
    exact ((h.leads hl).returns_lockPoll hfree (by simp)).after hl (by simp)

theorem TeamInv.returns_lockSubmit (h : TeamInv s) (hfree : s.lock = none)
    (hpc : (s.loc t).pc = .lockSubmit) : Returns s t := by
  have hl := leads_lock (t := t) (l := { s.loc t with pc := .submit }) hfree (by simp [teamLock, hpc])
  obtain ⟨s', hs'⟩ := (h.leads hl).leave_submit (u := t) (by simp)
  have h' := (h.leads hl).leads hs'.leads
  have hret : Returns s' t := by
    rcases hs'.pc with hpc' | hpc'
    · exact h'.returns_check hs'.free hpc'
    · exact h'.returns_term hpc'
  exact hret.after (hl.trans hs'.leads) (by simpa using hs'.calls)

theorem TeamInv.returns_free (h : TeamInv s) (hfree : s.lock = none) (hpc : (s.loc t).pc ≠ .out) :
    Returns s t := by
  have hin : (s.loc t).pc.inside ≠ true := fun hin => by simpa [hfree] using (h.exclusive t).mpr hin
  cases hp : (s.loc t).pc with
  | out => exact absurd hp hpc
  | lockSubmit => exact h.returns_lockSubmit hfree hp
  | check => exact h.returns_check hfree hp
  | lockPoll => exact h.returns_lockPoll hfree hp
  | judge => exact h.returns_judge hp
  | term => exact h.returns_term hp
  | _ => simp [hp, TeamPc.inside] at hin

theorem TeamInv.returns (h : TeamInv s) (hpc : (s.loc t).pc ≠ .out) : Returns s t := by
  cases hlock : s.lock with
  | none => exact h.returns_free hlock hpc
  | some u =>
    obtain ⟨s', hs'⟩ := h.leave hlock
    have hsame : (s'.loc t).pc ≠ .out ∧ (s'.loc t).calls = (s.loc t).calls := by
      by_cases ht : t = u
      · subst ht
        refine ⟨fun he => ?_, hs'.calls⟩
        rcases hs'.pc with hp | hp <;> simp [hp] at he
      · rw [hs'.others t ht]
        exact ⟨hpc, rfl⟩
    exact ((h.leads hs'.leads).returns_free hs'.free hsame.1).after hs'.leads hsame.2

/-- From every state that a run reaches, and wherever the other threads are, the run can go on so that the
call that a thread is in returns: no new call begins, and nothing but the steps of the threads and answers
of the controller is needed. -/
theorem spdk_team_returns (rets : Nat → Ret) (es : List (Event T TeamAct (TeamAnswer T)))
    (hes : Runs.Along (LockTeam.step (spdkTeam T)) (LockTeam.Enabled (spdkTeam T)) (teamInit rets) es) (t : T)
    (ht : ((Runs.run (LockTeam.step (spdkTeam T)) (teamInit rets) es).loc t).pc ≠ .out) :
    let s := Runs.run (LockTeam.step (spdkTeam T)) (teamInit rets) es
    ∃ more, Runs.Along (LockTeam.step (spdkTeam T)) Onward s more ∧
      ((Runs.run (LockTeam.step (spdkTeam T)) s more).loc t).pc = .out ∧
      ∃ r ∈ (Runs.run (LockTeam.step (spdkTeam T)) s more).mem.returns, r.call = (t, (s.loc t).calls) := by
  intro s
  have hi : TeamInv s := team_run_inv hes fun h => h.elim
  obtain ⟨s', hl, hpc, hc⟩ := hi.returns ht
  have hret := ((hi.leads hl).loc t).1.returned
  have hmem : (s.loc t).calls ∈ (s'.mem.returnsOf t).map (·.call.2) := by
    rw [hret, hc]
    exact List.mem_range.mpr (Nat.lt_succ_self _)
  obtain ⟨r, hr, hno⟩ := List.mem_map.mp hmem
  obtain ⟨hr, hthread⟩ := List.mem_filter.mp hr
  obtain ⟨more, hmore, rfl⟩ := hl
  exact ⟨more, hmore, hpc, r, hr, Prod.ext (by simpa using hthread) hno⟩

/-- The command of thread `true` is with the controller, and thread `false` has the lock. -/
theorem spdk_team_returns_two :
    let s := Runs.run (LockTeam.step (spdkTeam Bool)) (teamInit fun _ => ⟨0, 0⟩) (teamTwo.take 7)
    ∃ more, Runs.Along (LockTeam.step (spdkTeam Bool)) Onward s more ∧
      ((Runs.run (LockTeam.step (spdkTeam Bool)) s more).loc true).pc = .out ∧
      ∃ r ∈ (Runs.run (LockTeam.step (spdkTeam Bool)) s more).mem.returns, r.call = (true, (s.loc true).calls) :=
  spdk_team_returns _ (teamTwo.take 7) (by decide) true (by decide)

end

end LightNvm
