import LightNvm.SpdkTeam

/-! The steps of a thread in `cmd_sync_ewrc`, and what holds of every interleaving of them. -/

namespace LightNvm

open LockTeam (Prog Team)

section

variable {T : Type*} [DecidableEq T] {own : Prop} {t u : T} {g g' : SpdkMem T} {l : TeamLoc}

theorem nvmCmdWrapCpl_ne_zero (c : Cpl) : nvmCmdWrapCpl c ≠ 0 := by
  unfold nvmCmdWrapCpl
  split <;> decide

theorem nvmCmdWrapCpl_lt_iff (c : Cpl) : nvmCmdWrapCpl c < 0 ↔ ¬ c.Ok := by
  unfold nvmCmdWrapCpl Cpl.Ok
  split <;> simp_all [imp_iff_not_or]

theorem CallInv.pc (h : CallInv own t l g) (hl : l.pc.Waiting) {p : TeamPc} (hp : p.Waiting) :
    CallInv own t { l with pc := p } g := by
  have hne : ∀ {q : TeamPc}, q.Waiting → q ≠ .out := fun hq he => by simp [he, TeamPc.Waiting] at hq
  obtain ⟨w, hw, ho, hs⟩ := h.stage (hne hl)
  refine ⟨fun x v hv hv' => ⟨hne hp, (h.wraps x v hv hv').2⟩, h.later, h.returned,
    fun he => absurd he (hne hp), fun _ => ⟨w, hw, ho, ?_⟩⟩
  exact (stage_waiting hp w).mpr ((stage_waiting hl w).mp hs)

theorem CallInv.return_call (h : CallInv own t l g) {r : TeamReturn T} (hr : r.call = (t, l.calls)) :
    ((SpdkMem.returnsOf { g with returns := g.returns ++ [r] } t).map (·.call.2)) =
      List.range (l.calls + 1) := by
  have hnew : SpdkMem.returnsOf { g with returns := g.returns ++ [r] } t = g.returnsOf t ++ [r] := by
    simp [SpdkMem.returnsOf, hr]
  rw [hnew, List.map_append, h.returned, List.range_succ, List.map_singleton, hr]

theorem Unsent.fits {r : TeamReturn T} (h : Unsent t l g) (hr : r.call = (t, l.calls))
    (hres : r.res = -1) (herr : r.errno = none) : r.Fits own g := by
  refine ⟨none, by rw [hr]; exact h.2.1, ?_, hres, by simpa using herr, ?_⟩
  · rw [hr]
    exact List.count_eq_zero.mpr h.2.2
  · intro _ x _ y hy
    simp [cmdSyncEwrc, cmdSyncIo, SyncOut.failed] at hy

theorem cmdSyncEwrc_answered (c : Cpl) :
    ((cmdSyncEwrc true (some c)).ok = true ↔ c.Ok) ∧ (cmdSyncEwrc true (some c)).ret = some c.ret := by
  have hlt := nvmCmdWrapCpl_lt_iff c
  by_cases hc : c.Ok <;> simp [cmdSyncEwrc, cmdSyncIo, hlt, hc]

theorem Judged.fits {r : TeamReturn T} {w : TeamWrap T} (h : Judged own t l g w)
    (hr : r.call = (t, l.calls)) (hres : r.res = l.res) (herr : r.errno = l.errno)
    (hret : r.ret = w.ret.map g.rets) : r.Fits own g := by
  rcases h with ⟨hun, hm, hn⟩ | ⟨c, ⟨-, ha, hi, hrets⟩, hm, hn⟩
  · exact hun.fits hr (hres.trans hm) (herr.trans hn)
  · obtain ⟨hok, hcret⟩ := cmdSyncEwrc_answered c
    refine ⟨some c, by rw [hr]; exact ha, by rw [hr]; exact hi, ?_, ?_, ?_⟩
    · rw [hres, hm]
      simp [hok]
    · rw [herr, hn]
      by_cases hc : c.Ok <;> simp [hc]
    · intro hown x hx y hy
      rw [hcret] at hy
      rw [hret] at hx
      obtain ⟨r', hr', rfl⟩ := Option.map_eq_some_iff.mp hx
      obtain rfl := Option.some.inj hy
      exact hrets hown r' hr'

theorem CallInv.fail (h : CallInv own t l g) (hpc : l.pc = .out) {r : TeamReturn T}
    (hr : r.call = (t, l.calls)) :
    CallInv own t { l with calls := l.calls + 1 } { g with returns := g.returns ++ [r] } := by
  refine ⟨fun x w hw ho => h.wraps x w hw ho, fun n hn => h.later n (Nat.lt_of_succ_lt hn),
    h.return_call hr, fun _ => ?_, fun hne => absurd hpc hne⟩
  exact ⟨(h.out hpc).1, h.later _ (Nat.lt_succ_self _)⟩

theorem CallInv.alloc (h : CallInv own t l g) (hpc : l.pc = .out) (x : Nat) (ret : Option Nat) :
    CallInv own t { l with pc := .lockSubmit, wrap := x, res := 0, errno := none }
      { g with heap := Function.update g.heap x (some ⟨t, ret, 0⟩) } := by
  refine ⟨?_, h.later, h.returned, (fun he => by cases he), fun _ => ?_⟩
  · intro y w hw ho
    refine ⟨by simp, ?_⟩
    by_contra hy
    exact (h.wraps y w (by simpa [Function.update_of_ne hy] using hw) ho).1 hpc
  · exact ⟨⟨t, ret, 0⟩, by simp, rfl, h.out hpc, rfl, rfl, rfl⟩

theorem CallInv.submit (h : CallInv own t l g) (hpc : l.pc = .submit) :
    CallInv own t { l with pc := .unlockSubmit false }
      { g with inFlight := ⟨(t, l.calls), l.wrap⟩ :: g.inFlight } := by
  obtain ⟨w, hw, ho, hs⟩ := h.stage (by simp [hpc])
  simp only [Stage, hpc] at hs
  obtain ⟨⟨hp, -⟩, h0, hres, herr⟩ := hs
  refine ⟨fun x v hv hv' => ⟨by simp, (h.wraps x v hv hv').2⟩, h.later, h.returned, (fun he => by cases he),
    fun _ => ⟨w, hw, ho, ?_⟩⟩
  refine (stage_waiting (l := { l with pc := .unlockSubmit false }) trivial w).mpr
    ⟨hres, herr, .inl ⟨?_, h0⟩⟩
  have hcons : SpdkMem.pendingOf { g with inFlight := ⟨(t, l.calls), l.wrap⟩ :: g.inFlight } t =
      ⟨(t, l.calls), l.wrap⟩ :: g.pendingOf t := by simp [SpdkMem.pendingOf, SpdkMem.pending]
  rw [hcons, hp]

theorem CallInv.refused (h : CallInv own t l g) (hpc : l.pc = .submit) :
    CallInv own t { l with pc := .unlockSubmit true } g := by
  obtain ⟨w, hw, ho, hs⟩ := h.stage (by simp [hpc])
  simp only [Stage, hpc] at hs
  exact ⟨fun x v hv hv' => ⟨by simp, (h.wraps x v hv hv').2⟩, h.later, h.returned, (fun he => by cases he),
    fun _ => ⟨w, hw, ho, hs⟩⟩

theorem CallInv.judged (h : CallInv own t l g) (hpc : l.pc ≠ .out) {res : Int} {errno : Option Errno}
    (hj : ∀ w, g.heap l.wrap = some w → Stage own t l g w →
      Judged own t { l with pc := .term, res := res, errno := errno } g w) :
    CallInv own t { l with pc := .term, res := res, errno := errno } g := by
  obtain ⟨w, hw, ho, hs⟩ := h.stage hpc
  exact ⟨fun x v hv hv' => ⟨by simp, (h.wraps x v hv hv').2⟩, h.later, h.returned, (fun he => by cases he),
    fun _ => ⟨w, hw, ho, hj w hw hs⟩⟩

theorem CallInv.completed (h : CallInv own t l g) (hpc : l.pc = .check) {w : TeamWrap T}
    (hw : g.heap l.wrap = some w) (hd : w.completed ≠ 0) : CallInv own t { l with pc := .judge } g := by
  obtain ⟨v, hv, ho, hs⟩ := h.stage (by simp [hpc])
  rw [hv] at hw
  obtain rfl := Option.some.inj hw
  obtain ⟨hres, herr, hs⟩ := (stage_waiting (by simp [hpc, TeamPc.Waiting]) v).mp hs
  refine ⟨fun x v hv hv' => ⟨by simp, (h.wraps x v hv hv').2⟩, h.later, h.returned, (fun he => by cases he),
    fun _ => ⟨v, hv, ho, hres, herr, ?_⟩⟩
  rcases hs with ⟨-, h0⟩ | hs
  · exact absurd h0 hd
  · exact hs

theorem CallInv.term (h : CallInv own t l g) (hpc : l.pc = .term) {r : TeamReturn T}
    (hr : r.call = (t, l.calls)) :
    CallInv own t { l with pc := .out, calls := l.calls + 1 }
      { g with heap := Function.update g.heap l.wrap none, returns := g.returns ++ [r] } := by
  obtain ⟨w, -, -, hs⟩ := h.stage (by simp [hpc])
  have hp : g.pendingOf t = [] := by
    simp only [Stage, hpc] at hs
    rcases hs with hs | ⟨c, hc, -⟩
    · exact hs.1.1
    · exact hc.1
  refine ⟨?_, fun n hn => h.later n (Nat.lt_of_succ_lt hn), h.return_call hr, fun _ => ?_,
    fun hne => absurd rfl hne⟩
  · intro x v hv ho
    exfalso
    by_cases hx : x = l.wrap
    · simp [hx] at hv
    · exact hx (h.wraps x v (by simpa [Function.update_of_ne hx] using hv) ho).2
  · exact ⟨hp, h.later _ (Nat.lt_succ_self _)⟩

/-- The callback of a command, for the thread that waits for it. -/
theorem CallInv.storeCompleted (h : CallInv own t l g) (hm : MemInv own g) {req : Request T} {c : Cpl}
    (hrun : g.running = some (req, c)) {w : TeamWrap T} (hw : g.heap req.arg = some w)
    (hret : own → ∀ r ∈ w.ret, g.rets r = c.ret) (ht : req.call.1 = t) :
    CallInv own t l (g.storeCompleted req w (nvmCmdWrapCpl c)) := by
  obtain ⟨hreq, hans⟩ := hm.running_mem hrun
  obtain rfl := h.pending_call hreq ht
  have hmem : (⟨(t, l.calls), l.wrap⟩ : Request T) ∈ g.pendingOf t := by
    simp [SpdkMem.pendingOf, hreq]
  obtain ⟨hwait, hpend, v, hv, ho, -, hres, herr⟩ := h.waits (List.ne_nil_of_mem hmem)
  rw [hv] at hw
  obtain rfl := Option.some.inj hw
  have hperm := (pending_storeCompleted hrun v (nvmCmdWrapCpl c)).filter fun other =>
    decide (other.call.1 = t)
  rw [List.filter_cons_of_pos (by simp)] at hperm
  have hnil : (g.storeCompleted ⟨(t, l.calls), l.wrap⟩ v (nvmCmdWrapCpl c)).pendingOf t = [] := by
    have hlen := hperm.length_eq
    rw [show (g.pending.filter fun other => decide (other.call.1 = t)) = g.pendingOf t from rfl, hpend] at hlen
    exact pendingOf_eq_nil_iff.mpr (by simpa using hlen)
  refine ⟨?_, ?_, h.returned, ?_, fun _ => ?_⟩
  · intro x w' hw' ho'
    by_cases hx : x = l.wrap
    · exact ⟨fun he => by simp [he, TeamPc.Waiting] at hwait, hx⟩
    · exact h.wraps x w' (by simpa [SpdkMem.storeCompleted, Function.update_of_ne hx] using hw') ho'
  · intro n hn
    refine ⟨(h.later n hn).1, fun hin => ?_⟩
    rcases List.mem_cons.mp hin with he | hin
    · exact Nat.ne_of_gt hn (Prod.mk.inj he).2
    · exact (h.later n hn).2 hin
  · exact fun he => by simp [he, TeamPc.Waiting] at hwait
  · refine ⟨{ v with completed := nvmCmdWrapCpl c }, by simp [SpdkMem.storeCompleted], ho, ?_⟩
    refine (stage_waiting hwait _).mpr ⟨hres, herr, .inr ⟨c, ⟨hnil, hans, ?_, hret⟩, rfl⟩⟩
    exact (List.count_cons_self).trans
      (congrArg (· + 1) (List.count_eq_zero.mpr (hm.uninvoked _ hreq)))

omit [DecidableEq T] in
theorem running_outside {pc : TeamPc} (h : pc.inside ≠ true) (g : SpdkMem T) : Running own pc g := by
  unfold Running
  cases pc <;> simp_all [TeamPc.inside]

omit [DecidableEq T] in
theorem Running.keep {pc : TeamPc} (h : Running own pc g) (hrun : g'.running = g.running)
    (hrets : g'.rets = g.rets)
    (hheap : ∀ x, g.running = some x → g'.heap x.1.arg = g.heap x.1.arg) : Running own pc g' := by
  unfold Running at h ⊢
  rw [hrun]
  cases pc with
  | cbCompleted =>
    obtain ⟨x, hx, hr⟩ := h
    exact ⟨x, hx, fun hown w hw => by rw [hrets]; exact hr hown w (by rw [← hheap x hx]; exact hw)⟩
  | _ => exact h

theorem CallInv.own_wrap (h : CallInv own t l g) (hpc : l.pc ≠ .out) :
    ∃ w, g.heap l.wrap = some w ∧ w.owner = t := by
  obtain ⟨w, hw, ho, -⟩ := h.stage hpc
  exact ⟨w, hw, ho⟩

/-- A wrap whose command is pending is not that of a thread without one. -/
theorem MemInv.arg_ne (h : MemInv own g) (hp : g.pendingOf t = []) {x : Nat} {w : TeamWrap T}
    (hw : g.heap x = some w) (ho : w.owner = t) {req : Request T} (hreq : req ∈ g.pending) :
    req.arg ≠ x := by
  rintro rfl
  obtain ⟨v, hv, hv'⟩ := h.live req hreq
  rw [hv] at hw
  obtain rfl := Option.some.inj hw
  exact pendingOf_eq_nil_iff.mp hp req hreq (hv'.symm.trans ho)

theorem CallInv.term_pending (h : CallInv own t l g) (hpc : l.pc = .term) : g.pendingOf t = [] := by
  by_contra hne
  simpa [hpc, TeamPc.Waiting] using (h.waits hne).1

theorem MemInv.term (h : MemInv own g) (hl : CallInv own t l g) (hpc : l.pc = .term)
    {w : TeamWrap T} (hw : g.heap l.wrap = some w) (ho : w.owner = t) :
    MemInv own { g with
      heap := Function.update g.heap l.wrap none
      returns := g.returns ++ [⟨(t, l.calls), l.res, l.errno, w.ret.map g.rets⟩] } := by
  have hp := hl.term_pending hpc
  obtain ⟨v, hv, -, hs⟩ := hl.stage (by simp [hpc])
  rw [hv] at hw
  obtain rfl := Option.some.inj hw
  simp only [Stage, hpc] at hs
  have hfits : (⟨(t, l.calls), l.res, l.errno, v.ret.map g.rets⟩ : TeamReturn T).Fits own g :=
    hs.fits rfl rfl rfl rfl
  have hret := h.return hfits fun req hreq hc => pendingOf_eq_nil_iff.mp hp req hreq (by rw [hc])
  exact hret.free fun req hreq => h.arg_ne hp hv ho hreq

theorem team_own {a : TeamAct} (hm : MemInv own g) (h : LocInv own t l g) (hc : teamCan t a g l)
    (hown : own → OwnRet t a g) :
    MemInv own (teamAct t a g l).1 ∧ LocInv own t (teamAct t a g l).2 (teamAct t a g l).1 := by
  obtain ⟨h, hr⟩ := h
  cases a with
  | call ret wrap =>
    obtain ⟨hpc, hfree⟩ := hc
    have hun := h.out hpc
    cases wrap with
    | none =>
      refine ⟨hm.return (hun.fits rfl rfl rfl) ?_, h.fail hpc rfl, running_outside ?_ _⟩
      · exact fun req hreq hc => pendingOf_eq_nil_iff.mp hun.1 req hreq (by rw [hc])
      · simp [teamAct, hpc, TeamPc.inside]
    | some x =>
      have hx : g.heap x = none := hfree x rfl
      exact ⟨hm.alloc hx hown, h.alloc hpc x ret, running_outside (by simp [teamAct, TeamPc.inside]) _⟩
  | submit taken =>
    have hpc : l.pc = .submit := hc
    obtain ⟨w, hw, ho, hs⟩ := h.stage (by simp [hpc])
    have hrun : g.running = none := by simpa only [Running, hpc] using hr
    simp only [Stage, hpc] at hs
    simp only [teamAct, hw]
    cases taken with
    | false => exact ⟨hm, h.refused hpc, hrun⟩
    | true =>
      refine ⟨hm.submit ⟨w, hw, ho⟩ ?_ hs.1.2.1 hs.1.2.2 ?_, h.submit hpc, hrun⟩
      · exact fun other hother hc => pendingOf_eq_nil_iff.mp hs.1.1 other hother (by rw [hc])
      · intro r hr hc
        have hmem : l.calls ∈ (g.returnsOf t).map (·.call.2) :=
          List.mem_map.mpr ⟨r, by simp [SpdkMem.returnsOf, hr, hc], by rw [hc]⟩
        simp [h.returned] at hmem
  | check =>
    have hpc : l.pc = .check := hc
    obtain ⟨w, hw, -⟩ := h.own_wrap (by simp [hpc])
    simp only [teamAct, hw]
    by_cases hd : w.completed = 0
    · rw [if_pos hd]
      exact ⟨hm, h.pc (by simp [hpc, TeamPc.Waiting]) (by simp [TeamPc.Waiting]), trivial⟩
    · rw [if_neg hd]
      exact ⟨hm, h.completed hpc hw hd, trivial⟩
  | poll =>
    obtain ⟨hpc, hne⟩ := hc
    have hrun : g.running = none := by simpa only [Running, hpc] using hr
    cases hcq : g.cq with
    | nil => exact absurd hcq hne
    | cons x cq =>
      simp only [teamAct, hcq]
      refine ⟨hm.poll hcq hrun, ?_, rfl⟩
      exact (h.frame (frame_poll hcq hrun t)).pc (by simp [hpc, TeamPc.Waiting]) (by simp [TeamPc.Waiting])
  | storeRet =>
    have hpc : l.pc = .cbRet := hc
    have hsome : g.running.isSome := by simpa only [Running, hpc] using hr
    obtain ⟨⟨req, c⟩, hrun⟩ := Option.isSome_iff_exists.mp hsome
    have hreq := (hm.running_mem hrun).1
    obtain ⟨w, hw, -⟩ := hm.live req hreq
    have hwait : l.pc.Waiting := by simp [hpc, TeamPc.Waiting]
    simp only [teamAct, hrun, hw]
    refine ⟨hm.storeRet w c.ret, (h.frame (frame_storeRet hm hreq hw c.ret t)).pc hwait
      (by simp [TeamPc.Waiting]), (req, c), ?_, fun _ v hv r hr => ?_⟩
    · unfold SpdkMem.storeRet
      split <;> exact hrun
    · have hvw : v = w := by
        refine Option.some.inj (Eq.trans (Eq.symm ?_) hw)
        unfold SpdkMem.storeRet at hv
        split at hv <;> exact hv
      have hret : w.ret = some r := hvw ▸ hr
      simp [SpdkMem.storeRet, hret]
  | storeCompleted =>
    have hpc : l.pc = .cbCompleted := hc
    obtain ⟨⟨req, c⟩, hrun, hret⟩ : ∃ x, g.running = some x ∧
        (own → ∀ w ∈ g.heap x.1.arg, ∀ r ∈ w.ret, g.rets r = x.2.ret) := by
      simpa only [Running, hpc] using hr
    obtain ⟨w, hw, ho⟩ := hm.live req (hm.running_mem hrun).1
    have hwait : l.pc.Waiting := by simp [hpc, TeamPc.Waiting]
    simp only [teamAct, hrun, hw]
    refine ⟨hm.storeCompleted hrun hw _, CallInv.pc ?_ hwait (by simp [TeamPc.Waiting]), rfl⟩
    by_cases ht : req.call.1 = t
    · exact h.storeCompleted hm hrun hw (fun hown => hret hown w hw) ht
    · exact h.frame (frame_storeCompleted hrun hw ho _ ht)
  | leave =>
    have hpc : l.pc = .poll := hc
    have hrun : g.running = none := by simpa only [Running, hpc] using hr
    exact ⟨hm, h.pc (by simp [hpc, TeamPc.Waiting]) (by simp [TeamPc.Waiting]), hrun⟩
  | judge =>
    have hpc : l.pc = .judge := hc
    obtain ⟨w, hw, -, hs⟩ := h.stage (by simp [hpc])
    simp only [Stage, hpc] at hs
    obtain ⟨hres, herr, c, ha, hd⟩ := hs
    have hlt := nvmCmdWrapCpl_lt_iff c
    simp only [teamAct, hw]
    refine ⟨hm, ?_⟩
    have hsame : ∀ v, g.heap l.wrap = some v → v = w := fun v hv => Option.some.inj (hv.symm.trans hw)
    by_cases hok : c.Ok
    · rw [if_neg (by rw [hd, hlt]; exact not_not.mpr hok)]
      refine ⟨h.judged (by simp [hpc]) fun v hv _ => ?_, trivial⟩
      rw [hsame v hv]
      exact .inr ⟨c, ha, by simp [hres, hok], by simp [herr, hok]⟩
    · rw [if_pos (by rw [hd, hlt]; exact hok)]
      refine ⟨h.judged (by simp [hpc]) fun v hv _ => ?_, trivial⟩
      rw [hsame v hv]
      exact .inr ⟨c, ha, by simp [hok], by simp [hok]⟩
  | term =>
    have hpc : l.pc = .term := hc
    obtain ⟨w, hw, ho⟩ := h.own_wrap (by simp [hpc])
    simp only [teamAct, hw]
    exact ⟨hm.term h hpc hw ho, h.term hpc rfl, trivial⟩

theorem team_other {a : TeamAct} {m : TeamLoc} (hu : t ≠ u)
    (hin : ¬ (l.pc.inside = true ∧ m.pc.inside = true)) (hm : MemInv own g) (h : LocInv own t l g)
    (h' : LocInv own u m g) (hc : teamCan t a g l) : LocInv own u m (teamAct t a g l).1 := by
  obtain ⟨h, hr⟩ := h
  obtain ⟨h', hr'⟩ := h'
  -- a thread outside does not look at the callback that runs
  have hout : l.pc.inside = true → ∀ g' : SpdkMem T, Running own m.pc g' := fun hl g' =>
    running_outside (fun hm => hin ⟨hl, hm⟩) g'
  cases a with
  | call ret wrap =>
    obtain ⟨hpc, hfree⟩ := hc
    cases wrap with
    | none => exact ⟨h'.frame (frame_return _ hu), hr'.keep rfl rfl fun _ _ => rfl⟩
    | some x =>
      have hx : g.heap x = none := hfree x rfl
      refine ⟨h'.frame (frame_alloc hx ret hu), hr'.keep rfl rfl fun y hy => ?_⟩
      obtain ⟨w, hw, -⟩ := hm.live y.1 (hm.running_mem hy).1
      exact Function.update_of_ne (fun he => by rw [he, hx] at hw; cases hw) _ _
  | submit taken =>
    have hpc : l.pc = .submit := hc
    obtain ⟨w, hw, -⟩ := h.own_wrap (by simp [hpc])
    simp only [teamAct, hw]
    cases taken with
    | false => exact ⟨h', hr'⟩
    | true => exact ⟨h'.frame (frame_submit _ hu), hout (by simp [hpc, TeamPc.inside]) _⟩
  | check =>
    have hpc : l.pc = .check := hc
    obtain ⟨w, hw, -⟩ := h.own_wrap (by simp [hpc])
    simp only [teamAct, hw]
    exact ⟨h', hr'⟩
  | poll =>
    obtain ⟨hpc, hne⟩ := hc
    have hrun : g.running = none := by simpa only [Running, hpc] using hr
    cases hcq : g.cq with
    | nil => exact absurd hcq hne
    | cons x cq =>
      simp only [teamAct, hcq]
      exact ⟨h'.frame (frame_poll hcq hrun u), hout (by simp [hpc, TeamPc.inside]) _⟩
  | storeRet =>
    have hpc : l.pc = .cbRet := hc
    have hsome : g.running.isSome := by simpa only [Running, hpc] using hr
    obtain ⟨⟨req, c⟩, hrun⟩ := Option.isSome_iff_exists.mp hsome
    have hreq := (hm.running_mem hrun).1
    obtain ⟨w, hw, -⟩ := hm.live req hreq
    simp only [teamAct, hrun, hw]
    exact ⟨h'.frame (frame_storeRet hm hreq hw c.ret u), hout (by simp [hpc, TeamPc.inside]) _⟩
  | storeCompleted =>
    have hpc : l.pc = .cbCompleted := hc
    obtain ⟨⟨req, c⟩, hrun, hret⟩ : ∃ x, g.running = some x ∧
        (own → ∀ w ∈ g.heap x.1.arg, ∀ r ∈ w.ret, g.rets r = x.2.ret) := by
      simpa only [Running, hpc] using hr
    obtain ⟨w, hw, ho⟩ := hm.live req (hm.running_mem hrun).1
    simp only [teamAct, hrun, hw]
    refine ⟨?_, hout (by simp [hpc, TeamPc.inside]) _⟩
    by_cases ht : req.call.1 = u
    · exact h'.storeCompleted hm hrun hw (fun hown => hret hown w hw) ht
    · exact h'.frame (frame_storeCompleted hrun hw ho _ ht)
  | leave => exact ⟨h', hr'⟩
  | judge =>
    have hpc : l.pc = .judge := hc
    obtain ⟨w, hw, -⟩ := h.own_wrap (by simp [hpc])
    simp only [teamAct, hw]
    exact ⟨h', hr'⟩
  | term =>
    have hpc : l.pc = .term := hc
    obtain ⟨w, hw, ho⟩ := h.own_wrap (by simp [hpc])
    simp only [teamAct, hw]
    have hfree := h'.frame (frame_free (x := l.wrap) hw (ho.trans_ne hu))
    refine ⟨hfree.frame (frame_return _ hu), hr'.keep rfl rfl fun y hy => ?_⟩
    exact Function.update_of_ne
      (hm.arg_ne (h.term_pending hpc) hw ho (hm.running_mem hy).1) _ _

theorem team_kept (own : Prop) : LockTeam.Kept ((spdkTeam T).restrict fun t a g => own → OwnRet t a g)
    (MemInv own) (fun g => g.running = none) (LocInv own) where
  lock := by
    rintro t l l' g hm hrun ⟨h, -⟩ hl
    cases hpc : l.pc with
    | lockSubmit =>
      obtain rfl : { l with pc := TeamPc.submit } = l' := by simpa [spdkTeam, Prog.restrict, teamLock, hpc] using hl
      obtain ⟨w, hw, ho, hs⟩ := h.stage (by simp [hpc])
      simp only [Stage, hpc] at hs
      exact ⟨⟨fun x v hv hv' => ⟨by simp, (h.wraps x v hv hv').2⟩, h.later, h.returned, (fun he => by cases he),
        fun _ => ⟨w, hw, ho, hs⟩⟩, hrun⟩
    | lockPoll =>
      obtain rfl : { l with pc := TeamPc.poll } = l' := by simpa [spdkTeam, Prog.restrict, teamLock, hpc] using hl
      exact ⟨h.pc (by simp [hpc, TeamPc.Waiting]) (by simp [TeamPc.Waiting]), hrun⟩
    | _ => simp [spdkTeam, Prog.restrict, teamLock, hpc] at hl
  unlock := by
    rintro t l l' g hm ⟨h, hr⟩ hl
    cases hpc : l.pc with
    | unlockSubmit err =>
      refine ⟨by simpa only [Running, hpc] using hr, ?_⟩
      cases err with
      | false =>
        obtain rfl : { l with pc := TeamPc.check } = l' := by
          simpa [spdkTeam, Prog.restrict, teamUnlock, hpc] using hl
        exact ⟨h.pc (by simp [hpc, TeamPc.Waiting]) (by simp [TeamPc.Waiting]), trivial⟩
      | true =>
        obtain rfl : { l with pc := TeamPc.term, res := -1 } = l' := by
          simpa [spdkTeam, Prog.restrict, teamUnlock, hpc] using hl
        refine ⟨h.judged (by simp [hpc]) fun w _ hs => ?_, trivial⟩
        simp only [Stage, hpc] at hs
        exact .inl ⟨hs.1, rfl, hs.2.2.2⟩
    | unlockPoll =>
      obtain rfl : { l with pc := TeamPc.check } = l' := by
        simpa [spdkTeam, Prog.restrict, teamUnlock, hpc] using hl
      exact ⟨by simpa only [Running, hpc] using hr,
        h.pc (by simp [hpc, TeamPc.Waiting]) (by simp [TeamPc.Waiting]), trivial⟩
    | _ => simp [spdkTeam, Prog.restrict, teamUnlock, hpc] at hl
  own := fun hm h hc => team_own hm h hc.1 hc.2
  other := fun hu hin hm h h' hc => team_other hu hin hm h h' hc.1
  outside := by
    rintro t a g l hout hm ⟨h, -⟩ hrun ⟨hc, -⟩
    change l.pc.inside ≠ true at hout
    cases a with
    | call ret wrap => cases wrap <;> exact hrun
    | check | judge | term =>
      obtain ⟨w, hw, -⟩ := h.own_wrap (by rw [show l.pc = _ from hc]; simp)
      simpa [spdkTeam, Prog.restrict, teamAct, hw] using hrun
    | poll => exact absurd (by rw [hc.1]; rfl) hout
    | submit | storeRet | storeCompleted | leave => exact absurd (by rw [show l.pc = _ from hc]; rfl) hout
  env := by
    rintro ⟨req, c⟩ g hm hreq
    refine ⟨hm.answer hreq c, fun hrun => hrun, fun {t l} h => ?_⟩
    exact ⟨h.1.frame (frame_answer hreq c t), h.2.keep rfl rfl fun _ _ => rfl⟩

theorem team_init_inv (own : Prop) (rets : Nat → Ret) :
    LockTeam.Inv ((spdkTeam T).restrict fun t a g => own → OwnRet t a g) (MemInv own)
      (fun g => g.running = none) (LocInv own) (teamInit rets) where
  exclusive t := by simp [teamInit, spdkTeam, Prog.restrict, TeamPc.inside]
  mem := by constructor <;> simp [teamInit, SpdkMem.init, SpdkMem.pending]
  free _ := rfl
  loc t := by
    refine ⟨⟨?_, ?_, ?_, ?_, ?_⟩, trivial⟩ <;>
      simp [teamInit, SpdkMem.init, SpdkMem.answersOf, SpdkMem.returnsOf, Unsent, SpdkMem.pendingOf,
        SpdkMem.pending]

/-- A step that gives no call the `ret` of another one. -/
def TeamOwnRet (s : Team T TeamLoc (SpdkMem T)) : LockTeam.Event T TeamAct (TeamAnswer T) → Prop
  | .act t a => OwnRet t a s.mem
  | _ => True

theorem team_run_inv {rets : Nat → Ret} {es : List (LockTeam.Event T TeamAct (TeamAnswer T))}
    (hes : Runs.Along (LockTeam.step (spdkTeam T)) (LockTeam.Enabled (spdkTeam T)) (teamInit rets) es)
    {own : Prop} (hown : own → Runs.Along (LockTeam.step (spdkTeam T)) TeamOwnRet (teamInit rets) es) :
    LockTeam.Inv ((spdkTeam T).restrict fun t a g => own → OwnRet t a g) (MemInv own)
      (fun g => g.running = none) (LocInv own)
      (Runs.run (LockTeam.step (spdkTeam T)) (teamInit rets) es) := by
  have hboth : Runs.Along (LockTeam.step (spdkTeam T))
      (fun s e => LockTeam.Enabled (spdkTeam T) s e ∧ (own → TeamOwnRet s e)) (teamInit rets) es := by
    by_cases ho : own
    · exact (hes.and (hown ho)).mono fun s e h => ⟨h.1, fun _ => h.2⟩
    · exact hes.mono fun s e h => ⟨h, fun h => absurd h ho⟩
  refine (team_init_inv own rets).run (team_kept own) (hboth.mono ?_)
  rintro s e ⟨he, ho⟩
  cases e with
  | act t a => exact ⟨he, ho⟩
  | _ => exact he

/-- In every interleaving at most one thread is inside the functions of SPDK on the queue pair, and
the thread that unlocks has the lock. No wrap is used before `calloc` or after `free`, or freed twice;
the wraps on the heap are those of the calls under way, one for each. A command that SPDK has is the one
of a call that waits for it. -/
theorem spdk_team_safe (rets : Nat → Ret) (es : List (LockTeam.Event T TeamAct (TeamAnswer T)))
    (hes : Runs.Along (LockTeam.step (spdkTeam T)) (LockTeam.Enabled (spdkTeam T)) (teamInit rets) es) :
    let s := Runs.run (LockTeam.step (spdkTeam T)) (teamInit rets) es
    (∀ t u, (s.loc t).pc.inside = true → (s.loc u).pc.inside = true → t = u) ∧
    (∀ t, (teamUnlock (s.loc t)).isSome → s.lock = some t) ∧
    s.mem.fault = false ∧
    (∀ x, (s.mem.heap x).isSome ↔ ∃ t, (s.loc t).pc ≠ .out ∧ (s.loc t).wrap = x) ∧
    (∀ t u, (s.loc t).pc ≠ .out → (s.loc u).pc ≠ .out → (s.loc t).wrap = (s.loc u).wrap → t = u) ∧
    (s.mem.pending.map Request.call).Nodup ∧
    ∀ req ∈ s.mem.pending, (s.loc req.call.1).pc.Waiting ∧
      req = ⟨(req.call.1, (s.loc req.call.1).calls), (s.loc req.call.1).wrap⟩ := by
  intro s
  have hi := team_run_inv hes False.elim
  change LockTeam.Inv _ _ _ _ s at hi
  refine ⟨fun t u ht hu => hi.exclusive.eq ht hu, ?_, hi.mem.sound, ?_, ?_, hi.mem.calls, ?_⟩
  · intro t ht
    obtain ⟨l', hl'⟩ := Option.isSome_iff_exists.mp ht
    exact (hi.exclusive t).mpr ((spdkTeam T).unlock_inside hl').1
  · intro x
    constructor
    · intro hx
      obtain ⟨w, hw⟩ := Option.isSome_iff_exists.mp hx
      obtain ⟨hpc, he⟩ := (hi.loc w.owner).1.wraps x w hw rfl
      exact ⟨w.owner, hpc, he.symm⟩
    · rintro ⟨t, hpc, rfl⟩
      obtain ⟨w, hw, -⟩ := (hi.loc t).1.own_wrap hpc
      simp [hw]
  · intro t u ht hu he
    obtain ⟨w, hw, ho⟩ := (hi.loc t).1.own_wrap ht
    obtain ⟨w', hw', ho'⟩ := (hi.loc u).1.own_wrap hu
    rw [← he, hw] at hw'
    rw [← ho, ← ho', Option.some.inj hw']
  · intro req hreq
    have hmem : req ∈ s.mem.pendingOf req.call.1 := by simp [SpdkMem.pendingOf, hreq]
    exact ⟨((hi.loc req.call.1).1.waits (List.ne_nil_of_mem hmem)).1,
      (hi.loc req.call.1).1.pending_call hreq rfl⟩

/-- Thread `false` runs the callback of the command of thread `true`, which the controller refuses. -/
def teamTwo : List (LockTeam.Event Bool TeamAct (TeamAnswer Bool)) :=
  [.act false (.call none (some 8)), .act true (.call (some 1) (some 9)), .lock true,
    .act true (.submit true), .unlock true, .lock false, .act false (.submit true), .unlock false,
    .env ⟨⟨(true, 0), 9⟩, .code 2⟩, .act false .check, .lock false, .act false .poll,
    .act false .storeRet, .act false .storeCompleted, .act false .leave, .unlock false,
    .act true .check, .act true .judge, .act true .term]

theorem teamTwo_enabled : Runs.Along (LockTeam.step (spdkTeam Bool)) (LockTeam.Enabled (spdkTeam Bool))
    (teamInit fun _ => ⟨0, 0⟩) teamTwo := by decide

theorem spdk_team_safe_two :
    (Runs.run (LockTeam.step (spdkTeam Bool)) (teamInit fun _ => ⟨0, 0⟩) teamTwo).mem.fault = false :=
  (spdk_team_safe _ teamTwo teamTwo_enabled).2.2.1

/-- Each thread's calls return in order and once, and each of them with what `cmd_sync_ewrc` returns for
the controller's one answer to its own command, for which the callback has run once. When no two calls
under way have the same `ret`, that is also what its `ret` holds. -/
theorem spdk_team_results (rets : Nat → Ret) (es : List (LockTeam.Event T TeamAct (TeamAnswer T)))
    (hes : Runs.Along (LockTeam.step (spdkTeam T)) (LockTeam.Enabled (spdkTeam T)) (teamInit rets) es) :
    let s := Runs.run (LockTeam.step (spdkTeam T)) (teamInit rets) es
    (∀ t, (s.mem.returnsOf t).map (·.call.2) = List.range (s.loc t).calls) ∧
    ∀ r ∈ s.mem.returns,
      r.Fits (Runs.Along (LockTeam.step (spdkTeam T)) TeamOwnRet (teamInit rets) es) s.mem := by
  intro s
  have hi := team_run_inv hes id
  exact ⟨fun t => (hi.loc t).1.returned, fun r hr => (hi.mem.returned r hr).1⟩

theorem spdk_team_results_two :
    let s := Runs.run (LockTeam.step (spdkTeam Bool)) (teamInit fun _ => ⟨0, 0⟩) teamTwo
    (s.mem.returns.map fun r => (r.call, r.res, r.errno, r.ret)) =
      [((true, 0), -1, some .eio, some ⟨0, 2⟩)] ∧
      ∀ r ∈ s.mem.returns, r.Fits (Runs.Along (LockTeam.step (spdkTeam Bool)) TeamOwnRet
        (teamInit fun _ => ⟨0, 0⟩) teamTwo) s.mem := by
  exact ⟨by decide, (spdk_team_results _ teamTwo teamTwo_enabled).2⟩

end

end LightNvm
