import Mathlib.Data.Nat.ModEq
import LightNvm.S20Flat
import LightNvm.Runs

/-! The asynchronous loop as a machine: `vblk_io_async` submits one command for each
stripe, reaps completions when the stack of return structures is nearly used up, and
waits after every round over the chunks. Completions come in any order and batching. -/

namespace LightNvm

/-- Where `vblk_io_async` stands. A reap before a stripe holds no return structure yet,
one after `EAGAIN` holds that of the stripe. -/
inductive AsyncPc where
  | stripe (stripe : Nat)
  | reap (stripe : Nat) (held : Option Nat) (reaped : Bool)
  | take (stripe : Nat)
  | submit (stripe : Nat) (ret : Nat)
  | wait (stripe : Nat)
  | drain
  | returned (ok : Bool)
  deriving DecidableEq, Repr

structure AsyncCmd where
  stripe : Nat
  ret : Nat
  deriving DecidableEq, Repr

structure AsyncSt where
  pc : AsyncPc
  outstanding : List AsyncCmd
  submitted : List Nat
  rets : Nat → Option Nat
  retsp : Nat
  nerr : Nat

/-- What the backend does when it is called: the completions it delivers, each with its
success, and whether it fails or, for a submission, has no room. -/
structure AsyncEvent where
  completions : List (Nat × Bool)
  again : Bool
  fails : Bool

def AsyncSt.callback (s : AsyncSt) (completion : Nat × Bool) : AsyncSt :=
  match s.outstanding.find? (fun c => c.stripe = completion.1) with
  | none => s
  | some c =>
    let retsp := (s.retsp + 2 ^ 32 - 1) % 2 ^ 32
    { s with
      outstanding := s.outstanding.erase c
      rets := fun i => if i = retsp then some c.ret else s.rets i
      retsp := retsp
      nerr := if completion.2 then s.nerr else s.nerr + 1 }

def AsyncSt.deliver (s : AsyncSt) (e : AsyncEvent) : AsyncSt := e.completions.foldl callback s

structure AsyncCall where
  vblk : VblkL
  pad : Bool
  count : Nat
  offset : Nat
  depth : Nat

def AsyncCall.cmd (call : AsyncCall) (stripe : Nat) : CmdL :=
  call.vblk.asyncCmd call.pad (call.offset / call.vblk.geo.nbytes) stripe

def AsyncCall.nstripes (call : AsyncCall) : Nat := call.vblk.nstripes call.count

def AsyncCall.init (rets : Nat → Option Nat) (retsp : Nat) : AsyncSt :=
  ⟨.stripe 0, [], [], rets, retsp, 0⟩

def AsyncCall.step (call : AsyncCall) (s : AsyncSt) (e : AsyncEvent) : AsyncSt :=
  match s.pc with
  | .stripe stripe =>
    if stripe < call.nstripes then
      if s.retsp = (call.depth + 2 ^ 32 - 1) % 2 ^ 32 then { s with pc := .reap stripe none false }
      else { s with pc := .take stripe }
    else { s with pc := .drain }
  | .reap stripe held reaped =>
    if e.fails then { s with pc := .returned false }
    else
      let s' := s.deliver e
      if s'.outstanding.length < s.outstanding.length then { s' with pc := .reap stripe held true }
      else if reaped then
        { s' with pc := match held with | none => .take stripe | some ret => .submit stripe ret }
      else s'
  | .take stripe =>
    { s with
      retsp := (s.retsp + 1) % 2 ^ 32
      pc := match s.rets s.retsp with | none => .returned false | some ret => .submit stripe ret }
  | .submit stripe ret =>
    if e.again then { s with pc := .reap stripe (some ret) false }
    else if e.fails then { s with pc := .returned false }
    else { s with
      outstanding := ⟨stripe, ret⟩ :: s.outstanding
      submitted := s.submitted ++ [stripe]
      pc := if (stripe + 1) % call.vblk.nblks = 0 then .wait stripe else .stripe (stripe + 1) }
  | .wait stripe =>
    if e.fails then { s with pc := .returned false }
    else
      let s' := s.deliver e
      if s'.outstanding = [] then { s' with pc := .stripe (stripe + 1) } else s'
  | .drain =>
    if e.fails then { s with pc := .returned false }
    else
      let s' := s.deliver e
      if s'.outstanding = [] then { s' with pc := .returned true } else s'
  | .returned _ => s

/-! What holds at every step. -/

def AsyncPc.next (nstripes : Nat) : AsyncPc → Option Nat
  | .stripe j | .reap j _ _ | .take j | .submit j _ => some j
  | .wait j => some (j + 1)
  | .drain => some nstripes
  | .returned _ => none

def AsyncPc.round (n nstripes : Nat) : AsyncPc → Option Nat
  | .stripe j | .reap j _ _ | .take j | .submit j _ | .wait j => some (j / n)
  | .drain => some (nstripes / n)
  | .returned _ => none

def AsyncPc.entered : AsyncPc → Bool
  | .reap _ _ _ | .take _ | .submit _ _ => true
  | _ => false

/-- The first `m` stripes have gone out in their order; those outstanding are of round `r`. -/
structure AsyncInv (n nstripes m r : Nat) (s : AsyncSt) : Prop where
  submitted : s.submitted = List.range m
  le : m ≤ nstripes
  next : ∀ j ∈ s.pc.next nstripes, j = m
  entered : s.pc.entered = true → m < nstripes
  outstanding : ∀ c ∈ s.outstanding, c.stripe < m ∧ c.stripe / n = r
  round : ∀ r' ∈ s.pc.round n nstripes, s.outstanding ≠ [] → r' = r
  nodup : (s.outstanding.map AsyncCmd.stripe).Nodup

theorem callback_spec (s : AsyncSt) (completion : Nat × Bool) :
    (s.callback completion).pc = s.pc ∧ (s.callback completion).submitted = s.submitted ∧
      (s.callback completion).outstanding.Sublist s.outstanding := by
  simp only [AsyncSt.callback]
  split
  · exact ⟨rfl, rfl, List.Sublist.refl _⟩
  · exact ⟨rfl, rfl, List.erase_sublist⟩

theorem deliver_spec (s : AsyncSt) (e : AsyncEvent) :
    (s.deliver e).pc = s.pc ∧ (s.deliver e).submitted = s.submitted ∧
      (s.deliver e).outstanding.Sublist s.outstanding := by
  rw [AsyncSt.deliver]
  generalize e.completions = cs
  induction cs generalizing s with
  | nil => exact ⟨rfl, rfl, List.Sublist.refl _⟩
  | cons c cs ih =>
    obtain ⟨hpc, hsub, hout⟩ := ih (s.callback c)
    obtain ⟨hpc', hsub', hout'⟩ := callback_spec s c
    exact ⟨hpc.trans hpc', hsub.trans hsub', hout.trans hout'⟩

section

variable {n nstripes m r : Nat} {s : AsyncSt}

theorem AsyncInv.mono (h : AsyncInv n nstripes m r s) {s' : AsyncSt} (hsub : s'.submitted = s.submitted)
    (hout : s'.outstanding.Sublist s.outstanding)
    (hnext : ∀ j ∈ s'.pc.next nstripes, j ∈ s.pc.next nstripes)
    (hent : s'.pc.entered = true → m < nstripes)
    (hround : ∀ r' ∈ s'.pc.round n nstripes, s'.outstanding ≠ [] → r' ∈ s.pc.round n nstripes) :
    AsyncInv n nstripes m r s' where
  submitted := hsub.trans h.submitted
  le := h.le
  next j hj := h.next j (hnext j hj)
  entered := hent
  outstanding c hc := h.outstanding c (hout.subset hc)
  round r' hr' hne := h.round r' (hround r' hr' hne) (fun h0 => hne (by simpa [h0] using hout))
  nodup := h.nodup.sublist (hout.map _)

theorem AsyncInv.deliver (h : AsyncInv n nstripes m r s) (e : AsyncEvent) :
    AsyncInv n nstripes m r (s.deliver e) := by
  obtain ⟨hpc, hsub, hout⟩ := deliver_spec s e
  apply h.mono hsub hout
  · rw [hpc]
    exact fun _ hj => hj
  · rw [hpc]
    exact h.entered
  · rw [hpc]
    exact fun _ hr _ => hr

theorem AsyncInv.setPc (h : AsyncInv n nstripes m r s) {pc : AsyncPc}
    (hnext : ∀ j ∈ pc.next nstripes, j ∈ s.pc.next nstripes) (hent : pc.entered = true → m < nstripes)
    (hround : ∀ r' ∈ pc.round n nstripes, s.outstanding ≠ [] → r' ∈ s.pc.round n nstripes) :
    AsyncInv n nstripes m r { s with pc := pc } :=
  h.mono rfl (List.Sublist.refl _) hnext hent hround

theorem AsyncInv.returned (h : AsyncInv n nstripes m r s) (ok : Bool) :
    AsyncInv n nstripes m r { s with pc := .returned ok } :=
  h.setPc (by simp [AsyncPc.next]) (by simp [AsyncPc.entered]) (by simp [AsyncPc.round])

theorem AsyncInv.submit {j ret : Nat} (hpc : s.pc = .submit j ret) (h : AsyncInv n nstripes m r s) :
    AsyncInv n nstripes (m + 1) (m / n) { s with
      outstanding := ⟨j, ret⟩ :: s.outstanding
      submitted := s.submitted ++ [j]
      pc := if (j + 1) % n = 0 then .wait j else .stripe (j + 1) } := by
  obtain rfl : j = m := h.next j (by simp [hpc, AsyncPc.next])
  have hlt : j < nstripes := h.entered (by simp [hpc, AsyncPc.entered])
  have hr : ∀ c ∈ s.outstanding, c.stripe / n = j / n := by
    intro c hc
    have hj := h.round (j / n) (by simp [hpc, AsyncPc.round]) (List.ne_nil_of_mem hc)
    rw [(h.outstanding c hc).2, hj]
  refine ⟨?_, hlt, ?_, ?_, ?_, ?_, ?_⟩
  · simp only [h.submitted, List.range_succ]
  · intro i hi
    dsimp only at hi
    split_ifs at hi <;> simpa [AsyncPc.next, eq_comm] using hi
  · intro he
    dsimp only at he
    split_ifs at he <;> simp [AsyncPc.entered] at he
  · intro c hc
    rcases List.mem_cons.mp hc with rfl | hc
    · exact ⟨by simp, rfl⟩
    · exact ⟨by have := (h.outstanding c hc).1; omega, hr c hc⟩
  · intro r' hr' _
    dsimp only at hr'
    split_ifs at hr' with hd
    · simpa [AsyncPc.round, eq_comm] using hr'
    · have hdiv : (j + 1) / n = j / n := Nat.succ_div_of_not_dvd (fun hdvd => hd (Nat.mod_eq_zero_of_dvd hdvd))
      simpa [AsyncPc.round, hdiv, eq_comm] using hr'
  · rw [List.map_cons, List.nodup_cons]
    refine ⟨fun hmem => ?_, h.nodup⟩
    obtain ⟨c, hc, hcj⟩ := List.mem_map.mp hmem
    have hcj' : c.stripe = j := hcj
    have := (h.outstanding c hc).1
    omega

end

theorem AsyncCall.step_inv {call : AsyncCall} {m r : Nat} {s : AsyncSt}
    (h : AsyncInv call.vblk.nblks call.nstripes m r s) (e : AsyncEvent) :
    ∃ m' r', AsyncInv call.vblk.nblks call.nstripes m' r' (call.step s e) := by
  have hdel := h.deliver e
  have hdpc := (deliver_spec s e).1
  rw [AsyncCall.step]
  cases hpc : s.pc with
  | stripe j =>
    obtain rfl : j = m := h.next j (by simp [hpc, AsyncPc.next])
    dsimp only
    split_ifs with hlt hret
    · exact ⟨_, _, h.setPc (by simp [hpc, AsyncPc.next]) (fun _ => hlt) (by simp [hpc, AsyncPc.round])⟩
    · exact ⟨_, _, h.setPc (by simp [hpc, AsyncPc.next]) (fun _ => hlt) (by simp [hpc, AsyncPc.round])⟩
    · have hle := h.le
      have hj : call.nstripes = j := by omega
      exact ⟨_, _, h.setPc (by simp [hpc, AsyncPc.next, hj]) (by simp [AsyncPc.entered])
        (by simp [hpc, AsyncPc.round, hj])⟩
  | reap j held reaped =>
    have hlt : m < call.nstripes := h.entered (by simp [hpc, AsyncPc.entered])
    rw [hpc] at hdpc
    dsimp only
    split_ifs with hf hlen hre
    · exact ⟨_, _, h.returned false⟩
    · exact ⟨_, _, hdel.setPc (by simp [hdpc, AsyncPc.next]) (fun _ => hlt) (by simp [hdpc, AsyncPc.round])⟩
    · refine ⟨_, _, hdel.setPc ?_ (fun _ => hlt) ?_⟩ <;>
        cases held <;> simp [hdpc, AsyncPc.next, AsyncPc.round]
    · exact ⟨m, r, hdel⟩
  | take j =>
    have hlt : m < call.nstripes := h.entered (by simp [hpc, AsyncPc.entered])
    refine ⟨_, _, h.mono rfl (List.Sublist.refl _) ?_ (fun _ => hlt) ?_⟩ <;>
      cases s.rets s.retsp <;> simp [hpc, AsyncPc.next, AsyncPc.round]
  | submit j ret =>
    have hlt : m < call.nstripes := h.entered (by simp [hpc, AsyncPc.entered])
    dsimp only
    by_cases ha : e.again = true
    · rw [if_pos ha]
      exact ⟨_, _, h.setPc (by simp [hpc, AsyncPc.next]) (fun _ => hlt) (by simp [hpc, AsyncPc.round])⟩
    · rw [if_neg ha]
      by_cases hf : e.fails = true
      · rw [if_pos hf]
        exact ⟨_, _, h.returned false⟩
      · rw [if_neg hf]
        exact ⟨_, _, h.submit hpc⟩
  | wait j =>
    rw [hpc] at hdpc
    dsimp only
    split_ifs with hf hout
    · exact ⟨_, _, h.returned false⟩
    · -- the next round begins with nothing outstanding
      refine ⟨_, _, hdel.setPc (by simp [hdpc, AsyncPc.next]) (by simp [AsyncPc.entered]) ?_⟩
      exact fun _ _ hne => absurd hout hne
    · exact ⟨m, r, hdel⟩
  | drain =>
    dsimp only
    split_ifs with hf hout
    · exact ⟨_, _, h.returned false⟩
    · exact ⟨_, _, hdel.returned true⟩
    · exact ⟨m, r, hdel⟩
  | returned ok => exact ⟨m, r, h⟩

theorem AsyncCall.run_inv (call : AsyncCall) (rets : Nat → Option Nat) (retsp : Nat)
    (events : List AsyncEvent) :
    ∃ m r, AsyncInv call.vblk.nblks call.nstripes m r
      (Runs.run call.step (AsyncCall.init rets retsp) events) := by
  have hinit : AsyncInv call.vblk.nblks call.nstripes 0 0 (AsyncCall.init rets retsp) := by
    refine ⟨rfl, Nat.zero_le _, ?_, ?_, ?_, ?_, ?_⟩ <;>
      simp [AsyncCall.init, AsyncPc.next, AsyncPc.entered]
  have hstep : ∀ (s : AsyncSt) (e : AsyncEvent),
      (∃ m r, AsyncInv call.vblk.nblks call.nstripes m r s) → True →
      ∃ m r, AsyncInv call.vblk.nblks call.nstripes m r (call.step s e) := by
    rintro s e ⟨m, r, h⟩ -
    exact AsyncCall.step_inv h e
  exact Runs.run_invariant hstep ⟨0, 0, hinit⟩ (Runs.along_of_forall (fun _ _ => trivial) _)

/-! The order of the commands. -/

def CmdL.start (c : CmdL) : Slot := c.slots.headD ⟨0, 0⟩

section

variable {call : AsyncCall}

theorem AsyncCall.start_cmd (hw : 0 < call.vblk.wsOpt) (j : Nat) : (call.cmd j).start =
    ⟨(call.offset / call.vblk.geo.nbytes / call.vblk.wsOpt % call.vblk.nblks + j) % call.vblk.nblks,
      j / call.vblk.nblks * call.vblk.wsOpt⟩ := by
  obtain ⟨w, hws⟩ : ∃ w, call.vblk.wsOpt = w + 1 := ⟨call.vblk.wsOpt - 1, by omega⟩
  simp only [CmdL.start, AsyncCall.cmd, VblkL.asyncCmd]
  rw [hws, List.range_succ_eq_map]
  rfl

theorem AsyncCall.sectors_cmd (hw : 0 < call.vblk.wsOpt) (j : Nat) : (call.cmd j).sectors call.vblk =
    (List.range call.vblk.wsOpt).map fun i =>
      call.vblk.addr ⟨(call.cmd j).start.chunk, (call.cmd j).start.sectr + i⟩ := by
  rw [AsyncCall.start_cmd hw]
  exact sectors_run call.vblk _ _ _ _

theorem AsyncCall.chunk_eq_iff (hw : 0 < call.vblk.wsOpt) {i j : Nat} :
    (call.cmd i).start.chunk = (call.cmd j).start.chunk ↔ i % call.vblk.nblks = j % call.vblk.nblks := by
  rw [AsyncCall.start_cmd hw, AsyncCall.start_cmd hw]
  exact ⟨fun h => Nat.ModEq.add_left_cancel' _ h, fun h => Nat.ModEq.add_left _ h⟩

theorem AsyncCall.chunks_ne (hd : call.vblk.DistinctChunks) (hn : 0 < call.vblk.nblks)
    (hw : 0 < call.vblk.wsOpt) {i j : Nat} (hround : i / call.vblk.nblks = j / call.vblk.nblks)
    (hne : i ≠ j) : ∀ a ∈ (call.cmd i).sectors call.vblk, ∀ b ∈ (call.cmd j).sectors call.vblk,
      a.chunkOf ≠ b.chunkOf := by
  intro a ha b hb heq
  rw [AsyncCall.sectors_cmd hw] at ha hb
  obtain ⟨x, -, rfl⟩ := List.mem_map.mp ha
  obtain ⟨y, -, rfl⟩ := List.mem_map.mp hb
  have hlt : ∀ l, (call.cmd l).start.chunk < call.vblk.nblks := by
    intro l
    rw [AsyncCall.start_cmd hw]
    exact Nat.mod_lt _ hn
  have hchunk := VblkL.chunk_eq_of_chunkOf hd (hlt i) (hlt j) heq
  exact Striping.mod_ne_of_div_eq hround hne ((AsyncCall.chunk_eq_iff hw).mp hchunk)

theorem AsyncCall.next_in_chunk (hn : 0 < call.vblk.nblks) (hw : 0 < call.vblk.wsOpt) {i j : Nat}
    (hij : i < j) (hchunk : (call.cmd i).start.chunk = (call.cmd j).start.chunk)
    (hgap : ∀ l, i < l → l < j → (call.cmd l).start.chunk ≠ (call.cmd i).start.chunk) :
    (call.cmd j).start.sectr = (call.cmd i).start.sectr + call.vblk.wsOpt := by
  have hmod := (AsyncCall.chunk_eq_iff hw).mp hchunk
  have hle : i + call.vblk.nblks ≤ j := by
    have hdvd : call.vblk.nblks ∣ j - i := (Nat.modEq_iff_dvd' hij.le).mp hmod
    have := Nat.le_of_dvd (by omega) hdvd
    omega
  have hj : j = i + call.vblk.nblks := by
    by_contra hne
    apply hgap (i + call.vblk.nblks) (by omega) (by omega)
    rw [AsyncCall.chunk_eq_iff hw, Nat.add_mod_right]
  simp only [AsyncCall.start_cmd hw, hj, Nat.add_div_right _ hn, Nat.succ_mul]

theorem AsyncCall.start_fits (hw : 0 < call.vblk.wsOpt)
    (hr : call.vblk.InRange call.count call.offset) {j : Nat} (hj : j < call.nstripes) :
    (call.vblk.addr (call.cmd j).start).sectr.toNat = (call.cmd j).start.sectr := by
  obtain ⟨k, u, h⟩ := VblkL.units_of_dvd hr.dvd_count hr.dvd_offset
  have hjk : j < k := by rwa [← h.nstripes_eq hw]
  have hle := h.sectors_le hr.bound
  have hlt : j / call.vblk.nblks * call.vblk.wsOpt < call.vblk.geo.nsectr := by
    apply Nat.lt_of_mul_lt_mul_left (a := call.vblk.nblks)
    calc call.vblk.nblks * (j / call.vblk.nblks * call.vblk.wsOpt)
        = call.vblk.nblks * (j / call.vblk.nblks) * call.vblk.wsOpt := by ring
      _ ≤ j * call.vblk.wsOpt := Nat.mul_le_mul_right _ (Nat.mul_div_le j _)
      _ < (u + k) * call.vblk.wsOpt := Nat.mul_lt_mul_of_pos_right (by omega) hw
      _ ≤ call.vblk.nblks * call.vblk.geo.nsectr := hle
  have hbits := call.vblk.geo.nsectr_lt
  simp only [VblkL.addr, AsyncCall.start_cmd hw, BitVec.toNat_ofNat]
  exact Nat.mod_eq_of_lt (by omega)

end

/-- Whatever the backend does, no two commands to one chunk are outstanding at once, the
commands go out in the order of the loop, and the successive ones to a chunk address
consecutive runs of sectors; in bounds their addresses say so. -/
theorem async_chunks_sequential (call : AsyncCall) (hd : call.vblk.DistinctChunks)
    (hn : 0 < call.vblk.nblks) (hw : 0 < call.vblk.wsOpt) (rets : Nat → Option Nat) (retsp : Nat)
    (events : List AsyncEvent) :
    let s := Runs.run call.step (AsyncCall.init rets retsp) events
    (s.outstanding.Pairwise fun a b => ∀ x ∈ (call.cmd a.stripe).sectors call.vblk,
      ∀ y ∈ (call.cmd b.stripe).sectors call.vblk, x.chunkOf ≠ y.chunkOf) ∧
    (s.submitted.map call.cmd <+: call.vblk.asyncCmds call.pad call.count call.offset) ∧
    (∀ chunk, (s.submitted.filter fun j => (call.cmd j).start.chunk = chunk).IsChain fun i j =>
      (call.cmd j).start.sectr = (call.cmd i).start.sectr + call.vblk.wsOpt) ∧
    ∀ j ∈ s.submitted,
      (call.cmd j).sectors call.vblk = ((List.range call.vblk.wsOpt).map fun i =>
        call.vblk.addr ⟨(call.cmd j).start.chunk, (call.cmd j).start.sectr + i⟩) ∧
      (call.vblk.InRange call.count call.offset →
        (call.vblk.addr (call.cmd j).start).sectr.toNat = (call.cmd j).start.sectr) := by
  intro s
  obtain ⟨m, r, h⟩ := call.run_inv rets retsp events
  refine ⟨?_, ?_, fun chunk => ?_, fun j hj => ⟨AsyncCall.sectors_cmd hw j, fun hr => ?_⟩⟩
  · apply (List.pairwise_map.mp h.nodup).imp_of_mem
    intro a b ha hb hne
    exact AsyncCall.chunks_ne hd hn hw ((h.outstanding a ha).2.trans (h.outstanding b hb).2.symm) hne
  · have hm : List.range m <+: List.range call.nstripes := by
      have htake := List.take_prefix m (List.range call.nstripes)
      rwa [List.take_range, Nat.min_eq_left h.le] at htake
    rw [h.submitted]
    exact hm.map _
  · rw [h.submitted]
    refine (Striping.isChain_filter_range (fun i j hij hi hj hgap => ?_) m).1
    simp only [decide_eq_true_eq, decide_eq_false_iff_not] at hi hj hgap
    apply AsyncCall.next_in_chunk hn hw hij (hi.trans hj.symm)
    intro l hil hlj
    rw [hi]
    exact hgap l hil hlj
  · rw [h.submitted, List.mem_range] at hj
    exact AsyncCall.start_fits hw hr (by have := h.le; omega)

theorem async_chunks_sequential_two_rounds :
    let call : AsyncCall := ⟨tinyVblk .vector true, false, 4096, 0, 4⟩
    let s := Runs.run call.step (AsyncCall.init some 0)
      (List.replicate 6 ⟨[], false, false⟩ ++ [⟨[(1, true), (0, true)], false, false⟩] ++
        List.replicate 3 ⟨[], false, false⟩)
    s.submitted = [0, 1, 2] ∧ s.outstanding = [⟨2, 0⟩] ∧
    (s.submitted.filter fun j => (call.cmd j).start.chunk = 0).IsChain fun i j =>
      (call.cmd j).start.sectr = (call.cmd i).start.sectr + call.vblk.wsOpt := by
  refine ⟨by decide, by decide, (async_chunks_sequential _ ?_ (by decide) (by decide) some 0 _).2.2.1 0⟩
  rw [VblkL.DistinctChunks]
  decide

end LightNvm
