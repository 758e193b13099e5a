import LightNvm.S20Flat

/-! The contract of `nvm_vblk_pwrite` and `nvm_vblk_pread`: which ranges they take, what they
transfer and which addresses they use, and when the OCSSD 2.0 functions meet it. -/

namespace LightNvm

open SizeLoop (width rounds)

variable {κ : Type}

/-- The commands move at least `count` bytes and, from or to a buffer of the caller, every
one of its first `count` bytes. -/
structure Transfers (nb : Nat) (bufNull : Bool) (count : Nat) (buf : κ → BufRef) (len : κ → Nat)
    (cmds : List κ) : Prop where
  total : count ≤ (cmds.map len).sum * nb
  bytes : bufNull = false → ∀ x < count, ∃ c ∈ cmds, (buf c).off ≤ x ∧ x < (buf c).off + len c * nb

/-- Everything but an `ok` range is refused without a command; an `ok` range is served when
nothing fails; the addresses of the commands are valid in any case. -/
structure Contract (ok : Prop) (count : Nat) (transfers : List κ → Prop) (valid : κ → Prop)
    (io : IoEnv → Io κ) : Prop where
  rejects : ¬ ok → ∀ env, io env = .returns [] (.error .einval)
  serves : ok → ∃ cmds, io .good = .returns cmds (.ok count) ∧ transfers cmds
  valid : ∀ env cmds ret, io env = .returns cmds ret → ∀ c ∈ cmds, valid c

section

variable {ok fits : Prop} {count : Nat} {transfers : List κ → Prop} {valid : κ → Prop}
  {io : IoEnv → Io κ}

theorem contract_of_einval (hok : ¬ ok) (h : ∀ env, io env = .returns [] (.error .einval)) :
    Contract ok count transfers valid io := by
  refine ⟨fun _ => h, fun hk => absurd hk hok, fun env cmds ret hret c hc => ?_⟩
  rw [h env] at hret
  rw [← (Io.returns.inj hret).1] at hc
  exact absurd hc List.not_mem_nil

theorem Contract.ok_of_returns (h : Contract ok count transfers valid io) {env : IoEnv} {cmds : List κ}
    {ret : Int} (hret : io env = .returns cmds (.ok ret)) : ok := by
  by_contra hno
  have hrej := h.rejects hno env
  rw [hret] at hrej
  simp at hrej

theorem not_contract_of_ne (hok : ¬ ok) (h : io .good ≠ .returns [] (.error .einval)) :
    ¬ Contract ok count transfers valid io :=
  fun hc => h (hc.rejects hok .good)

theorem not_contract_of_not_returns (io' : Io κ) (hio : io .good = io')
    (h : ∀ cmds ret, io' ≠ .returns cmds ret) : ¬ Contract ok count transfers valid io := by
  intro hc
  by_cases hok : ok
  · obtain ⟨cmds, hret, -⟩ := hc.serves hok
    exact h _ _ (hio.symm.trans hret)
  · exact h _ _ (hio.symm.trans (hc.rejects hok .good))

theorem contract_iff_of_cmds {cl : List κ} (hok : ok)
    (hsub : ∀ env cmds ret, io env = .returns cmds ret → cmds ⊆ cl)
    (hfit : fits → io .good = .returns cl (.ok (ssize count)))
    (hnot : ¬ fits → ∀ cmds ret, io .good ≠ .returns cmds (.ok ret)) (ht : transfers cl) :
    Contract ok count transfers valid io ↔ fits ∧ ssize count = count ∧ ∀ c ∈ cl, valid c := by
  constructor
  · intro hc
    obtain ⟨cmds, hret, -⟩ := hc.serves hok
    have hf : fits := by
      by_contra hf
      exact hnot hf cmds count hret
    refine ⟨hf, ?_, hc.valid .good cl _ (hfit hf)⟩
    rw [hfit hf] at hret
    exact Except.ok.inj (Io.returns.inj hret).2
  · rintro ⟨hf, hsize, hvalid⟩
    refine ⟨fun hk => absurd hok hk, fun _ => ⟨cl, ?_, ht⟩, ?_⟩
    · rw [hfit hf, hsize]
    · intro env cmds ret hret c hc
      exact hvalid c (hsub env cmds ret hret hc)

end

theorem ssize_eq_iff {count : Nat} : ssize count = count ↔ count < 2 ^ 63 := by
  have hw : (width : Int) = 2 ^ 64 := rfl
  rw [ssize]
  split_ifs with h
  · exact iff_of_true rfl h
  · rw [hw]
    omega

theorem finish_ne_einval (env : IoEnv) (count : Nat) (cmds cmds' : List κ) :
    finish env count cmds ≠ .returns cmds' (.error .einval) := by
  intro h
  rw [finish] at h
  split_ifs at h <;> simp at h

theorem loopIo_ne_einval (env : IoEnv) (nblks count : Nat) (loop : Option (List κ)) (cmds : List κ) :
    loopIo env nblks count loop ≠ .returns cmds (.error .einval) := by
  rcases loop with _ | _ | ⟨c, cs⟩
  · rw [loopIo]
    split_ifs <;> simp
  · rw [loopIo]
    exact finish_ne_einval env count _ cmds
  · rw [loopIo]
    split_ifs
    · simp
    · exact finish_ne_einval env count _ cmds

theorem withBuffers_ne_einval {env : IoEnv} {pad : Bool} {padNbytes : Nat} {metaMode : MetaMode}
    {metaTbytes : Nat} {io : Io κ} {cmds : List κ} (h : io ≠ .returns cmds (.error .einval)) :
    withBuffers env pad padNbytes metaMode metaTbytes io ≠ .returns cmds (.error .einval) := by
  rcases withBuffers_cases env pad padNbytes metaMode metaTbytes io with hio | hio
  · rwa [hio]
  · rw [hio]
    simp

def BuffersFit (pad : Bool) (padNbytes : Nat) (metaMode : MetaMode) (metaTbytes : Nat) : Prop :=
  (pad = true → padNbytes ≠ 0) ∧ (metaMode = .none ∨ metaTbytes ≠ 0)

theorem withBuffers_good_of_fit {pad : Bool} {padNbytes : Nat} {metaMode : MetaMode} {metaTbytes : Nat}
    (h : BuffersFit pad padNbytes metaMode metaTbytes) (io : Io κ) :
    withBuffers .good pad padNbytes metaMode metaTbytes io = io :=
  withBuffers_alloc (fun _ _ => rfl) h.1 h.2 io

theorem withBuffers_good_of_not_fit {pad : Bool} {padNbytes : Nat} {metaMode : MetaMode} {metaTbytes : Nat}
    (h : ¬ BuffersFit pad padNbytes metaMode metaTbytes) (io : Io κ) :
    withBuffers .good pad padNbytes metaMode metaTbytes io = .returns [] (.error .enomem) := by
  rw [BuffersFit, not_and_or] at h
  rw [withBuffers]
  rcases h with h | h
  · rw [Classical.not_imp, not_not] at h
    rw [if_pos (by simp [h.1, h.2, nvmBufAlloc])]
  · rw [not_or, not_not] at h
    split_ifs with hpad hmeta
    · rfl
    · rfl
    · simp [h.1, h.2, nvmBufAlloc] at hmeta

theorem transfers_of_equal {nb m q : Nat} {bufNull : Bool} {count : Nat} {buf : κ → BufRef}
    {len : κ → Nat} {cmd : Nat → κ} (hlen : ∀ j < m, len (cmd j) = q)
    (hbuf : bufNull = false → ∀ j < m, (buf (cmd j)).off = j * q * nb) (hc : count ≤ m * q * nb) :
    Transfers nb bufNull count buf len ((List.range m).map cmd) where
  total := by
    have hmap : ((List.range m).map cmd).map len = List.replicate m q := by
      rw [List.map_map, List.eq_replicate_iff]
      constructor
      · simp
      · intro x hx
        obtain ⟨j, hj, rfl⟩ := List.mem_map.mp hx
        exact hlen j (List.mem_range.mp hj)
    rw [hmap, List.sum_replicate_nat]
    exact hc
  bytes hb x hx := by
    have hpos : 0 < q * nb := Nat.pos_of_ne_zero (by
      intro h0
      rw [Nat.mul_assoc, h0] at hc
      omega)
    have hj : x / (q * nb) < m := Nat.div_lt_of_lt_mul (by
      rw [Nat.mul_comm, ← Nat.mul_assoc]
      omega)
    refine ⟨cmd (x / (q * nb)), List.mem_map.mpr ⟨_, List.mem_range.mpr hj, rfl⟩, ?_⟩
    have hdiv := Nat.div_add_mod' x (q * nb)
    have hmod := Nat.mod_lt x hpos
    rw [hbuf hb _ hj, hlen _ hj, Nat.mul_assoc]
    omega

/-! OCSSD 2.0. -/

inductive IoOp where
  | read
  | write (bufNull : Bool)
  deriving DecidableEq

def IoOp.bufNull : IoOp → Bool
  | .read => false
  | .write bufNull => bufNull

def VblkL.io (v : VblkL) (op : IoOp) (count offset : Nat) (env : IoEnv) : Io CmdL :=
  match op with
  | .write bufNull =>
    if v.isAsync then vblkAsyncPwriteS20 v env bufNull count offset
    else vblkSyncPwriteS20 v env bufNull count offset
  | .read =>
    if v.isAsync then vblkAsyncPreadS20 v env count offset
    else vblkSyncPreadS20 v env count offset

def CmdL.Valid (v : VblkL) (c : CmdL) : Prop := ∀ a ∈ c.sectors v, nvmAddrCheckL a v.geo = 0

def VblkL.Meets (v : VblkL) (op : IoOp) (count offset : Nat) : Prop :=
  Contract (v.InRange count offset) count
    (Transfers v.geo.nbytes op.bufNull count CmdL.buf fun c => (c.sectors v).length) (CmdL.Valid v)
    (v.io op count offset)

/-- The sectors from the start of the virtual block on that lie in whole rounds over the
chunks, and those of the chunk after them that it still has. -/
def VblkL.nwhole (v : VblkL) : Nat :=
  v.geo.nsectr / v.wsOpt * v.nblks * v.wsOpt + v.geo.nsectr % v.wsOpt

/-- The end of the sectors that a call visits, as the loops number them. -/
def VblkL.visitEnd (v : VblkL) (op : IoOp) (count offset : Nat) : Nat :=
  if v.isAsync then count / v.geo.nbytes
  else match op with
    | .write _ => offset / v.geo.nbytes + count / v.geo.nbytes
    | .read => offset / v.geo.nbytes + rounds (count / v.geo.nbytes) v.readNsectr * v.readNsectr

def VblkL.BuffersFit (v : VblkL) (count : Nat) : IoOp → Prop
  | .read => True
  | .write bufNull => LightNvm.BuffersFit bufNull (v.wsOpt * (count / v.geo.nbytes) * v.geo.nbytes % width)
      v.metaMode (v.wsOpt * v.geo.nbytesOob % width)

/-- When the contract is met on a range of whole units in bounds. -/
structure VblkL.Serves (v : VblkL) (op : IoOp) (count offset : Nat) : Prop where
  count_lt : count < 2 ^ 63
  buffers : v.BuffersFit count op
  ends : v.isAsync = false → ¬(count = 0 ∧ offset = 0)
  visits : count ≠ 0 → v.visitEnd op count offset ≤ v.nwhole

structure VblkL.MeetsWhen (v : VblkL) (op : IoOp) (count offset : Nat) : Prop where
  wsOpt_pos : 0 < v.wsOpt
  rejects : ¬ v.InRange count offset →
    ¬(v.wsOpt ∣ count / v.geo.nbytes ∧ v.wsOpt ∣ offset / v.geo.nbytes)
  serves : v.InRange count offset → v.Serves op count offset

section

variable {v : VblkL} {count offset k u b m : Nat}

theorem VblkL.addr_check {s : Slot} (hs : s.chunk < v.nblks) :
    nvmAddrCheckL (v.addr s) v.geo = 0 ↔ s.sectr % 2 ^ 32 < v.geo.nsectr := by
  have hs' : s.chunk < v.blks.length := hs
  have hmem : v.blks.getD s.chunk ⟨0, 0, 0, 0⟩ ∈ v.blks := by
    rw [List.getD_eq_getElem _ _ hs']
    exact List.getElem_mem hs'
  have hblk := nvmAddrCheckL_eq_zero.mp (v.blks_check _ hmem)
  rw [nvmAddrCheckL_eq_zero, VblkL.addr, BitVec.toNat_ofNat]
  exact ⟨fun h => h.2.2.2, fun h => ⟨hblk.1, hblk.2.1, hblk.2.2.1, h⟩⟩

/-- The first unit of the range that is in the last, partial round has a sector `nsectr`. -/
theorem exists_unit_past_whole (hw : 0 < v.wsOpt) (hn : 0 < v.nblks) (hm : v.wsOpt ≤ m)
    (hu : u * v.wsOpt < v.nblks * v.geo.nsectr) (hend : v.nwhole < u * v.wsOpt + m) :
    ∃ w, u ≤ w ∧ w * v.wsOpt + v.geo.nsectr % v.wsOpt < u * v.wsOpt + m ∧
      w / v.nblks = v.geo.nsectr / v.wsOpt := by
  have hmod := Nat.mod_lt v.geo.nsectr hw
  rw [VblkL.nwhole] at hend
  have hrange : u / v.nblks ≤ v.geo.nsectr / v.wsOpt := by
    rw [Nat.le_div_iff_mul_le hw]
    apply Nat.le_of_lt
    apply Nat.lt_of_mul_lt_mul_left (a := v.nblks)
    calc v.nblks * (u / v.nblks * v.wsOpt) = v.nblks * (u / v.nblks) * v.wsOpt := by ring
      _ ≤ u * v.wsOpt := Nat.mul_le_mul_right _ (Nat.mul_div_le u v.nblks)
      _ < v.nblks * v.geo.nsectr := hu
  by_cases hle : u ≤ v.geo.nsectr / v.wsOpt * v.nblks
  · exact ⟨v.geo.nsectr / v.wsOpt * v.nblks, hle, by omega, Nat.mul_div_cancel _ hn⟩
  · refine ⟨u, le_refl u, by omega, le_antisymm hrange ?_⟩
    rw [Nat.le_div_iff_mul_le hn]
    omega

theorem sectr_lt_of_lt_nwhole {s : Nat} (hw : 0 < v.wsOpt) (hn : 0 < v.nblks) (hs : s < v.nwhole) :
    (v.sectrSlot s).sectr < v.geo.nsectr := by
  have hmod := Nat.mod_lt v.geo.nsectr hw
  have hdiv := Nat.div_add_mod' v.geo.nsectr v.wsOpt
  have hsd := Nat.div_add_mod' s v.wsOpt
  have hsm := Nat.mod_lt s hw
  rw [VblkL.nwhole] at hs
  change s % v.wsOpt + s / v.wsOpt / v.nblks * v.wsOpt < _
  generalize s / v.wsOpt = q at *
  generalize s % v.wsOpt = r at *
  have hq : q * v.wsOpt < v.geo.nsectr / v.wsOpt * v.nblks * v.wsOpt + v.wsOpt := by omega
  rw [← Nat.succ_mul] at hq
  have hq' : q ≤ v.geo.nsectr / v.wsOpt * v.nblks := Nat.le_of_lt_succ (Nat.lt_of_mul_lt_mul_right hq)
  rcases hq'.lt_or_eq with hin | hlast
  · have hr : q / v.nblks < v.geo.nsectr / v.wsOpt := Nat.div_lt_of_lt_mul (by rwa [Nat.mul_comm])
    have hr' : (q / v.nblks + 1) * v.wsOpt ≤ v.geo.nsectr / v.wsOpt * v.wsOpt :=
      Nat.mul_le_mul_right _ hr
    rw [Nat.succ_mul] at hr'
    omega
  · rw [hlast, Nat.mul_div_cancel _ hn]
    rw [hlast] at hsd
    omega

theorem sectr_ok_iff (hw : 0 < v.wsOpt) (hn : 0 < v.nblks) (hm : m ≠ 0 → v.wsOpt ≤ m)
    (hu : m ≠ 0 → u * v.wsOpt < v.nblks * v.geo.nsectr) :
    (∀ t < m, (v.sectrSlot (u * v.wsOpt + t)).sectr % 2 ^ 32 < v.geo.nsectr) ↔
      (m ≠ 0 → u * v.wsOpt + m ≤ v.nwhole) := by
  have hlt := v.geo.nsectr_lt
  have hmod := Nat.mod_lt v.geo.nsectr hw
  have hdiv := Nat.div_add_mod' v.geo.nsectr v.wsOpt
  constructor
  · intro h hm0
    by_contra hend
    obtain ⟨w, hw₁, hw₂, hround⟩ := exists_unit_past_whole hw hn (hm hm0) (hu hm0) (not_le.mp hend)
    have hle : u * v.wsOpt ≤ w * v.wsOpt := Nat.mul_le_mul_right _ hw₁
    have hs := h (w * v.wsOpt + v.geo.nsectr % v.wsOpt - u * v.wsOpt) (by omega)
    rw [Nat.add_sub_cancel' (by omega), VblkL.sectrSlot_unit hmod, hround] at hs
    simp only [hdiv] at hs
    rw [Nat.mod_eq_of_lt hlt] at hs
    exact lt_irrefl _ hs
  · intro h t ht
    have hend := h (by omega)
    have hpos := @sectr_lt_of_lt_nwhole v (u * v.wsOpt + t) hw hn (by omega)
    rw [Nat.mod_eq_of_lt (by omega)]
    exact hpos

/-- The same for the units of a transfer, counted from its first unit or from an earlier one. -/
theorem units_sectr_ok_iff (h : v.Units count offset k u) (hb : offset + count ≤ v.nbytes) (hw : 0 < v.wsOpt)
    (hn : 0 < v.nblks) {s : Nat} (hs : s ≤ u) :
    (∀ t < k * v.wsOpt, (v.sectrSlot (s * v.wsOpt + t)).sectr % 2 ^ 32 < v.geo.nsectr) ↔
      (count ≠ 0 → s * v.wsOpt + k * v.wsOpt ≤ v.nwhole) := by
  have hle := h.sectors_le hb
  have hbefore : s * v.wsOpt ≤ u * v.wsOpt := Nat.mul_le_mul_right _ hs
  have hzero : k * v.wsOpt ≠ 0 ↔ count ≠ 0 := by
    rw [ne_eq, ne_eq, h.count_eq_zero hw, Nat.mul_eq_zero]
    simp [hw.ne']
  rw [Nat.add_mul] at hle
  rw [sectr_ok_iff hw hn (fun hm => ?_) (fun hm => by omega), hzero]
  exact Nat.le_mul_of_pos_left _ (Nat.pos_of_ne_zero (left_ne_zero_of_mul hm))

theorem valid_cmds {n q : Nat} {cmd : Nat → CmdL} (slot : Nat → Nat → Slot)
    (hs : ∀ j < n, (cmd j).sectors v = (List.range q).map fun i => v.addr (slot j i))
    (hchunk : ∀ j i, (slot j i).chunk < v.nblks)
    (hsectr : ∀ j < n, ∀ i < q, (slot j i).sectr = (v.sectrSlot (b + (j * q + i))).sectr) :
    (∀ c ∈ (List.range n).map cmd, c.Valid v) ↔
      ∀ t < n * q, (v.sectrSlot (b + t)).sectr % 2 ^ 32 < v.geo.nsectr := by
  rw [← not_iff_not]
  push Not
  rw [Striping.exists_digits (p := fun t => v.geo.nsectr ≤ (v.sectrSlot (b + t)).sectr % 2 ^ 32)]
  constructor
  · rintro ⟨c, hc, hbad⟩
    obtain ⟨j, hj, rfl⟩ := List.mem_map.mp hc
    have hj := List.mem_range.mp hj
    rw [CmdL.Valid, hs j hj] at hbad
    push Not at hbad
    obtain ⟨a, ha, hne⟩ := hbad
    obtain ⟨i, hi, rfl⟩ := List.mem_map.mp ha
    have hi := List.mem_range.mp hi
    refine ⟨j, hj, i, hi, ?_⟩
    rw [← hsectr j hj i hi]
    exact not_lt.mp fun hlt => hne ((VblkL.addr_check (hchunk j i)).mpr hlt)
  · rintro ⟨j, hj, i, hi, hge⟩
    refine ⟨cmd j, List.mem_map.mpr ⟨j, List.mem_range.mpr hj, rfl⟩, fun hvalid => ?_⟩
    have hmem : v.addr (slot j i) ∈ (cmd j).sectors v := by
      rw [hs j hj]
      exact List.mem_map.mpr ⟨i, List.mem_range.mpr hi, rfl⟩
    have hlt := (VblkL.addr_check (hchunk j i)).mp (hvalid _ hmem)
    rw [hsectr j hj i hi] at hlt
    omega

theorem sectors_asyncCmd (pad : Bool) (j : Nat) : (v.asyncCmd pad b j).sectors v =
    (List.range v.wsOpt).map fun i =>
      v.addr ⟨(b / v.wsOpt % v.nblks + j) % v.nblks, j / v.nblks * v.wsOpt + i⟩ := by
  rw [VblkL.asyncCmd, sectors_run]

theorem ioAsync_sub {env : IoEnv} {pad : Bool} {cmds : List CmdL} {ret : Except Errno Int}
    (h : vblkIoAsync v env pad count offset = .returns cmds ret) : cmds ⊆ v.asyncCmds pad count offset := by
  have hn : v.nblks ≠ 0 := by
    intro h0
    simp [vblkIoAsync, h0] at h
  rw [vblkIoAsync, if_neg hn] at h
  simp only at h
  split_ifs at h
  · rw [finish] at h
    exact (Io.returns.inj h).1 ▸ fun _ hc => hc
  · exact (Io.returns.inj h).1 ▸ fun _ hc => List.mem_of_mem_take hc

theorem ioAsync_good (hn : 0 < v.nblks) (pad : Bool) : vblkIoAsync v .good pad count offset =
    .returns (v.asyncCmds pad count offset) (.ok (ssize count)) := by
  have hall : ∀ l : List Nat, l.takeWhile (fun _ => true) = l := fun l => by
    induction l with
    | nil => rfl
    | cons x l ih => rw [List.takeWhile_cons, if_pos rfl, ih]
  simp [vblkIoAsync, hn.ne', IoEnv.good, IoEnv.succeeding, finish, hall]

theorem ioAsync_ne_einval (env : IoEnv) (pad : Bool) (cmds : List CmdL) :
    vblkIoAsync v env pad count offset ≠ .returns cmds (.error .einval) := by
  rw [vblkIoAsync]
  split_ifs
  · simp
  · simp only
    split_ifs
    · exact finish_ne_einval env count _ cmds
    · simp

def VblkL.unchecked (v : VblkL) (op : IoOp) (count offset : Nat) (env : IoEnv) : Io CmdL :=
  let loop := match op with
    | .write bufNull => v.syncWriteCmds bufNull count offset
    | .read => v.syncReadCmds count offset
  let io := if v.isAsync then vblkIoAsync v env op.bufNull count offset else loopIo env v.nblks count loop
  match op with
  | .write bufNull => v.buffered env bufNull count io
  | .read => io

theorem VblkL.io_eq (v : VblkL) (op : IoOp) (count offset : Nat) (env : IoEnv) :
    v.io op count offset env = v.checked count offset (v.unchecked op count offset env) := by
  cases op <;> cases hv : v.isAsync <;>
    simp [VblkL.io, VblkL.unchecked, hv, vblkAsyncPwriteS20, vblkSyncPwriteS20, vblkAsyncPreadS20,
      vblkSyncPreadS20, IoOp.bufNull]

theorem unchecked_ne_einval (op : IoOp) (env : IoEnv) (cmds : List CmdL) :
    v.unchecked op count offset env ≠ .returns cmds (.error .einval) := by
  have hio : ∀ loop, (if v.isAsync then vblkIoAsync v env op.bufNull count offset
      else loopIo env v.nblks count loop) ≠ .returns cmds (.error .einval) := by
    intro loop
    split_ifs
    · exact ioAsync_ne_einval env _ cmds
    · exact loopIo_ne_einval env _ count loop cmds
  cases op with
  | write bufNull => exact withBuffers_ne_einval (hio _)
  | read => exact hio _

structure VblkL.Issues (v : VblkL) (op : IoOp) (count offset : Nat) (cl : List CmdL) : Prop where
  sub : ∀ env cmds ret, v.unchecked op count offset env = .returns cmds ret → cmds ⊆ cl
  good : v.BuffersFit count op → v.unchecked op count offset .good = .returns cl (.ok (ssize count))
  transfers : Transfers v.geo.nbytes op.bufNull count CmdL.buf (fun c => (c.sectors v).length) cl
  valid : (∀ c ∈ cl, c.Valid v) ↔ (count ≠ 0 → v.visitEnd op count offset ≤ v.nwhole)

theorem buffered_not_fit {bufNull : Bool} (h : ¬ v.BuffersFit count (.write bufNull)) (io : Io CmdL) :
    v.buffered .good bufNull count io = .returns [] (.error .enomem) :=
  withBuffers_good_of_not_fit h io

theorem buffered_fit {bufNull : Bool} (h : v.BuffersFit count (.write bufNull)) (io : Io CmdL) :
    v.buffered .good bufNull count io = io :=
  withBuffers_good_of_fit h io

theorem buffered_sub {env : IoEnv} {bufNull : Bool} {io : Io CmdL} {cmds cl : List CmdL}
    {ret : Except Errno Int} (h : v.buffered env bufNull count io = .returns cmds ret)
    (hio : io = .returns cmds ret → cmds ⊆ cl) : cmds ⊆ cl := by
  rcases withBuffers_cases env bufNull (v.wsOpt * (count / v.geo.nbytes) * v.geo.nbytes % width) v.metaMode
    (v.wsOpt * v.geo.nbytesOob % width) io with hb | hb
  · exact hio (hb.symm.trans h)
  · rw [VblkL.buffered, hb] at h
    rw [← (Io.returns.inj h).1]
    exact List.nil_subset cl

theorem unchecked_sync (op : IoOp) {cl : List CmdL} (hs : v.isAsync = false) (hn : 0 < v.nblks)
    (hloop : (match op with
      | .write bufNull => v.syncWriteCmds bufNull count offset
      | .read => v.syncReadCmds count offset) = some cl) :
    (∀ env cmds ret, v.unchecked op count offset env = .returns cmds ret → cmds ⊆ cl) ∧
      (v.BuffersFit count op → v.unchecked op count offset .good = .returns cl (.ok (ssize count))) := by
  have hsub : ∀ {env : IoEnv} {cmds : List CmdL} {ret : Except Errno Int},
      loopIo env v.nblks count (some cl) = .returns cmds ret → cmds ⊆ cl := by
    intro env cmds ret h
    rw [Option.some.inj (loopIo_returns h)]
    exact fun _ hc => hc
  constructor
  · intro env cmds ret h
    cases op with
    | read =>
      simp only [VblkL.unchecked, hs, hloop] at h
      exact hsub h
    | write bufNull =>
      simp only [VblkL.unchecked, hs, hloop] at h
      exact buffered_sub h hsub
  · intro hfit
    cases op with
    | read =>
      simp only [VblkL.unchecked, hs, hloop]
      exact loopIo_good hn count cl
    | write bufNull =>
      simp only [VblkL.unchecked, hs, hloop]
      rw [buffered_fit hfit]
      exact loopIo_good hn count cl

theorem issues_sync_write (h : v.Units count offset k u) (hb : offset + count ≤ v.nbytes) (hw : 0 < v.wsOpt)
    (hn : 0 < v.nblks) (hs : v.isAsync = false) (hne : ¬(k = 0 ∧ u = 0)) (bufNull : Bool) :
    v.Issues (.write bufNull) count offset ((List.range k).map fun j => v.unitCmd bufNull j (u + j)) := by
  have hcmds := syncWriteCmds_eq h bufNull hw hne (h.fits hb) (VblkL.Units.count_lt hb)
  obtain ⟨hsub, hgood⟩ := unchecked_sync (.write bufNull) hs hn hcmds
  refine ⟨hsub, hgood, ?_, ?_⟩
  · apply transfers_of_equal (q := v.wsOpt)
    · intro j _
      rw [sectors_unitCmd, List.length_map, List.length_range]
    · intro hnull j _
      simp only [IoOp.bufNull] at hnull
      simp [VblkL.unitCmd, hnull]
    · rw [h.count]
  · rw [valid_cmds (b := u * v.wsOpt) (q := v.wsOpt)
      fun j i => ⟨(u + j) % v.nblks, (u + j) / v.nblks * v.wsOpt + i⟩]
    · rw [units_sectr_ok_iff h hb hw hn le_rfl, ← h.count_div, ← h.offset_div, VblkL.visitEnd,
        if_neg (by simp [hs])]
    · intro j _
      rw [VblkL.unitCmd, sectors_run]
    · exact fun j i => Nat.mod_lt _ hn
    · intro j _ i hi
      rw [← Nat.add_assoc, ← Nat.add_mul, VblkL.sectrSlot_unit hi]

theorem issues_sync_read (h : v.Units count offset k u) (hb : offset + count ≤ v.nbytes) (hw : 0 < v.wsOpt)
    (hn : 0 < v.nblks) (hs : v.isAsync = false) (hne : ¬(k = 0 ∧ u = 0)) :
    v.Issues .read count offset ((List.range (rounds (k * v.wsOpt) v.readNsectr)).map fun j =>
      v.syncReadCmd (u * v.wsOpt) (u * v.wsOpt + j * v.readNsectr)) := by
  have hfit := h.readFits hb
  have hq := readNsectr_pos hw
  have hge := SizeLoop.rounds_mul_ge (n := k * v.wsOpt) hq
  have hcmds := syncReadCmds_eq h hw hne hfit
  have hlt : ∀ j < rounds (k * v.wsOpt) v.readNsectr, j * v.readNsectr < k * v.wsOpt := fun j hj =>
    (SizeLoop.lt_rounds hq).mp hj
  have hsum : (u + k) * v.wsOpt = u * v.wsOpt + k * v.wsOpt := Nat.add_mul _ _ _
  have hzero : rounds (k * v.wsOpt) v.readNsectr * v.readNsectr ≠ 0 ↔ count ≠ 0 := by
    rw [ne_eq, ne_eq, h.count_eq_zero hw]
    constructor
    · rintro hr rfl
      rw [Nat.zero_mul, SizeLoop.rounds_zero hq, Nat.zero_mul] at hr
      exact hr rfl
    · intro hk h0
      have := Nat.mul_pos (Nat.pos_of_ne_zero hk) hw
      omega
  obtain ⟨hsub, hgood⟩ := unchecked_sync .read hs hn hcmds
  refine ⟨hsub, hgood, ?_, ?_⟩
  · apply transfers_of_equal (q := v.readNsectr)
    · intro j hj
      have := hlt j hj
      rw [sectors_readCmd hw (by omega), List.length_map, List.length_range]
    · intro _ j hj
      have := hlt j hj
      have hcount := VblkL.Units.count_lt hb
      have hbytes : j * v.readNsectr * v.geo.nbytes ≤ count := by
        rw [h.count]
        exact Nat.mul_le_mul_right _ this.le
      rw [syncReadCmd_buf, BufRef.off_user]
      exact VblkL.bufOff_add (by omega) (by omega)
    · rw [h.count]
      exact Nat.mul_le_mul_right _ hge
  · rw [valid_cmds (b := u * v.wsOpt) (q := v.readNsectr)
      fun j i => v.sectrSlot (u * v.wsOpt + (j * v.readNsectr + i))]
    · rw [sectr_ok_iff hw hn (fun hm => ?_) (fun hm => ?_), hzero]
      · rw [VblkL.visitEnd, if_neg (by simp [hs]), h.count_div, h.offset_div]
      · have hk := hzero.mp hm
        rw [ne_eq, h.count_eq_zero hw] at hk
        exact (Nat.le_mul_of_pos_left _ (Nat.pos_of_ne_zero hk)).trans hge
      · have hle := h.sectors_le hb
        have hk := hzero.mp hm
        rw [ne_eq, h.count_eq_zero hw] at hk
        have := Nat.mul_pos (Nat.pos_of_ne_zero hk) hw
        omega
    · intro j hj
      have := hlt j hj
      rw [sectors_readCmd hw (by omega)]
      rfl
    · exact fun j i => Nat.mod_lt _ hn
    · exact fun _ _ _ _ => rfl

theorem issues_async (h : v.Units count offset k u) (hb : offset + count ≤ v.nbytes) (hw : 0 < v.wsOpt)
    (hn : 0 < v.nblks) (hs : v.isAsync = true) (op : IoOp) :
    v.Issues op count offset (v.asyncCmds op.bufNull count offset) := by
  have hcmds : v.asyncCmds op.bufNull count offset =
      (List.range k).map (v.asyncCmd op.bufNull (offset / v.geo.nbytes)) := by
    rw [VblkL.asyncCmds, h.nstripes_eq hw]
  refine ⟨?_, ?_, ?_, ?_⟩
  · intro env cmds ret hret
    cases op with
    | read =>
      simp only [VblkL.unchecked, hs, if_true] at hret
      exact ioAsync_sub hret
    | write bufNull =>
      simp only [VblkL.unchecked, hs, if_true] at hret
      exact buffered_sub hret ioAsync_sub
  · intro hfit
    cases op with
    | read =>
      simp only [VblkL.unchecked, hs, if_true]
      exact ioAsync_good hn _
    | write bufNull =>
      simp only [VblkL.unchecked, hs, if_true]
      rw [buffered_fit hfit]
      exact ioAsync_good hn _
  · rw [hcmds]
    apply transfers_of_equal (q := v.wsOpt)
    · intro j _
      rw [sectors_asyncCmd, List.length_map, List.length_range]
    · intro hnull j _
      simp only [VblkL.asyncCmd, hnull, Bool.false_eq_true, if_false, BufRef.off_user]
      ring
    · rw [h.count]
  · rw [hcmds, valid_cmds (b := 0 * v.wsOpt) (q := v.wsOpt) fun j i =>
      ⟨(offset / v.geo.nbytes / v.wsOpt % v.nblks + j) % v.nblks, j / v.nblks * v.wsOpt + i⟩]
    · have hvisit : v.visitEnd op count offset = count / v.geo.nbytes := by
        simp [VblkL.visitEnd, hs]
      rw [units_sectr_ok_iff h hb hw hn (Nat.zero_le u), hvisit, h.count_div, Nat.zero_mul, Nat.zero_add]
    · intro j _
      exact sectors_asyncCmd _ j
    · exact fun j i => Nat.mod_lt _ hn
    · intro j _ i hi
      rw [Nat.zero_mul, Nat.zero_add, VblkL.sectrSlot_unit hi]

theorem VblkL.Issues.meets_iff {op : IoOp} {cl : List CmdL} (hr : v.InRange count offset)
    (hio : ∀ env, v.io op count offset env = v.unchecked op count offset env)
    (h : v.Issues op count offset cl) :
    v.Meets op count offset ↔ v.BuffersFit count op ∧ count < 2 ^ 63 ∧
      (count ≠ 0 → v.visitEnd op count offset ≤ v.nwhole) := by
  rw [← h.valid, ← ssize_eq_iff]
  apply contract_iff_of_cmds hr
  · intro env cmds ret hret
    rw [hio] at hret
    exact h.sub env cmds ret hret
  · intro hfit
    rw [hio]
    exact h.good hfit
  · intro hfit cmds ret hret
    cases op with
    | read => exact hfit trivial
    | write bufNull =>
      rw [hio, VblkL.unchecked] at hret
      simp only [buffered_not_fit hfit] at hret
      simp at hret
  · exact h.transfers

theorem not_meets_endless {op : IoOp} (hr : v.InRange 0 0) (hs : v.isAsync = false) (hn : 0 < v.nblks)
    (hio : ∀ env, v.io op 0 0 env = v.unchecked op 0 0 env) : ¬ v.Meets op 0 0 := by
  have hdiv : 0 / v.geo.nbytes = 0 := Nat.zero_div _
  have hwrite : ∀ pad, v.syncWriteCmds pad 0 0 = none := fun pad => syncWriteCmds_endless pad hdiv hdiv
  have hread : v.syncReadCmds 0 0 = none := by
    simp only [VblkL.syncReadCmds, sectrLoop_endless _ hdiv hdiv, Option.map_none]
  intro hm
  obtain ⟨cmds, hret, -⟩ := hm.serves hr
  rw [hio] at hret
  cases op with
  | read => simp [VblkL.unchecked, hs, hread, loopIo, hn.ne'] at hret
  | write bufNull =>
    simp only [VblkL.unchecked, hs, hwrite, Bool.false_eq_true, if_false, VblkL.buffered] at hret
    rcases withBuffers_cases .good bufNull
      (v.wsOpt * (0 / v.geo.nbytes) * v.geo.nbytes % width) v.metaMode (v.wsOpt * v.geo.nbytesOob % width)
      (loopIo .good v.nblks 0 (none : Option (List CmdL))) with hb | hb
    · rw [hb] at hret
      simp [loopIo, hn.ne'] at hret
    · rw [hb] at hret
      simp at hret

theorem meets_inRange (op : IoOp) (hn : 0 < v.nblks) (hw : 0 < v.wsOpt) (hr : v.InRange count offset) :
    v.Meets op count offset ↔ v.Serves op count offset := by
  obtain ⟨k, u, h⟩ := VblkL.units_of_dvd hr.dvd_count hr.dvd_offset
  have hio : ∀ env, v.io op count offset env = v.unchecked op count offset env := fun env => by
    rw [VblkL.io_eq, checked_inRange hw h]
  by_cases hend : v.isAsync = false ∧ count = 0 ∧ offset = 0
  · obtain ⟨hs, rfl, rfl⟩ := hend
    exact iff_of_false (not_meets_endless hr hs hn hio) fun hserve => hserve.ends hs ⟨rfl, rfl⟩
  · have hmeets : v.Meets op count offset ↔ v.BuffersFit count op ∧ count < 2 ^ 63 ∧
        (count ≠ 0 → v.visitEnd op count offset ≤ v.nwhole) := by
      cases hs : v.isAsync with
      | true => exact (issues_async h hr.bound hw hn hs op).meets_iff hr hio
      | false =>
        have hne : ¬(k = 0 ∧ u = 0) := by
          rw [← h.count_eq_zero hw, ← h.offset_eq_zero hw]
          exact fun h0 => hend ⟨hs, h0⟩
        cases op with
        | read => exact (issues_sync_read h hr.bound hw hn hs hne).meets_iff hr hio
        | write bufNull => exact (issues_sync_write h hr.bound hw hn hs hne bufNull).meets_iff hr hio
    rw [hmeets]
    constructor
    · rintro ⟨hfit, hlt, hvisit⟩
      exact ⟨hlt, hfit, fun hs h0 => hend ⟨hs, h0⟩, hvisit⟩
    · exact fun hserve => ⟨hserve.buffers, hserve.count_lt, hserve.visits⟩

theorem meets_iff_s20 (v : VblkL) (op : IoOp) (count offset : Nat) (hn : 0 < v.nblks) :
    v.Meets op count offset ↔ v.MeetsWhen op count offset := by
  rcases Nat.eq_zero_or_pos v.wsOpt with hw | hw
  · refine iff_of_false ?_ fun h => h.wsOpt_pos.ne' hw
    apply not_contract_of_not_returns .traps
    · rw [VblkL.io_eq, VblkL.checked, if_pos hw]
    · simp
  · by_cases hr : v.InRange count offset
    · rw [meets_inRange op hn hw hr]
      exact ⟨fun h => ⟨hw, fun hk => absurd hr hk, fun _ => h⟩, fun h => h.serves hr⟩
    · by_cases ha : v.wsOpt ∣ count / v.geo.nbytes ∧ v.wsOpt ∣ offset / v.geo.nbytes
      · refine iff_of_false (not_contract_of_ne hr ?_) fun h => h.rejects hr ha
        rw [VblkL.io_eq, VblkL.checked, if_neg hw.ne', if_neg (by simp [Nat.mod_eq_zero_of_dvd ha.1]),
          if_neg (by simp [Nat.mod_eq_zero_of_dvd ha.2])]
        exact unchecked_ne_einval op .good []
      · refine iff_of_true (contract_of_einval hr fun env => ?_) ⟨hw, fun _ => ha, fun hk => absurd hk hr⟩
        rw [VblkL.io_eq, VblkL.checked, if_neg hw.ne']
        split_ifs with hc ho
        · rfl
        · rfl
        · exact absurd ⟨Nat.dvd_of_mod_eq_zero (not_not.mp hc), Nat.dvd_of_mod_eq_zero (not_not.mp ho)⟩ ha

end

end LightNvm
