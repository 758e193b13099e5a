import LightNvm.S20Flat

/-! How many commands the synchronous OCSSD 2.0 loops issue: the rounds of the request,
unless the loop variable cannot pass the inclusive end. -/

namespace LightNvm

open SizeLoop (width sizeFor rounds Runaway)

variable {κ : Type}

/-- The call comes back after at most `limit` commands. -/
def Io.Within (limit : Nat) : Io κ → Prop
  | .returns cmds _ => cmds.length ≤ limit
  | .hangs => False
  | .traps => False

def VblkL.Aligned (v : VblkL) (count offset : Nat) : Prop :=
  count / v.geo.nbytes % v.wsOpt = 0 ∧ offset / v.geo.nbytes % v.wsOpt = 0

/-- A write gets the padding and the metadata it asks for. -/
def VblkL.HasBuffers (v : VblkL) (env : IoEnv) (bufNull : Bool) (count : Nat) : Prop :=
  (bufNull = true → nvmBufAlloc env (v.wsOpt * (count / v.geo.nbytes) * v.geo.nbytes % width) = true) ∧
  (v.metaMode ≠ .none → nvmBufAlloc env (v.wsOpt * v.geo.nbytesOob % width) = true)

theorem loopIo_within {nblks : Nat} (hn : 0 < nblks) (env : IoEnv) (count limit : Nat)
    (loop : Option (List κ)) :
    (loopIo env nblks count loop).Within limit ↔ ∃ cmds, loop = some cmds ∧ cmds.length ≤ limit := by
  rcases loop with _ | _ | ⟨c, cs⟩
  · simp [loopIo, hn.ne', Io.Within]
  · simp [loopIo, finish, Io.Within]
  · simp [loopIo, finish, hn.ne', Io.Within]

theorem checked_within {v : VblkL} (hw : 0 < v.wsOpt) (count offset limit : Nat) (io : Io CmdL) :
    (v.checked count offset io).Within limit ↔ ¬ v.Aligned count offset ∨ io.Within limit := by
  rw [VblkL.checked, if_neg hw.ne', VblkL.Aligned]
  split_ifs with hc ho
  · simp [Io.Within, hc]
  · simp [Io.Within, ho]
  · rw [not_ne_iff] at hc ho
    simp [hc, ho]

theorem buffered_of_hasBuffers {v : VblkL} {env : IoEnv} {bufNull : Bool} {count : Nat}
    (h : v.HasBuffers env bufNull count) (io : Io CmdL) : v.buffered env bufNull count io = io := by
  have hpad : ¬ (bufNull &&
      !nvmBufAlloc env (v.wsOpt * (count / v.geo.nbytes) * v.geo.nbytes % width)) = true := by
    simpa using h.1
  have hmeta : ¬ (decide (v.metaMode ≠ .none) &&
      !nvmBufAlloc env (v.wsOpt * v.geo.nbytesOob % width)) = true := by
    simpa using h.2
  rw [VblkL.buffered, withBuffers, if_neg hpad, if_neg hmeta]

theorem buffered_of_not_hasBuffers {v : VblkL} {env : IoEnv} {bufNull : Bool} {count : Nat}
    (h : ¬ v.HasBuffers env bufNull count) (io : Io CmdL) :
    v.buffered env bufNull count io = .returns [] (.error .enomem) := by
  rw [VblkL.buffered, withBuffers]
  split_ifs with hpad hmeta
  · rfl
  · rfl
  · exact absurd ⟨by simpa using hpad, by simpa using hmeta⟩ h

theorem buffered_within {v : VblkL} (env : IoEnv) (bufNull : Bool) (count limit : Nat) (io : Io CmdL) :
    (v.buffered env bufNull count io).Within limit ↔
      ¬ v.HasBuffers env bufNull count ∨ io.Within limit := by
  by_cases h : v.HasBuffers env bufNull count
  · rw [buffered_of_hasBuffers h, or_iff_right (not_not.mpr h)]
  · rw [buffered_of_not_hasBuffers h]
    exact ⟨fun _ => .inl h, fun _ => Nat.zero_le _⟩

theorem sectrLoop_bounded_iff {v : VblkL} {count offset step : Nat} (hs : 0 < step) (hsw : step ≤ width)
    (hc : count < width) (ho : offset < width) (cmd : Nat → CmdL) :
    (∃ cmds, (sizeFor (fun sectrOfz => sectrOfz ≤ v.sectrEnd count offset) step
        (offset / v.geo.nbytes)).map (fun ofzs => ofzs.map cmd) = some cmds ∧
      cmds.length ≤ rounds (count / v.geo.nbytes) step) ↔
    ¬ Runaway (offset / v.geo.nbytes) (count / v.geo.nbytes) step := by
  have hb : offset / v.geo.nbytes < width := (Nat.div_le_self _ _).trans_lt ho
  have hn : count / v.geo.nbytes < width := (Nat.div_le_self _ _).trans_lt hc
  rw [← SizeLoop.inclusive_bounded_iff hs hsw hb hn]
  change _ ↔ ∃ is, sizeFor (fun sectrOfz => sectrOfz ≤ v.sectrEnd count offset) step _ = some is ∧ _
  constructor
  · rintro ⟨cmds, h, hlen⟩
    obtain ⟨is, his, rfl⟩ := Option.map_eq_some_iff.mp h
    exact ⟨is, his, by simpa using hlen⟩
  · rintro ⟨is, his, hlen⟩
    exact ⟨is.map cmd, by rw [his]; rfl, by simpa using hlen⟩

theorem readNsectr_le (v : VblkL) : v.readNsectr ≤ width := by
  cases hm : v.mode with
  | vector => simp [VblkL.readNsectr, hm, naddrMax, width]
  | scalar =>
    have h := v.geo.wsOpt_lt
    have hw : width = 2 ^ 64 := rfl
    rw [VblkL.readNsectr, hm]
    change v.geo.wsOpt ≤ width
    omega

/-- Exactly when the loops are bounded by the request. -/
theorem sync_io_within_iff (v : VblkL) (hn : 0 < v.nblks) (hw : 0 < v.wsOpt) (env : IoEnv)
    (bufNull : Bool) (count offset : Nat) (hc : count < width) (ho : offset < width) :
    ((vblkSyncPwriteS20 v env bufNull count offset).Within (rounds (count / v.geo.nbytes) v.wsOpt) ↔
      ¬ v.Aligned count offset ∨ ¬ v.HasBuffers env bufNull count ∨
      ¬ Runaway (offset / v.geo.nbytes) (count / v.geo.nbytes) v.wsOpt) ∧
    ((vblkSyncPreadS20 v env count offset).Within (rounds (count / v.geo.nbytes) v.readNsectr) ↔
      ¬ v.Aligned count offset ∨
      ¬ Runaway (offset / v.geo.nbytes) (count / v.geo.nbytes) v.readNsectr) := by
  have hww : v.wsOpt ≤ width := v.geo.wsOpt_lt.le.trans (by decide)
  constructor
  · rw [vblkSyncPwriteS20, checked_within hw, buffered_within, loopIo_within hn, VblkL.syncWriteCmds,
      sectrLoop_bounded_iff hw hww hc ho]
  · rw [vblkSyncPreadS20, checked_within hw, loopIo_within hn, VblkL.syncReadCmds,
      sectrLoop_bounded_iff (readNsectr_pos hw) (readNsectr_le v) hc ho]

theorem sync_io_within_iff_unit :
    let v := tinyVblk .vector false
    (vblkSyncPwriteS20 v .good false 1024 1024).Within 1 ∧
    (vblkSyncPreadS20 v .good 1024 1024).Within 1 := by
  intro v
  have h := sync_io_within_iff v (by decide) (by decide) .good false 1024 1024 (by decide) (by decide)
  have hrun : ∀ step, step = 2 ∨ step = 64 → ¬ Runaway (1024 / v.geo.nbytes) (1024 / v.geo.nbytes) step := by
    rintro step (rfl | rfl) <;> (unfold Runaway; decide)
  have hlimit : rounds (1024 / v.geo.nbytes) v.wsOpt = 1 ∧ rounds (1024 / v.geo.nbytes) v.readNsectr = 1 := by
    decide
  rw [hlimit.1, hlimit.2] at h
  exact ⟨h.1.mpr (.inr (.inr (hrun _ (.inl rfl)))), h.2.mpr (.inr (hrun _ (.inr rfl)))⟩

/-- An empty request at the start of the virtual block comes back from neither loop. -/
theorem sync_empty_request_hangs :
    let v := tinyVblk .scalar false
    0 < v.nblks ∧ 0 < v.wsOpt ∧
    ¬ (vblkSyncPwriteS20 v .good false 0 0).Within (rounds (0 / v.geo.nbytes) v.wsOpt) ∧
    ¬ (vblkSyncPreadS20 v .good 0 0).Within (rounds (0 / v.geo.nbytes) v.readNsectr) := by
  intro v
  have hnone : 0 / v.geo.nbytes = 0 := by decide
  have hwrite : vblkSyncPwriteS20 v .good false 0 0 = .hangs := by
    have hloop : v.syncWriteCmds false 0 0 = none := syncWriteCmds_endless false hnone hnone
    rw [vblkSyncPwriteS20, hloop]
    decide
  have hread : vblkSyncPreadS20 v .good 0 0 = .hangs := by
    have hloop : v.syncReadCmds 0 0 = none := by
      simp only [VblkL.syncReadCmds, sectrLoop_endless _ hnone hnone, Option.map_none]
    rw [vblkSyncPreadS20, hloop]
    decide
  rw [hwrite, hread]
  exact ⟨by decide, by decide, id, id⟩

end LightNvm
