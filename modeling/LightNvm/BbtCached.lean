import LightNvm.BbtUpdate
import LightNvm.Runs

/-! Runs of the bad-block functions. With caching on throughout, the managed
entries are a write-back cache of the tables on the device. -/

namespace LightNvm

/-- A call. A table given to `nvm_bbt_set` fits the entry it is copied into. -/
inductive BbtOp (env : BbtEnv) where
  | get (addr : GAddr)
  | set (bbt : Bbt) (fits : bbt.nblks ≤ env.nblks)
  | mark (addrs : List GAddr) (flags : UInt16)
  | flush (addr : GAddr)
  | flushAll
  | setBbtsCached (bbtsCached : Int)

def BbtOp.exec {env : BbtEnv} (s : BbtDev) : BbtOp env → BbtDev
  | .get addr => (nvmBbtGet env s addr).2
  | .set bbt _ => (nvmBbtSet env s bbt).2
  | .mark addrs flags => (nvmBbtMark env s addrs flags).2
  | .flush addr => (nvmBbtFlush env s addr).2
  | .flushAll => (nvmBbtFlushAll env s).2
  | .setBbtsCached v => (nvmDevSetBbtsCached s v).2

def BbtOp.isSwitch {env : BbtEnv} : BbtOp env → Bool
  | .setBbtsCached _ => true
  | _ => false

theorem nvmBbtGet_cached {env : BbtEnv} {s : BbtDev} (hi : BbtInv env s) (addr : GAddr) :
    (nvmBbtGet env s addr).2.bbtsCached = s.bbtsCached := by
  rcases nvmBbtGet_cases hi addr with ⟨e, b, n, hg, _⟩ | ⟨bbt, n, _, hg, _⟩ <;> rw [hg]

theorem nvmBbtSet_inv {env : BbtEnv} {s : BbtDev} (hi : BbtInv env s) (bbt : Bbt) :
    BbtInv env (nvmBbtSet env s bbt).2 ∧ (nvmBbtSet env s bbt).2.bbtsCached = s.bbtsCached := by
  by_cases hc : s.bbtsCached = true
  · obtain ⟨r, b, n, hset, hinv, _⟩ := nvmBbtSet_cached hi hc bbt
    rw [hset]
    exact ⟨hinv, rfl⟩
  by_cases ha : nvmAddrCheckG bbt.addr env.geo = 0
  swap
  · simp [nvmBbtSet, ha, hi]
  have hinv := nvmBbtGet_inv hi bbt.addr
  rcases nvmBbtGet_cases hi bbt.addr with ⟨e, b, n, hg, _⟩ | ⟨entry, n, _, hg, he, _⟩
  · rw [hg] at hinv
    rw [show nvmBbtSet env s bbt = (.error e, { s with bbts := b, nevents := n }) by
      simp [nvmBbtSet, ha, hg]]
    exact ⟨hinv, rfl⟩
  · let new : Bbt := { entry with blks := fun i => if i < bbt.nblks then bbt.blks i else entry.blks i }
    have hnew : EntryOf env bbt.addr (refreshed new) :=
      ⟨by simpa [new] using he.nblks, by simpa [new] using he.check, by simpa [new] using he.idx⟩
    have hset := nvmBbtSet_eq ha hg
    rw [if_neg hc] at hset
    rw [hset, BbtDev.setEntry]
    have hi' := (hi.update he s.table n s.bbtsCached).update hnew s.table n s.bbtsCached
    have hw := nvmBbtFlush_writeBack hi' bbt.addr
    exact ⟨hw.inv hi', hw.cached⟩

theorem nvmBbtMark_inv {env : BbtEnv} {s : BbtDev} (hi : BbtInv env s) (addrs : List GAddr)
    (flags : UInt16) : BbtInv env (nvmBbtMark env s addrs flags).2 ∧
      (nvmBbtMark env s addrs flags).2.bbtsCached = s.bbtsCached := by
  by_cases hc : s.bbtsCached = true
  · obtain ⟨r, done, b, n, hm, _, _, hinv, _⟩ := markLoop_cases flags addrs hi hc
    rw [nvmBbtMark, if_neg (by simp [hc]), hm]
    exact ⟨hinv, rfl⟩
  · rw [nvmBbtMark, if_pos (by simp [hc])]
    rcases nvmCmdSbbt_cases env s addrs flags with ⟨e, n, hs⟩ | ⟨n, hs⟩ <;> rw [hs] <;> exact ⟨hi, rfl⟩

theorem BbtOp.exec_inv {env : BbtEnv} {s : BbtDev} (op : BbtOp env) (hi : BbtInv env s) :
    BbtInv env (op.exec s) := by
  cases op with
  | get addr => exact nvmBbtGet_inv hi addr
  | set bbt _ => exact (nvmBbtSet_inv hi bbt).1
  | mark addrs flags => exact (nvmBbtMark_inv hi addrs flags).1
  | flush addr => exact (nvmBbtFlush_writeBack hi addr).inv hi
  | flushAll => exact (flushAllLoop_writeBack _ hi).inv hi
  | setBbtsCached v =>
    simp only [exec, nvmDevSetBbtsCached]
    split_ifs <;> exact hi

theorem BbtOp.exec_cached {env : BbtEnv} {s : BbtDev} (op : BbtOp env) (hi : BbtInv env s)
    (h : op.isSwitch = false) : (op.exec s).bbtsCached = s.bbtsCached := by
  cases op with
  | get addr => exact nvmBbtGet_cached hi addr
  | set bbt _ => exact (nvmBbtSet_inv hi bbt).2
  | mark addrs flags => exact (nvmBbtMark_inv hi addrs flags).2
  | flush addr => exact (nvmBbtFlush_writeBack hi addr).cached
  | flushAll => exact (flushAllLoop_writeBack _ hi).cached
  | setBbtsCached v => simp [isSwitch] at h

/-- What the functions promise about views in one state, with caching on. -/
structure WriteBackCache (env : BbtEnv) (s : BbtDev) : Prop where
  get_ok : ∀ addr bbt s', nvmBbtGet env s addr = (.ok bbt, s') →
    bbt.nblks = env.nblks ∧
    ∀ i < env.nblks, bbt.blks i = view env s addr.ch.toNat addr.lun.toNat i
  get_views : ∀ addr, SameBlocks env (view env (nvmBbtGet env s addr).2) (view env s)
  set_ok : ∀ bbt s', bbt.nblks ≤ env.nblks → nvmBbtSet env s bbt = (.ok (), s') →
    SameBlocks env (view env s')
      ((view env s).setLun bbt.addr.ch.toNat bbt.addr.lun.toNat bbt.nblks bbt.blks)
  set_error : ∀ bbt e s', bbt.nblks ≤ env.nblks → nvmBbtSet env s bbt = (.error e, s') →
    SameBlocks env (view env s') (view env s)
  mark_ok : ∀ addrs flags s', nvmBbtMark env s addrs flags = (.ok (), s') →
    SameBlocks env (view env s') ((view env s).mark env.geo addrs flags.toUInt8)
  mark_error : ∀ addrs flags e s', nvmBbtMark env s addrs flags = (.error e, s') →
    ∃ done, done <+: addrs ∧
      SameBlocks env (view env s') ((view env s).mark env.geo done flags.toUInt8)
  flush_views : ∀ addr, SameBlocks env (view env (nvmBbtFlush env s addr).2) (view env s)
  flush_ok : ∀ addr s', nvmBbtFlush env s addr = (.ok (), s') → ∀ i < env.nblks,
    s'.table addr.ch.toNat addr.lun.toNat i = view env s addr.ch.toNat addr.lun.toNat i
  flushAll_views : SameBlocks env (view env (nvmBbtFlushAll env s).2) (view env s)
  flushAll_ok : ∀ s', nvmBbtFlushAll env s = (.ok (), s') →
    (∀ k, s'.bbts k = none) ∧ SameBlocks env s'.table (view env s)

theorem writeBackCache_of_inv {env : BbtEnv} {s : BbtDev} (hi : BbtInv env s)
    (hc : s.bbtsCached = true) : WriteBackCache env s where
  get_ok addr bbt s' h := by
    rcases nvmBbtGet_cases hi addr with ⟨e, b, n, hg, _⟩ | ⟨bbt', n, _, hg, he, hv⟩
    · simp [hg] at h
    · obtain ⟨rfl, rfl⟩ : bbt' = bbt ∧ _ = s' := by simpa [hg] using h
      exact ⟨he.nblks, fun i hi' => by rw [hv i hi', if_pos hc]⟩
  get_views addr := nvmBbtGet_views hi hc addr
  set_ok bbt s' _ h := by
    obtain ⟨r, b, n, hset, _, hv⟩ := nvmBbtSet_cached hi hc bbt
    obtain ⟨rfl, rfl⟩ := Prod.mk.inj (hset.symm.trans h)
    exact hv
  set_error bbt e s' _ h := by
    obtain ⟨r, b, n, hset, _, hv⟩ := nvmBbtSet_cached hi hc bbt
    obtain ⟨rfl, rfl⟩ := Prod.mk.inj (hset.symm.trans h)
    exact hv
  mark_ok addrs flags s' h := by
    obtain ⟨r, done, b, n, hm, _, hok, _, hv⟩ := markLoop_cases flags addrs hi hc
    rw [nvmBbtMark, if_neg (by simp [hc]), hm] at h
    obtain ⟨rfl, rfl⟩ := Prod.mk.inj h
    rw [hok rfl] at hv
    exact hv
  mark_error addrs flags e s' h := by
    obtain ⟨r, done, b, n, hm, hp, _, _, hv⟩ := markLoop_cases flags addrs hi hc
    rw [nvmBbtMark, if_neg (by simp [hc]), hm] at h
    obtain ⟨rfl, rfl⟩ := Prod.mk.inj h
    exact ⟨done, hp, hv⟩
  flush_views addr := (nvmBbtFlush_writeBack hi addr).views
  flush_ok addr s' h i hlt := by
    rcases nvmBbtFlush_cases hi addr with ⟨e, t, n, hf, _⟩ | ⟨n, _, hf⟩
    · simp [hf] at h
    · obtain ⟨_, rfl⟩ := Prod.mk.inj (hf.symm.trans h)
      simp [settled, hlt]
  flushAll_views := (flushAllLoop_writeBack _ hi).views
  flushAll_ok _ h := nvmBbtFlushAll_ok hi h

end LightNvm
