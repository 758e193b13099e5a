import LightNvm.BbtUncached

/-! Runs that switch caching on and off. The switch is a plain field write: entries
left by one mode stay in place while calls in the other mode go past them. -/

namespace LightNvm

/-- The device together with the tables that the calls so far have asked for. -/
def BbtOp.track {env : BbtEnv} (p : BbtDev × Tables) (op : BbtOp env) : BbtDev × Tables :=
  (op.exec p.1, op.given p.2)

def BbtOp.Ok {env : BbtEnv} (s : BbtDev) : BbtOp env → Prop
  | .get addr => ∃ bbt, (nvmBbtGet env s addr).1 = .ok bbt
  | .set bbt _ => (nvmBbtSet env s bbt).1 = .ok ()
  | .mark addrs flags => (nvmBbtMark env s addrs flags).1 = .ok ()
  | .flush addr => (nvmBbtFlush env s addr).1 = .ok ()
  | .flushAll => (nvmBbtFlushAll env s).1 = .ok ()
  | .setBbtsCached v => (nvmDevSetBbtsCached s v).1 = .ok ()

/-- A call made with caching off does not go past an entry that matters: a retrieval
finds no dirty entry, a table shorter than the LUN is not laid over a dirty rest, and
a mark meets no entry, or one that has the state already. -/
def BbtOp.MeetsEntries {env : BbtEnv} (s : BbtDev) (op : BbtOp env) : Prop :=
  s.bbtsCached = false →
    match op with
    | .get addr => Clean env s addr.ch.toNat addr.lun.toNat
    | .set bbt _ => ∀ i, bbt.nblks ≤ i → i < env.nblks →
        view env s bbt.addr.ch.toNat bbt.addr.lun.toNat i =
          s.table bbt.addr.ch.toNat bbt.addr.lun.toNat i
    | .mark addrs flags => ∀ a ∈ addrs, ∀ entry, s.bbts (bbtIdx env.geo a) = some entry →
        entry.blks (blkIdx env.geo a) = flags.toUInt8
    | _ => True

/-- No update is lost: every retrieval returns the tables asked for so far, and a
successful flush at any point of the run leaves them on the device. -/
structure LosesNoUpdate (env : BbtEnv) (p : BbtDev × Tables) (ops : List (BbtOp env)) : Prop where
  gets : Runs.Along BbtOp.track (fun p op => ∀ addr, op = .get addr →
    ∀ bbt, (nvmBbtGet env p.1 addr).1 = .ok bbt → bbt.nblks = env.nblks ∧
      ∀ i < env.nblks, bbt.blks i = p.2 addr.ch.toNat addr.lun.toNat i) p ops
  flushes : ∀ pre post, ops = pre ++ post → ∀ s',
    nvmBbtFlushAll env (Runs.run BbtOp.track p pre).1 = (.ok (), s') →
      SameBlocks env s'.table (Runs.run BbtOp.track p pre).2

structure Coherent (env : BbtEnv) (p : BbtDev × Tables) : Prop where
  inv : BbtInv env p.1
  views : SameBlocks env (view env p.1) p.2

theorem SameBlocks.symm {env : BbtEnv} {t t' : Tables} (h : SameBlocks env t t') :
    SameBlocks env t' t :=
  fun c l j hc hl hj => (h c l j hc hl hj).symm

theorem Tables.mark_apply (geo : GeoG) (t : Tables) (addrs : List GAddr) (v : UInt8) (c l j : Nat) :
    t.mark geo addrs v c l j =
      if ∃ a ∈ addrs, c = a.ch.toNat ∧ l = a.lun.toNat ∧ j = blkIdx geo a then v else t c l j := by
  induction addrs generalizing t with
  | nil => simp [Tables.mark]
  | cons a addrs ih =>
    have hcons : t.mark geo (a :: addrs) v =
      (t.set a.ch.toNat a.lun.toNat (blkIdx geo a) v).mark geo addrs v := rfl
    rw [hcons, ih]
    by_cases h : ∃ b ∈ addrs, c = b.ch.toNat ∧ l = b.lun.toNat ∧ j = blkIdx geo b
    · simp [h]
    · by_cases ha : c = a.ch.toNat ∧ l = a.lun.toNat ∧ j = blkIdx geo a
      · simp [Tables.set, ha]
      · simp [Tables.set, h, ha]

/-! Single calls with caching off. -/

theorem nvmBbtGet_coherent_iff {env : BbtEnv} {p : BbtDev × Tables} (h : Coherent env p)
    (hc : p.1.bbtsCached = false) {addr : GAddr} (hok : ∃ bbt, (nvmBbtGet env p.1 addr).1 = .ok bbt) :
    SameBlocks env (view env (nvmBbtGet env p.1 addr).2) p.2 ↔
      Clean env p.1 addr.ch.toNat addr.lun.toNat := by
  rcases nvmBbtGet_cases h.inv addr with ⟨e, b, n, hg, _⟩ | ⟨bbt, n, ha, hg, _, ht⟩
  · simp [hg] at hok
  have hb := nvmAddrCheckG_eq_zero.mp ha
  simp only [hc, Bool.false_eq_true, if_false] at ht
  rw [hg]
  constructor
  · intro hsame j hj
    have h' := hsame _ _ j hb.1 hb.2.1 hj
    rw [view_update ha _ n hb.2.1, if_pos ⟨rfl, rfl⟩, ht j hj] at h'
    rw [h.views _ _ j hb.1 hb.2.1 hj, h']
  · intro hclean c l j hcc hl hj
    rw [view_update ha _ n hl]
    split_ifs with he
    · obtain ⟨rfl, rfl⟩ := he
      rw [ht j hj, ← hclean j hj, h.views _ _ j hb.1 hb.2.1 hj]
    · exact h.views c l j hcc hl hj

theorem nvmBbtSet_coherent_iff {env : BbtEnv} {p : BbtDev × Tables} (h : Coherent env p)
    (hc : p.1.bbtsCached = false) {bbt : Bbt} (fits : bbt.nblks ≤ env.nblks)
    (hok : (nvmBbtSet env p.1 bbt).1 = .ok ()) :
    SameBlocks env (view env (nvmBbtSet env p.1 bbt).2)
        (p.2.setLun bbt.addr.ch.toNat bbt.addr.lun.toNat bbt.nblks bbt.blks) ↔
      ∀ i, bbt.nblks ≤ i → i < env.nblks → view env p.1 bbt.addr.ch.toNat bbt.addr.lun.toNat i =
        p.1.table bbt.addr.ch.toNat bbt.addr.lun.toNat i := by
  have hret : nvmBbtSet env p.1 bbt = (.ok (), (nvmBbtSet env p.1 bbt).2) := Prod.ext hok rfl
  obtain ⟨n, ha, hset⟩ := nvmBbtSet_uncached h.inv hc fits hret
  have hb := nvmAddrCheckG_eq_zero.mp ha
  have hview : ∀ c l j, l < env.geo.nluns → view env (nvmBbtSet env p.1 bbt).2 c l j =
      if c = bbt.addr.ch.toNat ∧ l = bbt.addr.lun.toNat then
        if j < bbt.nblks then bbt.blks j else p.1.table c l j
      else view env p.1 c l j := by
    intro c l j hl
    rw [hset]
    split_ifs with he hlt
    · obtain ⟨rfl, rfl⟩ := he
      rw [view_of_none (by simp [bbtIdx])]
      simp [Tables.setLun, hlt]
    · obtain ⟨rfl, rfl⟩ := he
      rw [view_of_none (by simp [bbtIdx])]
      simp [Tables.setLun, hlt]
    · have hk : c * env.geo.nluns + l ≠ bbtIdx env.geo bbt.addr := fun hh =>
        he (Striping.digits_inj hl hb.2.1 hh)
      have hne : ¬(c = bbt.addr.ch.toNat ∧ l = bbt.addr.lun.toNat ∧ j < bbt.nblks) :=
        fun hh => he ⟨hh.1, hh.2.1⟩
      simp [view, hk, Tables.setLun, hne]
  constructor
  · intro hsame i hle hi
    have h' := hsame _ _ i hb.1 hb.2.1 hi
    rw [hview _ _ _ hb.2.1] at h'
    simp only [Tables.setLun, and_self, true_and, if_true, hle.not_gt, if_false] at h'
    rw [h.views _ _ i hb.1 hb.2.1 hi, h']
  · intro hrest c l j hcc hl hj
    rw [hview c l j hl, Tables.setLun]
    by_cases he : c = bbt.addr.ch.toNat ∧ l = bbt.addr.lun.toNat
    · obtain ⟨rfl, rfl⟩ := he
      by_cases hlt : j < bbt.nblks
      · simp [hlt]
      · have hv := h.views _ _ j hb.1 hb.2.1 hj
        simp [hlt, ← hv, hrest j (by omega) hj]
    · have hne : ¬(c = bbt.addr.ch.toNat ∧ l = bbt.addr.lun.toNat ∧ j < bbt.nblks) :=
        fun hh => he ⟨hh.1, hh.2.1⟩
      rw [if_neg he, if_neg hne]
      exact h.views c l j hcc hl hj

theorem nvmBbtMark_off {env : BbtEnv} {s : BbtDev} (hc : s.bbtsCached = false) {addrs : List GAddr}
    {flags : UInt16} (hok : (nvmBbtMark env s addrs flags).1 = .ok ()) :
    ∃ n, (nvmBbtMark env s addrs flags).2 =
      { s with table := s.table.mark env.geo addrs flags.toUInt8, nevents := n } := by
  rw [nvmBbtMark, if_pos (by simp [hc])] at hok ⊢
  rcases nvmCmdSbbt_cases env s addrs flags with ⟨e, n, hs⟩ | ⟨n, hs⟩
  · simp [hs] at hok
  · exact ⟨n, by rw [hs]⟩

theorem nvmBbtMark_coherent {env : BbtEnv} {p : BbtDev × Tables} (h : Coherent env p)
    (hc : p.1.bbtsCached = false) {addrs : List GAddr} {flags : UInt16}
    (hok : (nvmBbtMark env p.1 addrs flags).1 = .ok ())
    (hm : ∀ a ∈ addrs, ∀ entry, p.1.bbts (bbtIdx env.geo a) = some entry →
      entry.blks (blkIdx env.geo a) = flags.toUInt8) :
    SameBlocks env (view env (nvmBbtMark env p.1 addrs flags).2)
      (p.2.mark env.geo addrs flags.toUInt8) := by
  obtain ⟨n, hs⟩ := nvmBbtMark_off hc hok
  rw [hs]
  intro c l j hcc hl hj
  have hv := h.views c l j hcc hl hj
  cases hk : p.1.bbts (c * env.geo.nluns + l) with
  | none =>
    simp only [view, hk] at hv ⊢
    rw [Tables.mark_apply, Tables.mark_apply, hv]
  | some entry =>
    simp only [view, hk] at hv ⊢
    rw [Tables.mark_apply]
    split_ifs with ha
    · obtain ⟨a, hm', rfl, rfl, rfl⟩ := ha
      exact hm a hm' entry hk
    · exact hv

theorem nvmBbtMark_meets {env : BbtEnv} {p : BbtDev × Tables} (hc : p.1.bbtsCached = false)
    {addrs : List GAddr} {flags : UInt16} (hok : (nvmBbtMark env p.1 addrs flags).1 = .ok ())
    (ha : ∀ a ∈ addrs, nvmAddrCheckG a env.geo = 0)
    (hsame : SameBlocks env (view env (nvmBbtMark env p.1 addrs flags).2)
      (p.2.mark env.geo addrs flags.toUInt8)) :
    ∀ a ∈ addrs, ∀ entry, p.1.bbts (bbtIdx env.geo a) = some entry →
      entry.blks (blkIdx env.geo a) = flags.toUInt8 := by
  intro a hm entry hk
  obtain ⟨n, hs⟩ := nvmBbtMark_off hc hok
  have hb := nvmAddrCheckG_eq_zero.mp (ha a hm)
  have hk' : p.1.bbts (a.ch.toNat * env.geo.nluns + a.lun.toNat) = some entry := hk
  have h' := hsame _ _ _ hb.1 hb.2.1 (blkIdx_lt (ha a hm))
  simp only [hs, view, hk'] at h'
  rw [h', Tables.mark_apply, if_pos ⟨a, hm, rfl, rfl, rfl⟩]

/-! Runs. -/

theorem view_setBbtsCached (env : BbtEnv) (s : BbtDev) (v : Int) :
    view env (nvmDevSetBbtsCached s v).2 = view env s := by
  simp only [nvmDevSetBbtsCached]
  split_ifs <;> rfl

theorem BbtOp.track_coherent {env : BbtEnv} {p : BbtDev × Tables} (h : Coherent env p)
    {op : BbtOp env} (hok : op.Ok p.1) (hm : op.MeetsEntries p.1) : Coherent env (op.track p) := by
  refine ⟨op.exec_inv h.inv, ?_⟩
  by_cases hc : p.1.bbtsCached = false
  · have hm' := hm hc
    cases op with
    | get addr => exact (nvmBbtGet_coherent_iff h hc hok).mpr hm'
    | set bbt fits => exact (nvmBbtSet_coherent_iff h hc fits hok).mpr hm'
    | mark addrs flags => exact nvmBbtMark_coherent h hc hok hm'
    | flush addr => exact (nvmBbtFlush_writeBack h.inv addr).views.trans h.views
    | flushAll => exact (flushAllLoop_writeBack _ h.inv).views.trans h.views
    | setBbtsCached v => simpa [track, exec, given, view_setBbtsCached] using h.views
  · have hw := writeBackCache_of_inv h.inv (by simpa using hc)
    cases op with
    | get addr => exact (hw.get_views addr).trans h.views
    | set bbt fits => exact (hw.set_ok bbt _ fits (Prod.ext hok rfl)).trans (h.views.setLun _ _ _ _)
    | mark addrs flags => exact (hw.mark_ok addrs flags _ (Prod.ext hok rfl)).trans (h.views.mark _ _)
    | flush addr => exact (hw.flush_views addr).trans h.views
    | flushAll => exact hw.flushAll_views.trans h.views
    | setBbtsCached v => simpa [track, exec, given, view_setBbtsCached] using h.views

theorem BbtOp.meetsEntries_of_track {env : BbtEnv} {p : BbtDev × Tables} (h : Coherent env p)
    {op : BbtOp env} (hok : op.Ok p.1) (hop : op.ValidUpdate) (h' : Coherent env (op.track p)) :
    op.MeetsEntries p.1 := by
  intro hc
  cases op with
  | get addr => exact (nvmBbtGet_coherent_iff h hc hok).mp h'.views
  | set bbt fits => exact (nvmBbtSet_coherent_iff h hc fits hok).mp h'.views
  | mark addrs flags => exact nvmBbtMark_meets hc hok hop.2.2 h'.views
  | flush _ | flushAll | setBbtsCached _ => trivial

theorem nvmBbtGet_returns {env : BbtEnv} {p : BbtDev × Tables} (h : Coherent env p) {addr : GAddr}
    (hm : BbtOp.MeetsEntries p.1 (.get addr : BbtOp env)) {bbt : Bbt}
    (hg : (nvmBbtGet env p.1 addr).1 = .ok bbt) :
    bbt.nblks = env.nblks ∧ ∀ i < env.nblks, bbt.blks i = p.2 addr.ch.toNat addr.lun.toNat i := by
  rcases nvmBbtGet_cases h.inv addr with ⟨e, b, n, hg', _⟩ | ⟨bbt', n, ha, hg', he, hv⟩
  · simp [hg'] at hg
  · obtain rfl : bbt' = bbt := by simpa [hg'] using hg
    have hb := nvmAddrCheckG_eq_zero.mp ha
    refine ⟨he.nblks, fun i hi => ?_⟩
    rw [hv i hi, ← h.views _ _ i hb.1 hb.2.1 hi]
    split_ifs with hc
    · rfl
    · exact (hm (by simpa using hc) i hi).symm

theorem BbtOp.exec_keeps_validStates {env : BbtEnv} (hs : ∀ n, env.succeeds n = true) {s : BbtDev}
    (hi : BbtInv env s) (hv : ValidStates env s) {op : BbtOp env} (hop : op.ValidUpdate) :
    ValidStates env (op.exec s) := by
  by_cases hsw : op.isSwitch = true
  · cases op with
    | setBbtsCached v =>
      refine ⟨?_, by simpa [exec, view_setBbtsCached] using hv.view⟩
      simp only [exec, nvmDevSetBbtsCached]
      split_ifs <;> exact hv.table
    | _ => simp [isSwitch] at hsw
  rw [Bool.not_eq_true] at hsw
  by_cases hc : s.bbtsCached = false
  · exact exec_validStates hs ⟨hi, hc⟩ hv hsw hop
  have hc' : s.bbtsCached = true := by simpa using hc
  cases op with
  | get addr =>
    refine ⟨?_, fun c l j hcc hl hj => ?_⟩
    · simpa [exec, nvmBbtGet_table hi] using hv.table
    · rw [exec, nvmBbtGet_views hi hc' addr c l j hcc hl hj]
      exact hv.view c l j hcc hl hj
  | set bbt fits =>
    obtain ⟨r, b, n, hset, _, hview⟩ := nvmBbtSet_cached hi hc' bbt
    simp only [exec, hset]
    refine ⟨hv.table, fun c l j hcc hl hj => ?_⟩
    rw [hview c l j hcc hl hj]
    cases r with
    | ok _ => exact hv.view.setLun _ _ hop.2 c l j hcc hl hj
    | error _ => exact hv.view c l j hcc hl hj
  | mark addrs flags =>
    obtain ⟨r, done, b, n, hmark, _, _, _, hview⟩ := markLoop_cases flags addrs hi hc'
    rw [exec, nvmBbtMark, if_neg (by simp [hc']), hmark]
    refine ⟨hv.table, fun c l j hcc hl hj => ?_⟩
    rw [hview c l j hcc hl hj]
    exact hv.view.mark done hop.2.1 c l j hcc hl hj
  | flush addr => exact (nvmBbtFlush_writeBack hi addr).validStates hv
  | flushAll => exact (flushAllLoop_writeBack _ hi).validStates hv
  | setBbtsCached v => simp [isSwitch] at hsw

theorem coherent_open (env : BbtEnv) (table : Tables) (cached : Bool) :
    Coherent env (nvmDevOpen table cached, table) :=
  ⟨bbtInv_open env table cached, .refl _ _⟩

end LightNvm
