import LightNvm.BbtCached

/-! Runs with caching off. `nvm_bbt_get` leaves an entry behind and `nvm_bbt_mark`
bypasses it, so a later flush can write states back that the device no longer holds. -/

namespace LightNvm

def BbtOp.given {env : BbtEnv} (t : Tables) : BbtOp env → Tables
  | .set bbt _ => t.setLun bbt.addr.ch.toNat bbt.addr.lun.toNat bbt.nblks bbt.blks
  | .mark addrs flags => t.mark env.geo addrs flags.toUInt8
  | _ => t

def BbtOp.ValidUpdate {env : BbtEnv} : BbtOp env → Prop
  | .set bbt _ => nvmAddrCheckG bbt.addr env.geo = 0 ∧ ∀ i < bbt.nblks, (bbtState (bbt.blks i)).isSome
  | .mark addrs flags => sbbtAccepts env addrs flags = true ∧ (bbtState flags.toUInt8).isSome ∧
      ∀ a ∈ addrs, nvmAddrCheckG a env.geo = 0
  | _ => True

/-- The LUN has no managed entry, or one that agrees with the device. -/
def Clean (env : BbtEnv) (s : BbtDev) (ch lun : Nat) : Prop :=
  ∀ j < env.nblks, view env s ch lun j = s.table ch lun j

instance (env : BbtEnv) (s : BbtDev) (ch lun : Nat) : Decidable (Clean env s ch lun) :=
  inferInstanceAs (Decidable (∀ j < env.nblks, view env s ch lun j = s.table ch lun j))

def AllClean (env : BbtEnv) (s : BbtDev) : Prop :=
  ∀ c l, c < env.geo.nchannels → l < env.geo.nluns → Clean env s c l

def BbtOp.FlushesClean {env : BbtEnv} (s : BbtDev) : BbtOp env → Prop
  | .flush addr => nvmAddrCheckG addr env.geo = 0 → Clean env s addr.ch.toNat addr.lun.toNat
  | .flushAll => AllClean env s
  | _ => True

/-- A run with caching off that never rewrites the device behind the user's back. -/
structure Uncached (env : BbtEnv) (table : Tables) (ops : List (BbtOp env)) : Prop where
  steps : Runs.Along BbtOp.exec (fun s op => (op.exec s).table = op.given s.table)
    (nvmDevOpen table false) ops
  close : let s := Runs.run BbtOp.exec (nvmDevOpen table false) ops
    (nvmDevClose env s).table = s.table
  last : (nvmDevClose env (Runs.run BbtOp.exec (nvmDevOpen table false) ops)).table =
    Runs.run BbtOp.given table ops

def ValidTables (env : BbtEnv) (t : Tables) : Prop :=
  ∀ c l j, c < env.geo.nchannels → l < env.geo.nluns → j < env.nblks → (bbtState (t c l j)).isSome

/-! Flushes that succeed. -/

theorem mem_flags_of_bbtState {v : UInt8} (h : (bbtState v).isSome) :
    v.toUInt16 ∈ [0x0, 0x1, 0x4, 0x2, 0x8] := by
  unfold bbtState at h
  split_ifs at h with h0 h1 h2 h4 h8
  all_goals simp_all

theorem flushLoop_ok {env : BbtEnv} (hs : ∀ n, env.succeeds n = true) {cached : Bbt} (spec : SpecBbt)
    (ha : nvmAddrCheckG cached.addr env.geo = 0) (is : List Nat)
    (his : ∀ i ∈ is, i < env.nblks ∧ (cached.blks i ≠ spec.blk i → (bbtState (cached.blks i)).isSome))
    (s : BbtDev) : (flushLoop env cached spec is s).1 = .ok () := by
  induction is generalizing s with
  | nil => rfl
  | cons i is ih =>
    have ih' := ih (fun j hj => his j (by simp [hj]))
    obtain ⟨hi, hv⟩ := his i (by simp)
    by_cases he : cached.blks i = spec.blk i
    · simp only [flushLoop, he, if_true]
      exact ih' s
    · have hcheck := nvmAddrCheckG_block ha hi
      have hacc : sbbtAccepts env [{ cached.addr with
          blk := BitVec.ofNat 16 (i / env.geo.nplanes)
          pl := BitVec.ofNat 8 (i % env.geo.nplanes) }] (cached.blks i).toUInt16 = true := by
        cases hbe : env.be with
        | ioctl =>
          have hm := mem_flags_of_bbtState (hv he)
          simp only [sbbtAccepts, hbe, hm, List.all_cons, List.all_nil, hcheck, List.length_singleton]
          rfl
        | spdk => simp [sbbtAccepts, hbe]
      simp only [flushLoop, he, if_false, nvmCmdSbbt, hacc, hs, Bool.not_true, if_true]
      exact ih' _

theorem nvmBbtFlush_ok {env : BbtEnv} (hs : ∀ n, env.succeeds n = true) {s : BbtDev}
    (hi : BbtInv env s) {addr : GAddr} (ha : nvmAddrCheckG addr env.geo = 0)
    (hv : ∀ j < env.nblks, view env s addr.ch.toNat addr.lun.toNat j ≠
      s.table addr.ch.toNat addr.lun.toNat j →
      (bbtState (view env s addr.ch.toNat addr.lun.toNat j)).isSome) :
    ∃ n, nvmBbtFlush env s addr = (.ok (), { s with
      bbts := Function.update s.bbts (bbtIdx env.geo addr) none
      table := settled env s addr.ch.toNat addr.lun.toNat
      nevents := n }) := by
  rcases nvmBbtFlush_cases hi addr with ⟨e, t, n, hf, _⟩ | ⟨n, _, hf⟩
  swap
  · exact ⟨n, hf⟩
  exfalso
  cases hk : s.bbts (bbtIdx env.geo addr) with
  | none => simp [nvmBbtFlush, ha, hk] at hf
  | some cached =>
    obtain ⟨hn, hca, _⟩ := hi _ _ hk
    have hview : view env s addr.ch.toNat addr.lun.toNat = cached.blks := view_of_entry hk
    have hok := flushLoop_ok hs (s.answer env addr) hca (List.range cached.nblks)
      (fun i hi' => by
        have hlt : i < env.nblks := hn ▸ List.mem_range.mp hi'
        have hvi := hv i hlt
        rw [hview] at hvi
        exact ⟨hlt, hvi⟩) s.tick
    have hflush := nvmBbtFlush_entry ha hk hn (hs _)
    rw [hf] at hflush
    split at hflush
    · next he => simp [he] at hok
    · simp at hflush

theorem WriteBack.validTables {env : BbtEnv} {s s' : BbtDev} (h : WriteBack env s s')
    (hv : ValidTables env (view env s)) : ValidTables env (view env s') := by
  intro c l j hc hl hj
  rw [h.views c l j hc hl hj]
  exact hv c l j hc hl hj

theorem flushAllLoop_ok {env : BbtEnv} (hs : ∀ n, env.succeeds n = true) (is : List Nat)
    (his : ∀ i ∈ is, nvmAddrCheckG (flushAllAddr env.geo i) env.geo = 0) {s : BbtDev}
    (hi : BbtInv env s) (hv : ValidTables env (view env s)) :
    (flushAllLoop env is s).1 = .ok () := by
  induction is generalizing s with
  | nil => rfl
  | cons i is ih =>
    have ha := his i (by simp)
    have hb := nvmAddrCheckG_eq_zero.mp ha
    obtain ⟨n, hf⟩ := nvmBbtFlush_ok hs hi ha (fun j hj _ => hv _ _ j hb.1 hb.2.1 hj)
    have hw := nvmBbtFlush_writeBack hi (flushAllAddr env.geo i)
    rw [hf] at hw
    simp only [flushAllLoop, hf]
    exact ih (fun j hj => his j (by simp [hj])) (hw.inv hi) (hw.validTables hv)

theorem flushAllAddr_check {geo : GeoG} {addr : GAddr} (ha : nvmAddrCheckG addr geo = 0) (i : Nat) :
    nvmAddrCheckG (flushAllAddr geo i) geo = 0 := by
  rw [nvmAddrCheckG_eq_zero] at ha ⊢
  obtain ⟨hch, hlun, hpl, hblk, hpg, hsec⟩ := ha
  have hc : i % geo.nchannels < geo.nchannels := Nat.mod_lt _ (by omega)
  have hl : i / geo.nchannels % geo.nluns < geo.nluns := Nat.mod_lt _ (by omega)
  refine ⟨?_, ?_, ?_, ?_, ?_, ?_⟩
  · exact (Nat.mod_le _ _).trans_lt hc
  · exact (Nat.mod_le _ _).trans_lt hl
  all_goals simp only [flushAllAddr, BitVec.toNat_ofNat, Nat.zero_mod, BitVec.ofNat_eq_ofNat]
  all_goals omega

/-! Single calls with caching off. -/

theorem nvmBbtFlush_clean {env : BbtEnv} {s : BbtDev} (hi : BbtInv env s) {addr : GAddr}
    (h : nvmAddrCheckG addr env.geo = 0 → Clean env s addr.ch.toNat addr.lun.toNat) :
    (nvmBbtFlush env s addr).2.table = s.table := by
  rcases nvmBbtFlush_cases hi addr with ⟨e, t, n, hf, hw⟩ | ⟨n, ha, hf⟩
  · rw [hf]
    funext c l j
    rcases hw c l j with h' | ⟨_, ha, rfl, rfl, hj, h'⟩
    · exact h'
    · exact h'.trans (h ha j hj)
  · rw [hf]
    funext c l j
    simp only [settled]
    split_ifs with h'
    · obtain ⟨rfl, rfl, hj⟩ := h'
      exact h ha j hj
    · rfl

theorem nvmBbtFlushAll_clean {env : BbtEnv} {s : BbtDev} (hi : BbtInv env s) (h : AllClean env s) :
    (nvmBbtFlushAll env s).2.table = s.table := by
  funext c l j
  rcases (flushAllLoop_writeBack (List.range env.nbbts) hi).table c l j with h' | ⟨hc, hl, hj, h'⟩
  · exact h'
  · exact h'.trans (h c l hc hl j hj)

theorem nvmBbtFlush_table_iff {env : BbtEnv} (hs : ∀ n, env.succeeds n = true) {s : BbtDev}
    (hi : BbtInv env s) (hv : ValidTables env (view env s)) (addr : GAddr) :
    (nvmBbtFlush env s addr).2.table = s.table ↔
      (nvmAddrCheckG addr env.geo = 0 → Clean env s addr.ch.toNat addr.lun.toNat) := by
  refine ⟨fun h ha j hj => ?_, nvmBbtFlush_clean hi⟩
  have hb := nvmAddrCheckG_eq_zero.mp ha
  obtain ⟨n, hf⟩ := nvmBbtFlush_ok hs hi ha (fun j hj _ => hv _ _ j hb.1 hb.2.1 hj)
  rw [hf] at h
  have hj' := congrFun (congrFun (congrFun h addr.ch.toNat) addr.lun.toNat) j
  simpa [settled, hj] using hj'

theorem nvmBbtFlushAll_table_iff {env : BbtEnv} (hs : ∀ n, env.succeeds n = true) {s : BbtDev}
    (hi : BbtInv env s) (hv : ValidTables env (view env s)) :
    (nvmBbtFlushAll env s).2.table = s.table ↔ AllClean env s := by
  refine ⟨fun h c l hc hl j hj => ?_, nvmBbtFlushAll_clean hi⟩
  cases hk : s.bbts (c * env.geo.nluns + l) with
  | none => rw [view_of_none hk]
  | some bbt =>
    have ha := (hi _ _ hk).2.1
    have hok := flushAllLoop_ok hs (List.range env.nbbts) (fun i _ => flushAllAddr_check ha i) hi hv
    have hall : nvmBbtFlushAll env s = (.ok (), (nvmBbtFlushAll env s).2) :=
      Prod.ext hok rfl
    have hsame := (nvmBbtFlushAll_ok hi hall).2 c l j hc hl hj
    rw [h] at hsame
    exact hsame.symm

theorem nvmBbtSet_flush {env : BbtEnv} {s : BbtDev} (hi : BbtInv env s) (hc : s.bbtsCached = false)
    (bbt : Bbt) :
    (nvmAddrCheckG bbt.addr env.geo = 0 → ∃ m, env.succeeds m = false) ∧
      (∃ e, (nvmBbtSet env s bbt).1 = .error e) ∨
    (∃ b n, nvmAddrCheckG bbt.addr env.geo = 0 ∧ nvmBbtSet env s bbt = nvmBbtFlush env { s with
      bbts := Function.update s.bbts (bbtIdx env.geo bbt.addr) (some b), nevents := n } bbt.addr ∧
      EntryOf env bbt.addr b ∧ ∀ i < env.nblks, b.blks i =
        if i < bbt.nblks then bbt.blks i else s.table bbt.addr.ch.toNat bbt.addr.lun.toNat i) := by
  rcases nvmBbtGet_cases hi bbt.addr with ⟨e, b, n, hg, _, hbad⟩ | ⟨entry, n, ha, hg, he, ht⟩
  · refine .inl ⟨hbad, ?_⟩
    by_cases ha : nvmAddrCheckG bbt.addr env.geo = 0
    · exact ⟨e, by simp [nvmBbtSet, ha, hg]⟩
    · exact ⟨.einval, by simp [nvmBbtSet, ha]⟩
  · let new : Bbt := { entry with blks := fun i => if i < bbt.nblks then bbt.blks i else entry.blks i }
    refine .inr ⟨refreshed new, n, ha, ?_, ⟨?_, ?_, ?_⟩, fun i hlt => ?_⟩
    · have h := nvmBbtSet_eq ha hg
      rw [if_neg (by simp [hc])] at h
      simpa [BbtDev.setEntry, new] using h
    · simpa [new] using he.nblks
    · simpa [new] using he.check
    · simpa [new] using he.idx
    · simp [new, ht i hlt, hc]

theorem settled_setLun {env : BbtEnv} {s : BbtDev} {bbt b : Bbt} (n : Nat)
    (fits : bbt.nblks ≤ env.nblks) (ha : nvmAddrCheckG bbt.addr env.geo = 0)
    (hb : ∀ i < env.nblks, b.blks i =
      if i < bbt.nblks then bbt.blks i else s.table bbt.addr.ch.toNat bbt.addr.lun.toNat i) :
    settled env { s with
      bbts := Function.update s.bbts (bbtIdx env.geo bbt.addr) (some b), nevents := n }
      bbt.addr.ch.toNat bbt.addr.lun.toNat =
      s.table.setLun bbt.addr.ch.toNat bbt.addr.lun.toNat bbt.nblks bbt.blks := by
  funext c l j
  simp only [settled, Tables.setLun]
  by_cases h : c = bbt.addr.ch.toNat ∧ l = bbt.addr.lun.toNat
  · obtain ⟨rfl, rfl⟩ := h
    rw [view_update ha _ n (nvmAddrCheckG_eq_zero.mp ha).2.1]
    by_cases hj : j < env.nblks
    · simp [hj, hb j hj]
    · have hlt : ¬ j < bbt.nblks := by omega
      simp [hj, hlt]
  · have h₁ : ¬(c = bbt.addr.ch.toNat ∧ l = bbt.addr.lun.toNat ∧ j < env.nblks) :=
      fun hh => h ⟨hh.1, hh.2.1⟩
    have h₂ : ¬(c = bbt.addr.ch.toNat ∧ l = bbt.addr.lun.toNat ∧ j < bbt.nblks) :=
      fun hh => h ⟨hh.1, hh.2.1⟩
    rw [if_neg h₁, if_neg h₂]

theorem nvmBbtSet_uncached {env : BbtEnv} {s s' : BbtDev} (hi : BbtInv env s)
    (hc : s.bbtsCached = false) {bbt : Bbt} (fits : bbt.nblks ≤ env.nblks)
    (h : nvmBbtSet env s bbt = (.ok (), s')) :
    ∃ n, nvmAddrCheckG bbt.addr env.geo = 0 ∧ s' = { s with
      bbts := Function.update s.bbts (bbtIdx env.geo bbt.addr) none
      table := s.table.setLun bbt.addr.ch.toNat bbt.addr.lun.toNat bbt.nblks bbt.blks
      nevents := n } := by
  rcases nvmBbtSet_flush hi hc bbt with ⟨_, e, he⟩ | ⟨b, n, ha, hset, hb, hblks⟩
  · simp [h] at he
  · rw [hset] at h
    rcases nvmBbtFlush_cases (hi.update hb s.table n s.bbtsCached) bbt.addr with
      ⟨e, t, m, hf, _⟩ | ⟨m, _, hf⟩
    · simp [hf] at h
    · refine ⟨m, ha, ?_⟩
      rw [hf] at h
      rw [← (Prod.mk.inj h).2, settled_setLun n fits ha hblks]
      simp

theorem nvmBbtSet_succeeds {env : BbtEnv} (hs : ∀ n, env.succeeds n = true) {s : BbtDev}
    (hi : BbtInv env s) (hc : s.bbtsCached = false) {bbt : Bbt}
    (ha : nvmAddrCheckG bbt.addr env.geo = 0)
    (hv : ∀ i < bbt.nblks, (bbtState (bbt.blks i)).isSome) :
    (nvmBbtSet env s bbt).1 = .ok () := by
  rcases nvmBbtSet_flush hi hc bbt with ⟨hbad, _⟩ | ⟨b, n, _, hset, hb, hblks⟩
  · obtain ⟨m, hm⟩ := hbad ha
    simp [hs m] at hm
  · obtain ⟨m, hf⟩ := nvmBbtFlush_ok hs (hi.update hb s.table n s.bbtsCached) ha (by
      intro j hj hne
      rw [view_update ha _ n (nvmAddrCheckG_eq_zero.mp ha).2.1] at hne ⊢
      simp only [and_self, if_true] at hne ⊢
      rw [hblks j hj] at hne ⊢
      split_ifs at hne ⊢ with hlt
      · exact hv j hlt
      · exact absurd rfl hne)
    rw [hset, hf]

theorem nvmBbtMark_uncached {env : BbtEnv} (hs : ∀ n, env.succeeds n = true) {s : BbtDev}
    (hc : s.bbtsCached = false) {addrs : List GAddr} {flags : UInt16}
    (ha : sbbtAccepts env addrs flags = true) :
    nvmBbtMark env s addrs flags =
      (.ok (), { s.tick with table := s.table.mark env.geo addrs flags.toUInt8 }) := by
  simp [nvmBbtMark, hc, nvmCmdSbbt, ha, hs]

/-! Runs. -/

def FlushesOnlyClean (env : BbtEnv) (table : Tables) (ops : List (BbtOp env)) : Prop :=
  Runs.Along BbtOp.exec BbtOp.FlushesClean (nvmDevOpen table false) ops ∧
    AllClean env (Runs.run BbtOp.exec (nvmDevOpen table false) ops)

structure UncachedInv (env : BbtEnv) (s : BbtDev) : Prop where
  inv : BbtInv env s
  off : s.bbtsCached = false

theorem UncachedInv.exec {env : BbtEnv} {s : BbtDev} (h : UncachedInv env s) {op : BbtOp env}
    (hop : op.isSwitch = false) : UncachedInv env (op.exec s) :=
  ⟨op.exec_inv h.inv, (op.exec_cached h.inv hop).trans h.off⟩

theorem nvmBbtGet_table {env : BbtEnv} {s : BbtDev} (hi : BbtInv env s) (addr : GAddr) :
    (nvmBbtGet env s addr).2.table = s.table := by
  rcases nvmBbtGet_cases hi addr with ⟨e, b, n, hg, _⟩ | ⟨bbt, n, _, hg, _⟩ <;> rw [hg]

theorem BbtOp.exec_table {env : BbtEnv} (hs : ∀ n, env.succeeds n = true) {s : BbtDev}
    (h : UncachedInv env s) {op : BbtOp env} (hsw : op.isSwitch = false) (hop : op.ValidUpdate)
    (hf : op.FlushesClean s) : (op.exec s).table = op.given s.table := by
  cases op with
  | get addr => exact nvmBbtGet_table h.inv addr
  | set bbt fits =>
    have hok := nvmBbtSet_succeeds hs h.inv h.off hop.1 hop.2
    obtain ⟨n, _, hset⟩ := nvmBbtSet_uncached h.inv h.off fits (Prod.ext hok rfl)
    simp only [exec, hset, given]
  | mark addrs flags =>
    simp only [exec, nvmBbtMark_uncached hs h.off hop.1, given]
  | flush addr => exact nvmBbtFlush_clean h.inv hf
  | flushAll => exact nvmBbtFlushAll_clean h.inv hf
  | setBbtsCached v => simp [isSwitch] at hsw

structure ValidStates (env : BbtEnv) (s : BbtDev) : Prop where
  table : ValidTables env s.table
  view : ValidTables env (view env s)

theorem ValidTables.set {env : BbtEnv} {t : Tables} (h : ValidTables env t) (ch lun i : Nat) {v : UInt8}
    (hv : (bbtState v).isSome) : ValidTables env (t.set ch lun i v) := by
  intro c l j hc hl hj
  simp only [Tables.set]
  split_ifs
  · exact hv
  · exact h c l j hc hl hj

theorem ValidTables.mark {env : BbtEnv} {t : Tables} (h : ValidTables env t) (addrs : List GAddr)
    {v : UInt8} (hv : (bbtState v).isSome) : ValidTables env (t.mark env.geo addrs v) := by
  induction addrs generalizing t with
  | nil => exact h
  | cons a addrs ih => exact ih (h.set _ _ _ hv)

theorem ValidTables.setLun {env : BbtEnv} {t : Tables} (h : ValidTables env t) (ch lun : Nat)
    {nblks : Nat} {blks : Nat → UInt8} (hv : ∀ i < nblks, (bbtState (blks i)).isSome) :
    ValidTables env (t.setLun ch lun nblks blks) := by
  intro c l j hc hl hj
  simp only [Tables.setLun]
  split_ifs with h'
  · exact hv j h'.2.2
  · exact h c l j hc hl hj

theorem WriteBack.validStates {env : BbtEnv} {s s' : BbtDev} (h : WriteBack env s s')
    (hv : ValidStates env s) : ValidStates env s' := by
  refine ⟨fun c l j hc hl hj => ?_, h.validTables hv.view⟩
  rcases h.table c l j with h' | ⟨_, _, _, h'⟩
  · rw [h']; exact hv.table c l j hc hl hj
  · rw [h']; exact hv.view c l j hc hl hj

theorem ValidStates.of_entries {env : BbtEnv} {s s' : BbtDev} (hv : ValidStates env s)
    (ht : ValidTables env s'.table) (he : ∀ k, s'.bbts k = s.bbts k ∨ s'.bbts k = none) :
    ValidStates env s' := by
  refine ⟨ht, fun c l j hc hl hj => ?_⟩
  cases hk : s'.bbts (c * env.geo.nluns + l) with
  | none => rw [view_of_none hk]; exact ht c l j hc hl hj
  | some bbt =>
    have hk' : s.bbts (c * env.geo.nluns + l) = some bbt := by
      rcases he (c * env.geo.nluns + l) with h | h
      · rw [← h, hk]
      · simp [h] at hk
    have hvc := hv.view c l j hc hl hj
    rw [view_of_entry hk'] at hvc
    rw [view_of_entry hk]
    exact hvc

theorem BbtOp.exec_validStates {env : BbtEnv} (hs : ∀ n, env.succeeds n = true) {s : BbtDev}
    (h : UncachedInv env s) (hv : ValidStates env s) {op : BbtOp env} (hsw : op.isSwitch = false)
    (hop : op.ValidUpdate) : ValidStates env (op.exec s) := by
  cases op with
  | get addr =>
    rcases nvmBbtGet_cases h.inv addr with ⟨e, b, n, hg, hb, _⟩ | ⟨bbt, n, ha, hg, _, ht⟩
    · simp only [exec, hg]
      refine hv.of_entries hv.table fun k => ?_
      rcases hb with rfl | ⟨_, rfl⟩
      · exact .inl rfl
      · by_cases hk : k = bbtIdx env.geo addr
        · subst hk; simp
        · simp [hk]
    · simp only [exec, hg]
      refine ⟨hv.table, fun c l j hc hl hj => ?_⟩
      rw [view_update ha _ n hl]
      split_ifs with h'
      · obtain ⟨rfl, rfl⟩ := h'
        rw [ht j hj, if_neg (by simp [h.off])]
        exact hv.table _ _ j hc hl hj
      · exact hv.view c l j hc hl hj
  | set bbt fits =>
    have hok := nvmBbtSet_succeeds hs h.inv h.off hop.1 hop.2
    obtain ⟨n, _, hset⟩ := nvmBbtSet_uncached h.inv h.off fits (Prod.ext hok rfl)
    simp only [exec, hset]
    refine hv.of_entries (hv.table.setLun _ _ hop.2) fun k => ?_
    by_cases hk : k = bbtIdx env.geo bbt.addr
    · subst hk; simp
    · simp [hk]
  | mark addrs flags =>
    simp only [exec, nvmBbtMark_uncached hs h.off hop.1]
    exact hv.of_entries (hv.table.mark addrs hop.2.1) fun k => .inl rfl
  | flush addr => exact (nvmBbtFlush_writeBack h.inv addr).validStates hv
  | flushAll => exact (flushAllLoop_writeBack _ h.inv).validStates hv
  | setBbtsCached v => simp [isSwitch] at hsw

theorem BbtOp.flushesClean_of_table {env : BbtEnv} (hs : ∀ n, env.succeeds n = true) {s : BbtDev}
    (h : UncachedInv env s) (hv : ValidStates env s) {op : BbtOp env}
    (ht : (op.exec s).table = op.given s.table) : op.FlushesClean s := by
  cases op with
  | flush addr => exact (nvmBbtFlush_table_iff hs h.inv hv.view addr).mp ht
  | flushAll => exact (nvmBbtFlushAll_table_iff hs h.inv hv.view).mp ht
  | get _ | set _ _ | mark _ _ | setBbtsCached _ => trivial

end LightNvm
