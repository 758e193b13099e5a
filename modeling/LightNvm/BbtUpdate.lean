import LightNvm.BbtFlush

/-! Retrieval and update of tables: what `nvm_bbt_get`, `nvm_bbt_set` and
`nvm_bbt_mark` can do, in either caching mode. -/

namespace LightNvm

def Tables.setLun (t : Tables) (ch lun nblks : Nat) (blks : Nat → UInt8) : Tables :=
  fun c l j => if c = ch ∧ l = lun ∧ j < nblks then blks j else t c l j

@[simp] theorem refreshed_addr (bbt : Bbt) : (refreshed bbt).addr = bbt.addr := by
  simp only [refreshed, refreshCounters]
  split_ifs <;> rfl

@[simp] theorem refreshed_nblks (bbt : Bbt) : (refreshed bbt).nblks = bbt.nblks := by
  simp only [refreshed, refreshCounters]
  split_ifs <;> rfl

@[simp] theorem refreshed_blks (bbt : Bbt) : (refreshed bbt).blks = bbt.blks := by
  simp only [refreshed, refreshCounters]
  split_ifs <;> rfl

theorem SameBlocks.mark {env : BbtEnv} {t t' : Tables} (h : SameBlocks env t t')
    (addrs : List GAddr) (v : UInt8) :
    SameBlocks env (t.mark env.geo addrs v) (t'.mark env.geo addrs v) := by
  induction addrs generalizing t t' with
  | nil => exact h
  | cons a addrs ih =>
    apply ih
    intro c l j hc hl hj
    simp only [Tables.set, h c l j hc hl hj]

theorem SameBlocks.setLun {env : BbtEnv} {t t' : Tables} (h : SameBlocks env t t')
    (ch lun nblks : Nat) (blks : Nat → UInt8) :
    SameBlocks env (t.setLun ch lun nblks blks) (t'.setLun ch lun nblks blks) := by
  intro c l j hc hl hj
  simp only [Tables.setLun, h c l j hc hl hj]

structure EntryOf (env : BbtEnv) (addr : GAddr) (bbt : Bbt) : Prop where
  nblks : bbt.nblks = env.nblks
  check : nvmAddrCheckG bbt.addr env.geo = 0
  idx : bbtIdx env.geo bbt.addr = bbtIdx env.geo addr

theorem BbtInv.entryOf {env : BbtEnv} {s : BbtDev} (hi : BbtInv env s) {addr : GAddr} {bbt : Bbt}
    (h : s.bbts (bbtIdx env.geo addr) = some bbt) : EntryOf env addr bbt :=
  ⟨(hi _ _ h).1, (hi _ _ h).2.1, (hi _ _ h).2.2⟩

theorem BbtInv.update {env : BbtEnv} {s : BbtDev} (hi : BbtInv env s) {addr : GAddr} {bbt : Bbt}
    (h : EntryOf env addr bbt) (t : Tables) (n : Nat) (cached : Bool) :
    BbtInv env ⟨cached, Function.update s.bbts (bbtIdx env.geo addr) (some bbt), t, n⟩ := by
  intro k b hk
  by_cases he : k = bbtIdx env.geo addr
  · subst he
    simp only [Function.update_self, Option.some.injEq] at hk
    subst hk
    exact ⟨h.nblks, h.check, h.idx⟩
  · exact hi k b (by simpa [he] using hk)

theorem view_update {env : BbtEnv} {s : BbtDev} {addr : GAddr} (ha : nvmAddrCheckG addr env.geo = 0)
    (bbt : Bbt) (n : Nat) {c l : Nat} (hl : l < env.geo.nluns) :
    view env { s with bbts := Function.update s.bbts (bbtIdx env.geo addr) (some bbt), nevents := n } c l =
      if c = addr.ch.toNat ∧ l = addr.lun.toNat then bbt.blks else view env s c l := by
  split_ifs with h
  · obtain ⟨rfl, rfl⟩ := h
    exact view_of_entry (by simp [bbtIdx])
  · have hk : c * env.geo.nluns + l ≠ bbtIdx env.geo addr := fun he =>
      h (Striping.digits_inj hl (nvmAddrCheckG_eq_zero.mp ha).2.1 he)
    funext j
    simp [view, hk]

theorem bbtRefresh_cases {env : BbtEnv} (s : BbtDev) (addr : GAddr) {bbt : Bbt}
    (hb : EntryOf env addr bbt) :
    (∃ e n, bbtRefresh env s addr bbt = (.error e,
      { s with bbts := Function.update s.bbts (bbtIdx env.geo addr) none, nevents := n }) ∧
      env.succeeds s.nevents = false) ∨
    (∃ b n, bbtRefresh env s addr bbt = (.ok b,
      { s with bbts := Function.update s.bbts (bbtIdx env.geo addr) (some b), nevents := n }) ∧
      EntryOf env addr b ∧ ∀ i < env.nblks, b.blks i = s.table addr.ch.toNat addr.lun.toNat i) := by
  cases hg : env.succeeds s.nevents with
  | false =>
    refine .inl ⟨.eio, s.nevents + 1, ?_, rfl⟩
    simp [bbtRefresh, nvmCmdGbbt, hg, BbtDev.setEntry, BbtDev.tick]
  | true =>
    have hn : bbt.nblks = (s.answer env addr).tblks := hb.nblks
    refine .inr ⟨bbt.fill (s.answer env addr), s.nevents + 1, ?_, ?_, ?_⟩
    · simp only [bbtRefresh, nvmCmdGbbt, hg, if_true]
      rw [if_neg (by simp [hn])]
      rfl
    · exact ⟨hb.nblks, hb.check, hb.idx⟩
    · intro i hi
      have : i < bbt.nblks := by rw [hb.nblks]; exact hi
      simp [Bbt.fill, this, BbtDev.answer]

/-- `nvm_bbt_get` changes no table on the device. With caching on it returns the view
and a failure changes no entry; with caching off it returns the table on the device. -/
theorem nvmBbtGet_cases {env : BbtEnv} {s : BbtDev} (hi : BbtInv env s) (addr : GAddr) :
    (∃ e b n, nvmBbtGet env s addr = (.error e, { s with bbts := b, nevents := n }) ∧
      (b = s.bbts ∨ (s.bbtsCached = false ∧ b = Function.update s.bbts (bbtIdx env.geo addr) none)) ∧
      (nvmAddrCheckG addr env.geo = 0 → ∃ m, env.succeeds m = false)) ∨
    (∃ bbt n, nvmAddrCheckG addr env.geo = 0 ∧ nvmBbtGet env s addr = (.ok bbt,
      { s with bbts := Function.update s.bbts (bbtIdx env.geo addr) (some bbt), nevents := n }) ∧
      EntryOf env addr bbt ∧ ∀ i < env.nblks, bbt.blks i =
        if s.bbtsCached then view env s addr.ch.toNat addr.lun.toNat i
        else s.table addr.ch.toNat addr.lun.toNat i) := by
  by_cases ha : nvmAddrCheckG addr env.geo = 0
  swap
  · exact .inl ⟨.einval, s.bbts, s.nevents, by simp [nvmBbtGet, ha], .inl rfl, fun h => absurd h ha⟩
  cases hk : s.bbts (bbtIdx env.geo addr) with
  | some bbt =>
    have hb := hi.entryOf hk
    have hself : Function.update s.bbts (bbtIdx env.geo addr) (some bbt) = s.bbts := by
      rw [← hk, Function.update_eq_self]
    by_cases hc : s.bbtsCached = true
    · refine .inr ⟨bbt, s.nevents, ha, ?_, hb, fun i _ => ?_⟩
      · simp only [nvmBbtGet, ha, hk, ne_eq, not_true, if_false, hself]
        rw [if_pos hc]
      · rw [if_pos hc, view_of_entry hk]
    · have hget : nvmBbtGet env s addr = bbtRefresh env s addr bbt := by
        simp [nvmBbtGet, ha, hk, hc]
      rcases bbtRefresh_cases s addr hb with ⟨e, n, hr, hf⟩ | ⟨b, n, hr, he, ht⟩
      · exact .inl ⟨e, _, n, hget.trans hr, .inr ⟨by simpa using hc, rfl⟩, fun _ => ⟨_, hf⟩⟩
      · exact .inr ⟨b, n, ha, hget.trans hr, he, fun i hi => by rw [ht i hi, if_neg hc]⟩
  | none =>
    have hself : Function.update s.bbts (bbtIdx env.geo addr) none = s.bbts := by
      rw [← hk, Function.update_eq_self]
    have hnew : EntryOf env addr (bbtEntry env addr none) := ⟨rfl, ha, rfl⟩
    cases hg : env.succeeds s.nevents with
    | false =>
      exact .inl ⟨.enomem, s.bbts, s.nevents + 1,
        by simp [nvmBbtGet, ha, hk, hg, BbtDev.tick], .inl rfl, fun _ => ⟨_, hg⟩⟩
    | true =>
      have hget : nvmBbtGet env s addr = bbtRefresh env s.tick addr (bbtEntry env addr none) := by
        simp [nvmBbtGet, ha, hk, hg]
      rcases bbtRefresh_cases s.tick addr hnew with ⟨e, n, hr, hf⟩ | ⟨b, n, hr, he, ht⟩
      · exact .inl ⟨e, _, n, hget.trans hr, .inl hself, fun _ => ⟨_, hf⟩⟩
      · refine .inr ⟨b, n, ha, hget.trans hr, he, fun i hi => ?_⟩
        rw [ht i hi, view_of_none hk]
        simp [BbtDev.tick]

theorem nvmBbtGet_inv {env : BbtEnv} {s : BbtDev} (hi : BbtInv env s) (addr : GAddr) :
    BbtInv env (nvmBbtGet env s addr).2 := by
  rcases nvmBbtGet_cases hi addr with ⟨e, b, n, hg, hb, _⟩ | ⟨bbt, n, _, hg, he, _⟩
  · rw [hg]
    intro k bbt hk
    rcases hb with rfl | ⟨_, rfl⟩
    · exact hi k bbt hk
    · by_cases he : k = bbtIdx env.geo addr
      · subst he; simp at hk
      · exact hi k bbt (by simpa [he] using hk)
  · rw [hg]
    exact hi.update he _ _ _

theorem nvmBbtGet_views {env : BbtEnv} {s : BbtDev} (hi : BbtInv env s)
    (hc : s.bbtsCached = true) (addr : GAddr) :
    SameBlocks env (view env (nvmBbtGet env s addr).2) (view env s) := by
  rcases nvmBbtGet_cases hi addr with ⟨e, b, n, hg, hb, _⟩ | ⟨bbt, n, ha, hg, _, hv⟩
  · have hb' : b = s.bbts := by
      rcases hb with h | h
      · exact h
      · simp [hc] at h
    rw [hg, hb']
    exact .refl _ _
  · rw [hg]
    intro c l j _ hl hj
    rw [view_update ha bbt n hl]
    split_ifs with h
    · obtain ⟨rfl, rfl⟩ := h
      rw [hv j hj, if_pos hc]
    · rfl

theorem nvmBbtSet_eq {env : BbtEnv} {s s' : BbtDev} {bbt entry : Bbt}
    (ha : nvmAddrCheckG bbt.addr env.geo = 0) (hg : nvmBbtGet env s bbt.addr = (.ok entry, s')) :
    nvmBbtSet env s bbt =
      let new := { entry with blks := fun i => if i < bbt.nblks then bbt.blks i else entry.blks i }
      let s'' := s'.setEntry (bbtIdx env.geo bbt.addr) (some (refreshed new))
      if s'.bbtsCached then (.ok (), s'') else nvmBbtFlush env s'' bbt.addr := by
  simp only [nvmBbtSet, ha, ne_eq, not_true, if_false, hg]
  rfl

theorem nvmBbtSet_cached {env : BbtEnv} {s : BbtDev} (hi : BbtInv env s)
    (hc : s.bbtsCached = true) (bbt : Bbt) :
    ∃ r b n, nvmBbtSet env s bbt = (r, { s with bbts := b, nevents := n }) ∧
      BbtInv env { s with bbts := b, nevents := n } ∧
      SameBlocks env (view env { s with bbts := b, nevents := n })
        (match r with
          | .ok _ => (view env s).setLun bbt.addr.ch.toNat bbt.addr.lun.toNat bbt.nblks bbt.blks
          | .error _ => view env s) := by
  by_cases ha : nvmAddrCheckG bbt.addr env.geo = 0
  swap
  · exact ⟨.error .einval, s.bbts, s.nevents, by simp [nvmBbtSet, ha], hi, .refl _ _⟩
  have hviews := nvmBbtGet_views hi hc bbt.addr
  have hinv := nvmBbtGet_inv hi bbt.addr
  rcases nvmBbtGet_cases hi bbt.addr with ⟨e, b, n, hg, _⟩ | ⟨entry, n, _, hg, he, hv⟩
  · rw [hg] at hviews hinv
    exact ⟨.error e, b, n, by simp [nvmBbtSet, ha, hg], hinv, hviews⟩
  · let new : Bbt := { entry with blks := fun i => if i < bbt.nblks then bbt.blks i else entry.blks i }
    have hset := nvmBbtSet_eq ha hg
    rw [if_pos hc] at hset
    have hnew : EntryOf env bbt.addr (refreshed new) :=
      ⟨by simpa [new] using he.nblks, by simpa [new] using he.check, by simpa [new] using he.idx⟩
    refine ⟨.ok (), Function.update s.bbts (bbtIdx env.geo bbt.addr) (some (refreshed new)), n, ?_,
      hi.update hnew _ _ _, ?_⟩
    · rw [hset]
      simp [BbtDev.setEntry, new]
    · intro c l j _ hl hj
      dsimp only
      rw [view_update ha _ n hl, Tables.setLun]
      by_cases h : c = bbt.addr.ch.toNat ∧ l = bbt.addr.lun.toNat
      · obtain ⟨rfl, rfl⟩ := h
        simp [new, hv j hj, hc]
      · have h' : ¬(c = bbt.addr.ch.toNat ∧ l = bbt.addr.lun.toNat ∧ j < bbt.nblks) :=
          fun hh => h ⟨hh.1, hh.2.1⟩
        rw [if_neg h, if_neg h']

theorem markLoop_cases {env : BbtEnv} (flags : UInt16) (addrs : List GAddr) {s : BbtDev}
    (hi : BbtInv env s) (hc : s.bbtsCached = true) :
    ∃ r done b n, markLoop env flags addrs s = (r, { s with bbts := b, nevents := n }) ∧
      done <+: addrs ∧ (r = .ok () → done = addrs) ∧
      BbtInv env { s with bbts := b, nevents := n } ∧
      SameBlocks env (view env { s with bbts := b, nevents := n })
        ((view env s).mark env.geo done flags.toUInt8) := by
  induction addrs generalizing s with
  | nil => exact ⟨.ok (), [], s.bbts, s.nevents, rfl, List.prefix_rfl, fun _ => rfl, hi, .refl _ _⟩
  | cons a addrs ih =>
    have hviews := nvmBbtGet_views hi hc a
    have hinv := nvmBbtGet_inv hi a
    rcases nvmBbtGet_cases hi a with ⟨e, b, n, hg, _⟩ | ⟨entry, n, ha, hg, he, hv⟩
    · rw [hg] at hviews hinv
      exact ⟨.error e, [], b, n, by simp [markLoop, hg], List.nil_prefix, by simp, hinv, hviews⟩
    · let new : Bbt := { entry with
        blks := Function.update entry.blks (blkIdx env.geo a) flags.toUInt8 }
      have hnew : EntryOf env a (refreshed new) :=
        ⟨by simpa [new] using he.nblks, by simpa [new] using he.check, by simpa [new] using he.idx⟩
      let s' : BbtDev := { s with
        bbts := Function.update s.bbts (bbtIdx env.geo a) (some (refreshed new)), nevents := n }
      have hone : SameBlocks env (view env s') ((view env s).set a.ch.toNat a.lun.toNat
          (blkIdx env.geo a) flags.toUInt8) := by
        intro c l j _ hl hj
        rw [view_update ha _ n hl, Tables.set]
        by_cases h : c = a.ch.toNat ∧ l = a.lun.toNat
        · obtain ⟨rfl, rfl⟩ := h
          by_cases hj' : j = blkIdx env.geo a
          · subst hj'; simp [new]
          · simp [new, hj', hv j hj, hc]
        · have h' : ¬(c = a.ch.toNat ∧ l = a.lun.toNat ∧ j = blkIdx env.geo a) :=
            fun hh => h ⟨hh.1, hh.2.1⟩
          rw [if_neg h, if_neg h']
      obtain ⟨r, done, b, m, hr, hp, hok, hinv', hs⟩ := ih (s := s') (hi.update hnew _ _ _) hc
      refine ⟨r, a :: done, b, m, ?_, List.cons_prefix_cons.mpr ⟨rfl, hp⟩,
        fun h => by rw [hok h], hinv', hs.trans (hone.mark done _)⟩
      simp only [markLoop, hg, BbtDev.setEntry, Function.update_idem]
      exact hr

end LightNvm
