import LightNvm.Bbt
import LightNvm.Striping

/-! Write-back of managed entries: what `nvm_bbt_flush` and `nvm_bbt_flush_all`
can do to the entries and to the tables on the device. -/

namespace LightNvm

/-- Every managed entry has the size of a LUN and sits at the index of its own address. -/
def BbtInv (env : BbtEnv) (s : BbtDev) : Prop :=
  ∀ k bbt, s.bbts k = some bbt →
    bbt.nblks = env.nblks ∧ nvmAddrCheckG bbt.addr env.geo = 0 ∧ bbtIdx env.geo bbt.addr = k

/-- The entry of a LUN if there is one, the table on the device otherwise. -/
def view (env : BbtEnv) (s : BbtDev) : Tables := fun ch lun i =>
  match s.bbts (ch * env.geo.nluns + lun) with
  | some bbt => bbt.blks i
  | none => s.table ch lun i

/-- The device after the entry of one LUN has been written back. -/
def settled (env : BbtEnv) (s : BbtDev) (ch lun : Nat) : Tables :=
  fun c l j => if c = ch ∧ l = lun ∧ j < env.nblks then view env s c l j else s.table c l j

theorem bbtInv_open (env : BbtEnv) (table : Tables) (cached : Bool) :
    BbtInv env (nvmDevOpen table cached) := by
  intro k bbt h
  simp [nvmDevOpen] at h

theorem view_of_entry {env : BbtEnv} {s : BbtDev} {ch lun : Nat} {bbt : Bbt}
    (h : s.bbts (ch * env.geo.nluns + lun) = some bbt) : view env s ch lun = bbt.blks := by
  funext i
  simp [view, h]

theorem view_of_none {env : BbtEnv} {s : BbtDev} {ch lun : Nat}
    (h : s.bbts (ch * env.geo.nluns + lun) = none) : view env s ch lun = s.table ch lun := by
  funext i
  simp [view, h]

theorem bbtIdx_inj {geo : GeoG} {a b : GAddr} (ha : nvmAddrCheckG a geo = 0)
    (hb : nvmAddrCheckG b geo = 0) (h : bbtIdx geo a = bbtIdx geo b) :
    a.ch.toNat = b.ch.toNat ∧ a.lun.toNat = b.lun.toNat :=
  Striping.digits_inj (nvmAddrCheckG_eq_zero.mp ha).2.1 (nvmAddrCheckG_eq_zero.mp hb).2.1 h

theorem blkIdx_lt {env : BbtEnv} {addr : GAddr} (h : nvmAddrCheckG addr env.geo = 0) :
    blkIdx env.geo addr < env.nblks :=
  Striping.digits_lt (nvmAddrCheckG_eq_zero.mp h).2.2.2.1 (nvmAddrCheckG_eq_zero.mp h).2.2.1

theorem blkIdx_of_index {env : BbtEnv} (addr : GAddr) {i : Nat} (hi : i < env.nblks) :
    blkIdx env.geo { addr with
      blk := BitVec.ofNat 16 (i / env.geo.nplanes)
      pl := BitVec.ofNat 8 (i % env.geo.nplanes) } = i := by
  have hp := env.geo.nplanes_pos
  have hq : i / env.geo.nplanes < env.geo.nblocks := Nat.div_lt_of_lt_mul (by rwa [Nat.mul_comm])
  have hr : i % env.geo.nplanes < env.geo.nplanes := Nat.mod_lt _ hp
  have hb := env.geo.nblocks_lt
  have hle := env.geo.nplanes_le
  simp only [blkIdx, BitVec.toNat_ofNat]
  rw [Nat.mod_eq_of_lt (by omega : i / env.geo.nplanes < 2 ^ 16),
    Nat.mod_eq_of_lt (by omega : i % env.geo.nplanes < 2 ^ 8), Nat.div_add_mod']

theorem nvmAddrCheckG_block {env : BbtEnv} {addr : GAddr} (h : nvmAddrCheckG addr env.geo = 0)
    {i : Nat} (hi : i < env.nblks) :
    nvmAddrCheckG { addr with
      blk := BitVec.ofNat 16 (i / env.geo.nplanes)
      pl := BitVec.ofNat 8 (i % env.geo.nplanes) } env.geo = 0 := by
  have hp := env.geo.nplanes_pos
  have hq : i / env.geo.nplanes < env.geo.nblocks := Nat.div_lt_of_lt_mul (by rwa [Nat.mul_comm])
  have hr : i % env.geo.nplanes < env.geo.nplanes := Nat.mod_lt _ hp
  rw [nvmAddrCheckG_eq_zero] at h ⊢
  refine ⟨h.1, h.2.1, ?_, ?_, h.2.2.2.2⟩
  · exact (Nat.mod_le _ _).trans_lt hr
  · exact (Nat.mod_le _ _).trans_lt hq

/-! Single commands. -/

theorem nvmCmdSbbt_cases (env : BbtEnv) (s : BbtDev) (addrs : List GAddr) (flags : UInt16) :
    (∃ e n, nvmCmdSbbt env s addrs flags = (.error e, { s with nevents := n })) ∨
    (∃ n, nvmCmdSbbt env s addrs flags =
      (.ok (), { s with table := s.table.mark env.geo addrs flags.toUInt8, nevents := n })) := by
  simp only [nvmCmdSbbt]
  split_ifs
  · exact .inl ⟨_, s.nevents, rfl⟩
  · exact .inr ⟨_, rfl⟩
  · exact .inl ⟨_, _, rfl⟩

theorem flushLoop_cases (env : BbtEnv) (cached : Bbt) (spec : SpecBbt)
    (is : List Nat) (hlt : ∀ i ∈ is, i < env.nblks) (s : BbtDev) :
    ∃ r t n, flushLoop env cached spec is s = (r, { s with table := t, nevents := n }) ∧
      (∀ c l j, t c l j = s.table c l j ∨
        (c = cached.addr.ch.toNat ∧ l = cached.addr.lun.toNat ∧ j ∈ is ∧ t c l j = cached.blks j)) ∧
      (r = .ok () → ∀ j ∈ is, cached.blks j ≠ spec.blk j →
        t cached.addr.ch.toNat cached.addr.lun.toNat j = cached.blks j) := by
  induction is generalizing s with
  | nil => exact ⟨_, s.table, s.nevents, rfl, by simp, by simp⟩
  | cons i is ih =>
    have hlt' : ∀ j ∈ is, j < env.nblks := fun j hj => hlt j (by simp [hj])
    by_cases he : cached.blks i = spec.blk i
    · obtain ⟨r, t, n, hr, hw, hok⟩ := ih hlt' s
      refine ⟨r, t, n, by simp [flushLoop, he, hr], ?_, ?_⟩
      · intro c l j
        rcases hw c l j with h | ⟨hc, hl, hj, h⟩
        · exact .inl h
        · exact .inr ⟨hc, hl, by simp [hj], h⟩
      · intro hr' j hj hne
        rcases List.mem_cons.mp hj with rfl | hj
        · exact absurd he hne
        · exact hok hr' j hj hne
    · let a : GAddr := { cached.addr with
        blk := BitVec.ofNat 16 (i / env.geo.nplanes)
        pl := BitVec.ofNat 8 (i % env.geo.nplanes) }
      rcases nvmCmdSbbt_cases env s [a] (cached.blks i).toUInt16 with ⟨e, n, hs⟩ | ⟨n, hs⟩
      · refine ⟨.error e, s.table, n, ?_, by simp, by simp⟩
        simp only [flushLoop, he, if_false]
        rw [hs]
      · let s' : BbtDev := { s with
          table := s.table.mark env.geo [a] (cached.blks i).toUInt16.toUInt8, nevents := n }
        obtain ⟨r, t, m, hr, hw, hok⟩ := ih hlt' s'
        have hmark : ∀ c l j, s'.table c l j =
            if c = cached.addr.ch.toNat ∧ l = cached.addr.lun.toNat ∧ j = i then cached.blks i
            else s.table c l j := by
          intro c l j
          have hidx := blkIdx_of_index cached.addr (hlt i (by simp))
          simp [s', a, Tables.mark, Tables.set, hidx]
        refine ⟨r, t, m, ?_, ?_, ?_⟩
        · simp only [flushLoop, he, if_false]
          rw [hs]
          exact hr
        · intro c l j
          rcases hw c l j with h | ⟨hc, hl, hj, h⟩
          · rw [h, hmark]
            split_ifs with hh
            · exact .inr ⟨hh.1, hh.2.1, by simp [hh.2.2], by rw [hh.2.2]⟩
            · exact .inl rfl
          · exact .inr ⟨hc, hl, by simp [hj], h⟩
        · intro hr' j hj hne
          rcases List.mem_cons.mp hj with rfl | hj
          · rcases hw cached.addr.ch.toNat cached.addr.lun.toNat j with h | ⟨_, _, _, h⟩
            · rw [h, hmark]; simp
            · exact h
          · exact hok hr' j hj hne

theorem nvmBbtFlush_entry {env : BbtEnv} {s : BbtDev} {addr : GAddr} {cached : Bbt}
    (ha : nvmAddrCheckG addr env.geo = 0) (hk : s.bbts (bbtIdx env.geo addr) = some cached)
    (hn : cached.nblks = env.nblks) (hg : env.succeeds s.nevents = true) :
    nvmBbtFlush env s addr =
      match flushLoop env cached (s.answer env addr) (List.range cached.nblks) s.tick with
      | (.error e, s) => (.error e, s)
      | (.ok _, s) => (.ok (), s.setEntry (bbtIdx env.geo addr) none) := by
  simp only [nvmBbtFlush, ha, hk, nvmCmdGbbt, hg, ne_eq, not_true, if_true, if_false]
  exact if_neg (by simp [hn, BbtDev.answer])

theorem settled_of_none {env : BbtEnv} {s : BbtDev} {addr : GAddr}
    (hk : s.bbts (bbtIdx env.geo addr) = none) :
    settled env s addr.ch.toNat addr.lun.toNat = s.table := by
  funext c l j
  simp only [settled]
  split_ifs with h
  · obtain ⟨rfl, rfl, _⟩ := h
    rw [view_of_none hk]
  · rfl

theorem eq_settled {env : BbtEnv} {s : BbtDev} {ch lun : Nat} {blks : Nat → UInt8} {t : Tables}
    {is : List Nat} (his : ∀ j, j ∈ is ↔ j < env.nblks) (hview : view env s ch lun = blks)
    (hw : ∀ c l j, t c l j = s.table c l j ∨ (c = ch ∧ l = lun ∧ j ∈ is ∧ t c l j = blks j))
    (hok : ∀ j ∈ is, blks j ≠ s.table ch lun j → t ch lun j = blks j) :
    t = settled env s ch lun := by
  funext c l j
  simp only [settled]
  split_ifs with h
  · obtain ⟨rfl, rfl, hj⟩ := h
    rw [hview]
    by_cases he : blks j = s.table c l j
    · rcases hw c l j with h | ⟨_, _, _, h⟩
      · rw [h, he]
      · exact h
    · exact hok j ((his j).mpr hj) he
  · rcases hw c l j with h' | ⟨hc, hl, hj, _⟩
    · exact h'
    · exact absurd ⟨hc, hl, (his j).mp hj⟩ h

theorem nvmBbtFlush_cases {env : BbtEnv} {s : BbtDev} (hi : BbtInv env s) (addr : GAddr) :
    (∃ e t n, nvmBbtFlush env s addr = (.error e, { s with table := t, nevents := n }) ∧
      ∀ c l j, t c l j = s.table c l j ∨
        ((s.bbts (bbtIdx env.geo addr)).isSome ∧ nvmAddrCheckG addr env.geo = 0 ∧
          c = addr.ch.toNat ∧ l = addr.lun.toNat ∧ j < env.nblks ∧ t c l j = view env s c l j)) ∨
    (∃ n, nvmAddrCheckG addr env.geo = 0 ∧ nvmBbtFlush env s addr =
      (.ok (), { s with
        bbts := Function.update s.bbts (bbtIdx env.geo addr) none
        table := settled env s addr.ch.toNat addr.lun.toNat
        nevents := n })) := by
  by_cases ha : nvmAddrCheckG addr env.geo = 0
  swap
  · exact .inl ⟨.einval, s.table, s.nevents, by simp [nvmBbtFlush, ha], by simp⟩
  cases hk : s.bbts (bbtIdx env.geo addr) with
  | none =>
    -- without an entry the LUN is settled as it is
    refine .inr ⟨s.nevents, ha, ?_⟩
    have ht := settled_of_none hk
    have hb : Function.update s.bbts (bbtIdx env.geo addr) none = s.bbts := by
      rw [← hk, Function.update_eq_self]
    simp [nvmBbtFlush, ha, hk, ht, hb]
  | some cached =>
    obtain ⟨hn, hca, hck⟩ := hi _ _ hk
    obtain ⟨hch, hlun⟩ := bbtIdx_inj hca ha hck
    have hview : view env s addr.ch.toNat addr.lun.toNat = cached.blks := view_of_entry hk
    cases hg : env.succeeds s.nevents with
    | false =>
      exact .inl ⟨.eio, s.table, s.nevents + 1,
        by simp [nvmBbtFlush, ha, hk, nvmCmdGbbt, hg, BbtDev.tick], by simp⟩
    | true =>
      obtain ⟨r, t, n, hr, hw, hok⟩ := flushLoop_cases env cached (s.answer env addr)
        (List.range cached.nblks)
        (fun i hi => by rw [← hn]; exact List.mem_range.mp hi) s.tick
      have hflush := nvmBbtFlush_entry ha hk hn hg
      rw [hr] at hflush
      cases r with
      | error e =>
        refine .inl ⟨e, t, n, hflush, fun c l j => ?_⟩
        rcases hw c l j with h | ⟨hc, hl, hj, h⟩
        · exact .inl h
        · rw [hch] at hc
          rw [hlun] at hl
          refine .inr ⟨rfl, ha, hc, hl, hn ▸ List.mem_range.mp hj, ?_⟩
          rw [h, hc, hl, hview]
      | ok u =>
        refine .inr ⟨n, ha, ?_⟩
        have ht : t = settled env s addr.ch.toNat addr.lun.toNat := by
          rw [hch, hlun] at hw hok
          refine eq_settled (fun j => ?_) hview hw (hok rfl)
          rw [hn, List.mem_range]
        rw [hflush, ← ht]
        rfl

/-! Sequences of flushes. -/

def SameBlocks (env : BbtEnv) (t t' : Tables) : Prop :=
  ∀ c l j, c < env.geo.nchannels → l < env.geo.nluns → j < env.nblks → t c l j = t' c l j

/-- Entries may be dropped and blocks of the device rewritten, but no view changes. -/
structure WriteBack (env : BbtEnv) (s s' : BbtDev) : Prop where
  cached : s'.bbtsCached = s.bbtsCached
  entries : ∀ k, s'.bbts k = s.bbts k ∨ s'.bbts k = none
  table : ∀ c l j, s'.table c l j = s.table c l j ∨
    (c < env.geo.nchannels ∧ l < env.geo.nluns ∧ j < env.nblks ∧ s'.table c l j = view env s c l j)
  views : SameBlocks env (view env s') (view env s)

theorem SameBlocks.refl (env : BbtEnv) (t : Tables) : SameBlocks env t t := fun _ _ _ _ _ _ => rfl

theorem SameBlocks.trans {env : BbtEnv} {t t' t'' : Tables} (h : SameBlocks env t t')
    (h' : SameBlocks env t' t'') : SameBlocks env t t'' :=
  fun c l j hc hl hj => (h c l j hc hl hj).trans (h' c l j hc hl hj)

theorem WriteBack.refl (env : BbtEnv) (s : BbtDev) : WriteBack env s s :=
  ⟨rfl, fun _ => .inl rfl, fun _ _ _ => .inl rfl, .refl _ _⟩

theorem WriteBack.trans {env : BbtEnv} {s s' s'' : BbtDev} (h : WriteBack env s s')
    (h' : WriteBack env s' s'') : WriteBack env s s'' := by
  refine ⟨h'.cached.trans h.cached, fun k => ?_, fun c l j => ?_, h'.views.trans h.views⟩
  · rcases h'.entries k with hk | hk
    · rw [hk]; exact h.entries k
    · exact .inr hk
  · rcases h'.table c l j with ht | ⟨hc, hl, hj, ht⟩
    · rw [ht]; exact h.table c l j
    · exact .inr ⟨hc, hl, hj, ht.trans (h.views c l j hc hl hj)⟩

theorem WriteBack.inv {env : BbtEnv} {s s' : BbtDev} (h : WriteBack env s s') (hi : BbtInv env s) :
    BbtInv env s' := by
  intro k bbt hk
  rcases h.entries k with he | he
  · exact hi k bbt (he ▸ hk)
  · simp [he] at hk

theorem nvmBbtFlush_writeBack {env : BbtEnv} {s : BbtDev} (hi : BbtInv env s) (addr : GAddr) :
    WriteBack env s (nvmBbtFlush env s addr).2 := by
  rcases nvmBbtFlush_cases hi addr with ⟨e, t, n, hf, hw⟩ | ⟨n, ha, hf⟩
  · rw [hf]
    refine ⟨rfl, fun _ => .inl rfl, fun c l j => ?_, fun c l j hc hl hj => ?_⟩
    · rcases hw c l j with h | ⟨_, ha, rfl, rfl, hj, h⟩
      · exact .inl h
      · have hb := nvmAddrCheckG_eq_zero.mp ha
        exact .inr ⟨hb.1, hb.2.1, hj, h⟩
    · cases hk : s.bbts (c * env.geo.nluns + l) with
      | some bbt => simp [view, hk]
      | none =>
        rcases hw c l j with h | ⟨hs, _, rfl, rfl, _, _⟩
        · simp [view, hk, h]
        · have hk' : s.bbts (bbtIdx env.geo addr) = none := hk
          simp [hk'] at hs
  · rw [hf]
    have hb := nvmAddrCheckG_eq_zero.mp ha
    refine ⟨rfl, fun k => ?_, fun c l j => ?_, fun c l j hc hl hj => ?_⟩
    · by_cases hk : k = bbtIdx env.geo addr
      · subst hk; simp
      · simp [hk]
    · simp only [settled]
      split_ifs with h
      · exact .inr ⟨h.1 ▸ hb.1, h.2.1 ▸ hb.2.1, h.2.2, rfl⟩
      · exact .inl rfl
    · by_cases hk : c * env.geo.nluns + l = bbtIdx env.geo addr
      · obtain ⟨rfl, rfl⟩ := Striping.digits_inj hl hb.2.1 hk
        rw [view_of_none (by simp [bbtIdx])]
        simp [settled, hj]
      · have hne : ¬(c = addr.ch.toNat ∧ l = addr.lun.toNat ∧ j < env.nblks) := by
          rintro ⟨rfl, rfl, _⟩
          exact hk rfl
        simp [view, hk, settled, hne]

theorem flushAllLoop_writeBack {env : BbtEnv} (is : List Nat) {s : BbtDev} (hi : BbtInv env s) :
    WriteBack env s (flushAllLoop env is s).2 := by
  induction is generalizing s with
  | nil => exact .refl env s
  | cons i is ih =>
    have hw := nvmBbtFlush_writeBack hi (flushAllAddr env.geo i)
    simp only [flushAllLoop]
    split
    · next e s' he =>
      rw [he] at hw
      exact hw
    · next u s' he =>
      rw [he] at hw
      exact hw.trans (ih (hw.inv hi))

theorem flushAllLoop_entries {env : BbtEnv} (is : List Nat) {s s' : BbtDev} (hi : BbtInv env s)
    (h : flushAllLoop env is s = (.ok (), s')) :
    ∀ i ∈ is, nvmAddrCheckG (flushAllAddr env.geo i) env.geo = 0 ∧
      s'.bbts (bbtIdx env.geo (flushAllAddr env.geo i)) = none := by
  induction is generalizing s with
  | nil => simp
  | cons i is ih =>
    have hw := nvmBbtFlush_writeBack hi (flushAllAddr env.geo i)
    rcases nvmBbtFlush_cases hi (flushAllAddr env.geo i) with ⟨e, t, n, hf, _⟩ | ⟨n, ha, hf⟩
    · simp [flushAllLoop, hf] at h
    · rw [hf] at hw
      simp only [flushAllLoop, hf] at h
      have hrest := flushAllLoop_writeBack is (hw.inv hi)
      rw [h] at hrest
      intro j hj
      rcases List.mem_cons.mp hj with rfl | hj
      · refine ⟨ha, ?_⟩
        rcases hrest.entries (bbtIdx env.geo (flushAllAddr env.geo j)) with he | he
        · simpa using he
        · exact he
      · exact ih (hw.inv hi) h j hj

theorem flushAllAddr_surj (env : BbtEnv) {c l : Nat} (hc : c < env.geo.nchannels)
    (hl : l < env.geo.nluns) : ∃ i ∈ List.range env.nbbts,
      (flushAllAddr env.geo i).ch.toNat = c ∧ (flushAllAddr env.geo i).lun.toNat = l := by
  have hcb := env.geo.nchannels_lt
  have hlb := env.geo.nluns_lt
  refine ⟨l * env.geo.nchannels + c, ?_, ?_, ?_⟩
  · rw [List.mem_range, BbtEnv.nbbts, Nat.mul_comm env.geo.nchannels]
    exact Striping.digits_lt hl hc
  · simp only [flushAllAddr, BitVec.toNat_ofNat, Striping.digits_mod hc]
    omega
  · simp only [flushAllAddr, BitVec.toNat_ofNat, Striping.digits_div hc, Nat.mod_eq_of_lt hl]
    omega

theorem nvmBbtFlushAll_ok {env : BbtEnv} {s s' : BbtDev} (hi : BbtInv env s)
    (h : nvmBbtFlushAll env s = (.ok (), s')) :
    (∀ k, s'.bbts k = none) ∧ SameBlocks env s'.table (view env s) := by
  have hw := flushAllLoop_writeBack (List.range env.nbbts) hi
  have he := flushAllLoop_entries _ hi h
  change flushAllLoop env (List.range env.nbbts) s = _ at h
  rw [h] at hw
  have hnone : ∀ c l, c < env.geo.nchannels → l < env.geo.nluns →
      s'.bbts (c * env.geo.nluns + l) = none := by
    intro c l hc hl
    obtain ⟨i, hm, rfl, rfl⟩ := flushAllAddr_surj env hc hl
    exact (he i hm).2
  refine ⟨fun k => ?_, fun c l j hc hl hj => ?_⟩
  · cases hk : s'.bbts k with
    | none => rfl
    | some bbt =>
      obtain ⟨_, ha, rfl⟩ := hw.inv hi k bbt hk
      have hb := nvmAddrCheckG_eq_zero.mp ha
      have := hnone _ _ hb.1 hb.2.1
      rw [← hk, ← this]
      rfl
  · rw [← hw.views c l j hc hl hj, view_of_none (hnone c l hc hl)]

end LightNvm
