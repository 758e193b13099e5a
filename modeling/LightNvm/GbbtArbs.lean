import LightNvm.Bbt
import LightNvm.Striping

/-! The choice of arbitrary blocks on OCSSD 1.2 devices: `nvm_cmd_gbbt_arbs`. -/

namespace LightNvm

/-- A call of `nvm_cmd_gbbt_arbs`: `arb` is what `rand` returns, and `gbbt` has the states of the blocks
of a LUN, where its table can be read. -/
structure GbbtArbs where
  geo : GeoG
  gbbt : GAddr → Option (Nat → UInt8)
  bs : Int
  naddrs : Int
  arb : Nat

/-- What has come of a call: the elements of `addrs` that it has set, and the LUNs whose tables it has
asked for. -/
structure ArbsRun where
  ok : Bool
  addrs : Nat → Option GAddr
  visited : List GAddr

def planesState (geo : GeoG) (blk : Nat → UInt8) (blkCur : Nat) : Int :=
  ((List.range geo.nplanes).foldl (fun state k => state ||| blk (blkCur * geo.nplanes + k)) 0).toNat

def GbbtArbs.n (q : GbbtArbs) : Nat := q.naddrs.toNat

def GbbtArbs.lunAddr (q : GbbtArbs) (idx : Nat) : GAddr :=
  let cur := (idx + q.arb) % q.n
  { ch := BitVec.ofNat 8 (cur % q.geo.nchannels)
    lun := BitVec.ofNat 8 (cur / q.geo.nchannels % q.geo.nluns)
    blk := 0, pl := 0, pg := 0, sec := 0 }

/-- The loop over the blocks of a LUN. It counts the index of the outer loop up, and `blkIdx` stays. -/
def GbbtArbs.blkLoop (q : GbbtArbs) (addr : GAddr) (blk : Nat → UInt8) (blkIdx idx : Nat)
    (addrs : Nat → Option GAddr) : Nat × (Nat → Option GAddr) :=
  if idx < q.geo.nblocks then
    let blkCur := (blkIdx + q.arb) % q.geo.nblocks
    if q.bs ≠ planesState q.geo blk blkCur then q.blkLoop addr blk blkIdx (idx + 1) addrs
    else (idx, Function.update addrs idx (some { addr with blk := BitVec.ofNat 16 blkCur }))
  else (idx, addrs)
termination_by q.geo.nblocks - idx

theorem GbbtArbs.le_blkLoop (q : GbbtArbs) (addr : GAddr) (blk : Nat → UInt8) (blkIdx idx : Nat)
    (addrs : Nat → Option GAddr) : idx ≤ (q.blkLoop addr blk blkIdx idx addrs).1 := by
  induction hk : q.geo.nblocks - idx generalizing idx with
  | zero =>
    rw [blkLoop, if_neg (by omega)]
  | succ k ih =>
    rw [blkLoop, if_pos (by omega)]
    dsimp only
    split_ifs
    · have := ih (idx + 1) (by omega)
      omega
    · exact Nat.le_refl idx

def GbbtArbs.loop (q : GbbtArbs) (idx : Nat) (addrs : Nat → Option GAddr) : ArbsRun :=
  if idx < q.n then
    match q.gbbt (q.lunAddr idx) with
    | none => ⟨false, addrs, [q.lunAddr idx]⟩
    | some blk =>
      let r := q.blkLoop (q.lunAddr idx) blk 0 idx addrs
      if 0 = q.geo.nblocks then ⟨false, r.2, [q.lunAddr idx]⟩
      else
        let rest := q.loop (r.1 + 1) r.2
        { rest with visited := q.lunAddr idx :: rest.visited }
  else ⟨true, addrs, []⟩
termination_by q.n - idx
decreasing_by
  have := q.le_blkLoop (q.lunAddr idx) blk 0 idx addrs
  omega

def nvmCmdGbbtArbs (q : GbbtArbs) : ArbsRun :=
  if q.naddrs < 0 ∨ ((q.geo.nchannels * q.geo.nluns : Nat) : Int) < q.naddrs then ⟨false, fun _ => none, []⟩
  else q.loop 0 fun _ => none

/-! What it promises. -/

def GbbtArbs.Suits (q : GbbtArbs) (lun : GAddr) (k : Nat) : Prop :=
  ∃ blk, q.gbbt lun = some blk ∧ planesState q.geo blk k = q.bs

def GAddr.lunOf (a : GAddr) : GAddr := { a with blk := 0 }

structure GbbtArbs.Promise (q : GbbtArbs) (r : ArbsRun) : Prop where
  set : r.ok = true → ∀ i < q.n, ∃ a, r.addrs i = some a ∧ nvmAddrCheckG a q.geo = 0 ∧
    q.Suits a.lunOf a.blk.toNat ∧
    ∀ j < q.n, j ≠ i → ∀ b, r.addrs j = some b → (a.ch, a.lun) ≠ (b.ch, b.lun)
  within : ∀ i, q.n ≤ i → r.addrs i = none
  found : (∀ lun ∈ r.visited, ∃ k < q.geo.nblocks, q.Suits lun k) → r.ok = true

/-- The only block of a LUN that is looked at is in the wanted state. -/
def GbbtArbs.Hit (q : GbbtArbs) (idx : Nat) : Prop := q.Suits (q.lunAddr idx) (q.arb % q.geo.nblocks)

/-- The table of a LUN that is asked for cannot be read: the index has come to it, as all before it were
hits, or has jumped over the number of blocks. -/
def GbbtArbs.ReadFails (q : GbbtArbs) : Prop :=
  ∃ idx < q.n, q.gbbt (q.lunAddr idx) = none ∧
    (q.geo.nblocks < idx ∨ ∀ j < idx, j < q.geo.nblocks → q.Hit j)

/-! The loops. -/

section

variable {q : GbbtArbs} {idx : Nat} {addrs : Nat → Option GAddr}

def GbbtArbs.target (q : GbbtArbs) (idx : Nat) : GAddr :=
  { q.lunAddr idx with blk := BitVec.ofNat 16 (q.arb % q.geo.nblocks) }

theorem GbbtArbs.blkLoop_of_ge (h : q.geo.nblocks ≤ idx) (addr : GAddr) (blk : Nat → UInt8) :
    q.blkLoop addr blk 0 idx addrs = (idx, addrs) := by
  rw [blkLoop, if_neg (by omega)]

theorem GbbtArbs.blkLoop_of_hit {blk : Nat → UInt8} (hi : idx < q.geo.nblocks)
    (h : planesState q.geo blk (q.arb % q.geo.nblocks) = q.bs) :
    q.blkLoop (q.lunAddr idx) blk 0 idx addrs = (idx, Function.update addrs idx (some (q.target idx))) := by
  rw [blkLoop, if_pos hi]
  dsimp only
  rw [Nat.zero_add, if_neg (not_not.mpr h.symm)]
  rfl

/-- Each turn looks at the same block again. -/
theorem GbbtArbs.blkLoop_of_miss {blk : Nat → UInt8} (hi : idx ≤ q.geo.nblocks)
    (h : planesState q.geo blk (q.arb % q.geo.nblocks) ≠ q.bs) (addr : GAddr) :
    q.blkLoop addr blk 0 idx addrs = (q.geo.nblocks, addrs) := by
  induction hk : q.geo.nblocks - idx generalizing idx with
  | zero =>
    obtain rfl : idx = q.geo.nblocks := by omega
    exact blkLoop_of_ge (Nat.le_refl _) addr blk
  | succ k ih =>
    rw [blkLoop, if_pos (by omega)]
    dsimp only
    rw [Nat.zero_add, if_pos h.symm]
    exact ih (by omega) (by omega)

theorem GbbtArbs.hit_iff {blk : Nat → UInt8} (hb : q.gbbt (q.lunAddr idx) = some blk) :
    q.Hit idx ↔ planesState q.geo blk (q.arb % q.geo.nblocks) = q.bs := by
  constructor
  · rintro ⟨blk', hb', hstate⟩
    obtain rfl := Option.some.inj (hb.symm.trans hb')
    exact hstate
  · exact fun hstate => ⟨blk, hb, hstate⟩

theorem GbbtArbs.loop_rule {P : Nat → (Nat → Option GAddr) → ArbsRun → Prop} (hnb : 0 < q.geo.nblocks)
    (hend : ∀ idx addrs, q.n ≤ idx → P idx addrs ⟨true, addrs, []⟩)
    (hnone : ∀ idx addrs, idx < q.n → q.gbbt (q.lunAddr idx) = none →
      P idx addrs ⟨false, addrs, [q.lunAddr idx]⟩)
    (hhit : ∀ idx addrs r, idx < q.n → idx < q.geo.nblocks → q.Hit idx →
      P (idx + 1) (Function.update addrs idx (some (q.target idx))) r →
        P idx addrs { r with visited := q.lunAddr idx :: r.visited })
    (hmiss : ∀ idx addrs r, idx < q.n → idx < q.geo.nblocks → ¬ q.Hit idx →
      q.gbbt (q.lunAddr idx) ≠ none → P (q.geo.nblocks + 1) addrs r →
        P idx addrs { r with visited := q.lunAddr idx :: r.visited })
    (hover : ∀ idx addrs r, idx < q.n → q.geo.nblocks ≤ idx → q.gbbt (q.lunAddr idx) ≠ none →
      P (idx + 1) addrs r → P idx addrs { r with visited := q.lunAddr idx :: r.visited })
    (idx : Nat) (addrs : Nat → Option GAddr) : P idx addrs (q.loop idx addrs) := by
  induction hk : q.n - idx using Nat.strong_induction_on generalizing idx addrs with
  | _ k ih =>
    rw [loop]
    by_cases hlt : idx < q.n
    · rw [if_pos hlt]
      cases hb : q.gbbt (q.lunAddr idx) with
      | none => exact hnone idx addrs hlt hb
      | some blk =>
        have hne : q.gbbt (q.lunAddr idx) ≠ none := by rw [hb]; exact Option.some_ne_none blk
        dsimp only
        rw [if_neg (by omega)]
        rcases Nat.lt_or_ge idx q.geo.nblocks with hi | hi
        · by_cases hstate : planesState q.geo blk (q.arb % q.geo.nblocks) = q.bs
          · rw [blkLoop_of_hit hi hstate]
            exact hhit idx addrs _ hlt hi ((hit_iff hb).mpr hstate) (ih _ (by omega) _ _ rfl)
          · rw [blkLoop_of_miss hi.le hstate]
            exact hmiss idx addrs _ hlt hi (mt (hit_iff hb).mp hstate) hne (ih _ (by omega) _ _ rfl)
        · rw [blkLoop_of_ge hi]
          exact hover idx addrs _ hlt hi hne (ih _ (by omega) _ _ rfl)
    · rw [if_neg hlt]
      exact hend idx addrs (by omega)

/-- The index comes to `j` from `idx` with a hit at each step, that at `j` included. -/
def GbbtArbs.Reached (q : GbbtArbs) (idx j : Nat) : Prop :=
  j < q.geo.nblocks ∧ ∀ k, idx ≤ k → k ≤ j → q.Hit k

theorem GbbtArbs.loop_addrs (hnb : 0 < q.geo.nblocks) (idx : Nat) (addrs : Nat → Option GAddr) :
    (∀ j, j < idx ∨ q.n ≤ j → (q.loop idx addrs).addrs j = addrs j) ∧ ((q.loop idx addrs).ok = true →
      ∀ j, idx ≤ j → j < q.n → (q.Reached idx j → (q.loop idx addrs).addrs j = some (q.target j)) ∧
        (¬ q.Reached idx j → (q.loop idx addrs).addrs j = addrs j)) := by
  refine loop_rule (P := fun idx addrs r => (∀ j, j < idx ∨ q.n ≤ j → r.addrs j = addrs j) ∧ (r.ok = true →
      ∀ j, idx ≤ j → j < q.n → (q.Reached idx j → r.addrs j = some (q.target j)) ∧
        (¬ q.Reached idx j → r.addrs j = addrs j))) hnb ?_ ?_ ?_ ?_ ?_ idx addrs
  · intro idx addrs hend
    exact ⟨fun _ _ => rfl, fun _ j hj hj' => absurd hj' (by omega)⟩
  · intro idx addrs _ _
    exact ⟨fun _ _ => rfl, nofun⟩
  · intro idx addrs r hlt hi hhit ih
    refine ⟨fun j hj => ?_, fun hok j hj hjn => ?_⟩
    · exact (ih.1 j (by omega)).trans (Function.update_of_ne (by omega) _ _)
    rcases Nat.eq_or_lt_of_le hj with rfl | hj
    · have hself : r.addrs idx = some (q.target idx) :=
        (ih.1 idx (by omega)).trans (Function.update_self _ _ _)
      refine ⟨fun _ => hself, fun hnot => absurd ⟨hi, fun k hk hk' => ?_⟩ hnot⟩
      obtain rfl : k = idx := by omega
      exact hhit
    · have hreach : q.Reached idx j ↔ q.Reached (idx + 1) j := by
        refine and_congr_right fun _ => ⟨fun h k hk => h k (by omega), fun h k hk hkj => ?_⟩
        rcases Nat.eq_or_lt_of_le hk with rfl | hk
        · exact hhit
        · exact h k hk hkj
      rw [hreach]
      refine ⟨(ih.2 hok j hj hjn).1, fun hnot => ?_⟩
      exact ((ih.2 hok j hj hjn).2 hnot).trans (Function.update_of_ne (by omega) _ _)
  · intro idx addrs r hlt hi hmiss _ ih
    refine ⟨fun j hj => ih.1 j (by omega), fun hok j hj hjn => ?_⟩
    have hnot : ¬ q.Reached idx j := fun h => hmiss (h.2 idx (Nat.le_refl _) hj)
    refine ⟨fun h => absurd h hnot, fun _ => ?_⟩
    rcases Nat.lt_or_ge j (q.geo.nblocks + 1) with hjb | hjb
    · exact ih.1 j (.inl hjb)
    · exact (ih.2 hok j hjb hjn).2 fun h => absurd h.1 (by omega)
  · intro idx addrs r hlt hi _ ih
    refine ⟨fun j hj => ih.1 j (by omega), fun hok j hj hjn => ?_⟩
    refine ⟨fun h => absurd h.1 (by omega), fun _ => ?_⟩
    rcases Nat.eq_or_lt_of_le hj with rfl | hj
    · exact ih.1 idx (by omega)
    · exact (ih.2 hok j hj hjn).2 fun h => absurd h.1 (by omega)

theorem GbbtArbs.loop_ok_iff (hnb : 0 < q.geo.nblocks) (idx : Nat) (addrs : Nat → Option GAddr) :
    (q.loop idx addrs).ok = true ↔ ∀ j, idx ≤ j → j < q.n →
      (q.geo.nblocks < j ∨ ∀ k, idx ≤ k → k < j → k < q.geo.nblocks → q.Hit k) →
        q.gbbt (q.lunAddr j) ≠ none := by
  refine loop_rule (P := fun idx _ r => r.ok = true ↔ ∀ j, idx ≤ j → j < q.n →
      (q.geo.nblocks < j ∨ ∀ k, idx ≤ k → k < j → k < q.geo.nblocks → q.Hit k) →
        q.gbbt (q.lunAddr j) ≠ none) hnb ?_ ?_ ?_ ?_ ?_ idx addrs
  · intro idx addrs hend
    exact iff_of_true rfl fun j hj hj' => absurd hj' (by omega)
  · intro idx addrs hlt hb
    refine iff_of_false Bool.false_ne_true fun h => ?_
    exact h idx (Nat.le_refl _) hlt (.inr fun k hk hk' => absurd hk' (by omega)) hb
  · intro idx addrs r hlt hi hhit ih
    rw [ih]
    constructor
    · intro h j hj hjn hvisit
      rcases Nat.eq_or_lt_of_le hj with rfl | hj
      · obtain ⟨blk, hb, -⟩ := hhit
        rw [hb]
        exact Option.some_ne_none blk
      · exact h j hj hjn (hvisit.imp_right fun hall k hk => hall k (by omega))
    · intro h j hj hjn hvisit
      refine h j (by omega) hjn (hvisit.imp_right fun hall k hk hkj hkn => ?_)
      rcases Nat.eq_or_lt_of_le hk with rfl | hk
      · exact hhit
      · exact hall k hk hkj hkn
  · intro idx addrs r hlt hi hmiss hne ih
    rw [ih]
    constructor
    · intro h j hj hjn hvisit
      rcases Nat.eq_or_lt_of_le hj with rfl | hj
      · exact hne
      · rcases hvisit with hover | hall
        · exact h j hover hjn (.inl hover)
        · exact absurd (hall idx (Nat.le_refl _) hj hi) hmiss
    · intro h j hj hjn _
      exact h j (by omega) hjn (.inl (by omega))
  · intro idx addrs r hlt hi hne ih
    rw [ih]
    constructor
    · intro h j hj hjn hvisit
      rcases Nat.eq_or_lt_of_le hj with rfl | hj
      · exact hne
      · exact h j hj hjn (.inl (by omega))
    · intro h j hj hjn _
      exact h j (by omega) hjn (.inl (by omega))

theorem GbbtArbs.loop_found (hnb : 0 < q.geo.nblocks) (idx : Nat) (addrs : Nat → Option GAddr) :
    (∀ lun ∈ (q.loop idx addrs).visited, q.gbbt lun ≠ none) → (q.loop idx addrs).ok = true := by
  refine loop_rule (P := fun _ _ r => (∀ lun ∈ r.visited, q.gbbt lun ≠ none) → r.ok = true) hnb
    (fun _ _ _ _ => rfl) ?_ ?_ ?_ ?_ idx addrs
  · intro idx addrs _ hb h
    exact absurd hb (h _ (by simp))
  · intro idx addrs r _ _ _ ih h
    exact ih fun lun hlun => h lun (List.mem_cons_of_mem _ hlun)
  · intro idx addrs r _ _ _ _ ih h
    exact ih fun lun hlun => h lun (List.mem_cons_of_mem _ hlun)
  · intro idx addrs r _ _ _ ih h
    exact ih fun lun hlun => h lun (List.mem_cons_of_mem _ hlun)

/-! The LUNs that are visited. -/

theorem GbbtArbs.lunAddr_ch (h : 0 < q.geo.nchannels) (idx : Nat) :
    (q.lunAddr idx).ch.toNat = (idx + q.arb) % q.n % q.geo.nchannels := by
  have hlt := Nat.mod_lt ((idx + q.arb) % q.n) h
  have hch := q.geo.nchannels_lt
  simp only [lunAddr, BitVec.toNat_ofNat]
  exact Nat.mod_eq_of_lt (by omega)

theorem GbbtArbs.lunAddr_lun (hn : 0 < q.n) (hle : q.n ≤ q.geo.nchannels * q.geo.nluns) (idx : Nat) :
    (q.lunAddr idx).lun.toNat = (idx + q.arb) % q.n / q.geo.nchannels ∧
      (q.lunAddr idx).lun.toNat < q.geo.nluns := by
  have hcur : (idx + q.arb) % q.n < q.geo.nchannels * q.geo.nluns := (Nat.mod_lt _ hn).trans_le hle
  have hlt : (idx + q.arb) % q.n / q.geo.nchannels < q.geo.nluns := Nat.div_lt_of_lt_mul hcur
  have hluns := q.geo.nluns_lt
  simp only [lunAddr, BitVec.toNat_ofNat]
  rw [Nat.mod_eq_of_lt hlt, Nat.mod_eq_of_lt (by omega)]
  exact ⟨rfl, hlt⟩

theorem GbbtArbs.nchannels_pos (hn : 0 < q.n) (hle : q.n ≤ q.geo.nchannels * q.geo.nluns) :
    0 < q.geo.nchannels := by
  rcases Nat.eq_zero_or_pos q.geo.nchannels with h | h
  · rw [h, Nat.zero_mul] at hle
    omega
  · exact h

theorem GbbtArbs.lunAddr_inj (hle : q.n ≤ q.geo.nchannels * q.geo.nluns) {i j : Nat} (hi : i < q.n)
    (hj : j < q.n) (h : ((q.lunAddr i).ch, (q.lunAddr i).lun) = ((q.lunAddr j).ch, (q.lunAddr j).lun)) :
    i = j := by
  have hn : 0 < q.n := by omega
  obtain ⟨hch, hlun⟩ := Prod.mk.inj h
  have hch' := congrArg BitVec.toNat hch
  have hlun' := congrArg BitVec.toNat hlun
  rw [lunAddr_ch (nchannels_pos hn hle), lunAddr_ch (nchannels_pos hn hle)] at hch'
  rw [(lunAddr_lun hn hle i).1, (lunAddr_lun hn hle j).1] at hlun'
  refine Striping.rotate_inj (a := q.arb) hi hj ?_
  rw [← Nat.div_add_mod ((i + q.arb) % q.n) q.geo.nchannels, ← Nat.div_add_mod ((j + q.arb) % q.n) q.geo.nchannels,
    hch', hlun']

theorem GbbtArbs.target_blk (hnb : 0 < q.geo.nblocks) (idx : Nat) :
    (q.target idx).blk.toNat = q.arb % q.geo.nblocks := by
  have hlt := Nat.mod_lt q.arb hnb
  have hblocks := q.geo.nblocks_lt
  simp only [target, BitVec.toNat_ofNat]
  exact Nat.mod_eq_of_lt (by omega)

theorem GbbtArbs.check_target (hnb : 0 < q.geo.nblocks) (hn : 0 < q.n)
    (hle : q.n ≤ q.geo.nchannels * q.geo.nluns) (idx : Nat) :
    nvmAddrCheckG (q.target idx) q.geo = 0 ↔ 0 < q.geo.npages ∧ 0 < q.geo.nsectors := by
  have hch : (q.target idx).ch.toNat < q.geo.nchannels := by
    have h := lunAddr_ch (nchannels_pos hn hle) idx
    have hlt := Nat.mod_lt ((idx + q.arb) % q.n) (nchannels_pos hn hle)
    exact h.trans_lt hlt
  have hlun : (q.target idx).lun.toNat < q.geo.nluns := (lunAddr_lun hn hle idx).2
  have hblk : (q.target idx).blk.toNat < q.geo.nblocks := by
    rw [target_blk hnb]
    exact Nat.mod_lt _ hnb
  have hpl : (q.target idx).pl.toNat < q.geo.nplanes := q.geo.nplanes_pos
  rw [nvmAddrCheckG_eq_zero]
  exact ⟨fun h => h.2.2.2.2, fun h => ⟨hch, hlun, hpl, hblk, h⟩⟩

end

/-! The promise. -/

section

variable {q : GbbtArbs}

theorem GbbtArbs.promise_of_no_blocks (hnb : q.geo.nblocks = 0) (hn : 0 < q.n) :
    q.Promise (q.loop 0 fun _ => none) := by
  have hrun : q.loop 0 (fun _ => none) = ⟨false, fun _ => none, [q.lunAddr 0]⟩ := by
    rw [loop, if_pos hn]
    cases q.gbbt (q.lunAddr 0) with
    | none => rfl
    | some blk =>
      dsimp only
      rw [if_pos hnb.symm, blkLoop_of_ge (by omega)]
  rw [hrun]
  refine ⟨nofun, fun _ _ => rfl, fun h => ?_⟩
  obtain ⟨k, hk, -⟩ := h (q.lunAddr 0) (by simp)
  omega

theorem GbbtArbs.run_ok_iff (hnb : 0 < q.geo.nblocks) :
    (q.loop 0 fun _ => none).ok = true ↔ ¬ q.ReadFails := by
  rw [loop_ok_iff hnb]
  simp only [ReadFails, not_exists, not_and]
  constructor
  · rintro h j hj hb (hover | hall)
    · exact h j (Nat.zero_le _) hj (.inl hover) hb
    · exact h j (Nat.zero_le _) hj (.inr fun k _ => hall k) hb
  · rintro h j _ hj (hover | hall) hb
    · exact h j hj hb (.inl hover)
    · exact h j hj hb (.inr fun k => hall k (Nat.zero_le _))

theorem GbbtArbs.run_found (hnb : 0 < q.geo.nblocks)
    (h : ∀ lun ∈ (q.loop 0 fun _ => none).visited, ∃ k < q.geo.nblocks, q.Suits lun k) :
    (q.loop 0 fun _ => none).ok = true := by
  refine loop_found hnb 0 _ fun lun hlun => ?_
  obtain ⟨k, -, blk, hb, -⟩ := h lun hlun
  rw [hb]
  exact Option.some_ne_none blk

theorem GbbtArbs.promise_iff_of_blocks (hnb : 0 < q.geo.nblocks) (hn : 0 < q.n)
    (hle : q.n ≤ q.geo.nchannels * q.geo.nluns) : q.Promise (q.loop 0 fun _ => none) ↔
      q.ReadFails ∨
        (q.n ≤ q.geo.nblocks ∧ (∀ idx < q.n, q.Hit idx) ∧ 0 < q.geo.npages ∧ 0 < q.geo.nsectors) := by
  obtain ⟨hframe, haddrs⟩ := loop_addrs hnb 0 fun _ => none
  have hok := run_ok_iff hnb
  constructor
  · intro hp
    by_cases hfail : q.ReadFails
    · exact .inl hfail
    · have hrun := hok.mpr hfail
      have hreach : ∀ i < q.n, q.Reached 0 i := by
        intro i hi
        by_contra hnot
        obtain ⟨a, ha, -⟩ := hp.set hrun i hi
        rw [(haddrs hrun i (Nat.zero_le _) hi).2 hnot] at ha
        cases ha
      obtain ⟨a, ha, hcheck, -⟩ := hp.set hrun 0 hn
      rw [(haddrs hrun 0 (Nat.le_refl _) hn).1 (hreach 0 hn)] at ha
      obtain rfl := Option.some.inj ha
      refine .inr ⟨?_, fun i hi => (hreach i hi).2 i (Nat.zero_le _) (Nat.le_refl _),
        (check_target hnb hn hle 0).mp hcheck⟩
      have := (hreach (q.n - 1) (by omega)).1
      omega
  · intro hcond
    refine ⟨fun hrun i hi => ?_, fun i hi => hframe i (.inr hi), run_found hnb⟩
    rcases hcond with hfail | ⟨hblocks, hhit, hpages⟩
    · exact absurd hfail (hok.mp hrun)
    · have htarget : ∀ j < q.n, (q.loop 0 fun _ => none).addrs j = some (q.target j) := fun j hj =>
        (haddrs hrun j (Nat.zero_le _) hj).1 ⟨by omega, fun k _ hk => hhit k (by omega)⟩
      refine ⟨q.target i, htarget i hi, (check_target hnb hn hle i).mpr hpages, ?_, fun j hj hji b hb => ?_⟩
      · rw [target_blk hnb]
        exact hhit i hi
      · rw [htarget j hj] at hb
        obtain rfl := Option.some.inj hb
        exact fun h => hji (lunAddr_inj hle hi hj h).symm

end

/-- The promise of `nvm_cmd_gbbt_arbs` is kept when there is nothing to choose from or to choose, when the
table of a LUN cannot be read, and otherwise only when the one block it looks at suits on each LUN, and there
are as many blocks as LUNs are wanted. -/
theorem gbbt_arbs_promise_iff (q : GbbtArbs) (hpos : 0 ≤ q.naddrs)
    (hle : q.naddrs ≤ ((q.geo.nchannels * q.geo.nluns : Nat) : Int)) :
    q.Promise (nvmCmdGbbtArbs q) ↔ q.naddrs = 0 ∨ q.geo.nblocks = 0 ∨ q.ReadFails ∨
      ((q.naddrs ≤ q.geo.nblocks ∧ ∀ idx < q.n, q.Hit idx) ∧ 0 < q.geo.npages ∧ 0 < q.geo.nsectors) := by
  have hrun : nvmCmdGbbtArbs q = q.loop 0 fun _ => none := if_neg (by omega)
  have hn : (q.n : Int) = q.naddrs := Int.toNat_of_nonneg hpos
  rw [hrun]
  by_cases hzero : q.naddrs = 0
  · have hn0 : q.n = 0 := by omega
    have hend : q.loop 0 (fun _ => none) = ⟨true, fun _ => none, []⟩ := by
      rw [GbbtArbs.loop, if_neg (by omega)]
    rw [hend]
    exact iff_of_true ⟨fun _ i hi => absurd hi (by omega), fun _ _ => rfl, fun _ => rfl⟩ (.inl hzero)
  · by_cases hnb : q.geo.nblocks = 0
    · exact iff_of_true (GbbtArbs.promise_of_no_blocks hnb (by omega)) (.inr (.inl hnb))
    · have hblocks : q.n ≤ q.geo.nblocks ↔ q.naddrs ≤ q.geo.nblocks := by omega
      rw [GbbtArbs.promise_iff_of_blocks (Nat.pos_of_ne_zero hnb) (by omega) (by omega), hblocks, and_assoc]
      simp only [hzero, hnb, false_or]

theorem arbsNblocks_lt : 4 < 2 ^ 16 := by decide

def arbsCall (good : Nat) : GbbtArbs where
  geo :=
    { tinyGeo with
      nchannels := 2
      nluns := 1
      nblocks := 4
      npages := 4
      nchannels_lt := tinyGeo.nluns_lt
      nluns_lt := tinyGeo.nchannels_lt
      nblocks_lt := arbsNblocks_lt
      npages_lt := arbsNblocks_lt }
  gbbt := fun lun => some fun i => if lun.ch = 0 ∧ i ≠ good then 0x1 else 0x0
  bs := 0x0
  naddrs := 2
  arb := 0

theorem gbbt_arbs_promise_iff_first_block : (arbsCall 0).Promise (nvmCmdGbbtArbs (arbsCall 0)) := by
  refine (gbbt_arbs_promise_iff (arbsCall 0) (by decide) (by decide)).mpr (.inr (.inr (.inr ?_)))
  refine ⟨⟨by decide, fun idx hidx => ?_⟩, by decide, by decide⟩
  have hlt : idx < 2 := hidx
  obtain rfl | rfl : idx = 0 ∨ idx = 1 := by omega
  · exact ⟨_, rfl, by decide⟩
  · exact ⟨_, rfl, by decide⟩

/-- Block 1 of the first LUN is in the wanted state, but only block 0 is looked at: the call returns 0 and
has set nothing. -/
theorem gbbt_arbs_sets_nothing : (∀ lun, ∃ k < 4, (arbsCall 1).Suits lun k) ∧
    (nvmCmdGbbtArbs (arbsCall 1)).ok = true ∧ (nvmCmdGbbtArbs (arbsCall 1)).addrs 0 = none ∧
    ¬ (arbsCall 1).Promise (nvmCmdGbbtArbs (arbsCall 1)) := by
  have hnb : 0 < (arbsCall 1).geo.nblocks := by decide
  have hrun : nvmCmdGbbtArbs (arbsCall 1) = (arbsCall 1).loop 0 fun _ => none := if_neg (by decide)
  have hok : ((arbsCall 1).loop 0 fun _ => none).ok = true :=
    (GbbtArbs.loop_ok_iff hnb 0 _).mpr fun j _ _ _ => Option.some_ne_none _
  have hmiss : ¬ (arbsCall 1).Hit 0 := by
    rintro ⟨blk, hb, hstate⟩
    obtain rfl := Option.some.inj hb
    exact absurd hstate (by decide)
  have hunset : ((arbsCall 1).loop 0 fun _ => none).addrs 0 = none :=
    ((GbbtArbs.loop_addrs hnb 0 _).2 hok 0 (Nat.le_refl _) (by decide)).2
      fun h => hmiss (h.2 0 (Nat.le_refl _) (Nat.le_refl _))
  rw [hrun]
  refine ⟨fun lun => ?_, hok, hunset, fun hp => ?_⟩
  · refine ⟨1, by decide, _, rfl, ?_⟩
    simp [planesState, arbsCall, tinyGeo]
  · obtain ⟨a, ha, -⟩ := hp.set hok 0 (by decide)
    rw [hunset] at ha
    cases ha

end LightNvm
