import Mathlib.Data.Finset.Card
import Mathlib.Data.List.Sort
import Mathlib.Logic.Function.Basic
import LightNvm.Striping

/-! Media in zones that are written front to back: a write is taken at the write pointer of its
zone only. -/

namespace SeqZone

variable {α ζ : Type*}

/-- The zone of an element, and its position in the zone. -/
structure Layout (α ζ : Type*) where
  zone : α → ζ
  rank : α → Nat

section

variable [DecidableEq ζ] (L : Layout α ζ)

/-- The write pointers after a write, unless it is out of order. -/
def accept (wp : ζ → Nat) (a : α) : Option (ζ → Nat) :=
  if L.rank a = wp (L.zone a) then some (Function.update wp (L.zone a) (wp (L.zone a) + 1)) else none

def acceptAll (wp : ζ → Nat) (as : List α) : Option (ζ → Nat) := as.foldlM (accept L) wp

def inZone (z : ζ) (as : List α) : List Nat := (as.filter fun a => L.zone a = z).map L.rank

/-- How many of the first `b` elements of a sequence lie in a zone. -/
def level (place : Nat → α) (b : Nat) (z : ζ) : Nat :=
  ((List.range b).filter fun s => L.zone (place s) = z).length

variable {L}

/-- Writes are accepted when the positions in each zone go up from its write pointer without a gap. -/
theorem acceptAll_eq_some_iff {wp wp' : ζ → Nat} {as : List α} :
    acceptAll L wp as = some wp' ↔
      ∀ z, wp z ≤ wp' z ∧ inZone L z as = List.range' (wp z) (wp' z - wp z) := by
  induction as generalizing wp with
  | nil =>
    simp only [acceptAll, List.foldlM_nil, inZone, List.filter_nil, List.map_nil]
    constructor
    · rintro h z
      obtain rfl := Option.some.inj h
      simp
    · intro h
      refine congrArg some (funext fun z => ?_)
      obtain ⟨hle, hnil⟩ := h z
      have := List.range'_eq_nil_iff.mp hnil.symm
      omega
  | cons a as ih =>
    have hzone : ∀ z, inZone L z (a :: as) = if L.zone a = z then L.rank a :: inZone L z as
        else inZone L z as := by
      intro z
      by_cases hz : L.zone a = z <;> simp [inZone, hz]
    rw [acceptAll, List.foldlM_cons, accept]
    by_cases ha : L.rank a = wp (L.zone a)
    · rw [if_pos ha]
      change acceptAll L _ as = some wp' ↔ _
      rw [ih]
      refine forall_congr' fun z => ?_
      rw [hzone]
      by_cases hz : L.zone a = z
      · subst hz
        rw [Function.update_self, if_pos rfl, ha]
        constructor
        · rintro ⟨hle, h⟩
          refine ⟨by omega, ?_⟩
          rw [h, show wp' (L.zone a) - wp (L.zone a) = wp' (L.zone a) - (wp (L.zone a) + 1) + 1 by omega]
          rfl
        · rintro ⟨hle, h⟩
          cases hn : wp' (L.zone a) - wp (L.zone a) with
          | zero => rw [hn] at h; cases h
          | succ n =>
            rw [hn, List.range'_succ] at h
            refine ⟨by omega, ?_⟩
            rw [(List.cons.inj h).2, show wp' (L.zone a) - (wp (L.zone a) + 1) = n by omega]
      · rw [if_neg hz, Function.update_of_ne (Ne.symm hz)]
    · rw [if_neg ha]
      refine iff_of_false (fun h => by cases h) fun h => ?_
      -- the first position in its zone would be the write pointer
      obtain ⟨-, hz⟩ := h (L.zone a)
      rw [hzone, if_pos rfl] at hz
      cases hn : wp' (L.zone a) - wp (L.zone a) with
      | zero => rw [hn] at hz; cases hz
      | succ n =>
        rw [hn, List.range'_succ] at hz
        exact ha (List.cons.inj hz).1

theorem acceptAll_append (wp : ζ → Nat) (as bs : List α) :
    acceptAll L wp (as ++ bs) = (acceptAll L wp as).bind fun wp' => acceptAll L wp' bs :=
  List.foldlM_append

theorem acceptAll_of_sorted {wp wp' : ζ → Nat} {as : List α} (hle : ∀ z, wp z ≤ wp' z)
    (hsorted : as.Pairwise fun a b => L.zone a = L.zone b → L.rank a < L.rank b)
    (hmem : ∀ z r, (∃ a ∈ as, L.zone a = z ∧ L.rank a = r) ↔ wp z ≤ r ∧ r < wp' z) :
    acceptAll L wp as = some wp' := by
  refine acceptAll_eq_some_iff.mpr fun z => ⟨hle z, ?_⟩
  have hpair : (inZone L z as).Pairwise (· < ·) := by
    rw [inZone, List.pairwise_map, List.pairwise_filter]
    refine hsorted.imp fun {a b} h ha hb => h ?_
    simp only [decide_eq_true_eq] at ha hb
    rw [ha, hb]
  refine hpair.eq_of_mem_iff List.pairwise_lt_range' fun r => ?_
  have hr := hle z
  rw [List.mem_range'_1, show wp z + (wp' z - wp z) = wp' z by omega, ← hmem]
  simp [inZone, and_assoc]

theorem le_rank_of_acceptAll {wp wp' : ζ → Nat} {as : List α} (h : acceptAll L wp as = some wp') {a : α}
    (ha : a ∈ as) : wp (L.zone a) ≤ L.rank a := by
  have hz := (acceptAll_eq_some_iff.mp h (L.zone a)).2
  have hmem : L.rank a ∈ inZone L (L.zone a) as := List.mem_map_of_mem (by simp [ha])
  rw [hz, List.mem_range'_1] at hmem
  exact hmem.1

theorem level_succ (place : Nat → α) (b : Nat) (z : ζ) :
    level L place (b + 1) z = level L place b z + if L.zone (place b) = z then 1 else 0 := by
  by_cases hz : L.zone (place b) = z <;> simp [level, List.range_succ, List.filter_append, hz]

@[simp] theorem level_zero (place : Nat → α) (z : ζ) : level L place 0 z = 0 := rfl

theorem level_mono (place : Nat → α) {b c : Nat} (h : b ≤ c) (z : ζ) :
    level L place b z ≤ level L place c z := by
  induction h with
  | refl => exact le_rfl
  | step _ ih =>
    rw [level_succ]
    omega

theorem level_pos_iff {place : Nat → α} {b : Nat} {z : ζ} :
    0 < level L place b z ↔ ∃ s < b, L.zone (place s) = z := by
  simp [level, List.length_pos_iff_exists_mem]

end

/-- A sequence whose elements in each zone are those at its positions, from the first one on. -/
structure Placed (L : Layout α ζ) (place : Nat → α) (N : Nat) : Prop where
  mono : ∀ r s, r < s → s < N → L.zone (place r) = L.zone (place s) → L.rank (place r) < L.rank (place s)
  dense : ∀ s < N, ∀ p < L.rank (place s), ∃ r < s, L.zone (place r) = L.zone (place s) ∧
    L.rank (place r) = p

/-- A sequence that fills `n` zones of `Z` elements in turn, `w` elements at a time. -/
structure Striped (L : Layout α ζ) (place : Nat → α) (w n Z : Nat) : Prop where
  width_pos : 0 < w
  zones_pos : 0 < n
  dvd : w ∣ Z
  zone : ∀ r < n * Z, ∀ s < n * Z, L.zone (place r) = L.zone (place s) ↔
    Striping.lane w n r = Striping.lane w n s
  rank : ∀ s < n * Z, L.rank (place s) = Striping.pos w n s

theorem Striped.placed {L : Layout α ζ} {place : Nat → α} {w n Z : Nat} (h : Striped L place w n Z) :
    Placed L place (n * Z) where
  mono r s hrs hs hz := by
    rw [h.rank r (hrs.trans hs), h.rank s hs]
    exact Striping.pos_lt_pos h.width_pos ((h.zone r (hrs.trans hs) s hs).mp hz) hrs
  dense s hs p hp := by
    rw [h.rank s hs] at hp
    have hlane : Striping.lane w n s < n := Nat.mod_lt _ h.zones_pos
    have hpZ : p < Z := hp.trans (Striping.pos_lt h.width_pos h.dvd hs)
    obtain ⟨r, hr, hl, rfl⟩ := Striping.exists_lane_pos h.width_pos h.dvd hlane hpZ
    have hrs : r < s := by
      by_contra hge
      rcases (not_lt.mp hge).eq_or_lt with heq | hgt
      · rw [heq] at hp
        exact lt_irrefl _ hp
      · exact absurd hp (Striping.pos_lt_pos h.width_pos hl.symm hgt).le.not_gt
    exact ⟨r, hrs, (h.zone r hr s hs).mpr hl, h.rank r hr⟩

section

variable [DecidableEq ζ] {L : Layout α ζ} {place : Nat → α} {N b c : Nat}

omit [DecidableEq ζ] in
theorem Placed.inj (h : Placed L place N) {r s : Nat} (hr : r < N) (hs : s < N) (heq : place r = place s) :
    r = s := by
  rcases Nat.lt_trichotomy r s with hlt | rfl | hgt
  · exact absurd (h.mono r s hlt hs (by rw [heq])) (by rw [heq]; exact lt_irrefl _)
  · rfl
  · exact absurd (h.mono s r hgt hr (by rw [heq])) (by rw [heq]; exact lt_irrefl _)

theorem Placed.rank_eq (h : Placed L place N) {s : Nat} (hs : s < N) :
    L.rank (place s) = level L place s (L.zone (place s)) := by
  have himage : ((Finset.range s).filter fun r => L.zone (place r) = L.zone (place s)).image
      (fun r => L.rank (place r)) = Finset.range (L.rank (place s)) := by
    ext p
    simp only [Finset.mem_image, Finset.mem_filter, Finset.mem_range]
    constructor
    · rintro ⟨r, ⟨hr, hz⟩, rfl⟩
      exact h.mono r s hr hs hz
    · intro hp
      obtain ⟨r, hr, hz, hrank⟩ := h.dense s hs p hp
      exact ⟨r, ⟨hr, hz⟩, hrank⟩
  have hinj : Set.InjOn (fun r => L.rank (place r))
      ((Finset.range s).filter fun r => L.zone (place r) = L.zone (place s)) := by
    intro r hr r' hr' heq
    simp only [Finset.coe_filter, Finset.mem_range, Set.mem_ofPred_eq] at hr hr'
    rcases Nat.lt_trichotomy r r' with hlt | heq' | hgt
    · exact absurd heq (h.mono r r' hlt (hr'.1.trans hs) (hr.2.trans hr'.2.symm)).ne
    · exact heq'
    · exact absurd heq (h.mono r' r hgt (hr.1.trans hs) (hr'.2.trans hr.2.symm)).ne'
  have hcard := Finset.card_image_of_injOn hinj
  rw [himage, Finset.card_range] at hcard
  rw [hcard, level, ← List.toFinset_card_of_nodup (List.nodup_range.filter _)]
  congr 1
  ext r
  simp

theorem Placed.exists_iff (h : Placed L place N) (hb : b ≤ N) (z : ζ) (r : Nat) :
    (∃ s < b, L.zone (place s) = z ∧ L.rank (place s) = r) ↔ r < level L place b z := by
  induction b with
  | zero => simp
  | succ b ih =>
    have hrank := h.rank_eq (Nat.lt_of_succ_le hb)
    have ih := ih (Nat.le_of_succ_le hb)
    rw [level_succ]
    constructor
    · rintro ⟨s, hs, hz, hr⟩
      rcases Nat.lt_succ_iff_lt_or_eq.mp hs with hs | rfl
      · exact (ih.mp ⟨s, hs, hz, hr⟩).trans_le (Nat.le_add_right _ _)
      · rw [if_pos hz, ← hr, hrank, hz]
        exact Nat.lt_succ_self _
    · intro hr
      split_ifs at hr with hz
      · rcases Nat.lt_succ_iff_lt_or_eq.mp hr with hr | rfl
        · obtain ⟨s, hs, h⟩ := ih.mpr hr
          exact ⟨s, hs.trans (Nat.lt_succ_self b), h⟩
        · exact ⟨b, Nat.lt_succ_self b, hz, by rw [hrank, hz]⟩
      · obtain ⟨s, hs, h⟩ := ih.mpr hr
        exact ⟨s, hs.trans (Nat.lt_succ_self b), h⟩

/-- The whole sequence fills each of its zones. -/
theorem Striped.level_full {w n Z : Nat} (h : Striped L place w n Z) {s : Nat} (hs : s < n * Z) :
    level L place (n * Z) (L.zone (place s)) = Z := by
  refine eq_of_forall_lt_iff fun r => ?_
  rw [← h.placed.exists_iff le_rfl]
  constructor
  · rintro ⟨t, ht, -, rfl⟩
    rw [h.rank t ht]
    exact Striping.pos_lt h.width_pos h.dvd ht
  · intro hr
    obtain ⟨t, ht, hl, hp⟩ := Striping.exists_lane_pos h.width_pos h.dvd (Nat.mod_lt _ h.zones_pos) hr
    exact ⟨t, ht, (h.zone t ht s hs).mpr hl, (h.rank t ht).trans hp⟩

theorem Placed.between_iff (h : Placed L place N) (hbc : b ≤ c) (hc : c ≤ N) (z : ζ) (r : Nat) :
    (∃ s, b ≤ s ∧ s < c ∧ L.zone (place s) = z ∧ L.rank (place s) = r) ↔
      level L place b z ≤ r ∧ r < level L place c z := by
  constructor
  · rintro ⟨s, hb, hs, hz, hr⟩
    refine ⟨?_, (h.exists_iff hc z r).mp ⟨s, hs, hz, hr⟩⟩
    rw [← hr, h.rank_eq (hs.trans_le hc), hz]
    exact level_mono place hb z
  · rintro ⟨hle, hlt⟩
    obtain ⟨s, hs, hz, hr⟩ := (h.exists_iff hc z r).mpr hlt
    refine ⟨s, not_lt.mp fun hsb => ?_, hs, hz, hr⟩
    have := (h.exists_iff (hbc.trans hc) z r).mp ⟨s, hsb, hz, hr⟩
    omega

/-- The write pointers of the zones of the sequence are where its first `b` elements have been
written. -/
def At (L : Layout α ζ) (place : Nat → α) (N b : Nat) (wp : ζ → Nat) : Prop :=
  ∀ s < N, wp (L.zone (place s)) = level L place b (L.zone (place s))

/-- The write pointers after the elements from `b` to `c`. -/
def advance (L : Layout α ζ) (place : Nat → α) (b c : Nat) (wp : ζ → Nat) (z : ζ) : Nat :=
  wp z + (level L place c z - level L place b z)

theorem at_advance {wp : ζ → Nat} (hat : At L place N b wp) (hbc : b ≤ c) :
    At L place N c (advance L place b c wp) := by
  intro s hs
  have := level_mono (L := L) place hbc (L.zone (place s))
  rw [advance, hat s hs]
  omega

/-- Elements of the sequence from `b` to `c` are accepted in each order that goes up in every zone. -/
theorem Placed.accepts (h : Placed L place N) (hbc : b ≤ c) (hc : c ≤ N) {wp : ζ → Nat}
    (hat : At L place N b wp) {as : List α} (hmem : ∀ a, a ∈ as ↔ ∃ s, b ≤ s ∧ s < c ∧ a = place s)
    (hsorted : as.Pairwise fun a b => L.zone a = L.zone b → L.rank a < L.rank b) :
    acceptAll L wp as = some (advance L place b c wp) := by
  refine acceptAll_of_sorted (fun z => Nat.le_add_right _ _) hsorted fun z r => ?_
  have hiff : (∃ a ∈ as, L.zone a = z ∧ L.rank a = r) ↔
      ∃ s, b ≤ s ∧ s < c ∧ L.zone (place s) = z ∧ L.rank (place s) = r := by
    constructor
    · rintro ⟨a, ha, hz, hr⟩
      obtain ⟨s, hbs, hsc, rfl⟩ := (hmem a).mp ha
      exact ⟨s, hbs, hsc, hz, hr⟩
    · rintro ⟨s, hbs, hsc, hz, hr⟩
      exact ⟨place s, (hmem _).mpr ⟨s, hbs, hsc, rfl⟩, hz, hr⟩
  rw [hiff, h.between_iff hbc hc, advance]
  have hmono := level_mono (L := L) place hbc z
  by_cases hz : ∃ s < N, L.zone (place s) = z
  · obtain ⟨s, hs, rfl⟩ := hz
    rw [hat s hs]
    omega
  · -- no element of the sequence lies in this zone
    have hzero : level L place c z = 0 := by
      by_contra hne
      obtain ⟨s, hs, hsz⟩ := level_pos_iff.mp (Nat.pos_of_ne_zero hne)
      exact hz ⟨s, hs.trans_le hc, hsz⟩
    omega

/-- What has been written is not written again. -/
theorem Placed.rejects (h : Placed L place N) (hb : b ≤ N) {wp : ζ → Nat} (hat : At L place N b wp)
    {as : List α} {s : Nat} (hs : s < b) (hmem : place s ∈ as) : acceptAll L wp as = none := by
  cases hacc : acceptAll L wp as with
  | none => rfl
  | some wp' =>
    have hle := le_rank_of_acceptAll hacc hmem
    have hlt := (h.exists_iff hb (L.zone (place s)) (L.rank (place s))).mp ⟨s, hs, rfl, rfl⟩
    rw [hat s (hs.trans_le hb)] at hle
    omega

end

end SeqZone
