import LightNvm.Addr
import LightNvm.Runs
import Mathlib.Tactic.Ring

/-! The options of an OCSSD 1.2 device that the virtual-block functions divide: the plane mode
and the numbers of addresses, with their setters in `nvm_dev.c`. -/

namespace LightNvm

/-- `dev->vblk_opts`; `pmode` is 0, 1 or 2 for one, two or four planes. -/
structure DevOpts where
  pmode : Nat
  eraseNaddrsMax : Nat
  writeNaddrsMax : Nat
  readNaddrsMax : Nat
  deriving DecidableEq

def GeoG.spageNaddrs (geo : GeoG) : Nat := geo.nplanes * geo.nsectors

def nvmDevSetPmode (geo : GeoG) (o : DevOpts) (pmode : Int) : Except Errno DevOpts :=
  if pmode = 2 then
    if geo.nplanes < 4 then .error .einval else .ok { o with pmode := 2 }
  else if pmode = 1 then
    if geo.nplanes < 2 then .error .einval else .ok { o with pmode := 1 }
  else if pmode = 0 then .ok { o with pmode := 0 }
  else .error .einval

def nvmDevSetEraseNaddrsMax (o : DevOpts) (naddrs : Int) : Except Errno DevOpts :=
  if naddrs > naddrMax then .error .einval
  else if naddrs < 1 then .error .einval
  else .ok { o with eraseNaddrsMax := naddrs.toNat }

def nvmDevSetReadNaddrsMax (geo : GeoG) (o : DevOpts) (naddrs : Int) : Except Errno DevOpts :=
  if naddrs > naddrMax then .error .einval
  else if naddrs < 1 then .error .einval
  else if o.pmode ≠ 0 ∧ naddrs.toNat % geo.nplanes ≠ 0 then .error .einval
  else .ok { o with readNaddrsMax := naddrs.toNat }

def nvmDevSetWriteNaddrsMax (geo : GeoG) (o : DevOpts) (naddrs : Int) : Except Errno DevOpts :=
  if naddrs > naddrMax then .error .einval
  else if naddrs < 1 then .error .einval
  else if o.pmode ≠ 0 ∧ naddrs.toNat % geo.spageNaddrs ≠ 0 then .error .einval
  else if naddrs.toNat % geo.nsectors ≠ 0 then .error .einval
  else .ok { o with writeNaddrsMax := naddrs.toNat }

inductive OptCall where
  | pmode (mode : Int)
  | erase (naddrs : Int)
  | write (naddrs : Int)
  | read (naddrs : Int)

def OptCall.run (geo : GeoG) (o : DevOpts) : OptCall → Except Errno DevOpts
  | .pmode mode => nvmDevSetPmode geo o mode
  | .erase naddrs => nvmDevSetEraseNaddrsMax o naddrs
  | .write naddrs => nvmDevSetWriteNaddrsMax geo o naddrs
  | .read naddrs => nvmDevSetReadNaddrsMax geo o naddrs

def optStep (geo : GeoG) (o : DevOpts) (c : OptCall) : DevOpts :=
  match c.run geo o with
  | .ok o' => o'
  | .error _ => o

/-- The options that `nvm_be_populate_derived` leaves: it does not look at what the setters
return. -/
def populatedOpts (geo : GeoG) : DevOpts :=
  Runs.run (optStep geo) ⟨0, 0, 0, 0⟩
    [.pmode (if geo.nplanes = 4 then 2 else if geo.nplanes = 2 then 1 else 0),
      .erase naddrMax, .write naddrMax, .read naddrMax]

/-- What `vblk_erase_s12`, `vblk_pwrite_s12` and `vblk_pread_s12` hand to `cmd_nblks` and
`_cmd_nspages` is not zero. -/
structure DevOpts.Divides (geo : GeoG) (o : DevOpts) : Prop where
  erase : 1 ≤ o.eraseNaddrsMax / geo.nplanes
  write : 1 ≤ o.writeNaddrsMax / geo.spageNaddrs
  read : 1 ≤ o.readNaddrsMax / geo.spageNaddrs

/-- The calls that a setter lets through with too few addresses. -/
def TooFew (geo : GeoG) (o : DevOpts) : OptCall → Prop
  | .pmode _ => False
  | .erase naddrs => 1 ≤ naddrs ∧ naddrs < geo.nplanes
  | .write naddrs => 1 ≤ naddrs ∧ naddrs < geo.spageNaddrs ∧ o.pmode = 0 ∧ geo.nsectors ∣ naddrs.toNat
  | .read naddrs => 1 ≤ naddrs ∧ naddrs < geo.spageNaddrs ∧ (o.pmode ≠ 0 → geo.nplanes ∣ naddrs.toNat)

section

variable {geo : GeoG} {o : DevOpts}

theorem optStep_pmode (mode : Int) : ∃ p, optStep geo o (.pmode mode) = { o with pmode := p } := by
  simp only [optStep, OptCall.run, nvmDevSetPmode]
  split_ifs
  · exact ⟨o.pmode, rfl⟩
  · exact ⟨2, rfl⟩
  · exact ⟨o.pmode, rfl⟩
  · exact ⟨1, rfl⟩
  · exact ⟨0, rfl⟩
  · exact ⟨o.pmode, rfl⟩

theorem optStep_erase (naddrs : Int) : optStep geo o (.erase naddrs) =
    if 1 ≤ naddrs ∧ naddrs ≤ naddrMax then { o with eraseNaddrsMax := naddrs.toNat } else o := by
  simp only [optStep, OptCall.run, nvmDevSetEraseNaddrsMax]
  split_ifs <;> first | rfl | omega

theorem optStep_write (naddrs : Int) : optStep geo o (.write naddrs) =
    if 1 ≤ naddrs ∧ naddrs ≤ naddrMax ∧ (o.pmode ≠ 0 → geo.spageNaddrs ∣ naddrs.toNat) ∧
        geo.nsectors ∣ naddrs.toNat then { o with writeNaddrsMax := naddrs.toNat } else o := by
  simp only [optStep, OptCall.run, nvmDevSetWriteNaddrsMax, Nat.dvd_iff_mod_eq_zero]
  split_ifs <;> first | rfl | omega

theorem optStep_read (naddrs : Int) : optStep geo o (.read naddrs) =
    if 1 ≤ naddrs ∧ naddrs ≤ naddrMax ∧ (o.pmode ≠ 0 → geo.nplanes ∣ naddrs.toNat) then
      { o with readNaddrsMax := naddrs.toNat } else o := by
  simp only [optStep, OptCall.run, nvmDevSetReadNaddrsMax, Nat.dvd_iff_mod_eq_zero]
  split_ifs <;> first | rfl | omega

theorem divides_iff (hs : 1 ≤ geo.nsectors) : o.Divides geo ↔
    geo.nplanes ≤ o.eraseNaddrsMax ∧ geo.spageNaddrs ≤ o.writeNaddrsMax ∧
      geo.spageNaddrs ≤ o.readNaddrsMax := by
  have hpl := geo.nplanes_pos
  have hsp : 0 < geo.spageNaddrs := Nat.mul_pos hpl hs
  have hdiv : ∀ n d : Nat, 0 < d → (1 ≤ n / d ↔ d ≤ n) := fun n d hd => by
    rw [Nat.le_div_iff_mul_le hd, Nat.one_mul]
  constructor
  · rintro ⟨he, hw, hr⟩
    exact ⟨(hdiv _ _ hpl).mp he, (hdiv _ _ hsp).mp hw, (hdiv _ _ hsp).mp hr⟩
  · rintro ⟨he, hw, hr⟩
    exact ⟨(hdiv _ _ hpl).mpr he, (hdiv _ _ hsp).mpr hw, (hdiv _ _ hsp).mpr hr⟩

theorem optStep_divides_iff (hs : 1 ≤ geo.nsectors) (hS : geo.spageNaddrs ≤ naddrMax) (ho : o.Divides geo)
    (c : OptCall) : (optStep geo o c).Divides geo ↔ ¬ TooFew geo o c := by
  rw [divides_iff hs] at ho ⊢
  obtain ⟨he, hw, hr⟩ := ho
  have hpl : geo.nplanes ≤ geo.spageNaddrs := Nat.le_mul_of_pos_right _ hs
  cases c with
  | pmode mode =>
    obtain ⟨p, hp⟩ := @optStep_pmode geo o mode
    rw [hp]
    exact iff_of_true ⟨he, hw, hr⟩ not_false
  | erase naddrs =>
    rw [optStep_erase, TooFew]
    split_ifs with h
    · simp only [hw, hr, and_true]
      omega
    · exact iff_of_true ⟨he, hw, hr⟩ fun hfew => h ⟨hfew.1, by omega⟩
  | write naddrs =>
    rw [optStep_write, TooFew]
    split_ifs with h
    · obtain ⟨hlo, hhi, hmode, hsec⟩ := h
      simp only [he, hr, true_and, and_true]
      constructor
      · intro hle hfew
        omega
      · intro hfew
        by_contra hlt
        refine hfew ⟨hlo, by omega, ?_, hsec⟩
        -- in another plane mode the setter asks for a multiple of a super-page
        by_contra hm
        have hdvd := Nat.le_of_dvd (by omega) (hmode hm)
        omega
    · refine iff_of_true ⟨he, hw, hr⟩ fun hfew => h ⟨hfew.1, by omega, ?_, hfew.2.2.2⟩
      exact fun hm => absurd hfew.2.2.1 hm
  | read naddrs =>
    rw [optStep_read, TooFew]
    split_ifs with h
    · simp only [he, hw, true_and]
      constructor
      · intro hle hfew
        omega
      · intro hfew
        by_contra hlt
        exact hfew ⟨h.1, by omega, h.2.2⟩
    · exact iff_of_true ⟨he, hw, hr⟩ fun hfew => h ⟨hfew.1, by omega, hfew.2.2⟩

theorem optStep_default_pmode : ∃ p, (p = 0 ↔ geo.nplanes = 1) ∧
    optStep geo o (.pmode (if geo.nplanes = 4 then 2 else if geo.nplanes = 2 then 1 else 0)) =
      { o with pmode := p } := by
  simp only [optStep, OptCall.run, nvmDevSetPmode]
  rcases geo.nplanes_mem with h | h | h
  · exact ⟨0, by simp [h], by simp [h]⟩
  · exact ⟨1, by simp [h], by simp [h]⟩
  · exact ⟨2, by simp [h], by simp [h]⟩

theorem populatedOpts_eq : ∃ p, populatedOpts geo =
    ⟨p, naddrMax, if geo.spageNaddrs ∣ naddrMax then naddrMax else 0, naddrMax⟩ := by
  have hplanes : geo.nplanes ∣ naddrMax := by
    rcases geo.nplanes_mem with h | h | h <;> rw [h] <;> decide
  obtain ⟨p, hp, hmode⟩ := @optStep_default_pmode geo ⟨0, 0, 0, 0⟩
  have hmax : (1 : Int) ≤ naddrMax ∧ (naddrMax : Int) ≤ naddrMax := ⟨by decide, le_refl _⟩
  have hwrite : (1 : Int) ≤ naddrMax ∧ (naddrMax : Int) ≤ naddrMax ∧
      (p ≠ 0 → geo.spageNaddrs ∣ naddrMax) ∧ geo.nsectors ∣ naddrMax ↔
        geo.spageNaddrs ∣ naddrMax := by
    constructor
    · rintro ⟨-, -, hm, hsec⟩
      by_cases h0 : p = 0
      · rwa [GeoG.spageNaddrs, hp.mp h0, Nat.one_mul]
      · exact hm h0
    · exact fun h => ⟨hmax.1, hmax.2, fun _ => h, (Dvd.intro_left _ rfl).trans h⟩
  refine ⟨p, ?_⟩
  rw [populatedOpts, Runs.run_cons, hmode, Runs.run_cons, optStep_erase, if_pos hmax, Runs.run_cons,
    optStep_write]
  simp only [Int.toNat_natCast, hwrite]
  rw [Runs.run_cons, Runs.run_nil, optStep_read, if_pos ⟨hmax.1, hmax.2, fun _ => hplanes⟩]
  split_ifs <;> rfl

theorem populatedOpts_divides_iff (hs : 1 ≤ geo.nsectors) (hS : geo.spageNaddrs ≤ naddrMax) :
    (populatedOpts geo).Divides geo ↔ geo.spageNaddrs ∣ naddrMax := by
  have hpl : geo.nplanes ≤ geo.spageNaddrs := Nat.le_mul_of_pos_right _ hs
  have hpos : 0 < geo.spageNaddrs := Nat.mul_pos geo.nplanes_pos hs
  obtain ⟨p, hp⟩ := @populatedOpts_eq geo
  rw [divides_iff hs, hp]
  split_ifs with h
  · exact iff_of_true ⟨hpl.trans hS, hS, hS⟩ h
  · exact iff_of_false (fun hd => absurd hd.2.1 (by simpa using hpos.ne')) h

/-- The options of a populated device stay good divisors through a sequence of calls exactly when
a super-page divides the most addresses of a command and no setter lets too few addresses through. -/
theorem vblk_opts_divide_iff (hs : 1 ≤ geo.nsectors) (hS : geo.spageNaddrs ≤ naddrMax)
    (calls : List OptCall) :
    (∀ pre, pre <+: calls → (Runs.run (optStep geo) (populatedOpts geo) pre).Divides geo) ↔
      geo.spageNaddrs ∣ naddrMax ∧
        Runs.Along (optStep geo) (fun o c => ¬ TooFew geo o c) (populatedOpts geo) calls := by
  rw [← populatedOpts_divides_iff hs hS]
  exact Runs.invariant_iff_along (I := DevOpts.Divides geo) (P := fun o c => ¬ TooFew geo o c)
    fun o c ho => optStep_divides_iff hs hS ho c

end

def dualPlaneGeo : GeoG :=
  { tinyGeo with
    nchannels := 16
    nluns := 8
    nblocks := 1020
    nplanes := 2
    npages := 512
    pageNbytes := 16384
    nchannels_lt := by decide
    nluns_lt := by decide
    nblocks_lt := by decide
    npages_lt := by decide
    pageNbytes_lt := by decide
    nplanes_mem := by decide }

theorem vblk_opts_divide_iff_lowered : 1 ≤ dualPlaneGeo.nsectors ∧ dualPlaneGeo.spageNaddrs ≤ naddrMax ∧
    ∀ pre, pre <+: [.write 8, .pmode 0, .read 20, .erase 2] →
      (Runs.run (optStep dualPlaneGeo) (populatedOpts dualPlaneGeo) pre).Divides dualPlaneGeo := by
  refine ⟨by decide, by decide, ?_⟩
  refine (vblk_opts_divide_iff (by decide) (by decide) _).mpr ⟨by decide, ?_⟩
  have hfew : ∀ o, Runs.Along (optStep dualPlaneGeo) (fun o c => ¬ TooFew dualPlaneGeo o c) o
      [.write 8, .pmode 0, .read 20, .erase 2] := fun o =>
    ⟨fun h => absurd h.2.1 (by decide), not_false, fun h => absurd h.2.1 (by decide),
      fun h => absurd h.2 (by decide), trivial⟩
  exact hfew _

/-- The setter takes two addresses for a read, a fourth of what a read of one super-page takes. -/
theorem read_naddrs_below_spage : 1 ≤ dualPlaneGeo.nsectors ∧ dualPlaneGeo.spageNaddrs ≤ naddrMax ∧
    (nvmDevSetReadNaddrsMax dualPlaneGeo (populatedOpts dualPlaneGeo) 2).isOk ∧
      (Runs.run (optStep dualPlaneGeo) (populatedOpts dualPlaneGeo) [.read 2]).readNaddrsMax /
        dualPlaneGeo.spageNaddrs = 0 := by
  decide

end LightNvm
