import Mathlib.Data.List.TakeWhile
import LightNvm.BbtSwitch

/-! Marking blocks with and without caching: which requests either mode accepts, and what is left of a
request that fails. -/

namespace LightNvm

def BbtDev.withCaching (s : BbtDev) (cached : Bool) : BbtDev := { s with bbtsCached := cached }

def SameStates (env : BbtEnv) (s s' : BbtDev) : Prop :=
  SameBlocks env (view env s') (view env s) ∧ SameBlocks env s'.table s.table

/-- Both modes accept the same requests, and one that fails changes no block. -/
structure MarkAgrees (env : BbtEnv) (s : BbtDev) (addrs : List GAddr) (flags : UInt16) : Prop where
  agree : (nvmBbtMark env (s.withCaching true) addrs flags).1 = .ok () ↔
    (nvmBbtMark env (s.withCaching false) addrs flags).1 = .ok ()
  atomic : ∀ cached, (nvmBbtMark env (s.withCaching cached) addrs flags).1 ≠ .ok () →
    SameStates env s (nvmBbtMark env (s.withCaching cached) addrs flags).2

def inBounds (env : BbtEnv) (a : GAddr) : Bool := nvmAddrCheckG a env.geo == 0

/-! The loop over the cached entries. -/

theorem markLoop_append (env : BbtEnv) (flags : UInt16) (addrs more : List GAddr) (s : BbtDev) :
    markLoop env flags (addrs ++ more) s = match markLoop env flags addrs s with
      | (.error e, s) => (.error e, s)
      | (.ok _, s) => markLoop env flags more s := by
  induction addrs generalizing s with
  | nil => rfl
  | cons a addrs ih =>
    rw [List.cons_append, markLoop, markLoop]
    rcases nvmBbtGet env s a with ⟨r, s'⟩
    cases r with
    | error e => rfl
    | ok entry => exact ih _

section

variable {env : BbtEnv} {s : BbtDev} (flags : UInt16)

theorem markLoop_out_of_bounds {a : GAddr} (ha : nvmAddrCheckG a env.geo ≠ 0) (addrs : List GAddr) :
    markLoop env flags (a :: addrs) s = (.error .einval, s) := by
  rw [markLoop, nvmBbtGet, if_pos ha]

theorem markLoop_single (hs : ∀ n, env.succeeds n = true) (hi : BbtInv env s) {a : GAddr}
    (ha : nvmAddrCheckG a env.geo = 0) : (markLoop env flags [a] s).1 = .ok () := by
  rw [markLoop]
  rcases nvmBbtGet_cases hi a with ⟨e, b, n, -, -, hfail⟩ | ⟨entry, n, -, hg, -⟩
  · obtain ⟨m, hm⟩ := hfail ha
    rw [hs m] at hm
    cases hm
  · rw [hg]
    rfl

theorem markLoop_in_bounds (hs : ∀ n, env.succeeds n = true) (hi : BbtInv env s) (hc : s.bbtsCached = true)
    {addrs : List GAddr} (ha : ∀ a ∈ addrs, nvmAddrCheckG a env.geo = 0) :
    (markLoop env flags addrs s).1 = .ok () := by
  induction addrs generalizing s with
  | nil => rfl
  | cons a addrs ih =>
    obtain ⟨r, done, b, n, hm, -, -, hinv, -⟩ := markLoop_cases flags [a] hi hc
    have hok := markLoop_single flags hs hi (ha a (by simp))
    rw [hm] at hok
    obtain rfl : r = .ok () := hok
    rw [← List.singleton_append, markLoop_append, hm]
    exact ih hinv hc fun b hb => ha b (List.mem_cons_of_mem _ hb)

/-- The addresses up to the first one out of bounds are marked, and that one ends the loop. -/
theorem markLoop_spec (hs : ∀ n, env.succeeds n = true) (hi : BbtInv env s) (hc : s.bbtsCached = true)
    (addrs : List GAddr) :
    ((markLoop env flags addrs s).1 = .ok () ↔ ∀ a ∈ addrs, nvmAddrCheckG a env.geo = 0) ∧
      (markLoop env flags addrs s).2.table = s.table ∧
      SameBlocks env (view env (markLoop env flags addrs s).2)
        ((view env s).mark env.geo (addrs.takeWhile (inBounds env)) flags.toUInt8) := by
  have htake : ∀ a ∈ addrs.takeWhile (inBounds env), nvmAddrCheckG a env.geo = 0 := by
    intro a ha
    simpa [inBounds] using List.mem_takeWhile_imp ha
  have hok := markLoop_in_bounds flags hs hi hc htake
  obtain ⟨r, done, b, n, hm, -, hdone, -, hview⟩ :=
    markLoop_cases flags (addrs.takeWhile (inBounds env)) hi hc
  rw [hm] at hok
  obtain rfl : r = .ok () := hok
  rw [hdone rfl] at hview
  have happ := markLoop_append env flags (addrs.takeWhile (inBounds env)) (addrs.dropWhile (inBounds env)) s
  rw [List.takeWhile_append_dropWhile, hm] at happ
  cases hrest : addrs.dropWhile (inBounds env) with
  | nil =>
    have hall : ∀ a ∈ addrs, nvmAddrCheckG a env.geo = 0 := by
      intro a ha
      simpa [inBounds] using List.dropWhile_eq_nil_iff.mp hrest a ha
    rw [hrest] at happ
    rw [happ]
    exact ⟨iff_of_true rfl hall, rfl, hview⟩
  | cons a rest =>
    have hmem : a ∈ addrs := (List.dropWhile_sublist (inBounds env)).subset (by rw [hrest]; simp)
    have hhead := List.head_dropWhile_not (inBounds env) (l := addrs) (by rw [hrest]; simp)
    simp only [hrest, List.head_cons] at hhead
    have hout : nvmAddrCheckG a env.geo ≠ 0 := by simpa [inBounds] using hhead
    rw [hrest] at happ
    dsimp only at happ
    rw [markLoop_out_of_bounds flags hout] at happ
    rw [happ]
    exact ⟨iff_of_false nofun fun hall => hout (hall a hmem), rfl, hview⟩

theorem sameBlocks_mark_iff {t : Tables} {addrs : List GAddr} (ha : ∀ a ∈ addrs, nvmAddrCheckG a env.geo = 0)
    (v : UInt8) : SameBlocks env (t.mark env.geo addrs v) t ↔
      ∀ a ∈ addrs, t a.ch.toNat a.lun.toNat (blkIdx env.geo a) = v := by
  constructor
  · intro hsame a hmem
    have hb := nvmAddrCheckG_eq_zero.mp (ha a hmem)
    have hat := hsame _ _ _ hb.1 hb.2.1 (blkIdx_lt (ha a hmem))
    rw [Tables.mark_apply, if_pos ⟨a, hmem, rfl, rfl, rfl⟩] at hat
    exact hat.symm
  · intro hall c l j _ _ _
    rw [Tables.mark_apply]
    split_ifs with hmark
    · obtain ⟨a, hmem, rfl, rfl, rfl⟩ := hmark
      exact (hall a hmem).symm
    · rfl

/-! Both modes. -/

theorem withCaching_inv (hi : BbtInv env s) (cached : Bool) : BbtInv env (s.withCaching cached) := hi

def AcceptsMark (env : BbtEnv) (addrs : List GAddr) (flags : UInt16) : Prop :=
  flags ∈ [0x0, 0x1, 0x4, 0x2, 0x8] ∧ addrs.length ≤ naddrMax ∧ ∀ a ∈ addrs, nvmAddrCheckG a env.geo = 0

theorem sbbtAccepts_iff (hbe : env.be = .ioctl) (addrs : List GAddr) :
    sbbtAccepts env addrs flags = true ↔ AcceptsMark env addrs flags := by
  simp only [sbbtAccepts, hbe, Bool.and_eq_true, decide_eq_true_eq, List.all_eq_true, beq_iff_eq, AcceptsMark,
    and_assoc]

theorem nvmBbtMark_off_spec (hs : ∀ n, env.succeeds n = true) (hbe : env.be = .ioctl) (addrs : List GAddr) :
    ((nvmBbtMark env (s.withCaching false) addrs flags).1 = .ok () ↔ AcceptsMark env addrs flags) ∧
      (¬ AcceptsMark env addrs flags → (nvmBbtMark env (s.withCaching false) addrs flags).2 =
        s.withCaching false) := by
  have hmark : nvmBbtMark env (s.withCaching false) addrs flags =
      nvmCmdSbbt env (s.withCaching false) addrs flags := rfl
  rw [hmark, nvmCmdSbbt, hs, ← sbbtAccepts_iff flags hbe]
  cases sbbtAccepts env addrs flags with
  | false => exact ⟨by simp, fun _ => rfl⟩
  | true => exact ⟨by simp, fun h => absurd rfl h⟩

theorem markAgrees_iff (hs : ∀ n, env.succeeds n = true) (hbe : env.be = .ioctl) (hi : BbtInv env s)
    (addrs : List GAddr) (flags : UInt16) : MarkAgrees env s addrs flags ↔
      ((∀ a ∈ addrs, nvmAddrCheckG a env.geo = 0) →
        flags ∈ [0x0, 0x1, 0x4, 0x2, 0x8] ∧ addrs.length ≤ naddrMax) ∧
      ((∃ a ∈ addrs, nvmAddrCheckG a env.geo ≠ 0) → ∀ a ∈ addrs.takeWhile (inBounds env),
        view env s a.ch.toNat a.lun.toNat (blkIdx env.geo a) = flags.toUInt8) := by
  obtain ⟨hon, htable, hview⟩ := markLoop_spec flags hs (withCaching_inv hi true) rfl addrs
  obtain ⟨hoff, hoffState⟩ := nvmBbtMark_off_spec (s := s) flags hs hbe addrs
  have htake : ∀ a ∈ addrs.takeWhile (inBounds env), nvmAddrCheckG a env.geo = 0 := by
    intro a ha
    simpa [inBounds] using List.mem_takeWhile_imp ha
  have hsame := sameBlocks_mark_iff (t := view env s) htake flags.toUInt8
  constructor
  · intro h
    refine ⟨fun hall => ?_, ?_⟩
    · have haccept := hoff.mp (h.agree.mp (hon.mpr hall))
      exact ⟨haccept.1, haccept.2.1⟩
    · rintro ⟨a, ha, hbad⟩
      have hstates := h.atomic true (mt hon.mp fun hall => hbad (hall a ha))
      exact hsame.mp (hview.symm.trans hstates.1)
  · rintro ⟨hchecks, hdone⟩
    refine ⟨?_, fun cached hfail => ?_⟩
    · refine hon.trans (Iff.trans ?_ hoff.symm)
      exact ⟨fun hall => ⟨(hchecks hall).1, (hchecks hall).2, hall⟩, fun haccept => haccept.2.2⟩
    · cases cached with
      | true =>
        have hbad : ∃ a ∈ addrs, nvmAddrCheckG a env.geo ≠ 0 := by
          have hno := mt hon.mpr hfail
          push Not at hno
          exact hno
        refine ⟨hview.trans (hsame.mpr (hdone hbad)), ?_⟩
        intro c l j _ _ _
        exact congrFun (congrFun (congrFun htable c) l) j
      | false =>
        rw [hoffState (mt hoff.mpr hfail)]
        exact ⟨.refl _ _, .refl _ _⟩

end

/-- In every state that calls lead to, both modes agree and leave nothing behind of a request that fails
when the only checks of the backend that it can fail are those of its addresses, and no address before the
first bad one was in another state. -/
theorem bbt_mark_agrees_iff (env : BbtEnv) (table : Tables) (cached : Bool) (ops : List (BbtOp env))
    (hbe : env.be = .ioctl) (hs : ∀ n, env.succeeds n = true) (addrs : List GAddr) (flags : UInt16) :
    let s := Runs.run BbtOp.exec (nvmDevOpen table cached) ops
    MarkAgrees env s addrs flags ↔
      ((∀ a ∈ addrs, nvmAddrCheckG a env.geo = 0) →
        flags ∈ [0x0, 0x1, 0x4, 0x2, 0x8] ∧ addrs.length ≤ naddrMax) ∧
      ((∃ a ∈ addrs, nvmAddrCheckG a env.geo ≠ 0) → ∀ a ∈ addrs.takeWhile (inBounds env),
        view env s a.ch.toNat a.lun.toNat (blkIdx env.geo a) = flags.toUInt8) := by
  have hinv : BbtInv env (Runs.run BbtOp.exec (nvmDevOpen table cached) ops) :=
    Runs.run_invariant (P := fun _ _ => True) (fun _ op hi _ => op.exec_inv hi) (bbtInv_open env table cached)
      (Runs.along_of_forall (fun _ _ => trivial) _)
  exact markAgrees_iff hs hbe hinv addrs flags

def markEnv : BbtEnv := ⟨tinyGeo, .ioctl, fun _ => true⟩

theorem bbt_mark_agrees_iff_one :
    MarkAgrees markEnv (nvmDevOpen (fun _ _ _ => 0) true) [tinyAddr 0 1] 0x2 := by
  apply (bbt_mark_agrees_iff markEnv (fun _ _ _ => 0) true [] rfl (fun _ => rfl) [tinyAddr 0 1] 0x2).mpr
  refine ⟨?_, ?_⟩
  · exact fun _ => ⟨by decide, by decide⟩
  · rintro ⟨a, ha, hbad⟩
    obtain rfl := List.mem_singleton.mp ha
    exact absurd (by decide) hbad

/-- An unknown mark is refused without caching and stored with it, and with caching a block is marked by a
request that fails at the next address. -/
theorem bbt_mark_modes_differ :
    ¬ MarkAgrees markEnv (nvmDevOpen (fun _ _ _ => 0) true) [tinyAddr 0 1] 0x3 ∧
    ¬ MarkAgrees markEnv (nvmDevOpen (fun _ _ _ => 0) true) [tinyAddr 0 1, tinyAddr 2 0] 0x2 ∧
    (nvmBbtMark markEnv (nvmDevOpen (fun _ _ _ => 0) true) [tinyAddr 0 1, tinyAddr 2 0] 0x2).1 =
      .error .einval := by
  have hinv := bbtInv_open markEnv (fun _ _ _ => 0) true
  refine ⟨fun h => ?_, fun h => ?_, rfl⟩
  · have hchecks := ((markAgrees_iff (fun _ => rfl) rfl hinv _ _).mp h).1
    exact absurd (hchecks (by decide)).1 (by decide)
  · have hdone := ((markAgrees_iff (fun _ => rfl) rfl hinv _ _).mp h).2
    have hstate := hdone ⟨tinyAddr 2 0, by decide, by decide⟩ (tinyAddr 0 1) (by decide)
    exact absurd hstate (by decide)

end LightNvm
