import Mathlib.Tactic.Ring
import Mathlib.Tactic.Linarith

/-! Counting loops over a 64-bit unsigned variable: the values it takes, or nothing
when the loop does not end. -/

namespace SizeLoop

def width : Nat := 2 ^ 64

/-- The values of `i` in `for (i = bgn; p(i); i += step)`, within a number of rounds. -/
def walk (p : Nat → Bool) (step : Nat) : Nat → Nat → Option (List Nat)
  | 0, _ => none
  | fuel + 1, i =>
    if p i then (walk p step fuel ((i + step) % width)).map (i :: ·) else some []

/-- The loop without a limit: after `width` rounds every value has come back. -/
def sizeFor (p : Nat → Bool) (step bgn : Nat) : Option (List Nat) := walk p step width bgn

def progression (bgn step k : Nat) : List Nat := (List.range k).map (fun j => bgn + j * step)

@[simp] theorem mem_progression {bgn step k i : Nat} :
    i ∈ progression bgn step k ↔ ∃ j < k, bgn + j * step = i := by
  simp [progression]

theorem progression_zero (step k : Nat) :
    progression 0 step k = (List.range k).map fun j => j * step := by
  simp [progression]

theorem progression_succ (bgn step k : Nat) :
    progression bgn step (k + 1) = bgn :: progression (bgn + step) step k := by
  simp only [progression, List.range_succ_eq_map, List.map_cons, List.map_map, Nat.zero_mul,
    Nat.add_zero, List.cons.injEq, true_and]
  apply List.map_congr_left
  intro j _
  simp only [Function.comp_apply, Nat.succ_eq_add_one]
  ring

theorem walk_progression {p : Nat → Bool} {step : Nat} (k fuel bgn : Nat) (hk : k < fuel)
    (hin : ∀ j < k, p (bgn + j * step) = true) (hout : p (bgn + k * step) = false)
    (hb : bgn + k * step < width) : walk p step fuel bgn = some (progression bgn step k) := by
  induction k generalizing fuel bgn with
  | zero =>
    obtain ⟨fuel, rfl⟩ : ∃ f, fuel = f + 1 := ⟨fuel - 1, by omega⟩
    have hp : p bgn = false := by simpa using hout
    simp [walk, hp, progression]
  | succ k ih =>
    obtain ⟨fuel, rfl⟩ : ∃ f, fuel = f + 1 := ⟨fuel - 1, by omega⟩
    have hnext : ∀ j, bgn + step + j * step = bgn + (j + 1) * step := fun j => by ring
    have hwrap : (bgn + step) % width = bgn + step := by
      apply Nat.mod_eq_of_lt
      have := hnext k
      omega
    have hp : p bgn = true := by simpa using hin 0 (by omega)
    have hrest : walk p step fuel (bgn + step) = some (progression (bgn + step) step k) := by
      apply ih fuel (bgn + step) (by omega)
      · intro j hj
        rw [hnext]
        exact hin (j + 1) (by omega)
      · rw [hnext]; exact hout
      · rw [hnext]; exact hb
    rw [walk, hp, hwrap, hrest, progression_succ]
    rfl

/-- A loop that makes `k` rounds without a wrap goes on from the value it has then. -/
theorem walk_prefix {p : Nat → Bool} {step : Nat} (k fuel bgn : Nat) (hbgn : bgn < width)
    (hin : ∀ j < k, p (bgn + j * step) = true ∧ bgn + j * step < width) :
    walk p step (fuel + k) bgn =
      (walk p step fuel ((bgn + k * step) % width)).map (progression bgn step k ++ ·) := by
  induction k generalizing bgn with
  | zero => simp [progression, Nat.mod_eq_of_lt hbgn]
  | succ k ih =>
    have hnext : ∀ j, bgn + step + j * step = bgn + (j + 1) * step := fun j => by ring
    have hp : p bgn = true := by simpa using (hin 0 (by omega)).1
    rw [← Nat.add_assoc, walk, hp, if_pos rfl, progression_succ]
    cases k with
    | zero => simp [progression]
    | succ k =>
      have hb : bgn + step < width := by simpa using (hin 1 (by omega)).2
      have hrest := ih (bgn + step) hb fun j hj => by
        rw [hnext]
        exact hin (j + 1) (by omega)
      rw [Nat.mod_eq_of_lt hb, hrest, hnext, Option.map_map]
      rfl

theorem walk_forever {p : Nat → Bool} (hp : ∀ i < width, p i = true) (step fuel : Nat) {i : Nat}
    (hi : i < width) : walk p step fuel i = none := by
  induction fuel generalizing i with
  | zero => rfl
  | succ fuel ih =>
    rw [walk, hp i hi, ih (Nat.mod_lt _ (by decide))]
    rfl

theorem sizeFor_forever {p : Nat → Bool} (hp : ∀ i < width, p i = true) (step : Nat) {bgn : Nat}
    (hb : bgn < width) : sizeFor p step bgn = none :=
  walk_forever hp step width hb

/-- The loop comes to the value `i`, whether or not it ends. -/
def Visits (p : Nat → Bool) (step bgn i : Nat) : Prop :=
  ∃ k, i = (bgn + k * step) % width ∧ ∀ j ≤ k, p ((bgn + j * step) % width) = true

theorem visits_iff {p : Nat → Bool} {step bgn i : Nat} (hb : bgn < width) :
    Visits p step bgn i ↔ p bgn = true ∧ (i = bgn ∨ Visits p step ((bgn + step) % width) i) := by
  have hnext : ∀ k, ((bgn + step) % width + k * step) % width = (bgn + (k + 1) * step) % width := by
    intro k
    rw [Nat.mod_add_mod]
    congr 1
    ring
  have hbgn : (bgn + 0 * step) % width = bgn := by rw [Nat.zero_mul, Nat.add_zero, Nat.mod_eq_of_lt hb]
  constructor
  · rintro ⟨k, rfl, hp⟩
    have h0 := hp 0 (Nat.zero_le _)
    rw [hbgn] at h0
    refine ⟨h0, ?_⟩
    cases k with
    | zero => exact .inl hbgn
    | succ k =>
      refine .inr ⟨k, (hnext k).symm, fun j hj => ?_⟩
      rw [hnext]
      exact hp (j + 1) (by omega)
  · rintro ⟨h0, rfl | ⟨k, rfl, hp⟩⟩
    · refine ⟨0, hbgn.symm, fun j hj => ?_⟩
      rw [Nat.le_zero.mp hj, hbgn]
      exact h0
    · refine ⟨k + 1, hnext k, fun j hj => ?_⟩
      cases j with
      | zero =>
        rw [hbgn]
        exact h0
      | succ j =>
        rw [← hnext]
        exact hp j (by omega)

theorem mem_walk_iff {p : Nat → Bool} {step fuel bgn i : Nat} {is : List Nat} (hb : bgn < width)
    (h : walk p step fuel bgn = some is) : i ∈ is ↔ Visits p step bgn i := by
  induction fuel generalizing bgn is with
  | zero => simp [walk] at h
  | succ fuel ih =>
    rw [walk] at h
    rw [visits_iff hb]
    split_ifs at h with hp
    · obtain ⟨rest, hrest, rfl⟩ := Option.map_eq_some_iff.mp h
      rw [List.mem_cons, ih (Nat.mod_lt _ (by decide)) hrest]
      simp [hp]
    · obtain rfl := Option.some.inj h
      simp [hp]

def rounds (n step : Nat) : Nat := (n + step - 1) / step

theorem lt_rounds {n step j : Nat} (hs : 0 < step) : j < rounds n step ↔ j * step < n := by
  rw [rounds, Nat.lt_div_iff_mul_lt hs]
  omega

theorem rounds_mul_ge {n step : Nat} (hs : 0 < step) : n ≤ rounds n step * step := by
  by_contra h
  exact absurd ((lt_rounds hs).mpr (not_le.mp h)) (lt_irrefl _)

theorem rounds_mul_lt {n step : Nat} (hs : 0 < step) : rounds n step * step < n + step := by
  rw [rounds]
  have := Nat.div_mul_le_self (n + step - 1) step
  omega

theorem rounds_le {n step : Nat} (hs : 0 < step) : rounds n step ≤ n := by
  by_contra h
  have := (lt_rounds hs).mp (not_le.mp h)
  have := Nat.le_mul_of_pos_right n hs
  omega

@[simp] theorem rounds_zero {step : Nat} (hs : 0 < step) : rounds 0 step = 0 :=
  Nat.le_zero.mp (rounds_le hs)

theorem rounds_mul {k step : Nat} (hs : 0 < step) : rounds (k * step) step = k := by
  apply le_antisymm
  · by_contra h
    exact absurd ((lt_rounds hs).mp (not_le.mp h)) (lt_irrefl _)
  · by_contra h
    have h' := rounds_mul_ge (n := k * step) hs
    have := Nat.le_of_mul_le_mul_right h' hs
    omega

theorem rounds_mul_right {k c n : Nat} (hc : 0 < c) (hn : 0 < n) :
    rounds (k * n) (c * n) = rounds k c := by
  have hlt : ∀ j, j < rounds (k * n) (c * n) ↔ j < rounds k c := by
    intro j
    rw [lt_rounds (Nat.mul_pos hc hn), lt_rounds hc, ← Nat.mul_assoc]
    exact Nat.mul_lt_mul_right hn
  exact le_antisymm (not_lt.mp fun h => lt_irrefl _ ((hlt _).mp h))
    (not_lt.mp fun h => lt_irrefl _ ((hlt _).mpr h))

/-- No piece of a whole number of steps is cut short. -/
theorem min_piece_of_dvd {k step j : Nat} (hj : j < k) : min step (k * step - j * step) = step := by
  have hlast : (j + 1) * step ≤ k * step := Nat.mul_le_mul_right step hj
  rw [Nat.succ_mul] at hlast
  omega

theorem exists_pieces {n step p : Nat} (hs : 0 < step) {q : Nat → Prop} :
    (∃ x < n * p, q x) ↔
      ∃ j < rounds n step, ∃ i < min step (n - j * step) * p, q (j * step * p + i) := by
  constructor
  · rintro ⟨x, hx, hq⟩
    have hp : 0 < p := Nat.pos_of_ne_zero (by rintro rfl; simp at hx)
    have hy : x / p < n := Nat.div_lt_of_lt_mul (by rwa [Nat.mul_comm])
    have hdiv := Nat.div_add_mod' (x / p) step
    have hmod := Nat.mod_lt (x / p) hs
    have hx' : x = x / p / step * step * p + (x / p % step * p + x % p) := by
      calc x = x / p * p + x % p := (Nat.div_add_mod' x p).symm
        _ = (x / p / step * step + x / p % step) * p + x % p := by rw [hdiv]
        _ = x / p / step * step * p + (x / p % step * p + x % p) := by ring
    refine ⟨x / p / step, (lt_rounds hs).mpr (by omega), x / p % step * p + x % p, ?_, by rwa [← hx']⟩
    have hlt : x / p % step < min step (n - x / p / step * step) := by omega
    calc x / p % step * p + x % p < x / p % step * p + p := by have := Nat.mod_lt x hp; omega
      _ = (x / p % step + 1) * p := by ring
      _ ≤ min step (n - x / p / step * step) * p := Nat.mul_le_mul_right p hlt
  · rintro ⟨j, hj, i, hi, hq⟩
    refine ⟨j * step * p + i, ?_, hq⟩
    have hle : j * step + min step (n - j * step) ≤ n := by
      have := (lt_rounds hs).mp hj
      omega
    calc j * step * p + i < j * step * p + min step (n - j * step) * p := by omega
      _ = (j * step + min step (n - j * step)) * p := by ring
      _ ≤ n * p := Nat.mul_le_mul_right p hle

theorem flatMap_pieces {α : Type*} {n step : Nat} (hs : 0 < step) (f : Nat → α) :
    ((List.range (rounds n step)).flatMap fun j =>
      (List.range (min step (n - j * step))).map fun i => f (j * step + i)) = (List.range n).map f := by
  have hupto : ∀ k ≤ rounds n step, ((List.range k).flatMap fun j =>
      (List.range (min step (n - j * step))).map fun i => f (j * step + i)) =
        (List.range (min (k * step) n)).map f := by
    intro k
    induction k with
    | zero => simp
    | succ k ih =>
      intro hk
      have hlt := (lt_rounds hs).mp hk
      have hsucc : min ((k + 1) * step) n = k * step + min step (n - k * step) := by
        rw [Nat.succ_mul]
        omega
      rw [List.range_succ, List.flatMap_append, ih (by omega), hsucc, List.range_add, List.map_append,
        List.map_map, Nat.min_eq_left hlt.le]
      simp [Function.comp_def]
  rw [hupto _ le_rfl, Nat.min_eq_right (rounds_mul_ge hs)]

theorem sizeFor_below {p : Nat → Bool} {step bgn n : Nat} (hs : 0 < step)
    (hp : ∀ i, bgn ≤ i → (p i = true ↔ i < bgn + n)) (hb : bgn + n + step ≤ width) :
    sizeFor p step bgn = some (progression bgn step (rounds n step)) := by
  have hlt := rounds_mul_lt (n := n) hs
  have hge := rounds_mul_ge (n := n) hs
  have hle := rounds_le (n := n) hs
  apply walk_progression
  · omega
  · intro j hj
    rw [hp _ (by omega)]
    have := (lt_rounds hs).mp hj
    omega
  · rw [Bool.eq_false_iff, ne_eq, hp _ (by omega)]
    omega
  · omega

/-! Loops `for (i = b; i <= b + n - 1; i += step)`, the end computed modulo `width`. -/

def lastOf (b n : Nat) : Nat := (b + n + (width - 1)) % width

theorem lastOf_eq {b n : Nat} (h0 : b + n ≠ 0) (hle : b + n ≤ width) : lastOf b n = b + n - 1 := by
  have hpos : 0 < width := by decide
  rw [lastOf, show b + n + (width - 1) = b + n - 1 + width by omega, Nat.add_mod_right,
    Nat.mod_eq_of_lt (by omega)]

theorem lastOf_lt {b n : Nat} (hb : b < width) (hn : n < width) (h : 0 < b ∧ n = 0 ∨ width < b + n) :
    lastOf b n < b := by
  rcases h with ⟨h0, rfl⟩ | hlt
  · rw [lastOf_eq (by omega) (by omega)]
    omega
  · rw [lastOf, show b + n + (width - 1) = b + n - 1 - width + width + width by omega,
      Nat.add_mod_right, Nat.add_mod_right, Nat.mod_eq_of_lt (by omega)]
    omega

/-- The loop goes on after its `rounds n step` rounds: the inclusive end is the largest
value, or the last step wraps. -/
def Runaway (b n step : Nat) : Prop :=
  b + n = 0 ∨ (0 < n ∧ b + n ≤ width ∧ width ≤ b + rounds n step * step)

section

variable {b n step : Nat}

theorem inclusive_empty (hb : b < width) (hn : n < width) (h : 0 < b ∧ n = 0 ∨ width < b + n) :
    sizeFor (fun i => i ≤ lastOf b n) step b = some [] := by
  have hstop : ¬ b ≤ lastOf b n := not_le.mpr (lastOf_lt hb hn h)
  rw [sizeFor, show width = width - 1 + 1 from rfl, walk, if_neg (by simpa using hstop)]

theorem inclusive_endless (hb : b < width) (h0 : b + n = 0) :
    sizeFor (fun i => i ≤ lastOf b n) step b = none := by
  have hpos : 0 < width := by decide
  apply sizeFor_forever _ step hb
  intro i hi
  rw [decide_eq_true_iff, lastOf, h0, Nat.zero_add, Nat.mod_eq_of_lt (by omega)]
  omega

theorem inclusive_rounds (hs : 0 < step) (hb : b < width) (hn : n < width) (h0 : 0 < n)
    (hle : b + n ≤ width) :
    sizeFor (fun i => i ≤ lastOf b n) step b =
      (walk (fun i => i ≤ lastOf b n) step (width - 1 - rounds n step + 1)
        ((b + rounds n step * step) % width)).map (progression b step (rounds n step) ++ ·) := by
  have hr := rounds_le (n := n) hs
  have hfuel : width = width - 1 - rounds n step + 1 + rounds n step := by omega
  rw [sizeFor]
  nth_rewrite 1 [hfuel]
  apply walk_prefix _ _ _ hb
  intro j hj
  have hj' := (lt_rounds hs).mp hj
  rw [decide_eq_true_iff, lastOf_eq (by omega) hle]
  constructor <;> omega

theorem inclusive_bounded_iff (hs : 0 < step) (hsw : step ≤ width) (hb : b < width) (hn : n < width) :
    (∃ is, sizeFor (fun i => i ≤ lastOf b n) step b = some is ∧ is.length ≤ rounds n step) ↔
      ¬ Runaway b n step := by
  by_cases h0 : b + n = 0
  · simp [inclusive_endless hb h0, Runaway, h0]
  by_cases hempty : 0 < b ∧ n = 0 ∨ width < b + n
  · have hnot : ¬ Runaway b n step := by
      rw [Runaway]
      omega
    simp [inclusive_empty hb hn hempty, hnot]
  -- The range is not empty: its rounds are made, and the next value decides.
  have hn0 : 0 < n := by omega
  have hle : b + n ≤ width := by omega
  have hge := rounds_mul_ge (n := n) hs
  have hlt := rounds_mul_lt (n := n) hs
  have hrun : Runaway b n step ↔ width ≤ b + rounds n step * step := by
    rw [Runaway]
    omega
  rw [inclusive_rounds hs hb hn hn0 hle, hrun, walk, lastOf_eq (by omega) hle]
  by_cases hwrap : width ≤ b + rounds n step * step
  · have hnext : (b + rounds n step * step) % width ≤ b + n - 1 := by
      rw [show b + rounds n step * step = b + rounds n step * step - width + width by omega,
        Nat.add_mod_right, Nat.mod_eq_of_lt (by omega)]
      omega
    rw [if_pos (decide_eq_true hnext)]
    constructor
    · rintro ⟨is, his, hlen⟩
      rw [Option.map_map, Option.map_eq_some_iff] at his
      obtain ⟨rest, -, rfl⟩ := his
      simp [progression] at hlen
    · exact fun h => absurd hwrap h
  · have hstop : ¬ (b + rounds n step * step) % width ≤ b + n - 1 := by
      rw [Nat.mod_eq_of_lt (by omega)]
      omega
    rw [if_neg (by rw [decide_eq_true_iff]; exact hstop)]
    exact ⟨fun _ => hwrap, fun _ => ⟨_, rfl, by simp [progression]⟩⟩

end

end SizeLoop
