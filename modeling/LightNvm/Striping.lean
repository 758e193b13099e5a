import Mathlib.Data.List.Chain
import Mathlib.Data.Nat.ModEq
import Mathlib.Tactic.Ring
import Mathlib.Tactic.Linarith

/-! Two-digit positions, and the round-robin placement of a flat sequence of
sectors over lanes: units of `w` sectors go to `n` lanes in turn. -/

namespace Striping

/-! Positions `a * n + b` with a last digit `b < n`. -/

theorem digits_div {n a b : Nat} (hb : b < n) : (a * n + b) / n = a := by
  rw [Nat.add_comm, Nat.add_mul_div_right _ _ (by omega), Nat.div_eq_of_lt hb, Nat.zero_add]

theorem digits_mod {n a b : Nat} (hb : b < n) : (a * n + b) % n = b := by
  rw [Nat.add_comm, Nat.add_mul_mod_self_right, Nat.mod_eq_of_lt hb]

theorem digits_inj {n a b c d : Nat} (hb : b < n) (hd : d < n) (h : a * n + b = c * n + d) :
    a = c ∧ b = d := by
  have hdiv := congrArg (· / n) h
  have hmod := congrArg (· % n) h
  simp only [digits_div hb, digits_div hd] at hdiv
  simp only [digits_mod hb, digits_mod hd] at hmod
  exact ⟨hdiv, hmod⟩

theorem digits_lt {m n a b : Nat} (ha : a < m) (hb : b < n) : a * n + b < m * n := by
  calc a * n + b < a * n + n := by omega
    _ = (a + 1) * n := by ring
    _ ≤ m * n := Nat.mul_le_mul_right n ha

theorem exists_digits {k w : Nat} {p : Nat → Prop} :
    (∃ x < k * w, p x) ↔ ∃ j < k, ∃ i < w, p (j * w + i) := by
  constructor
  · rintro ⟨x, hx, hp⟩
    have hw : 0 < w := Nat.pos_of_ne_zero (by rintro rfl; simp at hx)
    refine ⟨x / w, Nat.div_lt_of_lt_mul (by rwa [Nat.mul_comm]), x % w, Nat.mod_lt x hw, ?_⟩
    rwa [Nat.div_add_mod']
  · rintro ⟨j, hj, i, hi, hp⟩
    exact ⟨j * w + i, digits_lt hj hi, hp⟩

theorem flatMap_digits {α : Type*} (f : Nat → α) (k w : Nat) :
    ((List.range k).flatMap fun j => (List.range w).map fun i => f (j * w + i)) =
      (List.range (k * w)).map f := by
  induction k with
  | zero => simp
  | succ k ih =>
    rw [List.range_succ, List.flatMap_append, ih, Nat.succ_mul, List.range_add, List.map_append,
      List.map_map]
    simp [Function.comp_def]

/-! Round-robin placement: unit `u` of `w` sectors is on lane `u % n`, in round `u / n`. -/

def lane (w n s : Nat) : Nat := s / w % n

def pos (w n s : Nat) : Nat := s % w + s / w / n * w

theorem pos_eq (w n s : Nat) : pos w n s = s / w / n * w + s % w := Nat.add_comm _ _

theorem pos_div {w : Nat} (hw : 0 < w) (n s : Nat) : pos w n s / w = s / w / n := by
  rw [pos_eq, digits_div (Nat.mod_lt s hw)]

theorem pos_mod {w : Nat} (hw : 0 < w) (n s : Nat) : pos w n s % w = s % w := by
  rw [pos_eq, digits_mod (Nat.mod_lt s hw)]

theorem lane_pos_inj {w n s t : Nat} (hw : 0 < w) (hl : lane w n s = lane w n t)
    (hp : pos w n s = pos w n t) : s = t := by
  have hmod : s % w = t % w := by rw [← pos_mod hw n s, ← pos_mod hw n t, hp]
  have hdiv : s / w / n = t / w / n := by rw [← pos_div hw n s, ← pos_div hw n t, hp]
  have hunit : s / w = t / w := by
    rw [← Nat.div_add_mod' (s / w) n, ← Nat.div_add_mod' (t / w) n, hdiv]
    exact congrArg _ hl
  rw [← Nat.div_add_mod' s w, ← Nat.div_add_mod' t w, hunit, hmod]

theorem lane_unit {w n u i : Nat} (hi : i < w) : lane w n (u * w + i) = u % n := by
  rw [lane, digits_div hi]

theorem pos_unit {w n u i : Nat} (hi : i < w) : pos w n (u * w + i) = u / n * w + i := by
  rw [pos_eq, digits_div hi, digits_mod hi]

theorem pos_lt {w n N s : Nat} (hw : 0 < w) (hd : w ∣ N) (hs : s < n * N) : pos w n s < N := by
  obtain ⟨q, rfl⟩ := hd
  have hu : s / w < n * q := by
    apply Nat.div_lt_of_lt_mul
    calc s < n * (w * q) := hs
      _ = w * (n * q) := by ring
  have hr : s / w / n < q := Nat.div_lt_of_lt_mul hu
  rw [pos_eq, Nat.mul_comm w q]
  exact digits_lt hr (Nat.mod_lt s hw)

theorem unit_end_le {w n N u : Nat} (hw : 0 < w) (hd : w ∣ N) (hu : (u + 1) * w ≤ n * N) :
    u / n * w + w ≤ N := by
  have hlast := pos_lt (n := n) (s := u * w + (w - 1)) hw hd (by rw [Nat.add_mul] at hu; omega)
  rw [pos_unit (by omega)] at hlast
  omega

theorem pos_lt_pos {w n s t : Nat} (hw : 0 < w) (hl : lane w n s = lane w n t) (h : s < t) :
    pos w n s < pos w n t := by
  have hle : s / w ≤ t / w := Nat.div_le_div_right h.le
  rcases hle.eq_or_lt with heq | hlt
  · have hs := Nat.div_add_mod' s w
    have ht := Nat.div_add_mod' t w
    rw [pos_eq, pos_eq, heq]
    rw [heq] at hs
    omega
  · have hround : s / w / n < t / w / n := by
      by_contra hge
      have hdiv : s / w / n = t / w / n := le_antisymm (Nat.div_le_div_right hle) (not_lt.mp hge)
      have hs := Nat.div_add_mod' (s / w) n
      have ht := Nat.div_add_mod' (t / w) n
      change s / w % n = t / w % n at hl
      rw [hdiv, hl] at hs
      omega
    calc pos w n s < s / w / n * w + w := by rw [pos_eq]; have := Nat.mod_lt s hw; omega
      _ = (s / w / n + 1) * w := by ring
      _ ≤ t / w / n * w := Nat.mul_le_mul_right w hround
      _ ≤ pos w n t := by rw [pos_eq]; omega

theorem exists_lane_pos {w n N c p : Nat} (hw : 0 < w) (hd : w ∣ N) (hc : c < n) (hp : p < N) :
    ∃ s < n * N, lane w n s = c ∧ pos w n s = p := by
  obtain ⟨q, rfl⟩ := hd
  have hm := Nat.mod_lt p hw
  have hq : p / w < q := Nat.div_lt_of_lt_mul hp
  refine ⟨(p / w * n + c) * w + p % w, ?_, ?_, ?_⟩
  · calc (p / w * n + c) * w + p % w < q * n * w := digits_lt (digits_lt hq hc) hm
      _ = n * (w * q) := by ring
  · rw [lane_unit hm, digits_mod hc]
  · rw [pos_unit hm, digits_div hc, Nat.div_add_mod']

theorem mod_ne_of_div_eq {n a b : Nat} (hd : a / n = b / n) (hne : a ≠ b) : a % n ≠ b % n := by
  intro hm
  apply hne
  rw [← Nat.div_add_mod a n, ← Nat.div_add_mod b n, hd, hm]

theorem rotate_inj {n a i j : Nat} (hi : i < n) (hj : j < n) (h : (i + a) % n = (j + a) % n) : i = j := by
  have hmod : i % n = j % n := Nat.ModEq.add_right_cancel' a h
  rwa [Nat.mod_eq_of_lt hi, Nat.mod_eq_of_lt hj] at hmod

theorem rounds_agree_iff {n k u : Nat} (hn : 0 < n) :
    (∀ j < k, j / n = (u + j) / n) ↔ k = 0 ∨ u = 0 ∨ u + k ≤ n := by
  constructor
  · intro h
    by_contra hne
    have hu : u < n := by
      have := h 0 (by omega)
      rw [Nat.zero_div, Nat.add_zero, eq_comm, Nat.div_eq_zero_iff] at this
      omega
    have hj := h (n - u) (by omega)
    rw [Nat.div_eq_of_lt (by omega), Nat.add_sub_cancel' hu.le, Nat.div_self hn] at hj
    omega
  · rintro (rfl | rfl | h) j hj
    · omega
    · rw [Nat.zero_add]
    · rw [Nat.div_eq_of_lt (by omega), Nat.div_eq_of_lt (by omega)]

/-- The members of a filtered range in their order: what holds between two members with
none between them holds between neighbours. -/
theorem isChain_filter_range {p : Nat → Bool} {r : Nat → Nat → Prop}
    (h : ∀ i j, i < j → p i = true → p j = true → (∀ l, i < l → l < j → p l = false) → r i j) (m : Nat) :
    ((List.range m).filter p).IsChain r ∧ ∀ i ∈ ((List.range m).filter p).getLast?,
      i < m ∧ p i = true ∧ ∀ l, i < l → l < m → p l = false := by
  induction m with
  | zero => simp
  | succ m ih =>
    obtain ⟨hchain, hlast⟩ := ih
    rw [List.range_succ, List.filter_append]
    cases hm : p m with
    | false =>
      simp only [List.filter_cons, hm, List.filter_nil, List.append_nil, Bool.false_eq_true, if_false]
      refine ⟨hchain, fun i hi => ?_⟩
      obtain ⟨hlt, hp, hgap⟩ := hlast i hi
      refine ⟨by omega, hp, fun l hil hlm => ?_⟩
      by_cases hl : l = m
      · rw [hl, hm]
      · exact hgap l hil (by omega)
    | true =>
      simp only [List.filter_cons, hm, List.filter_nil, if_true]
      refine ⟨List.isChain_append.mpr ⟨hchain, List.isChain_singleton m, ?_⟩, ?_⟩
      · intro i hi j hj
        obtain ⟨hlt, hp, hgap⟩ := hlast i hi
        obtain rfl : m = j := by simpa using hj
        exact h i m hlt hp hm hgap
      · intro i hi
        obtain rfl : m = i := by simpa using hi
        exact ⟨by omega, hm, fun l hil hlm => by omega⟩

end Striping
