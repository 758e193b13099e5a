import Mathlib.Data.List.Perm.Basic
import LightNvm.Striping

/-! A file of bytes, stores at offsets of it, and objects that lie in it in units of one length, in
any order and at any distance. -/

namespace ByteFile

variable {β : Type*}

structure Store (β : Type*) where
  off : Nat
  len : Nat
  data : Nat → β

def Store.Covers (s : Store β) (y : Nat) : Prop := s.off ≤ y ∧ y < s.off + s.len

instance (s : Store β) (y : Nat) : Decidable (s.Covers y) := inferInstanceAs (Decidable (_ ∧ _))

def Store.apply (f : Nat → β) (s : Store β) : Nat → β :=
  fun y => if s.Covers y then s.data (y - s.off) else f y

def applyAll (f : Nat → β) (ss : List (Store β)) : Nat → β := ss.foldl Store.apply f

section

variable {f : Nat → β} {ss : List (Store β)} {y : Nat} {b : β}

theorem applyAll_of_forall_not (h : ∀ s ∈ ss, ¬ s.Covers y) : applyAll f ss y = f y := by
  induction ss generalizing f with
  | nil => rfl
  | cons s ss ih =>
    rw [applyAll, List.foldl_cons, ← applyAll, ih fun t ht => h t (by simp [ht]), Store.apply,
      if_neg (h s (by simp))]

/-- The stores that reach a byte agree on it, so their order does not matter. -/
theorem applyAll_of_covers (hcov : ∃ s ∈ ss, s.Covers y)
    (h : ∀ s ∈ ss, s.Covers y → s.data (y - s.off) = b) : applyAll f ss y = b := by
  induction ss generalizing f with
  | nil => simp at hcov
  | cons s ss ih =>
    rw [applyAll, List.foldl_cons, ← applyAll]
    by_cases hrest : ∃ t ∈ ss, t.Covers y
    · exact ih hrest fun t ht => h t (by simp [ht])
    · obtain ⟨t, ht, hty⟩ := hcov
      rcases List.mem_cons.mp ht with rfl | ht
      · rw [applyAll_of_forall_not fun u hu hc => hrest ⟨u, hu, hc⟩, Store.apply, if_pos hty]
        exact h t (by simp) hty
      · exact absurd ⟨t, ht, hty⟩ hrest

end

/-- An object of units that do not overlap; `base` is where a unit begins in the file. -/
structure Layout where
  unit : Nat
  units : Nat
  base : Nat → Nat
  unit_pos : 0 < unit
  apart : ∀ u t, u < units → t < units → base u ≤ base t → base t < base u + unit → u = t

namespace Layout

/-- Where byte `x` of the object is in the file. -/
def pos (l : Layout) (x : Nat) : Nat := l.base (x / l.unit) + x % l.unit

/-- The object that is a file of its own. -/
def plain (unit units : Nat) (hpos : 0 < unit) : Layout where
  unit := unit
  units := units
  base u := u * unit
  unit_pos := hpos
  apart u t _ _ hle hlt := by
    rw [← Nat.succ_mul] at hlt
    have hut := Nat.le_of_mul_le_mul_right hle hpos
    have htu := Nat.lt_of_mul_lt_mul_right hlt
    omega

theorem pos_plain (unit units : Nat) (hpos : 0 < unit) (x : Nat) : (plain unit units hpos).pos x = x :=
  Nat.div_add_mod' x unit

/-- `k` stores of at most a unit, one at the beginning of each unit from `u` on. -/
def pieces (l : Layout) (u k : Nat) (piece : Nat → Nat × (Nat → β)) : List (Store β) :=
  (List.range k).map fun j => ⟨l.base (u + j), (piece j).1, (piece j).2⟩

section

variable {l : Layout} {u k x : Nat} {piece : Nat → Nat × (Nat → β)} {f : Nat → β} {ss : List (Store β)}

theorem covers_pos_iff {t len : Nat} {data : Nat → β} (ht : t < l.units) (hlen : len ≤ l.unit)
    (hx : x < l.units * l.unit) :
    (Store.mk (l.base t) len data).Covers (l.pos x) ↔ x / l.unit = t ∧ x % l.unit < len := by
  have hu : x / l.unit < l.units := Nat.div_lt_of_lt_mul (by rwa [Nat.mul_comm])
  have hmod := Nat.mod_lt x l.unit_pos
  simp only [Store.Covers, pos]
  constructor
  · rintro ⟨hge, hlt⟩
    have heq : x / l.unit = t := by
      rcases Nat.le_total (l.base (x / l.unit)) (l.base t) with hle | hle
      · exact l.apart _ _ hu ht hle (by omega)
      · exact (l.apart _ _ ht hu hle (by omega)).symm
    rw [heq] at hlt
    exact ⟨heq, by omega⟩
  · rintro ⟨rfl, hlt⟩
    omega

variable (hss : ss.Perm (l.pieces u k piece)) (hlen : ∀ j < k, (piece j).1 ≤ l.unit) (hk : u + k ≤ l.units)
  (hx : x < l.units * l.unit)

include hss hlen hk hx

theorem covers_pieces {s : Store β} (hs : s ∈ ss) (hc : s.Covers (l.pos x)) :
    ∃ j < k, x / l.unit = u + j ∧ x % l.unit < (piece j).1 ∧ s.data (l.pos x - s.off) = (piece j).2 (x % l.unit) := by
  obtain ⟨j, hj, rfl⟩ := List.mem_map.mp (hss.mem_iff.mp hs)
  have hj := List.mem_range.mp hj
  obtain ⟨heq, hlt⟩ := (covers_pos_iff (by omega) (hlen j hj) hx).mp hc
  refine ⟨j, hj, heq, hlt, ?_⟩
  rw [pos, heq, Nat.add_sub_cancel_left]

theorem applyAll_pieces_new {j : Nat} (hj : j < k) (hu : x / l.unit = u + j) (hr : x % l.unit < (piece j).1) :
    applyAll f ss (l.pos x) = (piece j).2 (x % l.unit) := by
  apply applyAll_of_covers
  · refine ⟨_, hss.mem_iff.mpr (List.mem_map.mpr ⟨j, List.mem_range.mpr hj, rfl⟩), ?_⟩
    exact (covers_pos_iff (by omega) (hlen j hj) hx).mpr ⟨hu, hr⟩
  · intro s hs hc
    obtain ⟨i, -, hi, -, hdata⟩ := covers_pieces hss hlen hk hx hs hc
    obtain rfl : i = j := by omega
    exact hdata

theorem applyAll_pieces_old (h : ∀ j < k, x / l.unit = u + j → ¬ x % l.unit < (piece j).1) :
    applyAll f ss (l.pos x) = f (l.pos x) := by
  apply applyAll_of_forall_not
  intro s hs hc
  obtain ⟨j, hj, hu, hr, -⟩ := covers_pieces hss hlen hk hx hs hc
  exact h j hj hu hr

end

end Layout

end ByteFile
