import Mathlib.Data.List.Range

/-! A range that is read piece by piece: pieces that follow each other without a gap, and what the
destination of their copies holds. -/

namespace Tiling

variable {α : Type*}

structure Piece where
  src : Nat
  len : Nat
  dst : Nat

/-- The pieces are non-empty, follow each other at the source and at the destination, and end at
`fin`. -/
def Tiles : Nat → Nat → Nat → List Piece → Prop
  | src, _, fin, [] => src = fin
  | src, dst, fin, p :: ps =>
    p.src = src ∧ 0 < p.len ∧ p.dst = dst ∧ Tiles (src + p.len) (dst + p.len) fin ps

def Piece.copy (mem : Nat → α) (buf : Nat → α) (p : Piece) : Nat → α := fun x =>
  if p.dst ≤ x ∧ x < p.dst + p.len then mem (p.src + (x - p.dst)) else buf x

def copies (mem : Nat → α) (buf : Nat → α) (ps : List Piece) : Nat → α := ps.foldl (Piece.copy mem) buf

theorem Tiles.copies_of_lt {src dst fin : Nat} {ps : List Piece} (h : Tiles src dst fin ps)
    (mem buf : Nat → α) {x : Nat} (hx : x < dst) : copies mem buf ps x = buf x := by
  induction ps generalizing src dst buf with
  | nil => rfl
  | cons p ps ih =>
    obtain ⟨-, -, hdst, htail⟩ := h
    rw [copies, List.foldl_cons]
    refine (ih htail (Piece.copy mem buf p) (by omega)).trans ?_
    rw [Piece.copy, if_neg (by omega)]

theorem Tiles.copies_eq {src dst fin : Nat} {ps : List Piece} (h : Tiles src dst fin ps)
    (mem buf : Nat → α) {i : Nat} (hi : src + i < fin) : copies mem buf ps (dst + i) = mem (src + i) := by
  induction ps generalizing src dst buf i with
  | nil =>
    have heq : src = fin := h
    omega
  | cons p ps ih =>
    obtain ⟨hsrc, -, hdst, htail⟩ := h
    rw [copies, List.foldl_cons]
    by_cases hp : i < p.len
    · refine (htail.copies_of_lt mem (Piece.copy mem buf p) (by omega)).trans ?_
      rw [Piece.copy, if_pos (by omega), hsrc, hdst, Nat.add_sub_cancel_left]
    · have hrest := ih htail (Piece.copy mem buf p) (i := i - p.len) (by omega)
      rwa [show dst + p.len + (i - p.len) = dst + i by omega,
        show src + p.len + (i - p.len) = src + i by omega] at hrest

/-! Cutting `n` units into batches. -/

def nbatches (step n : Nat) : Nat := (n + step - 1) / step

theorem mul_lt_of_lt_nbatches {step n k : Nat} (hs : 0 < step) (hk : k < nbatches step n) : k * step < n := by
  have hle : (k + 1) * step ≤ n + step - 1 := (Nat.le_div_iff_mul_le hs).mp hk
  rw [Nat.succ_mul] at hle
  omega

theorem le_nbatches_mul {step n : Nat} (hs : 0 < step) : n ≤ nbatches step n * step := by
  have hdiv := Nat.div_add_mod (n + step - 1) step
  have hmod := Nat.mod_lt (n + step - 1) hs
  rw [nbatches, Nat.mul_comm]
  omega

theorem tiles_batches_iff {step n unit base : Nat} (hs : 0 < step) (hu : 0 < unit) {p : Nat → Piece}
    (hlen : ∀ k < nbatches step n, (p k).len = unit * min step (n - k * step))
    (hdst : ∀ k < nbatches step n, (p k).dst = unit * (k * step)) :
    Tiles base 0 (base + unit * n) ((List.range (nbatches step n)).map p) ↔
      ∀ k < nbatches step n, (p k).src = base + unit * (k * step) := by
  -- from batch `k` on, by induction on the number of batches left
  have hfrom : ∀ m k, k + m = nbatches step n →
      (Tiles (base + unit * min (k * step) n) (unit * min (k * step) n) (base + unit * n)
        ((List.range' k m).map p) ↔
          ∀ j, k ≤ j → j < nbatches step n → (p j).src = base + unit * (j * step)) := by
    intro m
    induction m with
    | zero =>
      intro k hk
      have hle := le_nbatches_mul (n := n) hs
      obtain rfl : k = nbatches step n := by omega
      rw [Nat.min_eq_right hle]
      exact iff_of_true rfl fun j hj hj' => by omega
    | succ m ih =>
      intro k hk
      have hkn : k < nbatches step n := by omega
      have hlt := mul_lt_of_lt_nbatches hs hkn
      have hnext : min (k * step) n + min step (n - k * step) = min ((k + 1) * step) n := by
        rw [Nat.succ_mul]
        omega
      have hpos : 0 < unit * min step (n - k * step) := Nat.mul_pos hu (by omega)
      rw [List.range'_succ, List.map_cons, Tiles, hlen k hkn, hdst k hkn, Nat.add_assoc, ← Nat.mul_add, hnext,
        ih (k + 1) (by omega), Nat.min_eq_left hlt.le]
      constructor
      · rintro ⟨hsrc, -, -, hrest⟩ j hj hjn
        rcases Nat.eq_or_lt_of_le hj with rfl | hj
        · exact hsrc
        · exact hrest j hj hjn
      · intro h
        exact ⟨h k (le_refl _) hkn, hpos, rfl, fun j hj => h j (by omega)⟩
  have hall := hfrom (nbatches step n) 0 (by omega)
  rw [Nat.zero_mul, Nat.zero_min, Nat.mul_zero, Nat.add_zero, ← List.range_eq_range'] at hall
  rw [hall]
  exact ⟨fun h k hk => h k (by omega) hk, fun h j _ hj => h j hj⟩

end Tiling
