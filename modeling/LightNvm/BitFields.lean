import Mathlib.Data.Nat.Bitwise
import Mathlib.Data.List.Pairwise

/-! Values packed into the bit fields of a machine word, for any word size and any layout of
the fields. -/

namespace BitFields

variable {w : Nat}

structure Field where
  off : Nat
  len : Nat
  deriving DecidableEq

def Field.Has (f : Field) (i : Nat) : Prop := f.off ≤ i ∧ i < f.off + f.len

def Field.Apart (f g : Field) : Prop := ∀ i, f.Has i → ¬ g.Has i

def Field.Below (w : Nat) (f : Field) : Prop := ∀ i, f.Has i → i < w

def Field.mask (w : Nat) (f : Field) : BitVec w := (1#w <<< f.len - 1#w) <<< f.off

def Field.read (f : Field) (d : BitVec w) : BitVec w := (d &&& f.mask w) >>> f.off

/-- The word that has each value in its field. -/
def pack (l : List (Field × BitVec w)) : BitVec w :=
  l.foldr (fun p d => p.2 <<< p.1.off ||| d) 0#w

/-- The words without a bit outside the fields. -/
def Within (fs : List Field) (d : BitVec w) : Prop := ∀ i, d.getLsbD i = true → ∃ f ∈ fs, f.Has i

theorem Field.Apart.symm {f g : Field} (h : f.Apart g) : g.Apart f := fun i hg hf => h i hf hg

theorem Field.apart_of_le {f g : Field} (h : g.off + g.len ≤ f.off) : f.Apart g :=
  fun i hf hg => absurd hf.1 (by have := hg.2; omega)

theorem Field.below_of_le {f : Field} (h : f.off + f.len ≤ w) : f.Below w :=
  fun _ hi => hi.2.trans_le h

theorem getLsbD_ones (len i : Nat) :
    (1#w <<< len - 1#w).getLsbD i = (decide (i < w) && decide (i < len)) := by
  have hshl : 1#w <<< len = BitVec.ofNat w (2 ^ len) := by
    apply BitVec.eq_of_toNat_eq
    rw [BitVec.toNat_shiftLeft, BitVec.toNat_ofNat, BitVec.toNat_ofNat, Nat.shiftLeft_eq,
      Nat.mod_mul_mod, Nat.one_mul]
  have hones : 1#w <<< len - 1#w = BitVec.ofNat w (2 ^ len - 1) := by
    rw [hshl, BitVec.sub_eq_iff_eq_add, ← BitVec.ofNat_add, Nat.sub_add_cancel Nat.one_le_two_pow]
  rw [hones, BitVec.getLsbD_ofNat, Nat.testBit_two_pow_sub_one]

theorem getLsbD_mask (f : Field) (i : Nat) :
    (f.mask w).getLsbD i = true ↔ i < w ∧ f.Has i := by
  rw [Field.mask, BitVec.getLsbD_shiftLeft, getLsbD_ones]
  simp only [Field.Has, Bool.and_eq_true, decide_eq_true_eq, Bool.not_eq_true', decide_eq_false_iff_not]
  omega

theorem getLsbD_read (f : Field) (d : BitVec w) (i : Nat) :
    (f.read d).getLsbD i = true ↔ i < f.len ∧ d.getLsbD (f.off + i) = true := by
  rw [Field.read, BitVec.getLsbD_ushiftRight, BitVec.getLsbD_and, Bool.and_eq_true, getLsbD_mask]
  constructor
  · rintro ⟨hd, -, -, h⟩
    exact ⟨by omega, hd⟩
  · rintro ⟨hi, hd⟩
    exact ⟨hd, BitVec.lt_of_getLsbD hd, by omega, by omega⟩

theorem getLsbD_pack (l : List (Field × BitVec w)) (i : Nat) :
    (pack l).getLsbD i = true ↔
      i < w ∧ ∃ p ∈ l, p.1.off ≤ i ∧ p.2.getLsbD (i - p.1.off) = true := by
  induction l with
  | nil => simp [pack]
  | cons p l ih =>
    have hcons : pack (p :: l) = p.2 <<< p.1.off ||| pack l := rfl
    rw [hcons, BitVec.getLsbD_or, Bool.or_eq_true, ih, BitVec.getLsbD_shiftLeft]
    simp only [Bool.and_eq_true, decide_eq_true_eq, Bool.not_eq_true', decide_eq_false_iff_not,
      List.mem_cons, exists_eq_or_imp, Nat.not_lt]
    tauto

theorem lt_len_of_getLsbD {f : Field} {v : BitVec w} (hv : v.toNat < 2 ^ f.len) {i : Nat}
    (h : v.getLsbD i = true) : i < f.len := by
  by_contra hi
  have hlt : v.toNat < 2 ^ i := hv.trans_le (Nat.pow_le_pow_right (by decide) (by omega))
  rw [BitVec.getLsbD, Nat.testBit_lt_two_pow hlt] at h
  exact Bool.false_ne_true h

theorem read_pack {l : List (Field × BitVec w)} (hapart : (l.map Prod.fst).Pairwise Field.Apart)
    (hfit : ∀ p ∈ l, p.2.toNat < 2 ^ p.1.len) {p : Field × BitVec w} (hp : p ∈ l)
    (hw : p.1.Below w) : p.1.read (pack l) = p.2 := by
  have hsymm : Std.Symm fun p q : Field × BitVec w => p.1.Apart q.1 := ⟨fun _ _ => Field.Apart.symm⟩
  have hne := (List.pairwise_map.mp hapart).forall hp
  apply BitVec.eq_of_getLsbD_eq
  intro i _
  rw [Bool.eq_iff_iff, getLsbD_read, getLsbD_pack]
  constructor
  · rintro ⟨hi, -, q, hq, hoff, hbit⟩
    have hlen := lt_len_of_getLsbD (hfit q hq) hbit
    by_cases hpq : p = q
    · subst hpq
      rwa [Nat.add_sub_cancel_left] at hbit
    · exact absurd ⟨hoff, by omega⟩ (hne hq hpq (p.1.off + i) ⟨by omega, by omega⟩)
  · intro hbit
    have hi := lt_len_of_getLsbD (hfit p hp) hbit
    exact ⟨hi, hw _ ⟨by omega, by omega⟩, p, hp, by omega, by rwa [Nat.add_sub_cancel_left]⟩

theorem pack_read {fs : List Field} {d : BitVec w} (hd : Within fs d) :
    pack (fs.map fun f => (f, f.read d)) = d := by
  apply BitVec.eq_of_getLsbD_eq
  intro i hi
  rw [Bool.eq_iff_iff, getLsbD_pack]
  constructor
  · rintro ⟨-, p, hp, hoff, hbit⟩
    obtain ⟨f, -, rfl⟩ := List.mem_map.mp hp
    have hbit := ((getLsbD_read f d _).mp hbit).2
    rwa [Nat.add_sub_cancel' hoff] at hbit
  · intro hbit
    obtain ⟨f, hf, hoff, hlen⟩ := hd i hbit
    have hread : (f.read d).getLsbD (i - f.off) = true := by
      rw [getLsbD_read, Nat.add_sub_cancel' hoff]
      exact ⟨by omega, hbit⟩
    exact ⟨hi, _, List.mem_map_of_mem hf, hoff, hread⟩

theorem toNat_read_lt (f : Field) (d : BitVec w) : (f.read d).toNat < 2 ^ f.len := by
  apply Nat.lt_pow_two_of_testBit
  intro i hi
  have h := mt (getLsbD_read f d i).mp (by omega)
  simpa [BitVec.getLsbD] using h

end BitFields
