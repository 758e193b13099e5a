import LightNvm.Tiling

/-! Loops that hand out `n` units in batches, counted by an unsigned index that may wrap. Such a loop ends
at a batch that cannot be made or that fails. -/

namespace BatchLoop

open Tiling (nbatches)

variable {ε β : Type*}

/-- The batches of a number of turns, from turn `t` on, at which the index is `i`. -/
def batches (width step n : Nat) (make : Nat → Except ε β) (ok : Nat → Bool) : Nat → Nat → Nat → List β
  | 0, _, _ => []
  | turns + 1, t, i =>
    if i < n then
      match make i with
      | .error _ => []
      | .ok b => b :: if ok t then batches width step n make ok turns (t + 1) ((i + step) % width) else []
    else []

/-- The loop makes the batch of turn `k`. -/
def Reaches (width step n : Nat) (ok : Nat → Bool) (k : Nat) : Prop :=
  (∀ j < k, ok j = true) ∧ ∀ j ≤ k, j * step % width < n

section

variable {width step n : Nat} {make : Nat → Except ε β} {ok : Nat → Bool} {f : Nat → β}

theorem next_index (t : Nat) : (t * step % width + step) % width = (t + 1) * step % width := by
  rw [Nat.mod_add_mod, Nat.succ_mul]

theorem mem_batches_iff
    (hmake : ∀ k, k * step % width < n → make (k * step % width) = .ok (f (k * step % width)))
    {turns t : Nat} {b : β} : b ∈ batches width step n make ok turns t (t * step % width) ↔
      ∃ k, t ≤ k ∧ k < t + turns ∧ (∀ j, t ≤ j → j < k → ok j = true) ∧
        (∀ j, t ≤ j → j ≤ k → j * step % width < n) ∧ b = f (k * step % width) := by
  induction turns generalizing t with
  | zero =>
    rw [batches]
    refine iff_of_false (List.not_mem_nil) ?_
    rintro ⟨k, htk, hk, -⟩
    omega
  | succ turns ih =>
    rw [batches]
    by_cases hi : t * step % width < n
    · rw [if_pos hi, hmake t hi]
      dsimp only
      rw [next_index, List.mem_cons]
      constructor
      · rintro (rfl | hmem)
        · refine ⟨t, le_rfl, by omega, fun j hj hj' => by omega, fun j hj hj' => ?_, rfl⟩
          obtain rfl : j = t := by omega
          exact hi
        · split_ifs at hmem with hok
          · obtain ⟨k, htk, hk, hoks, hin, rfl⟩ := ih.mp hmem
            refine ⟨k, by omega, by omega, fun j hj hjk => ?_, fun j hj hjk => ?_, rfl⟩
            · rcases Nat.eq_or_lt_of_le hj with rfl | hj
              · exact hok
              · exact hoks j hj hjk
            · rcases Nat.eq_or_lt_of_le hj with rfl | hj
              · exact hi
              · exact hin j hj hjk
          · exact absurd hmem List.not_mem_nil
      · rintro ⟨k, htk, hk, hoks, hin, rfl⟩
        rcases Nat.eq_or_lt_of_le htk with rfl | htk
        · exact .inl rfl
        · right
          rw [if_pos (hoks t le_rfl htk)]
          exact ih.mpr ⟨k, htk, by omega, fun j hj => hoks j (by omega), fun j hj => hin j (by omega), rfl⟩
    · rw [if_neg hi]
      refine iff_of_false List.not_mem_nil ?_
      rintro ⟨k, htk, -, -, hin, -⟩
      exact hi (hin t le_rfl htk)

/-- What holds of every batch, over all turns. -/
theorem forall_batches_iff {P : β → Prop}
    (hmake : ∀ k, k * step % width < n → make (k * step % width) = .ok (f (k * step % width))) :
    (∀ turns, ∀ b ∈ batches width step n make ok turns 0 0, P b) ↔
      ∀ k, Reaches width step n ok k → P (f (k * step % width)) := by
  have hmem : ∀ turns b, b ∈ batches width step n make ok turns 0 0 ↔
      ∃ k < turns, Reaches width step n ok k ∧ b = f (k * step % width) := by
    intro turns b
    have h : b ∈ batches width step n make ok turns 0 (0 * step % width) ↔ _ := mem_batches_iff hmake
    rw [Nat.zero_mul, Nat.zero_mod, Nat.zero_add] at h
    rw [h]
    simp [Reaches, and_assoc]
  constructor
  · exact fun h k hk => h (k + 1) _ ((hmem _ _).mpr ⟨k, Nat.lt_succ_self k, hk, rfl⟩)
  · intro h turns b hb
    obtain ⟨k, -, hk, rfl⟩ := (hmem _ _).mp hb
    exact h k hk

theorem index_add_le (hw : 0 < width) (hdvd : step ∣ width) (k : Nat) : k * step % width + step ≤ width := by
  obtain ⟨w, rfl⟩ := hdvd
  rw [Nat.mul_comm k, Nat.mul_mod_mul_left, ← Nat.mul_succ]
  exact Nat.mul_le_mul_left step (Nat.mod_lt k (Nat.pos_of_mul_pos_left hw))

/-- No batch reaches unit `N` if and only if the loop makes none, or its index stays below, or a batch
before the first one that does fails. -/
theorem ends_below_iff {N : Nat} (hs : 0 < step) (hw : 0 < width) (hdvd : step ∣ width) (hle : N ≤ n) :
    (∀ k, Reaches width step n ok k → k * step % width + min step (n - k * step % width) < N) ↔
      n = 0 ∨ width < N ∨ ∃ t < (N - 1) / step, ok t = false := by
  have hfirst : (N - 1) / step * step ≤ N - 1 := Nat.div_mul_le_self _ _
  constructor
  · intro h
    by_contra hno
    push Not at hno
    obtain ⟨hn, hN, hok⟩ := hno
    have hindex : ∀ j ≤ (N - 1) / step, j * step % width = j * step ∧ j * step < n := by
      intro j hj
      have hj' := (Nat.mul_le_mul_right step hj).trans hfirst
      exact ⟨Nat.mod_eq_of_lt (by omega), by omega⟩
    have hreach : Reaches width step n ok ((N - 1) / step) := by
      refine ⟨fun j hj => by simpa using hok j hj, fun j hj => ?_⟩
      rw [(hindex j hj).1]
      exact (hindex j hj).2
    have hlast := h _ hreach
    have hnext : N - 1 < ((N - 1) / step + 1) * step := Nat.lt_mul_of_div_lt (Nat.lt_succ_self _) hs
    rw [(hindex _ le_rfl).1] at hlast
    rw [Nat.succ_mul] at hnext
    omega
  · rintro hcond k ⟨hoks, hin⟩
    have hwide := index_add_le hw hdvd k
    rcases hcond with rfl | hN | ⟨t, ht, hfail⟩
    · exact absurd (hin 0 (Nat.zero_le _)) (Nat.not_lt_zero _)
    · omega
    · have hkt : k ≤ t := by
        by_contra hlt
        rw [hoks t (not_le.mp hlt)] at hfail
        cases hfail
      have hnext : (k + 1) * step ≤ (N - 1) / step * step := Nat.mul_le_mul_right step (by omega)
      have hmod : k * step % width ≤ k * step := Nat.mod_le _ _
      rw [Nat.succ_mul] at hnext
      omega

/-- Without a wrap and without a failure the loop makes each batch once. -/
theorem batches_eq_map (hs : 0 < step) (hw : n + step ≤ width) (hmake : ∀ i < n, make i = .ok (f i))
    (hok : ∀ t, ok t = true) : batches width step n make ok (nbatches step n) 0 0 =
      (List.range (nbatches step n)).map fun k => f (k * step) := by
  -- from turn `t` on, by induction on the number of turns left
  have hfrom : ∀ turns t, t + turns = nbatches step n →
      batches width step n make ok turns t (t * step) = (List.range' t turns).map fun k => f (k * step) := by
    intro turns
    induction turns with
    | zero => exact fun _ _ => rfl
    | succ turns ih =>
      intro t ht
      have hlt := Tiling.mul_lt_of_lt_nbatches hs (show t < nbatches step n by omega)
      have hnext : (t * step + step) % width = (t + 1) * step := by
        rw [Nat.mod_eq_of_lt (by omega), Nat.succ_mul]
      rw [batches, if_pos hlt, hmake _ hlt]
      dsimp only
      rw [if_pos (hok t), hnext, ih (t + 1) (by omega), List.range'_succ, List.map_cons]
  have hall := hfrom (nbatches step n) 0 (Nat.zero_add _)
  rwa [Nat.zero_mul, ← List.range_eq_range'] at hall

end

end BatchLoop
