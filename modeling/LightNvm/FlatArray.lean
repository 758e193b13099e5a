import Mathlib.Logic.Function.Basic
import LightNvm.Striping

/-! Media as maps from addresses to sectors, and sequences of sector transfers that
together make the media behave as one flat array of bytes. -/

namespace FlatArray

variable {α β : Type*} {nb : Nat}

abbrev Media (α β : Type*) (nb : Nat) := α → Fin nb → β

def store [DecidableEq α] (m : Media α β nb) (ts : List (α × (Fin nb → β))) : Media α β nb :=
  ts.foldl (fun m t => Function.update m t.1 t.2) m

def load (m : Media α β nb) (buf : Nat → β) (ts : List (α × Nat)) : Nat → β :=
  ts.foldl (fun buf t x => if h : t.2 ≤ x ∧ x - t.2 < nb then m t.1 ⟨x - t.2, h.2⟩ else buf x) buf

/-- The value at each first address goes to the second, in the order of the list. -/
def copy {γ : Type*} [DecidableEq α] (m : α → γ) (ps : List (α × α)) : α → γ :=
  ps.foldl (fun m p => Function.update m p.2 (m p.1)) m

theorem copy_of_forall_ne {γ : Type*} [DecidableEq α] {m : α → γ} {ps : List (α × α)} {a : α}
    (h : ∀ p ∈ ps, p.2 ≠ a) : copy m ps a = m a := by
  induction ps generalizing m with
  | nil => rfl
  | cons p ps ih =>
    have hrest := ih (m := Function.update m p.2 (m p.1)) (fun q hq => h q (by simp [hq]))
    rw [copy, List.foldl_cons, ← copy, hrest, Function.update_of_ne (h p (by simp)).symm]

theorem copy_of_mem {γ : Type*} [DecidableEq α] {m : α → γ} {ps : List (α × α)}
    (hnd : (ps.map Prod.snd).Nodup) (hdis : ∀ p ∈ ps, ∀ q ∈ ps, p.1 ≠ q.2) {p : α × α} (hp : p ∈ ps) :
    copy m ps p.2 = m p.1 := by
  induction ps generalizing m with
  | nil => simp at hp
  | cons q ps ih =>
    rw [List.map_cons, List.nodup_cons] at hnd
    rw [copy, List.foldl_cons, ← copy]
    rcases List.mem_cons.mp hp with rfl | hin
    · rw [copy_of_forall_ne, Function.update_self]
      exact fun r hr heq => hnd.1 (List.mem_map.mpr ⟨r, hr, heq⟩)
    · rw [ih hnd.2 (fun r hr t ht => hdis r (by simp [hr]) t (by simp [ht])) hin,
        Function.update_of_ne (hdis p (by simp [hin]) q (by simp))]

theorem store_of_forall_ne [DecidableEq α] {m : Media α β nb} {ts : List (α × (Fin nb → β))} {a : α}
    (h : ∀ t ∈ ts, t.1 ≠ a) : store m ts a = m a := by
  induction ts generalizing m with
  | nil => rfl
  | cons t ts ih =>
    have hrest := ih (m := Function.update m t.1 t.2) (fun u hu => h u (by simp [hu]))
    rw [store, List.foldl_cons, ← store, hrest, Function.update_of_ne (h t (by simp)).symm]

theorem store_of_mem [DecidableEq α] {m : Media α β nb} {ts : List (α × (Fin nb → β))} {a : α} {d : Fin nb → β}
    (hm : (a, d) ∈ ts) (huniq : ∀ t ∈ ts, t.1 = a → t.2 = d) : store m ts a = d := by
  induction ts generalizing m with
  | nil => simp at hm
  | cons t ts ih =>
    rw [store, List.foldl_cons, ← store]
    by_cases hin : (a, d) ∈ ts
    · exact ih hin (fun u hu => huniq u (by simp [hu]))
    · have ht : t = (a, d) := by simpa [hin, eq_comm] using hm
      subst ht
      rw [store_of_forall_ne, Function.update_self]
      intro u hu hua
      apply hin
      rwa [← huniq u (by simp [hu]) hua, ← hua]

theorem store_mem_or [DecidableEq α] (m : Media α β nb) (ts : List (α × (Fin nb → β))) (a : α) :
    (∃ t ∈ ts, t.1 = a ∧ store m ts a = t.2) ∨ store m ts a = m a := by
  induction ts generalizing m with
  | nil => exact .inr rfl
  | cons t ts ih =>
    rw [store, List.foldl_cons, ← store]
    rcases ih (Function.update m t.1 t.2) with ⟨u, hu, hua, hst⟩ | hst
    · exact .inl ⟨u, by simp [hu], hua, hst⟩
    · by_cases hta : t.1 = a
      · left
        refine ⟨t, by simp, hta, ?_⟩
        rw [hst, ← hta, Function.update_self]
      · right
        rw [hst, Function.update_of_ne (Ne.symm hta)]

theorem store_concat [DecidableEq α] (m : Media α β nb) (ts : List (α × (Fin nb → β)))
    (t : α × (Fin nb → β)) : store m (ts ++ [t]) t.1 = t.2 := by
  rw [store, List.foldl_append, List.foldl_cons, List.foldl_nil, Function.update_self]

theorem load_of_forall_not {m : Media α β nb} {buf : Nat → β} {ts : List (α × Nat)} {x : Nat}
    (h : ∀ t ∈ ts, ¬(t.2 ≤ x ∧ x - t.2 < nb)) : load m buf ts x = buf x := by
  induction ts generalizing buf with
  | nil => rfl
  | cons t ts ih =>
    rw [load, List.foldl_cons, ← load, ih (fun u hu => h u (by simp [hu])), dif_neg (h t (by simp))]

theorem load_of_mem {m : Media α β nb} {buf : Nat → β} {ts : List (α × Nat)} {a : α} {off : Nat}
    (j : Fin nb) (hm : (a, off) ∈ ts)
    (huniq : ∀ t ∈ ts, t.2 ≤ off + j ∧ off + j - t.2 < nb → t = (a, off)) :
    load m buf ts (off + j) = m a j := by
  induction ts generalizing buf with
  | nil => simp at hm
  | cons t ts ih =>
    rw [load, List.foldl_cons, ← load]
    by_cases hin : (a, off) ∈ ts
    · exact ih hin (fun u hu => huniq u (by simp [hu]))
    · have ht : t = (a, off) := by simpa [hin, eq_comm] using hm
      subst ht
      rw [load_of_forall_not]
      · simp
      · intro u hu hx
        apply hin
        rwa [← huniq u (by simp [hu]) hx]

/-- The bytes of the media in the order of a placement of sectors. -/
def flat (place : Nat → α) (hnb : 0 < nb) (m : Media α β nb) (x : Nat) : β :=
  m (place (x / nb)) ⟨x % nb, Nat.mod_lt x hnb⟩

/-- A flat array after `n` bytes from `data` have been written at `off`. -/
def overwrite (f : Nat → β) (off n : Nat) (data : Nat → β) (x : Nat) : β :=
  if off ≤ x ∧ x < off + n then data (x - off) else f x

def Writes (place : Nat → α) (b k : Nat) (data : Nat → β) (ts : List (α × (Fin nb → β))) : Prop :=
  ∀ t, t ∈ ts ↔ ∃ i < k, t = (place (b + i), fun j : Fin nb => data (i * nb + j))

def Reads (nb : Nat) (place : Nat → α) (b k : Nat) (ts : List (α × Nat)) : Prop :=
  ∀ t, t ∈ ts ↔ ∃ i < k, t = (place (b + i), i * nb)

section

variable {place : Nat → α} {N b k : Nat} {hnb : 0 < nb}

theorem flat_store [DecidableEq α] {data : Nat → β} {ts : List (α × (Fin nb → β))} {m : Media α β nb}
    (hinj : ∀ s t, s < N → t < N → place s = place t → s = t) (hN : b + k ≤ N)
    (h : Writes place b k data ts) {x : Nat} (hx : x < N * nb) :
    flat place hnb (store m ts) x = overwrite (flat place hnb m) (b * nb) (k * nb) data x := by
  have hdiv := Nat.div_add_mod' x nb
  have hs : x / nb < N := Nat.div_lt_of_lt_mul (by rwa [Nat.mul_comm])
  have hmod := Nat.mod_lt x hnb
  by_cases hin : b ≤ x / nb ∧ x / nb < b + k
  · obtain ⟨i, hi⟩ : ∃ i, x / nb = b + i := ⟨x / nb - b, by omega⟩
    have hx' : x = b * nb + (i * nb + x % nb) := by
      rw [hi] at hdiv
      rw [← Nat.add_assoc, ← Nat.add_mul, hdiv]
    have hlt : i * nb + x % nb < k * nb := Striping.digits_lt (by omega) hmod
    have hmem : (place (x / nb), fun j : Fin nb => data (i * nb + j)) ∈ ts :=
      (h _).mpr ⟨i, by omega, by rw [hi]⟩
    have huniq : ∀ t ∈ ts, t.1 = place (x / nb) → t.2 = fun j : Fin nb => data (i * nb + j) := by
      intro t ht hta
      obtain ⟨i', hi', rfl⟩ := (h t).mp ht
      have := hinj _ _ (by omega) hs hta
      obtain rfl : i' = i := by omega
      rfl
    have hoff : x - b * nb = i * nb + x % nb := by omega
    rw [flat, store_of_mem hmem huniq, overwrite, if_pos ⟨by omega, by omega⟩, hoff]
  · have hne : ∀ t ∈ ts, t.1 ≠ place (x / nb) := by
      intro t ht hta
      obtain ⟨i, hi, rfl⟩ := (h t).mp ht
      have := hinj _ _ (by omega) hs hta
      omega
    have hout : ¬(b * nb ≤ x ∧ x < b * nb + k * nb) := by
      rintro ⟨hle, hlt⟩
      apply hin
      refine ⟨(Nat.le_div_iff_mul_le hnb).mpr hle, Nat.div_lt_of_lt_mul ?_⟩
      rwa [Nat.mul_comm, Nat.add_mul]
    rw [flat, store_of_forall_ne hne, overwrite, if_neg hout, flat]

theorem store_frame [DecidableEq α] {data : Nat → β} {ts : List (α × (Fin nb → β))} {m : Media α β nb}
    (h : Writes place b k data ts) {a : α} (ha : ∀ i < k, place (b + i) ≠ a) : store m ts a = m a := by
  apply store_of_forall_ne
  intro t ht
  obtain ⟨i, hi, rfl⟩ := (h t).mp ht
  exact ha i hi

theorem load_flat {ts : List (α × Nat)} {m : Media α β nb} {buf : Nat → β}
    (h : Reads nb place b k ts) (x : Nat) :
    load m buf ts x = if x < k * nb then flat place hnb m (b * nb + x) else buf x := by
  have hslot : ∀ i y : Nat, i * nb ≤ y ∧ y - i * nb < nb ↔ y / nb = i := by
    intro i y
    rw [Nat.div_eq_iff hnb]
    omega
  split_ifs with hx
  · have hi : x / nb < k := Nat.div_lt_of_lt_mul (by rwa [Nat.mul_comm])
    have hmem : (place (b + x / nb), x / nb * nb) ∈ ts := (h _).mpr ⟨x / nb, hi, rfl⟩
    have huniq : ∀ t ∈ ts, t.2 ≤ x / nb * nb + x % nb ∧ x / nb * nb + x % nb - t.2 < nb →
        t = (place (b + x / nb), x / nb * nb) := by
      intro t ht hr
      obtain ⟨i, _, rfl⟩ := (h t).mp ht
      rw [hslot, Nat.div_add_mod'] at hr
      rw [hr]
    have hload : load m buf ts (x / nb * nb + x % nb) = m (place (b + x / nb)) ⟨x % nb, _⟩ :=
      load_of_mem ⟨x % nb, Nat.mod_lt x hnb⟩ hmem huniq
    rw [Nat.div_add_mod'] at hload
    rw [hload, flat]
    have hd : (b * nb + x) / nb = b + x / nb := by
      rw [Nat.add_comm, Nat.add_mul_div_right _ _ hnb, Nat.add_comm]
    have hm : (b * nb + x) % nb = x % nb := Nat.mul_add_mod_self_right b nb x
    simp only [hd, hm]
  · apply load_of_forall_not
    intro t ht hr
    obtain ⟨i, hi, rfl⟩ := (h t).mp ht
    rw [hslot] at hr
    apply hx
    rw [← hr] at hi
    rw [Nat.mul_comm]
    exact (Nat.div_lt_iff_lt_mul hnb).mp hi |>.trans_eq (Nat.mul_comm _ _)

theorem flat_foldlM {ω : Type*} {step : Media α β nb → ω → Option (Media α β nb)} {off len : ω → Nat}
    {data : ω → Nat → β} (ws : List ω) (h : ∀ w ∈ ws, ∀ m, ∃ m', step m w = some m' ∧
      ∀ x < N, flat place hnb m' x = overwrite (flat place hnb m) (off w) (len w) (data w) x)
    (m : Media α β nb) (f : Nat → β) (hf : ∀ x < N, flat place hnb m x = f x) :
    ∃ m', ws.foldlM step m = some m' ∧ ∀ x < N, flat place hnb m' x =
      ws.foldl (fun f w => overwrite f (off w) (len w) (data w)) f x := by
  induction ws generalizing m f with
  | nil => exact ⟨m, rfl, hf⟩
  | cons w ws ih =>
    obtain ⟨m₁, hstep, hm₁⟩ := h w (by simp) m
    obtain ⟨m', hfold, hm'⟩ := ih (fun v hv => h v (by simp [hv])) m₁
      (overwrite f (off w) (len w) (data w)) (fun x hx => by
        rw [hm₁ x hx, overwrite, overwrite, hf x hx])
    refine ⟨m', ?_, hm'⟩
    rw [List.foldlM_cons, hstep]
    exact hfold

theorem step_of_foldlM {ω σ : Type*} {step : σ → ω → Option σ} {ws : List ω} {s s' : σ}
    (h : ws.foldlM step s = some s') : ∀ w ∈ ws, ∃ s₁ s₂, step s₁ w = some s₂ := by
  induction ws generalizing s with
  | nil => simp
  | cons w ws ih =>
    rw [List.foldlM_cons] at h
    obtain ⟨s₁, hs, hrest⟩ := Option.bind_eq_some_iff.mp h
    intro v hv
    rcases List.mem_cons.mp hv with rfl | hv
    · exact ⟨s, s₁, hs⟩
    · exact ih hrest v hv

end

end FlatArray
