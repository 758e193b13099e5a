import Mathlib.Data.List.Nodup
import Mathlib.Data.List.Range
import Mathlib.Logic.Function.Basic
import LightNvm.Runs

/-! A parallel loop whose iterations go to the threads of a team in turn (`schedule(static,1)`)
and end with an ordered region. The threads interleave in any way that keeps the regions in
the order of the iterations. -/

namespace OrderedTeam

inductive Phase where
  | idle | working | waiting
  deriving DecidableEq

/-- How many iterations each thread has behind it, where it is in the next one, the number
of ordered regions that have run, and the iterations begun so far. -/
structure Team where
  round : Nat → Nat
  phase : Nat → Phase
  nordered : Nat
  issued : List Nat

inductive Event where
  | start (t : Nat)
  | finish (t : Nat)
  | order (t : Nat)

def init : Team := ⟨fun _ => 0, fun _ => .idle, 0, []⟩

def Team.iter (M : Nat) (s : Team) (t : Nat) : Nat := t + s.round t * M

def Enabled (M N : Nat) (s : Team) : Event → Prop
  | .start t => t < M ∧ s.phase t = .idle ∧ s.iter M t < N
  | .finish t => t < M ∧ s.phase t = .working
  | .order t => t < M ∧ s.phase t = .waiting ∧ s.iter M t = s.nordered

def step (M : Nat) (s : Team) : Event → Team
  | .start t => { s with
      phase := Function.update s.phase t .working
      issued := s.issued ++ [s.iter M t] }
  | .finish t => { s with phase := Function.update s.phase t .waiting }
  | .order t => { s with
      round := Function.update s.round t (s.round t + 1)
      phase := Function.update s.phase t .idle
      nordered := s.nordered + 1 }

/-- No two iterations under way touch the same place, and iterations that touch the same
place are begun in increasing order there. -/
def InOrder {β : Type*} (M N : Nat) (touches : Nat → β → Nat → Prop) : Prop :=
  ∀ es, Runs.Along (step M) (Enabled M N) init es →
    let s := Runs.run (step M) init es
    (∀ t u, t < M → u < M → t ≠ u → s.phase t = .working → s.phase u = .working →
      ∀ b p q, touches (s.iter M t) b p → ¬ touches (s.iter M u) b q) ∧
    s.issued.Pairwise fun i j => ∀ b p q, touches i b p → touches j b q → p < q

/-- Iterations that touch the same place are a team apart and go up there. -/
def Spread {β : Type*} (M N : Nat) (touches : Nat → β → Nat → Prop) : Prop :=
  ∀ i j b p q, i < j → j < N → touches i b p → touches j b q → i + M ≤ j ∧ p < q

/-- All iterations under way lie in a window of `M` that begins with the next ordered
region, and the iterations begun are those before it and those under way. -/
structure Inv (M N : Nat) (s : Team) : Prop where
  window : ∀ t < M, s.nordered ≤ s.iter M t ∧ s.iter M t < s.nordered + M
  begun : ∀ t < M, s.phase t ≠ .idle → s.iter M t < N
  issued : ∀ i ∈ s.issued, i < N ∧ (i < s.nordered ∨ ∃ t < M, s.phase t ≠ .idle ∧ i = s.iter M t)
  apart : s.issued.Pairwise fun i j => i ≠ j ∧ i < j + M

variable {M N : Nat} {s : Team}

theorem iter_inj {t u : Nat} (ht : t < M) (hu : u < M) (h : s.iter M t = s.iter M u) : t = u := by
  have hmod := congrArg (· % M) h
  simpa [Team.iter, Nat.mod_eq_of_lt ht, Nat.mod_eq_of_lt hu] using hmod

theorem inv_init : Inv M N init where
  window t ht := by simpa [init, Team.iter] using ht
  begun t _ h := absurd rfl h
  issued i hi := by simp [init] at hi
  apart := List.Pairwise.nil

theorem iter_order_self (t : Nat) : (step M s (.order t)).iter M t = s.iter M t + M := by
  simp only [step, Team.iter, Function.update_self]
  rw [Nat.succ_mul, Nat.add_assoc]

theorem iter_order_ne {t u : Nat} (h : u ≠ t) : (step M s (.order t)).iter M u = s.iter M u := by
  simp only [step, Team.iter, Function.update_of_ne h]

theorem phase_start_ne_idle {t u : Nat} (h : s.phase u ≠ .idle) :
    (step M s (.start t)).phase u ≠ .idle := by
  by_cases hu : u = t
  · simp [step, hu]
  · simpa [step, Function.update_of_ne hu] using h

theorem phase_finish_ne_idle {t u : Nat} (h : s.phase u ≠ .idle) :
    (step M s (.finish t)).phase u ≠ .idle := by
  by_cases hu : u = t
  · simp [step, hu]
  · simpa [step, Function.update_of_ne hu] using h

theorem inv_start {t : Nat} (hi : Inv M N s) (h : Enabled M N s (.start t)) :
    Inv M N (step M s (.start t)) := by
  obtain ⟨ht, hidle, hlt⟩ := h
  constructor
  · exact hi.window
  · intro u hu hph
    by_cases hut : u = t
    · rw [hut]; exact hlt
    · refine hi.begun u hu ?_
      simpa [step, Function.update_of_ne hut] using hph
  · intro i hmem
    rcases List.mem_append.mp hmem with hold | hnew
    · obtain ⟨hN, hcase⟩ := hi.issued i hold
      refine ⟨hN, hcase.imp id ?_⟩
      rintro ⟨u, hu, hph, rfl⟩
      exact ⟨u, hu, phase_start_ne_idle hph, rfl⟩
    · obtain rfl := List.mem_singleton.mp hnew
      exact ⟨hlt, .inr ⟨t, ht, by simp [step], rfl⟩⟩
  · -- the thread is idle, so its iteration is new, and all others are in the window below it
    refine List.pairwise_append.mpr ⟨hi.apart, List.pairwise_singleton _ _, ?_⟩
    intro i hold j hnew
    obtain rfl := List.mem_singleton.mp hnew
    obtain ⟨hge, -⟩ := hi.window t ht
    rcases (hi.issued i hold).2 with hlo | ⟨u, hu, hph, rfl⟩
    · omega
    · obtain ⟨-, hwin⟩ := hi.window u hu
      refine ⟨fun heq => ?_, by omega⟩
      rw [iter_inj hu ht heq] at hph
      exact hph hidle

theorem inv_finish {t : Nat} (hi : Inv M N s) (h : Enabled M N s (.finish t)) :
    Inv M N (step M s (.finish t)) := by
  obtain ⟨ht, hwork⟩ := h
  constructor
  · exact hi.window
  · intro u hu hph
    by_cases hut : u = t
    · rw [hut]
      exact hi.begun t ht (by simp [hwork])
    · refine hi.begun u hu ?_
      simpa [step, Function.update_of_ne hut] using hph
  · intro i hmem
    obtain ⟨hN, hcase⟩ := hi.issued i hmem
    refine ⟨hN, hcase.imp id ?_⟩
    rintro ⟨u, hu, hph, rfl⟩
    exact ⟨u, hu, phase_finish_ne_idle hph, rfl⟩
  · exact hi.apart

theorem inv_order {t : Nat} (hi : Inv M N s) (h : Enabled M N s (.order t)) :
    Inv M N (step M s (.order t)) := by
  obtain ⟨ht, -, hnext⟩ := h
  have hnord : (step M s (.order t)).nordered = s.nordered + 1 := rfl
  constructor
  · intro u hu
    rw [hnord]
    by_cases hut : u = t
    · subst hut
      rw [iter_order_self]
      omega
    · have hne : s.iter M u ≠ s.iter M t := fun heq => hut (iter_inj hu ht heq)
      have := hi.window u hu
      rw [iter_order_ne hut]
      omega
  · intro u hu hph
    by_cases hut : u = t
    · simp [step, hut] at hph
    · rw [iter_order_ne hut]
      refine hi.begun u hu ?_
      simpa [step, Function.update_of_ne hut] using hph
  · intro i hmem
    obtain ⟨hN, hcase⟩ := hi.issued i hmem
    refine ⟨hN, ?_⟩
    rw [hnord]
    rcases hcase with hlo | ⟨u, hu, hph, rfl⟩
    · left; omega
    · by_cases hut : u = t
      · left
        rw [hut, hnext]
        exact Nat.lt_succ_self _
      · right
        refine ⟨u, hu, ?_, (iter_order_ne hut).symm⟩
        simpa [step, Function.update_of_ne hut] using hph
  · exact hi.apart

theorem inv_step (s : Team) (e : Event) (hi : Inv M N s) (h : Enabled M N s e) : Inv M N (step M s e) := by
  cases e with
  | start t => exact inv_start hi h
  | finish t => exact inv_finish hi h
  | order t => exact inv_order hi h

theorem Spread.inOrder {β : Type*} {touches : Nat → β → Nat → Prop} (h : Spread M N touches) :
    InOrder M N touches := by
  intro es hes
  have hi : Inv M N (Runs.run (step M) init es) := Runs.run_invariant inv_step inv_init hes
  generalize Runs.run (step M) init es = s at hi
  constructor
  · intro t u ht hu hne hwt hwu b p q hp hq
    have hN₁ := hi.begun t ht (by simp [hwt])
    have hN₂ := hi.begun u hu (by simp [hwu])
    have hw₁ := hi.window t ht
    have hw₂ := hi.window u hu
    rcases Nat.lt_trichotomy (s.iter M t) (s.iter M u) with hlt | heq | hgt
    · have := (h _ _ b p q hlt hN₂ hp hq).1
      omega
    · exact hne (iter_inj ht hu heq)
    · have := (h _ _ b q p hgt hN₁ hq hp).1
      omega
  · refine hi.apart.imp_of_mem ?_
    intro i j hmi hmj hij b p q hp hq
    rcases Nat.lt_trichotomy i j with hlt | heq | hgt
    · exact (h i j b p q hlt (hi.issued j hmj).1 hp hq).2
    · exact absurd heq hij.1
    · have := (h j i b q p hgt (hi.issued i hmi).1 hq hp).1
      omega

/-! Complete runs. -/

/-- Every iteration has been made, its ordered region included. -/
def Complete (M N : Nat) (es : List Event) : Prop :=
  Runs.Along (step M) (Enabled M N) init es ∧ (Runs.run (step M) init es).nordered = N

/-- The iterations in the order in which a run begins them. -/
def order (M : Nat) (es : List Event) : List Nat := (Runs.run (step M) init es).issued

/-- What is past its ordered region or under way has been begun. -/
structure Begun (M : Nat) (s : Team) : Prop where
  ordered : ∀ i < s.nordered, i ∈ s.issued
  busy : ∀ t < M, s.phase t ≠ .idle → s.iter M t ∈ s.issued

theorem begun_step (s : Team) (e : Event) (hb : Begun M s) (h : Enabled M N s e) : Begun M (step M s e) := by
  cases e with
  | start t =>
    refine ⟨fun i hi => List.mem_append_left _ (hb.ordered i hi), fun u hu hph => ?_⟩
    by_cases hut : u = t
    · subst hut
      exact List.mem_append_right _ (List.mem_singleton.mpr rfl)
    · refine List.mem_append_left _ (hb.busy u hu ?_)
      simpa [step, Function.update_of_ne hut] using hph
  | finish t =>
    refine ⟨hb.ordered, fun u hu hph => ?_⟩
    by_cases hut : u = t
    · subst hut
      exact hb.busy u hu (by simp [h.2])
    · refine hb.busy u hu ?_
      simpa [step, Function.update_of_ne hut] using hph
  | order t =>
    obtain ⟨ht, hwait, hnext⟩ := h
    constructor
    · intro i hi
      rcases Nat.lt_succ_iff_lt_or_eq.mp hi with hlt | heq
      · exact hb.ordered i hlt
      · rw [heq, ← hnext]
        exact hb.busy t ht (by simp [hwait])
    · intro u hu hph
      by_cases hut : u = t
      · simp [step, hut] at hph
      · rw [iter_order_ne hut]
        refine hb.busy u hu ?_
        simpa [step, Function.update_of_ne hut] using hph

/-- A complete run begins every iteration once. -/
theorem Complete.perm {es : List Event} (h : Complete M N es) : (order M es).Perm (List.range N) := by
  obtain ⟨halong, hall⟩ := h
  have hinit : Begun M init := ⟨fun i hi => absurd hi (Nat.not_lt_zero i), fun t _ hph => absurd rfl hph⟩
  have hb : Begun M (Runs.run (step M) init es) := Runs.run_invariant (begun_step (N := N)) hinit halong
  have hi : Inv M N (Runs.run (step M) init es) := Runs.run_invariant inv_step inv_init halong
  have hnd : (order M es).Nodup := hi.apart.imp fun hij => hij.1
  refine (List.perm_ext_iff_of_nodup hnd List.nodup_range).mpr fun i => ?_
  rw [List.mem_range]
  constructor
  · exact fun hmem => (hi.issued i hmem).1
  · intro hlt
    rw [← hall] at hlt
    exact hb.ordered i hlt

/-- Without a thread no iteration is made. -/
theorem Complete.pos {es : List Event} (h : Complete M N es) (hN : 0 < N) : 0 < M := by
  by_contra hM
  cases es with
  | nil => exact hN.ne h.2
  | cons e es =>
    have ht := h.1.1
    cases e <;> exact hM (Nat.zero_lt_of_lt ht.1)

end OrderedTeam
