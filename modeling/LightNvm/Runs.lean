import Mathlib.Data.List.Basic

/-! Runs of a deterministic system, and properties that hold at every step of a
run. A step property may speak about the state before the step and its label. -/

namespace Runs

variable {σ ι : Type*} {step : σ → ι → σ}

def run (step : σ → ι → σ) (s : σ) (ops : List ι) : σ := ops.foldl step s

/-- `P` holds of every state in which a step of the run is taken. -/
def Along (step : σ → ι → σ) (P : σ → ι → Prop) : σ → List ι → Prop
  | _, [] => True
  | s, op :: ops => P s op ∧ Along step P (step s op) ops

instance decidableAlong {P : σ → ι → Prop} [∀ s op, Decidable (P s op)] :
    (s : σ) → (ops : List ι) → Decidable (Along step P s ops)
  | _, [] => .isTrue trivial
  | s, op :: ops =>
    have := decidableAlong (P := P) (step s op) ops
    inferInstanceAs (Decidable (P s op ∧ Along step P (step s op) ops))

@[simp] theorem run_nil (s : σ) : run step s [] = s := rfl

@[simp] theorem run_cons (s : σ) (op : ι) (ops : List ι) :
    run step s (op :: ops) = run step (step s op) ops := rfl

@[simp] theorem run_append (s : σ) (ops more : List ι) :
    run step s (ops ++ more) = run step (run step s ops) more :=
  List.foldl_append

@[simp] theorem along_nil (P : σ → ι → Prop) (s : σ) : Along step P s [] := trivial

@[simp] theorem along_cons {P : σ → ι → Prop} {s : σ} {op : ι} {ops : List ι} :
    Along step P s (op :: ops) ↔ P s op ∧ Along step P (step s op) ops := Iff.rfl

theorem along_append {P : σ → ι → Prop} {s : σ} {ops more : List ι} :
    Along step P s (ops ++ more) ↔ Along step P s ops ∧ Along step P (run step s ops) more := by
  induction ops generalizing s with
  | nil => simp
  | cons op ops ih => simp [ih, and_assoc]

theorem along_of_forall {P : ι → Prop} {ops : List ι} (h : ∀ op ∈ ops, P op) (s : σ) :
    Along step (fun _ => P) s ops := by
  induction ops generalizing s with
  | nil => trivial
  | cons op ops ih => exact ⟨h op (by simp), ih (fun o ho => h o (by simp [ho])) _⟩

theorem run_invariant {I : σ → Prop} {P : σ → ι → Prop}
    (hstep : ∀ s op, I s → P s op → I (step s op)) {s : σ} {ops : List ι}
    (hi : I s) (h : Along step P s ops) : I (run step s ops) := by
  induction ops generalizing s with
  | nil => exact hi
  | cons op ops ih => exact ih (hstep s op hi h.1) h.2

theorem Along.imp {I : σ → Prop} {P Q : σ → ι → Prop} {ops : List ι} {s : σ}
    (h : Along step P s ops) (hstep : ∀ s, ∀ op ∈ ops, I s → P s op → I (step s op))
    (hpq : ∀ s, ∀ op ∈ ops, I s → P s op → Q s op) (hi : I s) : Along step Q s ops := by
  induction ops generalizing s with
  | nil => trivial
  | cons op ops ih =>
    refine ⟨hpq s op (by simp) hi h.1, ih h.2 ?_ ?_ (hstep s op (by simp) hi h.1)⟩
    · exact fun s o ho => hstep s o (by simp [ho])
    · exact fun s o ho => hpq s o (by simp [ho])

theorem Along.mono {P Q : σ → ι → Prop} {ops : List ι} {s : σ} (h : Along step P s ops)
    (hpq : ∀ s op, P s op → Q s op) : Along step Q s ops :=
  h.imp (I := fun _ => True) (fun _ _ _ _ _ => trivial) (fun s op _ _ => hpq s op) trivial

theorem run_simulates {τ : Type*} {astep : τ → ι → τ} (part : σ → τ) {s : σ} {ops : List ι}
    (h : Along step (fun s op => part (step s op) = astep (part s) op) s ops) :
    part (run step s ops) = run astep (part s) ops := by
  induction ops generalizing s with
  | nil => rfl
  | cons op ops ih => rw [run_cons, run_cons, ih h.2, h.1]

/-- Two runs of related steps keep a relation between their states. -/
theorem run_relates {τ : Type*} {astep : τ → ι → τ} {R : σ → τ → Prop} {ops : List ι}
    (hstep : ∀ op ∈ ops, ∀ s t, R s t → R (step s op) (astep t op)) {s : σ} {t : τ} (h : R s t) :
    R (run step s ops) (run astep t ops) := by
  induction ops generalizing s t with
  | nil => exact h
  | cons op ops ih =>
    exact ih (fun o ho => hstep o (by simp [ho])) (hstep op (by simp) s t h)

/-- The same for steps that are taken under a condition. -/
theorem Along.relates {τ : Type*} {astep : τ → ι → τ} {R : σ → τ → Prop} {P : σ → ι → Prop} {ops : List ι}
    (hstep : ∀ s t op, R s t → P s op → R (step s op) (astep t op)) {s : σ} {t : τ} (hr : R s t)
    (h : Along step P s ops) : R (run step s ops) (run astep t ops) := by
  induction ops generalizing s t with
  | nil => exact hr
  | cons op ops ih => exact ih (hstep s t op hr h.1) h.2

/-- Each step of a run is answered by one of another system. -/
theorem run_simulated {τ κ : Type*} {astep : τ → κ → τ} {R : σ → τ → Prop} {A : ι → κ → Prop}
    (hstep : ∀ s t op, R s t → ∃ o, A op o ∧ R (step s op) (astep t o)) {s : σ} {t : τ} (h : R s t)
    (ops : List ι) : ∃ os, List.Forall₂ A ops os ∧ R (run step s ops) (run astep t os) := by
  induction ops generalizing s t with
  | nil => exact ⟨[], .nil, h⟩
  | cons op ops ih =>
    obtain ⟨o, ho, hnext⟩ := hstep s t op h
    obtain ⟨os, hos, hrun⟩ := ih hnext
    exact ⟨o :: os, .cons ho hos, hrun⟩

theorem Along.and {P Q : σ → ι → Prop} {s : σ} {ops : List ι} (hp : Along step P s ops)
    (hq : Along step Q s ops) : Along step (fun s op => P s op ∧ Q s op) s ops := by
  induction ops generalizing s with
  | nil => trivial
  | cons op ops ih => exact ⟨⟨hp.1, hq.1⟩, ih hp.2 hq.2⟩

theorem along_iff_of_invariant {I : σ → Prop} {P Q : σ → ι → Prop}
    (hstep : ∀ s op, I s → P s op → I (step s op)) (hiff : ∀ s op, I s → (Q s op ↔ P s op))
    {s : σ} {ops : List ι} (hi : I s) : Along step Q s ops ↔ Along step P s ops := by
  constructor
  · intro h
    exact h.imp (fun s op _ hs hq => hstep s op hs ((hiff s op hs).mp hq))
      (fun s op _ hs => (hiff s op hs).mp) hi
  · intro h
    exact h.imp (fun s op _ => hstep s op) (fun s op _ hs => (hiff s op hs).mpr) hi

theorem along_of_prefixes {P : σ → ι → Prop} {s : σ} {ops : List ι}
    (h : ∀ pre op post, ops = pre ++ op :: post → P (run step s pre) op) : Along step P s ops := by
  induction ops generalizing s with
  | nil => trivial
  | cons op ops ih =>
    refine ⟨h [] op ops rfl, ih fun pre o post ho => ?_⟩
    exact h (op :: pre) o post (by simp [ho])

theorem invariant_iff_along {I : σ → Prop} {P : σ → ι → Prop}
    (hstep : ∀ s op, I s → (I (step s op) ↔ P s op)) {s : σ} {ops : List ι} :
    (∀ pre, pre <+: ops → I (run step s pre)) ↔ I s ∧ Along step P s ops := by
  induction ops generalizing s with
  | nil =>
    constructor
    · exact fun h => ⟨h [] (List.prefix_refl _), trivial⟩
    · intro h pre hpre
      rw [List.prefix_nil.mp hpre]
      exact h.1
  | cons op ops ih =>
    constructor
    · intro h
      have hs : I s := h [] List.nil_prefix
      have hrest := ih.mp fun pre hpre => h (op :: pre) ((List.prefix_cons_inj op).mpr hpre)
      exact ⟨hs, (hstep s op hs).mp hrest.1, hrest.2⟩
    · rintro ⟨hs, hop, hrest⟩ pre hpre
      cases pre with
      | nil => exact hs
      | cons o pre =>
        obtain ⟨rfl, htail⟩ := List.cons_prefix_cons.mp hpre
        exact ih.mpr ⟨(hstep s o hs).mpr hop, hrest⟩ pre htail

theorem invariant_iff_along_under {J I : σ → Prop} {P : σ → ι → Prop}
    (hkeep : ∀ s op, J s → J (step s op)) (hstep : ∀ s op, J s → I s → (I (step s op) ↔ P s op))
    {s : σ} {ops : List ι} (hj : J s) :
    (∀ pre, pre <+: ops → I (run step s pre)) ↔ I s ∧ Along step P s ops := by
  have hall : ∀ pre, J (run step s pre) := fun pre =>
    run_invariant (P := fun _ _ => True) (fun s op hs _ => hkeep s op hs) hj
      (along_of_forall (fun _ _ => trivial) s)
  have hboth : ∀ s op, J s ∧ I s → (J (step s op) ∧ I (step s op) ↔ P s op) := by
    intro s op hs
    rw [← hstep s op hs.1 hs.2]
    exact and_iff_right (hkeep s op hs.1)
  have hiff : (∀ pre, pre <+: ops → J (run step s pre) ∧ I (run step s pre)) ↔
      (J s ∧ I s) ∧ Along step P s ops := invariant_iff_along (I := fun s => J s ∧ I s) hboth
  constructor
  · intro h
    obtain ⟨hi, halong⟩ := hiff.mp fun pre hpre => ⟨hall pre, h pre hpre⟩
    exact ⟨hi.2, halong⟩
  · rintro ⟨hi, halong⟩ pre hpre
    exact (hiff.mpr ⟨⟨hj, hi⟩, halong⟩ pre hpre).2

end Runs
