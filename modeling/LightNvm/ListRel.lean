import Mathlib.Data.List.Forall2

/-! Relations between lists, element by element, and between optional values. -/

namespace ListRel

theorem optionRel_cases {α β : Type*} {R : α → β → Prop} {x : Option α} {y : Option β}
    (h : Option.Rel R x y) :
    (x = none ∧ y = none) ∨ ∃ a b, x = some a ∧ y = some b ∧ R a b := by
  cases h with
  | none => exact .inl ⟨rfl, rfl⟩
  | some hab => exact .inr ⟨_, _, rfl, rfl, hab⟩

theorem forall₂_getElem? {α β : Type*} {R : α → β → Prop} {as : List α} {bs : List β}
    (hr : List.Forall₂ R as bs) (i : Nat) : Option.Rel R as[i]? bs[i]? := by
  induction hr generalizing i with
  | nil => exact .none
  | cons hab _ ih =>
    cases i with
    | zero => exact .some hab
    | succ i => exact ih i

section

variable {α : Type*} {R : α → α → Prop} {as bs : List α}

theorem forall₂_modify {f : α → α} (hf : ∀ a b, R a b → R (f a) (f b)) (hr : List.Forall₂ R as bs)
    (i : Nat) :
    List.Forall₂ R (as.modify i f) (bs.modify i f) := by
  induction hr generalizing i with
  | nil => simp
  | cons hab htail ih =>
    cases i with
    | zero => exact .cons (hf _ _ hab) htail
    | succ i => exact .cons hab (ih i)

theorem forall₂_set {a b : α} (hab : R a b) (hr : List.Forall₂ R as bs) (i : Nat) :
    List.Forall₂ R (as.set i a) (bs.set i b) := by
  induction hr generalizing i with
  | nil => exact .nil
  | cons hcd htail ih =>
    cases i with
    | zero => exact .cons hab htail
    | succ i => exact .cons hcd (ih i)

end

theorem mapM_ok_iff {α β ε : Type} {f : α → Except ε β} {xs : List α} {ys : List β} :
    xs.mapM f = .ok ys ↔ List.Forall₂ (fun x y => f x = .ok y) xs ys := by
  induction xs generalizing ys with
  | nil =>
    rw [List.mapM_nil, List.forall₂_nil_left_iff]
    exact ⟨fun h => (Except.ok.inj h).symm, fun h => by rw [h]; rfl⟩
  | cons x xs ih =>
    rw [List.mapM_cons, List.forall₂_cons_left_iff]
    simp only [← ih]
    cases hx : f x with
    | error e => simp [bind, Except.bind]
    | ok y =>
      cases hxs : xs.mapM f with
      | error e => simp [bind, Except.bind]
      | ok zs => simp [bind, Except.bind, pure, Except.pure, eq_comm]

theorem exists_forall₂_iff {α β : Type} {R S : α → β → Prop} {xs : List α} :
    (∃ ys, List.Forall₂ R xs ys ∧ List.Forall₂ S xs ys) ↔ ∀ x ∈ xs, ∃ y, R x y ∧ S x y := by
  induction xs with
  | nil => simp
  | cons x xs ih =>
    rw [List.forall_mem_cons, ← ih]
    constructor
    · rintro ⟨ys, hr, hs⟩
      obtain ⟨y, ys, hy, hys, rfl⟩ := List.forall₂_cons_left_iff.mp hr
      obtain ⟨hy', hys'⟩ := List.forall₂_cons.mp hs
      exact ⟨⟨y, hy, hy'⟩, ys, hys, hys'⟩
    · rintro ⟨⟨y, hy, hy'⟩, ys, hys, hys'⟩
      exact ⟨y :: ys, .cons hy hys, .cons hy' hys'⟩

end ListRel
