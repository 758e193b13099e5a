import LightNvm.Runs
import Mathlib.Algebra.BigOperators.Group.Finset.Piecewise
import Mathlib.Algebra.BigOperators.Group.List.Basic
import Mathlib.Algebra.Order.Group.Multiset
import Mathlib.Data.List.ReduceOption
import Mathlib.Data.Multiset.MapFold

/-! Memory as a program owns it: the blocks that are live, each with the allocator it came from, and
programs that fault when they give back a block which is not. A triple names the blocks that a program
starts with and those it ends with; the rest of the memory is none of its business. -/

namespace Blocks

structure Block (κ : Type) where
  id : Nat
  kind : κ
  deriving DecidableEq

/-- No two live blocks are one, and a block that is handed out next is none of them. The allocators answer
the `n`-th request with a block when `grants n` holds. -/
structure Heap (κ : Type) where
  live : Multiset (Block κ)
  next : Nat
  grants : Nat → Bool
  nodup : (live.map Block.id).Nodup
  lt : ∀ b ∈ live, b.id < next

/-! What the allocators do to the heap. -/

section

variable {κ : Type}

def Heap.empty (grants : Nat → Bool) : Heap κ where
  live := 0
  next := 0
  grants := grants
  nodup := Multiset.nodup_zero
  lt _ hb := absurd hb (Multiset.notMem_zero _)

def Heap.refuse (h : Heap κ) : Heap κ :=
  { h with next := h.next + 1, lt := fun b hb => (h.lt b hb).trans (Nat.lt_succ_self _) }

theorem Heap.nodup_cons (h : Heap κ) (k : κ) : ((Block.mk h.next k ::ₘ h.live).map Block.id).Nodup := by
  rw [Multiset.map_cons, Multiset.nodup_cons]
  refine ⟨fun hmem => ?_, h.nodup⟩
  obtain ⟨b, hb, hid⟩ := Multiset.mem_map.mp hmem
  have hlt := h.lt b hb
  dsimp only at hid
  omega

def Heap.take (h : Heap κ) (k : κ) : Heap κ where
  live := ⟨h.next, k⟩ ::ₘ h.live
  next := h.next + 1
  grants := h.grants
  nodup := h.nodup_cons k
  lt := Multiset.forall_mem_cons.mpr ⟨Nat.lt_succ_self _, h.refuse.lt⟩

@[simp] theorem Heap.refuse_live (h : Heap κ) : h.refuse.live = h.live := rfl

@[simp] theorem Heap.take_live (h : Heap κ) (k : κ) : (h.take k).live = ⟨h.next, k⟩ ::ₘ h.live := rfl

def Heap.give [DecidableEq κ] (h : Heap κ) (b : Block κ) : Heap κ where
  live := h.live.erase b
  next := h.next
  grants := h.grants
  nodup := Multiset.nodup_of_le (Multiset.map_le_map (Multiset.erase_le b h.live)) h.nodup
  lt c hc := h.lt c (Multiset.mem_of_mem_erase hc)

@[simp] theorem Heap.give_live [DecidableEq κ] (h : Heap κ) (b : Block κ) :
    (h.give b).live = h.live.erase b := rfl

end

/-- A program that has faulted has no outcome. -/
abbrev Prog (κ : Type) := StateT (Heap κ) Option

section

variable {κ : Type}

/-- What a pointer to a block of the allocator `k` owns. -/
def held (k : κ) (p : Option Nat) : Multiset (Block κ) := ↑(p.map fun a => Block.mk a k).toList

@[simp] theorem held_none (k : κ) : held k none = 0 := rfl

@[simp] theorem held_some (k : κ) (a : Nat) : held k (some a) = {⟨a, k⟩} := rfl

def alloc (k : κ) : Prog κ (Option Nat) := fun h =>
  if h.grants h.next then some (some h.next, h.take k) else some (none, h.refuse)

variable [DecidableEq κ]

/-- A null pointer may be given back at any time. -/
def free (k : κ) : Option Nat → Prog κ Unit
  | none => pure ()
  | some a => fun h => if ⟨a, k⟩ ∈ h.live then some ((), h.give ⟨a, k⟩) else none

/-- The block is moved to a larger one, or left where it is when there is none. -/
def realloc (k : κ) (p : Option Nat) : Prog κ (Option Nat) := do
  match ← alloc k with
  | none => pure none
  | some a =>
    free k p
    pure (some a)

/-- Following a pointer. -/
def deref : Option Nat → Prog κ Nat
  | none => fun _ => none
  | some a => fun h => if a ∈ h.live.map Block.id then some (a, h) else none

end

/-- From the heap `h` the program comes to an end, in a heap and with a result that `post` allows. -/
def Ends {κ α : Type} (m : Prog κ α) (h : Heap κ) (post : α → Heap κ → Prop) : Prop :=
  ∃ a h', m h = some (a, h') ∧ post a h'

/-- From the blocks `pre` the program comes, whatever else is live, to some blocks that `post` allows. -/
def Triple {κ α : Type} (pre : Multiset (Block κ)) (m : Prog κ α)
    (post : α → Multiset (Block κ) → Prop) : Prop :=
  ∀ (h : Heap κ) (frame : Multiset (Block κ)), h.live = pre + frame →
    Ends m h fun a h' => ∃ bs, post a bs ∧ h'.live = bs + frame

/-- From the blocks `pre` the program faults, whatever else is live. -/
def Faults {κ α : Type} (pre : Multiset (Block κ)) (m : Prog κ α) : Prop :=
  ∀ (h : Heap κ) (frame : Multiset (Block κ)), h.live = pre + frame → m h = none

section

variable {κ α β : Type} {m : Prog κ α} {h : Heap κ}

theorem bind_run (m : Prog κ α) (f : α → Prog κ β) (h : Heap κ) :
    (m >>= f) h = (m h).bind fun r => f r.1 r.2 := rfl

theorem bind_eq_none (hm : m h = none) (f : α → Prog κ β) : (m >>= f) h = none := by
  rw [bind_run, hm]
  rfl

theorem bind_eq {a : α} {h' : Heap κ} (hm : m h = some (a, h')) (f : α → Prog κ β) : (m >>= f) h = f a h' := by
  rw [bind_run, hm]
  rfl

theorem bind_eq_some {f : α → Prog κ β} {r : β × Heap κ} :
    (m >>= f) h = some r ↔ ∃ a h', m h = some (a, h') ∧ f a h' = some r := by
  rw [bind_run, Option.bind_eq_some_iff, Prod.exists]

/-- What follows a program and always ends does not decide whether the two do. -/
theorem bind_ends_iff {f : α → Prog κ β} (hf : ∀ a h', m h = some (a, h') → ∃ r, f a h' = some r) :
    (∃ r, (m >>= f) h = some r) ↔ ∃ r, m h = some r := by
  constructor
  · rintro ⟨r, hr⟩
    obtain ⟨a, h', hm, -⟩ := bind_eq_some.mp hr
    exact ⟨_, hm⟩
  · rintro ⟨⟨a, h'⟩, hm⟩
    rw [bind_eq hm]
    exact hf a h' hm

theorem Ends.pure {a : α} {post : α → Heap κ → Prop} (hpost : post a h) : Ends (pure a) h post :=
  ⟨a, h, rfl, hpost⟩

theorem Ends.bind {f : α → Prog κ β} {Q : α → Heap κ → Prop} {post : β → Heap κ → Prop} (hm : Ends m h Q)
    (hf : ∀ a h', Q a h' → Ends (f a) h' post) : Ends (m >>= f) h post := by
  obtain ⟨a, h', hrun, hmid⟩ := hm
  obtain ⟨b, h'', hrun', hpost⟩ := hf a h' hmid
  exact ⟨b, h'', (bind_eq hrun f).trans hrun', hpost⟩

theorem Ends.mono {post post' : α → Heap κ → Prop} (hm : Ends m h post)
    (hpost : ∀ a h', post a h' → post' a h') : Ends m h post' := by
  obtain ⟨a, h', hrun, hp⟩ := hm
  exact ⟨a, h', hrun, hpost a h' hp⟩

/-- What the allocators answer to the `a`-th request. -/
def Heap.answer (h : Heap κ) (a : Nat) : Option Nat := if h.grants a then some a else none

theorem ends_alloc_answer (k : κ) (h : Heap κ) : Ends (alloc k) h fun p h' =>
    p = h.answer h.next ∧ h'.grants = h.grants ∧ h'.next = h.next + 1 ∧ h'.live = held k p + h.live := by
  rw [Ends, alloc, Heap.answer]
  split_ifs
  · exact ⟨_, _, rfl, rfl, rfl, rfl, rfl⟩
  · exact ⟨_, _, rfl, rfl, rfl, rfl, (zero_add _).symm⟩

theorem Heap.isSome_answer (h : Heap κ) (a : Nat) : (h.answer a).isSome = h.grants a := by
  rw [Heap.answer]
  split_ifs with hg <;> simp [hg]

theorem ends_alloc (k : κ) (h : Heap κ) : Ends (alloc k) h fun p h' =>
    p.isSome = h.grants h.next ∧ h'.grants = h.grants ∧ h'.next = h.next + 1 ∧ h'.live = held k p + h.live := by
  refine (ends_alloc_answer k h).mono fun p h' hp => ?_
  exact ⟨hp.1 ▸ h.isSome_answer h.next, hp.2⟩

theorem ends_free [DecidableEq κ] {k : κ} {p : Option Nat} {rest : Multiset (Block κ)}
    (hlive : h.live = held k p + rest) : Ends (free k p) h fun _ h' =>
      h'.grants = h.grants ∧ h'.next = h.next ∧ h'.live = rest := by
  cases p with
  | none => exact Ends.pure ⟨rfl, rfl, by rw [hlive, held_none, zero_add]⟩
  | some a =>
    have hcons : h.live = ⟨a, k⟩ ::ₘ rest := by rw [hlive, held_some, Multiset.singleton_add]
    have hmem : Block.mk a k ∈ h.live := hcons ▸ Multiset.mem_cons_self _ _
    refine ⟨(), _, if_pos hmem, rfl, rfl, ?_⟩
    rw [Heap.give_live, hcons, Multiset.erase_cons_head]

end

section

variable {κ α β : Type} {pre : Multiset (Block κ)} {m : Prog κ α} {post : α → Multiset (Block κ) → Prop}

theorem Triple.pure {a : α} (h : post a pre) : Triple pre (pure a) post :=
  fun _ _ hlive => Ends.pure ⟨pre, h, hlive⟩

theorem Triple.bind {f : α → Prog κ β} {mid : α → Multiset (Block κ) → Prop}
    {post : β → Multiset (Block κ) → Prop} (hm : Triple pre m mid)
    (hf : ∀ a bs, mid a bs → Triple bs (f a) post) : Triple pre (m >>= f) post := by
  intro h frame hlive
  refine (hm h frame hlive).bind fun a h' hmid => ?_
  obtain ⟨bs, hbs, hlive'⟩ := hmid
  exact hf a bs hbs h' frame hlive'

theorem Triple.mono (hm : Triple pre m post) {post' : α → Multiset (Block κ) → Prop}
    (hpost : ∀ a bs, post a bs → post' a bs) : Triple pre m post' := by
  intro h frame hlive
  refine (hm h frame hlive).mono fun a h' hbs => ?_
  obtain ⟨bs, hbs, hlive'⟩ := hbs
  exact ⟨bs, hpost a bs hbs, hlive'⟩

/-- What a program does not name it leaves alone. -/
theorem Triple.frame (hm : Triple pre m post) (rest : Multiset (Block κ)) :
    Triple (pre + rest) m fun a bs => ∃ own, post a own ∧ bs = own + rest := by
  intro h frame hlive
  refine (hm h (rest + frame) (by rw [hlive, add_assoc])).mono fun a h' hbs => ?_
  obtain ⟨bs, hbs, hlive'⟩ := hbs
  exact ⟨bs + rest, ⟨bs, hbs, rfl⟩, by rw [hlive', add_assoc]⟩

theorem triple_alloc (k : κ) (pre : Multiset (Block κ)) :
    Triple pre (alloc k) fun p bs => bs = held k p + pre := by
  intro h frame hlive
  refine (ends_alloc k h).mono fun p h' hp => ?_
  exact ⟨_, rfl, by rw [hp.2.2.2, hlive, add_assoc]⟩

theorem deref_eq {k : κ} {a : Nat} {h : Heap κ} (hmem : ⟨a, k⟩ ∈ h.live) : deref (some a) h = some (a, h) := by
  have hid : a ∈ h.live.map Block.id := Multiset.mem_map.mpr ⟨⟨a, k⟩, hmem, rfl⟩
  exact if_pos hid

theorem triple_deref {k : κ} {a : Nat} (hmem : ⟨a, k⟩ ∈ pre) :
    Triple pre (deref (some a)) fun b bs => b = a ∧ bs = pre := by
  intro h frame hlive
  have hin : ⟨a, k⟩ ∈ h.live := hlive ▸ Multiset.mem_add.mpr (Or.inl hmem)
  exact ⟨a, h, deref_eq hin, pre, ⟨rfl, rfl⟩, hlive⟩

/-- A pointer to a block that is gone. -/
theorem deref_eq_none {k : κ} {a : Nat} {rest : Multiset (Block κ)} {h h' : Heap κ}
    (hlive : h.live = held k (some a) + rest) (hle : h'.live ≤ rest) : deref (some a) h' = none := by
  have hnodup := h.nodup
  rw [hlive, held_some, Multiset.singleton_add, Multiset.map_cons, Multiset.nodup_cons] at hnodup
  exact if_neg fun hin => hnodup.1 (Multiset.mem_of_le (Multiset.map_le_map hle) hin)

theorem faults_deref : Faults pre (deref (κ := κ) none) := fun _ _ _ => rfl

variable [DecidableEq κ]

theorem triple_free {k : κ} {p : Option Nat} {rest : Multiset (Block κ)} (hpre : pre = held k p + rest) :
    Triple pre (free k p) fun _ bs => bs = rest := by
  intro h frame hlive
  have hheld : h.live = held k p + (rest + frame) := by rw [hlive, hpre, add_assoc]
  refine (ends_free hheld).mono fun _ h' hh => ?_
  exact ⟨rest, rfl, hh.2.2⟩

theorem triple_realloc {k : κ} {p : Option Nat} {rest : Multiset (Block κ)} (hpre : pre = held k p + rest) :
    Triple pre (realloc k p) fun q bs => bs = if q = none then held k p + rest else held k q + rest := by
  refine (triple_alloc k pre).bind fun q bs hbs => ?_
  cases q with
  | none => exact Triple.pure (by rw [hbs, held_none, zero_add, if_pos rfl, hpre])
  | some a =>
    have hmoved : bs = held k p + (held k (some a) + rest) := by
      rw [hbs, hpre]
      exact add_left_comm _ _ _
    refine (triple_free hmoved).bind fun _ cs hcs => ?_
    exact Triple.pure (by rw [hcs, if_neg (Option.some_ne_none a)])

/-- A block given back to another allocator than its own. -/
theorem free_eq_none {k k' : κ} {a : Nat} {h : Heap κ} (hmem : ⟨a, k'⟩ ∈ h.live) (hne : k ≠ k') :
    free k (some a) h = none := by
  refine if_neg fun hin => hne ?_
  have heq := Multiset.inj_on_of_nodup_map h.nodup _ hin _ hmem rfl
  exact congrArg Block.kind heq

theorem faults_free {k k' : κ} {a : Nat} (hmem : ⟨a, k'⟩ ∈ pre) (hne : k ≠ k') :
    Faults pre (free k (some a)) := by
  intro h frame hlive
  exact free_eq_none (hlive ▸ Multiset.mem_add.mpr (Or.inl hmem)) hne

end

section

variable {κ α β : Type} {pre : Multiset (Block κ)} {m : Prog κ α}

theorem Faults.bind (hm : Faults pre m) (f : α → Prog κ β) : Faults pre (m >>= f) := by
  intro h frame hlive
  exact bind_eq_none (hm h frame hlive) f

theorem Triple.bind_faults {mid : α → Multiset (Block κ) → Prop} (hm : Triple pre m mid) {f : α → Prog κ β}
    (hf : ∀ a bs, mid a bs → Faults bs (f a)) : Faults pre (m >>= f) := by
  intro h frame hlive
  obtain ⟨a, h', hrun, bs, hmid, hlive'⟩ := hm h frame hlive
  rw [bind_eq hrun]
  exact hf a bs hmid h' frame hlive'

/-- What a list of objects owns is what one of them owns and what the others do. -/
theorem sum_eraseIdx {xs : List α} {i : Nat} {x : α} (own : α → Multiset (Block κ)) (h : xs[i]? = some x) :
    (xs.map own).sum = own x + ((xs.eraseIdx i).map own).sum := by
  obtain ⟨hi, rfl⟩ := List.getElem?_eq_some_iff.mp h
  rw [← ((List.getElem_cons_eraseIdx_perm hi).map own).sum_eq, List.map_cons, List.sum_cons]

/-- What a table of `n` pointers owns. -/
def table (k : κ) (n : Nat) (ptrs : Nat → Option Nat) : Multiset (Block κ) :=
  ∑ i ∈ Finset.range n, held k (ptrs i)

theorem table_none (k : κ) (n : Nat) : table k n (fun _ => none) = 0 :=
  Finset.sum_eq_zero fun _ _ => held_none k

theorem table_update (k : κ) {n i : Nat} (hi : i < n) (ptrs : Nat → Option Nat) (p : Option Nat) :
    table k n (Function.update ptrs i p) = held k p + table k n (Function.update ptrs i none) := by
  have hmem : i ∈ Finset.range n := Finset.mem_range.mpr hi
  have hheld : ∀ q, (fun j => held k (Function.update ptrs i q j)) =
      Function.update (fun j => held k (ptrs j)) i (held k q) := by
    intro q
    funext j
    exact Function.apply_update (fun _ => held k) ptrs i q j
  simp only [table, hheld, Finset.sum_update_of_mem hmem, held_none, zero_add]

theorem table_eq (k : κ) {n i : Nat} (hi : i < n) (ptrs : Nat → Option Nat) :
    table k n ptrs = held k (ptrs i) + table k n (Function.update ptrs i none) := by
  rw [← table_update k hi, Function.update_eq_self]

/-! Lists of pointers. -/

def heldAll (k : κ) (ps : List (Option Nat)) : Multiset (Block κ) := (ps.map (held k)).sum

theorem heldAll_cons (k : κ) (p : Option Nat) (ps : List (Option Nat)) :
    heldAll k (p :: ps) = held k p + heldAll k ps := rfl

theorem heldAll_eq (k : κ) (ps : List (Option Nat)) :
    heldAll k ps = (ps.reduceOption : Multiset Nat).map fun a => Block.mk a k := by
  induction ps with
  | nil => rfl
  | cons p ps ih =>
    rw [heldAll_cons, ih]
    cases p with
    | none => exact zero_add _
    | some a => rfl

variable [DecidableEq κ]

/-- The pointers are given back one after the other. -/
def freeAll (k : κ) : List (Option Nat) → Prog κ Unit
  | [] => pure ()
  | p :: ps => do
    free k p
    freeAll k ps

theorem triple_freeAll {k : κ} {ps : List (Option Nat)} {rest : Multiset (Block κ)}
    (hpre : pre = heldAll k ps + rest) : Triple pre (freeAll k ps) fun _ bs => bs = rest := by
  induction ps generalizing pre with
  | nil => exact Triple.pure (hpre.trans (zero_add rest))
  | cons p ps ih =>
    rw [heldAll_cons, add_assoc] at hpre
    exact (triple_free hpre).bind fun _ _ hbs => ih hbs

theorem live_of_free {k : κ} {p : Option Nat} {h h' : Heap κ} {u : Unit} (hrun : free k p h = some (u, h')) :
    h.live = held k p + h'.live := by
  cases p with
  | none =>
    cases hrun
    exact (zero_add _).symm
  | some a =>
    simp only [free] at hrun
    split_ifs at hrun with hmem
    cases hrun
    rw [Heap.give_live, held_some, Multiset.singleton_add, Multiset.cons_erase hmem]

theorem heldAll_le_of_freeAll {k : κ} {ps : List (Option Nat)} {h : Heap κ} {r : Unit × Heap κ}
    (hrun : freeAll k ps h = some r) : heldAll k ps ≤ h.live := by
  induction ps generalizing h with
  | nil => exact Multiset.zero_le _
  | cons p ps ih =>
    obtain ⟨u, h', hfree, hrest⟩ := bind_eq_some.mp hrun
    rw [live_of_free hfree, heldAll_cons]
    exact add_le_add_right (ih hrest) _

/-- Blocks that are all live are given back without a fault when no pointer is there twice. -/
theorem nodup_of_freeAll {k : κ} {ps : List (Option Nat)} {h : Heap κ} {r : Unit × Heap κ}
    (hrun : freeAll k ps h = some r) : ps.reduceOption.Nodup := by
  have hle := heldAll_le_of_freeAll hrun
  rw [heldAll_eq] at hle
  have hnodup := Multiset.nodup_of_le hle (Multiset.Nodup.of_map _ h.nodup)
  exact Multiset.coe_nodup.mp (Multiset.Nodup.of_map _ hnodup)

omit [DecidableEq κ]

/-! Loops and runs: a step that keeps an invariant of the state and the blocks. -/

variable {σ ι : Type}

theorem Triple.foldlM {step : σ → ι → Prog κ σ} {I : σ → Multiset (Block κ) → Prop} {ops : List ι}
    (hstep : ∀ s bs, ∀ op ∈ ops, I s bs → Triple bs (step s op) I) {s : σ} {bs : Multiset (Block κ)}
    (h : I s bs) : Triple bs (ops.foldlM step s) I := by
  induction ops generalizing s bs with
  | nil => exact Triple.pure h
  | cons op ops ih =>
    rw [List.foldlM_cons]
    refine (hstep s bs op (by simp) h).bind fun t cs hcs => ?_
    exact ih (fun s bs o ho => hstep s bs o (by simp [ho])) hcs

/-- A run ends when no step of it faults. -/
theorem foldlM_ends_iff {step : σ → ι → Prog κ σ} {ops : List ι} {s : σ} {h : Heap κ} :
    (∃ r, ops.foldlM step s h = some r) ↔ ∀ pre op post, ops = pre ++ op :: post →
      ∀ t h', pre.foldlM step s h = some (t, h') → ∃ r, step t op h' = some r := by
  induction ops generalizing s h with
  | nil => exact iff_of_true ⟨_, rfl⟩ fun pre op post heq => absurd heq (by simp)
  | cons op ops ih =>
    rw [List.foldlM_cons, bind_run]
    constructor
    · rintro ⟨r, hr⟩ pre o post heq t h' hpre
      obtain ⟨⟨s₁, h₁⟩, hstep, hrest⟩ := Option.bind_eq_some_iff.mp hr
      cases pre with
      | nil =>
        obtain ⟨rfl, rfl⟩ := List.cons.inj heq
        cases hpre
        exact ⟨_, hstep⟩
      | cons o' pre =>
        obtain ⟨rfl, htail⟩ := List.cons.inj heq
        rw [List.foldlM_cons, bind_run, hstep] at hpre
        exact ih.mp ⟨r, hrest⟩ pre o post htail t h' hpre
    · intro hall
      obtain ⟨⟨s₁, h₁⟩, hstep⟩ := hall [] op ops rfl s h rfl
      rw [hstep]
      refine ih.mpr fun pre o post heq t h' hpre => ?_
      refine hall (op :: pre) o post (by rw [heq, List.cons_append]) t h' ?_
      rw [List.foldlM_cons, bind_run, hstep]
      exact hpre

/-- Where a step faults exactly on the operations that are `bad` then, a run ends when it meets none of them,
and in a heap that satisfies the invariant. -/
theorem foldlM_ends_of {step : σ → ι → Prog κ σ} {I : σ → Heap κ → Prop} (bad : σ → Heap κ → ι → Prop)
    (hgood : ∀ s h op, I s h → ¬ bad s h op → Ends (step s op) h I)
    (hbad : ∀ s h op, I s h → bad s h op → step s op h = none) (ops : List ι) {s : σ} {h : Heap κ} (hI : I s h) :
    ((∃ r, ops.foldlM step s h = some r) ↔ ∀ pre op post, ops = pre ++ op :: post →
      ∀ t h', pre.foldlM step s h = some (t, h') → ¬ bad t h' op) ∧
    ∀ t h', ops.foldlM step s h = some (t, h') → I t h' := by
  have hreach : ∀ (ops : List ι) (s t : σ) (h₁ h₂ : Heap κ), I s h₁ →
      ops.foldlM step s h₁ = some (t, h₂) → I t h₂ := by
    intro ops
    induction ops with
    | nil =>
      intro s t h₁ h₂ hs hrun
      cases hrun
      exact hs
    | cons op ops ih =>
      intro s t h₁ h₂ hs hrun
      rw [List.foldlM_cons, bind_run] at hrun
      obtain ⟨⟨s₃, h₃⟩, hstep, hrest⟩ := Option.bind_eq_some_iff.mp hrun
      refine ih s₃ t h₃ h₂ ?_ hrest
      obtain ⟨s₄, h₄, hrun₄, hI₄⟩ := hgood s h₁ op hs fun hop => by
        rw [hbad s h₁ op hs hop] at hstep
        cases hstep
      rw [hrun₄] at hstep
      cases hstep
      exact hI₄
  refine ⟨foldlM_ends_iff.trans ?_, fun t h' hrun => hreach ops s t h h' hI hrun⟩
  refine forall_congr' fun pre => forall_congr' fun op => forall_congr' fun post => forall_congr' fun _ =>
    forall_congr' fun t => forall_congr' fun h' => forall_congr' fun hrun => ?_
  have ht := hreach pre s t h h' hI hrun
  constructor
  · rintro ⟨r, hr⟩ hop
    rw [hbad t h' op ht hop] at hr
    cases hr
  · intro hop
    obtain ⟨t', h'', hrun', -⟩ := hgood t h' op ht hop
    exact ⟨_, hrun'⟩

/-- A step that leaves the memory alone and has a next state exactly when `P` holds. -/
theorem foldlM_along {step : σ → ι → Prog κ σ} {next : σ → ι → σ} {I : σ → Prop} {P : σ → ι → Prop}
    (hnext : ∀ s i, I s → P s i → I (next s i))
    (hgood : ∀ s i, I s → P s i → Triple pre (step s i) fun t bs => t = next s i ∧ bs = pre)
    (hbad : ∀ s i, I s → ¬ P s i → Faults pre (step s i)) {ops : List ι} {s : σ} (hI : I s) :
    (Runs.Along next P s ops →
      Triple pre (ops.foldlM step s) fun t bs => t = Runs.run next s ops ∧ bs = pre) ∧
    (¬ Runs.Along next P s ops → Faults pre (ops.foldlM step s)) := by
  induction ops generalizing s with
  | nil => exact ⟨fun _ => Triple.pure ⟨rfl, rfl⟩, fun hno => absurd trivial hno⟩
  | cons op ops ih =>
    rw [List.foldlM_cons]
    by_cases hP : P s op
    · obtain ⟨hends, hfaults⟩ := ih (hnext s op hI hP)
      refine ⟨fun halong => ?_, fun hno => ?_⟩
      · refine (hgood s op hI hP).bind fun t bs hbs => ?_
        obtain ⟨rfl, rfl⟩ := hbs
        exact hends halong.2
      · refine (hgood s op hI hP).bind_faults fun t bs hbs => ?_
        obtain ⟨rfl, rfl⟩ := hbs
        exact hfaults fun hrest => hno ⟨hP, hrest⟩
    · exact ⟨fun halong => absurd halong.1 hP, fun _ => (hbad s op hI hP).bind _⟩

end

end Blocks
