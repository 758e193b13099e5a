import LightNvm.DevMem
import LightNvm.SglFail

/-! The memory of scatter-gather lists: a list has its own block, the array of its descriptors and the
descriptor for metadata, and it moves between its user and the free list of a pool. -/

namespace LightNvm

open Blocks

/-- A list with the blocks that it and its two pointers lie in. -/
structure SglMem where
  raw : SglRaw
  self : Nat
  array : Option Nat
  indirect : Option Nat
  deriving DecidableEq

def sizeofSglDescr : Nat := 16

def nvmSglCreateMem (be : BeId) (hint : Nat) : MemProg (Option SglMem) := do
  match ← alloc .libc with
  | none => pure none
  | some self =>
    if hint = 0 then
      let indirect ← be.nvmBufAlloc sizeofSglDescr
      pure (some ⟨⟨none, ⟨0, [.zero]⟩, 0, 0, 0⟩, self, none, indirect⟩)
    else
      match ← be.nvmBufAlloc (hint * sizeofSglDescr) with
      | none =>
        free .libc (some self)
        pure none
      | some array =>
        let indirect ← be.nvmBufAlloc sizeofSglDescr
        let descriptors := some ⟨0, List.replicate hint .zero⟩
        pure (some ⟨⟨descriptors, ⟨0, [.zero]⟩, 0, hint, 0⟩, self, some array, indirect⟩)

def nvmSglDestroyMem (be : BeId) (s : SglMem) : MemProg Unit := do
  be.nvmBufFree s.array
  be.nvmBufFree s.indirect
  free .libc (some s.self)

/-- Following a null pointer. -/
def orFault {α : Type} : Option α → MemProg α
  | none => fun _ => none
  | some a => pure a

/-- `nvm_sgl_add`; `moved` is where a larger array lies. With the list come the blocks that it has lost: the
result of `nvm_buf_realloc` overwrites the only pointer to the array. -/
def nvmSglAddMem (be : BeId) (s : SglMem) (phys : Except Errno (BitVec 64)) (len : Nat) (moved : BitVec 64) :
    MemProg (SglMem × Mem) :=
  if s.raw.ndescr ≠ 256 ∧ s.raw.ndescr = s.raw.nalloc then do
    match ← be.nvmBufRealloc s.array ((if s.raw.nalloc = 0 then 1 else 2 * s.raw.nalloc) * sizeofSglDescr) with
    | none =>
      let r ← orFault (sglAdd s.raw phys len (.error .enomem))
      pure ({ s with raw := r.1, array := none }, bufMem be s.array)
    | some array =>
      let r ← orFault (sglAdd s.raw phys len (.ok moved))
      pure ({ s with raw := r.1, array := some array }, 0)
  else do
    let r ← orFault (sglAdd s.raw phys len (.ok moved))
    pure ({ s with raw := r.1 }, 0)

/-- The lists that are in use, those on the free list of the pool, and the arrays that are lost. -/
structure SglPool where
  held : List SglMem
  pool : List SglMem
  lost : Mem

inductive SglMemOp where
  | create (hint : Nat)
  | alloc
  | add (i : Nat) (phys : Except Errno (BitVec 64)) (len : Nat) (moved : BitVec 64)
  | reset (i : Nat)
  | free (i : Nat)
  | destroy (i : Nat)

def SglPool.hold (s : SglPool) : Option SglMem → SglPool
  | none => s
  | some l => { s with held := l :: s.held }

def SglMem.reset (s : SglMem) : SglMem := { s with raw := s.raw.reset }

def nvmSglAllocMem (be : BeId) (s : SglPool) : MemProg SglPool :=
  match s.pool with
  | [] => do
    let l ← nvmSglCreateMem be 1
    pure (s.hold l)
  | l :: pool => pure ({ s with pool := pool }.hold (some l))

/-- The calls name the lists that are in use. -/
def SglPool.step (be : BeId) (s : SglPool) : SglMemOp → MemProg SglPool
  | .create hint => do
    let l ← nvmSglCreateMem be hint
    pure (s.hold l)
  | .alloc => nvmSglAllocMem be s
  | .add i phys len moved =>
    match s.held[i]? with
    | none => pure s
    | some l => do
      let r ← nvmSglAddMem be l phys len moved
      pure { s with held := s.held.set i r.1, lost := r.2 + s.lost }
  | .reset i => pure { s with held := s.held.modify i SglMem.reset }
  | .free i =>
    match s.held[i]? with
    | none => pure s
    | some l => pure { s with held := s.held.eraseIdx i, pool := l.reset :: s.pool }
  | .destroy i =>
    match s.held[i]? with
    | none => pure s
    | some l => do
      nvmSglDestroyMem be l
      pure { s with held := s.held.eraseIdx i }

/-- The loop of `nvm_sgl_pool_destroy`. -/
def destroyAll (be : BeId) : List SglMem → MemProg Unit
  | [] => pure ()
  | l :: pool => do
    nvmSglDestroyMem be l
    destroyAll be pool

/-- A pool is created, used and destroyed. -/
def sglSession (be : BeId) (ops : List SglMemOp) : MemProg (Option SglPool) := do
  match ← alloc .libc with
  | none => pure none
  | some pool =>
    let s ← ops.foldlM (SglPool.step be) ⟨[], [], 0⟩
    destroyAll be s.pool
    free .libc (some pool)
    pure (some { s with pool := [] })

/-- There is room in the array of a list that has lost it. -/
def SglMemOp.FollowsNull (s : SglPool) : SglMemOp → Prop
  | .add i _ _ _ => ∃ l, s.held[i]? = some l ∧ l.raw.ndescr ≠ 256 ∧ l.raw.ndescr ≠ l.raw.nalloc ∧
      l.raw.descriptors = none
  | _ => False

def SglMem.mem (be : BeId) (s : SglMem) : Mem :=
  bufMem be s.array + (bufMem be s.indirect + held .libc (some s.self))

def sglsMem (be : BeId) (ls : List SglMem) : Mem := (ls.map (SglMem.mem be)).sum

def SglMem.HasArray (s : SglMem) : Prop := s.array.isSome = s.raw.descriptors.isSome

/-- Each list has a block for its array exactly when it has one, and what is live is what the lists own and
what they have lost. -/
structure SglPool.Holds (be : BeId) (s : SglPool) (bs : Mem) : Prop where
  held : ∀ l ∈ s.held, l.HasArray
  pool : ∀ l ∈ s.pool, l.HasArray
  mem : bs = sglsMem be s.held + (sglsMem be s.pool + s.lost)

section

variable {be : BeId} {pre rest : Mem} {l : SglMem} {raw : SglRaw} {phys : Except Errno (BitVec 64)} {len : Nat}
  {moved : Except Errno (BitVec 64)}

theorem sglAdd_grown (phys : Except Errno (BitVec 64)) (len : Nat) (moved : Except Errno (BitVec 64))
    (hfull : raw.ndescr ≠ 256 ∧ raw.ndescr = raw.nalloc) :
    ∃ r, sglAdd raw phys len moved = some r ∧ r.1.descriptors.isSome = moved.toOption.isSome := by
  unfold sglAdd
  rw [if_neg hfull.1, if_pos hfull.2]
  cases moved with
  | error e => exact ⟨_, rfl, rfl⟩
  | ok p => cases phys <;> exact ⟨_, rfl, rfl⟩

theorem sglAdd_kept (phys : Except Errno (BitVec 64)) (len : Nat) (moved : Except Errno (BitVec 64))
    (hroom : ¬ (raw.ndescr ≠ 256 ∧ raw.ndescr = raw.nalloc)) :
    (sglAdd raw phys len moved = none ↔
      raw.ndescr ≠ 256 ∧ raw.ndescr ≠ raw.nalloc ∧ raw.descriptors = none) ∧
    ∀ r, sglAdd raw phys len moved = some r → r.1.descriptors.isSome = raw.descriptors.isSome := by
  unfold sglAdd
  by_cases hmax : raw.ndescr = 256
  · rw [if_pos hmax]
    refine ⟨by simp [hmax], fun r hr => ?_⟩
    cases hr
    rfl
  · have hne : raw.ndescr ≠ raw.nalloc := fun hfull => hroom ⟨hmax, hfull⟩
    rw [if_neg hmax, if_neg hne, SglRaw.push]
    cases hd : raw.descriptors with
    | none => exact ⟨by simp [hmax, hne], fun r hr => by cases hr⟩
    | some b =>
      refine ⟨by simp, fun r hr => ?_⟩
      cases phys <;> cases hr <;> rfl

theorem triple_nvmSglCreateMem (be : BeId) (hint : Nat) (pre : Mem) :
    Triple pre (nvmSglCreateMem be hint) fun l bs => match l with
      | none => bs = pre
      | some l => l.HasArray ∧ bs = l.mem be + pre := by
  rw [nvmSglCreateMem]
  refine (triple_alloc .libc pre).bind fun self bs hbs => ?_
  cases self with
  | none => exact Triple.pure (by rw [hbs, held_none, zero_add])
  | some self =>
    dsimp only
    split_ifs with hhint
    · refine (triple_nvmBufAlloc be _ bs).bind fun indirect cs hcs => Triple.pure ⟨rfl, ?_⟩
      rw [hcs, hbs, SglMem.mem, bufMem_none, zero_add, add_assoc]
    · refine (triple_nvmBufAlloc be _ bs).bind fun array cs hcs => ?_
      cases array with
      | none =>
        rw [bufMem_none, zero_add, hbs] at hcs
        refine (triple_free hcs).bind fun _ ds hds => Triple.pure hds
      | some array =>
        refine (triple_nvmBufAlloc be _ cs).bind fun indirect ds hds => Triple.pure ⟨rfl, ?_⟩
        rw [hds, hcs, hbs, SglMem.mem]
        dsimp only
        ac_rfl

theorem triple_nvmSglDestroyMem (hpre : pre = l.mem be + rest) :
    Triple pre (nvmSglDestroyMem be l) fun _ bs => bs = rest := by
  simp only [SglMem.mem, add_assoc] at hpre
  refine (triple_nvmBufFree hpre).bind fun _ bs hbs => ?_
  refine (triple_nvmBufFree hbs).bind fun _ bs hbs => ?_
  exact triple_free hbs

/-- Whether the array is to grow or not, the list that `nvm_sgl_add` leaves is described by its outcome. -/
theorem triple_nvmSglAddMem {p : BitVec 64} (harray : l.HasArray) (hpre : pre = l.mem be + rest)
    (hroom : ¬ (l.raw.ndescr ≠ 256 ∧ l.raw.ndescr ≠ l.raw.nalloc ∧ l.raw.descriptors = none)) :
    Triple pre (nvmSglAddMem be l phys len p) fun r bs =>
      r.1.HasArray ∧ bs = r.1.mem be + (r.2 + rest) := by
  rw [nvmSglAddMem]
  by_cases hfull : l.raw.ndescr ≠ 256 ∧ l.raw.ndescr = l.raw.nalloc
  · rw [if_pos hfull]
    simp only [SglMem.mem, add_assoc] at hpre
    refine (triple_nvmBufRealloc hpre).bind fun array bs hbs => ?_
    cases array with
    | none =>
      obtain ⟨r, hr, hdescr⟩ := sglAdd_grown phys len (.error .enomem) hfull
      rw [if_pos rfl] at hbs
      simp only [hr, orFault, pure_bind]
      refine Triple.pure ⟨hdescr.symm, ?_⟩
      simp only [hbs, SglMem.mem, bufMem_none, zero_add]
      ac_rfl
    | some array =>
      obtain ⟨r, hr, hdescr⟩ := sglAdd_grown phys len (.ok p) hfull
      rw [if_neg (Option.some_ne_none array)] at hbs
      simp only [hr, orFault, pure_bind]
      refine Triple.pure ⟨hdescr.symm, ?_⟩
      simp only [hbs, SglMem.mem, zero_add]
      ac_rfl
  · rw [if_neg hfull]
    obtain ⟨hnone, hdescr⟩ := sglAdd_kept phys len (.ok p) hfull
    obtain ⟨r, hr⟩ := Option.ne_none_iff_exists'.mp fun h => hroom (hnone.mp h)
    simp only [hr, orFault, pure_bind]
    exact Triple.pure ⟨harray.trans (hdescr r hr).symm, by rw [hpre, zero_add]; rfl⟩

theorem faults_nvmSglAddMem {p : BitVec 64}
    (hroom : l.raw.ndescr ≠ 256 ∧ l.raw.ndescr ≠ l.raw.nalloc ∧ l.raw.descriptors = none) :
    Faults pre (nvmSglAddMem be l phys len p) := by
  have hfull : ¬ (l.raw.ndescr ≠ 256 ∧ l.raw.ndescr = l.raw.nalloc) := fun h => hroom.2.1 h.2
  rw [nvmSglAddMem, if_neg hfull, ((sglAdd_kept _ _ _ hfull).1).mpr hroom]
  exact fun _ _ _ => rfl

end

/-! Steps and sessions. -/

section

variable {be : BeId} {pre rest bs : Mem} {s : SglPool} {op : SglMemOp}

theorem sglsMem_eraseIdx {ls : List SglMem} {i : Nat} {l : SglMem} (hi : ls[i]? = some l) :
    sglsMem be ls = l.mem be + sglsMem be (ls.eraseIdx i) :=
  sum_eraseIdx _ hi

theorem sglsMem_cons (l : SglMem) (ls : List SglMem) : sglsMem be (l :: ls) = l.mem be + sglsMem be ls := rfl

theorem sglsMem_set {ls : List SglMem} {i : Nat} {l : SglMem} (hi : ls[i]? = some l) (l' : SglMem) :
    sglsMem be (ls.set i l') = l'.mem be + sglsMem be (ls.eraseIdx i) := by
  obtain ⟨hlt, -⟩ := List.getElem?_eq_some_iff.mp hi
  rw [sglsMem_eraseIdx (List.getElem?_set_self hlt), List.eraseIdx_set_eq]

/-- A reset touches no block. -/
theorem SglPool.modify_reset (be : BeId) (ls : List SglMem) (i : Nat) :
    sglsMem be (ls.modify i SglMem.reset) = sglsMem be ls ∧
    ((∀ l ∈ ls, l.HasArray) → ∀ l ∈ ls.modify i SglMem.reset, l.HasArray) := by
  cases hi : ls[i]? with
  | none =>
    rw [List.modify_eq_self (List.getElem?_eq_none_iff.mp hi)]
    exact ⟨rfl, id⟩
  | some l =>
    have hset : ls.modify i SglMem.reset = ls.set i l.reset := by
      have : Inhabited SglMem := ⟨l⟩
      rw [List.modify_eq_set, hi]
      rfl
    rw [hset, sglsMem_set hi, sglsMem_eraseIdx hi]
    refine ⟨rfl, fun hall m hm => ?_⟩
    obtain hm | rfl := List.mem_or_eq_of_mem_set hm
    · exact hall m hm
    · exact hall l (List.mem_of_getElem? hi)

theorem SglPool.Holds.step (h : s.Holds be bs) (op : SglMemOp) (hop : ¬ op.FollowsNull s) :
    Triple bs (s.step be op) (SglPool.Holds be) := by
  obtain ⟨hheld, hpool, hmem⟩ := h
  have hcreate : ∀ hint, Triple bs (nvmSglCreateMem be hint >>= fun l => pure (s.hold l)) (SglPool.Holds be) := by
    intro hint
    refine (triple_nvmSglCreateMem be hint bs).bind fun l cs hcs => Triple.pure ?_
    cases l with
    | none => exact ⟨hheld, hpool, hcs.trans hmem⟩
    | some l =>
      refine ⟨List.forall_mem_cons.mpr ⟨hcs.1, hheld⟩, hpool, ?_⟩
      rw [hcs.2, hmem, SglPool.hold, sglsMem_cons, add_assoc]
  cases op with
  | create hint => exact hcreate hint
  | alloc =>
    rw [SglPool.step, nvmSglAllocMem]
    cases hp : s.pool with
    | nil => exact hcreate 1
    | cons l pool =>
      rw [hp] at hpool hmem
      obtain ⟨hl, hpool⟩ := List.forall_mem_cons.mp hpool
      refine Triple.pure ⟨List.forall_mem_cons.mpr ⟨hl, hheld⟩, hpool, ?_⟩
      rw [hmem, sglsMem_cons]
      change _ = l.mem be + sglsMem be s.held + (sglsMem be pool + s.lost)
      ac_rfl
  | add i phys len p =>
    rw [SglPool.step]
    cases hi : s.held[i]? with
    | none => exact Triple.pure ⟨hheld, hpool, hmem⟩
    | some l =>
      have hl := hheld l (List.mem_of_getElem? hi)
      have hroom := fun h => hop ⟨l, hi, h⟩
      rw [sglsMem_eraseIdx hi, add_assoc] at hmem
      refine (triple_nvmSglAddMem hl hmem hroom).bind fun r cs hcs => Triple.pure ⟨?_, hpool, ?_⟩
      · intro m hm
        obtain hm | rfl := List.mem_or_eq_of_mem_set hm
        · exact hheld m hm
        · exact hcs.1
      · rw [hcs.2, sglsMem_set hi]
        dsimp only
        ac_rfl
  | reset i =>
    obtain ⟨hsame, hall⟩ := SglPool.modify_reset be s.held i
    exact Triple.pure ⟨hall hheld, hpool, hmem.trans (by rw [hsame])⟩
  | free i =>
    rw [SglPool.step]
    cases hi : s.held[i]? with
    | none => exact Triple.pure ⟨hheld, hpool, hmem⟩
    | some l =>
      have hl := hheld l (List.mem_of_getElem? hi)
      refine Triple.pure ⟨fun m hm => hheld m (List.eraseIdx_subset hm),
        List.forall_mem_cons.mpr ⟨hl, hpool⟩, ?_⟩
      rw [hmem, sglsMem_eraseIdx hi]
      change _ = sglsMem be (s.held.eraseIdx i) + (l.mem be + sglsMem be s.pool + s.lost)
      ac_rfl
  | destroy i =>
    rw [SglPool.step]
    cases hi : s.held[i]? with
    | none => exact Triple.pure ⟨hheld, hpool, hmem⟩
    | some l =>
      rw [sglsMem_eraseIdx hi, add_assoc] at hmem
      refine (triple_nvmSglDestroyMem hmem).bind fun _ cs hcs => Triple.pure ?_
      exact ⟨fun m hm => hheld m (List.eraseIdx_subset hm), hpool, hcs⟩

theorem faults_step (hop : op.FollowsNull s) : Faults bs (s.step be op) := by
  cases op with
  | add i phys len p =>
    obtain ⟨l, hi, hroom⟩ := hop
    rw [SglPool.step, hi]
    exact (faults_nvmSglAddMem hroom).bind _
  | create | alloc | reset | free | destroy => exact hop.elim

theorem triple_destroyAll {ls : List SglMem} (hpre : pre = sglsMem be ls + rest) :
    Triple pre (destroyAll be ls) fun _ bs => bs = rest := by
  induction ls generalizing pre with
  | nil => exact Triple.pure (hpre.trans (zero_add rest))
  | cons l ls ih =>
    rw [sglsMem_cons, add_assoc] at hpre
    exact (triple_nvmSglDestroyMem hpre).bind fun _ cs hcs => ih hcs

theorem SglPool.Holds.close {pool : Option Nat} {rest : Mem} {h : Heap Allocator} (hs : s.Holds be bs)
    (hlive : h.live = bs + (Blocks.held .libc pool + rest)) :
    Ends (do destroyAll be s.pool; free .libc pool; pure (some { s with pool := [] })) h fun r h' =>
      h'.live = (r.elim 0 fun s => sglsMem be s.held + s.lost) + rest := by
  have hpool : h.live =
      sglsMem be s.pool + (Blocks.held .libc pool + (sglsMem be s.held + s.lost + rest)) := by
    rw [hlive, hs.mem]
    ac_rfl
  refine (triple_destroyAll (add_zero (sglsMem be s.pool)).symm h _ hpool).bind fun _ h' hh' => ?_
  obtain ⟨cs, rfl, hlive'⟩ := hh'
  rw [zero_add] at hlive'
  exact (ends_free hlive').bind fun _ _ hfree => Ends.pure hfree.2.2

/-- A session faults exactly when an add follows the pointer that an earlier growth has lost. However it
uses the lists, none is destroyed twice, and at its end the lists in use are live and the arrays that growths
have lost. -/
theorem sgl_pool_memory (be : BeId) (ops : List SglMemOp) (h : Heap Allocator) :
    ((∃ r, sglSession be ops h = some r) ↔ (h.grants h.next = true → ∀ pre op post, ops = pre ++ op :: post →
      ∀ s h', pre.foldlM (SglPool.step be) ⟨[], [], 0⟩ (h.take .libc) = some (s, h') → ¬ op.FollowsNull s)) ∧
    ∀ r h', sglSession be ops h = some (r, h') →
      h'.live = (r.elim 0 fun s => sglsMem be s.held + s.lost) + h.live := by
  rw [sglSession]
  by_cases hg : h.grants h.next = true
  · have halloc : alloc Allocator.libc h = some (some h.next, h.take .libc) := if_pos hg
    have hinit : SglPool.Holds be ⟨[], [], 0⟩ 0 := ⟨by simp, by simp, rfl⟩
    have hopened : ∃ bs, SglPool.Holds be ⟨[], [], 0⟩ bs ∧
        (h.take .libc).live = bs + (held .libc (some h.next) + h.live) := ⟨0, hinit, by simp⟩
    obtain ⟨hends, hI⟩ := foldlM_ends_of
      (I := fun s h' => ∃ bs, s.Holds be bs ∧ h'.live = bs + (held .libc (some h.next) + h.live))
      (fun s _ op => op.FollowsNull s)
      (fun s h' op hs hop => by
        obtain ⟨bs, hs, hlive⟩ := hs
        exact hs.step op hop h' _ hlive)
      (fun s h' op hs hop => by
        obtain ⟨bs, hs, hlive⟩ := hs
        exact faults_step hop h' _ hlive)
      ops hopened
    have hclose : ∀ s h', ops.foldlM (SglPool.step be) ⟨[], [], 0⟩ (h.take .libc) = some (s, h') →
        Ends (do destroyAll be s.pool; free .libc (some h.next); pure (some { s with pool := [] })) h'
          fun r h' => h'.live = (r.elim 0 fun s => sglsMem be s.held + s.lost) + h.live := by
      intro s h' hrun
      obtain ⟨bs, hs, hlive⟩ := hI s h' hrun
      exact hs.close hlive
    simp only [bind_eq halloc]
    refine ⟨(bind_ends_iff fun s h' hrun => ?_).trans (hends.trans (by simp [hg])), fun r h' hr => ?_⟩
    · obtain ⟨_, _, hrun', -⟩ := hclose s h' hrun
      exact ⟨_, hrun'⟩
    · obtain ⟨s, h₁, hrun, hrest⟩ := bind_eq_some.mp hr
      obtain ⟨_, _, hrun', hlive⟩ := hclose s h₁ hrun
      rw [hrun'] at hrest
      cases hrest
      exact hlive
  · have halloc : alloc Allocator.libc h = some (none, h.refuse) := if_neg hg
    simp only [bind_eq halloc]
    refine ⟨iff_of_true ⟨_, rfl⟩ fun hyes => absurd hyes hg, fun r h' hr => ?_⟩
    cases hr
    exact (zero_add _).symm

end

end LightNvm
