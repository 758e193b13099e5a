import Mathlib.Data.List.Nodup
import Mathlib.Data.Option.Basic

/-! A pool of objects kept as a stack of pointers: an array whose slots from the stack pointer on
hold the free objects, while the slots below it are stale. -/

namespace SlotPool

variable {α : Type*}

def free (slots : Nat → Option α) (sp depth : Nat) : List (Option α) :=
  (List.range' sp (depth - sp)).map slots

/-- The free slots and the objects in use are the objects of the pool, each of them once. -/
structure Holds (objs : List α) (slots : Nat → Option α) (sp : Nat) (out : List α) : Prop where
  sp_eq : sp = out.length
  perm : (free slots sp objs.length ++ out.map some).Perm (objs.map some)

theorem free_succ {slots : Nat → Option α} {sp depth : Nat} (h : sp < depth) :
    free slots sp depth = slots sp :: free slots (sp + 1) depth := by
  obtain ⟨m, hm⟩ : ∃ m, depth - sp = m + 1 := ⟨depth - sp - 1, by omega⟩
  have hm' : depth - (sp + 1) = m := by omega
  rw [free, free, hm, hm', List.range'_succ, List.map_cons]

theorem free_update {slots : Nat → Option α} {sp depth i : Nat} (v : Option α) (h : i < sp) :
    free (Function.update slots i v) sp depth = free slots sp depth := by
  apply List.map_congr_left
  intro j hj
  have hle : sp ≤ j := (List.mem_range'_1.mp hj).1
  exact Function.update_of_ne (by omega) _ _

theorem Holds.init (objs : List α) : Holds objs (fun i => objs[i]?) 0 [] where
  sp_eq := rfl
  perm := by
    have hfree : free (fun i => objs[i]?) 0 objs.length = objs.map some := by
      apply List.ext_getElem
      · simp [free]
      · intro i hi _
        have hlt : i < objs.length := by simpa [free] using hi
        simp [free, hlt]
    simp [hfree]

section

variable {objs : List α} {slots : Nat → Option α} {sp : Nat} {out : List α}

theorem Holds.le (h : Holds objs slots sp out) : sp ≤ objs.length := by
  have hlen := h.perm.length_eq
  have hsp := h.sp_eq
  simp only [free, List.length_append, List.length_map, List.length_range'] at hlen
  omega

theorem Holds.congr (h : Holds objs slots sp out) {out' : List α} (hp : out.Perm out') :
    Holds objs slots sp out' where
  sp_eq := h.sp_eq.trans hp.length_eq
  perm := ((hp.symm.map some).append_left _).trans h.perm

theorem Holds.nodup (h : Holds objs slots sp out) (hnd : objs.Nodup) :
    (free slots sp objs.length ++ out.map some).Nodup :=
  h.perm.nodup_iff.mpr (hnd.map (Option.some_injective α))

theorem Holds.take (h : Holds objs slots sp out) (hlt : sp < objs.length) :
    ∃ x, slots sp = some x ∧ Holds objs slots (sp + 1) (x :: out) := by
  have hperm := h.perm
  rw [free_succ hlt, List.cons_append] at hperm
  obtain ⟨x, -, hx⟩ := List.mem_map.mp (hperm.mem_iff.mp (List.mem_cons_self ..))
  refine ⟨x, hx.symm, by simp [h.sp_eq], ?_⟩
  rw [← hx] at hperm
  exact List.perm_middle.trans hperm

theorem Holds.give [DecidableEq α] (h : Holds objs slots sp out) {x : α} (hx : x ∈ out) :
    Holds objs (Function.update slots (sp - 1) (some x)) (sp - 1) (out.erase x) := by
  have hpos : 0 < out.length := List.length_pos_of_mem hx
  have hsp := h.sp_eq
  have hle := h.le
  refine ⟨by rw [List.length_erase_of_mem hx, hsp], ?_⟩
  rw [free_succ (by omega), Function.update_self, free_update _ (by omega), Nat.sub_add_cancel (by omega)]
  have hcons := (List.perm_cons_erase hx).symm.map some
  exact List.perm_middle.symm.trans ((hcons.append_left _).trans h.perm)

end

end SlotPool
