import LightNvm.Blocks

/-! The memory of `nvm_buf.c`: which allocator serves the buffers of a backend, and the sets of buffers
that `nvm_buf_set_alloc` builds. -/

namespace LightNvm

open Blocks

inductive BeId where
  | any | ioctl | lbd | spdk | nocd
  deriving DecidableEq, Repr

/-- The C library, and the huge pages of SPDK. -/
inductive Allocator where
  | libc | dma
  deriving DecidableEq, Repr

abbrev Mem := Multiset (Block Allocator)

abbrev MemProg := Prog Allocator

def BeId.allocator : BeId → Option Allocator
  | .any => none
  | .ioctl | .lbd => some .libc
  | .spdk | .nocd => some .dma

def BeId.nvmBufAlloc (be : BeId) (nbytes : Nat) : MemProg (Option Nat) :=
  if nbytes = 0 then pure none
  else match be.allocator with
    | none => pure none
    | some k => alloc k

/-- `aligned_alloc` has no counterpart that grows a block, so `nvm_buf_virt_realloc` never does. -/
def BeId.nvmBufRealloc (be : BeId) (buf : Option Nat) (nbytes : Nat) : MemProg (Option Nat) :=
  if nbytes = 0 then pure none
  else match be.allocator with
    | some .dma => realloc .dma buf
    | _ => pure none

def BeId.nvmBufFree (be : BeId) (buf : Option Nat) : MemProg Unit :=
  match be.allocator with
  | none => pure ()
  | some k => free k buf

/-- What a pointer to a buffer owns. -/
def bufMem (be : BeId) (buf : Option Nat) : Mem :=
  match be.allocator with
  | none => 0
  | some k => held k buf

/-- `struct nvm_buf_set`; `self` is the buffer that it lies in. -/
structure BufSet where
  self : Nat
  nbytes : Nat
  nbytesMeta : Nat
  write : Option Nat
  writeMeta : Option Nat
  read : Option Nat
  readMeta : Option Nat
  deriving DecidableEq, Repr

def sizeofBufSet : Nat := 56

def nvmBufSetFree (be : BeId) (bufs : BufSet) : MemProg Unit := do
  be.nvmBufFree bufs.write
  be.nvmBufFree bufs.writeMeta
  be.nvmBufFree bufs.read
  be.nvmBufFree bufs.readMeta
  be.nvmBufFree (some bufs.self)

/-- The two buffers for data, or those for metadata: `bufs` is the set with the pointers it then has. -/
def bufSetPair (be : BeId) (nbytes : Nat) (bufs : Option Nat → Option Nat → BufSet) :
    MemProg (Option BufSet) := do
  match ← be.nvmBufAlloc nbytes with
  | none =>
    nvmBufSetFree be (bufs none none)
    pure none
  | some write =>
    match ← be.nvmBufAlloc nbytes with
    | none =>
      nvmBufSetFree be (bufs (some write) none)
      pure none
    | some read => pure (some (bufs (some write) (some read)))

def bufSetData (be : BeId) (nbytes : Nat) (bufs : BufSet) : MemProg (Option BufSet) :=
  if nbytes = 0 then pure (some bufs)
  else bufSetPair be nbytes fun write read => { bufs with nbytes := nbytes, write := write, read := read }

def bufSetMeta (be : BeId) (nbytesMeta : Nat) (bufs : BufSet) : MemProg (Option BufSet) :=
  if nbytesMeta = 0 then pure (some bufs)
  else bufSetPair be nbytesMeta fun write read =>
    { bufs with nbytesMeta := nbytesMeta, writeMeta := write, readMeta := read }

def nvmBufSetAlloc (be : BeId) (nbytes nbytesMeta : Nat) : MemProg (Option BufSet) := do
  match ← be.nvmBufAlloc sizeofBufSet with
  | none => pure none
  | some self =>
    match ← bufSetData be nbytes ⟨self, 0, 0, none, none, none, none⟩ with
    | none => pure none
    | some bufs => bufSetMeta be nbytesMeta bufs

/-! Buffers. -/

section

variable {be : BeId} {pre rest : Mem}

@[simp] theorem bufMem_none (be : BeId) : bufMem be none = 0 := by
  rw [bufMem]
  split <;> rfl

theorem bufMem_of_allocator {k : Allocator} (hbe : be.allocator = some k) (buf : Option Nat) :
    bufMem be buf = held k buf := by
  rw [bufMem, hbe]

theorem triple_nvmBufAlloc (be : BeId) (nbytes : Nat) (pre : Mem) :
    Triple pre (be.nvmBufAlloc nbytes) fun buf bs => bs = bufMem be buf + pre := by
  rw [BeId.nvmBufAlloc]
  split_ifs
  · exact Triple.pure (by rw [bufMem_none, zero_add])
  · unfold bufMem
    cases be.allocator with
    | none => exact Triple.pure (zero_add pre).symm
    | some k => exact triple_alloc k pre

theorem triple_nvmBufFree {buf : Option Nat} (hpre : pre = bufMem be buf + rest) :
    Triple pre (be.nvmBufFree buf) fun _ bs => bs = rest := by
  unfold bufMem at hpre
  rw [BeId.nvmBufFree]
  cases hk : be.allocator with
  | none => exact Triple.pure (by simpa [hk] using hpre)
  | some k => exact triple_free (by simpa [hk] using hpre)

/-- A buffer that cannot be grown is still there. -/
theorem triple_nvmBufRealloc {buf : Option Nat} {nbytes : Nat} (hpre : pre = bufMem be buf + rest) :
    Triple pre (be.nvmBufRealloc buf nbytes) fun new bs =>
      bs = if new = none then bufMem be buf + rest else bufMem be new + rest := by
  have hsame : Triple pre (Pure.pure none : MemProg (Option Nat)) fun new bs =>
      bs = if new = none then bufMem be buf + rest else bufMem be new + rest :=
    Triple.pure (by rw [if_pos rfl, hpre])
  rw [BeId.nvmBufRealloc]
  split_ifs
  · exact hsame
  · cases hk : be.allocator with
    | none => exact hsame
    | some k =>
      cases k with
      | libc => exact hsame
      | dma =>
        simp only [bufMem_of_allocator hk] at hpre ⊢
        exact triple_realloc hpre

end

/-! Sets of buffers. -/

def BufSet.mem (be : BeId) (bufs : BufSet) : Mem :=
  bufMem be bufs.write + (bufMem be bufs.writeMeta + (bufMem be bufs.read + (bufMem be bufs.readMeta +
    bufMem be (some bufs.self))))

/-- A set has the buffers that its sizes ask for, and no others. -/
structure BufSet.Complete (bufs : BufSet) : Prop where
  write : bufs.write.isSome ↔ 0 < bufs.nbytes
  read : bufs.read.isSome ↔ 0 < bufs.nbytes
  writeMeta : bufs.writeMeta.isSome ↔ 0 < bufs.nbytesMeta
  readMeta : bufs.readMeta.isSome ↔ 0 < bufs.nbytesMeta

section

variable {be : BeId} {pre rest : Mem}

theorem triple_nvmBufSetFree {bufs : BufSet} (hpre : pre = bufs.mem be + rest) :
    Triple pre (nvmBufSetFree be bufs) fun _ bs => bs = rest := by
  simp only [BufSet.mem, add_assoc] at hpre
  refine (triple_nvmBufFree hpre).bind fun _ bs hbs => ?_
  refine (triple_nvmBufFree hbs).bind fun _ bs hbs => ?_
  refine (triple_nvmBufFree hbs).bind fun _ bs hbs => ?_
  refine (triple_nvmBufFree hbs).bind fun _ bs hbs => ?_
  exact triple_nvmBufFree hbs

/-- Nothing is left of a set for which a buffer is missing. -/
def OwnsSet (be : BeId) (rest : Mem) (P : BufSet → Prop) (bufs : Option BufSet) (bs : Mem) : Prop :=
  match bufs with
  | none => bs = rest
  | some bufs => P bufs ∧ bs = bufs.mem be + rest

theorem triple_bufSetPair {nbytes : Nat} {bufs : Option Nat → Option Nat → BufSet} {P : BufSet → Prop}
    (hmem : ∀ write read, (bufs write read).mem be =
      bufMem be read + (bufMem be write + (bufs none none).mem be))
    (hP : ∀ write read, P (bufs (some write) (some read))) (hpre : pre = (bufs none none).mem be + rest) :
    Triple pre (bufSetPair be nbytes bufs) (OwnsSet be rest P) := by
  rw [bufSetPair]
  refine (triple_nvmBufAlloc be nbytes pre).bind fun write bs hbs => ?_
  cases write with
  | none =>
    rw [bufMem_none, zero_add, hpre] at hbs
    refine (triple_nvmBufSetFree hbs).bind fun _ bs hbs => ?_
    exact Triple.pure hbs
  | some write =>
    refine (triple_nvmBufAlloc be nbytes bs).bind fun read cs hcs => ?_
    have hcs' : cs = (bufs (some write) read).mem be + rest := by
      rw [hcs, hbs, hpre, hmem (some write) read]
      simp only [add_assoc]
    cases read with
    | none =>
      refine (triple_nvmBufSetFree hcs').bind fun _ bs hbs => ?_
      exact Triple.pure hbs
    | some read => exact Triple.pure ⟨hP write read, hcs'⟩

theorem triple_bufSetData {nbytes : Nat} {bufs : BufSet} (hc : bufs.Complete) (hn : bufs.nbytes = 0)
    (hpre : pre = bufs.mem be + rest) :
    Triple pre (bufSetData be nbytes bufs) (OwnsSet be rest fun s =>
      s.Complete ∧ s.nbytes = nbytes ∧ s.nbytesMeta = bufs.nbytesMeta) := by
  have hw : bufs.write = none := by simpa [hn] using hc.write
  have hr : bufs.read = none := by simpa [hn] using hc.read
  rw [bufSetData]
  split_ifs with h0
  · exact Triple.pure ⟨⟨hc, hn.trans h0.symm, rfl⟩, hpre⟩
  · have hpos : 0 < nbytes := Nat.pos_of_ne_zero h0
    refine triple_bufSetPair ?_ ?_ ?_
    · intro write read
      simp only [BufSet.mem, bufMem_none, zero_add]
      ac_rfl
    · exact fun write read => ⟨⟨by simp [hpos], by simp [hpos], hc.writeMeta, hc.readMeta⟩, rfl, rfl⟩
    · simp only [hpre, BufSet.mem, hw, hr]

theorem triple_bufSetMeta {nbytesMeta : Nat} {bufs : BufSet} (hc : bufs.Complete) (hn : bufs.nbytesMeta = 0)
    (hpre : pre = bufs.mem be + rest) :
    Triple pre (bufSetMeta be nbytesMeta bufs) (OwnsSet be rest fun s =>
      s.Complete ∧ s.nbytes = bufs.nbytes ∧ s.nbytesMeta = nbytesMeta) := by
  have hw : bufs.writeMeta = none := by simpa [hn] using hc.writeMeta
  have hr : bufs.readMeta = none := by simpa [hn] using hc.readMeta
  rw [bufSetMeta]
  split_ifs with h0
  · exact Triple.pure ⟨⟨hc, rfl, hn.trans h0.symm⟩, hpre⟩
  · have hpos : 0 < nbytesMeta := Nat.pos_of_ne_zero h0
    refine triple_bufSetPair ?_ ?_ ?_
    · intro write read
      simp only [BufSet.mem, bufMem_none, zero_add]
      ac_rfl
    · exact fun write read => ⟨⟨hc.write, hc.read, by simp [hpos], by simp [hpos]⟩, rfl, rfl⟩
    · simp only [hpre, BufSet.mem, hw, hr]

theorem triple_nvmBufSetAlloc (be : BeId) (nbytes nbytesMeta : Nat) (pre : Mem) :
    Triple pre (nvmBufSetAlloc be nbytes nbytesMeta) (OwnsSet be pre fun s =>
      s.Complete ∧ s.nbytes = nbytes ∧ s.nbytesMeta = nbytesMeta) := by
  rw [nvmBufSetAlloc]
  refine (triple_nvmBufAlloc be sizeofBufSet pre).bind fun self bs hbs => ?_
  cases self with
  | none => exact Triple.pure (by rw [OwnsSet, hbs, bufMem_none, zero_add])
  | some self =>
    have hempty : (BufSet.mk self 0 0 none none none none).Complete := by constructor <;> simp
    have hmem : bs = (BufSet.mk self 0 0 none none none none).mem be + pre := by
      simp only [BufSet.mem, bufMem_none, zero_add, hbs]
    refine (triple_bufSetData hempty rfl hmem).bind fun bufs cs hcs => ?_
    cases bufs with
    | none => exact Triple.pure hcs
    | some bufs =>
      obtain ⟨⟨hc, hn, hm⟩, hmem⟩ := hcs
      refine (triple_bufSetMeta hc hm hmem).mono fun s ds hds => ?_
      cases s with
      | none => exact hds
      | some s => exact ⟨⟨hds.1.1, hds.1.2.1.trans hn, hds.1.2.2⟩, hds.2⟩

end

/-! Runs of calls. -/

/-- `free i` gives back the `i`-th of the sets that the caller holds. -/
inductive BufSetOp where
  | alloc (nbytes nbytesMeta : Nat)
  | free (i : Nat)
  deriving DecidableEq, Repr

def BufSetOp.step (be : BeId) (held : List BufSet) : BufSetOp → MemProg (List BufSet)
  | .alloc nbytes nbytesMeta => do
    match ← nvmBufSetAlloc be nbytes nbytesMeta with
    | none => pure held
    | some bufs => pure (bufs :: held)
  | .free i =>
    match held[i]? with
    | none => pure held
    | some bufs => do
      nvmBufSetFree be bufs
      pure (held.eraseIdx i)

def bufSetsMem (be : BeId) (sets : List BufSet) : Mem := (sets.map (BufSet.mem be)).sum

structure BufSetsOk (be : BeId) (sets : List BufSet) (bs : Mem) : Prop where
  complete : ∀ bufs ∈ sets, bufs.Complete
  mem : bs = bufSetsMem be sets

theorem bufSetOp_ok {be : BeId} {sets : List BufSet} {bs : Mem} (h : BufSetsOk be sets bs) (op : BufSetOp) :
    Triple bs (op.step be sets) (BufSetsOk be) := by
  cases op with
  | alloc nbytes nbytesMeta =>
    refine (triple_nvmBufSetAlloc be nbytes nbytesMeta bs).bind fun bufs cs hcs => ?_
    cases bufs with
    | none => exact Triple.pure ⟨h.complete, hcs.trans h.mem⟩
    | some bufs =>
      refine Triple.pure ⟨?_, ?_⟩
      · exact List.forall_mem_cons.mpr ⟨hcs.1.1, h.complete⟩
      · rw [hcs.2, h.mem, bufSetsMem, bufSetsMem, List.map_cons, List.sum_cons]
  | free i =>
    rw [BufSetOp.step]
    cases hi : sets[i]? with
    | none => exact Triple.pure h
    | some bufs =>
      refine (triple_nvmBufSetFree (h.mem.trans (sum_eraseIdx _ hi))).bind fun _ cs hcs => ?_
      exact Triple.pure ⟨fun s hs => h.complete s (List.eraseIdx_subset hs), hcs⟩

/-- Over every run of calls, whichever allocations fail, nothing is given back twice, every set there is
has its buffers, and nothing is live but what these sets own. -/
theorem buf_sets_memory (be : BeId) (ops : List BufSetOp) (h : Heap Allocator) :
    ∃ sets h', ops.foldlM (BufSetOp.step be) [] h = some (sets, h') ∧ (∀ bufs ∈ sets, bufs.Complete) ∧
      h'.live = bufSetsMem be sets + h.live := by
  have hinit : BufSetsOk be [] 0 := ⟨by simp, rfl⟩
  have hrun : Triple 0 (ops.foldlM (BufSetOp.step be) []) (BufSetsOk be) :=
    Triple.foldlM (fun _ _ op _ hs => bufSetOp_ok hs op) hinit
  obtain ⟨sets, h', hsets, bs, hok, hlive⟩ := hrun h h.live (zero_add _).symm
  exact ⟨sets, h', hsets, hok.complete, by rw [hlive, hok.mem]⟩

end LightNvm
