import LightNvm.BbtCounters
import LightNvm.DevMem

/-! The memory of the managed bad-block tables: the entries of `dev->bbts` are pointers here, and the tables
that a device answers with lie in buffers that the functions of `nvm_bbt.c` give back with `free`. -/

namespace LightNvm

open Blocks

/-- An open device, with the block that each managed entry lies in. -/
structure BbtOwned (σ : Type) where
  host : BbtHost σ
  ptrs : Nat → Option Nat

def sizeofSpecBbt : Nat := 64

section

variable {σ : Type}

def BbtOwned.setEntry (s : BbtOwned σ) (k : Nat) (entry : Option Bbt) (p : Option Nat) : BbtOwned σ :=
  ⟨BbtCmds.setEntry s.host k entry, Function.update s.ptrs k p⟩

/-- `nvm_be_ioctl_gbbt` and `nvm_be_spdk_gbbt`: the buffer is the caller's when the command succeeds. -/
def gbbtMem (be : BeId) (c : BbtCmds σ) (s : BbtOwned σ) (addr : GAddr) :
    MemProg (Except Errno (Nat × SpecBbt) × BbtOwned σ) := do
  match ← be.nvmBufAlloc (sizeofSpecBbt + c.nblks) with
  | none => pure (.error .enomem, s)
  | some buf =>
    let r := c.nvmCmdGbbt s.host addr
    match r.1 with
    | .error e =>
      be.nvmBufFree (some buf)
      pure (.error e, { s with host := r.2 })
    | .ok spec => pure (.ok (buf, spec), { s with host := r.2 })

/-- `nvm_be_spdk_sbbt` has a list for the device unless there is one address; `nvm_be_ioctl_sbbt` has it on
its stack. -/
def sbbtMem (be : BeId) (c : BbtCmds σ) (s : BbtOwned σ) (addrs : List GAddr) (flags : UInt16) :
    MemProg (Except Errno Unit × BbtOwned σ) :=
  let r := c.nvmCmdSbbt s.host addrs flags
  if be = .spdk ∧ (addrs.length + 2 ^ 16 - 1) % 2 ^ 16 ≠ 0 then do
    match ← alloc .dma with
    | none => pure (.error .enomem, s)
    | some list =>
      free .dma (some list)
      pure (r.1, { s with host := r.2 })
  else pure (r.1, { s with host := r.2 })

/-- The updates that a flush submits have one address each. -/
def bbtFlushMem (be : BeId) (c : BbtCmds σ) (s : BbtOwned σ) (addr : GAddr) :
    MemProg (Except Errno Unit × BbtOwned σ) :=
  if nvmAddrCheckG addr c.geo ≠ 0 then pure (.error .einval, s)
  else
    match s.host.bbts (bbtIdx c.geo addr) with
    | none => pure (.ok (), s)
    | some cached => do
      match ← gbbtMem be c s addr with
      | (.error e, s) => pure (.error e, s)
      | (.ok (buf, spec), s) =>
        if cached.nblks ≠ spec.tblks then
          free .libc (some buf)
          pure (.error .einval, s)
        else
          let r := c.flushLoop cached spec (List.range cached.nblks) s.host
          let s := { s with host := r.2 }
          match r.1 with
          | .error e =>
            free .libc (some buf)
            pure (.error e, s)
          | .ok _ =>
            free .libc (some buf)
            free .libc (s.ptrs (bbtIdx c.geo addr))
            pure (.ok (), s.setEntry (bbtIdx c.geo addr) none none)

def bbtFlushAllLoopMem (be : BeId) (c : BbtCmds σ) :
    List Nat → BbtOwned σ → MemProg (Except Errno Unit × BbtOwned σ)
  | [], s => pure (.ok (), s)
  | i :: is, s => do
    match ← bbtFlushMem be c s (flushAllAddr c.geo i) with
    | (.error e, s) => pure (.error e, s)
    | (.ok _, s) => bbtFlushAllLoopMem be c is s

def bbtFlushAllMem (be : BeId) (c : BbtCmds σ) (s : BbtOwned σ) :
    MemProg (Except Errno Unit × BbtOwned σ) :=
  bbtFlushAllLoopMem be c (List.range c.nbbts) s

def bbtRefreshMem (be : BeId) (c : BbtCmds σ) (s : BbtOwned σ) (addr : GAddr) (bbt : Bbt) :
    MemProg (Except Errno Bbt × BbtOwned σ) := do
  let k := bbtIdx c.geo addr
  match ← gbbtMem be c s addr with
  | (.error e, s) =>
    free .libc (s.ptrs k)
    pure (.error e, s.setEntry k none none)
  | (.ok (buf, spec), s) =>
    if bbt.nblks ≠ spec.tblks then
      free .libc (s.ptrs k)
      free .libc (some buf)
      pure (.error .eio, s.setEntry k none none)
    else
      free .libc (some buf)
      pure (.ok (bbt.fill spec), s.setEntry k (some (bbt.fill spec)) (s.ptrs k))

def bbtGetMem (be : BeId) (c : BbtCmds σ) (s : BbtOwned σ) (addr : GAddr) :
    MemProg (Except Errno Bbt × BbtOwned σ) :=
  if nvmAddrCheckG addr c.geo ≠ 0 then pure (.error .einval, s)
  else
    match s.host.bbts (bbtIdx c.geo addr) with
    | some bbt => if s.host.bbtsCached then pure (.ok bbt, s) else bbtRefreshMem be c s addr bbt
    | none => do
      match ← alloc .libc with
      | none => pure (.error .enomem, s)
      | some p =>
        bbtRefreshMem be c { s with ptrs := Function.update s.ptrs (bbtIdx c.geo addr) (some p) } addr
          ⟨addr, c.nblks, 0, 0, 0, 0, fun _ => 0⟩

/-- The entry with the states that are stored in it. -/
def BbtOwned.store (s : BbtOwned σ) (k : Nat) (bbt : Bbt) : BbtOwned σ :=
  { s with host := BbtCmds.setEntry s.host k (some (refreshed bbt)) }

def bbtSetMem (be : BeId) (c : BbtCmds σ) (s : BbtOwned σ) (bbt : Bbt) (shared : Option Nat) :
    MemProg (Except Errno Unit × BbtOwned σ) :=
  if nvmAddrCheckG bbt.addr c.geo ≠ 0 then pure (.error .einval, s)
  else do
    match ← bbtGetMem be c s bbt.addr with
    | (.error e, s) => pure (.error e, s)
    | (.ok entry, s) =>
      let src := (shared.bind s.host.bbts).getD bbt
      let entry := { entry with blks := fun i => if i < src.nblks then src.blks i else entry.blks i }
      let s := s.store (bbtIdx c.geo bbt.addr) entry
      if s.host.bbtsCached then pure (.ok (), s) else bbtFlushMem be c s bbt.addr

def bbtMarkLoopMem (be : BeId) (c : BbtCmds σ) (flags : UInt16) :
    List GAddr → BbtOwned σ → MemProg (Except Errno Unit × BbtOwned σ)
  | [], s => pure (.ok (), s)
  | addr :: addrs, s => do
    match ← bbtGetMem be c s addr with
    | (.error e, s) => pure (.error e, s)
    | (.ok entry, s) =>
      let entry := { entry with blks := Function.update entry.blks (blkIdx c.geo addr) flags.toUInt8 }
      bbtMarkLoopMem be c flags addrs (s.store (bbtIdx c.geo addr) entry)

def bbtMarkMem (be : BeId) (c : BbtCmds σ) (s : BbtOwned σ) (addrs : List GAddr) (flags : UInt16) :
    MemProg (Except Errno Unit × BbtOwned σ) :=
  if !s.host.bbtsCached then sbbtMem be c s addrs flags else bbtMarkLoopMem be c flags addrs s

def BbtCall.execMem (be : BeId) (c : BbtCmds σ) (s : BbtOwned σ) : BbtCall → MemProg (BbtOwned σ)
  | .get addr => Prod.snd <$> bbtGetMem be c s addr
  | .set bbt => Prod.snd <$> bbtSetMem be c s bbt none
  | .setShared k =>
    match s.host.bbts k with
    | none => pure s
    | some bbt => Prod.snd <$> bbtSetMem be c s bbt (some k)
  | .mark addrs flags => Prod.snd <$> bbtMarkMem be c s addrs flags
  | .flush addr => Prod.snd <$> bbtFlushMem be c s addr
  | .flushAll => Prod.snd <$> bbtFlushAllMem be c s
  | .setBbtsCached v => pure { s with host := (BbtCmds.nvmDevSetBbtsCached s.host v).2 }

/-! The device model that these functions run over: allocations are answered by the heap. -/

/-- The commands of a device whose host answers its `n`-th request for memory with `grants n`. -/
def BbtCmds.withMem (c : BbtCmds σ) (grants : Nat → Bool) : BbtCmds (σ × Nat) where
  geo := c.geo
  malloc dev := (grants dev.2, (dev.1, dev.2 + 1))
  gbbt dev addr :=
    if grants dev.2 then ((c.gbbt dev.1 addr).1, ((c.gbbt dev.1 addr).2, dev.2 + 1))
    else (.error .enomem, (dev.1, dev.2 + 1))
  sbbt dev addrs flags := ((c.sbbt dev.1 addrs flags).1, ((c.sbbt dev.1 addrs flags).2, dev.2))

def BbtHost.after (s : BbtHost σ) (n : Nat) : BbtHost (σ × Nat) := ⟨s.bbtsCached, s.bbts, (s.dev, n)⟩

/-- Each entry has a block, and there are no blocks but theirs. -/
structure BbtOwned.Holds (n : Nat) (s : BbtOwned σ) (frame : Mem) (h : Heap Allocator) : Prop where
  entries : ∀ k, (s.ptrs k).isSome = (s.host.bbts k).isSome
  live : h.live = table Allocator.libc n s.ptrs + frame

/-- A call has come out as the device model has it, with a block for each entry. -/
structure BbtOwned.Follows {ρ : Type} (n : Nat) (frame : Mem) (h : Heap Allocator)
    (expect : ρ × BbtHost (σ × Nat)) (r : ρ × BbtOwned σ) (h' : Heap Allocator) : Prop where
  holds : r.2.Holds n frame h'
  grants : h'.grants = h.grants
  expect : expect = (r.1, r.2.host.after h'.next)

/-! Each call. -/

variable {be : BeId} {c : BbtCmds σ} {s : BbtOwned σ} {frame : Mem} {h : Heap Allocator}

theorem nvmBufAlloc_libc (hbe : be.allocator = some .libc) {nbytes : Nat} (hn : nbytes ≠ 0) :
    be.nvmBufAlloc nbytes = alloc .libc := by
  rw [BeId.nvmBufAlloc, if_neg hn, hbe]

theorem nvmBufFree_libc (hbe : be.allocator = some .libc) (buf : Option Nat) :
    be.nvmBufFree buf = free .libc buf := by
  rw [BeId.nvmBufFree, hbe]

theorem flushLoop_withMem (grants : Nat → Bool) (cached : Bbt) (spec : SpecBbt) (is : List Nat)
    (s : BbtHost σ) (n : Nat) :
    (c.withMem grants).flushLoop cached spec is (s.after n) =
      ((c.flushLoop cached spec is s).1, (c.flushLoop cached spec is s).2.after n) := by
  induction is generalizing s with
  | nil => rfl
  | cons i is ih =>
    rw [BbtCmds.flushLoop, BbtCmds.flushLoop]
    by_cases heq : cached.blks i = spec.blk i
    · rw [if_pos heq, if_pos heq]
      exact ih s
    · rw [if_neg heq, if_neg heq]
      dsimp only [BbtCmds.nvmCmdSbbt, BbtCmds.withMem, BbtHost.after]
      generalize c.sbbt s.dev _ _ = r
      obtain ⟨_ | _, dev⟩ := r
      · rfl
      · exact ih { s with dev := dev }

/-- The buffer of a table that was answered is live, and nothing else has changed. -/
structure TableAnswered (c : BbtCmds σ) (s : BbtOwned σ) (addr : GAddr) (h : Heap Allocator)
    (r : Except Errno (Nat × SpecBbt) × BbtOwned σ) (h' : Heap Allocator) : Prop where
  grants : h'.grants = h.grants
  ptrs : r.2.ptrs = s.ptrs
  bbts : r.2.host.bbts = s.host.bbts
  cached : r.2.host.bbtsCached = s.host.bbtsCached
  live : h'.live = held .libc (r.1.toOption.map Prod.fst) + h.live
  expect : (c.withMem h.grants).nvmCmdGbbt (s.host.after h.next) addr =
    (r.1.map Prod.snd, r.2.host.after h'.next)

theorem ends_gbbtMem (hbe : be.allocator = some .libc) (s : BbtOwned σ) (addr : GAddr) (h : Heap Allocator) :
    Ends (gbbtMem be c s addr) h (TableAnswered c s addr h) := by
  have hn : sizeofSpecBbt + c.nblks ≠ 0 := by
    rw [sizeofSpecBbt]
    omega
  rw [gbbtMem, nvmBufAlloc_libc hbe hn]
  refine (ends_alloc .libc h).bind fun buf h' hbuf => ?_
  obtain ⟨hsome, hgrants, hnext, hlive⟩ := hbuf
  cases buf with
  | none =>
    have hno : h.grants h.next = false := by simpa using hsome.symm
    refine Ends.pure ⟨hgrants, rfl, rfl, rfl, hlive, ?_⟩
    simp only [BbtCmds.nvmCmdGbbt, BbtCmds.withMem, BbtHost.after, hno, hnext]
    rfl
  | some buf =>
    have hyes : h.grants h.next = true := by simpa using hsome.symm
    dsimp only
    cases hr : (c.gbbt s.host.dev addr).1 with
    | error e =>
      simp only [BbtCmds.nvmCmdGbbt, hr, nvmBufFree_libc hbe]
      refine (ends_free hlive).bind fun _ h'' hfree => ?_
      obtain ⟨hgrants', hnext', hlive'⟩ := hfree
      refine Ends.pure ⟨hgrants'.trans hgrants, rfl, rfl, rfl, by rw [hlive']; exact (zero_add _).symm, ?_⟩
      simp only [BbtCmds.nvmCmdGbbt, BbtCmds.withMem, BbtHost.after, hyes, if_true, hr, hnext', hnext]
      rfl
    | ok spec =>
      simp only [BbtCmds.nvmCmdGbbt, hr]
      refine Ends.pure ⟨hgrants, rfl, rfl, rfl, hlive, ?_⟩
      simp only [BbtCmds.nvmCmdGbbt, BbtCmds.withMem, BbtHost.after, hyes, if_true, hr, hnext]
      rfl

theorem BbtOwned.Holds.setEntry {n k : Nat}
    (hents : ∀ j, j ≠ k → (s.ptrs j).isSome = (s.host.bbts j).isSome) {entry : Option Bbt}
    {p : Option Nat} (hp : p.isSome = entry.isSome)
    (hlive : h.live = table Allocator.libc n (Function.update s.ptrs k p) + frame) :
    (s.setEntry k entry p).Holds n frame h := by
  refine ⟨fun j => ?_, hlive⟩
  by_cases hj : j = k
  · subst hj
    simpa [BbtOwned.setEntry, BbtCmds.setEntry] using hp
  · simpa [BbtOwned.setEntry, BbtCmds.setEntry, Function.update_of_ne hj] using hents j hj

theorem bbtIdx_lt {addr : GAddr} (ha : nvmAddrCheckG addr c.geo = 0) : bbtIdx c.geo addr < c.nbbts :=
  Striping.digits_lt (nvmAddrCheckG_eq_zero.mp ha).1 (nvmAddrCheckG_eq_zero.mp ha).2.1

theorem ends_bbtFlushMem (hbe : be.allocator = some .libc) (hh : s.Holds c.nbbts frame h) (addr : GAddr) :
    Ends (bbtFlushMem be c s addr) h
      (BbtOwned.Follows c.nbbts frame h ((c.withMem h.grants).nvmBbtFlush (s.host.after h.next) addr)) := by
  rw [bbtFlushMem, BbtCmds.nvmBbtFlush]
  by_cases hcheck : nvmAddrCheckG addr c.geo ≠ 0
  · rw [if_pos hcheck, if_pos (show nvmAddrCheckG addr (c.withMem h.grants).geo ≠ 0 from hcheck)]
    exact Ends.pure ⟨hh, rfl, rfl⟩
  · rw [if_neg hcheck, if_neg (show ¬ nvmAddrCheckG addr (c.withMem h.grants).geo ≠ 0 from hcheck)]
    have hlt : bbtIdx c.geo addr < c.nbbts := bbtIdx_lt (not_not.mp hcheck)
    have hentry : (s.host.after h.next).bbts (bbtIdx (c.withMem h.grants).geo addr) =
      s.host.bbts (bbtIdx c.geo addr) := rfl
    rw [hentry]
    cases hcached : s.host.bbts (bbtIdx c.geo addr) with
    | none => exact Ends.pure ⟨hh, rfl, rfl⟩
    | some cached =>
      dsimp only
      refine (ends_gbbtMem hbe s addr h).bind fun r h' hr => ?_
      obtain ⟨answer, s'⟩ := r
      obtain ⟨hgrants, hptrs, hbbts, -, hlive, hexpect⟩ := hr
      dsimp only at hptrs hbbts
      have hents : ∀ k, (s'.ptrs k).isSome = (s'.host.bbts k).isSome := by
        rw [hptrs, hbbts]
        exact hh.entries
      rw [hexpect]
      cases answer with
      | error e =>
        refine Ends.pure ⟨⟨hents, ?_⟩, hgrants, rfl⟩
        rw [hlive, hptrs]
        exact (zero_add _).trans hh.live
      | ok answer =>
        obtain ⟨buf, spec⟩ := answer
        dsimp only [Except.map, Except.toOption, Option.map] at hlive ⊢
        split_ifs with hnblks
        · refine (ends_free hlive).bind fun _ h'' hfree => ?_
          obtain ⟨hgrants', hnext', hlive'⟩ := hfree
          refine Ends.pure ⟨⟨hents, ?_⟩, hgrants'.trans hgrants, ?_⟩
          · rw [hlive', hptrs, hh.live]
          · rw [hnext']
        · have hloop := flushLoop_withMem (c := c) h.grants cached spec (List.range cached.nblks) s'.host
            h'.next
          have hbbts' := BbtCmds.flushLoop_bbts (c := c) cached spec (List.range cached.nblks) s'.host
          rw [hloop]
          generalize c.flushLoop cached spec (List.range cached.nblks) s'.host = r at hbbts' ⊢
          obtain ⟨res, host⟩ := r
          have hents' : ∀ k, (s'.ptrs k).isSome = (host.bbts k).isSome := by
            rw [hbbts']
            exact hents
          cases res with
          | error e =>
            refine (ends_free hlive).bind fun _ h'' hfree => ?_
            obtain ⟨hgrants', hnext', hlive'⟩ := hfree
            refine Ends.pure ⟨⟨hents', ?_⟩, hgrants'.trans hgrants, ?_⟩
            · rw [hlive', hptrs, hh.live]
            · rw [hnext']
          | ok _ =>
            refine (ends_free hlive).bind fun _ h'' hfree => ?_
            obtain ⟨hgrants', hnext', hlive'⟩ := hfree
            have hentry : h''.live = held .libc (s'.ptrs (bbtIdx c.geo addr)) +
                (table Allocator.libc c.nbbts (Function.update s'.ptrs (bbtIdx c.geo addr) none) + frame) := by
              rw [hlive', hh.live, hptrs, table_eq Allocator.libc hlt s.ptrs, add_assoc]
            refine (ends_free hentry).bind fun _ h₃ hfree => ?_
            obtain ⟨hgrants₃, hnext₃, hlive₃⟩ := hfree
            refine Ends.pure ⟨BbtOwned.Holds.setEntry (fun j _ => hents' j) rfl hlive₃,
              hgrants₃.trans (hgrants'.trans hgrants), ?_⟩
            rw [hnext₃, hnext']
            rfl

theorem ends_bbtFlushAllLoopMem (hbe : be.allocator = some .libc) (is : List Nat) {s : BbtOwned σ}
    {h : Heap Allocator} (hh : s.Holds c.nbbts frame h) :
    Ends (bbtFlushAllLoopMem be c is s) h
      (BbtOwned.Follows c.nbbts frame h ((c.withMem h.grants).flushAllLoop is (s.host.after h.next))) := by
  induction is generalizing s h with
  | nil => exact Ends.pure ⟨hh, rfl, rfl⟩
  | cons i is ih =>
    rw [bbtFlushAllLoopMem, BbtCmds.flushAllLoop]
    refine (ends_bbtFlushMem hbe hh _).bind fun r h' hr => ?_
    obtain ⟨res, s'⟩ := r
    have hexpect : (c.withMem h.grants).nvmBbtFlush (s.host.after h.next)
        (flushAllAddr (c.withMem h.grants).geo i) = (res, s'.host.after h'.next) := hr.expect
    rw [hexpect]
    cases res with
    | error e => exact Ends.pure ⟨hr.holds, hr.grants, rfl⟩
    | ok _ =>
      refine (ih hr.holds).mono fun r h'' hrest => ?_
      exact ⟨hrest.holds, hrest.grants.trans hr.grants, by rw [← hrest.expect, hr.grants]⟩

/-- `p` is the block of the entry that is filled: the one there was, or fresh memory. -/
theorem ends_bbtRefreshMem (hbe : be.allocator = some .libc) {addr : GAddr}
    (ha : nvmAddrCheckG addr c.geo = 0)
    (hents : ∀ j, j ≠ bbtIdx c.geo addr → (s.ptrs j).isSome = (s.host.bbts j).isSome)
    (hp : (s.ptrs (bbtIdx c.geo addr)).isSome = true)
    (hlive : h.live = table Allocator.libc c.nbbts s.ptrs + frame) (bbt : Bbt) :
    Ends (bbtRefreshMem be c s addr bbt) h (BbtOwned.Follows c.nbbts frame h
      ((c.withMem h.grants).bbtRefresh (s.host.after h.next) addr bbt)) := by
  have hlt : bbtIdx c.geo addr < c.nbbts := bbtIdx_lt ha
  rw [bbtRefreshMem, BbtCmds.bbtRefresh]
  refine (ends_gbbtMem hbe s addr h).bind fun r h' hr => ?_
  obtain ⟨answer, s'⟩ := r
  obtain ⟨hgrants, hptrs, hbbts, -, hlive', hexpect⟩ := hr
  dsimp only at hptrs hbbts
  have hents' : ∀ j, j ≠ bbtIdx c.geo addr → (s'.ptrs j).isSome = (s'.host.bbts j).isSome := by
    rw [hptrs, hbbts]
    exact hents
  have hsplit : table Allocator.libc c.nbbts s.ptrs = held .libc (s'.ptrs (bbtIdx c.geo addr)) +
      table Allocator.libc c.nbbts (Function.update s'.ptrs (bbtIdx c.geo addr) none) := by
    rw [hptrs]
    exact table_eq Allocator.libc hlt s.ptrs
  rw [hexpect]
  cases answer with
  | error e =>
    have hentry : h'.live = held .libc (s'.ptrs (bbtIdx c.geo addr)) +
        (table Allocator.libc c.nbbts (Function.update s'.ptrs (bbtIdx c.geo addr) none) + frame) := by
      rw [hlive', hlive, hsplit, add_assoc]
      exact zero_add _
    refine (ends_free hentry).bind fun _ h'' hfree => ?_
    obtain ⟨hgrants', hnext', hlive''⟩ := hfree
    refine Ends.pure ⟨BbtOwned.Holds.setEntry hents' rfl hlive'', hgrants'.trans hgrants, ?_⟩
    rw [hnext']
    rfl
  | ok answer =>
    obtain ⟨buf, spec⟩ := answer
    dsimp only [Except.map, Except.toOption, Option.map] at hlive' ⊢
    split_ifs with hnblks
    · have hentry : h'.live = held .libc (s'.ptrs (bbtIdx c.geo addr)) + (held .libc (some buf) +
          (table Allocator.libc c.nbbts (Function.update s'.ptrs (bbtIdx c.geo addr) none) + frame)) := by
        rw [hlive', hlive, hsplit]
        ac_rfl
      refine (ends_free hentry).bind fun _ h₂ hfree => ?_
      obtain ⟨hgrants₂, hnext₂, hlive₂⟩ := hfree
      refine (ends_free hlive₂).bind fun _ h₃ hfree => ?_
      obtain ⟨hgrants₃, hnext₃, hlive₃⟩ := hfree
      refine Ends.pure ⟨BbtOwned.Holds.setEntry hents' rfl hlive₃,
        hgrants₃.trans (hgrants₂.trans hgrants), ?_⟩
      rw [hnext₃, hnext₂]
      rfl
    · refine (ends_free hlive').bind fun _ h₂ hfree => ?_
      obtain ⟨hgrants₂, hnext₂, hlive₂⟩ := hfree
      refine Ends.pure ⟨BbtOwned.Holds.setEntry hents' (by rw [hptrs, hp]; rfl) ?_,
        hgrants₂.trans hgrants, ?_⟩
      · rw [hlive₂, hlive, Function.update_eq_self, hptrs]
      · rw [hnext₂]
        rfl

theorem ends_bbtGetMem (hbe : be.allocator = some .libc) (hh : s.Holds c.nbbts frame h) (addr : GAddr) :
    Ends (bbtGetMem be c s addr) h
      (BbtOwned.Follows c.nbbts frame h ((c.withMem h.grants).nvmBbtGet (s.host.after h.next) addr)) := by
  rw [bbtGetMem, BbtCmds.nvmBbtGet]
  by_cases hcheck : nvmAddrCheckG addr c.geo ≠ 0
  · rw [if_pos hcheck, if_pos (show nvmAddrCheckG addr (c.withMem h.grants).geo ≠ 0 from hcheck)]
    exact Ends.pure ⟨hh, rfl, rfl⟩
  · rw [if_neg hcheck, if_neg (show ¬ nvmAddrCheckG addr (c.withMem h.grants).geo ≠ 0 from hcheck)]
    have ha : nvmAddrCheckG addr c.geo = 0 := not_not.mp hcheck
    have hentry : (s.host.after h.next).bbts (bbtIdx (c.withMem h.grants).geo addr) =
      s.host.bbts (bbtIdx c.geo addr) := rfl
    rw [hentry]
    cases hbbt : s.host.bbts (bbtIdx c.geo addr) with
    | some bbt =>
      dsimp only
      by_cases hon : s.host.bbtsCached = true
      · rw [if_pos hon, if_pos (show (s.host.after h.next).bbtsCached = true from hon)]
        exact Ends.pure ⟨hh, rfl, rfl⟩
      · rw [if_neg hon, if_neg (show ¬ (s.host.after h.next).bbtsCached = true from hon)]
        have hp : (s.ptrs (bbtIdx c.geo addr)).isSome = true := by rw [hh.entries, hbbt]; rfl
        exact ends_bbtRefreshMem hbe ha (fun j _ => hh.entries j) hp hh.live bbt
    | none =>
      dsimp only
      refine (ends_alloc .libc h).bind fun p h' hp => ?_
      obtain ⟨hsome, hgrants, hnext, hlive⟩ := hp
      cases p with
      | none =>
        have hno : h.grants h.next = false := by simpa using hsome.symm
        refine Ends.pure ⟨⟨hh.entries, ?_⟩, hgrants, ?_⟩
        · rw [hlive, held_none, zero_add, hh.live]
        · simp only [BbtCmds.withMem, BbtHost.after, hno, hnext]
          rfl
      | some p =>
        have hyes : h.grants h.next = true := by simpa using hsome.symm
        have hnull : s.ptrs (bbtIdx c.geo addr) = none := by
          have hent := hh.entries (bbtIdx c.geo addr)
          rw [hbbt] at hent
          exact Option.not_isSome_iff_eq_none.mp (by simpa using hent)
        have hfresh : h'.live = table Allocator.libc c.nbbts
            (Function.update s.ptrs (bbtIdx c.geo addr) (some p)) + frame := by
          rw [hlive, hh.live, table_update Allocator.libc (bbtIdx_lt ha), ← hnull,
            Function.update_eq_self, add_assoc]
        refine (ends_bbtRefreshMem hbe ha ?_ (by simp) hfresh _).mono fun r h'' hr => ?_
        · intro j hj
          simpa [Function.update_of_ne hj] using hh.entries j
        · refine ⟨hr.holds, hr.grants.trans hgrants, ?_⟩
          rw [← hr.expect, hgrants, hnext]
          simp only [BbtCmds.withMem, BbtHost.after, hyes, if_true]
          rfl

/-- A table that is returned is the managed entry. -/
theorem nvmBbtGet_entry {s s' : BbtHost σ} {addr : GAddr} {bbt : Bbt}
    (hget : c.nvmBbtGet s addr = (.ok bbt, s')) : s'.bbts (bbtIdx c.geo addr) = some bbt := by
  have hrefresh : ∀ (s : BbtHost σ) (entry : Bbt), c.bbtRefresh s addr entry = (.ok bbt, s') →
      s'.bbts (bbtIdx c.geo addr) = some bbt := by
    intro s entry hr
    rw [BbtCmds.bbtRefresh] at hr
    generalize c.nvmCmdGbbt s addr = r at hr
    obtain ⟨_ | spec, s''⟩ := r
    · cases hr
    · dsimp only at hr
      split_ifs at hr
      · cases hr
      · cases hr
        exact Function.update_self ..
  rw [BbtCmds.nvmBbtGet] at hget
  by_cases hcheck : nvmAddrCheckG addr c.geo ≠ 0
  · rw [if_pos hcheck] at hget
    cases hget
  · rw [if_neg hcheck] at hget
    cases hbbt : s.bbts (bbtIdx c.geo addr) with
    | some entry =>
      rw [hbbt] at hget
      dsimp only at hget
      split_ifs at hget with hon
      · cases hget
        exact hbbt
      · exact hrefresh s entry hget
    | none =>
      rw [hbbt] at hget
      dsimp only at hget
      split_ifs at hget
      · exact hrefresh _ _ hget
      · cases hget

theorem BbtOwned.Holds.store {n k : Nat} (hh : s.Holds n frame h) (hk : (s.host.bbts k).isSome = true)
    (bbt : Bbt) : (s.store k bbt).Holds n frame h := by
  refine ⟨fun j => ?_, hh.live⟩
  by_cases hj : j = k
  · subst hj
    rw [BbtOwned.store, BbtCmds.setEntry]
    simpa [hk] using hh.entries j
  · simpa [BbtOwned.store, BbtCmds.setEntry, Function.update_of_ne hj] using hh.entries j

/-- After a retrieval the entry is there to be written to. -/
theorem BbtOwned.Follows.entry {addr : GAddr} {n : Nat} {h h' : Heap Allocator} {bbt : Bbt} {s' : BbtOwned σ}
    (hr : BbtOwned.Follows n frame h ((c.withMem h.grants).nvmBbtGet (s.host.after h.next) addr)
      (.ok bbt, s') h') : (s'.host.bbts (bbtIdx c.geo addr)).isSome = true :=
  Option.isSome_iff_exists.mpr ⟨bbt, nvmBbtGet_entry (c := c.withMem h.grants) hr.expect⟩

theorem ends_bbtSetMem (hbe : be.allocator = some .libc) (hh : s.Holds c.nbbts frame h) (bbt : Bbt)
    (shared : Option Nat) :
    Ends (bbtSetMem be c s bbt shared) h (BbtOwned.Follows c.nbbts frame h
      ((c.withMem h.grants).nvmBbtSet (s.host.after h.next) bbt shared)) := by
  rw [bbtSetMem, BbtCmds.nvmBbtSet]
  by_cases hcheck : nvmAddrCheckG bbt.addr c.geo ≠ 0
  · rw [if_pos hcheck, if_pos (show nvmAddrCheckG bbt.addr (c.withMem h.grants).geo ≠ 0 from hcheck)]
    exact Ends.pure ⟨hh, rfl, rfl⟩
  · rw [if_neg hcheck, if_neg (show ¬ nvmAddrCheckG bbt.addr (c.withMem h.grants).geo ≠ 0 from hcheck)]
    refine (ends_bbtGetMem hbe hh bbt.addr).bind fun r h' hr => ?_
    obtain ⟨res, s'⟩ := r
    rw [show (c.withMem h.grants).nvmBbtGet (s.host.after h.next) bbt.addr = (res, s'.host.after h'.next)
      from hr.expect]
    cases res with
    | error e => exact Ends.pure ⟨hr.holds, hr.grants, rfl⟩
    | ok entry =>
      dsimp only
      have hstore := hr.holds.store hr.entry
      by_cases hon : s'.host.bbtsCached = true
      · rw [if_pos (show (s'.store _ _).host.bbtsCached = true from hon), if_pos (show
          (BbtCmds.setEntry (s'.host.after h'.next) _ _).bbtsCached = true from hon)]
        exact Ends.pure ⟨hstore _, hr.grants, rfl⟩
      · rw [if_neg (show ¬ (s'.store _ _).host.bbtsCached = true from hon), if_neg (show
          ¬ (BbtCmds.setEntry (s'.host.after h'.next) _ _).bbtsCached = true from hon)]
        refine (ends_bbtFlushMem hbe (hstore _) bbt.addr).mono fun r h'' hrest => ?_
        refine ⟨hrest.holds, hrest.grants.trans hr.grants, ?_⟩
        rw [← hrest.expect, hr.grants]
        rfl

theorem ends_bbtMarkLoopMem (hbe : be.allocator = some .libc) (flags : UInt16) (addrs : List GAddr)
    {s : BbtOwned σ} {h : Heap Allocator} (hh : s.Holds c.nbbts frame h) :
    Ends (bbtMarkLoopMem be c flags addrs s) h (BbtOwned.Follows c.nbbts frame h
      ((c.withMem h.grants).markLoop flags addrs (s.host.after h.next))) := by
  induction addrs generalizing s h with
  | nil => exact Ends.pure ⟨hh, rfl, rfl⟩
  | cons addr addrs ih =>
    rw [bbtMarkLoopMem, BbtCmds.markLoop]
    refine (ends_bbtGetMem hbe hh addr).bind fun r h' hr => ?_
    obtain ⟨res, s'⟩ := r
    rw [show (c.withMem h.grants).nvmBbtGet (s.host.after h.next) addr = (res, s'.host.after h'.next)
      from hr.expect]
    cases res with
    | error e => exact Ends.pure ⟨hr.holds, hr.grants, rfl⟩
    | ok entry =>
      refine (ih (hr.holds.store hr.entry _)).mono fun r h'' hrest => ?_
      refine ⟨hrest.holds, hrest.grants.trans hr.grants, ?_⟩
      rw [← hrest.expect, hr.grants]
      rfl

theorem sbbtMem_of_ne (hbe : be ≠ .spdk) (s : BbtOwned σ) (addrs : List GAddr) (flags : UInt16) :
    sbbtMem be c s addrs flags = pure ((c.nvmCmdSbbt s.host addrs flags).1,
      { s with host := (c.nvmCmdSbbt s.host addrs flags).2 }) := by
  rw [sbbtMem]
  exact if_neg fun hcond => hbe hcond.1

theorem ends_bbtMarkMem (hbe : be.allocator = some .libc) (hh : s.Holds c.nbbts frame h) (addrs : List GAddr)
    (flags : UInt16) :
    Ends (bbtMarkMem be c s addrs flags) h (BbtOwned.Follows c.nbbts frame h
      ((c.withMem h.grants).nvmBbtMark (s.host.after h.next) addrs flags)) := by
  have hspdk : be ≠ .spdk := by
    rintro rfl
    cases hbe
  rw [bbtMarkMem, BbtCmds.nvmBbtMark, sbbtMem_of_ne hspdk]
  by_cases hon : s.host.bbtsCached = true
  · rw [if_neg (by simp [hon]), if_neg (by simp [show (s.host.after h.next).bbtsCached = true from hon])]
    exact ends_bbtMarkLoopMem hbe flags addrs hh
  · rw [Bool.not_eq_true] at hon
    rw [if_pos (by simp [hon]), if_pos (by simp [show (s.host.after h.next).bbtsCached = false from hon])]
    exact Ends.pure ⟨⟨hh.entries, hh.live⟩, rfl, rfl⟩

/-! Runs of calls, between the opening of a device and its close. -/

/-- The same for calls whose result is not looked at. -/
structure BbtOwned.Reaches (n : Nat) (frame : Mem) (h : Heap Allocator) (expect : BbtHost (σ × Nat))
    (s : BbtOwned σ) (h' : Heap Allocator) : Prop where
  holds : s.Holds n frame h'
  grants : h'.grants = h.grants
  expect : expect = s.host.after h'.next

theorem ends_state {ρ : Type} {m : MemProg (ρ × BbtOwned σ)} {expect : ρ × BbtHost (σ × Nat)} {n : Nat}
    (hm : Ends m h (BbtOwned.Follows n frame h expect)) :
    Ends (Prod.snd <$> m) h (BbtOwned.Reaches n frame h expect.2) := by
  rw [map_eq_pure_bind]
  refine hm.bind fun r h' hr => Ends.pure ⟨hr.holds, hr.grants, ?_⟩
  rw [hr.expect]

theorem ends_execMem (hbe : be.allocator = some .libc) (hh : s.Holds c.nbbts frame h) (call : BbtCall) :
    Ends (call.execMem be c s) h (BbtOwned.Reaches c.nbbts frame h
      (call.exec (c.withMem h.grants) (s.host.after h.next))) := by
  cases call with
  | get addr => exact ends_state (ends_bbtGetMem hbe hh addr)
  | set bbt => exact ends_state (ends_bbtSetMem hbe hh bbt none)
  | setShared k =>
    rw [BbtCall.execMem, BbtCall.exec]
    have hentry : (s.host.after h.next).bbts k = s.host.bbts k := rfl
    rw [hentry]
    cases s.host.bbts k with
    | none => exact Ends.pure ⟨hh, rfl, rfl⟩
    | some bbt => exact ends_state (ends_bbtSetMem hbe hh bbt (some k))
  | mark addrs flags => exact ends_state (ends_bbtMarkMem hbe hh addrs flags)
  | flush addr => exact ends_state (ends_bbtFlushMem hbe hh addr)
  | flushAll => exact ends_state (ends_bbtFlushAllLoopMem hbe _ hh)
  | setBbtsCached v =>
    refine Ends.pure ⟨⟨fun k => ?_, hh.live⟩, rfl, ?_⟩
    · rw [hh.entries, BbtCmds.nvmDevSetBbtsCached]
      split_ifs <;> rfl
    · rw [BbtCall.exec, BbtCmds.nvmDevSetBbtsCached, BbtCmds.nvmDevSetBbtsCached]
      split_ifs <;> rfl

theorem ends_calls (hbe : be.allocator = some .libc) (calls : List BbtCall) {s : BbtOwned σ}
    {h : Heap Allocator} (hh : s.Holds c.nbbts frame h) :
    Ends (calls.foldlM (BbtCall.execMem be c) s) h (BbtOwned.Reaches c.nbbts frame h
      (Runs.run (BbtCall.exec (c.withMem h.grants)) (s.host.after h.next) calls)) := by
  induction calls generalizing s h with
  | nil => exact Ends.pure ⟨hh, rfl, rfl⟩
  | cons call calls ih =>
    rw [List.foldlM_cons, Runs.run_cons]
    refine (ends_execMem hbe hh call).bind fun s' h' hr => ?_
    refine (ih hr.holds).mono fun s'' h'' hrest => ?_
    exact ⟨hrest.holds, hrest.grants.trans hr.grants, by rw [← hrest.expect, hr.expect, hr.grants]⟩

end

/-- The blocks of an open device: the device, the state of the backend, and the array of its tables. -/
structure DevBlocks where
  dev : Nat
  beState : Nat
  bbts : Nat
  deriving DecidableEq, Repr

/-- What the system answers while `nvm_be_ioctl_open` runs. -/
structure OpenAnswers where
  pathFits : Bool
  opens : Bool
  fstat : Bool
  isBlk : Bool
  nsid : Bool
  identify : Bool
  populate : Bool

def OpenAnswers.probes (o : OpenAnswers) : Bool := o.fstat && o.isBlk && o.nsid && o.identify

/-- The device is not given back where it cannot be probed. -/
def nvmBeIoctlOpenMem (be : BeId) (o : OpenAnswers) (nbytes : Nat) : MemProg (Option (Nat × Nat)) :=
  if !o.pathFits then pure none
  else do
    match ← alloc .libc with
    | none => pure none
    | some dev =>
      if !o.opens then
        free .libc (some dev)
        pure none
      else if !o.probes then pure none
      else if !o.populate then
        free .libc (some dev)
        pure none
      else
        match ← be.nvmBufAlloc nbytes with
        | none =>
          free .libc (some dev)
          pure none
        | some beState => pure (some (dev, beState))

/-- `nvm_dev_openf`; it does not close the device when there is no memory for the array. -/
def nvmDevOpenfMem (be : BeId) (o : OpenAnswers) (nbytes : Nat) : MemProg (Option DevBlocks) := do
  match ← nvmBeIoctlOpenMem be o nbytes with
  | none => pure none
  | some (dev, beState) =>
    match ← alloc .libc with
    | none => pure none
    | some bbts => pure (some ⟨dev, beState, bbts⟩)

def nvmDevCloseMem {σ : Type} (be : BeId) (c : BbtCmds σ) (d : DevBlocks) (s : BbtOwned σ) :
    MemProg (BbtOwned σ) := do
  let s ← Prod.snd <$> bbtFlushAllMem be c s
  be.nvmBufFree (some d.beState)
  free .libc (some d.bbts)
  free .libc (some d.dev)
  pure s

def BbtOwned.opened {σ : Type} (dev : σ) : BbtOwned σ :=
  ⟨⟨false, fun _ => none, dev⟩, fun _ => none⟩

/-- A device is opened, used and closed. -/
def deviceSession {σ : Type} (be : BeId) (c : BbtCmds σ) (o : OpenAnswers) (nbytes : Nat) (dev : σ)
    (calls : List BbtCall) : MemProg (Option (BbtOwned σ)) := do
  match ← nvmDevOpenfMem be o nbytes with
  | none => pure none
  | some d =>
    let s ← calls.foldlM (BbtCall.execMem be c) (.opened dev)
    some <$> nvmDevCloseMem be c d s

def DevBlocks.mem (be : BeId) (d : DevBlocks) : Mem :=
  bufMem be (some d.beState) + (held .libc (some d.bbts) + held .libc (some d.dev))

/-- What is lost when a device does not open: nothing, the device where it could not be probed, or the
device and the state of its backend where there was no memory for the array. -/
def OpenAnswers.Loses (o : OpenAnswers) (lost : Mem) : Prop :=
  lost = 0 ∨ (o.pathFits ∧ o.opens ∧ o.probes = false ∧ lost.card = 1) ∨
    (o.pathFits ∧ o.opens ∧ o.probes ∧ o.populate ∧ lost.card = 2)

/-- The tables whose flush failed are still allocated behind the close, and nothing else; they are those that
the device model has left. -/
def SessionLeaves {σ : Type} (c : BbtCmds σ) (o : OpenAnswers) (dev : σ) (calls : List BbtCall)
    (h : Heap Allocator) (r : Option (BbtOwned σ)) (h' : Heap Allocator) : Prop :=
  match r with
  | none => ∃ lost, h'.live = lost + h.live ∧ o.Loses lost
  | some s => h'.live = table .libc c.nbbts s.ptrs + h.live ∧
      (∀ k, (s.ptrs k).isSome = (s.host.bbts k).isSome) ∧
      ∃ n, s.host.after h'.next = ((c.withMem h.grants).nvmBbtFlushAll (Runs.run
        (BbtCall.exec (c.withMem h.grants)) ((BbtOwned.opened dev).host.after n) calls)).2

/-- An opened device owns its three blocks. -/
structure OpensTo (be : BeId) (o : OpenAnswers) (h : Heap Allocator) (d : Option DevBlocks)
    (h' : Heap Allocator) : Prop where
  grants : h'.grants = h.grants
  live : ∃ own, h'.live = own + h.live ∧ match d with
    | none => o.Loses own
    | some d => own = d.mem be

section

variable {be : BeId} {h : Heap Allocator}

theorem ends_nvmBufAlloc (hbe : be.allocator = some .libc) (nbytes : Nat) (h : Heap Allocator) :
    Ends (be.nvmBufAlloc nbytes) h fun buf h' =>
      h'.grants = h.grants ∧ h'.live = held .libc buf + h.live := by
  by_cases hn : nbytes = 0
  · rw [BeId.nvmBufAlloc, if_pos hn]
    exact Ends.pure ⟨rfl, (zero_add _).symm⟩
  · rw [nvmBufAlloc_libc hbe hn]
    refine (ends_alloc .libc h).mono fun buf h' hp => ?_
    exact ⟨hp.2.1, hp.2.2.2⟩

theorem ends_nvmBeIoctlOpenMem (hbe : be.allocator = some .libc) (o : OpenAnswers) (nbytes : Nat)
    (h : Heap Allocator) : Ends (nvmBeIoctlOpenMem be o nbytes) h fun r h' => h'.grants = h.grants ∧
      match r with
      | none => ∃ lost, h'.live = lost + h.live ∧ o.Loses lost
      | some (dev, beState) => (o.pathFits ∧ o.opens ∧ o.probes ∧ o.populate) ∧
          h'.live = held .libc (some beState) + (held .libc (some dev) + h.live) := by
  rw [nvmBeIoctlOpenMem]
  by_cases hpath : o.pathFits = true
  · rw [if_neg (by simp [hpath])]
    refine (ends_alloc .libc h).bind fun dev h₁ hdev => ?_
    obtain ⟨-, hgrants₁, -, hlive₁⟩ := hdev
    cases dev with
    | none => exact Ends.pure ⟨hgrants₁, 0, hlive₁, Or.inl rfl⟩
    | some dev =>
      have hgive : Ends (do free .libc (some dev); pure (none : Option (Nat × Nat))) h₁ fun r h' =>
          h'.grants = h.grants ∧ r = none ∧ h'.live = h.live := by
        refine (ends_free hlive₁).bind fun _ h₂ hfree => ?_
        exact Ends.pure ⟨hfree.1.trans hgrants₁, rfl, hfree.2.2⟩
      have hnothing : ∀ (r : Option (Nat × Nat)) (h' : Heap Allocator),
          (h'.grants = h.grants ∧ r = none ∧ h'.live = h.live) → h'.grants = h.grants ∧ match r with
            | none => ∃ lost, h'.live = lost + h.live ∧ o.Loses lost
            | some (dev, beState) => (o.pathFits ∧ o.opens ∧ o.probes ∧ o.populate) ∧
                h'.live = held .libc (some beState) + (held .libc (some dev) + h.live) := by
        rintro r h' ⟨hg, rfl, hl⟩
        exact ⟨hg, 0, by rw [hl, zero_add], Or.inl rfl⟩
      dsimp only
      by_cases hopens : o.opens = true
      · rw [if_neg (by simp [hopens])]
        by_cases hprobes : o.probes = true
        · rw [if_neg (by simp [hprobes])]
          by_cases hpop : o.populate = true
          · rw [if_neg (by simp [hpop])]
            refine (ends_nvmBufAlloc hbe nbytes h₁).bind fun st h₂ hst => ?_
            cases st with
            | none =>
              have hlive₂ : h₂.live = held .libc (some dev) + h.live := by
                rw [hst.2, hlive₁, held_none, zero_add]
              refine (ends_free hlive₂).bind fun _ h₃ hfree => ?_
              exact Ends.pure (hnothing _ _ ⟨hfree.1.trans (hst.1.trans hgrants₁), rfl, hfree.2.2⟩)
            | some st =>
              refine Ends.pure ⟨hst.1.trans hgrants₁, ⟨hpath, hopens, hprobes, hpop⟩, ?_⟩
              rw [hst.2, hlive₁]
          · rw [if_pos (by simp [hpop])]
            exact hgive.mono hnothing
        · rw [if_pos (by simp [hprobes])]
          have hlost : o.Loses (held .libc (some dev)) :=
            Or.inr (Or.inl ⟨hpath, hopens, by simpa using hprobes, Multiset.card_singleton _⟩)
          exact Ends.pure ⟨hgrants₁, _, hlive₁, hlost⟩
      · rw [if_pos (by simp [hopens])]
        exact hgive.mono hnothing
  · rw [if_pos (by simp [hpath])]
    exact Ends.pure ⟨rfl, 0, (zero_add _).symm, Or.inl rfl⟩

theorem ends_nvmDevOpenfMem (hbe : be.allocator = some .libc) (o : OpenAnswers) (nbytes : Nat)
    (h : Heap Allocator) : Ends (nvmDevOpenfMem be o nbytes) h (OpensTo be o h) := by
  refine (ends_nvmBeIoctlOpenMem hbe o nbytes h).bind fun r h₁ hr => ?_
  obtain ⟨hgrants₁, hr⟩ := hr
  cases r with
  | none =>
    obtain ⟨lost, hlive, hloses⟩ := hr
    exact Ends.pure ⟨hgrants₁, lost, hlive, hloses⟩
  | some r =>
    obtain ⟨dev, st⟩ := r
    obtain ⟨⟨hpath, hopens, hprobes, hpop⟩, hlive₁⟩ := hr
    dsimp only
    refine (ends_alloc .libc h₁).bind fun bbts h₂ hbbts => ?_
    obtain ⟨-, hgrants₂, -, hlive₂⟩ := hbbts
    cases bbts with
    | none =>
      refine Ends.pure ⟨hgrants₂.trans hgrants₁, held .libc (some st) + held .libc (some dev), ?_,
        Or.inr (Or.inr ⟨hpath, hopens, hprobes, hpop, rfl⟩)⟩
      rw [hlive₂, hlive₁, held_none, zero_add, add_assoc]
    | some bbts =>
      refine Ends.pure ⟨hgrants₂.trans hgrants₁, _, ?_, rfl⟩
      rw [hlive₂, hlive₁, DevBlocks.mem, bufMem_of_allocator hbe]
      dsimp only
      ac_rfl

end

end LightNvm
