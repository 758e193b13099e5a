import LightNvm.BbtMem

/-! On the SPDK backend a table of bad blocks lies in memory of SPDK, and the functions of `nvm_bbt.c` give
it back to the C library. -/

namespace LightNvm

open Blocks

section

variable {σ : Type}

/-- The address of the table that a call retrieves first, where no table is managed. -/
def BbtCall.retrieves (s : BbtOwned σ) : BbtCall → Option GAddr
  | .get addr => some addr
  | .set bbt => some bbt.addr
  | .mark addrs _ => if s.host.bbtsCached then addrs.head? else none
  | _ => none

/-- The entry and the buffer for the table have memory, and the device answers with the table. -/
def TableArrives (c : BbtCmds σ) (s : BbtOwned σ) (h : Heap Allocator) (addr : GAddr) : Prop :=
  nvmAddrCheckG addr c.geo = 0 ∧ h.grants h.next = true ∧ h.grants (h.next + 1) = true ∧
    ∃ spec, (c.gbbt s.host.dev addr).1 = .ok spec

/-- No table is managed, and the calls have left the memory as it was. -/
structure NoTables (s : BbtOwned σ) (live : Mem) (h : Heap Allocator) : Prop where
  bbts : ∀ k, s.host.bbts k = none
  live : h.live = live

variable {c : BbtCmds σ} {s : BbtOwned σ} {live : Mem} {h : Heap Allocator}

theorem ends_dma_gbbtMem (s : BbtOwned σ) (addr : GAddr) (h : Heap Allocator) :
    Ends (gbbtMem .spdk c s addr) h fun r h' => r.2.ptrs = s.ptrs ∧ r.2.host.bbts = s.host.bbts ∧
      match r.1 with
      | .error _ => h'.live = h.live ∧
          ¬ (h.grants h.next = true ∧ ∃ spec, (c.gbbt s.host.dev addr).1 = .ok spec)
      | .ok (buf, _) => ⟨buf, .dma⟩ ∈ h'.live ∧ h'.live = held .dma (some buf) + h.live ∧
          h.grants h.next = true ∧ ∃ spec, (c.gbbt s.host.dev addr).1 = .ok spec := by
  have hn : sizeofSpecBbt + c.nblks ≠ 0 := by
    rw [sizeofSpecBbt]
    omega
  have halloc : BeId.spdk.nvmBufAlloc (sizeofSpecBbt + c.nblks) = alloc .dma := by
    rw [BeId.nvmBufAlloc, if_neg hn]
    rfl
  rw [gbbtMem, halloc]
  refine (ends_alloc .dma h).bind fun buf h' hbuf => ?_
  obtain ⟨hsome, -, -, hlive⟩ := hbuf
  cases buf with
  | none =>
    have hno : h.grants h.next = false := by simpa using hsome.symm
    exact Ends.pure ⟨rfl, rfl, hlive.trans (zero_add _), fun hyes => by simp [hno] at hyes⟩
  | some buf =>
    have hyes : h.grants h.next = true := by simpa using hsome.symm
    dsimp only
    cases hr : (c.gbbt s.host.dev addr).1 with
    | error e =>
      simp only [BbtCmds.nvmCmdGbbt, hr]
      refine (ends_free (k := Allocator.dma) hlive).bind fun _ h'' hfree => ?_
      exact Ends.pure ⟨rfl, rfl, hfree.2.2, fun hok => by simpa [hr] using hok.2⟩
    | ok spec =>
      simp only [BbtCmds.nvmCmdGbbt, hr]
      refine Ends.pure ⟨rfl, rfl, ?_, hlive, hyes, spec, rfl⟩
      rw [hlive]
      simp

/-- With memory for the entry, what follows is decided by the buffer and the device. -/
theorem dma_bbtRefreshMem {addr : GAddr} {p : Nat} (hbbts : ∀ k, s.host.bbts k = none)
    (hp : s.ptrs (bbtIdx c.geo addr) = some p) (hlive : h.live = held .libc (some p) + live) (bbt : Bbt) :
    ((h.grants h.next = true ∧ ∃ spec, (c.gbbt s.host.dev addr).1 = .ok spec) →
      bbtRefreshMem .spdk c s addr bbt h = none) ∧
    (¬ (h.grants h.next = true ∧ ∃ spec, (c.gbbt s.host.dev addr).1 = .ok spec) →
      Ends (bbtRefreshMem .spdk c s addr bbt) h fun r h' =>
        (∃ e, r.1 = .error e) ∧ NoTables r.2 live h') := by
  obtain ⟨⟨answer, s'⟩, h', hrun, hptrs, hbbts', hanswer⟩ := ends_dma_gbbtMem s addr h
  dsimp only at hptrs hbbts'
  cases answer with
  | error e =>
    obtain ⟨hlive', hno⟩ := hanswer
    refine ⟨fun hyes => absurd hyes hno, fun _ => ?_⟩
    have hentry : h'.live = held .libc (s'.ptrs (bbtIdx c.geo addr)) + live := by
      rw [hlive', hlive, hptrs, hp]
    rw [bbtRefreshMem, Ends, bind_eq hrun]
    refine (ends_free hentry).bind fun _ h'' hfree => ?_
    refine Ends.pure ⟨⟨e, rfl⟩, fun k => ?_, hfree.2.2⟩
    by_cases hk : k = bbtIdx c.geo addr
    · subst hk
      exact Function.update_self ..
    · exact (Function.update_of_ne hk _ _).trans ((congrFun hbbts' k).trans (hbbts k))
  | ok answer =>
    obtain ⟨buf, spec⟩ := answer
    obtain ⟨hmem, hlive', hyes⟩ := hanswer
    refine ⟨fun _ => ?_, fun hno => absurd hyes hno⟩
    rw [bbtRefreshMem, bind_eq hrun]
    dsimp only
    split_ifs
    · -- the entry is given back first, and then the buffer to the wrong allocator
      have hentry : h'.live = held .libc (s'.ptrs (bbtIdx c.geo addr)) + (held .dma (some buf) + live) := by
        rw [hlive', hlive, hptrs, hp]
        exact add_left_comm _ _ _
      obtain ⟨_, h'', hfree, -, -, hlive''⟩ := ends_free hentry
      have hbuf : Block.mk buf Allocator.dma ∈ h''.live := by
        rw [hlive'']
        simp
      rw [bind_eq hfree]
      exact bind_eq_none (free_eq_none hbuf (by decide)) _
    · exact bind_eq_none (free_eq_none hmem (by decide)) _

theorem dma_bbtGetMem (hs : NoTables s live h) (addr : GAddr) :
    (TableArrives c s h addr → bbtGetMem .spdk c s addr h = none) ∧
    (¬ TableArrives c s h addr →
      Ends (bbtGetMem .spdk c s addr) h fun r h' => (∃ e, r.1 = .error e) ∧ NoTables r.2 live h') := by
  rw [bbtGetMem]
  by_cases hcheck : nvmAddrCheckG addr c.geo ≠ 0
  · rw [if_pos hcheck]
    exact ⟨fun harr => absurd harr.1 hcheck, fun _ => Ends.pure ⟨⟨_, rfl⟩, hs⟩⟩
  · rw [if_neg hcheck, hs.bbts]
    dsimp only
    obtain ⟨p, h', halloc, hsome, hgrants, hnext, hlive⟩ := ends_alloc Allocator.libc h
    rw [Ends, bind_eq halloc]
    cases p with
    | none =>
      have hno : h.grants h.next = false := by simpa using hsome.symm
      refine ⟨fun harr => absurd harr.2.1 (by simp [hno]), fun _ => Ends.pure ⟨⟨_, rfl⟩, hs.bbts, ?_⟩⟩
      rw [hlive, held_none, zero_add, hs.live]
    | some p =>
      have hyes : h.grants h.next = true := by simpa using hsome.symm
      have hown : h'.live = held .libc (some p) + live := by rw [hlive, hs.live]
      have hrefresh := dma_bbtRefreshMem (c := c) (h := h')
        (s := { s with ptrs := Function.update s.ptrs (bbtIdx c.geo addr) (some p) }) hs.bbts
        (Function.update_self ..) hown ⟨addr, c.nblks, 0, 0, 0, 0, fun _ => 0⟩
      rw [hgrants, hnext] at hrefresh
      refine ⟨fun harr => hrefresh.1 ⟨harr.2.2.1, harr.2.2.2⟩, fun hno => hrefresh.2 fun harr => hno ?_⟩
      exact ⟨not_not.mp hcheck, hyes, harr.1, harr.2⟩

theorem bbtFlushMem_noTables (be : BeId) (hbbts : ∀ k, s.host.bbts k = none) (addr : GAddr) :
    ∃ r, bbtFlushMem be c s addr = pure (r, s) := by
  rw [bbtFlushMem, hbbts]
  split_ifs <;> exact ⟨_, rfl⟩

theorem bbtFlushAllLoopMem_noTables {be : BeId} (hbbts : ∀ k, s.host.bbts k = none) (is : List Nat) :
    ∃ r, bbtFlushAllLoopMem be c is s = pure (r, s) := by
  induction is with
  | nil => exact ⟨_, rfl⟩
  | cons i is ih =>
    obtain ⟨r, hr⟩ := bbtFlushMem_noTables be (c := c) hbbts (flushAllAddr c.geo i)
    rw [bbtFlushAllLoopMem, hr, pure_bind]
    cases r with
    | error e => exact ⟨_, rfl⟩
    | ok _ => exact ih

theorem dma_sbbtMem (hs : NoTables s live h) (addrs : List GAddr) (flags : UInt16) :
    Ends (sbbtMem .spdk c s addrs flags) h fun r h' => NoTables r.2 live h' := by
  rw [sbbtMem]
  split_ifs
  · refine (ends_alloc .dma h).bind fun list h' hlist => ?_
    cases list with
    | none => exact Ends.pure ⟨hs.bbts, (hlist.2.2.2.trans (zero_add _)).trans hs.live⟩
    | some list =>
      refine (ends_free hlist.2.2.2).bind fun _ h'' hfree => ?_
      exact Ends.pure ⟨hs.bbts, hfree.2.2.trans hs.live⟩
  · exact Ends.pure ⟨hs.bbts, hs.live⟩

/-- What a call does that stops where its first retrieval fails. -/
theorem dma_of_get {ρ : Type} (addr : GAddr) (hs : NoTables s live h)
    {f : Except Errno Bbt × BbtOwned σ → MemProg (ρ × BbtOwned σ)}
    (hf : ∀ e s', ∃ r, f (.error e, s') = pure (r, s')) :
    (TableArrives c s h addr → (Prod.snd <$> (bbtGetMem .spdk c s addr >>= f)) h = none) ∧
    (¬ TableArrives c s h addr →
      Ends (Prod.snd <$> (bbtGetMem .spdk c s addr >>= f)) h fun s' h' => NoTables s' live h') := by
  obtain ⟨hfault, hends⟩ := dma_bbtGetMem (c := c) hs addr
  simp only [map_eq_pure_bind]
  refine ⟨fun harr => bind_eq_none (bind_eq_none (hfault harr) _) _, fun hno => ?_⟩
  refine Ends.bind (Q := fun r h' => NoTables r.2 live h') ?_ fun _ _ h => Ends.pure h
  refine (hends hno).bind fun r h' hr => ?_
  obtain ⟨res, s'⟩ := r
  obtain ⟨⟨e, rfl⟩, hnone⟩ := hr
  obtain ⟨r, hr⟩ := hf e s'
  rw [hr]
  exact Ends.pure hnone

/-- A call faults exactly when the table that it retrieves arrives. -/
theorem dma_execMem (hs : NoTables s live h) (call : BbtCall) :
    ((∃ addr ∈ call.retrieves s, TableArrives c s h addr) → call.execMem .spdk c s h = none) ∧
    (¬ (∃ addr ∈ call.retrieves s, TableArrives c s h addr) →
      Ends (call.execMem .spdk c s) h fun s' h' => NoTables s' live h') := by
  have hquiet : ∀ {m : MemProg (BbtOwned σ)}, call.retrieves s = none →
      Ends m h (fun s' h' => NoTables s' live h') →
      ((∃ addr ∈ call.retrieves s, TableArrives c s h addr) → m h = none) ∧
      (¬ (∃ addr ∈ call.retrieves s, TableArrives c s h addr) →
        Ends m h fun s' h' => NoTables s' live h') := by
    intro m hnone hm
    exact ⟨fun harr => by simp [hnone] at harr, fun _ => hm⟩
  have hpure : ∀ {ρ : Type} {m : MemProg (ρ × BbtOwned σ)}, (∃ r, m = pure (r, s)) →
      Ends (Prod.snd <$> m) h fun s' h' => NoTables s' live h' := by
    rintro ρ m ⟨r, rfl⟩
    exact ⟨s, h, rfl, hs⟩
  cases call with
  | get addr =>
    have hget := dma_of_get (c := c) addr hs (f := pure) fun e s' => ⟨_, rfl⟩
    simpa [BbtCall.execMem, BbtCall.retrieves] using hget
  | set bbt =>
    rw [BbtCall.execMem, bbtSetMem]
    by_cases hcheck : nvmAddrCheckG bbt.addr c.geo ≠ 0
    · rw [if_pos hcheck]
      refine ⟨?_, fun _ => ⟨s, h, rfl, hs⟩⟩
      rintro ⟨addr, haddr, harr⟩
      cases haddr
      exact absurd harr.1 hcheck
    · rw [if_neg hcheck]
      simp only [BbtCall.retrieves, Option.mem_def, Option.some.injEq, exists_eq_left']
      exact dma_of_get _ hs fun e s' => ⟨_, rfl⟩
  | setShared k =>
    refine hquiet rfl ?_
    rw [BbtCall.execMem, hs.bbts]
    exact Ends.pure hs
  | mark addrs flags =>
    rw [BbtCall.execMem, bbtMarkMem, BbtCall.retrieves]
    by_cases hon : s.host.bbtsCached = true
    · rw [if_pos hon, if_neg (by simp [hon])]
      cases addrs with
      | nil =>
        refine ⟨?_, fun _ => ⟨s, h, rfl, hs⟩⟩
        rintro ⟨addr, haddr, -⟩
        cases haddr
      | cons addr addrs =>
        simp only [List.head?_cons, Option.mem_def, Option.some.injEq, exists_eq_left']
        exact dma_of_get _ hs fun e s' => ⟨_, rfl⟩
    · rw [if_neg hon, if_pos (by simpa using hon)]
      refine ⟨fun harr => by simp at harr, fun _ => ?_⟩
      rw [map_eq_pure_bind]
      exact (dma_sbbtMem hs addrs flags).bind fun _ _ hnone => Ends.pure hnone
  | flush addr => exact hquiet rfl (hpure (bbtFlushMem_noTables _ hs.bbts addr))
  | flushAll => exact hquiet rfl (hpure (bbtFlushAllLoopMem_noTables hs.bbts _))
  | setBbtsCached v =>
    refine hquiet rfl (Ends.pure ⟨fun k => ?_, hs.live⟩)
    rw [BbtCmds.nvmDevSetBbtsCached]
    split_ifs <;> exact hs.bbts k

/-- Over every run of calls on the SPDK backend no table is ever managed, and the run comes to an end exactly
when none of the tables that its calls ask for arrives: the first that does is given back to an allocator it
does not come from. -/
theorem spdk_tables_foreign (c : BbtCmds σ) (dev : σ) (calls : List BbtCall) (h : Heap Allocator) :
    ((∃ r, calls.foldlM (BbtCall.execMem .spdk c) (.opened dev) h = some r) ↔
      ∀ pre call post, calls = pre ++ call :: post → ∀ s h',
        pre.foldlM (BbtCall.execMem .spdk c) (.opened dev) h = some (s, h') →
          ∀ addr ∈ call.retrieves s, ¬ TableArrives c s h' addr) ∧
    ∀ s h', calls.foldlM (BbtCall.execMem .spdk c) (.opened dev) h = some (s, h') →
      (∀ k, s.host.bbts k = none) ∧ h'.live = h.live := by
  have hopened : NoTables (.opened dev) h.live h := ⟨fun _ => rfl, rfl⟩
  obtain ⟨hends, hnone⟩ := foldlM_ends_of (I := fun s h' => NoTables s h.live h')
    (fun s h' call => ∃ addr ∈ call.retrieves s, TableArrives c s h' addr)
    (fun s h' call hs => (dma_execMem hs call).2) (fun s h' call hs => (dma_execMem hs call).1) calls hopened
  refine ⟨hends.trans ?_, fun s h' hrun => ⟨(hnone s h' hrun).bbts, (hnone s h' hrun).live⟩⟩
  simp only [not_exists, not_and]

end

end LightNvm
