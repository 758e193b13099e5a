import LightNvm.BbtCached

/-! The counters of the managed bad-block tables, on devices that answer as they like. -/

namespace LightNvm

/-- The commands of a device in states `σ`: what it answers, and when it fails, is its own. -/
structure BbtCmds (σ : Type) where
  geo : GeoG
  malloc : σ → Bool × σ
  gbbt : σ → GAddr → Except Errno SpecBbt × σ
  sbbt : σ → List GAddr → UInt16 → Except Errno Unit × σ

structure BbtHost (σ : Type) where
  bbtsCached : Bool
  bbts : Nat → Option Bbt
  dev : σ

namespace BbtCmds

variable {σ : Type} (c : BbtCmds σ)

def nblks : Nat := c.geo.nblocks * c.geo.nplanes

def nbbts : Nat := c.geo.nchannels * c.geo.nluns

def setEntry (s : BbtHost σ) (k : Nat) (entry : Option Bbt) : BbtHost σ :=
  { s with bbts := Function.update s.bbts k entry }

def nvmCmdGbbt (s : BbtHost σ) (addr : GAddr) : Except Errno SpecBbt × BbtHost σ :=
  ((c.gbbt s.dev addr).1, { s with dev := (c.gbbt s.dev addr).2 })

def nvmCmdSbbt (s : BbtHost σ) (addrs : List GAddr) (flags : UInt16) : Except Errno Unit × BbtHost σ :=
  ((c.sbbt s.dev addrs flags).1, { s with dev := (c.sbbt s.dev addrs flags).2 })

def flushLoop (cached : Bbt) (spec : SpecBbt) : List Nat → BbtHost σ → Except Errno Unit × BbtHost σ
  | [], s => (.ok (), s)
  | i :: is, s =>
    if cached.blks i = spec.blk i then flushLoop cached spec is s
    else
      let blkAddr := { cached.addr with
        blk := BitVec.ofNat 16 (i / c.geo.nplanes)
        pl := BitVec.ofNat 8 (i % c.geo.nplanes) }
      match c.nvmCmdSbbt s [blkAddr] (cached.blks i).toUInt16 with
      | (.error e, s) => (.error e, s)
      | (.ok _, s) => flushLoop cached spec is s

def nvmBbtFlush (s : BbtHost σ) (addr : GAddr) : Except Errno Unit × BbtHost σ :=
  if nvmAddrCheckG addr c.geo ≠ 0 then (.error .einval, s)
  else
    match s.bbts (bbtIdx c.geo addr) with
    | none => (.ok (), s)
    | some cached =>
      match c.nvmCmdGbbt s addr with
      | (.error e, s) => (.error e, s)
      | (.ok spec, s) =>
        if cached.nblks ≠ spec.tblks then (.error .einval, s)
        else
          match c.flushLoop cached spec (List.range cached.nblks) s with
          | (.error e, s) => (.error e, s)
          | (.ok _, s) => (.ok (), setEntry s (bbtIdx c.geo addr) none)

def flushAllLoop : List Nat → BbtHost σ → Except Errno Unit × BbtHost σ
  | [], s => (.ok (), s)
  | i :: is, s =>
    match c.nvmBbtFlush s (flushAllAddr c.geo i) with
    | (.error e, s) => (.error e, s)
    | (.ok _, s) => flushAllLoop is s

def nvmBbtFlushAll (s : BbtHost σ) : Except Errno Unit × BbtHost σ :=
  c.flushAllLoop (List.range c.nbbts) s

def bbtRefresh (s : BbtHost σ) (addr : GAddr) (bbt : Bbt) : Except Errno Bbt × BbtHost σ :=
  match c.nvmCmdGbbt s addr with
  | (.error e, s) => (.error e, setEntry s (bbtIdx c.geo addr) none)
  | (.ok spec, s) =>
    if bbt.nblks ≠ spec.tblks then (.error .eio, setEntry s (bbtIdx c.geo addr) none)
    else (.ok (bbt.fill spec), setEntry s (bbtIdx c.geo addr) (some (bbt.fill spec)))

def nvmBbtGet (s : BbtHost σ) (addr : GAddr) : Except Errno Bbt × BbtHost σ :=
  if nvmAddrCheckG addr c.geo ≠ 0 then (.error .einval, s)
  else
    match s.bbts (bbtIdx c.geo addr) with
    | some bbt => if s.bbtsCached then (.ok bbt, s) else c.bbtRefresh s addr bbt
    | none =>
      let s' := { s with dev := (c.malloc s.dev).2 }
      if (c.malloc s.dev).1 then c.bbtRefresh s' addr ⟨addr, c.nblks, 0, 0, 0, 0, fun _ => 0⟩
      else (.error .enomem, s')

/-- `nvm_bbt_set`. The table given is the caller's own, or, where the pointer comes from `nvm_bbt_get`, the
entry `shared`: then it is what that entry holds after the retrieval. -/
def nvmBbtSet (s : BbtHost σ) (bbt : Bbt) (shared : Option Nat) : Except Errno Unit × BbtHost σ :=
  if nvmAddrCheckG bbt.addr c.geo ≠ 0 then (.error .einval, s)
  else
    match c.nvmBbtGet s bbt.addr with
    | (.error e, s) => (.error e, s)
    | (.ok entry, s) =>
      let src := (shared.bind s.bbts).getD bbt
      let entry := { entry with blks := fun i => if i < src.nblks then src.blks i else entry.blks i }
      let s := setEntry s (bbtIdx c.geo bbt.addr) (some (refreshed entry))
      if s.bbtsCached then (.ok (), s) else c.nvmBbtFlush s bbt.addr

def markLoop (flags : UInt16) : List GAddr → BbtHost σ → Except Errno Unit × BbtHost σ
  | [], s => (.ok (), s)
  | addr :: addrs, s =>
    match c.nvmBbtGet s addr with
    | (.error e, s) => (.error e, s)
    | (.ok entry, s) =>
      let entry := { entry with blks := Function.update entry.blks (blkIdx c.geo addr) flags.toUInt8 }
      markLoop flags addrs (setEntry s (bbtIdx c.geo addr) (some (refreshed entry)))

def nvmBbtMark (s : BbtHost σ) (addrs : List GAddr) (flags : UInt16) : Except Errno Unit × BbtHost σ :=
  if !s.bbtsCached then c.nvmCmdSbbt s addrs flags else c.markLoop flags addrs s

def nvmDevSetBbtsCached (s : BbtHost σ) (bbtsCached : Int) : Except Errno Unit × BbtHost σ :=
  if bbtsCached = 0 then (.ok (), { s with bbtsCached := false })
  else if bbtsCached = 1 then (.ok (), { s with bbtsCached := true })
  else (.error .einval, s)

end BbtCmds

/-! What the counters are to be. -/

def KnownStates (nblks : Nat) (blks : Nat → UInt8) : Prop := ∀ i < nblks, (bbtState (blks i)).isSome

/-- An answer to `nvm_cmd_gbbt` whose states are known and whose counters are those of its table. -/
structure HonestAnswer (spec : SpecBbt) : Prop where
  valid : KnownStates spec.tblks spec.blk
  tfact : spec.tfact = countState .bad spec.tblks spec.blk
  tgrown : spec.tgrown = countState .gbad spec.tblks spec.blk
  tdresv : spec.tdresv = countState .dmrk spec.tblks spec.blk
  thresv : spec.thresv = countState .hmrk spec.tblks spec.blk

def BbtCmds.Honest {σ : Type} (c : BbtCmds σ) : Prop :=
  ∀ dev addr spec, (c.gbbt dev addr).1 = .ok spec → HonestAnswer spec

/-- The table covers the LUN, and each counter is the number of its entries in that state. -/
structure Counted (nblks : Nat) (bbt : Bbt) : Prop where
  nblks : bbt.nblks = nblks
  valid : KnownStates bbt.nblks bbt.blks
  nbad : bbt.nbad = countState .bad bbt.nblks bbt.blks
  ngbad : bbt.ngbad = countState .gbad bbt.nblks bbt.blks
  ndmrk : bbt.ndmrk = countState .dmrk bbt.nblks bbt.blks
  nhmrk : bbt.nhmrk = countState .hmrk bbt.nblks bbt.blks

theorem countState_congr (st : BbtState) {nblks : Nat} {blks blks' : Nat → UInt8}
    (h : ∀ i < nblks, blks i = blks' i) : countState st nblks blks = countState st nblks blks' := by
  refine List.countP_congr fun i hi => ?_
  rw [h i (List.mem_range.mp hi)]

theorem counted_refreshed {nblks : Nat} {bbt : Bbt} (hn : bbt.nblks = nblks)
    (hv : KnownStates bbt.nblks bbt.blks) : Counted nblks (refreshed bbt) := by
  have hall : (List.range bbt.nblks).all (fun i => (bbtState (bbt.blks i)).isSome) = true :=
    List.all_eq_true.mpr fun i hi => hv i (List.mem_range.mp hi)
  rw [refreshed, refreshCounters, if_pos hall]
  exact ⟨hn, hv, rfl, rfl, rfl, rfl⟩

theorem counted_fill {nblks : Nat} {bbt : Bbt} {spec : SpecBbt} (hn : bbt.nblks = nblks)
    (ht : bbt.nblks = spec.tblks) (hspec : HonestAnswer spec) : Counted nblks (bbt.fill spec) := by
  have hblks : ∀ i < spec.tblks, spec.blk i = (bbt.fill spec).blks i := by
    intro i hi
    rw [Bbt.fill, ht]
    exact (if_pos hi).symm
  have hcount : ∀ st, countState st spec.tblks spec.blk =
      countState st (bbt.fill spec).nblks (bbt.fill spec).blks := by
    intro st
    rw [countState_congr st hblks]
    exact congrArg (countState st · _) ht.symm
  refine ⟨hn, fun i hi => ?_, ?_, ?_, ?_, ?_⟩
  · have hi' : i < spec.tblks := ht ▸ hi
    exact hblks i hi' ▸ hspec.valid i hi'
  · exact hspec.tfact.trans (hcount .bad)
  · exact hspec.tgrown.trans (hcount .gbad)
  · exact hspec.tdresv.trans (hcount .dmrk)
  · exact hspec.thresv.trans (hcount .hmrk)

namespace BbtCmds

variable {σ : Type} {c : BbtCmds σ}

def AllCounted (c : BbtCmds σ) (s : BbtHost σ) : Prop := ∀ k bbt, s.bbts k = some bbt → Counted c.nblks bbt

theorem AllCounted.of_bbts_eq {s s' : BbtHost σ} (hs : AllCounted c s) (h : s'.bbts = s.bbts) :
    AllCounted c s' := by
  intro k bbt hk
  exact hs k bbt (h ▸ hk)

theorem AllCounted.setEntry {s : BbtHost σ} (hs : AllCounted c s) {k : Nat} {entry : Option Bbt}
    (he : ∀ bbt, entry = some bbt → Counted c.nblks bbt) : AllCounted c (BbtCmds.setEntry s k entry) := by
  intro j bbt hj
  rw [BbtCmds.setEntry] at hj
  by_cases hjk : j = k
  · subst hjk
    exact he bbt (by simpa using hj)
  · exact hs j bbt (by simpa [Function.update_of_ne hjk] using hj)

/-! Each call keeps the counters. -/

theorem nvmCmdSbbt_bbts (s : BbtHost σ) (addrs : List GAddr) (flags : UInt16) :
    (c.nvmCmdSbbt s addrs flags).2.bbts = s.bbts := rfl

theorem flushLoop_bbts (cached : Bbt) (spec : SpecBbt) (is : List Nat) (s : BbtHost σ) :
    (c.flushLoop cached spec is s).2.bbts = s.bbts := by
  induction is generalizing s with
  | nil => rfl
  | cons i is ih =>
    rw [flushLoop]
    by_cases heq : cached.blks i = spec.blk i
    · rw [if_pos heq]
      exact ih s
    · rw [if_neg heq]
      dsimp only
      generalize hcmd : c.nvmCmdSbbt s _ _ = r
      have hbbts : r.2.bbts = s.bbts := by rw [← hcmd, nvmCmdSbbt_bbts]
      obtain ⟨_ | _, s'⟩ := r
      · exact hbbts
      · exact (ih s').trans hbbts

theorem nvmBbtFlush_counted {s : BbtHost σ} (hs : AllCounted c s) (addr : GAddr) :
    AllCounted c (c.nvmBbtFlush s addr).2 := by
  rw [nvmBbtFlush]
  split_ifs with hcheck
  · exact hs
  cases s.bbts (bbtIdx c.geo addr) with
  | none => exact hs
  | some cached =>
    dsimp only [nvmCmdGbbt]
    cases (c.gbbt s.dev addr).1 with
    | error e => exact hs
    | ok spec =>
      dsimp only
      split_ifs with htblks
      · exact hs
      generalize hs' : ({ s with dev := (c.gbbt s.dev addr).2 } : BbtHost σ) = s'
      have hstart : AllCounted c s' := hs' ▸ hs
      have hbbts := flushLoop_bbts (c := c) cached spec (List.range cached.nblks) s'
      generalize c.flushLoop cached spec (List.range cached.nblks) s' = r at hbbts ⊢
      obtain ⟨_ | _, s''⟩ := r
      · exact hstart.of_bbts_eq hbbts
      · exact (hstart.of_bbts_eq hbbts).setEntry fun _ h => absurd h (by simp)

theorem flushAllLoop_counted (is : List Nat) {s : BbtHost σ} (hs : AllCounted c s) :
    AllCounted c (c.flushAllLoop is s).2 := by
  induction is generalizing s with
  | nil => exact hs
  | cons i is ih =>
    rw [flushAllLoop]
    have hflush := nvmBbtFlush_counted hs (flushAllAddr c.geo i)
    generalize c.nvmBbtFlush s (flushAllAddr c.geo i) = r at hflush ⊢
    obtain ⟨_ | _, s'⟩ := r
    · exact hflush
    · exact ih hflush

/-- What a retrieval that succeeds leaves: the table it returns is the entry. -/
structure Got (c : BbtCmds σ) (addr : GAddr) (r : Except Errno Bbt × BbtHost σ) : Prop where
  all : AllCounted c r.2
  entry : ∀ bbt, r.1 = .ok bbt → nvmAddrCheckG addr c.geo = 0 ∧ r.2.bbts (bbtIdx c.geo addr) = some bbt

theorem bbtRefresh_got (hc : c.Honest) {s : BbtHost σ} (hs : AllCounted c s) {addr : GAddr}
    (ha : nvmAddrCheckG addr c.geo = 0) {bbt : Bbt} (hn : bbt.nblks = c.nblks) :
    Got c addr (c.bbtRefresh s addr bbt) := by
  rw [bbtRefresh]
  dsimp only [nvmCmdGbbt]
  cases hspec : (c.gbbt s.dev addr).1 with
  | error e => exact ⟨hs.setEntry fun _ h => absurd h (by simp), nofun⟩
  | ok spec =>
    dsimp only
    split_ifs with htblks
    · exact ⟨hs.setEntry fun _ h => absurd h (by simp), nofun⟩
    have hcounted := counted_fill hn (not_not.mp htblks) (hc _ _ _ hspec)
    refine ⟨hs.setEntry ?_, ?_⟩
    · rintro _ ⟨⟩
      exact hcounted
    · rintro _ ⟨⟩
      exact ⟨ha, Function.update_self _ _ _⟩

theorem nvmBbtGet_got (hc : c.Honest) {s : BbtHost σ} (hs : AllCounted c s) (addr : GAddr) :
    Got c addr (c.nvmBbtGet s addr) := by
  rw [nvmBbtGet]
  by_cases ha : nvmAddrCheckG addr c.geo = 0
  swap
  · rw [if_pos ha]
    exact ⟨hs, nofun⟩
  rw [if_neg (not_not.mpr ha)]
  cases hentry : s.bbts (bbtIdx c.geo addr) with
  | some bbt =>
    dsimp only
    split_ifs with hcached
    · refine ⟨hs, ?_⟩
      rintro _ ⟨⟩
      exact ⟨ha, hentry⟩
    · exact bbtRefresh_got hc hs ha (hs _ _ hentry).nblks
  | none =>
    dsimp only
    split_ifs with hmalloc
    · refine bbtRefresh_got hc ?_ ha ?_
      · exact hs
      · rfl
    · exact ⟨hs, nofun⟩

theorem nvmBbtSet_counted (hc : c.Honest) {s : BbtHost σ} (hs : AllCounted c s) {bbt : Bbt}
    {shared : Option Nat} (hn : bbt.nblks = c.nblks) (hv : KnownStates bbt.nblks bbt.blks) :
    AllCounted c (c.nvmBbtSet s bbt shared).2 := by
  rw [nvmBbtSet]
  split_ifs with hcheck
  · exact hs
  obtain ⟨hall, hgot⟩ := nvmBbtGet_got hc hs bbt.addr
  generalize c.nvmBbtGet s bbt.addr = r at hall hgot ⊢
  obtain ⟨_ | entry, s'⟩ := r
  · exact hall
  obtain ⟨-, hentry⟩ := hgot entry rfl
  have hold := hall _ _ hentry
  -- the table that is copied is valid: the caller's own, or an entry of the managed ones
  have hsrc : ((shared.bind s'.bbts).getD bbt).nblks = c.nblks ∧
      KnownStates c.nblks ((shared.bind s'.bbts).getD bbt).blks := by
    cases hshared : shared.bind s'.bbts with
    | none => exact ⟨hn, hn ▸ hv⟩
    | some other =>
      obtain ⟨k, -, hk⟩ := Option.bind_eq_some_iff.mp hshared
      have hother := hall k other hk
      exact ⟨hother.nblks, hother.nblks ▸ hother.valid⟩
  dsimp only at hall ⊢
  generalize (shared.bind s'.bbts).getD bbt = src at hsrc ⊢
  have hnew : ∀ new, some (refreshed { entry with
      blks := fun i => if i < src.nblks then src.blks i else entry.blks i }) = some new →
        Counted c.nblks new := by
    rintro _ ⟨⟩
    refine counted_refreshed hold.nblks fun i hi => ?_
    have hi' : i < c.nblks := hold.nblks ▸ hi
    dsimp only
    rw [if_pos (hsrc.1 ▸ hi')]
    exact hsrc.2 i hi'
  have hset := hall.setEntry (k := bbtIdx c.geo bbt.addr) hnew
  split_ifs with hcached
  · exact hset
  · exact nvmBbtFlush_counted hset bbt.addr

theorem markLoop_counted (hc : c.Honest) {flags : UInt16} (hf : (bbtState flags.toUInt8).isSome = true)
    (addrs : List GAddr) {s : BbtHost σ} (hs : AllCounted c s) :
    AllCounted c (c.markLoop flags addrs s).2 := by
  induction addrs generalizing s with
  | nil => exact hs
  | cons addr addrs ih =>
    rw [markLoop]
    obtain ⟨hall, hgot⟩ := nvmBbtGet_got hc hs addr
    generalize c.nvmBbtGet s addr = r at hall hgot ⊢
    obtain ⟨_ | entry, s'⟩ := r
    · exact hall
    have hold := hall _ _ (hgot entry rfl).2
    refine ih (hall.setEntry ?_)
    rintro _ ⟨⟩
    refine counted_refreshed hold.nblks fun i hi => ?_
    dsimp only
    by_cases hblk : i = blkIdx c.geo addr
    · rw [hblk, Function.update_self]
      exact hf
    · rw [Function.update_of_ne hblk]
      exact hold.valid i hi

theorem nvmBbtMark_counted (hc : c.Honest) {s : BbtHost σ} (hs : AllCounted c s) (addrs : List GAddr)
    {flags : UInt16} (hf : (bbtState flags.toUInt8).isSome = true) :
    AllCounted c (c.nvmBbtMark s addrs flags).2 := by
  rw [nvmBbtMark]
  split_ifs
  · exact hs
  · exact markLoop_counted hc hf addrs hs

end BbtCmds

/-! Runs of the calls. -/

/-- A call. `setShared` passes `nvm_bbt_set` a table that `nvm_bbt_get` returned. -/
inductive BbtCall where
  | get (addr : GAddr)
  | set (bbt : Bbt)
  | setShared (k : Nat)
  | mark (addrs : List GAddr) (flags : UInt16)
  | flush (addr : GAddr)
  | flushAll
  | setBbtsCached (bbtsCached : Int)

namespace BbtCall

variable {σ : Type}

def exec (c : BbtCmds σ) (s : BbtHost σ) : BbtCall → BbtHost σ
  | .get addr => (c.nvmBbtGet s addr).2
  | .set bbt => (c.nvmBbtSet s bbt none).2
  | .setShared k =>
    match s.bbts k with
    | none => s
    | some bbt => (c.nvmBbtSet s bbt (some k)).2
  | .mark addrs flags => (c.nvmBbtMark s addrs flags).2
  | .flush addr => (c.nvmBbtFlush s addr).2
  | .flushAll => (c.nvmBbtFlushAll s).2
  | .setBbtsCached v => (BbtCmds.nvmDevSetBbtsCached s v).2

def Valid (nblks : Nat) : BbtCall → Prop
  | .set bbt => bbt.nblks = nblks ∧ KnownStates nblks bbt.blks
  | .mark _ flags => (bbtState flags.toUInt8).isSome = true
  | _ => True

theorem exec_counted {c : BbtCmds σ} (hc : c.Honest) {s : BbtHost σ} (hs : c.AllCounted s) {call : BbtCall}
    (hcall : call.Valid c.nblks) : c.AllCounted (call.exec c s) := by
  cases call with
  | get addr => exact (BbtCmds.nvmBbtGet_got hc hs addr).all
  | set bbt =>
    obtain ⟨hn, hv⟩ := hcall
    exact BbtCmds.nvmBbtSet_counted hc hs hn (hn ▸ hv)
  | setShared k =>
    rw [exec]
    cases hk : s.bbts k with
    | none => exact hs
    | some bbt => exact BbtCmds.nvmBbtSet_counted hc hs (hs k bbt hk).nblks (hs k bbt hk).valid
  | mark addrs flags => exact BbtCmds.nvmBbtMark_counted hc hs addrs hcall
  | flush addr => exact BbtCmds.nvmBbtFlush_counted hs addr
  | flushAll => exact BbtCmds.flushAllLoop_counted _ hs
  | setBbtsCached v =>
    rw [exec, BbtCmds.nvmDevSetBbtsCached]
    split_ifs <;> exact hs

end BbtCall

/-! A device that keeps the tables it is given is one of these. -/

def BbtDev.ofDev (dev : Tables × Nat) : BbtDev := ⟨false, fun _ => none, dev.1, dev.2⟩

def BbtDev.host (s : BbtDev) : BbtHost (Tables × Nat) := ⟨s.bbtsCached, s.bbts, (s.table, s.nevents)⟩

def BbtEnv.cmds (env : BbtEnv) : BbtCmds (Tables × Nat) where
  geo := env.geo
  malloc dev := (env.succeeds dev.2, (dev.1, dev.2 + 1))
  gbbt dev addr := Prod.map id (fun s => s.host.dev) (nvmCmdGbbt env (.ofDev dev) addr)
  sbbt dev addrs flags := Prod.map id (fun s => s.host.dev) (nvmCmdSbbt env (.ofDev dev) addrs flags)

def onHost {α : Type} (r : α × BbtDev) : α × BbtHost (Tables × Nat) := (r.1, r.2.host)

def BbtOp.call {env : BbtEnv} : BbtOp env → BbtCall
  | .get addr => .get addr
  | .set bbt _ => .set bbt
  | .mark addrs flags => .mark addrs flags
  | .flush addr => .flush addr
  | .flushAll => .flushAll
  | .setBbtsCached v => .setBbtsCached v

namespace BbtEnv

@[simp] theorem cmds_geo (env : BbtEnv) : env.cmds.geo = env.geo := rfl

@[simp] theorem host_bbts (s : BbtDev) : s.host.bbts = s.bbts := rfl

@[simp] theorem host_bbtsCached (s : BbtDev) : s.host.bbtsCached = s.bbtsCached := rfl

@[simp] theorem host_setEntry (s : BbtDev) (k : Nat) (entry : Option Bbt) :
    BbtCmds.setEntry s.host k entry = (s.setEntry k entry).host := rfl

theorem nvmCmdGbbt_ofDev (env : BbtEnv) (s : BbtDev) (addr : GAddr) :
    nvmCmdGbbt env (.ofDev s.host.dev) addr =
      Prod.map id (fun s => .ofDev s.host.dev) (nvmCmdGbbt env s addr) := by
  rw [nvmCmdGbbt, nvmCmdGbbt, apply_ite (Prod.map id _)]
  rfl

theorem nvmCmdSbbt_ofDev (env : BbtEnv) (s : BbtDev) (addrs : List GAddr) (flags : UInt16) :
    nvmCmdSbbt env (.ofDev s.host.dev) addrs flags =
      Prod.map id (fun s => .ofDev s.host.dev) (nvmCmdSbbt env s addrs flags) := by
  rw [nvmCmdSbbt, nvmCmdSbbt, apply_ite (Prod.map id _), apply_ite (Prod.map id _)]
  rfl

theorem nvmCmdGbbt_bbts (env : BbtEnv) (s : BbtDev) (addr : GAddr) :
    (nvmCmdGbbt env s addr).2.bbtsCached = s.bbtsCached ∧ (nvmCmdGbbt env s addr).2.bbts = s.bbts := by
  rw [nvmCmdGbbt]
  split_ifs <;> exact ⟨rfl, rfl⟩

theorem nvmCmdSbbt_bbts (env : BbtEnv) (s : BbtDev) (addrs : List GAddr) (flags : UInt16) :
    (nvmCmdSbbt env s addrs flags).2.bbtsCached = s.bbtsCached ∧
      (nvmCmdSbbt env s addrs flags).2.bbts = s.bbts := by
  rw [nvmCmdSbbt]
  split_ifs <;> exact ⟨rfl, rfl⟩

theorem host_nvmCmdGbbt (env : BbtEnv) (s : BbtDev) (addr : GAddr) :
    env.cmds.nvmCmdGbbt s.host addr = onHost (nvmCmdGbbt env s addr) := by
  rw [BbtCmds.nvmCmdGbbt, cmds]
  dsimp only
  rw [nvmCmdGbbt_ofDev, onHost, BbtDev.host, BbtDev.host, (nvmCmdGbbt_bbts env s addr).1,
    (nvmCmdGbbt_bbts env s addr).2]
  rfl

theorem host_nvmCmdSbbt (env : BbtEnv) (s : BbtDev) (addrs : List GAddr) (flags : UInt16) :
    env.cmds.nvmCmdSbbt s.host addrs flags = onHost (nvmCmdSbbt env s addrs flags) := by
  rw [BbtCmds.nvmCmdSbbt, cmds]
  dsimp only
  rw [nvmCmdSbbt_ofDev, onHost, BbtDev.host, BbtDev.host, (nvmCmdSbbt_bbts env s addrs flags).1,
    (nvmCmdSbbt_bbts env s addrs flags).2]
  rfl

theorem host_flushLoop (env : BbtEnv) (cached : Bbt) (spec : SpecBbt) (is : List Nat) (s : BbtDev) :
    env.cmds.flushLoop cached spec is s.host = onHost (flushLoop env cached spec is s) := by
  induction is generalizing s with
  | nil => rfl
  | cons i is ih =>
    rw [BbtCmds.flushLoop, flushLoop]
    by_cases heq : cached.blks i = spec.blk i
    · rw [if_pos heq, if_pos heq, ih]
    · simp only [if_neg heq, host_nvmCmdSbbt, cmds_geo]
      cases nvmCmdSbbt env s _ (cached.blks i).toUInt16 with
      | mk r s' =>
        cases r with
        | error e => rfl
        | ok _ => exact ih s'

theorem host_nvmBbtFlush (env : BbtEnv) (s : BbtDev) (addr : GAddr) :
    env.cmds.nvmBbtFlush s.host addr = onHost (nvmBbtFlush env s addr) := by
  rw [BbtCmds.nvmBbtFlush, nvmBbtFlush, cmds_geo, host_bbts]
  split_ifs with hcheck
  · rfl
  cases s.bbts (bbtIdx env.geo addr) with
  | none => rfl
  | some cached =>
    dsimp only
    rw [host_nvmCmdGbbt]
    rcases nvmCmdGbbt env s addr with ⟨_ | spec, s'⟩
    · rfl
    dsimp only [onHost]
    split_ifs with htblks
    · rfl
    rw [host_flushLoop]
    rcases flushLoop env cached spec (List.range cached.nblks) s' with ⟨_ | _, s''⟩ <;> rfl

theorem host_flushAllLoop (env : BbtEnv) (is : List Nat) (s : BbtDev) :
    env.cmds.flushAllLoop is s.host = onHost (flushAllLoop env is s) := by
  induction is generalizing s with
  | nil => rfl
  | cons i is ih =>
    rw [BbtCmds.flushAllLoop, flushAllLoop, cmds_geo, host_nvmBbtFlush]
    rcases nvmBbtFlush env s (flushAllAddr env.geo i) with ⟨_ | _, s'⟩
    · rfl
    · exact ih s'

theorem host_bbtRefresh (env : BbtEnv) (s : BbtDev) (addr : GAddr) (bbt : Bbt) :
    env.cmds.bbtRefresh s.host addr bbt = onHost (bbtRefresh env s addr bbt) := by
  rw [BbtCmds.bbtRefresh, bbtRefresh, host_nvmCmdGbbt]
  rcases nvmCmdGbbt env s addr with ⟨_ | spec, s'⟩
  · rfl
  · dsimp only [onHost]
    split_ifs <;> rfl

theorem host_nvmBbtGet (env : BbtEnv) (s : BbtDev) (addr : GAddr) :
    env.cmds.nvmBbtGet s.host addr = onHost (nvmBbtGet env s addr) := by
  rw [BbtCmds.nvmBbtGet, nvmBbtGet, cmds_geo, host_bbts, host_bbtsCached]
  by_cases hcheck : nvmAddrCheckG addr env.geo ≠ 0
  · rw [if_pos hcheck, if_pos hcheck]
    rfl
  rw [if_neg hcheck, if_neg hcheck]
  cases s.bbts (bbtIdx env.geo addr) with
  | some bbt =>
    dsimp only
    rw [apply_ite onHost, host_bbtRefresh]
    rfl
  | none =>
    dsimp only
    rw [apply_ite onHost, ← host_bbtRefresh]
    rfl

theorem host_nvmBbtSet (env : BbtEnv) (s : BbtDev) (bbt : Bbt) :
    env.cmds.nvmBbtSet s.host bbt none = onHost (nvmBbtSet env s bbt) := by
  rw [BbtCmds.nvmBbtSet, nvmBbtSet, cmds_geo, host_nvmBbtGet]
  split_ifs with hcheck
  · rfl
  rcases nvmBbtGet env s bbt.addr with ⟨_ | entry, s'⟩
  · rfl
  dsimp only [onHost, Option.bind_none, Option.getD_none]
  rw [host_setEntry, host_bbtsCached]
  split_ifs
  · rfl
  · exact host_nvmBbtFlush env _ bbt.addr

theorem host_markLoop (env : BbtEnv) (flags : UInt16) (addrs : List GAddr) (s : BbtDev) :
    env.cmds.markLoop flags addrs s.host = onHost (markLoop env flags addrs s) := by
  induction addrs generalizing s with
  | nil => rfl
  | cons addr addrs ih =>
    rw [BbtCmds.markLoop, markLoop, host_nvmBbtGet]
    rcases nvmBbtGet env s addr with ⟨_ | entry, s'⟩
    · rfl
    · exact ih (s'.setEntry _ _)

theorem host_nvmBbtMark (env : BbtEnv) (s : BbtDev) (addrs : List GAddr) (flags : UInt16) :
    env.cmds.nvmBbtMark s.host addrs flags = onHost (nvmBbtMark env s addrs flags) := by
  rw [BbtCmds.nvmBbtMark, nvmBbtMark, host_bbtsCached]
  split_ifs
  · exact host_nvmCmdSbbt env s addrs flags
  · exact host_markLoop env flags addrs s

/-- The calls do on such a device what they do in its own model. -/
theorem exec_call {env : BbtEnv} (s : BbtDev) (op : BbtOp env) :
    op.call.exec env.cmds s.host = (op.exec s).host := by
  cases op with
  | get addr => exact congrArg Prod.snd (host_nvmBbtGet env s addr)
  | set bbt _ => exact congrArg Prod.snd (host_nvmBbtSet env s bbt)
  | mark addrs flags => exact congrArg Prod.snd (host_nvmBbtMark env s addrs flags)
  | flush addr => exact congrArg Prod.snd (host_nvmBbtFlush env s addr)
  | flushAll => exact congrArg Prod.snd (host_flushAllLoop env _ s)
  | setBbtsCached v =>
    simp only [BbtOp.call, BbtCall.exec, BbtOp.exec, BbtCmds.nvmDevSetBbtsCached, nvmDevSetBbtsCached]
    split_ifs <;> rfl

theorem run_call {env : BbtEnv} (s : BbtDev) (ops : List (BbtOp env)) :
    Runs.run (BbtCall.exec env.cmds) s.host (ops.map BbtOp.call) = (Runs.run BbtOp.exec s ops).host := by
  induction ops generalizing s with
  | nil => rfl
  | cons op ops ih => rw [List.map_cons, Runs.run_cons, Runs.run_cons, exec_call, ih]

end BbtEnv

/-- From a device just opened, whatever it answers and wherever it fails, the counters of every managed
table are those of its entries. -/
theorem bbt_counters_match {σ : Type} (c : BbtCmds σ) (hc : c.Honest) (cached : Bool) (dev : σ)
    (calls : List BbtCall) (hcalls : ∀ call ∈ calls, call.Valid c.nblks) :
    c.AllCounted (Runs.run (BbtCall.exec c) ⟨cached, fun _ => none, dev⟩ calls) := by
  refine Runs.run_invariant (P := fun _ call => call.Valid c.nblks) ?_ ?_ (Runs.along_of_forall hcalls _)
  · exact fun s call hs hcall => call.exec_counted hc hs hcall
  · exact nofun

def freshCmds : BbtCmds Nat where
  geo := tinyGeo
  malloc n := (true, n)
  gbbt n _ :=
    (if n = 0 then .error .eio else .ok ⟨tinyGeo.nblocks * tinyGeo.nplanes, 0, 0, 0, 0, fun _ => 0⟩, n + 1)
  sbbt n _ _ := (.ok (), n + 1)

theorem freshCmds_honest : freshCmds.Honest := by
  intro n addr spec h
  by_cases hn : n = 0
  · simp [freshCmds, hn] at h
  · obtain rfl : _ = spec := by simpa [freshCmds, hn] using h
    exact ⟨fun i _ => rfl, rfl, rfl, rfl, rfl⟩

theorem bbt_counters_match_mark :
    let calls : List BbtCall := [.get (tinyAddr 0 0), .mark [tinyAddr 0 1] 0x2, .setBbtsCached 0, .setShared 0]
    let s := Runs.run (BbtCall.exec freshCmds) ⟨true, fun _ => none, 0⟩ (calls.take 2)
    freshCmds.AllCounted s ∧ (s.bbts 0).map Bbt.ngbad = some 1 ∧
      freshCmds.AllCounted (Runs.run (BbtCall.exec freshCmds) ⟨true, fun _ => none, 0⟩ calls) := by
  refine ⟨bbt_counters_match _ freshCmds_honest _ _ _ ?_, by decide,
    bbt_counters_match _ freshCmds_honest _ _ _ ?_⟩
  · simp [BbtCall.Valid, bbtState]
  · simp [BbtCall.Valid, bbtState]

end LightNvm
