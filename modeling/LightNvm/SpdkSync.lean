import LightNvm.BbtFlush
import LightNvm.ChunkReport

/-! The operations of the SPDK backend that wait for their completion, and what their success says
about the completion entries that the controller returned. -/

namespace LightNvm

open Tiling (nbatches)

structure Cpl where
  cdw0 : BitVec 32
  sc : BitVec 8
  sct : BitVec 3
  m : BitVec 1
  dnr : BitVec 1
  deriving DecidableEq

def Cpl.Ok (c : Cpl) : Prop := c.sc = 0 ∧ c.sct = 0

instance (c : Cpl) : Decidable c.Ok := inferInstanceAs (Decidable (_ ∧ _))

structure Ret where
  cdw0 : BitVec 32
  status : BitVec 16
  deriving DecidableEq

def Cpl.ret (c : Cpl) : Ret where
  cdw0 := c.cdw0
  status := c.sc.setWidth 16 ||| c.sct.setWidth 16 <<< 8 ||| c.m.setWidth 16 <<< 13 ||| c.dnr.setWidth 16 <<< 14

/-- How an operation ends: whether it reports success, the completions of the commands that it has
sent, and what they have left in `ret`. -/
structure SyncOut where
  ok : Bool
  cpls : List Cpl
  ret : Option Ret

def SyncOut.failed : SyncOut := ⟨false, [], none⟩

/-- `cmd_sync_admin`: the completion of its command, unless the submission fails. -/
def cmdSyncAdmin : Option Cpl → SyncOut
  | none => .failed
  | some c => ⟨true, [c], some c.ret⟩

def nvmCmdWrapCpl (c : Cpl) : Int := if c.sc ≠ 0 ∨ c.sct ≠ 0 then -1 else 1

/-- The body that `cmd_sync_ewrc` and `cmd_sync_pass` share; `wrap` says whether the wrap of the
command can be set up. -/
def cmdSyncIo (wrap : Bool) (cpl : Option Cpl) : SyncOut :=
  if !wrap then .failed
  else
    match cpl with
    | none => .failed
    | some c => ⟨if nvmCmdWrapCpl c < 0 then false else true, [c], some c.ret⟩

def cmdSyncEwrc (wrap : Bool) (cpl : Option Cpl) : SyncOut := cmdSyncIo wrap cpl

def cmdSyncPass (wrap : Bool) (cpl : Option Cpl) : SyncOut := cmdSyncIo wrap cpl

/-- The operations. Erase, write, read and copy differ in the command that is wrapped only. -/
inductive SyncOp where
  | idfy
  | rprt (geo : GeoL) (addr : Option LAddr)
  | gfeat
  | sfeat
  | gbbt
  | sbbt (naddrs : Nat)
  | pass (padc : Bool)
  | ewrc

def rprtLoop (geo : GeoL) (addr : Option LAddr) (cpl : Nat → Option Cpl) : List Nat → SyncOut → SyncOut
  | [], out => { out with ok := true }
  | k :: ks, out =>
    match spdkRprtCmd geo addr k, cpl k with
    | .ok _, some c => rprtLoop geo addr cpl ks ⟨false, out.cpls ++ [c], some c.ret⟩
    | _, _ => { out with ok := false }

/-- An operation, with whether what it does before its first command succeeds and the completion of
its `k`-th command, if that is accepted. -/
def SyncOp.run (prep : Bool) (cpl : Nat → Option Cpl) : SyncOp → SyncOut
  | .idfy => if prep then cmdSyncAdmin (cpl 0) else .failed
  | .rprt geo addr =>
    if prep then
      rprtLoop geo addr cpl (List.range (nbatches 0x1000 (rprtNdescr geo addr))) .failed
    else .failed
  | .gfeat => cmdSyncAdmin (cpl 0)
  | .sfeat => cmdSyncAdmin (cpl 0)
  | .gbbt => if prep then cmdSyncAdmin (cpl 0) else .failed
  | .sbbt naddrs =>
    -- a list of one address needs no memory
    if (naddrs + 2 ^ 16 - 1) % 2 ^ 16 = 0 ∨ prep then cmdSyncAdmin (cpl 0) else .failed
  | .pass padc => if padc then cmdSyncAdmin (cpl 0) else cmdSyncPass prep (cpl 0)
  | .ewrc => cmdSyncEwrc prep (cpl 0)

def SyncOp.admin : SyncOp → Bool
  | .pass padc => padc
  | .ewrc => false
  | _ => true

def SyncOp.ncmds : SyncOp → Nat
  | .rprt geo addr => nbatches 0x1000 (rprtNdescr geo addr)
  | _ => 1

def SyncOp.Prepared (prep : Bool) : SyncOp → Prop
  | .gfeat | .sfeat => True
  | .sbbt naddrs => (naddrs + 2 ^ 16 - 1) % 2 ^ 16 = 0 ∨ prep = true
  | .pass true => True
  | _ => prep = true

def SyncOp.Sent (prep : Bool) (cpl : Nat → Option Cpl) (op : SyncOp) : Prop :=
  op.Prepared prep ∧ ∀ k < op.ncmds, (cpl k).isSome

/-- The completions of the commands of one `nvm_bbt_flush`: of get-bbt, and of set-bbt for the
block at each index. A get-bbt that fails transfers nothing, so the buffer keeps the zeroes of its
header and, behind it, what the memory held. -/
structure FlushCpls where
  prep : Bool
  gbbt : Option Cpl
  sbbt : Nat → Option Cpl
  mem : Nat → UInt8

def spdkGbbt (env : BbtEnv) (q : FlushCpls) (s : BbtDev) (addr : GAddr) : Except Errno SpecBbt :=
  let out := SyncOp.gbbt.run q.prep fun _ => q.gbbt
  if !out.ok then .error .eio
  else if out.cpls.all (fun c => decide c.Ok) then .ok (s.answer env addr)
  else .ok ⟨0, 0, 0, 0, 0, q.mem⟩

/-- Set-bbt of one address. The table changes when the controller completes it without an error. -/
def spdkSbbt (env : BbtEnv) (q : FlushCpls) (s : BbtDev) (i : Nat) (addr : GAddr) (flags : UInt16) :
    Except Errno Unit × BbtDev :=
  let out := (SyncOp.sbbt 1).run q.prep fun _ => q.sbbt i
  (if out.ok then .ok () else .error .eio,
    if out.cpls.any (fun c => decide c.Ok) then
      { s with table := s.table.mark env.geo [addr] flags.toUInt8 }
    else s)

def spdkFlushLoop (env : BbtEnv) (q : FlushCpls) (cached : Bbt) (spec : SpecBbt) :
    List Nat → BbtDev → Except Errno Unit × BbtDev
  | [], s => (.ok (), s)
  | i :: is, s =>
    if cached.blks i = spec.blk i then spdkFlushLoop env q cached spec is s
    else
      let blkAddr := { cached.addr with
        blk := BitVec.ofNat 16 (i / env.geo.nplanes)
        pl := BitVec.ofNat 8 (i % env.geo.nplanes) }
      match spdkSbbt env q s i blkAddr (cached.blks i).toUInt16 with
      | (.error e, s) => (.error e, s)
      | (.ok _, s) => spdkFlushLoop env q cached spec is s

def spdkBbtFlush (env : BbtEnv) (q : FlushCpls) (s : BbtDev) (addr : GAddr) :
    Except Errno Unit × BbtDev :=
  if nvmAddrCheckG addr env.geo ≠ 0 then (.error .einval, s)
  else
    match s.bbts (bbtIdx env.geo addr) with
    | none => (.ok (), s)
    | some cached =>
      match spdkGbbt env q s addr with
      | .error e => (.error e, s)
      | .ok spec =>
        if cached.nblks ≠ spec.tblks then (.error .einval, s)
        else
          match spdkFlushLoop env q cached spec (List.range cached.nblks) s with
          | (.error e, s) => (.error e, s)
          | (.ok _, s) => (.ok (), s.setEntry (bbtIdx env.geo addr) none)

section

variable {prep : Bool} {cpl : Nat → Option Cpl}

theorem spdkRprtCmd_aligned (geo : GeoL) (addr : Option LAddr) (k : Nat) :
    ∃ c, spdkRprtCmd geo addr k = .ok c := by
  have hmask : ∀ x, x &&& 0x3 = x % 2 ^ 2 := fun x => Nat.and_two_pow_sub_one_eq_mod x 2
  have halign : (lpoOff geo addr + k * 0x1000 * descrNbytes) % 2 ^ 2 = 0 := by
    cases addr with
    | none =>
      rw [lpoOff, descrNbytes]
      omega
    | some a =>
      rw [lpoOff, nvmAddrGen2lpo, descrNbytes]
      omega
  rw [spdkRprtCmd, cmdSyncAdminGlp, hmask, if_neg (by simpa using halign)]
  exact ⟨_, rfl⟩

theorem rprtLoop_spec (geo : GeoL) (addr : Option LAddr) (turns : List Nat) (out : SyncOut) :
    ((rprtLoop geo addr cpl turns out).ok = true ↔ ∀ k ∈ turns, (cpl k).isSome) ∧
      ((rprtLoop geo addr cpl turns out).ok = true →
        (rprtLoop geo addr cpl turns out).cpls = out.cpls ++ turns.filterMap cpl) := by
  induction turns generalizing out with
  | nil => simp [rprtLoop]
  | cons k ks ih =>
    obtain ⟨cmd, hcmd⟩ := spdkRprtCmd_aligned geo addr k
    rw [rprtLoop, hcmd]
    cases hk : cpl k with
    | none => simp [hk]
    | some c =>
      obtain ⟨hok, hcpls⟩ := ih ⟨false, out.cpls ++ [c], some c.ret⟩
      refine ⟨by simpa [hk] using hok, fun h => ?_⟩
      rw [hcpls h]
      simp [hk]

theorem cmdSyncAdmin_spec (c : Option Cpl) : ((cmdSyncAdmin c).ok = true ↔ c.isSome) ∧
    (cmdSyncAdmin c).cpls = c.toList := by
  cases c with
  | none => exact ⟨by simp [cmdSyncAdmin, SyncOut.failed], rfl⟩
  | some c => exact ⟨by simp [cmdSyncAdmin], rfl⟩

theorem cmdSyncIo_spec (wrap : Bool) (c : Option Cpl) (h : (cmdSyncIo wrap c).ok = true) :
    ∀ x ∈ (cmdSyncIo wrap c).cpls, x.Ok := by
  cases wrap with
  | false => simp [cmdSyncIo, SyncOut.failed] at h
  | true =>
    cases c with
    | none => simp [cmdSyncIo, SyncOut.failed] at h
    | some c =>
      by_cases hc : c.Ok
      · simpa [cmdSyncIo] using hc
      · have herr : nvmCmdWrapCpl c = -1 := if_pos (not_and_or.mp hc)
        simp [cmdSyncIo, herr] at h

theorem SyncOp.ncmds_one {op : SyncOp} (hop : op.ncmds = 1) :
    ((∀ k < op.ncmds, (cpl k).isSome) ↔ (cpl 0).isSome) ∧
      (List.range op.ncmds).filterMap cpl = (cpl 0).toList := by
  rw [hop]
  refine ⟨by simp, ?_⟩
  cases h : cpl 0 <;> simp [List.range_one, h]

theorem admin_run_spec {op : SyncOp} (hop : op.admin = true) :
    ((op.run prep cpl).ok = true ↔ op.Sent prep cpl) ∧
      ((op.run prep cpl).ok = true → (op.run prep cpl).cpls = (List.range op.ncmds).filterMap cpl) := by
  -- an operation of one command, which is sent when `sent` holds
  have hone : ∀ (op : SyncOp) (sent : Prop) [Decidable sent], op.ncmds = 1 →
      (op.Prepared prep ↔ sent) →
      op.run prep cpl = (if sent then cmdSyncAdmin (cpl 0) else .failed) →
      ((op.run prep cpl).ok = true ↔ op.Sent prep cpl) ∧ ((op.run prep cpl).ok = true →
        (op.run prep cpl).cpls = (List.range op.ncmds).filterMap cpl) := by
    intro op sent _ hn hp hrun
    obtain ⟨hok, hcpls⟩ := cmdSyncAdmin_spec (cpl 0)
    obtain ⟨hall, hmap⟩ := @SyncOp.ncmds_one cpl op hn
    rw [SyncOp.Sent, hall, hp, hrun, hmap]
    by_cases hs : sent
    · rw [if_pos hs]
      exact ⟨hok.trans (by simp [hs]), fun _ => hcpls⟩
    · rw [if_neg hs]
      exact ⟨by simp [SyncOut.failed, hs], by simp [SyncOut.failed]⟩
  cases op with
  | idfy => exact hone _ (prep = true) rfl Iff.rfl rfl
  | rprt geo addr =>
    cases prep with
    | false => exact ⟨by simp [SyncOp.run, SyncOp.Sent, SyncOp.Prepared, SyncOut.failed],
        by simp [SyncOp.run, SyncOut.failed]⟩
    | true =>
      obtain ⟨hok, hcpls⟩ := @rprtLoop_spec cpl geo addr
        (List.range (nbatches 0x1000 (rprtNdescr geo addr))) .failed
      refine ⟨hok.trans ?_, fun h => (hcpls h).trans (List.nil_append _)⟩
      simp [SyncOp.Sent, SyncOp.Prepared, SyncOp.ncmds]
  | gfeat => exact hone _ True rfl Iff.rfl rfl
  | sfeat => exact hone _ True rfl Iff.rfl rfl
  | gbbt => exact hone _ (prep = true) rfl Iff.rfl rfl
  | sbbt naddrs =>
    exact hone (.sbbt naddrs) ((naddrs + 2 ^ 16 - 1) % 2 ^ 16 = 0 ∨ prep = true) rfl
      (by rw [SyncOp.Prepared]) (by rw [SyncOp.run])
  | pass padc =>
    cases padc with
    | false => simp [SyncOp.admin] at hop
    | true => exact hone _ True rfl Iff.rfl rfl
  | ewrc => simp [SyncOp.admin] at hop

theorem io_run_ok {op : SyncOp} (hop : op.admin = false) (h : (op.run prep cpl).ok = true) :
    ∀ c ∈ (op.run prep cpl).cpls, c.Ok := by
  cases op with
  | pass padc =>
    cases padc with
    | false => exact cmdSyncIo_spec _ _ h
    | true => simp [SyncOp.admin] at hop
  | ewrc => exact cmdSyncIo_spec _ _ h
  | _ => simp [SyncOp.admin] at hop

theorem run_ok_completed_iff (op : SyncOp) :
    ((op.run prep cpl).ok = true → ∀ c ∈ (op.run prep cpl).cpls, c.Ok) ↔
      (op.admin = true → op.Sent prep cpl → ∀ k < op.ncmds, ∀ c ∈ cpl k, c.Ok) := by
  cases hop : op.admin with
  | false => simpa using io_run_ok hop
  | true =>
    obtain ⟨hok, hcpls⟩ := @admin_run_spec prep cpl op hop
    constructor
    · intro h _ hsent k hk c hc
      have hrun := hok.mpr hsent
      refine h hrun c ?_
      rw [hcpls hrun, List.mem_filterMap]
      exact ⟨k, List.mem_range.mpr hk, hc⟩
    · intro h hrun c hc
      rw [hcpls hrun, List.mem_filterMap] at hc
      obtain ⟨k, hk, hc⟩ := hc
      exact h rfl (hok.mp hrun) k (List.mem_range.mp hk) c hc

end

/-! The flush of a table. -/

theorem spdkGbbt_eq (env : BbtEnv) (q : FlushCpls) (s : BbtDev) (addr : GAddr) :
    spdkGbbt env q s addr =
      match q.prep, q.gbbt with
      | true, some c => .ok (if c.Ok then s.answer env addr else ⟨0, 0, 0, 0, 0, q.mem⟩)
      | _, _ => .error .eio := by
  cases hp : q.prep with
  | false => simp [spdkGbbt, SyncOp.run, hp, SyncOut.failed]
  | true =>
    cases hc : q.gbbt with
    | none => simp [spdkGbbt, SyncOp.run, hp, hc, cmdSyncAdmin, SyncOut.failed]
    | some c =>
      by_cases h : c.Ok <;> simp [spdkGbbt, SyncOp.run, hp, hc, cmdSyncAdmin, h]

theorem spdkSbbt_refused (env : BbtEnv) {q : FlushCpls} (s : BbtDev) {i : Nat} (addr : GAddr)
    (flags : UInt16) (h : q.sbbt i = none) : spdkSbbt env q s i addr flags = (.error .eio, s) := by
  simp [spdkSbbt, SyncOp.run, h, cmdSyncAdmin, SyncOut.failed]

theorem spdkSbbt_sent {env : BbtEnv} {q : FlushCpls} (s : BbtDev) {i : Nat} (addr : GAddr)
    (v : UInt8) {c : Cpl} (hi : i < env.nblks) (h : q.sbbt i = some c) :
    ∃ t, spdkSbbt env q s i { addr with
        blk := BitVec.ofNat 16 (i / env.geo.nplanes)
        pl := BitVec.ofNat 8 (i % env.geo.nplanes) } v.toUInt16 = (.ok (), { s with table := t }) ∧
      ∀ j, t addr.ch.toNat addr.lun.toNat j =
        if j = i ∧ c.Ok then v else s.table addr.ch.toNat addr.lun.toNat j := by
  have hidx := blkIdx_of_index addr hi
  have hrun : (SyncOp.sbbt 1).run q.prep (fun _ => q.sbbt i) = ⟨true, [c], some c.ret⟩ := by
    simp [SyncOp.run, h, cmdSyncAdmin]
  rw [spdkSbbt, hrun]
  by_cases hc : c.Ok
  · refine ⟨s.table.mark env.geo [{ addr with
        blk := BitVec.ofNat 16 (i / env.geo.nplanes)
        pl := BitVec.ofNat 8 (i % env.geo.nplanes) }] v.toUInt16.toUInt8, by simp [hc], fun j => ?_⟩
    simp [hc, Tables.mark, Tables.set, hidx]
  · refine ⟨s.table, by simp [hc], fun j => ?_⟩
    simp [hc]

theorem spdkFlushLoop_spec (env : BbtEnv) (q : FlushCpls) (cached : Bbt) (spec : SpecBbt)
    (is : List Nat) (hlt : ∀ i ∈ is, i < env.nblks) (hnd : is.Nodup) (s : BbtDev) :
    ∃ t, (spdkFlushLoop env q cached spec is s).2 = { s with table := t } ∧
      ((spdkFlushLoop env q cached spec is s).1 = .ok () ↔
        ∀ i ∈ is, cached.blks i ≠ spec.blk i → (q.sbbt i).isSome) ∧
      ((spdkFlushLoop env q cached spec is s).1 = .ok () → ∀ j,
        t cached.addr.ch.toNat cached.addr.lun.toNat j =
          if j ∈ is ∧ cached.blks j ≠ spec.blk j ∧ ∃ c ∈ q.sbbt j, c.Ok then cached.blks j
          else s.table cached.addr.ch.toNat cached.addr.lun.toNat j) := by
  induction is generalizing s with
  | nil => exact ⟨s.table, rfl, by simp [spdkFlushLoop], by simp⟩
  | cons i is ih =>
    obtain ⟨hi, hnd⟩ := List.nodup_cons.mp hnd
    have hlt' : ∀ j ∈ is, j < env.nblks := fun j hj => hlt j (by simp [hj])
    by_cases he : cached.blks i = spec.blk i
    · obtain ⟨t, ht, hok, htab⟩ := ih hlt' hnd s
      rw [spdkFlushLoop, if_pos he]
      refine ⟨t, ht, by simpa [he] using hok, fun h j => ?_⟩
      rw [htab h j]
      by_cases hj : j = i
      · subst hj
        simp [he]
      · simp [hj]
    · rw [spdkFlushLoop, if_neg he]
      dsimp only
      cases hc : q.sbbt i with
      | none =>
        -- a set-bbt that is not accepted ends the loop
        rw [spdkSbbt_refused env s _ _ hc]
        exact ⟨s.table, rfl, by simp [he, hc], by simp⟩
      | some c =>
        obtain ⟨t₁, hs, ht₁⟩ := spdkSbbt_sent s cached.addr (cached.blks i) (hlt i (by simp)) hc
        rw [hs]
        obtain ⟨t, ht, hok, htab⟩ := ih hlt' hnd { s with table := t₁ }
        refine ⟨t, ht, by simpa [he, hc] using hok, fun h j => ?_⟩
        rw [htab h j]
        dsimp only
        rw [ht₁]
        by_cases hj : j = i
        · subst hj
          simp [hi, he, hc]
        · simp [hj]

theorem spdkBbtFlush_entry {env : BbtEnv} {q : FlushCpls} {s : BbtDev} {addr : GAddr} {cached : Bbt}
    (ha : nvmAddrCheckG addr env.geo = 0) (hk : s.bbts (bbtIdx env.geo addr) = some cached)
    (hn : cached.nblks = env.nblks) (hg : spdkGbbt env q s addr = .ok (s.answer env addr))
    {r : Except Errno Unit} {s' : BbtDev}
    (hr : spdkFlushLoop env q cached (s.answer env addr) (List.range cached.nblks) s = (r, s')) :
    spdkBbtFlush env q s addr =
      (r, if r = .ok () then s'.setEntry (bbtIdx env.geo addr) none else s') := by
  simp only [spdkBbtFlush, ha, hk, hg, ne_eq, not_true, if_false]
  rw [if_neg (by simp [hn, BbtDev.answer]), hr]
  cases r <;> simp

theorem flushed_table_iff {q : FlushCpls} {n : Nat} {blks old t : Nat → UInt8}
    (hsent : ∀ i ∈ List.range n, blks i ≠ old i → (q.sbbt i).isSome)
    (htab : ∀ i, t i =
      if i ∈ List.range n ∧ blks i ≠ old i ∧ ∃ c ∈ q.sbbt i, c.Ok then blks i else old i) :
    (∀ i < n, t i = blks i) ↔ ∀ i < n, blks i ≠ old i → ∀ c ∈ q.sbbt i, c.Ok := by
  constructor
  · intro h i hi hd c hc
    by_contra hno
    have hkeep : t i = old i := by
      rw [htab, if_neg]
      rintro ⟨-, -, c', hc', hok'⟩
      rw [Option.mem_def.mp hc] at hc'
      exact hno (Option.some.inj hc' ▸ hok')
    exact hd ((h i hi).symm.trans hkeep)
  · intro h i hi
    by_cases hd : blks i = old i
    · rw [htab, if_neg (fun h => h.2.1 hd), hd]
    · obtain ⟨c, hc⟩ := Option.isSome_iff_exists.mp (hsent i (List.mem_range.mpr hi) hd)
      rw [htab, if_pos ⟨List.mem_range.mpr hi, hd, c, hc, h i hi hd c hc⟩]

theorem spdkBbtFlush_discards_iff {env : BbtEnv} (q : FlushCpls) {s : BbtDev} (hi : BbtInv env s)
    {addr : GAddr} {cached : Bbt} (hk : s.bbts (bbtIdx env.geo addr) = some cached) :
    ((spdkBbtFlush env q s addr).2.bbts (bbtIdx env.geo addr) = none → ∀ i < cached.nblks,
      (spdkBbtFlush env q s addr).2.table addr.ch.toNat addr.lun.toNat i = cached.blks i) ↔
    (nvmAddrCheckG addr env.geo = 0 → q.prep = true → (∃ c ∈ q.gbbt, c.Ok) →
      (∀ i < cached.nblks, cached.blks i ≠ s.table addr.ch.toNat addr.lun.toNat i → (q.sbbt i).isSome) →
      ∀ i < cached.nblks, cached.blks i ≠ s.table addr.ch.toNat addr.lun.toNat i →
        ∀ c ∈ q.sbbt i, c.Ok) := by
  obtain ⟨hn, hca, hck⟩ := hi _ _ hk
  by_cases ha : nvmAddrCheckG addr env.geo = 0
  swap
  · simp [spdkBbtFlush, ha, hk]
  obtain ⟨hch, hlun⟩ := bbtIdx_inj hca ha hck
  have hgbbt := spdkGbbt_eq env q s addr
  cases hp : q.prep with
  | false =>
    rw [hp] at hgbbt
    simp [spdkBbtFlush, ha, hk, hgbbt]
  | true =>
    cases hg : q.gbbt with
    | none =>
      rw [hp, hg] at hgbbt
      simp [spdkBbtFlush, ha, hk, hgbbt]
    | some g =>
      rw [hp, hg] at hgbbt
      by_cases hgok : g.Ok
      · obtain ⟨t, ht, hok, htab⟩ := spdkFlushLoop_spec env q cached (s.answer env addr)
          (List.range cached.nblks) (fun i hi => hn ▸ List.mem_range.mp hi) List.nodup_range s
        rcases hl : spdkFlushLoop env q cached (s.answer env addr) (List.range cached.nblks) s with ⟨r, s'⟩
        rw [spdkBbtFlush_entry ha hk hn (by simpa [hgok] using hgbbt) hl]
        rw [hl] at ht hok htab
        obtain rfl : s' = { s with table := t } := ht
        cases r with
        | error e =>
          refine iff_of_true (fun h => by simp [hk] at h) fun _ _ _ h => ?_
          exact absurd (hok.mpr fun i hi => h i (List.mem_range.mp hi)) (by simp)
        | ok u =>
          have hsent := hok.mp rfl
          have htab := htab rfl
          rw [hch, hlun] at htab
          have htable := flushed_table_iff hsent htab
          constructor
          · intro h _ _ _ _
            exact htable.mp (h (by simp [BbtDev.setEntry]))
          · intro h _
            refine htable.mpr (h ha rfl ⟨g, rfl, hgok⟩ fun i hi => ?_)
            exact hsent i (List.mem_range.mpr hi)
      · -- the zeroed header gives an empty table away
        refine iff_of_true (fun h i hi => ?_) fun _ _ hok => ?_
        · have hne : cached.nblks ≠ 0 := by omega
          simp [spdkBbtFlush, ha, hk, hgbbt, hgok, hne] at h
        · obtain ⟨c, hc, hok⟩ := hok
          exact absurd (Option.some.inj hc ▸ hok) hgok

def grownEnv : BbtEnv := ⟨tinyGeo, .spdk, fun _ => true⟩

def grownEntry : Bbt := ⟨tinyAddr 0 0, 2, 0, 1, 0, 0, fun i => if i = 0 then 2 else 0⟩

def grownDev : BbtDev := ⟨true, fun k => if k = 0 then some grownEntry else none, fun _ _ _ => 0, 0⟩

theorem grownDev_inv : BbtInv grownEnv grownDev := by
  intro k bbt h
  by_cases hk : k = 0
  · subst hk
    obtain rfl : grownEntry = bbt := Option.some.inj h
    exact ⟨rfl, by decide, by decide⟩
  · simp [grownDev, hk] at h

def Cpl.code (sc : BitVec 8) : Cpl := ⟨0, sc, 0, 0, 0⟩

theorem Cpl.ok_of_code {c : Cpl} (h : c ∈ some (Cpl.code 0)) : c.Ok := by
  obtain rfl := Option.mem_some_iff.mp h
  decide

end LightNvm
