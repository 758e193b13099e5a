import LightNvm.BatchLoop
import LightNvm.NocdGeo

/-! The buffer of a chunk report, which `nvm_be_ioctl_rprt`, `nvm_be_spdk_rprt` and `nvm_be_nocd_rprt` size by
the members of `struct nvm_spec_rprt` and fill by its layout. -/

namespace LightNvm

open BatchLoop (batches)
open Tiling (nbatches)

structure ByteRange where
  bgn : Nat
  nbytes : Nat
  deriving DecidableEq

/-- `sizeof(rprt->ndescr)`. -/
def ndescrNbytes : Nat := 4

/-- The offset of `descr`: the 64-bit members of a descriptor align it to 8 bytes. -/
def descrBgn : Nat := (ndescrNbytes + 7) / 8 * 8

def descrRange (descr nbytes : Nat) : ByteRange := ⟨descrBgn + descr * descrNbytes, nbytes⟩

def rprtLen (geo : GeoL) (addr : Option LAddr) : Nat :=
  (rprtNdescr geo addr * descrNbytes + ndescrNbytes) % 2 ^ 64

/-- The report is cleared and gets its number of descriptors, and then it is filled. -/
def rprtWrites (geo : GeoL) (addr : Option LAddr) (alloc : Bool) (fill : List ByteRange) : List ByteRange :=
  if alloc then ⟨0, rprtLen geo addr⟩ :: ⟨0, ndescrNbytes⟩ :: fill else []

def batchRange (geo : GeoL) (addr : Option LAddr) (step i : Nat) : ByteRange :=
  descrRange i (min step (rprtNdescr geo addr - i) * descrNbytes)

/-- The writes of `nvm_be_ioctl_rprt` within a number of turns of its loop, whose index is an
`unsigned int`. -/
def ioctlRprtWrites (geo : GeoL) (addr : Option LAddr) (alloc : Bool) (cmdOk : Nat → Bool) (turns : Nat) :
    List ByteRange :=
  let make : Nat → Except Errno ByteRange := fun i => .ok (batchRange geo addr maxDescrPrCall i)
  rprtWrites geo addr alloc (batches (2 ^ 32) maxDescrPrCall (rprtNdescr geo addr) make cmdOk turns 0 0)

def IoctlGlp.range (c : IoctlGlp) : ByteRange := descrRange c.descr c.dataLen

def GlpCmd.range (c : GlpCmd) : ByteRange := descrRange c.descr c.dataLen

def spdkRprtRange (geo : GeoL) (addr : Option LAddr) (i : Nat) : Except Errno ByteRange :=
  let count := min 0x1000 (rprtNdescr geo addr - i)
  let lpo := (lpoOff geo addr + i * descrNbytes) % 2 ^ 64
  (cmdSyncAdminGlp i (count * descrNbytes / 4 - 1) lpo).map GlpCmd.range

def spdkRprtWrites (geo : GeoL) (addr : Option LAddr) (alloc : Bool) (cmdOk : Nat → Bool) (turns : Nat) :
    List ByteRange :=
  rprtWrites geo addr alloc
    (batches (2 ^ 64) 0x1000 (rprtNdescr geo addr) (spdkRprtRange geo addr) cmdOk turns 0 0)

def nocdRprtWrites (geo : GeoL) (addr : Option LAddr) (alloc : Bool) : List ByteRange :=
  rprtWrites geo addr alloc [descrRange 0 (rprtNdescr geo addr * descrNbytes % 2 ^ 64)]

/-! What is to hold of them. -/

def ByteRange.Inside (r : ByteRange) (len : Nat) : Prop := ∀ x, r.bgn ≤ x → x < r.bgn + r.nbytes → x < len

def StaysInside (geo : GeoL) (addr : Option LAddr) (writes : List ByteRange) : Prop :=
  ∀ r ∈ writes, r.Inside (rprtLen geo addr)

/-- The descriptors that the length in 64 bits has been counted for. -/
def lenNdescr (geo : GeoL) (addr : Option LAddr) : Nat := rprtNdescr geo addr % 2 ^ 59

section

variable {geo : GeoL} {addr : Option LAddr}

theorem ByteRange.inside_iff {r : ByteRange} {len : Nat} :
    r.Inside len ↔ r.nbytes = 0 ∨ r.bgn + r.nbytes ≤ len := by
  constructor
  · intro h
    by_contra hno
    push Not at hno
    have hlast := h (r.bgn + r.nbytes - 1) (by omega) (by omega)
    omega
  · intro h x hx hlt
    omega

theorem rprtLen_eq (geo : GeoL) (addr : Option LAddr) :
    rprtLen geo addr = lenNdescr geo addr * descrNbytes + ndescrNbytes := by
  rw [rprtLen, lenNdescr, descrNbytes, ndescrNbytes]
  omega

/-- The last descriptor does not fit, as its range starts 4 bytes later than the length assumes. -/
theorem descrRange_inside_iff {i count : Nat} (hpos : 0 < count) :
    (descrRange i (count * descrNbytes)).Inside (rprtLen geo addr) ↔ i + count < lenNdescr geo addr := by
  rw [ByteRange.inside_iff, rprtLen_eq, descrRange, descrBgn, descrNbytes, ndescrNbytes]
  dsimp only
  omega

theorem rprtWrites_inside_iff {alloc : Bool} {fill : List ByteRange} :
    StaysInside geo addr (rprtWrites geo addr alloc fill) ↔ alloc = false ∨ StaysInside geo addr fill := by
  cases alloc with
  | false => simp [rprtWrites, StaysInside]
  | true =>
    have hclear : ByteRange.Inside ⟨0, rprtLen geo addr⟩ (rprtLen geo addr) := fun x _ hx => by
      rwa [Nat.zero_add] at hx
    have hcount : ByteRange.Inside ⟨0, ndescrNbytes⟩ (rprtLen geo addr) := by
      rw [ByteRange.inside_iff, rprtLen_eq]
      exact .inr (by rw [Nat.zero_add]; exact Nat.le_add_left _ _)
    simp [rprtWrites, StaysInside, hclear, hcount]

/-! The loops. -/

theorem spdkRprtRange_ok {i : Nat} (hi : i < rprtNdescr geo addr) :
    spdkRprtRange geo addr i = .ok (batchRange geo addr 0x1000 i) := by
  have hmask : ∀ x, x &&& 0x3 = x % 2 ^ 2 := fun x => Nat.and_two_pow_sub_one_eq_mod x 2
  have hoff : lpoOff geo addr % 2 ^ 2 = 0 := by
    cases addr with
    | none => rfl
    | some a =>
      rw [lpoOff, nvmAddrGen2lpo, descrNbytes]
      omega
  have halign : (lpoOff geo addr + i * descrNbytes) % 2 ^ 64 &&& 0x3 = 0 := by
    rw [hmask, descrNbytes]
    omega
  have hlen : (min 0x1000 (rprtNdescr geo addr - i) * descrNbytes / 4 - 1 + 1) * 4 =
      min 0x1000 (rprtNdescr geo addr - i) * descrNbytes := by
    rw [descrNbytes]
    omega
  rw [spdkRprtRange, cmdSyncAdminGlp, if_neg (by simpa using halign), Except.map, GlpCmd.range, hlen,
    batchRange]

theorem loop_inside_iff {width step : Nat} {alloc : Bool} {make : Nat → Except Errno ByteRange}
    {cmdOk : Nat → Bool} (hs : 0 < step) (hw : 0 < width) (hdvd : step ∣ width)
    (hmake : ∀ i < rprtNdescr geo addr, make i = .ok (batchRange geo addr step i)) :
    (∀ turns, StaysInside geo addr
        (rprtWrites geo addr alloc (batches width step (rprtNdescr geo addr) make cmdOk turns 0 0))) ↔
      alloc = false ∨ rprtNdescr geo addr = 0 ∨ width < lenNdescr geo addr ∨
        ∃ t < (lenNdescr geo addr - 1) / step, cmdOk t = false := by
  have hbatch : ∀ k, BatchLoop.Reaches width step (rprtNdescr geo addr) cmdOk k →
      ((batchRange geo addr step (k * step % width)).Inside (rprtLen geo addr) ↔
        k * step % width + min step (rprtNdescr geo addr - k * step % width) < lenNdescr geo addr) := by
    intro k hk
    have hin := hk.2 k le_rfl
    exact descrRange_inside_iff (by omega)
  simp only [rprtWrites_inside_iff, forall_or_left]
  refine or_congr_right ((BatchLoop.forall_batches_iff fun k hk => hmake _ hk).trans ?_)
  exact (forall₂_congr hbatch).trans (BatchLoop.ends_below_iff hs hw hdvd (Nat.mod_le _ _))

/-! A run in which every command succeeds makes the commands of the report. -/

theorem ioctlRprtWrites_eq (h : RprtOk geo addr) :
    ioctlRprtWrites geo addr true (fun _ => true) (nbatches maxDescrPrCall (rprtNdescr geo addr)) =
      rprtWrites geo addr true ((nvmBeIoctlRprt geo addr).map IoctlGlp.range) := by
  obtain ⟨idx, -, hle⟩ := h.le_total
  have htotal := h.total_lt
  have hstep : maxDescrPrCall = 512 := rfl
  rw [ioctlRprtWrites, BatchLoop.batches_eq_map (by decide) (by omega) (fun _ _ => rfl) fun _ => rfl,
    nvmBeIoctlRprt, List.map_map]
  rfl

theorem spdkRprtCmd_range (h : RprtOk geo addr) {k : Nat} (hk : k < nbatches 0x1000 (rprtNdescr geo addr)) :
    ∃ c, spdkRprtCmd geo addr k = .ok c ∧ c.range = batchRange geo addr 0x1000 (k * 0x1000) := by
  have hrange := spdkRprtRange_ok (batch_bounds (by decide) hk).2
  obtain ⟨c, hc, -⟩ := spdkRprtCmd_ok h hk
  refine ⟨c, hc, ?_⟩
  rw [spdkRprtCmd] at hc
  rw [spdkRprtRange, Nat.mod_eq_of_lt (h.lpo_lt (by decide) hk), hc] at hrange
  exact Except.ok.inj hrange

theorem spdkRprtWrites_eq (h : RprtOk geo addr) : ∃ cmds, nvmBeSpdkRprt geo addr = .ok cmds ∧
    spdkRprtWrites geo addr true (fun _ => true) (nbatches 0x1000 (rprtNdescr geo addr)) =
      rprtWrites geo addr true (cmds.map GlpCmd.range) := by
  obtain ⟨idx, -, hle⟩ := h.le_total
  have htotal := h.total_lt
  obtain ⟨cmds, hcmds, hrange, -⟩ := mapM_ok (P := fun _ => True) fun _ hk => by
    obtain ⟨c, hc, hrange⟩ := spdkRprtCmd_range h (List.mem_range.mp hk)
    exact ⟨c, hc, hrange, trivial⟩
  refine ⟨cmds, hcmds, ?_⟩
  rw [hrange, spdkRprtWrites,
    BatchLoop.batches_eq_map (by decide) (by omega) (fun _ hi => spdkRprtRange_ok hi) fun _ => rfl]

theorem nocdRprtWrites_eq {nocd : NocdState} {ds : List RprtDescr}
    (h : nvmBeNocdRprt nocd addr true = some (.ok ds)) :
    nocdRprtWrites nocd.dev.geo addr true =
      rprtWrites nocd.dev.geo addr true [descrRange 0 (ds.length * descrNbytes % 2 ^ 64)] := by
  obtain ⟨hle, rfl⟩ := nvmBeNocdRprt_eq_ok_iff.mp h
  rw [List.length_take, List.length_drop, Nat.min_eq_left (by omega), nocdRprtWrites]

theorem fill_end_le {alloc : Bool} {fill : List ByteRange}
    (hfill : ∀ r ∈ fill, r.bgn + r.nbytes ≤ descrBgn + rprtNdescr geo addr * descrNbytes) :
    ∀ r ∈ rprtWrites geo addr alloc fill,
      r.bgn + r.nbytes ≤ descrBgn + rprtNdescr geo addr * descrNbytes := by
  have hle : lenNdescr geo addr ≤ rprtNdescr geo addr := Nat.mod_le _ _
  intro r hr
  rw [rprtWrites] at hr
  split_ifs at hr
  · simp only [List.mem_cons] at hr
    rcases hr with rfl | rfl | hr
    · dsimp only
      rw [rprtLen_eq, descrBgn, descrNbytes, ndescrNbytes]
      omega
    · rw [descrBgn, ndescrNbytes]
      dsimp only
      omega
    · exact hfill r hr
  · exact absurd hr List.not_mem_nil

theorem loop_end_le {width step : Nat} {make : Nat → Except Errno ByteRange} {cmdOk : Nat → Bool}
    (hmake : ∀ i < rprtNdescr geo addr, make i = .ok (batchRange geo addr step i)) (turns : Nat) :
    ∀ r ∈ batches width step (rprtNdescr geo addr) make cmdOk turns 0 0,
      r.bgn + r.nbytes ≤ descrBgn + rprtNdescr geo addr * descrNbytes := by
  refine (BatchLoop.forall_batches_iff fun k hk => hmake _ hk).mpr (fun k hk => ?_) turns
  have hin := hk.2 k le_rfl
  rw [batchRange, descrRange, descrNbytes]
  dsimp only
  omega

/-- No write passes the descriptors as they are laid out: the length misses the padding alone. -/
theorem rprt_writes_end_le (alloc : Bool) (cmdOk : Nat → Bool) (turns : Nat) :
    ∀ r ∈ ioctlRprtWrites geo addr alloc cmdOk turns ++ spdkRprtWrites geo addr alloc cmdOk turns ++
        nocdRprtWrites geo addr alloc,
      r.bgn + r.nbytes ≤ descrBgn + rprtNdescr geo addr * descrNbytes := by
  intro r hr
  rw [List.mem_append, List.mem_append] at hr
  rcases hr with (hr | hr) | hr
  · exact fill_end_le (loop_end_le (fun _ _ => rfl) turns) r hr
  · exact fill_end_le (loop_end_le (fun _ hi => spdkRprtRange_ok hi) turns) r hr
  · refine fill_end_le (fun r hr => ?_) r hr
    obtain rfl := List.mem_singleton.mp hr
    exact Nat.add_le_add_left (Nat.mod_le _ _) _

end

end LightNvm
