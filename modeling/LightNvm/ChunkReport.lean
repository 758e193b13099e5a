import Mathlib.Tactic.Ring
import LightNvm.Addr
import LightNvm.Tiling

/-! The chunk report of an OCSSD 2.0 device: the get-log-page commands by which
`nvm_be_spdk_rprt` and `nvm_be_ioctl_rprt` read the chunk-information log page. -/

namespace LightNvm

open Tiling (Piece Tiles nbatches)

def descrNbytes : Nat := 32

def nvmAddrGen2lpo (geo : GeoL) (addr : LAddr) : Nat :=
  (addr.pugrp.toNat * geo.npunit * geo.nchunk + addr.punit.toNat * geo.nchunk + addr.chunk.toNat) *
    descrNbytes % 2 ^ 64

/-- `lpo_off` of both functions: the report of a parallel unit, or of the whole device. -/
def lpoOff (geo : GeoL) : Option LAddr → Nat
  | none => 0
  | some addr => nvmAddrGen2lpo geo addr

def rprtNdescr (geo : GeoL) : Option LAddr → Nat
  | none => geo.nchunk * geo.npunit * geo.npugrp % 2 ^ 64
  | some _ => geo.nchunk

structure GlpCmd where
  numdu : Nat
  numdl : Nat
  lpou : Nat
  lpol : Nat
  descr : Nat
  dataLen : Nat

/-- What a get-log-page command transfers, by its fields. -/
def glpPiece (numdu numdl lpou lpol descr : Nat) : Piece :=
  ⟨lpou * 2 ^ 32 + lpol, 4 * (numdu * 2 ^ 16 + numdl + 1), descrNbytes * descr⟩

def GlpCmd.piece (c : GlpCmd) : Piece := glpPiece c.numdu c.numdl c.lpou c.lpol c.descr

def cmdSyncAdminGlp (descr ndw lpo : Nat) : Except Errno GlpCmd :=
  if lpo &&& 0x3 ≠ 0 then .error .einval
  else .ok
    { numdu := (ndw >>> 16) % 2 ^ 16
      numdl := (ndw &&& 0xffff) % 2 ^ 16
      lpou := (lpo >>> 32) % 2 ^ 32
      lpol := (lpo &&& 0xfffffff) % 2 ^ 32
      descr := descr
      dataLen := (ndw + 1) * 4 }

def spdkRprtCmd (geo : GeoL) (addr : Option LAddr) (turn : Nat) : Except Errno GlpCmd :=
  let i := turn * 0x1000
  let count := min 0x1000 (rprtNdescr geo addr - i)
  cmdSyncAdminGlp i (count * descrNbytes / 4 - 1) (lpoOff geo addr + i * descrNbytes)

def nvmBeSpdkRprt (geo : GeoL) (addr : Option LAddr) : Except Errno (List GlpCmd) :=
  (List.range (nbatches 0x1000 (rprtNdescr geo addr))).mapM (spdkRprtCmd geo addr)

structure IoctlGlp where
  descr : Nat
  dataLen : Nat
  cdw10 : Nat
  cdw11 : Nat
  cdw12 : Nat
  cdw13 : Nat

def IoctlGlp.piece (c : IoctlGlp) : Piece :=
  glpPiece (c.cdw11 % 2 ^ 16) (c.cdw10 >>> 16) c.cdw13 c.cdw12 c.descr

def maxDescrPrCall : Nat := 0x1000 * 4 / descrNbytes

def ioctlRprtCmd (geo : GeoL) (addr : Option LAddr) (turn : Nat) : IoctlGlp :=
  let i := turn * maxDescrPrCall
  let dataLen := min maxDescrPrCall (rprtNdescr geo addr - i) * descrNbytes
  let numd := (dataLen >>> 2) - 1
  let numdu := (numd >>> 16) % 2 ^ 16
  let numdl := (numd &&& 0xffff) % 2 ^ 16
  let lpo := lpoOff geo addr + i * descrNbytes
  { descr := i
    dataLen := dataLen
    cdw10 := (0xCA ||| numdl <<< 16) % 2 ^ 32
    cdw11 := numdu
    cdw12 := lpo % 2 ^ 32
    cdw13 := (lpo >>> 32) % 2 ^ 32 }

def nvmBeIoctlRprt (geo : GeoL) (addr : Option LAddr) : List IoctlGlp :=
  (List.range (nbatches maxDescrPrCall (rprtNdescr geo addr))).map (ioctlRprtCmd geo addr)

/-- A parallel unit of the geometry, or the whole device, with fewer than 2^31 chunks. -/
structure RprtOk (geo : GeoL) (addr : Option LAddr) : Prop where
  total_lt : geo.npugrp * geo.npunit * geo.nchunk < 2 ^ 31
  punit : ∀ a ∈ addr, a.pugrp.toNat < geo.npugrp ∧ a.punit.toNat < geo.npunit ∧ a.chunk = 0 ∧ a.sectr = 0

section

variable {geo : GeoL} {addr : Option LAddr}

theorem rprtOk_none_iff : RprtOk geo none ↔ geo.npugrp * geo.npunit * geo.nchunk < 2 ^ 31 :=
  ⟨RprtOk.total_lt, fun h => ⟨h, fun _ ha => by cases ha⟩⟩

theorem rprtOk_some_iff {a : LAddr} : RprtOk geo (some a) ↔
    geo.npugrp * geo.npunit * geo.nchunk < 2 ^ 31 ∧ a.pugrp.toNat < geo.npugrp ∧ a.punit.toNat < geo.npunit ∧
      a.chunk = 0 ∧ a.sectr = 0 := by
  constructor
  · exact fun h => ⟨h.total_lt, h.punit a rfl⟩
  · rintro ⟨htotal, ha⟩
    refine ⟨htotal, fun b hb => ?_⟩
    obtain rfl := Option.some.inj hb
    exact ha

theorem RprtOk.le_total (h : RprtOk geo addr) : ∃ idx, lpoOff geo addr = idx * descrNbytes ∧
    idx + rprtNdescr geo addr ≤ geo.npugrp * geo.npunit * geo.nchunk := by
  have htotal := h.total_lt
  cases addr with
  | none =>
    refine ⟨0, by simp [lpoOff], ?_⟩
    rw [rprtNdescr, Nat.zero_add]
    refine (Nat.mod_le _ _).trans_eq ?_
    ring
  | some a =>
    obtain ⟨hgrp, hunit, hchunk, -⟩ := h.punit a rfl
    have hidx : a.pugrp.toNat * geo.npunit * geo.nchunk + a.punit.toNat * geo.nchunk + geo.nchunk ≤
        geo.npugrp * geo.npunit * geo.nchunk := by
      have hstep : a.pugrp.toNat * geo.npunit + a.punit.toNat + 1 ≤ geo.npugrp * geo.npunit := by
        have hle : (a.pugrp.toNat + 1) * geo.npunit ≤ geo.npugrp * geo.npunit := Nat.mul_le_mul_right _ hgrp
        rw [Nat.succ_mul] at hle
        omega
      calc a.pugrp.toNat * geo.npunit * geo.nchunk + a.punit.toNat * geo.nchunk + geo.nchunk
          = (a.pugrp.toNat * geo.npunit + a.punit.toNat + 1) * geo.nchunk := by ring
        _ ≤ geo.npugrp * geo.npunit * geo.nchunk := Nat.mul_le_mul_right _ hstep
    refine ⟨_, ?_, hidx⟩
    have hlt : (a.pugrp.toNat * geo.npunit * geo.nchunk + a.punit.toNat * geo.nchunk) * descrNbytes <
        2 ^ 64 := by
      rw [descrNbytes]
      omega
    have h0 : a.chunk.toNat = 0 := by simp [hchunk]
    rw [lpoOff, nvmAddrGen2lpo, h0, Nat.add_zero, Nat.mod_eq_of_lt hlt]

theorem numd_fields {d : Nat} (hpos : 0 < d) (hd : d ≤ 2 ^ 16) :
    ((d - 1) >>> 16) % 2 ^ 16 * 2 ^ 16 + (d - 1 &&& 0xffff) % 2 ^ 16 + 1 = d := by
  have hmask : d - 1 &&& 0xffff = (d - 1) % 2 ^ 16 := Nat.and_two_pow_sub_one_eq_mod (d - 1) 16
  rw [hmask, Nat.shiftRight_eq_div_pow]
  omega

theorem batch_bounds {step n k : Nat} (hs : 0 < step) (hk : k < nbatches step n) :
    0 < min step (n - k * step) ∧ k * step < n := by
  have hlt := Tiling.mul_lt_of_lt_nbatches hs hk
  exact ⟨by omega, hlt⟩

theorem RprtOk.lpo_lt (h : RprtOk geo addr) {step k : Nat} (hs : 0 < step)
    (hk : k < nbatches step (rprtNdescr geo addr)) : lpoOff geo addr + k * step * descrNbytes < 2 ^ 64 := by
  obtain ⟨idx, hidx, hle⟩ := h.le_total
  have htotal := h.total_lt
  have hlt := (batch_bounds hs hk).2
  rw [hidx, ← Nat.add_mul, descrNbytes]
  omega

/-! The two backends. -/

theorem lpo_fields {lpo : Nat} (h : lpo < 2 ^ 64) : (lpo >>> 32) % 2 ^ 32 * 2 ^ 32 + lpo % 2 ^ 32 = lpo := by
  rw [Nat.shiftRight_eq_div_pow]
  omega

theorem cdw10_numdl {numdl : Nat} (h : numdl < 2 ^ 16) : ((0xCA ||| numdl <<< 16) % 2 ^ 32) >>> 16 = numdl := by
  rw [Nat.or_comm, ← Nat.shiftLeft_add_eq_or_of_lt (by decide : 0xCA < 2 ^ 16), Nat.shiftLeft_eq,
    Nat.shiftRight_eq_div_pow]
  omega

/-- The offset of a command of SPDK loses the bits 28 to 31. -/
theorem glp_offset {lpo : Nat} (h : lpo < 2 ^ 64) :
    (lpo >>> 32) % 2 ^ 32 * 2 ^ 32 + (lpo &&& 0xfffffff) % 2 ^ 32 = lpo ↔ lpo % 2 ^ 32 < 2 ^ 28 := by
  have hmask : lpo &&& 0xfffffff = lpo % 2 ^ 28 := Nat.and_two_pow_sub_one_eq_mod lpo 28
  rw [hmask, Nat.shiftRight_eq_div_pow]
  omega

def spdkPiece (geo : GeoL) (addr : Option LAddr) (k : Nat) : Piece :=
  let lpo := lpoOff geo addr + k * 0x1000 * descrNbytes
  ⟨(lpo >>> 32) % 2 ^ 32 * 2 ^ 32 + (lpo &&& 0xfffffff) % 2 ^ 32,
    descrNbytes * min 0x1000 (rprtNdescr geo addr - k * 0x1000), descrNbytes * (k * 0x1000)⟩

theorem spdkRprtCmd_ok (h : RprtOk geo addr) {k : Nat} (hk : k < nbatches 0x1000 (rprtNdescr geo addr)) :
    ∃ c, spdkRprtCmd geo addr k = .ok c ∧ c.piece = spdkPiece geo addr k ∧ c.dataLen = c.piece.len := by
  obtain ⟨idx, hidx, -⟩ := h.le_total
  obtain ⟨hpos, -⟩ := batch_bounds (by decide) hk
  have hdw : min 0x1000 (rprtNdescr geo addr - k * 0x1000) * descrNbytes / 4 =
      min 0x1000 (rprtNdescr geo addr - k * 0x1000) * 8 := by
    rw [descrNbytes]
    omega
  have hfields := numd_fields (d := min 0x1000 (rprtNdescr geo addr - k * 0x1000) * 8) (by omega) (by omega)
  have halign : lpoOff geo addr + k * 0x1000 * descrNbytes &&& 0x3 = 0 := by
    have hmask : ∀ x, x &&& 0x3 = x % 2 ^ 2 := fun x => Nat.and_two_pow_sub_one_eq_mod x 2
    rw [hmask, hidx, descrNbytes]
    omega
  rw [spdkRprtCmd, cmdSyncAdminGlp, if_neg (by simpa using halign)]
  refine ⟨_, rfl, ?_, ?_⟩
  · simp only [GlpCmd.piece, glpPiece, spdkPiece, hdw, hfields]
    rw [descrNbytes]
    congr 1
    omega
  · simp only [GlpCmd.piece, glpPiece, hdw, hfields]
    omega

theorem ioctlRprtCmd_piece (h : RprtOk geo addr) {k : Nat}
    (hk : k < nbatches maxDescrPrCall (rprtNdescr geo addr)) :
    (ioctlRprtCmd geo addr k).piece =
        ⟨lpoOff geo addr + descrNbytes * (k * maxDescrPrCall),
          descrNbytes * min maxDescrPrCall (rprtNdescr geo addr - k * maxDescrPrCall),
          descrNbytes * (k * maxDescrPrCall)⟩ ∧
      (ioctlRprtCmd geo addr k).dataLen = (ioctlRprtCmd geo addr k).piece.len := by
  have hstep : maxDescrPrCall = 512 := rfl
  obtain ⟨hpos, -⟩ := batch_bounds (by decide) hk
  have hlpo := lpo_fields (h.lpo_lt (by decide) hk)
  rw [hstep] at hpos hlpo ⊢
  have hdw : (min 512 (rprtNdescr geo addr - k * 512) * descrNbytes) >>> 2 =
      min 512 (rprtNdescr geo addr - k * 512) * 8 := by
    rw [Nat.shiftRight_eq_div_pow, descrNbytes]
    omega
  have hfields := numd_fields (d := min 512 (rprtNdescr geo addr - k * 512) * 8) (by omega) (by omega)
  have hpiece : (ioctlRprtCmd geo addr k).piece = ⟨lpoOff geo addr + descrNbytes * (k * 512),
      descrNbytes * min 512 (rprtNdescr geo addr - k * 512), descrNbytes * (k * 512)⟩ := by
    simp only [IoctlGlp.piece, ioctlRprtCmd, glpPiece, hstep, hdw]
    rw [cdw10_numdl (Nat.mod_lt _ (by decide)), Nat.mod_mod, hfields, hlpo, descrNbytes]
    congr 1
    · ring
    · ring
  refine ⟨hpiece, ?_⟩
  rw [hpiece]
  exact Nat.mul_comm _ _

end

theorem mapM_ok {α β γ ε : Type} {f : α → Except ε β} {g : β → γ} {g' : α → γ} {P : β → Prop} {l : List α}
    (hf : ∀ x ∈ l, ∃ c, f x = .ok c ∧ g c = g' x ∧ P c) :
    ∃ cs, l.mapM f = .ok cs ∧ cs.map g = l.map g' ∧ ∀ c ∈ cs, P c := by
  induction l with
  | nil => exact ⟨[], rfl, rfl, by simp⟩
  | cons x l ih =>
    obtain ⟨c, hc, hg, hp⟩ := hf x (by simp)
    obtain ⟨cs, hcs, hgs, hps⟩ := ih fun y hy => hf y (by simp [hy])
    refine ⟨c :: cs, ?_, by simp [hg, hgs], by simpa [hp] using hps⟩
    rw [List.mapM_cons, hc, hcs]
    rfl

/-- The commands read `n` entries of the log page from `base` on, and descriptor `i` of the report
becomes entry `i` of these. -/
structure ReadsEntries (base n : Nat) (ps : List Piece) : Prop where
  tiles : Tiles base 0 (base + descrNbytes * n) ps
  descr : ∀ (log buf : Nat → UInt8) (i j : Nat), i < n → j < descrNbytes →
    Tiling.copies log buf ps (descrNbytes * i + j) = log (base + descrNbytes * i + j)

theorem readsEntries_iff {base n : Nat} {ps : List Piece} :
    ReadsEntries base n ps ↔ Tiles base 0 (base + descrNbytes * n) ps := by
  refine ⟨fun h => h.tiles, fun h => ⟨h, fun log buf i j hi hj => ?_⟩⟩
  have hlt : base + (descrNbytes * i + j) < base + descrNbytes * n := by
    rw [descrNbytes] at hj ⊢
    omega
  have hcopy := h.copies_eq log buf hlt
  rwa [Nat.zero_add, ← Nat.add_assoc] at hcopy

def RprtExact (geo : GeoL) (addr : Option LAddr) : Prop :=
  (∃ cmds, nvmBeSpdkRprt geo addr = .ok cmds ∧ (∀ c ∈ cmds, c.dataLen = c.piece.len) ∧
    ReadsEntries (lpoOff geo addr) (rprtNdescr geo addr) (cmds.map GlpCmd.piece)) ∧
  (∀ c ∈ nvmBeIoctlRprt geo addr, c.dataLen = c.piece.len) ∧
    ReadsEntries (lpoOff geo addr) (rprtNdescr geo addr) ((nvmBeIoctlRprt geo addr).map IoctlGlp.piece)

section

variable {geo : GeoL} {addr : Option LAddr}

theorem nvmBeSpdkRprt_ok (h : RprtOk geo addr) : ∃ cmds, nvmBeSpdkRprt geo addr = .ok cmds ∧
    cmds.map GlpCmd.piece =
      (List.range (nbatches 0x1000 (rprtNdescr geo addr))).map (spdkPiece geo addr) ∧
    ∀ c ∈ cmds, c.dataLen = c.piece.len :=
  mapM_ok fun _ hk => spdkRprtCmd_ok h (List.mem_range.mp hk)

theorem spdk_reads_iff (h : RprtOk geo addr) :
    ReadsEntries (lpoOff geo addr) (rprtNdescr geo addr)
        ((List.range (nbatches 0x1000 (rprtNdescr geo addr))).map (spdkPiece geo addr)) ↔
      ∀ k < nbatches 0x1000 (rprtNdescr geo addr),
        (lpoOff geo addr + k * 0x1000 * descrNbytes) % 2 ^ 32 < 2 ^ 28 := by
  rw [readsEntries_iff, Tiling.tiles_batches_iff (by decide) (by decide) (fun k hk => rfl) fun k hk => rfl]
  refine forall₂_congr fun k hk => ?_
  rw [← glp_offset (h.lpo_lt (by decide) hk), Nat.mul_comm descrNbytes]
  exact Iff.rfl

theorem ioctl_reads (h : RprtOk geo addr) :
    ReadsEntries (lpoOff geo addr) (rprtNdescr geo addr) ((nvmBeIoctlRprt geo addr).map IoctlGlp.piece) := by
  rw [readsEntries_iff, nvmBeIoctlRprt, List.map_map]
  refine (Tiling.tiles_batches_iff (by decide) (by decide) (fun k hk => ?_) fun k hk => ?_).mpr fun k hk => ?_
  · rw [Function.comp_apply, (ioctlRprtCmd_piece h hk).1]
  · rw [Function.comp_apply, (ioctlRprtCmd_piece h hk).1]
  · rw [Function.comp_apply, (ioctlRprtCmd_piece h hk).1]

/-- The report is read exactly, by both backends, if and only if no command of SPDK starts at an
offset with one of the bits 28 to 31. -/
theorem chunk_report_exact_iff (h : RprtOk geo addr) : RprtExact geo addr ↔
    ∀ k < nbatches 0x1000 (rprtNdescr geo addr),
      (lpoOff geo addr + k * 0x1000 * descrNbytes) % 2 ^ 32 < 2 ^ 28 := by
  obtain ⟨cmds, hcmds, hpieces, hlen⟩ := nvmBeSpdkRprt_ok h
  have hioctl : ∀ c ∈ nvmBeIoctlRprt geo addr, c.dataLen = c.piece.len := by
    intro c hc
    obtain ⟨k, hk, rfl⟩ := List.mem_map.mp hc
    exact (ioctlRprtCmd_piece h (List.mem_range.mp hk)).2
  rw [← spdk_reads_iff h, ← hpieces]
  constructor
  · rintro ⟨⟨cmds', hcmds', -, hreads⟩, -⟩
    rw [hcmds] at hcmds'
    rwa [Except.ok.inj hcmds']
  · exact fun hreads => ⟨⟨cmds, hcmds, hlen, hreads⟩, hioctl, ioctl_reads h⟩

end

def reportGeo (npugrp npunit nchunk : Nat) : GeoL :=
  { tinyGeoL with
    npugrp := npugrp
    npunit := npunit
    nchunk := nchunk
    nsectr := 4096
    nsectr_lt := by decide }

theorem chunk_report_exact_iff_last_unit : RprtOk (reportGeo 8 4 5000) (some ⟨7, 3, 0, 0⟩) ∧
    RprtExact (reportGeo 8 4 5000) (some ⟨7, 3, 0, 0⟩) := by
  have h : RprtOk (reportGeo 8 4 5000) (some ⟨7, 3, 0, 0⟩) := rprtOk_some_iff.mpr (by decide)
  exact ⟨h, (chunk_report_exact_iff h).mpr (by decide)⟩

/-- With more than 2^23 chunks, the command for descriptor 2^23 asks for the start of the log page. -/
theorem chunk_report_lost_offset : RprtOk (reportGeo 128 2 32769) none ∧
    2048 < nbatches 0x1000 (rprtNdescr (reportGeo 128 2 32769) none) ∧
    (spdkPiece (reportGeo 128 2 32769) none 2048).src = 0 ∧ ¬ RprtExact (reportGeo 128 2 32769) none := by
  have h : RprtOk (reportGeo 128 2 32769) none := rprtOk_none_iff.mpr (by decide)
  refine ⟨h, by decide, by decide, ?_⟩
  rintro ⟨⟨cmds, hcmds, -, hreads⟩, -⟩
  obtain ⟨cmds', hcmds', hpieces, -⟩ := nvmBeSpdkRprt_ok h
  rw [hcmds] at hcmds'
  rw [Except.ok.inj hcmds', hpieces, spdk_reads_iff h] at hreads
  exact absurd (hreads 2048 (by decide)) (by decide)

end LightNvm
