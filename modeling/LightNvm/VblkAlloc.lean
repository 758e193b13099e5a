import LightNvm.RawAddr
import LightNvm.S20Flat
import Mathlib.Data.List.Nodup

/-! The constructors of virtual blocks, `nvm_vblk_alloc` and `nvm_vblk_alloc_line`. -/

namespace LightNvm

open SizeLoop (width)

/-- What a constructor may run into: a store past the last of the 128 entries of `blks`, or an
`int` counter that is incremented at its largest value. -/
inductive Fault where
  | pastBlks
  | intOverflow
  deriving DecidableEq, Repr

/-- The outcome of a constructor: the first entries of `blks` with `nblks` and `nbytes`, or `NULL`. -/
inductive Built where
  | null (err : Errno)
  | vblk (blks : List NvmAddr) (nblks : Int) (nbytes : Nat)
  | fault (f : Fault)
  deriving DecidableEq

def Geo.blkNbytes : Geo → Nat
  | .s12 geo => geo.nplanes * geo.npages * geo.nsectors * geo.sectorNbytes
  | .s20 geo => geo.nsectr * geo.nbytes

def Geo.vblkNbytes (geo : Geo) (nblks : Int) : Nat := (nblks * geo.blkNbytes % width).toNat

def Geo.nvmVblkAlloc (geo : Geo) (calloc : Bool) (addrs : Nat → NvmAddr) (naddrs : Int) : Built :=
  let given := (List.range naddrs.toNat).map addrs
  if naddrs > 128 then .null .einval
  else if !calloc then .null .enomem
  else if given.any fun a => nvmAddrCheck geo a ≠ 0 then .null .einval
  else .vblk given naddrs (geo.vblkNbytes naddrs)

/-! Lines. -/

def intMax : Int := 2 ^ 31 - 1

def intRange (bgn fin : Int) : List Int := (List.range (fin - bgn + 1).toNat).map fun i : Nat => bgn + i

/-- The counter of `for (int i = bgn; i <= fin; ++i)` does not get past `fin`. -/
def IntWraps (bgn fin : Int) : Prop := bgn ≤ fin ∧ intMax ≤ fin

instance (bgn fin : Int) : Decidable (IntWraps bgn fin) := inferInstanceAs (Decidable (_ ∧ _))

def intFor {σ : Type} (body : σ → Int → Except Fault σ) (bgn fin : Int) (s : σ) : Except Fault σ :=
  match (intRange bgn fin).foldlM body s with
  | .error f => .error f
  | .ok s => if IntWraps bgn fin then .error .intOverflow else .ok s

def storeBlk (blks : List NvmAddr) (a : NvmAddr) : Except Fault (List NvmAddr) :=
  if blks.length < 128 then .ok (blks ++ [a]) else .error .pastBlks

def lineAddr (geo : Geo) (ch lun blk : Int) : NvmAddr :=
  match geo with
  | .s12 _ => .ofG ⟨.ofInt 8 ch, .ofInt 8 lun, .ofInt 16 blk, 0, 0, 0⟩
  | .s20 _ => .ofL ⟨.ofInt 8 ch, .ofInt 8 lun, .ofInt 16 blk, 0⟩

def lineBlks (geo : Geo) (chBgn chEnd lunBgn lunEnd blk : Int) : Except Fault (List NvmAddr) :=
  intFor (fun blks lun =>
    intFor (fun blks ch => storeBlk blks (lineAddr geo ch lun blk)) chBgn chEnd blks) lunBgn lunEnd []

def Geo.nvmVblkAllocLine (geo : Geo) (calloc : Bool) (chBgn chEnd lunBgn lunEnd blk : Int) : Built :=
  match geo.nvmVblkAlloc calloc (fun _ => ⟨0⟩) 0 with
  | .vblk _ _ _ =>
    match lineBlks geo chBgn chEnd lunBgn lunEnd blk with
    | .error f => .fault f
    | .ok blks =>
      if blks.any fun a => nvmAddrCheck geo a ≠ 0 then .null .einval
      else .vblk blks blks.length (geo.vblkNbytes blks.length)
  | failed => failed

/-! What the caller asks for. -/

structure BlkReq where
  ch : Int
  lun : Int
  blk : Int
  deriving DecidableEq

def lineReq (chBgn chEnd lunBgn lunEnd blk : Int) : List BlkReq :=
  (intRange lunBgn lunEnd).flatMap fun lun => (intRange chBgn chEnd).map fun ch => ⟨ch, lun, blk⟩

/-- The address is the one of the requested block: its components have the requested values and
the rest of it is zero. -/
def Geo.Names (geo : Geo) (a : NvmAddr) (r : BlkReq) : Prop :=
  match geo with
  | .s12 _ => (a.g.ch.toNat : Int) = r.ch ∧ (a.g.lun.toNat : Int) = r.lun ∧ (a.g.blk.toNat : Int) = r.blk ∧
      a.g.pl = 0 ∧ a.g.pg = 0 ∧ a.g.sec = 0
  | .s20 _ => (a.l.pugrp.toNat : Int) = r.ch ∧ (a.l.punit.toNat : Int) = r.lun ∧
      (a.l.chunk.toNat : Int) = r.blk ∧ a.l.sectr = 0

def Geo.Has (geo : Geo) (r : BlkReq) : Prop :=
  0 ≤ r.ch ∧ 0 ≤ r.lun ∧ 0 ≤ r.blk ∧
  match geo with
  | .s12 geo => r.ch < geo.nchannels ∧ r.lun < geo.nluns ∧ r.blk < geo.nblocks
  | .s20 geo => r.ch < geo.npugrp ∧ r.lun < geo.npunit ∧ r.blk < geo.nchunk

/-- `NULL`, or a virtual block of exactly the requested blocks, each within the geometry. -/
def Built.Exact {ρ : Type} (geo : Geo) (names : NvmAddr → ρ → Prop) (has : ρ → Prop) (req : List ρ) :
    Built → Prop
  | .null _ => True
  | .vblk blks nblks nbytes => 0 ≤ nblks ∧ nblks ≤ 128 ∧ nblks = req.length ∧
      List.Forall₂ names blks req ∧ (∀ r ∈ req, has r) ∧ (nbytes : Int) = nblks * geo.blkNbytes
  | .fault _ => False

def Built.Distinct : Built → Prop
  | .vblk blks _ _ => blks.Nodup
  | _ => True

/-! Sizes. -/

theorem vblkNbytes_natCast (geo : Geo) (n : Nat) : geo.vblkNbytes n = n * geo.blkNbytes % width := by
  have hcast : (n : Int) * geo.blkNbytes % width = ((n * geo.blkNbytes % width : Nat) : Int) := by
    rw [Int.natCast_emod, Int.natCast_mul]
  rw [Geo.vblkNbytes, hcast, Int.toNat_natCast]

theorem vblkNbytes_eq_iff (geo : Geo) {n : Nat} :
    (geo.vblkNbytes n : Int) = n * geo.blkNbytes ↔ n * geo.blkNbytes < width := by
  have hpos : 0 < width := by decide
  rw [vblkNbytes_natCast, ← Nat.cast_mul, Nat.cast_inj, Nat.mod_eq_iff_lt hpos.ne']

theorem vblkNbytes_s12 (geo : GeoG) {n : Nat} (hn : n ≤ 128) : n * (Geo.s12 geo).blkNbytes < width := by
  have hpage : geo.nsectors * geo.sectorNbytes < 2 ^ 16 :=
    (Nat.div_mul_le_self _ _).trans_lt geo.pageNbytes_lt
  have hpages : geo.npages * (geo.nsectors * geo.sectorNbytes) ≤ 2 ^ 16 * 2 ^ 16 :=
    Nat.mul_le_mul geo.npages_lt.le hpage.le
  calc n * (geo.nplanes * geo.npages * geo.nsectors * geo.sectorNbytes)
      = n * (geo.nplanes * (geo.npages * (geo.nsectors * geo.sectorNbytes))) := by ring
    _ ≤ 128 * (4 * (2 ^ 16 * 2 ^ 16)) :=
        Nat.mul_le_mul hn (Nat.mul_le_mul geo.nplanes_le hpages)
    _ < width := by decide

/-! Lists of addresses. -/

theorem alloc_exact_iff (geo : Geo) (calloc : Bool) (addrs : Nat → NvmAddr) (naddrs : Int) :
    (geo.nvmVblkAlloc calloc addrs naddrs).Exact geo Eq (fun a => nvmAddrCheck geo a = 0)
        ((List.range naddrs.toNat).map addrs) ↔
      128 < naddrs ∨ calloc = false ∨ (∃ i < naddrs.toNat, nvmAddrCheck geo (addrs i) ≠ 0) ∨
      (0 ≤ naddrs ∧ naddrs.toNat * geo.blkNbytes < width) := by
  rw [Geo.nvmVblkAlloc]
  split_ifs with hmax hcalloc hcheck
  · simp [Built.Exact, hmax]
  · simp only [Bool.not_eq_true'] at hcalloc
    simp [Built.Exact, hcalloc]
  · simp only [List.any_map, List.any_eq_true, List.mem_range, Function.comp_apply,
      decide_eq_true_eq] at hcheck
    exact ⟨fun _ => .inr (.inr (.inl hcheck)), fun _ => trivial⟩
  · simp only [List.any_map, List.any_eq_true, List.mem_range, Function.comp_apply,
      decide_eq_true_eq] at hcheck
    have hcalloc' : ¬ calloc = false := by simpa using hcalloc
    have hin : ∀ i < naddrs.toNat, nvmAddrCheck geo (addrs i) = 0 := by simpa using hcheck
    rw [or_iff_right hmax, or_iff_right hcalloc', or_iff_right hcheck, Built.Exact, List.length_map,
      List.length_range]
    constructor
    · rintro ⟨h0, -, hlen, -, -, hnbytes⟩
      rw [hlen, vblkNbytes_eq_iff] at hnbytes
      exact ⟨h0, hnbytes⟩
    · rintro ⟨h0, hfits⟩
      have hlen : naddrs = naddrs.toNat := (Int.toNat_of_nonneg h0).symm
      refine ⟨h0, not_lt.mp hmax, hlen, List.forall₂_refl _, by simpa using hin, ?_⟩
      rw [hlen, vblkNbytes_eq_iff]
      exact hfits

/-! Lines: the stores of the two loops. -/

theorem foldlM_append {ι : Type} {step : List NvmAddr → ι → Except Fault (List NvmAddr)}
    {P : Prop} {f : ι → List NvmAddr}
    (hstep : ∀ i s s', s.length ≤ 128 →
      (step s i = .ok s' ↔ P ∧ s' = s ++ f i ∧ s'.length ≤ 128))
    (is : List ι) (s s' : List NvmAddr) (hs : s.length ≤ 128) :
    is.foldlM step s = .ok s' ↔ (is ≠ [] → P) ∧ s' = s ++ is.flatMap f ∧ s'.length ≤ 128 := by
  induction is generalizing s with
  | nil =>
    simp only [List.foldlM_nil, pure, Except.pure, Except.ok.injEq, ne_eq, not_true_eq_false,
      IsEmpty.forall_iff, List.flatMap_nil, List.append_nil, true_and]
    constructor
    · rintro rfl
      exact ⟨rfl, hs⟩
    · exact fun h => h.1.symm
  | cons i is ih =>
    rw [List.foldlM_cons]
    cases h : step s i with
    | error e =>
      refine ⟨fun hf => by simp [bind, Except.bind] at hf, ?_⟩
      rintro ⟨hP, rfl, hlen⟩
      have hok := (hstep i s (s ++ f i) hs).mpr
        ⟨hP (by simp), rfl, by simp only [List.flatMap_cons, List.length_append] at hlen ⊢; omega⟩
      rw [h] at hok
      simp at hok
    | ok t =>
      obtain ⟨hP, rfl, ht⟩ := (hstep i s t hs).mp h
      simp only [bind, Except.bind, ih _ ht]
      simp [hP, List.append_assoc]

theorem storeBlk_ok (a : NvmAddr) (s s' : List NvmAddr) :
    storeBlk s a = .ok s' ↔ True ∧ s' = s ++ [a] ∧ s'.length ≤ 128 := by
  rw [storeBlk]
  split_ifs with h
  · simp only [Except.ok.injEq, true_and]
    constructor
    · rintro rfl
      exact ⟨rfl, by rw [List.length_append, List.length_singleton]; omega⟩
    · exact fun h' => h'.1.symm
  · simp only [true_and, false_iff, not_and]
    rintro rfl
    simp only [List.length_append, List.length_singleton]
    omega

theorem intFor_ok {σ : Type} (body : σ → Int → Except Fault σ) (bgn fin : Int) (s s' : σ) :
    intFor body bgn fin s = .ok s' ↔
      (intRange bgn fin).foldlM body s = .ok s' ∧ ¬ IntWraps bgn fin := by
  rw [intFor]
  cases (intRange bgn fin).foldlM body s with
  | error e => simp
  | ok t =>
    split_ifs with h
    · simp [h]
    · simp [h]

def lineRow (geo : Geo) (chBgn chEnd blk lun : Int) : List NvmAddr :=
  (intRange chBgn chEnd).map fun ch => lineAddr geo ch lun blk

theorem lineRow_ok (geo : Geo) (chBgn chEnd blk lun : Int) (s s' : List NvmAddr) (hs : s.length ≤ 128) :
    intFor (fun blks ch => storeBlk blks (lineAddr geo ch lun blk)) chBgn chEnd s = .ok s' ↔
      ¬ IntWraps chBgn chEnd ∧ s' = s ++ lineRow geo chBgn chEnd blk lun ∧ s'.length ≤ 128 := by
  have hstore := foldlM_append (fun ch s s' _ => storeBlk_ok (lineAddr geo ch lun blk) s s')
    (intRange chBgn chEnd) s s' hs
  rw [intFor_ok, hstore, lineRow, List.map_eq_flatMap]
  tauto

/-- The loops of a line store at most 128 entries and end. -/
def LineEnds (chBgn chEnd lunBgn lunEnd : Int) : Prop :=
  (intRange lunBgn lunEnd).length * (intRange chBgn chEnd).length ≤ 128 ∧
  ¬ IntWraps lunBgn lunEnd ∧ (lunBgn ≤ lunEnd → ¬ IntWraps chBgn chEnd)

theorem intRange_ne_nil {bgn fin : Int} : intRange bgn fin ≠ [] ↔ bgn ≤ fin := by
  rw [intRange, ne_eq, List.map_eq_nil_iff, List.range_eq_nil]
  omega

theorem lineBlks_ok (geo : Geo) (chBgn chEnd lunBgn lunEnd blk : Int) (blks : List NvmAddr) :
    lineBlks geo chBgn chEnd lunBgn lunEnd blk = .ok blks ↔
      LineEnds chBgn chEnd lunBgn lunEnd ∧
      blks = (intRange lunBgn lunEnd).flatMap (lineRow geo chBgn chEnd blk) := by
  have hlen : ((intRange lunBgn lunEnd).flatMap (lineRow geo chBgn chEnd blk)).length =
      (intRange lunBgn lunEnd).length * (intRange chBgn chEnd).length := by
    simp [List.length_flatMap, lineRow, List.map_const']
  rw [lineBlks, intFor_ok, foldlM_append (lineRow_ok geo chBgn chEnd blk) _ _ _ (by simp),
    intRange_ne_nil, List.nil_append, LineEnds]
  constructor
  · rintro ⟨⟨hch, rfl, hle⟩, hlun⟩
    exact ⟨⟨hlen ▸ hle, hlun, hch⟩, rfl⟩
  · rintro ⟨⟨hle, hlun, hch⟩, rfl⟩
    exact ⟨⟨hch, rfl, hlen ▸ hle⟩, hlun⟩

/-! Lines: the requested blocks. -/

/-- The values go into the fields of an address unchanged. -/
def BlkReq.Fits (r : BlkReq) : Prop :=
  (0 ≤ r.ch ∧ r.ch < 2 ^ 8) ∧ (0 ≤ r.lun ∧ r.lun < 2 ^ 8) ∧ (0 ≤ r.blk ∧ r.blk < 2 ^ 16)

def BlkReq.addr (geo : Geo) (r : BlkReq) : NvmAddr := lineAddr geo r.ch r.lun r.blk

theorem toNat_ofInt_eq (w : Nat) (i : Int) : ((BitVec.ofInt w i).toNat : Int) = i ↔ 0 ≤ i ∧ i < 2 ^ w := by
  have hpos : (0 : Int) < 2 ^ w := by positivity
  rw [BitVec.toNat_ofInt, Int.toNat_of_nonneg (Int.emod_nonneg _ (by exact_mod_cast hpos.ne'))]
  push_cast
  constructor
  · intro h
    rw [← h]
    exact ⟨Int.emod_nonneg _ hpos.ne', Int.emod_lt_of_pos _ hpos⟩
  · exact fun h => Int.emod_eq_of_lt h.1 h.2

theorem names_addr_iff (geo : Geo) (r : BlkReq) : geo.Names (r.addr geo) r ↔ r.Fits := by
  cases geo with
  | s12 geo =>
    simp only [Geo.Names, BlkReq.addr, lineAddr, NvmAddr.g_ofG, toNat_ofInt_eq, BlkReq.Fits, and_true]
  | s20 geo =>
    simp only [Geo.Names, BlkReq.addr, lineAddr, NvmAddr.l_ofL, toNat_ofInt_eq, BlkReq.Fits, and_true]

theorem Geo.Names.unique {geo : Geo} {a : NvmAddr} {r r' : BlkReq} (h : geo.Names a r)
    (h' : geo.Names a r') : r = r' := by
  rcases r with ⟨ch, lun, blk⟩
  rcases r' with ⟨ch', lun', blk'⟩
  cases geo <;> (simp only [Geo.Names] at h h'; simp only [BlkReq.mk.injEq]; omega)

theorem Geo.Names.has {geo : Geo} {a : NvmAddr} {r : BlkReq} (h : geo.Names a r)
    (hc : nvmAddrCheck geo a = 0) : geo.Has r := by
  cases geo with
  | s12 geo =>
    have hin := nvmAddrCheckG_eq_zero.mp hc
    simp only [Geo.Names] at h
    simp only [Geo.Has]
    omega
  | s20 geo =>
    have hin := nvmAddrCheckL_eq_zero.mp hc
    simp only [Geo.Names] at h
    simp only [Geo.Has]
    omega

theorem intRange_nodup (bgn fin : Int) : (intRange bgn fin).Nodup := by
  apply List.Nodup.map _ List.nodup_range
  intro i j h
  simpa using h

theorem lineReq_nodup (chBgn chEnd lunBgn lunEnd blk : Int) :
    (lineReq chBgn chEnd lunBgn lunEnd blk).Nodup := by
  have hprod : lineReq chBgn chEnd lunBgn lunEnd blk =
      (intRange lunBgn lunEnd ×ˢ intRange chBgn chEnd).map fun p => ⟨p.2, p.1, blk⟩ := by
    simp [lineReq, SProd.sprod, List.product, List.map_flatMap, Function.comp_def]
  rw [hprod]
  apply List.Nodup.map _ ((intRange_nodup _ _).product (intRange_nodup _ _))
  rintro ⟨lun, ch⟩ ⟨lun', ch'⟩ h
  simp only [BlkReq.mk.injEq] at h
  rw [h.1, h.2.1]

theorem line_addrs (geo : Geo) (chBgn chEnd lunBgn lunEnd blk : Int) :
    (intRange lunBgn lunEnd).flatMap (lineRow geo chBgn chEnd blk) =
      (lineReq chBgn chEnd lunBgn lunEnd blk).map (BlkReq.addr geo) := by
  simp only [lineReq, List.map_flatMap, List.map_map]
  rfl

theorem forall₂_names_addr_iff (geo : Geo) (req : List BlkReq) :
    List.Forall₂ geo.Names (req.map (BlkReq.addr geo)) req ↔ ∀ r ∈ req, r.Fits := by
  rw [List.forall₂_map_left_iff, List.forall₂_same]
  simp only [names_addr_iff]

theorem nodup_addr_of_fits (geo : Geo) {req : List BlkReq} (hnodup : req.Nodup) (hfits : ∀ r ∈ req, r.Fits) :
    (req.map (BlkReq.addr geo)).Nodup := by
  apply hnodup.map_on
  intro r hr r' hr' heq
  have hn := (names_addr_iff geo r).mpr (hfits r hr)
  have hn' := (names_addr_iff geo r').mpr (hfits r' hr')
  rw [← heq] at hn'
  exact hn.unique hn'

theorem allocLine_exact_iff (geo : Geo) (calloc : Bool) (chBgn chEnd lunBgn lunEnd blk : Int) :
    ((geo.nvmVblkAllocLine calloc chBgn chEnd lunBgn lunEnd blk).Exact geo geo.Names geo.Has
        (lineReq chBgn chEnd lunBgn lunEnd blk) ∧
      (geo.nvmVblkAllocLine calloc chBgn chEnd lunBgn lunEnd blk).Distinct) ↔
    calloc = false ∨ (LineEnds chBgn chEnd lunBgn lunEnd ∧
      ((∃ r ∈ lineReq chBgn chEnd lunBgn lunEnd blk, nvmAddrCheck geo (r.addr geo) ≠ 0) ∨
        ((∀ r ∈ lineReq chBgn chEnd lunBgn lunEnd blk, r.Fits) ∧
          (lineReq chBgn chEnd lunBgn lunEnd blk).length * geo.blkNbytes < width))) := by
  have hnodup := lineReq_nodup chBgn chEnd lunBgn lunEnd blk
  have hlines := lineBlks_ok geo chBgn chEnd lunBgn lunEnd blk
  rw [line_addrs] at hlines
  have hlen : LineEnds chBgn chEnd lunBgn lunEnd → (lineReq chBgn chEnd lunBgn lunEnd blk).length ≤ 128 := by
    intro h
    simpa [lineReq, List.length_flatMap, List.map_const'] using h.1
  generalize lineReq chBgn chEnd lunBgn lunEnd blk = req at hnodup hlines hlen ⊢
  cases calloc with
  | false => simp [Geo.nvmVblkAllocLine, Geo.nvmVblkAlloc, Built.Exact, Built.Distinct]
  | true =>
    have hempty : geo.nvmVblkAlloc true (fun _ => ⟨0⟩) 0 = .vblk [] 0 (geo.vblkNbytes 0) := by
      simp [Geo.nvmVblkAlloc]
    simp only [Geo.nvmVblkAllocLine, hempty, Bool.true_eq_false, false_or]
    cases h : lineBlks geo chBgn chEnd lunBgn lunEnd blk with
    | error f =>
      have hnot : ¬ LineEnds chBgn chEnd lunBgn lunEnd := fun he => by
        have hok := (hlines _).mpr ⟨he, rfl⟩
        rw [h] at hok
        simp at hok
      simp [Built.Exact, hnot]
    | ok blks =>
      obtain ⟨he, rfl⟩ := (hlines blks).mp h
      simp only [he, true_and]
      split_ifs with hcheck
      · simp only [List.any_map, List.any_eq_true, Function.comp_apply, decide_eq_true_eq] at hcheck
        exact ⟨fun _ => .inl hcheck, fun _ => ⟨trivial, trivial⟩⟩
      · simp only [List.any_map, List.any_eq_true, Function.comp_apply, decide_eq_true_eq] at hcheck
        have hin : ∀ r ∈ req, nvmAddrCheck geo (r.addr geo) = 0 := by simpa using hcheck
        have hle := hlen he
        rw [or_iff_right hcheck]
        simp only [Built.Exact, Built.Distinct, List.length_map, vblkNbytes_eq_iff, forall₂_names_addr_iff,
          true_and]
        constructor
        · rintro ⟨⟨-, -, hfits, -, hnbytes⟩, -⟩
          exact ⟨hfits, hnbytes⟩
        · rintro ⟨hfits, hnbytes⟩
          refine ⟨⟨by omega, by omega, hfits, ?_, hnbytes⟩, nodup_addr_of_fits geo hnodup hfits⟩
          exact fun r hr => ((names_addr_iff geo r).mpr (hfits r hr)).has (hin r hr)

/-! The virtual blocks of an OCSSD 2.0 device that the constructors leave. -/

/-- The same block list, size and number of blocks. -/
def VblkL.IsBuilt (v : VblkL) (geo : GeoL) (blks : List NvmAddr) (nblks : Int) (nbytes : Nat) : Prop :=
  v.geo = geo ∧ v.blks = blks.map NvmAddr.l ∧ (v.nblks : Int) = nblks ∧ v.nbytes = nbytes

theorem exists_isBuilt (geo : GeoL) {blks : List NvmAddr} (hlen : blks.length ≤ 128)
    (hcheck : ∀ a ∈ blks, nvmAddrCheck (.s20 geo) a = 0) (metaMode : MetaMode) (mode : CmdMode)
    (isAsync : Bool) : ∃ v : VblkL, v.metaMode = metaMode ∧ v.mode = mode ∧ v.isAsync = isAsync ∧
      v.IsBuilt geo blks blks.length ((Geo.s20 geo).vblkNbytes blks.length) := by
  refine ⟨⟨geo, metaMode, mode, isAsync, blks.map NvmAddr.l, by simpa using hlen, ?_⟩, rfl, rfl, rfl, rfl,
    rfl, by simp [VblkL.nblks], ?_⟩
  · intro b hb
    obtain ⟨a, ha, rfl⟩ := List.mem_map.mp hb
    exact hcheck a ha
  · simp only [vblkNbytes_natCast, VblkL.nbytes, VblkL.nblks, List.length_map, Geo.blkNbytes, Nat.mul_assoc]

theorem alloc_isBuilt {geo : GeoL} {calloc : Bool} {addrs : Nat → NvmAddr} {naddrs nblks : Int}
    {blks : List NvmAddr} {nbytes : Nat}
    (h : (Geo.s20 geo).nvmVblkAlloc calloc addrs naddrs = .vblk blks nblks nbytes) (h0 : 0 ≤ naddrs)
    (metaMode : MetaMode) (mode : CmdMode) (isAsync : Bool) :
    ∃ v : VblkL, v.metaMode = metaMode ∧ v.mode = mode ∧ v.isAsync = isAsync ∧
      v.IsBuilt geo blks nblks nbytes := by
  rw [Geo.nvmVblkAlloc] at h
  split_ifs at h with hmax hcalloc hcheck
  simp only [Built.vblk.injEq] at h
  obtain ⟨rfl, rfl, rfl⟩ := h
  have hlen : (((List.range naddrs.toNat).map addrs).length : Int) = naddrs := by
    rw [List.length_map, List.length_range, Int.toNat_of_nonneg h0]
  have hle : ((List.range naddrs.toNat).map addrs).length ≤ 128 := by omega
  have hbuilt := exists_isBuilt geo hle (by simpa using hcheck) metaMode mode isAsync
  rwa [hlen] at hbuilt

theorem allocLine_isBuilt {geo : GeoL} {calloc : Bool} {chBgn chEnd lunBgn lunEnd blk nblks : Int}
    {blks : List NvmAddr} {nbytes : Nat}
    (h : (Geo.s20 geo).nvmVblkAllocLine calloc chBgn chEnd lunBgn lunEnd blk = .vblk blks nblks nbytes)
    (hfits : ∀ r ∈ lineReq chBgn chEnd lunBgn lunEnd blk, r.Fits)
    (metaMode : MetaMode) (mode : CmdMode) (isAsync : Bool) :
    ∃ v : VblkL, v.metaMode = metaMode ∧ v.mode = mode ∧ v.isAsync = isAsync ∧
      v.IsBuilt geo blks nblks nbytes ∧ v.DistinctChunks := by
  have hnodup := lineReq_nodup chBgn chEnd lunBgn lunEnd blk
  have hlines := lineBlks_ok (.s20 geo) chBgn chEnd lunBgn lunEnd blk
  rw [line_addrs] at hlines
  rw [Geo.nvmVblkAllocLine] at h
  split at h
  · split at h
    · simp at h
    · rename_i blks' hblks
      obtain ⟨hends, rfl⟩ := (hlines blks').mp hblks
      split_ifs at h with hcheck
      simp only [Built.vblk.injEq] at h
      obtain ⟨rfl, rfl, rfl⟩ := h
      have hlen : ((lineReq chBgn chEnd lunBgn lunEnd blk).map (BlkReq.addr (.s20 geo))).length ≤ 128 := by
        simpa [lineReq, List.length_flatMap, List.map_const'] using hends.1
      obtain ⟨v, hm, hmode, hasync, hbuilt⟩ :=
        exists_isBuilt geo hlen (by simpa using hcheck) metaMode mode isAsync
      refine ⟨v, hm, hmode, hasync, hbuilt, ?_⟩
      rw [VblkL.DistinctChunks, hbuilt.2.1, List.map_map, List.map_map]
      apply hnodup.map_on
      intro r hr r' hr' heq
      have hn := (names_addr_iff (.s20 geo) r).mpr (hfits r hr)
      have hn' := (names_addr_iff (.s20 geo) r').mpr (hfits r' hr')
      simp only [Function.comp_apply, LAddr.chunkOf, Prod.mk.injEq] at heq
      rcases r with ⟨ch, lun, b⟩
      rcases r' with ⟨ch', lun', b'⟩
      simp only [Geo.Names] at hn hn'
      rw [heq.1, heq.2.1, heq.2.2] at hn
      simp only [BlkReq.mk.injEq]
      omega
  · rename_i hnull
    exact absurd h (hnull _ _ _)

/-- The constructors over every geometry and all arguments. -/
theorem vblk_constructors_exact_iff (geo : Geo) (calloc : Bool) :
    (∀ addrs naddrs, (geo.nvmVblkAlloc calloc addrs naddrs).Exact geo Eq
        (fun a => nvmAddrCheck geo a = 0) ((List.range naddrs.toNat).map addrs) ↔
      128 < naddrs ∨ calloc = false ∨ (∃ i < naddrs.toNat, nvmAddrCheck geo (addrs i) ≠ 0) ∨
      (0 ≤ naddrs ∧ naddrs.toNat * geo.blkNbytes < width)) ∧
    (∀ chBgn chEnd lunBgn lunEnd blk,
      ((geo.nvmVblkAllocLine calloc chBgn chEnd lunBgn lunEnd blk).Exact geo geo.Names geo.Has
          (lineReq chBgn chEnd lunBgn lunEnd blk) ∧
        (geo.nvmVblkAllocLine calloc chBgn chEnd lunBgn lunEnd blk).Distinct) ↔
      calloc = false ∨ (LineEnds chBgn chEnd lunBgn lunEnd ∧
        ((∃ r ∈ lineReq chBgn chEnd lunBgn lunEnd blk, nvmAddrCheck geo (r.addr geo) ≠ 0) ∨
          ((∀ r ∈ lineReq chBgn chEnd lunBgn lunEnd blk, r.Fits) ∧
            (lineReq chBgn chEnd lunBgn lunEnd blk).length * geo.blkNbytes < width)))) :=
  ⟨alloc_exact_iff geo calloc, allocLine_exact_iff geo calloc⟩

/-- A negative count is accepted, a line may store past the array, and the check sees the
narrowed components. -/
theorem vblk_constructors_inexact :
    let geo := Geo.s20 tinyGeoL
    ¬ (geo.nvmVblkAlloc true (fun _ => ⟨0⟩) (-1)).Exact geo Eq (fun a => nvmAddrCheck geo a = 0)
        ((List.range (-1 : Int).toNat).map fun _ => ⟨0⟩) ∧
    geo.nvmVblkAllocLine true 0 128 0 0 0 = .fault .pastBlks ∧
    ¬ (geo.nvmVblkAllocLine true 256 256 0 0 0).Exact geo geo.Names geo.Has (lineReq 256 256 0 0 0) := by
  intro geo
  refine ⟨?_, by decide +kernel, ?_⟩
  · rw [alloc_exact_iff]
    decide
  · have hline : geo.nvmVblkAllocLine true 256 256 0 0 0 = .vblk [⟨0⟩] 1 2048 := by decide
    rw [hline]
    rintro ⟨-, -, -, -, hhas, -⟩
    exact absurd (hhas ⟨256, 0, 0⟩ (by decide)) (by simp [Geo.Has, geo, tinyGeoL])

end LightNvm
