import Mathlib.Data.List.Forall2
import Mathlib.Tactic.Tauto
import LightNvm.NumText
import LightNvm.RawAddr

/-! The addresses of the command line: the positional parsers, which go through `atoi` or `strtoll`
and the fields of `struct nvm_addr`, and the check in `evar_and_dev_setup`. -/

namespace LightNvm

open NumText

/-- The part of `struct nvm_cli_cmd_args` that the parsers of addresses fill. -/
structure CliArgs where
  addrs : List NvmAddr
  decVals : List (BitVec 64)
  hexVals : List (BitVec 64)

/-- `overrun`: more addresses were stored than `addrs` has room for. -/
inductive CliOut where
  | ok (args : CliArgs)
  | failed (err : Errno)
  | overrun

def naddrsMax : Nat := 1024

def atoi (text : List Char) : BitVec 32 := BitVec.ofInt 32 (strtoll 10 text)

/-- The arguments that the lower half of an address is read from; what is not given is zero. -/
inductive LowIdx where
  | pages (pl pg sec : Option Nat)
  | sectr (i : Option Nat)
  deriving DecidableEq

structure AddrIdx where
  ch : Option Nat
  lun : Option Nat
  blk : Option Nat
  low : LowIdx
  deriving DecidableEq

def LowIdx.indices : LowIdx → List Nat
  | .pages pl pg sec => pl.toList ++ pg.toList ++ sec.toList
  | .sectr i => i.toList

def AddrIdx.indices (x : AddrIdx) : List Nat :=
  x.ch.toList ++ x.lun.toList ++ x.blk.toList ++ x.low.indices

/-- A parser that sets the fields of its addresses from the first `nums` arguments, and reads
decimal and hexadecimal values from others. -/
structure Components where
  inc : Nat
  nums : Nat
  addrs : List AddrIdx
  dec : List Nat
  hex : List Nat
  nums_le : nums ≤ inc := by decide
  indices_lt : ∀ x ∈ addrs, ∀ i ∈ x.indices, i < nums := by decide
  naddrs_le : addrs.length ≤ 2 := by decide

inductive CliParser where
  | raw (inc : Nat) (inc_le : inc ≤ 2)
  | list
  | components (c : Components)

def fieldOf (args : List (List Char)) (w : Nat) : Option Nat → BitVec w
  | none => 0
  | some i => (atoi (args.getD i [])).setWidth w

def AddrIdx.read (args : List (List Char)) (x : AddrIdx) : NvmAddr :=
  match x.low with
  | .pages pl pg sec => .ofG ⟨fieldOf args 8 x.ch, fieldOf args 8 x.lun, fieldOf args 16 x.blk,
      fieldOf args 8 pl, fieldOf args 16 pg, fieldOf args 8 sec⟩
  | .sectr i => .ofL ⟨fieldOf args 8 x.ch, fieldOf args 8 x.lun, fieldOf args 16 x.blk,
      fieldOf args 32 i⟩

def rawAddr (text : List Char) : NvmAddr := ⟨BitVec.ofInt 64 (strtoll 16 text)⟩

def CliParser.run (args : List (List Char)) : CliParser → CliOut
  | .raw inc _ =>
    if args.length < inc then .failed .einval else .ok ⟨(args.take inc).map rawAddr, [], []⟩
  | .list =>
    let taken := args.takeWhile fun text => text.head? ≠ some '-'
    if naddrsMax < taken.length then .overrun else .ok ⟨taken.map rawAddr, [], []⟩
  | .components c =>
    if args.length < c.inc then .failed .einval
    else .ok ⟨c.addrs.map (AddrIdx.read args),
      c.dec.map fun i => BitVec.ofInt 64 (strtoll 10 (args.getD i [])),
      c.hex.map fun i => BitVec.ofInt 64 (strtoll 16 (args.getD i []))⟩

def parseArgAddr : CliParser := .raw 1 (by decide)

def parseArgAddrSrcDst : CliParser := .raw 2 (by decide)

def parseArgAddrList : CliParser := .list

def parseArgAddrLun : CliParser :=
  .components { inc := 2, nums := 2, dec := [], hex := []
                addrs := [⟨some 0, some 1, none, .pages none none none⟩] }

def parseArgAddrBlk : CliParser :=
  .components { inc := 3, nums := 3, dec := [], hex := []
                addrs := [⟨some 0, some 1, some 2, .pages none none none⟩] }

def parseArgAddrPg : CliParser :=
  .components { inc := 4, nums := 4, dec := [], hex := []
                addrs := [⟨some 0, some 1, some 2, .pages none (some 3) none⟩] }

def parseArgAddrSec : CliParser :=
  .components { inc := 6, nums := 6, dec := [], hex := []
                addrs := [⟨some 0, some 1, some 3, .pages (some 2) (some 4) (some 5)⟩] }

def parseArgAddrLunHexval : CliParser :=
  .components { inc := 3, nums := 2, dec := [], hex := [2]
                addrs := [⟨some 0, some 1, none, .pages none none none⟩] }

def parseArgAddrBlkHexval : CliParser :=
  .components { inc := 4, nums := 3, dec := [], hex := [3]
                addrs := [⟨some 0, some 1, some 2, .pages none none none⟩] }

def parseArgAddrChkHexval : CliParser :=
  .components { inc := 4, nums := 3, dec := [], hex := [3]
                addrs := [⟨some 0, some 1, some 2, .sectr none⟩] }

def parseArgAddrChkValHexval : CliParser :=
  .components { inc := 5, nums := 3, dec := [3], hex := [4]
                addrs := [⟨some 0, some 1, some 2, .sectr none⟩] }

def parseArgVcopy : CliParser :=
  .components { inc := 6, nums := 6, dec := [], hex := []
                addrs := [⟨some 0, some 1, some 2, .pages none none none⟩,
                  ⟨some 3, some 4, some 5, .pages none none none⟩] }

def parseArgVcopyS20 : CliParser :=
  .components { inc := 6, nums := 6, dec := [], hex := []
                addrs := [⟨some 0, some 1, some 2, .sectr none⟩, ⟨some 3, some 4, some 5, .sectr none⟩] }

def parseArgAddrS12 : CliParser :=
  .components { inc := 6, nums := 6, dec := [], hex := []
                addrs := [⟨some 0, some 1, some 2, .pages (some 3) (some 4) (some 5)⟩] }

def parseArgAddrS20 : CliParser :=
  .components { inc := 4, nums := 4, dec := [], hex := []
                addrs := [⟨some 0, some 1, some 2, .sectr (some 3)⟩] }

def parseArgVblkLine : CliParser :=
  .components { inc := 5, nums := 5, dec := [], hex := []
                addrs := [⟨some 0, some 2, some 4, .pages none none none⟩,
                  ⟨some 1, some 3, some 4, .pages none none none⟩] }

def parseArgVblkLinePos : CliParser :=
  .components { inc := 7, nums := 5, dec := [5, 6], hex := []
                addrs := [⟨some 0, some 2, some 4, .pages none none none⟩,
                  ⟨some 1, some 3, some 4, .pages none none none⟩] }

/-- The values of `enum nvm_cli_cmd_arg_type` that take addresses. -/
inductive CliArg where
  | addr | addrList | addrSrcDst | addrLun | addrBlk | addrPg | addrSec | addrLunHexval | addrBlkHexval
  | addrChkHexval | addrChkValHexval | vcopy | vcopyS20 | addrS12 | addrS20 | vblkLine | vblkLinePos

/-- The switch of `parse_args`. -/
def CliArg.parser : CliArg → CliParser
  | .addr => parseArgAddr
  | .addrList => parseArgAddrList
  | .addrSrcDst => parseArgAddrSrcDst
  | .addrLun => parseArgAddrLun
  | .addrBlk => parseArgAddrBlk
  | .addrPg => parseArgAddrPg
  | .addrSec => parseArgAddrSec
  | .addrLunHexval => parseArgAddrLunHexval
  | .addrBlkHexval => parseArgAddrBlkHexval
  | .addrChkHexval => parseArgAddrChkHexval
  | .addrChkValHexval => parseArgAddrChkValHexval
  | .vcopy => parseArgVcopy
  | .vcopyS20 => parseArgVcopyS20
  | .addrS12 => parseArgAddrS12
  | .addrS20 => parseArgAddrS20
  | .vblkLine => parseArgVblkLine
  | .vblkLinePos => parseArgVblkLinePos

/-- The loop of `evar_and_dev_setup` over the addresses, with `NVM_CLI_NOVERIFY` unset. -/
def evarAndDevSetup (geo : Geo) : CliOut → CliOut
  | .ok args => if args.addrs.all fun a => nvmAddrCheck geo a == 0 then .ok args else .failed .einval
  | out => out

def CliArg.setup (kind : CliArg) (geo : Geo) (args : List (List Char)) : CliOut :=
  evarAndDevSetup geo (kind.parser.run args)

def nvmAddrPr (a : NvmAddr) : List Char := '0' :: 'x' :: hexPadded 16 a.val.toNat

/-! The addresses that the numbers name. -/

inductive LowPart where
  | pages (pl pg sec : Nat)
  | sectr (m : Nat)
  deriving DecidableEq

/-- An address by the mathematical values of its components. -/
structure Named where
  ch : Nat
  lun : Nat
  blk : Nat
  low : LowPart
  deriving DecidableEq

/-- The components inside the geometry. On a device of the other version the lower half is taken as
the one number, or as the three, that its bits are. -/
def Named.Inside (n : Named) : Geo → Prop
  | .s12 geo => n.ch < geo.nchannels ∧ n.lun < geo.nluns ∧ n.blk < geo.nblocks ∧
      match n.low with
      | .pages pl pg sec => pl < geo.nplanes ∧ pg < geo.npages ∧ sec < geo.nsectors
      | .sectr m => m / 2 ^ 24 < geo.nplanes ∧ m / 2 ^ 8 % 2 ^ 16 < geo.npages ∧ m % 2 ^ 8 < geo.nsectors
  | .s20 geo => n.ch < geo.npugrp ∧ n.lun < geo.npunit ∧ n.blk < geo.nchunk ∧
      match n.low with
      | .pages pl pg sec => pl * 2 ^ 24 + pg * 2 ^ 8 + sec < geo.nsectr
      | .sectr m => m < geo.nsectr

def NvmAddr.Names (a : NvmAddr) (n : Named) : Prop :=
  a.l.pugrp.toNat = n.ch ∧ a.l.punit.toNat = n.lun ∧ a.l.chunk.toNat = n.blk ∧
    match n.low with
    | .pages pl pg sec => a.g.pl.toNat = pl ∧ a.g.pg.toNat = pg ∧ a.g.sec.toNat = sec
    | .sectr m => a.l.sectr.toNat = m

def Named.ofRaw (n : Nat) : Named :=
  ⟨n / 2 ^ 56, n / 2 ^ 48 % 2 ^ 8, n / 2 ^ 32 % 2 ^ 16, .sectr (n % 2 ^ 32)⟩

def numberOf (ns : List Nat) : Option Nat → Nat
  | none => 0
  | some i => ns.getD i 0

def AddrIdx.named (ns : List Nat) (x : AddrIdx) : Named :=
  ⟨numberOf ns x.ch, numberOf ns x.lun, numberOf ns x.blk,
    match x.low with
    | .pages pl pg sec => .pages (numberOf ns pl) (numberOf ns pg) (numberOf ns sec)
    | .sectr i => .sectr (numberOf ns i)⟩

/-- A number after `strtol`, the `int` and a field of `w` bits. -/
def narrow (w n : Nat) : Nat := min n (2 ^ 63 - 1) % 2 ^ w

def LowPart.narrow : LowPart → LowPart
  | .pages pl pg sec => .pages (LightNvm.narrow 8 pl) (LightNvm.narrow 16 pg) (LightNvm.narrow 8 sec)
  | .sectr m => .sectr (LightNvm.narrow 32 m)

def Named.narrow (n : Named) : Named :=
  ⟨LightNvm.narrow 8 n.ch, LightNvm.narrow 8 n.lun, LightNvm.narrow 16 n.blk, n.low.narrow⟩

def LowPart.Fits : LowPart → Prop
  | .pages pl pg sec => pl < 2 ^ 8 ∧ pg < 2 ^ 16 ∧ sec < 2 ^ 8
  | .sectr m => m < 2 ^ 32

/-- Every component fits its field. -/
def Named.Fits (n : Named) : Prop := n.ch < 2 ^ 8 ∧ n.lun < 2 ^ 8 ∧ n.blk < 2 ^ 16 ∧ n.low.Fits

def CliParser.inc : CliParser → Nat
  | .raw inc _ => inc
  | .list => 0
  | .components c => c.inc

/-- The arguments are the texts of the numbers `ns`, as far as they name addresses. -/
def CliParser.Reads (args : List (List Char)) (ns : List Nat) : CliParser → Prop
  | .raw inc _ => List.Forall₂ (fun text n => IsNumeral 16 text n ∧ n < 2 ^ 64) (args.take inc) ns
  | .list => List.Forall₂ (fun text n => IsNumeral 16 text n ∧ n < 2 ^ 64) args ns
  | .components c => List.Forall₂ (IsNumeral 10) (args.take c.nums) ns

def CliParser.named (ns : List Nat) : CliParser → List Named
  | .raw _ _ | .list => ns.map .ofRaw
  | .components c => c.addrs.map (AddrIdx.named ns)

/-- The addresses that are left of them when they have gone through the conversions. -/
def CliParser.converted (ns : List Nat) : CliParser → List Named
  | .raw _ _ | .list => ns.map fun n => .ofRaw (min n (2 ^ 63 - 1))
  | .components c => c.addrs.map fun x => (x.named ns).narrow

def CliParser.Survives (ns : List Nat) : CliParser → Prop
  | .raw _ _ | .list => ∀ n ∈ ns, n < 2 ^ 63
  | .components c => ∀ x ∈ c.addrs, (x.named ns).Fits

/-- There are enough arguments, and the addresses they name are few enough and inside the device. -/
def CliParser.Valid (geo : Geo) (args : List (List Char)) (ns : List Nat) (p : CliParser) : Prop :=
  p.inc ≤ args.length ∧ (p.named ns).length ≤ naddrsMax ∧ ∀ n ∈ p.named ns, n.Inside geo

/-- The command line acts on the addresses that were named, or it fails. -/
def CliArg.ActsOnNamed (kind : CliArg) (geo : Geo) (args : List (List Char)) (ns : List Nat) : Prop :=
  (kind.parser.Valid geo args ns ∧
    ∃ out, kind.setup geo args = .ok out ∧ List.Forall₂ NvmAddr.Names out.addrs (kind.parser.named ns)) ∨
  (¬ kind.parser.Valid geo args ns ∧ ∃ err, kind.setup geo args = .failed err)

/-- Not too many addresses, and either every number survives its conversions, or an address is out of
the geometry and so is one of those that the conversions leave. -/
def CliParser.Converts (geo : Geo) (args : List (List Char)) (ns : List Nat) (p : CliParser) : Prop :=
  p.inc ≤ args.length → (p.named ns).length ≤ naddrsMax ∧
    (p.Survives ns ∨ (¬ ∀ n ∈ p.named ns, n.Inside geo) ∧ ¬ ∀ n ∈ p.converted ns, n.Inside geo)

/-! Numbers and fields. -/

theorem narrow_eq_self {w n : Nat} (hw : w ≤ 32) (h : n < 2 ^ w) : narrow w n = n := by
  have hle : 2 ^ w ≤ 2 ^ 32 := Nat.pow_le_pow_right (by decide) hw
  have hmin : min n (2 ^ 63 - 1) = n := by omega
  rw [narrow, hmin, Nat.mod_eq_of_lt h]

theorem Named.narrow_eq_self {n : Named} (h : n.Fits) : n.narrow = n := by
  rcases n with ⟨ch, lun, blk, low⟩
  obtain ⟨hch, hlun, hblk, hlow⟩ := h
  have hl : low.narrow = low := by
    cases low with
    | pages pl pg sec =>
      obtain ⟨hpl, hpg, hsec⟩ := hlow
      rw [LowPart.narrow, LightNvm.narrow_eq_self (by decide) hpl, LightNvm.narrow_eq_self (by decide) hpg,
        LightNvm.narrow_eq_self (by decide) hsec]
    | sectr m => rw [LowPart.narrow, LightNvm.narrow_eq_self (by decide) hlow]
  simp only [Named.narrow, hl]
  rw [LightNvm.narrow_eq_self (by decide) hch, LightNvm.narrow_eq_self (by decide) hlun,
    LightNvm.narrow_eq_self (by decide) hblk]

theorem toNat_atoi {text : List Char} {n w : Nat} (h : IsNumeral 10 text n) (hw : w ≤ 32) :
    ((atoi text).setWidth w).toNat = narrow w n := by
  rw [atoi, strtoll_of_isNumeral h, BitVec.ofInt_natCast, BitVec.toNat_setWidth, BitVec.toNat_ofNat,
    Nat.mod_mod_of_dvd _ (Nat.pow_dvd_pow 2 hw), narrow]

section

variable {args : List (List Char)} {ns : List Nat} {k : Nat}

theorem isNumeral_getD (h : List.Forall₂ (IsNumeral 10) (args.take k) ns) (hk : k ≤ args.length) {i : Nat}
    (hi : i < k) : IsNumeral 10 (args.getD i []) (ns.getD i 0) := by
  have hlen : (args.take k).length = k := by rw [List.length_take, Nat.min_eq_left hk]
  have hlen' : ns.length = k := by rw [← h.length_eq, hlen]
  have hget := h.get (i := i) (by omega) (by omega)
  rw [List.get_eq_getElem, List.get_eq_getElem, List.getElem_take] at hget
  rwa [List.getD_eq_getElem _ _ (by omega), List.getD_eq_getElem _ _ (by omega)]

theorem toNat_fieldOf (h : List.Forall₂ (IsNumeral 10) (args.take k) ns) (hk : k ≤ args.length) {w : Nat}
    (hw : w ≤ 32) {i : Option Nat} (hi : ∀ j ∈ i.toList, j < k) :
    (fieldOf args w i).toNat = narrow w (numberOf ns i) := by
  cases i with
  | none =>
    rw [fieldOf, numberOf, narrow, Nat.zero_min, Nat.zero_mod]
    exact BitVec.toNat_zero
  | some j => exact toNat_atoi (isNumeral_getD h hk (hi j (by simp))) hw

theorem AddrIdx.read_names (h : List.Forall₂ (IsNumeral 10) (args.take k) ns) (hk : k ≤ args.length)
    {x : AddrIdx} (hx : ∀ i ∈ x.indices, i < k) : (x.read args).Names (x.named ns).narrow := by
  rcases x with ⟨ch, lun, blk, low⟩
  simp only [AddrIdx.indices, List.forall_mem_append] at hx
  obtain ⟨⟨⟨hch, hlun⟩, hblk⟩, hlow⟩ := hx
  cases low with
  | pages pl pg sec =>
    simp only [LowIdx.indices, List.forall_mem_append] at hlow
    obtain ⟨⟨hpl, hpg⟩, hsec⟩ := hlow
    have hg := NvmAddr.g_ofG ⟨fieldOf args 8 ch, fieldOf args 8 lun, fieldOf args 16 blk,
      fieldOf args 8 pl, fieldOf args 16 pg, fieldOf args 8 sec⟩
    refine ⟨?_, ?_, ?_, ?_, ?_, ?_⟩
    · exact (congrArg (fun y : GAddr => y.ch.toNat) hg).trans (toNat_fieldOf h hk (by decide) hch)
    · exact (congrArg (fun y : GAddr => y.lun.toNat) hg).trans (toNat_fieldOf h hk (by decide) hlun)
    · exact (congrArg (fun y : GAddr => y.blk.toNat) hg).trans (toNat_fieldOf h hk (by decide) hblk)
    · exact (congrArg (fun y : GAddr => y.pl.toNat) hg).trans (toNat_fieldOf h hk (by decide) hpl)
    · exact (congrArg (fun y : GAddr => y.pg.toNat) hg).trans (toNat_fieldOf h hk (by decide) hpg)
    · exact (congrArg (fun y : GAddr => y.sec.toNat) hg).trans (toNat_fieldOf h hk (by decide) hsec)
  | sectr i =>
    have hl := NvmAddr.l_ofL ⟨fieldOf args 8 ch, fieldOf args 8 lun, fieldOf args 16 blk, fieldOf args 32 i⟩
    refine ⟨?_, ?_, ?_, ?_⟩
    · exact (congrArg (fun y : LAddr => y.pugrp.toNat) hl).trans (toNat_fieldOf h hk (by decide) hch)
    · exact (congrArg (fun y : LAddr => y.punit.toNat) hl).trans (toNat_fieldOf h hk (by decide) hlun)
    · exact (congrArg (fun y : LAddr => y.chunk.toNat) hl).trans (toNat_fieldOf h hk (by decide) hblk)
    · exact (congrArg (fun y : LAddr => y.sectr.toNat) hl).trans (toNat_fieldOf h hk (by decide) hlow)

end

section

variable {a : NvmAddr}

theorem NvmAddr.sectr_eq (a : NvmAddr) :
    a.l.sectr.toNat = a.g.pl.toNat * 2 ^ 24 + a.g.pg.toNat * 2 ^ 8 + a.g.sec.toNat := by
  simp only [NvmAddr.l, NvmAddr.g, toNat_field]
  omega

theorem NvmAddr.Names.check_iff {n : Named} (h : a.Names n) (geo : Geo) :
    nvmAddrCheck geo a = 0 ↔ n.Inside geo := by
  have hs := a.sectr_eq
  have hpl := a.g.pl.isLt
  have hpg := a.g.pg.isLt
  have hsec := a.g.sec.isLt
  rcases n with ⟨ch, lun, blk, low⟩
  obtain ⟨rfl, rfl, rfl, hlow⟩ := h
  cases geo with
  | s12 geo =>
    rw [nvmAddrCheck, nvmAddrCheckG_eq_zero]
    cases low with
    | pages pl pg sec =>
      obtain ⟨rfl, rfl, rfl⟩ := hlow
      simp only [Named.Inside, NvmAddr.g, NvmAddr.l]
      tauto
    | sectr m =>
      obtain rfl : a.l.sectr.toNat = m := hlow
      have hdigits : a.l.sectr.toNat / 2 ^ 24 = a.g.pl.toNat ∧
          a.l.sectr.toNat / 2 ^ 8 % 2 ^ 16 = a.g.pg.toNat ∧ a.l.sectr.toNat % 2 ^ 8 = a.g.sec.toNat := by
        omega
      simp only [Named.Inside, hdigits]
      simp only [NvmAddr.g, NvmAddr.l]
      tauto
  | s20 geo =>
    rw [nvmAddrCheck, nvmAddrCheckL_eq_zero]
    cases low with
    | pages pl pg sec =>
      obtain ⟨rfl, rfl, rfl⟩ := hlow
      rw [hs]
      rfl
    | sectr m =>
      obtain rfl : a.l.sectr.toNat = m := hlow
      rfl

theorem NvmAddr.Names.fits {n : Named} (h : a.Names n) : n.Fits := by
  rcases n with ⟨ch, lun, blk, low⟩
  obtain ⟨rfl, rfl, rfl, hlow⟩ := h
  refine ⟨BitVec.isLt _, BitVec.isLt _, BitVec.isLt _, ?_⟩
  cases low with
  | pages pl pg sec =>
    obtain ⟨rfl, rfl, rfl⟩ := hlow
    exact ⟨BitVec.isLt _, BitVec.isLt _, BitVec.isLt _⟩
  | sectr m =>
    obtain rfl := hlow
    exact BitVec.isLt _

theorem NvmAddr.names_ofRaw_iff {n : Nat} (h : n < 2 ^ 64) : a.Names (.ofRaw n) ↔ a.val.toNat = n := by
  have ha := a.val.isLt
  simp only [NvmAddr.Names, Named.ofRaw, NvmAddr.l, toNat_field]
  omega

end

/-! What the parsers leave. -/

theorem toNat_rawAddr {text : List Char} {n : Nat} (h : IsNumeral 16 text n) :
    (rawAddr text).val.toNat = min n (2 ^ 63 - 1) := by
  rw [rawAddr, strtoll_of_isNumeral h, BitVec.ofInt_natCast, BitVec.toNat_ofNat]
  omega

section

variable {args : List (List Char)} {ns : List Nat} {p : CliParser}

theorem rawAddrs_names
    (h : List.Forall₂ (fun text n => IsNumeral 16 text n ∧ n < 2 ^ 64) args ns) :
    List.Forall₂ NvmAddr.Names (args.map rawAddr) (ns.map fun n => .ofRaw (min n (2 ^ 63 - 1))) := by
  rw [List.forall₂_map_left_iff, List.forall₂_map_right_iff]
  refine h.imp fun text n hn => ?_
  rw [NvmAddr.names_ofRaw_iff (by omega)]
  exact toNat_rawAddr hn.1

theorem forall_of_forall₂ {α β : Type} {R S : α → β → Prop} {P : β → Prop} {as : List α} {bs : List β}
    (hR : List.Forall₂ R as bs) (hS : List.Forall₂ S as bs) (h : ∀ a b, R a b → S a b → P b) :
    ∀ b ∈ bs, P b := by
  induction hR with
  | nil => exact nofun
  | cons hr _ ih =>
    cases hS with
    | cons hs hrest => exact List.forall_mem_cons.mpr ⟨h _ _ hr hs, ih hrest⟩

theorem CliParser.run_spec (h : p.Reads args ns) :
    (args.length < p.inc ∧ ∃ err, p.run args = .failed err) ∨
    (p.inc ≤ args.length ∧ naddrsMax < (p.named ns).length ∧ p.run args = .overrun) ∨
    (p.inc ≤ args.length ∧ (p.named ns).length ≤ naddrsMax ∧
      ∃ out, p.run args = .ok out ∧ List.Forall₂ NvmAddr.Names out.addrs (p.converted ns)) := by
  cases p with
  | raw inc hinc =>
    by_cases hlen : args.length < inc
    · exact .inl ⟨hlen, .einval, if_pos hlen⟩
    · refine .inr (.inr ⟨not_lt.mp hlen, ?_, _, if_neg hlen, rawAddrs_names h⟩)
      have hns : (args.take inc).length = ns.length := h.length_eq
      rw [List.length_take] at hns
      rw [CliParser.named, List.length_map, naddrsMax]
      omega
  | list =>
    have htake : (args.takeWhile fun text => text.head? ≠ some '-') = args := by
      rw [List.takeWhile_eq_self_iff]
      exact forall_of_forall₂ h.flip h.flip fun _ _ hn _ => by simpa using hn.1.head?_ne
    have hns : args.length = ns.length := h.length_eq
    have hnamed : (CliParser.list.named ns).length = args.length := by
      rw [CliParser.named, List.length_map, hns]
    rw [hnamed, CliParser.run, htake]
    by_cases hlen : naddrsMax < args.length
    · exact .inr (.inl ⟨Nat.zero_le _, hlen, if_pos hlen⟩)
    · exact .inr (.inr ⟨Nat.zero_le _, not_lt.mp hlen, _, if_neg hlen, rawAddrs_names h⟩)
  | components c =>
    by_cases hlen : args.length < c.inc
    · exact .inl ⟨hlen, .einval, if_pos hlen⟩
    · refine .inr (.inr ⟨not_lt.mp hlen, ?_, _, if_neg hlen, ?_⟩)
      · have hle := c.naddrs_le
        rw [CliParser.named, List.length_map, naddrsMax]
        omega
      · rw [CliParser.converted, List.forall₂_map_left_iff, List.forall₂_map_right_iff, List.forall₂_same]
        intro x hx
        exact AddrIdx.read_names h (c.nums_le.trans (not_lt.mp hlen)) (c.indices_lt x hx)

theorem CliParser.converted_eq_named (h : p.Survives ns) : p.converted ns = p.named ns := by
  have hraw : (∀ n ∈ ns, n < 2 ^ 63) → (ns.map fun n => Named.ofRaw (min n (2 ^ 63 - 1))) = ns.map .ofRaw := by
    intro hns
    refine List.map_congr_left fun n hn => ?_
    have hlt := hns n hn
    rw [Nat.min_eq_left (by omega)]
  cases p with
  | raw inc hinc => exact hraw h
  | list => exact hraw h
  | components c => exact List.map_congr_left fun x hx => Named.narrow_eq_self (h x hx)

theorem names_raw_lt {addrs : List NvmAddr}
    (hconv : List.Forall₂ NvmAddr.Names addrs (ns.map fun n => .ofRaw (min n (2 ^ 63 - 1))))
    (h : List.Forall₂ NvmAddr.Names addrs (ns.map .ofRaw)) : ∀ n ∈ ns, n < 2 ^ 63 := by
  rw [List.forall₂_map_right_iff] at hconv h
  refine forall_of_forall₂ hconv h fun a n hmin hn => ?_
  have hlt : n < 2 ^ 64 := by
    have hch : n / 2 ^ 56 < 2 ^ 8 := hn.fits.1
    omega
  rw [NvmAddr.names_ofRaw_iff hlt] at hn
  rw [NvmAddr.names_ofRaw_iff (by omega)] at hmin
  omega

theorem CliParser.names_iff {addrs : List NvmAddr}
    (hconv : List.Forall₂ NvmAddr.Names addrs (p.converted ns)) :
    List.Forall₂ NvmAddr.Names addrs (p.named ns) ↔ p.Survives ns := by
  constructor
  · intro h
    cases p with
    | raw inc hinc => exact names_raw_lt hconv h
    | list => exact names_raw_lt hconv h
    | components c =>
      rw [CliParser.named, List.forall₂_map_right_iff] at h
      exact forall_of_forall₂ h h fun _ _ hn _ => hn.fits
  · intro h
    rwa [converted_eq_named h] at hconv

theorem all_check_iff (geo : Geo) {addrs : List NvmAddr} {named : List Named}
    (h : List.Forall₂ NvmAddr.Names addrs named) :
    (addrs.all fun a => nvmAddrCheck geo a == 0) = true ↔ ∀ n ∈ named, n.Inside geo := by
  induction h with
  | nil => simp
  | cons hn _ ih =>
    rw [List.all_cons, Bool.and_eq_true, ih, beq_iff_eq, hn.check_iff, List.forall_mem_cons]

end

theorem rawAddr_nvmAddrPr_iff (a : NvmAddr) : rawAddr (nvmAddrPr a) = a ↔ a.val.toNat < 2 ^ 63 := by
  have hlt : a.val.toNat < 16 ^ 16 := a.val.isLt
  have hread := toNat_rawAddr (isNumeral_hexPadded (w := 16) (by decide) hlt)
  constructor
  · intro h
    rw [nvmAddrPr] at h
    rw [h] at hread
    omega
  · intro h
    have hval : (rawAddr (nvmAddrPr a)).val = a.val := BitVec.eq_of_toNat_eq (hread.trans (by omega))
    rcases a with ⟨val⟩
    exact congrArg NvmAddr.mk hval

theorem CliArg.actsOnNamed_iff (geo : Geo) {kind : CliArg} {args : List (List Char)} {ns : List Nat}
    (h : kind.parser.Reads args ns) :
    kind.ActsOnNamed geo args ns ↔ kind.parser.Converts geo args ns := by
  rcases kind.parser.run_spec h with ⟨hinc, err, hrun⟩ | ⟨hinc, hlen, hrun⟩ | ⟨hinc, hlen, out, hrun, hconv⟩
  · have hsetup : kind.setup geo args = .failed err := by rw [CliArg.setup, hrun]; rfl
    refine iff_of_true (.inr ⟨fun hv => ?_, err, hsetup⟩) fun hle => ?_
    · exact absurd hv.1 (by omega)
    · omega
  · have hsetup : kind.setup geo args = .overrun := by rw [CliArg.setup, hrun]; rfl
    refine iff_of_false ?_ fun hc => absurd (hc hinc).1 (by omega)
    rintro (⟨hv, -⟩ | ⟨-, err, herr⟩)
    · exact absurd hv.2.1 (by omega)
    · rw [hsetup] at herr
      cases herr
  · have hvalid : kind.parser.Valid geo args ns ↔ ∀ n ∈ kind.parser.named ns, n.Inside geo :=
      ⟨fun hv => hv.2.2, fun hv => ⟨hinc, hlen, hv⟩⟩
    have hsurv : kind.parser.Survives ns → kind.parser.converted ns = kind.parser.named ns :=
      CliParser.converted_eq_named
    have hcheck := all_check_iff geo hconv
    have hconverts : kind.parser.Converts geo args ns ↔ kind.parser.Survives ns ∨
        (¬ ∀ n ∈ kind.parser.named ns, n.Inside geo) ∧ ¬ ∀ n ∈ kind.parser.converted ns, n.Inside geo :=
      ⟨fun hc => (hc hinc).2, fun hc _ => ⟨hlen, hc⟩⟩
    rw [hconverts, CliArg.ActsOnNamed, hvalid]
    by_cases hall : ∀ n ∈ kind.parser.converted ns, n.Inside geo
    · -- the conversions leave addresses that are accepted
      have hsetup : kind.setup geo args = .ok out := by
        rw [CliArg.setup, hrun, evarAndDevSetup, if_pos (hcheck.mpr hall)]
      constructor
      · rintro (⟨-, out', hout, hnames⟩ | ⟨-, err, herr⟩)
        · rw [hsetup] at hout
          obtain rfl := CliOut.ok.inj hout
          exact .inl ((CliParser.names_iff hconv).mp hnames)
        · rw [hsetup] at herr
          cases herr
      · rintro (hs | ⟨-, hno⟩)
        · refine .inl ⟨?_, out, hsetup, (CliParser.names_iff hconv).mpr hs⟩
          rwa [hsurv hs] at hall
        · exact absurd hall hno
    · have hsetup : kind.setup geo args = .failed .einval := by
        rw [CliArg.setup, hrun, evarAndDevSetup, if_neg (fun hc => hall (hcheck.mp hc))]
      constructor
      · rintro (⟨-, out', hout, -⟩ | ⟨hno, -⟩)
        · rw [hsetup] at hout
          cases hout
        · exact .inr ⟨hno, hall⟩
      · rintro (hs | ⟨hno, -⟩)
        · rw [hsurv hs] at hall
          exact .inr ⟨hall, .einval, hsetup⟩
        · exact .inr ⟨hno, .einval, hsetup⟩

/-- Exactly when the command line acts on the addresses that were named, and when an accepted address
is read back from its own text. -/
theorem cli_acts_on_named_iff (geo : Geo) (kind : CliArg) (args : List (List Char)) (ns : List Nat)
    (h : kind.parser.Reads args ns) :
    (kind.ActsOnNamed geo args ns ↔ kind.parser.Converts geo args ns) ∧
    ∀ a, ((nvmAddrCheck geo a = 0 → rawAddr (nvmAddrPr a) = a) ↔
      (nvmAddrCheck geo a = 0 → a.val.toNat < 2 ^ 63)) :=
  ⟨CliArg.actsOnNamed_iff geo h, fun a => imp_congr_right fun _ => rawAddr_nvmAddrPr_iff a⟩

theorem cli_acts_on_named_chunk :
    CliArg.addrS20.ActsOnNamed (.s20 tinyGeoL) [['0'], ['1'], ['0'], ['3']] [0, 1, 0, 3] := by
  have hreads : CliArg.addrS20.parser.Reads [['0'], ['1'], ['0'], ['3']] [0, 1, 0, 3] :=
    .cons (isNumeral_digits (by simp) rfl) (.cons (isNumeral_digits (by simp) rfl)
      (.cons (isNumeral_digits (by simp) rfl) (.cons (isNumeral_digits (by simp) rfl) .nil)))
  refine (cli_acts_on_named_iff _ .addrS20 _ _ hreads).1.mpr fun _ => ⟨by decide, .inl ?_⟩
  intro x hx
  rw [List.mem_singleton.mp hx]
  exact ⟨by decide, by decide, by decide, (by decide : 3 < 2 ^ 32)⟩

/-- Group 256 is taken for group 0, and 1025 addresses are stored where 1024 have room. -/
theorem cli_acts_on_unnamed :
    (∃ out, CliArg.addrS20.setup (.s20 tinyGeoL) [['2', '5', '6'], ['0'], ['0'], ['0']] = .ok out ∧
      out.addrs = [⟨0⟩]) ∧
    ¬ CliArg.addrS20.ActsOnNamed (.s20 tinyGeoL) [['2', '5', '6'], ['0'], ['0'], ['0']] [256, 0, 0, 0] ∧
    ¬ CliArg.addrList.ActsOnNamed (.s20 tinyGeoL) (List.replicate 1025 ['0']) (List.replicate 1025 0) := by
  refine ⟨⟨_, rfl, by decide⟩, fun hacts => ?_, fun hacts => ?_⟩
  · have hreads : CliArg.addrS20.parser.Reads [['2', '5', '6'], ['0'], ['0'], ['0']] [256, 0, 0, 0] :=
      .cons (isNumeral_digits (by simp) rfl) (.cons (isNumeral_digits (by simp) rfl)
        (.cons (isNumeral_digits (by simp) rfl) (.cons (isNumeral_digits (by simp) rfl) .nil)))
    rcases (((CliArg.actsOnNamed_iff _ hreads).mp hacts) (by decide)).2 with hs | ⟨-, hno⟩
    · have hch : 256 < 2 ^ 8 := (hs _ (List.mem_singleton_self _)).1
      omega
    · apply hno
      intro n hn
      rw [List.mem_singleton.mp hn]
      exact ⟨by decide, by decide, by decide, (by decide : 0 < 4)⟩
  · have hreads : CliArg.addrList.parser.Reads (List.replicate 1025 ['0']) (List.replicate 1025 0) := by
      generalize 1025 = n
      induction n with
      | zero => exact .nil
      | succ n ih => exact .cons ⟨isNumeral_digits (by simp) rfl, by decide⟩ ih
    have hlen := (((CliArg.actsOnNamed_iff _ hreads).mp hacts) (Nat.zero_le _)).1
    simp only [CliArg.parser, parseArgAddrList, CliParser.named, List.length_map, List.length_replicate,
      naddrsMax] at hlen
    omega

end LightNvm
