import LightNvm.AddrLossless

/-! The submission entries of I/O commands: `nvm_cmd_wrap_setup` and what the controller reads from
the entry and the lists that it points to. -/

namespace LightNvm

inductive Dopc where
  | scalarErase | scalarWrite | scalarRead | vectorErase | vectorWrite | vectorRead | vectorCopy
  deriving DecidableEq

def Dopc.code : Dopc → BitVec 8
  | .scalarErase => 0x09
  | .scalarWrite => 0x01
  | .scalarRead => 0x02
  | .vectorErase => 0x90
  | .vectorWrite => 0x91
  | .vectorRead => 0x92
  | .vectorCopy => 0x93

def nvmCmdIsScalar : Dopc → Bool
  | .scalarWrite | .scalarRead | .scalarErase => true
  | _ => false

inductive Verid where
  | s12 | s20
  deriving DecidableEq

/-- What `nvm_cmd_wrap_setup` reads of a device: its address functions and, through either accessor
of the geometry, the sectors per page or chunk and the sizes of a sector. -/
structure CmdDev (α : Type) where
  verid : Verid
  fmt : AddrFmt α
  nsid : BitVec 32
  nsectr : Nat
  nbytes : Nat
  nbytesOob : Nat
  nsectr_lt : nsectr < 2 ^ 32

def DevG.cmdDev (dev : DevG) (nsid : BitVec 32) : CmdDev GAddr where
  verid := .s12
  fmt := dev.fmt
  nsid := nsid
  nsectr := dev.geo.nsectors
  nbytes := dev.geo.sectorNbytes
  nbytesOob := dev.geo.metaNbytes
  nsectr_lt := (Nat.div_le_self _ _).trans_lt (dev.geo.pageNbytes_lt.trans (by decide))

def DevL.cmdDev (dev : DevL) (nsid : BitVec 32) : CmdDev LAddr where
  verid := .s20
  fmt := dev.fmt
  nsid := nsid
  nsectr := dev.geo.nsectr
  nbytes := dev.geo.nbytes
  nbytesOob := dev.geo.nbytesOob
  nsectr_lt := dev.geo.nsectr_lt

structure SglDescr where
  addr : BitVec 64
  len : BitVec 32
  subtype : BitVec 4
  type : BitVec 4
  deriving DecidableEq

structure Sgl where
  ndescr : Nat
  first : SglDescr
  phys : BitVec 64
  indirectPhys : BitVec 64

/-- A buffer of the caller: its physical address, if it has one, and the list it is when the flags
say so. -/
structure Payload where
  phys : Option (BitVec 64)
  sgl : Sgl

/-- The part of `struct nvm_nvme_cmd` that is set; `addrs` is also read as `dsm`. -/
structure NvmeCmd where
  opcode : BitVec 8
  nsid : BitVec 32
  psdt : BitVec 2
  mptr : BitVec 64
  dptr : SglDescr
  addrs : BitVec 64
  cdw12 : BitVec 32
  addrsDst : BitVec 64
  deriving DecidableEq

def NvmeCmd.dsmNr (c : NvmeCmd) : BitVec 8 := c.addrs.setWidth 8

def NvmeCmd.nvmeNaddrs (c : NvmeCmd) : BitVec 16 := c.cdw12.setWidth 16

def NvmeCmd.s12Naddrs (c : NvmeCmd) : BitVec 16 := c.cdw12.setWidth 16

def NvmeCmd.s20Naddrs (c : NvmeCmd) : BitVec 6 := c.cdw12.setWidth 6

structure DsmRange where
  cattr : BitVec 32
  nlb : BitVec 32
  slba : BitVec 64
  deriving DecidableEq

structure DmaList where
  phys : BitVec 64
  words : List (BitVec 64)
  deriving DecidableEq

/-- `struct nvm_cmd_wrap` without its pointers to the caller's memory. -/
structure Wrap where
  cmd : NvmeCmd
  dataLen : Nat
  metaLen : Nat
  dsmrDma : Option (List DsmRange)
  addrsDma : Option DmaList
  dstDma : Option DmaList

structure Allocs where
  wrap : Bool
  dsmr : Bool
  addrs : Option (BitVec 64)
  dst : Option (BitVec 64)

def givenAddrs {α : Type} (opcode : Dopc) (naddrs : Nat) (addrs : Nat → α) : List α :=
  if opcode = .scalarWrite ∨ opcode = .scalarRead then [addrs 0] else (List.range naddrs).map addrs

/-- A request with accepted addresses; `naddrs` is an `int`. -/
structure Req {α : Type} (dev : CmdDev α) where
  opcode : Dopc
  data : Option Payload
  md : Option Payload
  addrs : Nat → α
  dst : Option (Nat → α)
  naddrs : Nat
  flags : BitVec 16
  naddrs_pos : 0 < naddrs
  naddrs_lt : naddrs < 2 ^ 31
  dst_isSome : dst.isSome ↔ opcode = .vectorCopy
  accepted : ∀ a ∈ givenAddrs opcode naddrs addrs, dev.fmt.check a = 0
  accepted_dst : ∀ d ∈ dst, ∀ a ∈ givenAddrs opcode naddrs d, dev.fmt.check a = 0

def flagSgl (flags : BitVec 16) : Bool := flags &&& (0x1 <<< 9) ≠ 0

def flagSglMeta (flags : BitVec 16) : Bool := flags &&& (0x1 <<< 10) ≠ 0

/-- `cmd_wrap_setup_sgl`; there is no wrap where it follows a null pointer. -/
def cmdWrapSetupSgl (w : Wrap) (data md : Option Payload) (flags : BitVec 16) : Option Wrap :=
  if !flagSgl flags then some w
  else
    data.bind fun d =>
      let descr := if d.sgl.ndescr = 1 then d.sgl.first
        else ⟨d.sgl.phys, BitVec.ofNat 32 (d.sgl.ndescr * 16), 0, 0x3⟩
      let w := { w with cmd := { w.cmd with psdt := 0x1, dptr := descr }, dataLen := 0 }
      if !flagSglMeta flags then some w
      else
        md.bind fun d =>
          let mptr := if d.sgl.ndescr = 1 then d.sgl.phys else d.sgl.indirectPhys
          some { w with cmd := { w.cmd with psdt := 0x2, mptr := mptr }, metaLen := 0 }

section

variable {α : Type} (dev : CmdDev α)

def wrapInit (req : Req dev) : Wrap where
  cmd := ⟨req.opcode.code, dev.nsid, 0, 0, ⟨0, 0, 0, 0⟩, 0, 0, 0⟩
  dataLen := 0
  metaLen := 0
  dsmrDma := none
  addrsDma := none
  dstDma := none

def wrapDsm (m : Allocs) (req : Req dev) (w : Wrap) : Option Wrap :=
  if !m.dsmr then none
  else
    some { w with
      dsmrDma := some ((List.range req.naddrs).map fun i =>
        ⟨0, BitVec.ofNat 32 dev.nsectr, dev.fmt.gen2dev (req.addrs i)⟩)
      dataLen := 16 * req.naddrs
      -- the fields `nr` and `ad`
      cmd := { w.cmd with addrs := (BitVec.ofNat 8 (req.naddrs - 1)).setWidth 64 ||| 1 <<< 34 } }

def wrapCount (req : Req dev) (w : Wrap) : Wrap :=
  let naddrs := req.naddrs - 1
  match dev.verid with
  | .s12 =>
    { w with
      cmd := { w.cmd with
        cdw12 := (BitVec.ofNat 16 naddrs).setWidth 32 ||| req.flags.setWidth 32 <<< 16 }
      dataLen := if req.data.isSome then dev.nbytes * req.naddrs else 0
      metaLen := dev.nbytesOob * req.naddrs }
  | .s20 =>
    { w with
      cmd := { w.cmd with
        cdw12 := if nvmCmdIsScalar req.opcode then (BitVec.ofNat 16 naddrs).setWidth 32
          else (BitVec.ofNat 6 naddrs).setWidth 32 }
      dataLen := if req.data.isSome then dev.nbytes * req.naddrs else 0
      metaLen := if req.md.isSome then dev.nbytesOob * req.naddrs else 0 }

/-- The special case of a vector erase with metadata; a report descriptor has 32 bytes. -/
def wrapEraseMeta (req : Req dev) (w : Wrap) : Option Wrap :=
  if req.opcode = .vectorErase then
    match req.md with
    | none => some w
    | some d =>
      d.phys.bind fun phys =>
        some { w with cmd := { w.cmd with mptr := phys }, metaLen := req.naddrs * 32 }
  else some w

def wrapList (naddrs : Nat) (phys : Option (BitVec 64)) (addrs : Nat → α) :
    Option (BitVec 64 × Option DmaList) :=
  if 1 < naddrs then
    phys.bind fun p => some (p, some ⟨p, (List.range naddrs).map fun i => dev.fmt.gen2dev (addrs i)⟩)
  else some (dev.fmt.gen2dev (addrs 0), none)

def wrapVector (m : Allocs) (req : Req dev) (w : Wrap) : Option Wrap :=
  (wrapList dev req.naddrs m.addrs req.addrs).bind fun src =>
    let w := { w with cmd := { w.cmd with addrs := src.1 }, addrsDma := src.2 }
    match req.dst with
    | none => some w
    | some addrs =>
      (wrapList dev req.naddrs m.dst addrs).bind fun dst =>
        some { w with cmd := { w.cmd with addrsDst := dst.1 }, dstDma := dst.2 }

def wrapAddrs (m : Allocs) (req : Req dev) (w : Wrap) : Option Wrap :=
  if nvmCmdIsScalar req.opcode then
    some { w with cmd := { w.cmd with addrs := dev.fmt.gen2dev (req.addrs 0) } }
  else wrapVector dev m req w

def nvmCmdWrapSetup (m : Allocs) (req : Req dev) : Option Wrap :=
  if !m.wrap then none
  else if req.opcode = .scalarErase then wrapDsm dev m req (wrapInit dev req)
  else
    (wrapEraseMeta dev req (wrapCount dev req (wrapInit dev req))).bind fun w =>
      (cmdWrapSetupSgl w req.data req.md req.flags).bind (wrapAddrs dev m req)

def CmdDev.cap (opcode : Dopc) : Nat :=
  match opcode, dev.verid with
  | .scalarErase, _ => 2 ^ 8
  | .scalarWrite, _ | .scalarRead, _ => 2 ^ 16
  | _, .s12 => 2 ^ 16
  | _, .s20 => 2 ^ 6

def CmdDev.count (opcode : Dopc) (c : NvmeCmd) : Nat :=
  match opcode, dev.verid with
  | .scalarErase, _ => c.dsmNr.toNat
  | .scalarWrite, _ | .scalarRead, _ => c.nvmeNaddrs.toNat
  | _, .s12 => c.s12Naddrs.toNat
  | _, .s20 => c.s20Naddrs.toNat

end

def listed (word : BitVec 64) : Option DmaList → List (BitVec 64)
  | none => [word]
  | some l => l.words

section

variable {α : Type} {dev : CmdDev α}

/-- The entry and its lists say what the request says. -/
structure Faithful (req : Req dev) (w : Wrap) : Prop where
  count : dev.count req.opcode w.cmd + 1 = req.naddrs
  ranges : req.opcode = .scalarErase → ∃ rs, w.dsmrDma = some rs ∧
    rs.map (fun r => dev.fmt.dev2gen r.slba) = givenAddrs req.opcode req.naddrs req.addrs ∧
    ∀ r ∈ rs, r.nlb.toNat = dev.nsectr
  src : req.opcode ≠ .scalarErase → (∀ l ∈ w.addrsDma, l.phys = w.cmd.addrs) ∧
    (listed w.cmd.addrs w.addrsDma).map dev.fmt.dev2gen = givenAddrs req.opcode req.naddrs req.addrs
  dst : ∀ d ∈ req.dst, (∀ l ∈ w.dstDma, l.phys = w.cmd.addrsDst) ∧
    (listed w.cmd.addrsDst w.dstDma).map dev.fmt.dev2gen = givenAddrs req.opcode req.naddrs d

structure Req.Same (r r' : Req dev) : Prop where
  opcode : r.opcode = r'.opcode
  naddrs : r.naddrs = r'.naddrs
  addrs : givenAddrs r.opcode r.naddrs r.addrs = givenAddrs r'.opcode r'.naddrs r'.addrs
  dst : r.dst.map (givenAddrs r.opcode r.naddrs) = r'.dst.map (givenAddrs r'.opcode r'.naddrs)

/-- The memory and the pointers that the request needs are there. -/
structure Req.Provided (req : Req dev) (m : Allocs) : Prop where
  wrap : m.wrap = true
  dsmr : req.opcode = .scalarErase → m.dsmr = true
  eraseMeta : req.opcode = .vectorErase → ∀ d ∈ req.md, d.phys.isSome
  sgl : req.opcode ≠ .scalarErase → flagSgl req.flags = true →
    req.data.isSome ∧ (flagSglMeta req.flags = true → req.md.isSome)
  addrs : nvmCmdIsScalar req.opcode = false → 1 < req.naddrs → m.addrs.isSome
  dst : req.dst.isSome → 1 < req.naddrs → m.dst.isSome

/-! What the steps of the setup leave alone. -/

def Wrap.entry (w : Wrap) :=
  (w.cmd.opcode, w.cmd.addrs, w.cmd.cdw12, w.cmd.addrsDst, w.dsmrDma, w.addrsDma, w.dstDma)

theorem cmdWrapSetupSgl_entry {w w' : Wrap} {data md : Option Payload} {flags : BitVec 16}
    (h : cmdWrapSetupSgl w data md flags = some w') : w'.entry = w.entry := by
  simp only [cmdWrapSetupSgl] at h
  split at h
  · rw [← Option.some.inj h]
  · obtain ⟨d, -, h⟩ := Option.bind_eq_some_iff.mp h
    split at h
    · rw [← Option.some.inj h]
      rfl
    · obtain ⟨d', -, h⟩ := Option.bind_eq_some_iff.mp h
      rw [← Option.some.inj h]
      rfl

theorem cmdWrapSetupSgl_isSome (w : Wrap) (data md : Option Payload) (flags : BitVec 16) :
    (cmdWrapSetupSgl w data md flags).isSome ↔ (flagSgl flags = true →
      data.isSome ∧ (flagSglMeta flags = true → md.isSome)) := by
  cases hs : flagSgl flags with
  | false => simp [cmdWrapSetupSgl, hs]
  | true =>
    cases data with
    | none => simp [cmdWrapSetupSgl, hs]
    | some d =>
      cases hm : flagSglMeta flags with
      | false => simp [cmdWrapSetupSgl, hs, hm]
      | true => cases md <;> simp [cmdWrapSetupSgl, hs, hm]

theorem wrapEraseMeta_entry {req : Req dev} {w w' : Wrap} (h : wrapEraseMeta dev req w = some w') :
    w'.entry = w.entry := by
  simp only [wrapEraseMeta] at h
  split_ifs at h
  · split at h
    · rw [← Option.some.inj h]
    · obtain ⟨p, -, h⟩ := Option.bind_eq_some_iff.mp h
      rw [← Option.some.inj h]
      rfl
  · rw [← Option.some.inj h]

theorem wrapEraseMeta_isSome (req : Req dev) (w : Wrap) :
    (wrapEraseMeta dev req w).isSome ↔ (req.opcode = .vectorErase → ∀ d ∈ req.md, d.phys.isSome) := by
  by_cases ho : req.opcode = .vectorErase
  · cases hm : req.md with
    | none => simp [wrapEraseMeta, ho, hm]
    | some d => cases hp : d.phys <;> simp [wrapEraseMeta, ho, hm, hp]
  · simp [wrapEraseMeta, ho]

theorem wrapList_isSome (naddrs : Nat) (phys : Option (BitVec 64)) (addrs : Nat → α) :
    (wrapList dev naddrs phys addrs).isSome ↔ (1 < naddrs → phys.isSome) := by
  by_cases hn : 1 < naddrs
  · cases phys <;> simp [wrapList, hn]
  · simp [wrapList, hn]

theorem wrapList_spec {naddrs : Nat} (hn : 0 < naddrs) {phys : Option (BitVec 64)} {addrs : Nat → α}
    {word : BitVec 64} {dma : Option DmaList} (h : wrapList dev naddrs phys addrs = some (word, dma)) :
    (∀ l ∈ dma, l.phys = word) ∧
      listed word dma = (List.range naddrs).map fun i => dev.fmt.gen2dev (addrs i) := by
  rw [wrapList] at h
  split_ifs at h with hlt
  · obtain ⟨p, -, h⟩ := Option.bind_eq_some_iff.mp h
    cases h
    exact ⟨fun l hl => by cases hl; rfl, rfl⟩
  · cases h
    obtain rfl : naddrs = 1 := by omega
    exact ⟨by simp, rfl⟩

theorem isSome_bind_iff {β γ : Type} {o : Option β} {f : β → Option γ} {p : Prop}
    (h : ∀ x, (f x).isSome ↔ p) : (o.bind f).isSome ↔ o.isSome ∧ p := by
  cases o with
  | none => simp
  | some x => simpa using h x

theorem wrapVector_isSome (m : Allocs) (req : Req dev) (w : Wrap) :
    (wrapVector dev m req w).isSome ↔ (1 < req.naddrs → m.addrs.isSome) ∧
      (req.dst.isSome → 1 < req.naddrs → m.dst.isSome) := by
  rw [wrapVector, isSome_bind_iff, wrapList_isSome]
  intro src
  cases req.dst with
  | none => simp
  | some d =>
    dsimp only
    rw [@isSome_bind_iff _ _ _ _ True (fun _ => by simp), wrapList_isSome]
    simp

theorem Req.dst_eq_none {req : Req dev} (ho : req.opcode ≠ .vectorCopy) : req.dst = none := by
  have h := mt req.dst_isSome.mp ho
  simpa using h

theorem wrapAddrs_isSome (m : Allocs) (req : Req dev) (w : Wrap) :
    (wrapAddrs dev m req w).isSome ↔
      (nvmCmdIsScalar req.opcode = false → 1 < req.naddrs → m.addrs.isSome) ∧
      (req.dst.isSome → 1 < req.naddrs → m.dst.isSome) := by
  rw [wrapAddrs]
  cases hs : nvmCmdIsScalar req.opcode with
  | true =>
    have hdst : req.dst = none := Req.dst_eq_none (by rintro h; simp [h, nvmCmdIsScalar] at hs)
    simp [hdst]
  | false => simpa using wrapVector_isSome m req w

theorem nvmCmdWrapSetup_isSome (m : Allocs) (req : Req dev) :
    (nvmCmdWrapSetup dev m req).isSome ↔ req.Provided m := by
  cases hw : m.wrap with
  | false =>
    simp only [nvmCmdWrapSetup, hw, Bool.not_false, if_true, Option.isSome_none, Bool.false_eq_true,
      false_iff]
    exact fun h => absurd h.wrap (by simp [hw])
  | true =>
    simp only [nvmCmdWrapSetup, hw, Bool.not_true, Bool.false_eq_true, if_false]
    by_cases ho : req.opcode = .scalarErase
    · have hdst : req.dst = none := Req.dst_eq_none (by simp [ho])
      rw [if_pos ho]
      constructor
      · intro h
        refine ⟨hw, fun _ => ?_, by simp [ho], by simp [ho], by simp [ho, nvmCmdIsScalar], by simp [hdst]⟩
        by_contra hd
        simp [wrapDsm, hd] at h
      · intro h
        simp [wrapDsm, h.dsmr ho]
    · have hrest : ∀ w, ((cmdWrapSetupSgl w req.data req.md req.flags).bind (wrapAddrs dev m req)).isSome ↔
          (flagSgl req.flags = true → req.data.isSome ∧ (flagSglMeta req.flags = true → req.md.isSome)) ∧
          (nvmCmdIsScalar req.opcode = false → 1 < req.naddrs → m.addrs.isSome) ∧
          (req.dst.isSome → 1 < req.naddrs → m.dst.isSome) := fun w => by
        rw [isSome_bind_iff (wrapAddrs_isSome m req), cmdWrapSetupSgl_isSome]
      rw [if_neg ho, isSome_bind_iff hrest, wrapEraseMeta_isSome]
      constructor
      · rintro ⟨hmeta, hsgl, haddrs, hdst⟩
        exact ⟨hw, fun h => absurd h ho, hmeta, fun _ => hsgl, haddrs, hdst⟩
      · intro h
        exact ⟨h.eraseMeta, h.sgl ho, h.addrs, h.dst⟩

/-! The count fields. -/

theorem setWidth_dsm (x : BitVec 8) : (x.setWidth 64 ||| 1 <<< 34 : BitVec 64).setWidth 8 = x := by
  rw [BitVec.setWidth_or, BitVec.setWidth_setWidth_of_le _ (by decide), BitVec.setWidth_eq]
  exact BitVec.or_zero

theorem setWidth_s12 (x f : BitVec 16) :
    (x.setWidth 32 ||| f.setWidth 32 <<< 16 : BitVec 32).setWidth 16 = x := by
  have hhigh : (f.setWidth 32 <<< 16 : BitVec 32).setWidth 16 = 0 := by
    apply BitVec.eq_of_getLsbD_eq
    intro i hi
    simp [hi]
  rw [BitVec.setWidth_or, hhigh, BitVec.setWidth_setWidth_of_le _ (by decide), BitVec.setWidth_eq]
  exact BitVec.or_zero

theorem count_wrapCount {req : Req dev} (ho : req.opcode ≠ .scalarErase) {c : NvmeCmd}
    (hc : c.cdw12 = (wrapCount dev req (wrapInit dev req)).cmd.cdw12) :
    dev.count req.opcode c = (req.naddrs - 1) % dev.cap req.opcode := by
  cases hv : dev.verid with
  | s12 =>
    have hc' : c.cdw12.setWidth 16 = BitVec.ofNat 16 (req.naddrs - 1) := by
      rw [hc, wrapCount, hv]
      exact setWidth_s12 _ _
    cases hop : req.opcode <;>
      simp_all [CmdDev.count, CmdDev.cap, NvmeCmd.nvmeNaddrs, NvmeCmd.s12Naddrs]
  | s20 =>
    cases hop : req.opcode <;>
      simp_all [CmdDev.count, CmdDev.cap, NvmeCmd.nvmeNaddrs, NvmeCmd.s20Naddrs, wrapCount, nvmCmdIsScalar]

theorem sub_one_mod_add_one {n k : Nat} (hn : 0 < n) (hk : 0 < k) : (n - 1) % k + 1 = n ↔ n ≤ k := by
  have hlt := Nat.mod_lt (n - 1) hk
  constructor
  · intro h
    omega
  · intro h
    rw [Nat.mod_eq_of_lt (by omega)]
    omega

theorem CmdDev.cap_pos (dev : CmdDev α) (opcode : Dopc) : 0 < dev.cap opcode := by
  unfold CmdDev.cap
  split <;> decide

structure Encoded (req : Req dev) (w : Wrap) : Prop where
  opcode : w.cmd.opcode = req.opcode.code
  count : dev.count req.opcode w.cmd = (req.naddrs - 1) % dev.cap req.opcode
  ranges : req.opcode = .scalarErase → w.dsmrDma = some ((List.range req.naddrs).map fun i =>
    ⟨0, BitVec.ofNat 32 dev.nsectr, dev.fmt.gen2dev (req.addrs i)⟩)
  src : req.opcode ≠ .scalarErase → (∀ l ∈ w.addrsDma, l.phys = w.cmd.addrs) ∧
    listed w.cmd.addrs w.addrsDma = (givenAddrs req.opcode req.naddrs req.addrs).map dev.fmt.gen2dev
  dst : ∀ d ∈ req.dst, (∀ l ∈ w.dstDma, l.phys = w.cmd.addrsDst) ∧
    listed w.cmd.addrsDst w.dstDma = (givenAddrs req.opcode req.naddrs d).map dev.fmt.gen2dev

theorem givenAddrs_list {opcode : Dopc} (hs : nvmCmdIsScalar opcode = false ∨ opcode = .scalarErase)
    (naddrs : Nat) (addrs : Nat → α) : givenAddrs opcode naddrs addrs = (List.range naddrs).map addrs := by
  cases opcode <;> simp_all [givenAddrs, nvmCmdIsScalar]

theorem encoded_of_addrs {m : Allocs} {req : Req dev} {w w' : Wrap} (ho : req.opcode ≠ .scalarErase)
    (hopc : w.cmd.opcode = req.opcode.code)
    (hcdw : w.cmd.cdw12 = (wrapCount dev req (wrapInit dev req)).cmd.cdw12)
    (haddrs : w.addrsDma = none) (h : wrapAddrs dev m req w = some w') : Encoded req w' := by
  rw [wrapAddrs] at h
  split_ifs at h with hs
  · -- a scalar read or write has its start address in the entry itself
    have hnone : req.dst = none := Req.dst_eq_none (by rintro h; simp [h, nvmCmdIsScalar] at hs)
    have hgiven : givenAddrs req.opcode req.naddrs req.addrs = [req.addrs 0] := by
      cases hop : req.opcode <;> simp_all [givenAddrs, nvmCmdIsScalar]
    cases h
    refine ⟨hopc, count_wrapCount ho hcdw, fun h => absurd h ho, fun _ => ?_, by simp [hnone]⟩
    rw [hgiven]
    simp [haddrs, listed]
  · have hgiven : ∀ addrs : Nat → α, givenAddrs req.opcode req.naddrs addrs =
        (List.range req.naddrs).map addrs := givenAddrs_list (.inl (by simpa using hs)) req.naddrs
    obtain ⟨⟨word, dma⟩, hsrc, h⟩ := Option.bind_eq_some_iff.mp h
    have hsrc := wrapList_spec req.naddrs_pos hsrc
    cases hd : req.dst with
    | none =>
      rw [hd] at h
      cases h
      refine ⟨hopc, count_wrapCount ho hcdw, fun h => absurd h ho, fun _ => ?_, by simp [hd]⟩
      rw [hgiven, List.map_map]
      exact hsrc
    | some d =>
      rw [hd] at h
      obtain ⟨⟨word', dma'⟩, hdst', h⟩ := Option.bind_eq_some_iff.mp h
      have hdst' := wrapList_spec req.naddrs_pos hdst'
      cases h
      refine ⟨hopc, count_wrapCount ho hcdw, fun h => absurd h ho, fun _ => ?_, ?_⟩
      · rw [hgiven, List.map_map]
        exact hsrc
      · intro e he
        rw [hd] at he
        cases he
        rw [hgiven, List.map_map]
        exact hdst'

theorem encoded_of_setup {m : Allocs} {req : Req dev} {w : Wrap}
    (h : nvmCmdWrapSetup dev m req = some w) : Encoded req w := by
  simp only [nvmCmdWrapSetup] at h
  split_ifs at h with hw ho
  · -- a scalar erase
    have hdst : req.dst = none := Req.dst_eq_none (by simp [ho])
    rw [wrapDsm] at h
    split_ifs at h
    cases h
    refine ⟨rfl, ?_, fun _ => rfl, fun hne => absurd ho hne, by simp [hdst]⟩
    rw [ho]
    simp only [CmdDev.count, CmdDev.cap, NvmeCmd.dsmNr, setWidth_dsm, BitVec.toNat_ofNat]
  · obtain ⟨w₁, hmeta, h⟩ := Option.bind_eq_some_iff.mp h
    obtain ⟨w₂, hsgl, h⟩ := Option.bind_eq_some_iff.mp h
    have hentry : w₂.entry = (wrapCount dev req (wrapInit dev req)).entry :=
      (cmdWrapSetupSgl_entry hsgl).trans (wrapEraseMeta_entry hmeta)
    have hkeep : (wrapCount dev req (wrapInit dev req)).entry = (req.opcode.code, 0,
        (wrapCount dev req (wrapInit dev req)).cmd.cdw12, 0, none, none, none) := by
      rw [wrapCount]
      cases dev.verid <;> rfl
    rw [hkeep] at hentry
    simp only [Wrap.entry, Prod.mk.injEq] at hentry
    obtain ⟨hopc, -, hcdw, -, -, haddrs, -⟩ := hentry
    exact encoded_of_addrs ho hopc hcdw haddrs h

section

variable (hl : ∀ a, dev.fmt.check a = 0 → dev.fmt.dev2gen (dev.fmt.gen2dev a) = a)

include hl

theorem map_dev2gen_gen2dev {as : List α} (has : ∀ a ∈ as, dev.fmt.check a = 0) :
    (as.map dev.fmt.gen2dev).map dev.fmt.dev2gen = as := by
  rw [List.map_map]
  conv_rhs => rw [← List.map_id as]
  exact List.map_congr_left fun a ha => hl a (has a ha)

theorem faithful_iff_of_encoded {req : Req dev} {w : Wrap} (he : Encoded req w) :
    Faithful req w ↔ req.naddrs ≤ dev.cap req.opcode := by
  rw [← sub_one_mod_add_one req.naddrs_pos (dev.cap_pos req.opcode), ← he.count]
  refine ⟨fun h => h.count, fun h => ⟨h, fun ho => ?_, fun ho => ?_, fun d hd => ?_⟩⟩
  · refine ⟨_, he.ranges ho, ?_, fun r hr => ?_⟩
    · have hgiven := givenAddrs_list (.inr ho) req.naddrs req.addrs
      have hmap := map_dev2gen_gen2dev hl req.accepted
      rw [hgiven, List.map_map, List.map_map] at hmap
      rw [hgiven, List.map_map]
      exact hmap
    · obtain ⟨i, -, rfl⟩ := List.mem_map.mp hr
      rw [BitVec.toNat_ofNat, Nat.mod_eq_of_lt dev.nsectr_lt]
  · rw [(he.src ho).2, map_dev2gen_gen2dev hl req.accepted]
    exact ⟨(he.src ho).1, rfl⟩
  · rw [(he.dst d hd).2, map_dev2gen_gen2dev hl (req.accepted_dst d hd)]
    exact ⟨(he.dst d hd).1, rfl⟩

end

theorem Dopc.code_inj {a b : Dopc} (h : a.code = b.code) : a = b := by
  cases a <;> cases b <;> first | rfl | exact absurd h (by decide)

theorem Faithful.same {r r' : Req dev} {w w' : Wrap} (h : Faithful r w) (h' : Faithful r' w')
    (hopc : r.opcode = r'.opcode) (hcmd : w.cmd = w'.cmd) (hdsm : w.dsmrDma = w'.dsmrDma)
    (haddrs : w.addrsDma = w'.addrsDma) (hdst : w.dstDma = w'.dstDma) : r.Same r' := by
  refine ⟨hopc, ?_, ?_, ?_⟩
  · rw [← h.count, ← h'.count, hopc, hcmd]
  · by_cases ho : r.opcode = .scalarErase
    · obtain ⟨rs, hrs, hmap, -⟩ := h.ranges ho
      obtain ⟨rs', hrs', hmap', -⟩ := h'.ranges (hopc ▸ ho)
      obtain rfl : rs = rs' := by rw [← Option.some_inj, ← hrs, ← hrs', hdsm]
      exact hmap.symm.trans hmap'
    · rw [← (h.src ho).2, ← (h'.src (hopc ▸ ho)).2, hcmd, haddrs]
  · cases hd : r.dst with
    | none =>
      have ho : r'.opcode ≠ .vectorCopy := by
        rw [← hopc, Ne, ← r.dst_isSome]
        simp [hd]
      rw [Req.dst_eq_none ho]
      rfl
    | some d =>
      have ho : r'.opcode = .vectorCopy := by
        rw [← hopc, ← r.dst_isSome]
        simp [hd]
      obtain ⟨d', hd'⟩ := Option.isSome_iff_exists.mp (r'.dst_isSome.mpr ho)
      rw [hd', Option.map_some, Option.map_some, ← (h.dst d hd).2, ← (h'.dst d' hd').2, hcmd, hdst]

end

/-- When an entry says what its request says: when the number of addresses fits the count field.
Requests for which it does are told apart by their entries and lists. -/
theorem cmd_wrap_faithful_iff {α : Type} (dev : CmdDev α)
    (hl : ∀ a, dev.fmt.check a = 0 → dev.fmt.dev2gen (dev.fmt.gen2dev a) = a) :
    (∀ (req : Req dev) (m : Allocs),
      (∀ w, nvmCmdWrapSetup dev m req = some w → Faithful req w) ↔
        (req.naddrs ≤ dev.cap req.opcode ∨ ¬ req.Provided m)) ∧
    (∀ (r r' : Req dev) (m m' : Allocs) (w w' : Wrap), r.naddrs ≤ dev.cap r.opcode →
      r'.naddrs ≤ dev.cap r'.opcode → nvmCmdWrapSetup dev m r = some w →
      nvmCmdWrapSetup dev m' r' = some w' → w.cmd = w'.cmd → w.dsmrDma = w'.dsmrDma →
      w.addrsDma = w'.addrsDma → w.dstDma = w'.dstDma → r.Same r') := by
  constructor
  · intro req m
    constructor
    · intro h
      by_cases hp : req.Provided m
      · obtain ⟨w, hw⟩ := Option.isSome_iff_exists.mp ((nvmCmdWrapSetup_isSome m req).mpr hp)
        exact .inl ((faithful_iff_of_encoded hl (encoded_of_setup hw)).mp (h w hw))
      · exact .inr hp
    · rintro (hn | hp) w hw
      · exact (faithful_iff_of_encoded hl (encoded_of_setup hw)).mpr hn
      · exact absurd ((nvmCmdWrapSetup_isSome m req).mp (by simp [hw])) hp
  · intro r r' m m' w w' hn hn' hw hw' hcmd hdsm haddrs hdst
    have he := encoded_of_setup hw
    have he' := encoded_of_setup hw'
    have hopc : r.opcode = r'.opcode := Dopc.code_inj (by rw [← he.opcode, ← he'.opcode, hcmd])
    exact ((faithful_iff_of_encoded hl he).mpr hn).same ((faithful_iff_of_encoded hl he').mpr hn') hopc hcmd
      hdsm haddrs hdst

def oneChunkDev : DevL where
  geo := { tinyGeoL with npunit := 1, nsectr := 128, nsectr_lt := by decide }
  lbaf := ⟨0, 0, 0, 7⟩
  lbam := ⟨bitMask 7 0, bitMask 7 0, bitMask 7 0, bitMask 0 7⟩
  ssw := 9

def writeReq (n : Nat) (hpos : 0 < n) (hn : n ≤ 128) : Req (oneChunkDev.cmdDev 1) where
  opcode := .vectorWrite
  data := some ⟨none, ⟨0, ⟨0, 0, 0, 0⟩, 0, 0⟩⟩
  md := none
  addrs := fun i => ⟨0, 0, 0, BitVec.ofNat 32 i⟩
  dst := none
  naddrs := n
  flags := 0
  naddrs_pos := hpos
  naddrs_lt := by omega
  dst_isSome := by simp
  accepted := by
    intro a ha
    obtain ⟨i, hi, rfl⟩ := List.mem_map.mp ha
    have hi := List.mem_range.mp hi
    exact nvmAddrCheckL_eq_zero.mpr ⟨Nat.one_pos, Nat.one_pos, Nat.one_pos,
      (Nat.mod_le _ _).trans_lt (show i < 128 by omega)⟩
  accepted_dst := by simp

def physAllocs : Allocs := ⟨true, true, some 0x1000, some 0x2000⟩

theorem cmd_wrap_faithful_two_sectors :
    ∃ w, nvmCmdWrapSetup (oneChunkDev.cmdDev 1) physAllocs (writeReq 2 (by decide) (by decide)) = some w ∧
      Faithful (writeReq 2 (by decide) (by decide)) w := by
  have hl : oneChunkDev.fmt.Lossless :=
    (DevL.lossless_iff rfl (by decide) ⟨by decide, by decide, by decide, by decide, by decide⟩).mpr
      (.inl (by decide))
  have h := (cmd_wrap_faithful_iff (oneChunkDev.cmdDev 1) hl.dev2gen_gen2dev).1
    (writeReq 2 (by decide) (by decide)) physAllocs
  exact ⟨_, rfl, h.mpr (.inl (by decide)) _ rfl⟩

/-- The count of 65 addresses is written as the count of one. -/
theorem vector_count_truncated :
    ∃ w, nvmCmdWrapSetup (oneChunkDev.cmdDev 1) physAllocs (writeReq 65 (by decide) (by decide)) = some w ∧
      w.cmd.s20Naddrs = 0 ∧ ¬ Faithful (writeReq 65 (by decide) (by decide)) w := by
  refine ⟨_, rfl, by decide, fun h => ?_⟩
  exact absurd h.count (by decide)

end LightNvm
