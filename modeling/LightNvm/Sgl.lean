import Mathlib.Algebra.Group.Action.Defs
import Mathlib.Algebra.Order.BigOperators.Group.List
import LightNvm.CmdWrap
import LightNvm.Runs

/-! Scatter-gather lists: how `nvm_sgl_add` fills the array of descriptors over the life of a list,
and what a controller reads from the entry that `cmd_wrap_setup_sgl` builds. -/

namespace LightNvm

/-- DMA memory that holds descriptors of 16 bytes, one after the other. -/
structure SglBuf where
  phys : BitVec 64
  slots : List SglDescr
  deriving DecidableEq

/-- `struct nvm_sgl`, with the buffers that it points to. -/
structure SglObj where
  descriptors : SglBuf
  indirect : SglBuf
  ndescr : Nat
  nalloc : Nat
  len : Nat
  deriving DecidableEq

def SglDescr.zero : SglDescr := ⟨0, 0, 0, 0⟩

/-- The memory that was there is kept and the rest is zeroed; `phys` is where it lies afterwards. -/
def SglBuf.realloc (b : SglBuf) (phys : BitVec 64) (n : Nat) : SglBuf :=
  ⟨phys, b.slots.take n ++ List.replicate (n - b.slots.length) .zero⟩

def nvmSglCreate (hint : Nat) (phys indirect : BitVec 64) : SglObj :=
  ⟨⟨phys, List.replicate hint .zero⟩, ⟨indirect, [.zero]⟩, 0, hint, 0⟩

def nvmSglReset (s : SglObj) : SglObj := { s with ndescr := 0, len := 0 }

/-- The growth of the array in `nvm_sgl_add`. -/
def SglObj.grow (s : SglObj) (moved : BitVec 64) : SglObj :=
  if s.ndescr = s.nalloc then
    let nalloc := if s.nalloc = 0 then 1 else 2 * s.nalloc
    { s with nalloc := nalloc, descriptors := s.descriptors.realloc moved nalloc }
  else s

def SglObj.modifyDescr (s : SglObj) (f : SglDescr → SglDescr) : SglObj :=
  { s with descriptors := { s.descriptors with slots := s.descriptors.slots.modify s.ndescr f } }

/-- `nvm_sgl_add`, with what `nvm_buf_vtophys` answers for the buffer and the place to which the
array moves when it has to grow. -/
def nvmSglAdd (s : SglObj) (phys : Except Errno (BitVec 64)) (len : Nat) (moved : BitVec 64) :
    SglObj × Except Errno Unit :=
  if s.ndescr = 256 then (s, .error .einval)
  else
    let s := (s.grow moved).modifyDescr fun d => { d with type := 0x0, len := BitVec.ofNat 32 len }
    match phys with
    | .error err => (s, .error err)
    | .ok phys =>
      let s := s.modifyDescr fun d => { d with addr := phys }
      ({ s with len := (s.len + len) % 2 ^ 64, ndescr := s.ndescr + 1 }, .ok ())

/-! Histories: the lists there are, the pool, and the pairs added to each of them. -/

inductive SglOp where
  | create (hint : Nat) (phys indirect : BitVec 64)
  | alloc (phys indirect : BitVec 64)
  | add (i : Nat) (phys : Except Errno (BitVec 64)) (len : Nat) (moved : BitVec 64)
  | reset (i : Nat)
  | free (i : Nat)
  | submit (i : Nat)

structure SglHist where
  sgls : List SglObj
  pool : List Nat
  added : Nat → List (BitVec 64 × Nat)

def SglHist.init : SglHist := ⟨[], [], fun _ => []⟩

def SglHist.create (h : SglHist) (hint : Nat) (phys indirect : BitVec 64) : SglHist :=
  { h with sgls := h.sgls ++ [nvmSglCreate hint phys indirect] }

def nvmSglAlloc (h : SglHist) (phys indirect : BitVec 64) : SglHist :=
  match h.pool with
  | [] => h.create 1 phys indirect
  | _ :: pool => { h with pool := pool }

/-- Replaces a list and the pairs recorded for it. -/
def SglHist.update (h : SglHist) (i : Nat) (f : SglObj → SglObj × List (BitVec 64 × Nat)) : SglHist :=
  match h.sgls[i]? with
  | none => h
  | some s => { h with sgls := h.sgls.set i (f s).1, added := Function.update h.added i (f s).2 }

def SglHist.reset (h : SglHist) (i : Nat) : SglHist := h.update i fun s => (nvmSglReset s, [])

def nvmSglFree (h : SglHist) (i : Nat) : SglHist := { h.reset i with pool := i :: h.pool }

/-- What `cmd_wrap_setup_sgl` writes to the descriptor `indirect` of a list of metadata. -/
def SglObj.setupIndirect (s : SglObj) : SglObj :=
  if s.ndescr = 1 then s
  else { s with
    indirect := { s.indirect with
      slots := s.indirect.slots.map fun d =>
        { d with type := 0x3, len := BitVec.ofNat 32 (s.ndescr * 16), addr := s.descriptors.phys } } }

/-- Only adds that succeed are recorded, and a reset or a free forgets them. -/
def recordAdd (added : List (BitVec 64 × Nat)) (phys : Except Errno (BitVec 64)) (len : Nat) :
    Except Errno Unit → List (BitVec 64 × Nat)
  | .ok _ => added ++ (phys.toOption.map fun p => (p, len)).toList
  | .error _ => added

/-- `submit` is a command that has the list as its metadata. -/
def SglHist.step (h : SglHist) : SglOp → SglHist
  | .create hint phys indirect => h.create hint phys indirect
  | .alloc phys indirect => nvmSglAlloc h phys indirect
  | .add i phys len moved => h.update i fun s =>
      let r := nvmSglAdd s phys len moved
      (r.1, recordAdd (h.added i) phys len r.2)
  | .reset i => h.reset i
  | .free i => nvmSglFree h i
  | .submit i => h.update i fun s => (s.setupIndirect, h.added i)

def SglOp.Fits : SglOp → Prop
  | .add _ _ len _ => len < 2 ^ 32
  | _ => True

/-! What the controller reads. -/

def SglBuf.holds (b : SglBuf) (p : Nat) : Bool :=
  b.phys.toNat ≤ p && p < b.phys.toNat + 16 * b.slots.length

/-- The descriptor at a physical address. -/
def readDescr (dma : List SglBuf) (p : Nat) : Option SglDescr :=
  (dma.find? fun b => b.holds p).bind fun b =>
    if (p - b.phys.toNat) % 16 = 0 then b.slots[(p - b.phys.toNat) / 16]? else none

def SglDescr.block (d : SglDescr) : Option (BitVec 64 × Nat) :=
  if d.type = 0x0 ∧ d.subtype = 0x0 then some (d.addr, d.len.toNat) else none

/-- The data blocks of a last segment. -/
def readSegment (dma : List SglBuf) (p : Nat) : Nat → Option (List (BitVec 64 × Nat))
  | 0 => some []
  | n + 1 =>
    (readDescr dma p).bind fun d => d.block.bind fun b =>
      (readSegment dma (p + 16) n).map (b :: ·)

def readSgl (dma : List SglBuf) (d : SglDescr) : Option (List (BitVec 64 × Nat)) :=
  if d.type = 0x3 ∧ d.subtype = 0x0 ∧ d.len.toNat % 16 = 0 then
    readSegment dma d.addr.toNat (d.len.toNat / 16)
  else d.block.map ([·])

def NvmeCmd.readData (c : NvmeCmd) (dma : List SglBuf) : Option (List (BitVec 64 × Nat)) :=
  if c.psdt = 0x0 then none else readSgl dma c.dptr

def NvmeCmd.readMeta (c : NvmeCmd) (dma : List SglBuf) : Option (List (BitVec 64 × Nat)) :=
  if c.psdt = 0x2 then (readDescr dma c.mptr.toNat).bind (readSgl dma) else none

/-! The entry. -/

def SglObj.payload (s : SglObj) : Payload :=
  ⟨none, ⟨s.ndescr, s.descriptors.slots.headD .zero, s.descriptors.phys, s.indirect.phys⟩⟩

def dmaOf (sgls : List SglObj) : List SglBuf := sgls.flatMap fun s => [s.descriptors, s.indirect]

/-- `cmd_wrap_setup_sgl` for the lists `i` and `j`. -/
def SglHist.setup (h : SglHist) (w : Wrap) (i j : Nat) (flags : BitVec 16) : Option Wrap :=
  cmdWrapSetupSgl w (h.sgls[i]?.map SglObj.payload) (h.sgls[j]?.map SglObj.payload) flags

/-- The memory that the controller then finds. -/
def SglHist.dma (h : SglHist) (j : Nat) (flags : BitVec 16) : List SglBuf :=
  dmaOf (if flagSgl flags && flagSglMeta flags then h.step (.submit j) else h).sgls

/-- Two buffers that are in use at once do not overlap. -/
def SglBuf.Apart (a b : SglBuf) : Prop :=
  a.phys.toNat + 16 * a.slots.length ≤ b.phys.toNat ∨ b.phys.toNat + 16 * b.slots.length ≤ a.phys.toNat

instance : DecidableRel SglBuf.Apart := fun _ _ => inferInstanceAs (Decidable (_ ∨ _))

instance : Std.Symm SglBuf.Apart := ⟨fun _ _ h => h.symm⟩

/-! The invariant of a list. -/

def blockDescr (pair : BitVec 64 × Nat) : SglDescr := ⟨pair.1, BitVec.ofNat 32 pair.2, 0x0, 0x0⟩

/-- The list holds the pairs that were added; what lies behind them in the array may be stale, but
for the subtype, which is never written. -/
structure SglObj.Holds (s : SglObj) (added : List (BitVec 64 × Nat)) : Prop where
  count : s.ndescr = added.length
  le : s.ndescr ≤ 256
  room : s.ndescr ≤ s.nalloc
  size : s.descriptors.slots.length = s.nalloc
  subtype : ∀ d ∈ s.descriptors.slots, d.subtype = 0x0
  slots : s.descriptors.slots.take s.ndescr = added.map blockDescr
  len : s.len = (added.map Prod.snd).sum
  fits : ∀ pair ∈ added, pair.2 < 2 ^ 32
  indirect : ∃ d, s.indirect.slots = [d] ∧ d.subtype = 0x0

section

variable {s : SglObj} {added : List (BitVec 64 × Nat)}

theorem holds_create (hint : Nat) (phys indirect : BitVec 64) :
    (nvmSglCreate hint phys indirect).Holds [] where
  count := rfl
  le := Nat.zero_le _
  room := Nat.zero_le _
  size := List.length_replicate
  subtype d hd := by rw [List.eq_of_mem_replicate hd]; rfl
  slots := rfl
  len := rfl
  fits := nofun
  indirect := ⟨_, rfl, rfl⟩

theorem SglObj.Holds.reset (h : s.Holds added) : (nvmSglReset s).Holds [] where
  count := rfl
  le := Nat.zero_le _
  room := Nat.zero_le _
  size := h.size
  subtype := h.subtype
  slots := rfl
  len := rfl
  fits := nofun
  indirect := h.indirect

theorem SglObj.Holds.setupIndirect (h : s.Holds added) : s.setupIndirect.Holds added := by
  obtain ⟨d, hd, hsub⟩ := h.indirect
  rw [SglObj.setupIndirect]
  split_ifs
  · exact h
  · exact ⟨h.count, h.le, h.room, h.size, h.subtype, h.slots, h.len, h.fits,
      ⟨_, congrArg (List.map _) hd, hsub⟩⟩

theorem SglObj.Holds.grow (h : s.Holds added) (moved : BitVec 64) :
    (s.grow moved).Holds added ∧ (s.grow moved).ndescr < (s.grow moved).nalloc := by
  have hroom := h.room
  have hsize := h.size
  rw [SglObj.grow]
  by_cases hfull : s.ndescr = s.nalloc
  · rw [if_pos hfull]
    have hlt : s.nalloc < if s.nalloc = 0 then 1 else 2 * s.nalloc := by split_ifs <;> omega
    dsimp only
    generalize (if s.nalloc = 0 then 1 else 2 * s.nalloc) = n at hlt
    have htake : s.descriptors.slots.take n = s.descriptors.slots :=
      List.take_of_length_le (by omega)
    refine ⟨⟨h.count, h.le, ?_, ?_, ?_, ?_, h.len, h.fits, h.indirect⟩, ?_⟩
    · dsimp only
      omega
    · simp only [SglBuf.realloc, htake, List.length_append, List.length_replicate]
      omega
    · simp only [SglBuf.realloc, htake]
      intro d hd
      rcases List.mem_append.mp hd with hd | hd
      · exact h.subtype d hd
      · rw [List.eq_of_mem_replicate hd]
        rfl
    · simp only [SglBuf.realloc, htake]
      rw [List.take_append_of_le_length (by omega)]
      exact h.slots
    · omega
  · rw [if_neg hfull]
    exact ⟨h, by omega⟩

theorem SglObj.Holds.modifyDescr (h : s.Holds added) {f : SglDescr → SglDescr}
    (hf : ∀ d, (f d).subtype = d.subtype) : (s.modifyDescr f).Holds added := by
  refine ⟨h.count, h.le, h.room, ?_, ?_, ?_, h.len, h.fits, h.indirect⟩
  · simpa only [SglObj.modifyDescr, List.length_modify] using h.size
  · intro d hd
    obtain ⟨j, hj⟩ := List.mem_iff_getElem?.mp hd
    simp only [SglObj.modifyDescr, List.getElem?_modify] at hj
    obtain ⟨e, he, rfl⟩ := Option.map_eq_some_iff.mp hj
    have hsub := h.subtype e (List.mem_of_getElem? he)
    split_ifs
    · rw [hf, hsub]
    · exact hsub
  · have hlen : (s.descriptors.slots.take s.ndescr).length ≤ s.ndescr := List.length_take_le _ _
    simp only [SglObj.modifyDescr]
    rw [List.take_modify, List.modify_eq_self hlen, h.slots]

theorem sum_add_lt {len : Nat} (hfits : ∀ pair ∈ added, pair.2 < 2 ^ 32) (hle : added.length ≤ 256)
    (hlen : len < 2 ^ 32) : (added.map Prod.snd).sum + len < 2 ^ 64 := by
  have hsum := List.sum_le_card_nsmul (added.map Prod.snd) (2 ^ 32) (by
    intro x hx
    obtain ⟨pair, hpair, rfl⟩ := List.mem_map.mp hx
    exact (hfits pair hpair).le)
  rw [List.length_map, smul_eq_mul] at hsum
  omega

/-- The descriptor behind the pairs is made one of them. -/
theorem SglObj.Holds.push (h : s.Holds added) {phys : BitVec 64} {len : Nat} (hlen : len < 2 ^ 32)
    (hlt : s.ndescr < 256) (hroom : s.ndescr < s.nalloc)
    (hslot : s.descriptors.slots[s.ndescr]? = some (blockDescr (phys, len))) :
    ({ s with len := (s.len + len) % 2 ^ 64, ndescr := s.ndescr + 1 } : SglObj).Holds
      (added ++ [(phys, len)]) := by
  refine ⟨?_, hlt, hroom, h.size, h.subtype, ?_, ?_, ?_, h.indirect⟩
  · rw [List.length_append, List.length_singleton, h.count]
  · simp only [List.take_add_one, h.slots, hslot, Option.toList_some, List.map_append, List.map_cons,
      List.map_nil]
  · have hle : added.length ≤ 256 := h.count ▸ h.le
    simp only [h.len, List.map_append, List.sum_append, List.map_cons, List.map_nil, List.sum_singleton]
    exact Nat.mod_eq_of_lt (sum_add_lt h.fits hle hlen)
  · intro pair hpair
    rcases List.mem_append.mp hpair with hpair | hpair
    · exact h.fits pair hpair
    · rw [List.mem_singleton.mp hpair]
      exact hlen

theorem SglObj.modifyDescr_getElem? (s : SglObj) (f : SglDescr → SglDescr) :
    (s.modifyDescr f).descriptors.slots[(s.modifyDescr f).ndescr]? =
      s.descriptors.slots[s.ndescr]?.map f :=
  List.getElem?_modify_eq f s.ndescr s.descriptors.slots

theorem nvmSglAdd_full (h : s.ndescr = 256) (phys : Except Errno (BitVec 64)) (len : Nat)
    (moved : BitVec 64) : nvmSglAdd s phys len moved = (s, .error .einval) := by
  rw [nvmSglAdd, if_pos h]

theorem SglObj.Holds.add_error (h : s.Holds added) (err : Errno) (len : Nat) (moved : BitVec 64) :
    (nvmSglAdd s (.error err) len moved).1.Holds added := by
  rw [nvmSglAdd]
  split_ifs
  · exact h
  · exact (h.grow moved).1.modifyDescr fun _ => rfl

theorem SglObj.Holds.add_ok (h : s.Holds added) (hne : s.ndescr ≠ 256) (phys : BitVec 64) {len : Nat}
    (hlen : len < 2 ^ 32) (moved : BitVec 64) :
    (nvmSglAdd s (.ok phys) len moved).1.Holds (added ++ [(phys, len)]) := by
  obtain ⟨hgrow, hroom⟩ := h.grow moved
  have hlt : (s.grow moved).ndescr < 256 := by
    have hle := h.le
    rw [hgrow.count, ← h.count]
    omega
  obtain ⟨d, hd⟩ : ∃ d, (s.grow moved).descriptors.slots[(s.grow moved).ndescr]? = some d := by
    rw [← hgrow.size] at hroom
    exact ⟨_, List.getElem?_eq_getElem hroom⟩
  have hsub := hgrow.subtype d (List.mem_of_getElem? hd)
  rw [nvmSglAdd, if_neg hne]
  dsimp only
  refine SglObj.Holds.push (SglObj.Holds.modifyDescr (hgrow.modifyDescr ?_) ?_) hlen hlt hroom ?_
  · exact fun _ => rfl
  · exact fun _ => rfl
  rw [SglObj.modifyDescr_getElem?, SglObj.modifyDescr_getElem?, hd, Option.map_some, Option.map_some,
    blockDescr, hsub]

end

/-! Histories. -/

/-- Every list holds what has been added to it, and nothing has been added to one not made yet. -/
structure SglHist.Ok (h : SglHist) : Prop where
  holds : ∀ (i : Nat) (s : SglObj), h.sgls[i]? = some s → s.Holds (h.added i)
  fresh : ∀ i, h.sgls.length ≤ i → h.added i = []

section

variable {h : SglHist}

theorem SglHist.Ok.create (hok : h.Ok) (hint : Nat) (phys indirect : BitVec 64) :
    (h.create hint phys indirect).Ok := by
  refine ⟨fun i s hs => ?_, fun i hi => ?_⟩
  · simp only [SglHist.create] at hs ⊢
    by_cases hi : i < h.sgls.length
    · rw [List.getElem?_append_left hi] at hs
      exact hok.holds i s hs
    · rw [List.getElem?_append_right (by omega)] at hs
      obtain rfl : s = nvmSglCreate hint phys indirect := List.mem_singleton.mp (List.mem_of_getElem? hs)
      rw [hok.fresh i (by omega)]
      exact holds_create hint phys indirect
  · refine hok.fresh i ?_
    simp only [SglHist.create, List.length_append] at hi
    omega

theorem SglHist.Ok.update (hok : h.Ok) (i : Nat) {f : SglObj → SglObj × List (BitVec 64 × Nat)}
    (hf : ∀ s, s.Holds (h.added i) → (f s).1.Holds (f s).2) : (h.update i f).Ok := by
  rw [SglHist.update]
  split
  · exact hok
  · next s hs =>
    have hi : i < h.sgls.length := (List.getElem?_eq_some_iff.mp hs).1
    refine ⟨fun j t ht => ?_, fun j hj => ?_⟩
    · dsimp only at ht ⊢
      by_cases hij : i = j
      · subst hij
        rw [List.getElem?_set_self hi] at ht
        obtain rfl := Option.some.inj ht
        rw [Function.update_self]
        exact hf s (hok.holds i s hs)
      · rw [List.getElem?_set_ne hij] at ht
        rw [Function.update_of_ne (Ne.symm hij)]
        exact hok.holds j t ht
    · simp only [List.length_set] at hj
      dsimp only
      rw [Function.update_of_ne (by omega)]
      exact hok.fresh j hj

theorem SglObj.Holds.add {s : SglObj} {added : List (BitVec 64 × Nat)} (h : s.Holds added)
    (phys : Except Errno (BitVec 64)) {len : Nat} (hlen : len < 2 ^ 32) (moved : BitVec 64) :
    (nvmSglAdd s phys len moved).1.Holds
      (recordAdd added phys len (nvmSglAdd s phys len moved).2) := by
  by_cases hfull : s.ndescr = 256
  · rw [nvmSglAdd_full hfull]
    exact h
  · cases phys with
    | error err =>
      have hres : (nvmSglAdd s (.error err) len moved).2 = .error err := by rw [nvmSglAdd, if_neg hfull]
      rw [hres]
      exact h.add_error err len moved
    | ok phys =>
      have hres : (nvmSglAdd s (.ok phys) len moved).2 = .ok () := by rw [nvmSglAdd, if_neg hfull]
      rw [hres]
      exact h.add_ok hfull phys hlen moved

theorem SglHist.Ok.setPool (hok : h.Ok) (pool : List Nat) : ({ h with pool := pool } : SglHist).Ok :=
  ⟨hok.holds, hok.fresh⟩

theorem SglHist.Ok.step (hok : h.Ok) (op : SglOp) (hop : op.Fits) : (h.step op).Ok := by
  cases op with
  | create hint phys indirect => exact hok.create hint phys indirect
  | alloc phys indirect =>
    rw [SglHist.step, nvmSglAlloc]
    split
    · exact hok.create 1 phys indirect
    · exact hok.setPool _
  | add i phys len moved => exact hok.update i fun s hs => hs.add phys hop moved
  | reset i => exact hok.update i fun s hs => hs.reset
  | free i => exact (hok.update i fun s hs => hs.reset).setPool _
  | submit i => exact hok.update i fun s hs => hs.setupIndirect

end

/-! Reading the lists back. -/

section

variable {dma : List SglBuf}

theorem SglBuf.Apart.not_holds {a b : SglBuf} (h : a.Apart b) {p : Nat} (ha : a.holds p = true) :
    b.holds p = false := by
  simp only [SglBuf.holds, Bool.and_eq_true, decide_eq_true_eq, Bool.and_eq_false_iff,
    decide_eq_false_iff_not] at ha ⊢
  rcases h with h | h <;> omega

theorem readDescr_slot (hdma : dma.Pairwise SglBuf.Apart) {b : SglBuf} (hb : b ∈ dma) {k : Nat}
    {d : SglDescr} (hk : b.slots[k]? = some d) : readDescr dma (b.phys.toNat + 16 * k) = some d := by
  have hlt : k < b.slots.length := (List.getElem?_eq_some_iff.mp hk).1
  have hholds : b.holds (b.phys.toNat + 16 * k) = true := by
    simp only [SglBuf.holds, Bool.and_eq_true, decide_eq_true_eq]
    omega
  have hfind : dma.find? (fun c => c.holds (b.phys.toNat + 16 * k)) = some b := by
    cases hf : dma.find? (fun c => c.holds (b.phys.toNat + 16 * k)) with
    | none => exact absurd hholds (List.find?_eq_none.mp hf b hb)
    | some c =>
      have hc : c.holds (b.phys.toNat + 16 * k) = true := by simpa using List.find?_some hf
      by_contra hne
      have hcb : b ≠ c := fun h => hne (by rw [h])
      have hapart := hdma.forall hb (List.mem_of_find?_eq_some hf) hcb
      rw [hapart.not_holds hholds] at hc
      cases hc
  rw [readDescr, hfind, Option.bind_some, if_pos (by omega)]
  rw [show (b.phys.toNat + 16 * k - b.phys.toNat) / 16 = k by omega, hk]

theorem blockDescr_block {pair : BitVec 64 × Nat} (h : pair.2 < 2 ^ 32) :
    (blockDescr pair).block = some pair := by
  rw [SglDescr.block, blockDescr, if_pos ⟨rfl, rfl⟩, BitVec.toNat_ofNat, Nat.mod_eq_of_lt h]

theorem readSegment_eq {added : List (BitVec 64 × Nat)} (hfits : ∀ pair ∈ added, pair.2 < 2 ^ 32) {p : Nat}
    (hread : ∀ k pair, added[k]? = some pair → readDescr dma (p + 16 * k) = some (blockDescr pair)) :
    readSegment dma p added.length = some added := by
  induction added generalizing p with
  | nil => rfl
  | cons pair added ih =>
    have hhead : readDescr dma p = some (blockDescr pair) := hread 0 pair rfl
    have htail : readSegment dma (p + 16) added.length = some added := by
      refine ih (fun q hq => hfits q (List.mem_cons_of_mem _ hq)) fun k q hq => ?_
      rw [show p + 16 + 16 * k = p + 16 * (k + 1) by omega]
      exact hread (k + 1) q hq
    rw [List.length_cons, readSegment, hhead, Option.bind_some, blockDescr_block (hfits pair (by simp)),
      Option.bind_some, htail, Option.map_some]

variable {s : SglObj} {added : List (BitVec 64 × Nat)}

theorem SglObj.Holds.slot (h : s.Holds added) {k : Nat} {pair : BitVec 64 × Nat} (hk : added[k]? = some pair) :
    s.descriptors.slots[k]? = some (blockDescr pair) := by
  have hlt : k < s.ndescr := by
    rw [h.count]
    exact (List.getElem?_eq_some_iff.mp hk).1
  rw [← List.getElem?_take_of_lt hlt, h.slots, List.getElem?_map, hk, Option.map_some]

/-- The last segment descriptor that points to the array. -/
def SglObj.segment (s : SglObj) : SglDescr :=
  ⟨s.descriptors.phys, BitVec.ofNat 32 (s.ndescr * 16), 0x0, 0x3⟩

theorem SglObj.Holds.readSgl_segment (h : s.Holds added) (hdma : dma.Pairwise SglBuf.Apart)
    (hmem : s.descriptors ∈ dma) : readSgl dma s.segment = some added := by
  have hle := h.le
  have hlen : s.segment.len.toNat = s.ndescr * 16 := by
    rw [SglObj.segment, BitVec.toNat_ofNat, Nat.mod_eq_of_lt (by omega)]
  rw [readSgl, if_pos ⟨rfl, rfl, by omega⟩, hlen, Nat.mul_div_cancel _ (by decide), h.count]
  exact readSegment_eq h.fits fun k pair hk => readDescr_slot hdma hmem (h.slot hk)

theorem readSgl_block {pair : BitVec 64 × Nat} (h : pair.2 < 2 ^ 32) :
    readSgl dma (blockDescr pair) = some [pair] := by
  rw [readSgl, if_neg (by simp [blockDescr]), blockDescr_block h, Option.map_some]

theorem SglObj.Holds.single (h : s.Holds added) (h1 : s.ndescr = 1) : ∃ pair, added = [pair] ∧
    pair.2 < 2 ^ 32 ∧ s.descriptors.slots[0]? = some (blockDescr pair) := by
  obtain ⟨pair, rfl⟩ := List.length_eq_one_iff.mp (h.count.symm.trans h1)
  exact ⟨pair, rfl, h.fits pair (by simp), h.slot rfl⟩

theorem SglObj.Holds.readSgl_dptr (h : s.Holds added) (hdma : dma.Pairwise SglBuf.Apart)
    (hmem : s.descriptors ∈ dma) :
    readSgl dma (if s.ndescr = 1 then s.descriptors.slots.headD .zero else s.segment) = some added := by
  split_ifs with h1
  · obtain ⟨pair, rfl, hlt, hslot⟩ := h.single h1
    have hhead : s.descriptors.slots.headD .zero = blockDescr pair := by
      rw [List.headD_eq_head?_getD, List.head?_eq_getElem?, hslot, Option.getD_some]
    rw [hhead, readSgl_block hlt]
  · exact h.readSgl_segment hdma hmem

theorem SglObj.Holds.readSgl_mptr (h : s.Holds added) (hdma : dma.Pairwise SglBuf.Apart)
    (hdescr : s.descriptors ∈ dma) (hind : s.setupIndirect.indirect ∈ dma) :
    (readDescr dma (if s.ndescr = 1 then s.descriptors.phys else s.indirect.phys).toNat).bind (readSgl dma) =
      some added := by
  split_ifs with h1
  · obtain ⟨pair, rfl, hlt, hslot⟩ := h.single h1
    have hread := readDescr_slot hdma hdescr hslot
    rw [Nat.mul_zero, Nat.add_zero] at hread
    rw [hread, Option.bind_some, readSgl_block hlt]
  · obtain ⟨d, hd, hsub⟩ := h.indirect
    have hslot : s.setupIndirect.indirect.slots[0]? = some s.segment := by
      rw [SglObj.setupIndirect, if_neg h1, SglObj.segment]
      simp only [hd, List.map_cons, hsub, List.getElem?_cons_zero]
    have hphys : s.setupIndirect.indirect.phys = s.indirect.phys := by
      rw [SglObj.setupIndirect, if_neg h1]
    have hread := readDescr_slot hdma hind hslot
    rw [Nat.mul_zero, Nat.add_zero, hphys] at hread
    rw [hread, Option.bind_some]
    exact h.readSgl_segment hdma hdescr

end

section

variable {h : SglHist}

theorem SglHist.Ok.exists_of_added (hok : h.Ok) {i : Nat} (hi : h.added i ≠ []) :
    ∃ s, h.sgls[i]? = some s ∧ s.Holds (h.added i) := by
  by_cases hlt : i < h.sgls.length
  · exact ⟨_, List.getElem?_eq_getElem hlt, hok.holds i _ (List.getElem?_eq_getElem hlt)⟩
  · exact absurd (hok.fresh i (by omega)) hi

theorem mem_dmaOf {sgls : List SglObj} {i : Nat} {s : SglObj} (h : sgls[i]? = some s) :
    s.descriptors ∈ dmaOf sgls ∧ s.indirect ∈ dmaOf sgls := by
  have hmem := List.mem_of_getElem? h
  exact ⟨List.mem_flatMap.mpr ⟨s, hmem, by simp⟩, List.mem_flatMap.mpr ⟨s, hmem, by simp⟩⟩

theorem SglObj.setupIndirect_descriptors (s : SglObj) : s.setupIndirect.descriptors = s.descriptors := by
  rw [SglObj.setupIndirect]
  split_ifs <;> rfl

theorem SglHist.submit_sgls {j : Nat} {t : SglObj} (ht : h.sgls[j]? = some t) :
    (h.step (.submit j)).sgls = h.sgls.set j t.setupIndirect := by
  rw [SglHist.step, SglHist.update, ht]

/-- The array of a list is where it was when the metadata of a command is set up. -/
theorem SglHist.descriptors_mem_submit {i j : Nat} {s t : SglObj} (hs : h.sgls[i]? = some s)
    (ht : h.sgls[j]? = some t) : s.descriptors ∈ dmaOf (h.step (.submit j)).sgls := by
  rw [submit_sgls ht]
  by_cases hij : j = i
  · subst hij
    obtain rfl : s = t := Option.some.inj (hs.symm.trans ht)
    have hj : j < h.sgls.length := (List.getElem?_eq_some_iff.mp ht).1
    rw [← SglObj.setupIndirect_descriptors]
    exact (mem_dmaOf (List.getElem?_set_self hj)).1
  · exact (mem_dmaOf (by rw [List.getElem?_set_ne hij, hs])).1

theorem SglHist.Ok.reads (hok : h.Ok) (w : Wrap) {i j : Nat} {flags : BitVec 16} (hsgl : flagSgl flags = true)
    (hi : h.added i ≠ []) (hj : flagSglMeta flags = true → h.added j ≠ [])
    (hdma : (h.dma j flags).Pairwise SglBuf.Apart) :
    ∃ w', h.setup w i j flags = some w' ∧ w'.cmd.readData (h.dma j flags) = some (h.added i) ∧
      (flagSglMeta flags = true → w'.cmd.readMeta (h.dma j flags) = some (h.added j)) := by
  obtain ⟨s, hs, hholds⟩ := hok.exists_of_added hi
  cases hm : flagSglMeta flags with
  | false =>
    have heq : h.dma j flags = dmaOf h.sgls := by simp [SglHist.dma, hm]
    rw [heq] at hdma ⊢
    refine ⟨_, by simp [SglHist.setup, cmdWrapSetupSgl, hsgl, hm, hs]; rfl, ?_, nofun⟩
    exact hholds.readSgl_dptr hdma (mem_dmaOf hs).1
  | true =>
    obtain ⟨t, ht, htholds⟩ := hok.exists_of_added (hj hm)
    have heq : h.dma j flags = dmaOf (h.step (.submit j)).sgls := by simp [SglHist.dma, hm, hsgl]
    have hjlt : j < h.sgls.length := (List.getElem?_eq_some_iff.mp ht).1
    have hind : t.setupIndirect.indirect ∈ dmaOf (h.step (.submit j)).sgls := by
      rw [submit_sgls ht]
      exact (mem_dmaOf (List.getElem?_set_self hjlt)).2
    rw [heq] at hdma ⊢
    refine ⟨_, by simp [SglHist.setup, cmdWrapSetupSgl, hsgl, hm, hs, ht]; rfl, ?_, fun _ => ?_⟩
    · exact hholds.readSgl_dptr hdma (descriptors_mem_submit hs ht)
    · exact htholds.readSgl_mptr hdma (descriptors_mem_submit ht ht) hind

end

/-- After every history a list has the pairs added to it since it was last reset or freed, a full list
refuses another, and the controller reads these pairs from the entry of a command. -/
theorem sgl_describes_added (ops : List SglOp) (hfits : ∀ op ∈ ops, op.Fits) :
    let h := Runs.run SglHist.step SglHist.init ops
    (∀ (i : Nat) (s : SglObj), h.sgls[i]? = some s →
      s.ndescr = (h.added i).length ∧ s.ndescr ≤ 256 ∧ s.len = ((h.added i).map Prod.snd).sum ∧
      ((h.added i).length = 256 →
        ∀ phys len moved, nvmSglAdd s phys len moved = (s, .error .einval))) ∧
    ∀ (w : Wrap) (i j : Nat) (flags : BitVec 16), flagSgl flags = true → h.added i ≠ [] →
      (flagSglMeta flags = true → h.added j ≠ []) → (h.dma j flags).Pairwise SglBuf.Apart →
      ∃ w', h.setup w i j flags = some w' ∧ w'.cmd.readData (h.dma j flags) = some (h.added i) ∧
        (flagSglMeta flags = true → w'.cmd.readMeta (h.dma j flags) = some (h.added j)) := by
  have hinit : SglHist.init.Ok := ⟨by simp [SglHist.init], fun _ _ => rfl⟩
  have hok : (Runs.run SglHist.step SglHist.init ops).Ok :=
    Runs.run_invariant (I := SglHist.Ok) (fun _ op hok hop => hok.step op hop) hinit
      (Runs.along_of_forall hfits _)
  refine ⟨fun i s hs => ?_, fun w i j flags hsgl hi hj hdma => hok.reads w hsgl hi hj hdma⟩
  have hholds := hok.holds i s hs
  refine ⟨hholds.count, hholds.le, hholds.len, fun hfull => ?_⟩
  exact nvmSglAdd_full (hholds.count.trans hfull)

theorem sgl_describes_added_recycled :
    let h := Runs.run SglHist.step SglHist.init
      [.create 0 0 0x100, .add 0 (.ok 0x5000) 4096 0x1000, .add 0 (.ok 0x6000) 4096 0x2000, .free 0,
        .alloc 0x1000 0x200, .alloc 0x1000 0x200, .add 0 (.ok 0x7000) 512 0, .add 1 (.ok 0x9000) 16 0,
        .add 1 (.ok 0xa000) 32 0x3000]
    let w : Wrap := ⟨⟨0x91, 1, 0, 0, ⟨0, 0, 0, 0⟩, 0, 0, 0⟩, 0, 0, none, none, none⟩
    ∃ w', h.setup w 0 1 0x600 = some w' ∧ w'.cmd.readData (h.dma 1 0x600) = some [(0x7000, 512)] ∧
      w'.cmd.readMeta (h.dma 1 0x600) = some [(0x9000, 16), (0xa000, 32)] := by
  intro h w
  have hfits : ∀ op ∈ ([.create 0 0 0x100, .add 0 (.ok 0x5000) 4096 0x1000,
      .add 0 (.ok 0x6000) 4096 0x2000, .free 0, .alloc 0x1000 0x200, .alloc 0x1000 0x200,
      .add 0 (.ok 0x7000) 512 0, .add 1 (.ok 0x9000) 16 0, .add 1 (.ok 0xa000) 32 0x3000] : List SglOp),
      op.Fits := by simp [SglOp.Fits]
  obtain ⟨w', hw, hdata, hmeta⟩ := (sgl_describes_added _ hfits).2 w 0 1 0x600 (by decide) (by decide)
    (by decide) (by decide)
  exact ⟨w', hw, hdata, hmeta (by decide)⟩

end LightNvm
