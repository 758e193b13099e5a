import LightNvm.ListRel
import LightNvm.Sgl

/-! What `nvm_sgl_add` leaves behind when it fails: the allocation of a larger array and the translation
of an address may fail over the whole life of a list. -/

namespace LightNvm

open ListRel

/-- `struct nvm_sgl` with the array that it points to, if there is one. -/
structure SglRaw where
  descriptors : Option SglBuf
  indirect : SglBuf
  ndescr : Nat
  nalloc : Nat
  len : Nat
  deriving DecidableEq

/-- `nvm_sgl_create`; `phys` is where the array lies that `nvm_buf_alloc` finds. -/
def sglCreate (hint : Nat) (phys : Except Errno (BitVec 64)) (indirect : BitVec 64) : Except Errno SglRaw :=
  if hint = 0 then .ok ⟨none, ⟨indirect, [.zero]⟩, 0, 0, 0⟩
  else phys.map fun p => ⟨some ⟨p, List.replicate hint .zero⟩, ⟨indirect, [.zero]⟩, 0, hint, 0⟩

def SglRaw.reset (s : SglRaw) : SglRaw := { s with ndescr := 0, len := 0 }

/-- The result of `nvm_buf_realloc` is stored before it is looked at. -/
def SglRaw.grow (s : SglRaw) (moved : Except Errno (BitVec 64)) : SglRaw :=
  let nalloc := if s.nalloc = 0 then 1 else 2 * s.nalloc
  { s with
    nalloc := nalloc
    descriptors := moved.toOption.map fun p => (s.descriptors.getD ⟨0, []⟩).realloc p nalloc }

def SglBuf.modify (b : SglBuf) (n : Nat) (f : SglDescr → SglDescr) : SglBuf :=
  { b with slots := b.slots.modify n f }

def setBlock (len : Nat) (d : SglDescr) : SglDescr := { d with type := 0x0, len := BitVec.ofNat 32 len }

def setAddr (phys : BitVec 64) (d : SglDescr) : SglDescr := { d with addr := phys }

/-- The part of `nvm_sgl_add` behind the growth. It follows the pointer to the array, also when there is
none: then it has no outcome. -/
def SglRaw.push (s : SglRaw) (phys : Except Errno (BitVec 64)) (len : Nat) :
    Option (SglRaw × Except Errno Unit) :=
  s.descriptors.map fun b =>
    let d := b.modify s.ndescr (setBlock len)
    match phys with
    | .error err => ({ s with descriptors := some d }, .error err)
    | .ok phys => ({ s with
        descriptors := some (d.modify s.ndescr (setAddr phys))
        len := (s.len + len) % 2 ^ 64
        ndescr := s.ndescr + 1 }, .ok ())

def sglAdd (s : SglRaw) (phys : Except Errno (BitVec 64)) (len : Nat) (moved : Except Errno (BitVec 64)) :
    Option (SglRaw × Except Errno Unit) :=
  if s.ndescr = 256 then some (s, .error .einval)
  else if s.ndescr = s.nalloc then
    match moved with
    | .error err => some (s.grow moved, .error err)
    | .ok _ => (s.grow moved).push phys len
  else s.push phys len

/-! Histories. -/

inductive SglRawOp where
  | create (hint : Nat) (phys : Except Errno (BitVec 64)) (indirect : BitVec 64)
  | alloc (phys : Except Errno (BitVec 64)) (indirect : BitVec 64)
  | add (i : Nat) (phys : Except Errno (BitVec 64)) (len : Nat) (moved : Except Errno (BitVec 64))
  | reset (i : Nat)
  | free (i : Nat)
  | command (w : Wrap) (i j : Nat) (flags : BitVec 16)

inductive SglOut where
  | ret (r : Except Errno Unit)
  | entry (w : Wrap)

structure SglLists where
  sgls : List SglRaw
  pool : List Nat

def SglLists.init : SglLists := ⟨[], []⟩

def SglLists.create (h : SglLists) (hint : Nat) (phys : Except Errno (BitVec 64)) (indirect : BitVec 64) :
    SglLists × SglOut :=
  match sglCreate hint phys indirect with
  | .error err => (h, .ret (.error err))
  | .ok s => ({ h with sgls := h.sgls ++ [s] }, .ret (.ok ()))

def SglRaw.payload (s : SglRaw) : Option Payload :=
  s.descriptors.map fun b => ⟨none, ⟨s.ndescr, b.slots.headD .zero, b.phys, s.indirect.phys⟩⟩

def SglRaw.setupIndirect (s : SglRaw) : SglRaw :=
  if s.ndescr = 1 then s
  else { s with
    indirect := { s.indirect with
      slots := s.indirect.slots.map fun d =>
        { d with
          type := 0x3
          len := BitVec.ofNat 32 (s.ndescr * 16)
          addr := (s.descriptors.map SglBuf.phys).getD 0 } } }

/-- `cmd_wrap_setup_sgl` for the lists `i` and `j`; there is no entry without the arrays. -/
def SglLists.setup (h : SglLists) (w : Wrap) (i j : Nat) (flags : BitVec 16) : Option Wrap :=
  cmdWrapSetupSgl w (h.sgls[i]?.bind SglRaw.payload) (h.sgls[j]?.bind SglRaw.payload) flags

/-- An operation on the lists that there are; it has no outcome when a null pointer is followed. -/
def SglLists.apply (h : SglLists) : SglRawOp → Option (SglLists × SglOut)
  | .create hint phys indirect => some (h.create hint phys indirect)
  | .alloc phys indirect => some (match h.pool with
      | [] => h.create 1 phys indirect
      | _ :: pool => ({ h with pool := pool }, .ret (.ok ())))
  | .add i phys len moved => match h.sgls[i]? with
      | none => some (h, .ret (.ok ()))
      | some s => (sglAdd s phys len moved).map fun r =>
          ({ h with sgls := h.sgls.set i r.1 }, .ret r.2)
  | .reset i => some ({ h with sgls := h.sgls.modify i SglRaw.reset }, .ret (.ok ()))
  | .free i => some (⟨h.sgls.modify i SglRaw.reset, i :: h.pool⟩, .ret (.ok ()))
  | .command w i j flags => (h.setup w i j flags).map fun w =>
      (if flagSgl flags && flagSglMeta flags then { h with sgls := h.sgls.modify j SglRaw.setupIndirect }
        else h, .entry w)

def SglLists.step (h : Option SglLists) (op : SglRawOp) : Option SglLists :=
  (h.bind fun h => h.apply op).map Prod.fst

def SglLists.outs : Option SglLists → List SglRawOp → List (Option SglOut)
  | _, [] => []
  | h, op :: ops => (h.bind fun h => h.apply op).map Prod.snd :: outs (step h op) ops

/-! What a failed add must leave. -/

/-- The same memory, up to what lies behind the first `n` descriptors. There too the subtype, which
nothing writes, is the same. -/
structure SglBuf.Same (n : Nat) (b c : SglBuf) : Prop where
  phys : b.phys = c.phys
  front : b.slots.take n = c.slots.take n
  subtype : b.slots.map SglDescr.subtype = c.slots.map SglDescr.subtype

structure SglRaw.Same (s t : SglRaw) : Prop where
  ndescr : s.ndescr = t.ndescr
  nalloc : s.nalloc = t.nalloc
  len : s.len = t.len
  indirect : s.indirect = t.indirect
  descriptors : Option.Rel (SglBuf.Same s.ndescr) s.descriptors t.descriptors

structure SglLists.Same (g h : SglLists) : Prop where
  sgls : List.Forall₂ SglRaw.Same g.sgls h.sgls
  pool : g.pool = h.pool

/-- An add that fails leaves the lists as they were, and whatever is done to them later goes as if it had
not been made. -/
def SglLists.FailureHarmless (h : Option SglLists) (op : SglRawOp) : Prop :=
  match h, op with
  | some h, .add i phys len moved => ∀ h' err, h.apply (.add i phys len moved) = some (h', .ret (.error err)) →
      h.Same h' ∧ ∀ more, outs (some h) more = outs (some h') more ∧
        Option.Rel Same (Runs.run step (some h) more) (Runs.run step (some h') more)
  | _, _ => True

/-- An add to a full array that has room to grow succeeds. -/
def SglLists.GrowthSucceeds (h : Option SglLists) (op : SglRawOp) : Prop :=
  match h, op with
  | some h, .add i phys _ moved => ∀ s, h.sgls[i]? = some s → s.ndescr = s.nalloc → s.ndescr ≠ 256 →
      (∃ p, moved = .ok p) ∧ ∃ p, phys = .ok p
  | _, _ => True

/-! The relation is kept. -/

section

variable {n : Nat} {b c : SglBuf}

theorem SglBuf.Same.refl (n : Nat) (b : SglBuf) : SglBuf.Same n b b := ⟨rfl, rfl, rfl⟩

theorem SglBuf.Same.symm (h : SglBuf.Same n b c) : SglBuf.Same n c b :=
  ⟨h.phys.symm, h.front.symm, h.subtype.symm⟩

theorem SglBuf.Same.trans {d : SglBuf} (h : SglBuf.Same n b c) (h' : SglBuf.Same n c d) : SglBuf.Same n b d :=
  ⟨h.phys.trans h'.phys, h.front.trans h'.front, h.subtype.trans h'.subtype⟩

theorem SglBuf.map_subtype_modify (b : SglBuf) (n : Nat) {f : SglDescr → SglDescr}
    (hf : ∀ d, (f d).subtype = d.subtype) :
    (b.modify n f).slots.map SglDescr.subtype = b.slots.map SglDescr.subtype := by
  refine List.ext_getElem? fun k => ?_
  simp only [SglBuf.modify, List.getElem?_map, List.getElem?_modify, Option.map_eq_map, Option.map_map]
  refine congrArg (fun g => Option.map g b.slots[k]?) (funext fun d => ?_)
  simp only [Function.comp_apply]
  split_ifs
  · exact hf d
  · rfl

theorem SglBuf.same_modify (b : SglBuf) (n : Nat) {f : SglDescr → SglDescr}
    (hf : ∀ d, (f d).subtype = d.subtype) : SglBuf.Same n b (b.modify n f) := by
  refine ⟨rfl, ?_, (b.map_subtype_modify n hf).symm⟩
  have hlen : (b.slots.take n).length ≤ n := List.length_take_le _ _
  rw [SglBuf.modify, List.take_modify, List.modify_eq_self hlen]

theorem SglBuf.Same.length (h : SglBuf.Same n b c) : b.slots.length = c.slots.length := by
  simpa using congrArg List.length h.subtype

theorem SglBuf.Same.realloc (h : SglBuf.Same n b c) {m : Nat} (hm : n ≤ m) (p : BitVec 64) :
    SglBuf.Same n (b.realloc p m) (c.realloc p m) := by
  have hlen := h.length
  refine ⟨rfl, ?_, ?_⟩
  · simp only [SglBuf.realloc, List.take_append, List.take_take, List.length_take, Nat.min_eq_left hm, h.front,
      hlen]
  · simp only [SglBuf.realloc, List.map_append, List.map_take, h.subtype, hlen]

theorem SglBuf.Same.push (h : SglBuf.Same n b c) (len : Nat) (p : BitVec 64) :
    SglBuf.Same (n + 1) ((b.modify n (setBlock len)).modify n (setAddr p))
      ((c.modify n (setBlock len)).modify n (setAddr p)) := by
  have hb : SglBuf.Same n b ((b.modify n (setBlock len)).modify n (setAddr p)) :=
    (b.same_modify n (f := setBlock len) fun _ => rfl).trans (SglBuf.same_modify _ n fun _ => rfl)
  have hc : SglBuf.Same n c ((c.modify n (setBlock len)).modify n (setAddr p)) :=
    (c.same_modify n (f := setBlock len) fun _ => rfl).trans (SglBuf.same_modify _ n fun _ => rfl)
  have hn := (hb.symm.trans h).trans hc
  refine ⟨hn.phys, ?_, hn.subtype⟩
  have hslot : b.slots[n]?.map SglDescr.subtype = c.slots[n]?.map SglDescr.subtype := by
    rw [← List.getElem?_map, ← List.getElem?_map, h.subtype]
  have hfilled : ∀ e : SglBuf, ((e.modify n (setBlock len)).modify n (setAddr p)).slots[n]? =
      (e.slots[n]?.map SglDescr.subtype).map fun sub => ⟨p, BitVec.ofNat 32 len, sub, 0x0⟩ := by
    intro e
    simp only [SglBuf.modify, List.getElem?_modify_eq, Option.map_eq_map, Option.map_map]
    rfl
  rw [List.take_add_one, List.take_add_one, hn.front, hfilled, hfilled, hslot]

end

section

variable {s t : SglRaw}

theorem SglRaw.Same.refl (s : SglRaw) : s.Same s := by
  refine ⟨rfl, rfl, rfl, rfl, ?_⟩
  cases s.descriptors with
  | none => exact .none
  | some b => exact .some (.refl _ b)

theorem SglRaw.Same.reset (h : s.Same t) : s.reset.Same t.reset := by
  refine ⟨rfl, h.nalloc, rfl, h.indirect, ?_⟩
  simp only [SglRaw.reset]
  obtain ⟨hs, ht⟩ | ⟨b, c, hs, ht, hbuf⟩ := optionRel_cases h.descriptors
  · rw [hs, ht]
    exact .none
  · rw [hs, ht]
    exact .some ⟨hbuf.phys, rfl, hbuf.subtype⟩

def SameOutcome {α β : Type} (R : α → α → Prop) (r r' : Option (α × β)) : Prop :=
  Option.Rel (fun x y => R x.1 y.1 ∧ x.2 = y.2) r r'

theorem SglRaw.Same.grow (h : s.Same t) (hfull : s.ndescr = s.nalloc) (moved : Except Errno (BitVec 64)) :
    (s.grow moved).Same (t.grow moved) := by
  refine ⟨h.ndescr, ?_, h.len, h.indirect, ?_⟩
  · simp only [SglRaw.grow, h.nalloc]
  · simp only [SglRaw.grow, ← h.nalloc]
    have hle : s.ndescr ≤ if s.nalloc = 0 then 1 else 2 * s.nalloc := by split_ifs <;> omega
    generalize (if s.nalloc = 0 then 1 else 2 * s.nalloc) = m at hle
    cases moved with
    | error err => exact .none
    | ok p =>
      have hold : SglBuf.Same s.ndescr (s.descriptors.getD ⟨0, []⟩) (t.descriptors.getD ⟨0, []⟩) := by
        obtain ⟨hs, ht⟩ | ⟨b, c, hs, ht, hbuf⟩ := optionRel_cases h.descriptors
        · rw [hs, ht]
          exact .refl _ _
        · rw [hs, ht]
          exact hbuf
      exact .some (hold.realloc hle p)

theorem SglRaw.Same.push (h : s.Same t) (phys : Except Errno (BitVec 64)) (len : Nat) :
    SameOutcome SglRaw.Same (s.push phys len) (t.push phys len) := by
  rw [SglRaw.push, SglRaw.push, ← h.ndescr, ← h.len]
  obtain ⟨hs, ht⟩ | ⟨b, c, hs, ht, hbuf⟩ := optionRel_cases h.descriptors
  · rw [hs, ht]
    exact .none
  · rw [hs, ht]
    cases phys with
    | error err =>
      refine .some ⟨⟨rfl, h.nalloc, rfl, h.indirect, .some ?_⟩, rfl⟩
      have hb := b.same_modify s.ndescr (f := setBlock len) fun _ => rfl
      have hc := c.same_modify s.ndescr (f := setBlock len) fun _ => rfl
      exact (hb.symm.trans hbuf).trans hc
    | ok p => exact .some ⟨⟨rfl, h.nalloc, rfl, h.indirect, .some (hbuf.push len p)⟩, rfl⟩

theorem SglRaw.Same.add (h : s.Same t) (phys : Except Errno (BitVec 64)) (len : Nat)
    (moved : Except Errno (BitVec 64)) :
    SameOutcome SglRaw.Same (sglAdd s phys len moved) (sglAdd t phys len moved) := by
  unfold sglAdd
  rw [← h.ndescr, ← h.nalloc]
  split_ifs with h256 hfull
  · exact .some ⟨h, rfl⟩
  · cases moved with
    | error err => exact .some ⟨h.grow hfull _, rfl⟩
    | ok p => exact (h.grow hfull _).push phys len
  · exact h.push phys len

end

section

variable {s t : SglRaw}

theorem SglRaw.Same.setupIndirect (h : s.Same t) : s.setupIndirect.Same t.setupIndirect := by
  have hphys : s.descriptors.map SglBuf.phys = t.descriptors.map SglBuf.phys := by
    obtain ⟨hs, ht⟩ | ⟨b, c, hs, ht, hbuf⟩ := optionRel_cases h.descriptors
    · rw [hs, ht]
    · rw [hs, ht, Option.map_some, Option.map_some, hbuf.phys]
  rw [SglRaw.setupIndirect, SglRaw.setupIndirect, ← h.ndescr, ← hphys, ← h.indirect]
  split_ifs
  · exact h
  · exact ⟨rfl, h.nalloc, h.len, rfl, h.descriptors⟩

/-- What `cmd_wrap_setup_sgl` uses of a list: its first descriptor only when it is the only one. -/
structure Payload.SameSgl (d e : Payload) : Prop where
  ndescr : d.sgl.ndescr = e.sgl.ndescr
  phys : d.sgl.phys = e.sgl.phys
  indirectPhys : d.sgl.indirectPhys = e.sgl.indirectPhys
  first : d.sgl.ndescr = 1 → d.sgl.first = e.sgl.first

theorem SglRaw.Same.payload (h : s.Same t) : Option.Rel Payload.SameSgl s.payload t.payload := by
  rw [SglRaw.payload, SglRaw.payload]
  obtain ⟨hs, ht⟩ | ⟨b, c, hs, ht, hbuf⟩ := optionRel_cases h.descriptors
  · rw [hs, ht]
    exact .none
  · rw [hs, ht]
    refine .some ⟨h.ndescr, hbuf.phys, congrArg SglBuf.phys h.indirect, fun h1 => ?_⟩
    have hfront := hbuf.front
    rw [show s.ndescr = 1 from h1] at hfront
    have hhead : ∀ l : List SglDescr, l.headD .zero = (l.take 1).headD .zero := by
      intro l
      cases l <;> rfl
    exact (hhead b.slots).trans (hfront ▸ (hhead c.slots).symm)

theorem cmdWrapSetupSgl_same {data md data' md' : Option Payload}
    (hdata : Option.Rel Payload.SameSgl data data')
    (hmd : Option.Rel Payload.SameSgl md md') (w : Wrap) (flags : BitVec 16) :
    cmdWrapSetupSgl w data md flags = cmdWrapSetupSgl w data' md' flags := by
  rw [cmdWrapSetupSgl, cmdWrapSetupSgl]
  cases hdata with
  | none => rfl
  | @some d e hd =>
    have hdescr : (if d.sgl.ndescr = 1 then d.sgl.first
          else ⟨d.sgl.phys, BitVec.ofNat 32 (d.sgl.ndescr * 16), 0, 0x3⟩) =
        if e.sgl.ndescr = 1 then e.sgl.first
          else (⟨e.sgl.phys, BitVec.ofNat 32 (e.sgl.ndescr * 16), 0, 0x3⟩ : SglDescr) := by
      rw [← hd.ndescr, ← hd.phys]
      split_ifs with h1
      · exact hd.first h1
      · rfl
    simp only [Option.bind_some, hdescr]
    cases hmd with
    | none => rfl
    | some hm => simp only [Option.bind_some, hm.ndescr, hm.phys, hm.indirectPhys]

end

section

variable {g h : SglLists}

theorem SglLists.Same.create (hs : g.Same h) (hint : Nat) (phys : Except Errno (BitVec 64))
    (indirect : BitVec 64) : (g.create hint phys indirect).1.Same (h.create hint phys indirect).1 ∧
      (g.create hint phys indirect).2 = (h.create hint phys indirect).2 := by
  rw [SglLists.create, SglLists.create]
  cases sglCreate hint phys indirect with
  | error err => exact ⟨hs, rfl⟩
  | ok s => exact ⟨⟨List.rel_append hs.sgls (.cons (.refl s) .nil), hs.pool⟩, rfl⟩

theorem SglLists.Same.setup (hs : g.Same h) (w : Wrap) (i j : Nat) (flags : BitVec 16) :
    g.setup w i j flags = h.setup w i j flags := by
  have hpayload : ∀ k : Nat, Option.Rel Payload.SameSgl (g.sgls[k]?.bind SglRaw.payload)
      (h.sgls[k]?.bind SglRaw.payload) := by
    intro k
    obtain ⟨hg, hh⟩ | ⟨s, t, hg, hh, hst⟩ := optionRel_cases (forall₂_getElem? hs.sgls k)
    · rw [hg, hh]
      exact .none
    · rw [hg, hh]
      exact hst.payload
  exact cmdWrapSetupSgl_same (hpayload i) (hpayload j) w flags

theorem SglLists.Same.apply (hs : g.Same h) (op : SglRawOp) :
    SameOutcome SglLists.Same (g.apply op) (h.apply op) := by
  cases op with
  | create hint phys indirect => exact .some (hs.create hint phys indirect)
  | alloc phys indirect =>
    rw [SglLists.apply, SglLists.apply, hs.pool]
    cases hp : h.pool with
    | nil => exact .some (hs.create 1 phys indirect)
    | cons i pool => exact .some ⟨⟨hs.sgls, rfl⟩, rfl⟩
  | add i phys len moved =>
    rw [SglLists.apply, SglLists.apply]
    obtain ⟨hg, hh⟩ | ⟨s, t, hg, hh, hst⟩ := optionRel_cases (forall₂_getElem? hs.sgls i)
    · rw [hg, hh]
      exact .some ⟨hs, rfl⟩
    · rw [hg, hh]
      dsimp only
      obtain ⟨hr, hr'⟩ | ⟨r, r', hr, hr', hsame, hout⟩ := optionRel_cases (hst.add phys len moved)
      · rw [hr, hr']
        exact .none
      · rw [hr, hr']
        exact .some ⟨⟨forall₂_set hsame hs.sgls i, hs.pool⟩, congrArg SglOut.ret hout⟩
  | reset i => exact .some ⟨⟨forall₂_modify (fun _ _ => SglRaw.Same.reset) hs.sgls i, hs.pool⟩, rfl⟩
  | free i =>
    exact .some ⟨⟨forall₂_modify (fun _ _ => SglRaw.Same.reset) hs.sgls i, congrArg (i :: ·) hs.pool⟩, rfl⟩
  | command w i j flags =>
    rw [SglLists.apply, SglLists.apply, hs.setup]
    cases h.setup w i j flags with
    | none => exact .none
    | some w =>
      refine .some ⟨?_, rfl⟩
      dsimp only
      split_ifs
      · exact ⟨forall₂_modify (fun _ _ => SglRaw.Same.setupIndirect) hs.sgls j, hs.pool⟩
      · exact hs

theorem SglLists.Same.refl (h : SglLists) : h.Same h :=
  ⟨List.forall₂_same.mpr fun s _ => .refl s, rfl⟩

/-- Related histories go on alike. -/
theorem SglLists.run_same {a b : Option SglLists} (hab : Option.Rel SglLists.Same a b) (more : List SglRawOp) :
    outs a more = outs b more ∧ Option.Rel SglLists.Same (Runs.run step a more) (Runs.run step b more) := by
  induction more generalizing a b with
  | nil => exact ⟨rfl, hab⟩
  | cons op more ih =>
    have hop : SameOutcome SglLists.Same (a.bind fun h => h.apply op) (b.bind fun h => h.apply op) := by
      obtain ⟨rfl, rfl⟩ | ⟨g, h, rfl, rfl, hs⟩ := optionRel_cases hab
      · exact .none
      · exact hs.apply op
    have hstep : Option.Rel SglLists.Same (step a op) (step b op) := by
      rw [step, step]
      obtain ⟨ha, hb⟩ | ⟨r, r', ha, hb, hs, -⟩ := optionRel_cases hop
      · rw [ha, hb]
        exact .none
      · rw [ha, hb]
        exact .some hs
    have hout : (a.bind fun h => h.apply op).map Prod.snd = (b.bind fun h => h.apply op).map Prod.snd := by
      obtain ⟨ha, hb⟩ | ⟨r, r', ha, hb, -, heq⟩ := optionRel_cases hop
      · rw [ha, hb]
      · rw [ha, hb, Option.map_some, Option.map_some, heq]
    obtain ⟨houts, hruns⟩ := ih hstep
    rw [outs, outs, hout, houts]
    exact ⟨rfl, hruns⟩

end

/-! Adds that fail. -/

section

variable {s s' : SglRaw} {phys moved : Except Errno (BitVec 64)} {len : Nat} {err : Errno}

theorem SglRaw.push_error (h : s.push phys len = some (s', .error err)) : (∃ e, phys = .error e) ∧
    s'.nalloc = s.nalloc ∧ s.Same s' := by
  rw [SglRaw.push] at h
  cases hs : s.descriptors with
  | none =>
    rw [hs] at h
    cases h
  | some b =>
    rw [hs, Option.map_some] at h
    cases phys with
    | ok p => cases h
    | error e =>
      cases h
      refine ⟨⟨_, rfl⟩, rfl, rfl, rfl, rfl, rfl, ?_⟩
      rw [hs]
      exact .some (b.same_modify s.ndescr fun _ => rfl)

/-- When an add fails without the growth of the array, nothing is changed that counts. -/
theorem sglAdd_error_same (h : sglAdd s phys len moved = some (s', .error err))
    (hgrow : s.ndescr = s.nalloc → s.ndescr ≠ 256 → (∃ p, moved = .ok p) ∧ ∃ p, phys = .ok p) :
    s.Same s' := by
  unfold sglAdd at h
  split_ifs at h with h256 hfull
  · cases h
    exact .refl s
  · obtain ⟨⟨p, rfl⟩, q, rfl⟩ := hgrow hfull h256
    obtain ⟨⟨e, he⟩, -⟩ := SglRaw.push_error h
    cases he
  · exact (SglRaw.push_error h).2.2

theorem sglAdd_error_grown (hfull : s.ndescr = s.nalloc) (h256 : s.ndescr ≠ 256) (len : Nat)
    (hfail : ¬ ((∃ p, moved = .ok p) ∧ ∃ p, phys = .ok p)) :
    ∃ s' err, sglAdd s phys len moved = some (s', .error err) ∧ s'.nalloc ≠ s.nalloc := by
  have hne : (if s.nalloc = 0 then 1 else 2 * s.nalloc) ≠ s.nalloc := by split_ifs <;> omega
  unfold sglAdd
  rw [if_neg h256, if_pos hfull]
  cases moved with
  | error e => exact ⟨_, e, rfl, hne⟩
  | ok p =>
    cases phys with
    | error e => exact ⟨_, e, rfl, hne⟩
    | ok q => exact absurd ⟨⟨p, rfl⟩, q, rfl⟩ hfail

end

section

variable {h : SglLists} {i : Nat} {s : SglRaw} {phys moved : Except Errno (BitVec 64)} {len : Nat}

theorem SglLists.apply_add_some (hs : h.sgls[i]? = some s) : h.apply (.add i phys len moved) =
    (sglAdd s phys len moved).map fun r => ({ h with sgls := h.sgls.set i r.1 }, .ret r.2) := by
  rw [SglLists.apply, hs]

theorem SglLists.apply_add_error {h' : SglLists} {err : Errno}
    (happ : h.apply (.add i phys len moved) = some (h', .ret (.error err))) :
    ∃ s s', h.sgls[i]? = some s ∧ sglAdd s phys len moved = some (s', .error err) ∧
      h' = { h with sgls := h.sgls.set i s' } := by
  cases hs : h.sgls[i]? with
  | none =>
    rw [SglLists.apply, hs] at happ
    cases happ
  | some s =>
    rw [apply_add_some hs] at happ
    obtain ⟨r, hr, heq⟩ := Option.map_eq_some_iff.mp happ
    simp only [Prod.mk.injEq, SglOut.ret.injEq] at heq
    obtain ⟨rfl, hout⟩ := heq
    exact ⟨s, r.1, rfl, by rw [hr, ← hout], rfl⟩

theorem SglLists.same_set (hs : h.sgls[i]? = some s) {s' : SglRaw} (hsame : s.Same s') :
    h.Same { h with sgls := h.sgls.set i s' } := by
  obtain ⟨hi, rfl⟩ := List.getElem?_eq_some_iff.mp hs
  refine ⟨?_, rfl⟩
  have hset := forall₂_set hsame (SglLists.Same.refl h).sgls i
  rwa [List.set_getElem_self hi] at hset

theorem SglLists.failureHarmless_add_iff :
    FailureHarmless (some h) (.add i phys len moved) ↔ GrowthSucceeds (some h) (.add i phys len moved) := by
  constructor
  · intro hharm s hs hfull h256
    by_contra hfail
    obtain ⟨s', err, hadd, hne⟩ := sglAdd_error_grown hfull h256 len hfail
    have happ : h.apply (.add i phys len moved) = some (⟨h.sgls.set i s', h.pool⟩, .ret (.error err)) := by
      rw [apply_add_some hs, hadd, Option.map_some]
    have hsame := forall₂_getElem? (hharm _ err happ).1.sgls i
    rw [hs, List.getElem?_set_self (List.getElem?_eq_some_iff.mp hs).1] at hsame
    obtain ⟨hnone, -⟩ | ⟨a, b, ha, hb, hab⟩ := optionRel_cases hsame
    · cases hnone
    · cases ha
      cases hb
      exact hne hab.nalloc.symm
  · intro hgrow h' err happ
    obtain ⟨s, s', hs, hadd, rfl⟩ := apply_add_error happ
    have hsame := same_set hs (sglAdd_error_same hadd (hgrow s hs))
    exact ⟨hsame, run_same (.some hsame)⟩

end

theorem SglLists.failureHarmless_iff (h : Option SglLists) (op : SglRawOp) :
    FailureHarmless h op ↔ GrowthSucceeds h op := by
  cases h with
  | none => exact Iff.rfl
  | some h =>
    cases op with
    | add i phys len moved => exact failureHarmless_add_iff
    | _ => exact Iff.rfl

/-- Over the whole life of all lists, failed adds are harmless just when none of them comes to a full
array that has room to grow. -/
theorem sgl_failed_add_harmless_iff (ops : List SglRawOp) :
    Runs.Along SglLists.step SglLists.FailureHarmless (some .init) ops ↔
      Runs.Along SglLists.step SglLists.GrowthSucceeds (some .init) ops :=
  Runs.along_iff_of_invariant (I := fun _ => True) (fun _ _ _ _ => trivial)
    (fun h op _ => SglLists.failureHarmless_iff h op) trivial

/-! Where the array is there and grows, the adds are those of the lists that commands are built from. -/

def SglRaw.toObj (s : SglRaw) : SglObj := ⟨s.descriptors.getD ⟨0, []⟩, s.indirect, s.ndescr, s.nalloc, s.len⟩

def SglObj.push (s : SglObj) (phys : Except Errno (BitVec 64)) (len : Nat) : SglObj × Except Errno Unit :=
  match phys with
  | .error err => (s.modifyDescr (setBlock len), .error err)
  | .ok phys =>
    let t := (s.modifyDescr (setBlock len)).modifyDescr (setAddr phys)
    ({ t with len := (t.len + len) % 2 ^ 64, ndescr := t.ndescr + 1 }, .ok ())

theorem nvmSglAdd_eq_push {s : SglObj} (h256 : s.ndescr ≠ 256) (phys : Except Errno (BitVec 64)) (len : Nat)
    (moved : BitVec 64) : nvmSglAdd s phys len moved = (s.grow moved).push phys len := by
  rw [nvmSglAdd, if_neg h256]
  cases phys <;> rfl

theorem SglRaw.push_toObj {s s' : SglRaw} {phys : Except Errno (BitVec 64)} {len : Nat} {r : Except Errno Unit}
    (h : s.push phys len = some (s', r)) : s.toObj.push phys len = (s'.toObj, r) := by
  rw [SglRaw.push] at h
  cases hs : s.descriptors with
  | none =>
    rw [hs] at h
    cases h
  | some b =>
    rw [hs, Option.map_some] at h
    cases phys with
    | error err =>
      cases h
      simp only [SglObj.push, SglRaw.toObj, SglObj.modifyDescr, hs, Option.getD_some]
      rfl
    | ok p =>
      cases h
      simp only [SglObj.push, SglRaw.toObj, SglObj.modifyDescr, hs, Option.getD_some]
      rfl

theorem sglAdd_toObj {s s' : SglRaw} {phys : Except Errno (BitVec 64)} {len : Nat} {moved : BitVec 64}
    {r : Except Errno Unit} (h : sglAdd s phys len (.ok moved) = some (s', r)) :
    nvmSglAdd s.toObj phys len moved = (s'.toObj, r) := by
  unfold sglAdd at h
  split_ifs at h with h256 hfull
  · cases h
    exact nvmSglAdd_full h256 phys len moved
  · have hgrow : s.toObj.grow moved = (s.grow (.ok moved)).toObj := if_pos hfull
    rw [nvmSglAdd_eq_push h256, hgrow]
    exact SglRaw.push_toObj h
  · have hgrow : s.toObj.grow moved = s.toObj := if_neg hfull
    rw [nvmSglAdd_eq_push h256, hgrow]
    exact SglRaw.push_toObj h

/-- Two adds to a list made without a hint, on a backend that cannot reallocate. The first one returns an
error and leaves a list of one descriptor without its array, which the second one follows. -/
theorem sgl_failed_add_loses_array :
    ¬ Runs.Along SglLists.step SglLists.FailureHarmless (some .init)
        [.create 0 (.ok 0) 0x100, .add 0 (.error .enosys) 4096 (.error .enosys)] ∧
      Runs.run SglLists.step (some .init) [.create 0 (.ok 0) 0x100,
        .add 0 (.error .enosys) 4096 (.error .enosys)] = some ⟨[⟨none, ⟨0x100, [.zero]⟩, 0, 1, 0⟩], []⟩ ∧
      Runs.run SglLists.step (some .init) [.create 0 (.ok 0) 0x100,
        .add 0 (.error .enosys) 4096 (.error .enosys), .add 0 (.error .enosys) 4096 (.error .enosys)] = none := by
  refine ⟨fun hharm => ?_, rfl, rfl⟩
  have hgrow := (SglLists.failureHarmless_iff _ _).mp hharm.2.1
  obtain ⟨⟨p, hp⟩, -⟩ := hgrow _ rfl rfl (by decide)
  cases hp

end LightNvm
