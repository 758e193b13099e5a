import LightNvm.SyncBound
import LightNvm.Cursors
import Mathlib.Data.List.Nodup

/-! Synchronous OCSSD 2.0 writes of one range in one or in several calls: the sectors they
assign, in the order of the loops, and the sectors a read of the same range takes. -/

namespace LightNvm

open SizeLoop (width rounds)

def Io.cmds {κ : Type} : Io κ → List κ
  | .returns cmds _ => cmds
  | _ => []

def CmdL.assigns (v : VblkL) (data : Nat → UInt8) (c : CmdL) : List (Slot × (Fin v.geo.nbytes → UInt8)) :=
  (c.transfers v).mapIdx fun i s => (s, fun j => c.buf.bytes data (i * v.geo.nbytes + j))

def CmdL.offsets (v : VblkL) (c : CmdL) : List (Slot × Nat) :=
  (c.transfers v).mapIdx fun i s => (s, c.buf.off + i * v.geo.nbytes)

def Io.assigns (v : VblkL) (data : Nat → UInt8) (io : Io CmdL) :
    List (Slot × (Fin v.geo.nbytes → UInt8)) :=
  io.cmds.flatMap (CmdL.assigns v data)

def Io.offsets (v : VblkL) (io : Io CmdL) : List (Slot × Nat) := io.cmds.flatMap (CmdL.offsets v)

/-- One of several calls: the bytes it is given, and its surroundings. -/
structure Piece where
  count : Nat
  env : IoEnv

/-- The pieces are not empty, aligned, and make up the range. -/
structure VblkL.Cut (v : VblkL) (count : Nat) (pieces : List Piece) : Prop where
  pos : ∀ p ∈ pieces, 0 < p.count
  dvd : ∀ p ∈ pieces, v.wsOpt * v.geo.nbytes ∣ p.count
  sum : (pieces.map Piece.count).sum = count

/-- `vblk_sync_pwrite_s20` for each piece in turn. -/
def VblkL.pwritePieces (v : VblkL) (bufNull : Bool) (data : Nat → UInt8) (offset : Nat) :
    List Piece → List (Slot × (Fin v.geo.nbytes → UInt8))
  | [] => []
  | p :: ps => (vblkSyncPwriteS20 v p.env bufNull p.count offset).assigns v data ++
      v.pwritePieces bufNull (fun x => data (p.count + x)) (offset + p.count) ps

/-- `nvm_vblk_write` for each piece in turn, from the write position on. -/
def VblkL.writePieces (v : VblkL) (bufNull : Bool) (data : Nat → UInt8) (s : Cursors) :
    List Piece → List (Slot × (Fin v.geo.nbytes → UInt8))
  | [] => []
  | p :: ps => (v.io (.write bufNull) p.count s.posWrite p.env).assigns v data ++
      v.writePieces bufNull (fun x => data (p.count + x)) (nvmVblkWrite (.s20 v) s bufNull p.count p.env) ps

/-- Each of these calls returns the number of bytes it was given. -/
def VblkL.Written (v : VblkL) (bufNull : Bool) (s : Cursors) : List Piece → Prop
  | [] => True
  | p :: ps => (v.io (.write bufNull) p.count s.posWrite p.env).ret = some (.ok p.count) ∧
      v.Written bufNull (nvmVblkWrite (.s20 v) s bufNull p.count p.env) ps

/-- Every sector of `n` chunks of `N` sectors once, and those of a chunk in increasing order. -/
structure CoversOnce (n N : Nat) (slots : List Slot) : Prop where
  once : ∀ c < n, ∀ s < N, slots.count ⟨c, s⟩ = 1
  inside : ∀ t ∈ slots, t.chunk < n ∧ t.sectr < N
  increasing : slots.Pairwise fun s t => s.chunk = t.chunk → s.sectr < t.sectr

theorem writes_eq_assigns (v : VblkL) (data : Nat → UInt8) (c : CmdL) :
    c.writes v data = (c.assigns v data).map fun t => (v.addr t.1, t.2) := by
  apply List.ext_getElem?
  intro i
  simp only [CmdL.writes, CmdL.assigns, sectors_eq_transfers, List.getElem?_mapIdx, List.getElem?_map,
    Option.map_map, Function.comp_def]

/-! The commands of a call. -/

section

variable {v : VblkL}

theorem mapIdx_map_range {α β : Type*} (n : Nat) (g : Nat → α) (f : Nat → α → β) :
    ((List.range n).map g).mapIdx f = (List.range n).map fun i => f i (g i) := by
  apply List.ext_getElem (by simp)
  intro i h₁ h₂
  simp

/-- The assignment of the sector at `b + x` by a range that starts at sector `b`. -/
def VblkL.assignAt (v : VblkL) (pad : Bool) (data : Nat → UInt8) (b x : Nat) :
    Slot × (Fin v.geo.nbytes → UInt8) :=
  (v.sectrSlot (b + x), fun j =>
    if pad then BufRef.pad.bytes data (x % v.wsOpt * v.geo.nbytes + j) else data (x * v.geo.nbytes + j))

theorem assigns_unitCmds (pad : Bool) (data : Nat → UInt8) (k u : Nat) :
    ((List.range k).map fun j => v.unitCmd pad j (u + j)).flatMap (CmdL.assigns v data) =
      (List.range (k * v.wsOpt)).map (v.assignAt pad data (u * v.wsOpt)) := by
  rw [List.flatMap_map, ← Striping.flatMap_digits]
  apply List.flatMap_congr
  intro j _
  rw [CmdL.assigns, transfers_unitCmd, mapIdx_map_range]
  apply List.map_congr_left
  intro i hi
  have hlt := List.mem_range.mp hi
  cases pad with
  | true => simp [VblkL.assignAt, VblkL.unitCmd, Nat.add_mul, Nat.add_assoc, Nat.mod_eq_of_lt hlt]
  | false => simp [VblkL.assignAt, VblkL.unitCmd, BufRef.bytes, Nat.add_mul, Nat.add_assoc]

theorem offsets_unitCmds (k u : Nat) :
    ((List.range k).map fun j => v.unitCmd false j (u + j)).flatMap (CmdL.offsets v) =
      (List.range (k * v.wsOpt)).map fun x => (v.sectrSlot (u * v.wsOpt + x), x * v.geo.nbytes) := by
  rw [List.flatMap_map, ← Striping.flatMap_digits]
  apply List.flatMap_congr
  intro j _
  rw [CmdL.offsets, transfers_unitCmd, mapIdx_map_range]
  apply List.map_congr_left
  intro i _
  simp [VblkL.unitCmd, Nat.add_mul, Nat.add_assoc]

theorem offsets_readCmds {count offset k u : Nat} (h : v.Units count offset k u) (hw : 0 < v.wsOpt)
    (hc : count < width) (hfit : (u + k) * v.wsOpt + v.readNsectr ≤ width) :
    ((List.range (rounds (k * v.wsOpt) v.readNsectr)).map fun j =>
      v.syncReadCmd (u * v.wsOpt) (u * v.wsOpt + j * v.readNsectr)).flatMap (CmdL.offsets v) =
    (List.range (rounds (k * v.wsOpt) v.readNsectr * v.readNsectr)).map fun x =>
      (v.sectrSlot (u * v.wsOpt + x), x * v.geo.nbytes) := by
  have hsum : u * v.wsOpt + k * v.wsOpt = (u + k) * v.wsOpt := by ring
  rw [List.flatMap_map, ← Striping.flatMap_digits]
  apply List.flatMap_congr
  intro j hj
  have hjlt := (SizeLoop.lt_rounds (readNsectr_pos hw)).mp (List.mem_range.mp hj)
  have hbytes : j * v.readNsectr * v.geo.nbytes ≤ count := by
    rw [h.count]
    exact Nat.mul_le_mul_right _ hjlt.le
  have hoff : v.bufOff (u * v.wsOpt) (u * v.wsOpt + j * v.readNsectr) = j * v.readNsectr * v.geo.nbytes :=
    VblkL.bufOff_add (by omega) (by omega)
  rw [CmdL.offsets, transfers_readCmd hw (by omega), mapIdx_map_range, syncReadCmd_buf, hoff]
  simp only [BufRef.off_user, Nat.add_mul]

end

/-! The calls. -/

section

variable {v : VblkL} {count offset k u : Nat}

theorem loopIo_some {κ : Type} {nblks : Nat} (hn : 0 < nblks) (env : IoEnv) (count : Nat) (cmds : List κ) :
    loopIo env nblks count (some cmds) = finish env count cmds := by
  cases cmds with
  | nil => rfl
  | cons c cmds => rw [loopIo, if_neg hn.ne']

theorem VblkL.Units.ne_zero (h : v.Units count offset k u) (hw : 0 < v.wsOpt) (hk : 0 < count) :
    ¬ (k = 0 ∧ u = 0) := fun h0 => hk.ne' ((h.count_eq_zero hw).mpr h0.1)

theorem syncPwriteS20_eq (h : v.Units count offset k u) (hw : 0 < v.wsOpt)
    (hb : offset + count ≤ v.nbytes) (hne : ¬ (k = 0 ∧ u = 0)) {env : IoEnv} {bufNull : Bool}
    (henv : v.HasBuffers env bufNull count) :
    vblkSyncPwriteS20 v env bufNull count offset =
      finish env count ((List.range k).map fun j => v.unitCmd bufNull j (u + j)) := by
  rw [vblkSyncPwriteS20, checked_inRange hw h, buffered_of_hasBuffers henv,
    syncWriteCmds_eq h bufNull hw hne (h.fits hb) (VblkL.Units.count_lt hb),
    loopIo_some (h.nblks_pos hw hb hne)]

theorem syncPreadS20_eq (h : v.Units count offset k u) (hw : 0 < v.wsOpt)
    (hb : offset + count ≤ v.nbytes) (hk : 0 < count) (env : IoEnv) :
    vblkSyncPreadS20 v env count offset =
      finish env count ((List.range (rounds (k * v.wsOpt) v.readNsectr)).map fun j =>
        v.syncReadCmd (u * v.wsOpt) (u * v.wsOpt + j * v.readNsectr)) := by
  have hne := h.ne_zero hw hk
  rw [vblkSyncPreadS20, checked_inRange hw h, syncReadCmds_eq h hw hne (h.readFits hb),
    loopIo_some (h.nblks_pos hw hb hne)]

theorem assigns_syncPwriteS20 (h : v.Units count offset k u) (hw : 0 < v.wsOpt)
    (hb : offset + count ≤ v.nbytes) (hk : 0 < count) {env : IoEnv} {bufNull : Bool}
    (henv : v.HasBuffers env bufNull count) (data : Nat → UInt8) :
    (vblkSyncPwriteS20 v env bufNull count offset).assigns v data =
      (List.range (k * v.wsOpt)).map (v.assignAt bufNull data (u * v.wsOpt)) := by
  rw [syncPwriteS20_eq h hw hb (h.ne_zero hw hk) henv]
  exact assigns_unitCmds bufNull data k u

theorem offsets_syncPwriteS20 (h : v.Units count offset k u) (hw : 0 < v.wsOpt)
    (hb : offset + count ≤ v.nbytes) (hk : 0 < count) {env : IoEnv} (henv : v.HasBuffers env false count) :
    (vblkSyncPwriteS20 v env false count offset).offsets v =
      (List.range (k * v.wsOpt)).map fun x => (v.sectrSlot (u * v.wsOpt + x), x * v.geo.nbytes) := by
  rw [syncPwriteS20_eq h hw hb (h.ne_zero hw hk) henv]
  exact offsets_unitCmds k u

theorem offsets_syncPreadS20 (h : v.Units count offset k u) (hw : 0 < v.wsOpt)
    (hb : offset + count ≤ v.nbytes) (hk : 0 < count) (env : IoEnv) :
    (vblkSyncPreadS20 v env count offset).offsets v =
      (List.range (rounds (k * v.wsOpt) v.readNsectr * v.readNsectr)).map fun x =>
        (v.sectrSlot (u * v.wsOpt + x), x * v.geo.nbytes) := by
  rw [syncPreadS20_eq h hw hb hk]
  exact offsets_readCmds h hw (VblkL.Units.count_lt hb) (h.readFits hb)

/-- A read transfers what the write of the same range does, and in vector mode up to 63 sectors more. -/
theorem offsets_syncPreadS20_pwrite (h : v.Units count offset k u) (hw : 0 < v.wsOpt)
    (hb : offset + count ≤ v.nbytes) (hk : 0 < count) {env : IoEnv} (henv : v.HasBuffers env false count)
    (env' : IoEnv) :
    let w := (vblkSyncPwriteS20 v env false count offset).offsets v
    let r := (vblkSyncPreadS20 v env' count offset).offsets v
    (v.mode = .vector → w <+: r ∧ r.length < w.length + naddrMax) ∧ (v.mode = .scalar → r = w) := by
  intro w r
  have hw' : w = _ := offsets_syncPwriteS20 h hw hb hk henv
  have hr' : r = _ := offsets_syncPreadS20 h hw hb hk env'
  have hq := readNsectr_pos hw
  have hge := SizeLoop.rounds_mul_ge (n := k * v.wsOpt) hq
  have hlt := SizeLoop.rounds_mul_lt (n := k * v.wsOpt) hq
  rw [hw', hr']
  constructor
  · intro hm
    have hnsectr : v.readNsectr = naddrMax := by simp [VblkL.readNsectr, hm]
    obtain ⟨d, hd⟩ := Nat.exists_eq_add_of_le hge
    constructor
    · rw [hd, List.range_add, List.map_append]
      exact List.prefix_append _ _
    · simp only [List.length_map, List.length_range]
      omega
  · intro hm
    have hnsectr : v.readNsectr = v.wsOpt := by simp [VblkL.readNsectr, hm]
    rw [hnsectr, SizeLoop.rounds_mul hw]

/-! Pieces. -/

theorem VblkL.Cut.tail {p : Piece} {ps : List Piece} (h : v.Cut count (p :: ps)) :
    v.Cut (ps.map Piece.count).sum ps where
  pos := fun q hq => h.pos q (List.mem_cons_of_mem _ hq)
  dvd := fun q hq => h.dvd q (List.mem_cons_of_mem _ hq)
  sum := rfl

theorem assignAt_shift (pad : Bool) (data : Nat → UInt8) (k u x : Nat) :
    v.assignAt pad (fun x => data (k * v.wsOpt * v.geo.nbytes + x)) ((u + k) * v.wsOpt) x =
      v.assignAt pad data (u * v.wsOpt) (k * v.wsOpt + x) := by
  have hslot : (u + k) * v.wsOpt + x = u * v.wsOpt + (k * v.wsOpt + x) := by ring
  have hmod : (k * v.wsOpt + x) % v.wsOpt = x % v.wsOpt := by
    rw [Nat.add_comm, Nat.add_mul_mod_self_right]
  have hbyte : ∀ j : Nat, k * v.wsOpt * v.geo.nbytes + (x * v.geo.nbytes + j) =
      (k * v.wsOpt + x) * v.geo.nbytes + j := fun j => by ring
  cases pad with
  | true => simp [VblkL.assignAt, hslot, hmod, BufRef.bytes]
  | false => simp [VblkL.assignAt, hslot, hbyte]

theorem VblkL.Units.cut {p : Piece} {ps : List Piece} (hw : 0 < v.wsOpt) (h : v.Units count offset k u)
    (hcut : v.Cut count (p :: ps)) : ∃ k₁ k₂, k = k₁ + k₂ ∧ v.Units p.count offset k₁ u ∧
      v.Units (ps.map Piece.count).sum (offset + p.count) k₂ (u + k₁) := by
  have hunit : 0 < v.wsOpt * v.geo.nbytes := Nat.mul_pos hw v.geo.nbytes_pos
  obtain ⟨k₁, hk₁⟩ := hcut.dvd p (by simp)
  have hsum : p.count + (ps.map Piece.count).sum = count := by simpa using hcut.sum
  have hcount := h.count
  rw [Nat.mul_assoc] at hcount
  have hle : k₁ ≤ k := by
    apply Nat.le_of_mul_le_mul_left _ hunit
    rw [← hk₁, Nat.mul_comm _ k, ← hcount]
    omega
  obtain ⟨k₂, rfl⟩ := Nat.exists_eq_add_of_le hle
  refine ⟨k₁, k₂, rfl, ⟨by rw [hk₁]; ring, h.offset⟩, ⟨?_, by rw [hk₁, h.offset]; ring⟩⟩
  have hrest : p.count + (ps.map Piece.count).sum = p.count + k₂ * v.wsOpt * v.geo.nbytes := by
    rw [hsum, hcount, hk₁]
    ring
  omega

/-- The pieces assign what one call assigns; by induction over the pieces, each one from
where the last one ends. -/
theorem pwritePieces_eq (hw : 0 < v.wsOpt) (bufNull : Bool) {pieces : List Piece}
    (hcut : v.Cut count pieces) (henv : ∀ p ∈ pieces, v.HasBuffers p.env bufNull p.count)
    (data : Nat → UInt8) (h : v.Units count offset k u) (hb : offset + count ≤ v.nbytes) :
    v.pwritePieces bufNull data offset pieces =
      (List.range (k * v.wsOpt)).map (v.assignAt bufNull data (u * v.wsOpt)) := by
  induction pieces generalizing count offset k u data with
  | nil =>
    have hk : k = 0 := (h.count_eq_zero hw).mp (by simpa using hcut.sum.symm)
    simp [VblkL.pwritePieces, hk]
  | cons p ps ih =>
    obtain ⟨k₁, k₂, rfl, h₁, h₂⟩ := h.cut hw hcut
    have hsum : p.count + (ps.map Piece.count).sum = count := by simpa using hcut.sum
    rw [VblkL.pwritePieces, assigns_syncPwriteS20 h₁ hw (by omega) (hcut.pos p (by simp)) (henv p (by simp)),
      ih hcut.tail (fun q hq => henv q (List.mem_cons_of_mem _ hq)) _ h₂ (by omega), Nat.add_mul k₁,
      List.range_add, List.map_append, List.map_map]
    congr 1
    apply List.map_congr_left
    intro x _
    rw [h₁.count]
    exact assignAt_shift bufNull data k₁ u x

theorem hasBuffers_of_ret (h : v.Units count offset k u) (hw : 0 < v.wsOpt) {env : IoEnv} {bufNull : Bool}
    {n : Int} (hret : (vblkSyncPwriteS20 v env bufNull count offset).ret = some (.ok n)) :
    v.HasBuffers env bufNull count := by
  by_contra hno
  rw [vblkSyncPwriteS20, checked_inRange hw h, buffered_of_not_hasBuffers hno] at hret
  simp [Io.ret] at hret

theorem posWrite_nvmVblkWrite {s : Cursors} {bufNull : Bool} {env : IoEnv}
    (hret : (v.io (.write bufNull) count s.posWrite env).ret = some (.ok count))
    (hb : s.posWrite + count < width) :
    (nvmVblkWrite (.s20 v) s bufNull count env).posWrite = s.posWrite + count := by
  change moved s.posWrite (v.io (.write bufNull) count s.posWrite env).ret = _
  rw [hret, moved, if_neg (by omega), Int.toNat_natCast, Nat.mod_eq_of_lt hb]

theorem writePieces_eq (hw : 0 < v.wsOpt) (hsync : v.isAsync = false) (bufNull : Bool) {pieces : List Piece}
    (hcut : v.Cut count pieces) (data : Nat → UInt8) {s : Cursors} (h : v.Units count s.posWrite k u)
    (hb : s.posWrite + count ≤ v.nbytes) (hwr : v.Written bufNull s pieces) :
    v.writePieces bufNull data s pieces = v.pwritePieces bufNull data s.posWrite pieces ∧
      ∀ p ∈ pieces, v.HasBuffers p.env bufNull p.count := by
  induction pieces generalizing count k u data s with
  | nil => simp [VblkL.writePieces, VblkL.pwritePieces]
  | cons p ps ih =>
    obtain ⟨k₁, k₂, rfl, h₁, h₂⟩ := h.cut hw hcut
    obtain ⟨hret, hrest⟩ := hwr
    have hsum : p.count + (ps.map Piece.count).sum = count := by simpa using hcut.sum
    have hlt : v.nbytes < width := Nat.mod_lt _ (by decide)
    have hpos := posWrite_nvmVblkWrite hret (by omega)
    rw [← hpos] at h₂
    have hio : v.io (.write bufNull) p.count s.posWrite p.env =
        vblkSyncPwriteS20 v p.env bufNull p.count s.posWrite := by
      simp [VblkL.io, hsync]
    obtain ⟨hassigns, hbufs⟩ := ih hcut.tail (fun x => data (p.count + x)) h₂ (by omega) hrest
    rw [hio] at hret
    constructor
    · rw [VblkL.writePieces, VblkL.pwritePieces, hassigns, hpos, hio]
    · rw [List.forall_mem_cons]
      exact ⟨hasBuffers_of_ret h₁ hw hret, hbufs⟩

/-- The calls return what they were given when no command fails and the size is an `ssize_t`. -/
theorem written_of_ok (hw : 0 < v.wsOpt) (hsync : v.isAsync = false) {bufNull : Bool} {pieces : List Piece}
    (hcut : v.Cut count pieces) {s : Cursors} (h : v.Units count s.posWrite k u)
    (hb : s.posWrite + count ≤ v.nbytes) (henv : ∀ p ∈ pieces, v.HasBuffers p.env bufNull p.count)
    (hok : ∀ p ∈ pieces, ∀ n, p.env.cmdOk n = true) (hsize : ∀ p ∈ pieces, p.count < 2 ^ 63) :
    v.Written bufNull s pieces := by
  induction pieces generalizing count k u s with
  | nil => trivial
  | cons p ps ih =>
    obtain ⟨k₁, k₂, rfl, h₁, h₂⟩ := h.cut hw hcut
    rw [List.forall_mem_cons] at henv hok hsize
    have hsum : p.count + (ps.map Piece.count).sum = count := by simpa using hcut.sum
    have hlt : v.nbytes < width := Nat.mod_lt _ (by decide)
    have hret : (v.io (.write bufNull) p.count s.posWrite p.env).ret = some (.ok p.count) := by
      have hpos := hcut.pos p (by simp)
      rw [VblkL.io, if_neg (by simp [hsync]), syncPwriteS20_eq h₁ hw (by omega) (h₁.ne_zero hw hpos) henv.1]
      have hssize : ssize p.count = p.count := ssize_eq_iff.mpr hsize.1
      simp [finish, Io.ret, hok.1, hssize]
    have hpos := posWrite_nvmVblkWrite hret (by omega)
    rw [← hpos] at h₂
    exact ⟨hret, ih hcut.tail h₂ (by omega) henv.2 hok.2 hsize.2⟩

end

/-! The whole virtual block. -/

theorem coversOnce_striping {w n N : Nat} (hw : 0 < w) (hn : 0 < n) (hd : w ∣ N) :
    CoversOnce n N ((List.range (n * N)).map fun x => ⟨Striping.lane w n x, Striping.pos w n x⟩) := by
  have hinc : ((List.range (n * N)).map fun x => (⟨Striping.lane w n x, Striping.pos w n x⟩ : Slot)).Pairwise
      fun s t => s.chunk = t.chunk → s.sectr < t.sectr := by
    rw [List.pairwise_map]
    exact List.pairwise_lt_range.imp fun hlt hl => Striping.pos_lt_pos hw hl hlt
  refine ⟨?_, ?_, hinc⟩
  · intro c hc s hs
    apply List.count_eq_one_of_mem
    · exact hinc.imp fun hst heq => by
        have hlt := hst (by rw [heq])
        rw [heq] at hlt
        exact lt_irrefl _ hlt
    · obtain ⟨x, hx, hlane, hpos⟩ := Striping.exists_lane_pos hw hd hc hs
      exact List.mem_map.mpr ⟨x, List.mem_range.mpr hx, by rw [hlane, hpos]⟩
  · intro t ht
    obtain ⟨x, hx, rfl⟩ := List.mem_map.mp ht
    exact ⟨Nat.mod_lt _ hn, Striping.pos_lt hw hd (List.mem_range.mp hx)⟩

theorem coversOnce_syncPwriteS20 {v : VblkL} {count offset k u : Nat} (h : v.Units count offset k u)
    (hw : 0 < v.wsOpt) (hn : 0 < v.nblks) (hd : v.wsOpt ∣ v.geo.nsectr) (hb : offset + count ≤ v.nbytes)
    (hpos : 0 < count) {env : IoEnv} {bufNull : Bool} (henv : v.HasBuffers env bufNull count)
    (data : Nat → UInt8) (h0 : offset = 0) (hall : count = v.nblks * v.geo.nsectr * v.geo.nbytes) :
    CoversOnce v.nblks v.geo.nsectr
      (((vblkSyncPwriteS20 v env bufNull count offset).assigns v data).map Prod.fst) := by
  have hu : u = 0 := (h.offset_eq_zero hw).mp h0
  have hk : k * v.wsOpt = v.nblks * v.geo.nsectr := by
    apply Nat.eq_of_mul_eq_mul_right v.geo.nbytes_pos
    rw [← h.count, hall]
  have hslots : ((vblkSyncPwriteS20 v env bufNull count offset).assigns v data).map Prod.fst =
      (List.range (v.nblks * v.geo.nsectr)).map fun x =>
        ⟨Striping.lane v.wsOpt v.nblks x, Striping.pos v.wsOpt v.nblks x⟩ := by
    rw [assigns_syncPwriteS20 h hw hb hpos henv data, hk, hu, List.map_map]
    apply List.map_congr_left
    intro x _
    simp only [Function.comp_apply, VblkL.assignAt, Nat.zero_mul, Nat.zero_add]
    rfl
  rw [hslots]
  exact coversOnce_striping hw hn hd

theorem CoversOnce.mem {n N : Nat} {slots : List Slot} (h : CoversOnce n N slots) {c s : Nat} (hc : c < n)
    (hs : s < N) : (⟨c, s⟩ : Slot) ∈ slots :=
  List.count_pos_iff.mp (by rw [h.once c hc s hs]; decide)

/-- The order of the sectors in a chunk of the virtual block is the one in the chunk of the media. -/
theorem CoversOnce.increasing_addr {v : VblkL} (hd : v.DistinctChunks) {slots : List Slot}
    (h : CoversOnce v.nblks v.geo.nsectr slots) :
    (slots.map v.addr).Pairwise fun a b => a.chunkOf = b.chunkOf → a.sectr < b.sectr := by
  rw [List.pairwise_map]
  apply h.increasing.imp_of_mem
  intro s t hs ht hlt hchunk
  have hsl := h.inside s hs
  have htl := h.inside t ht
  have hN := v.geo.nsectr_lt
  have hlt' := hlt (VblkL.chunk_eq_of_chunkOf hd hsl.1 htl.1 hchunk)
  simp only [VblkL.addr, BitVec.lt_def, BitVec.toNat_ofNat]
  rw [Nat.mod_eq_of_lt (by omega), Nat.mod_eq_of_lt (by omega)]
  exact hlt'

theorem CoversOnce.nodup_addr {v : VblkL} (hd : v.DistinctChunks) {slots : List Slot}
    (h : CoversOnce v.nblks v.geo.nsectr slots) : (slots.map v.addr).Nodup := by
  apply (h.increasing_addr hd).imp
  rintro a b hlt rfl
  exact BitVec.lt_irrefl _ (hlt rfl)

/-- One call and any sequence of calls for the same range, the whole virtual block, and a read
of the same range. -/
theorem sync_write_cut_independent (v : VblkL) (hd : v.DistinctChunks) (hn : 0 < v.nblks) (hw : 0 < v.wsOpt)
    (hdvd : v.wsOpt ∣ v.geo.nsectr) (count offset : Nat) (hr : v.InRange count offset) (hpos : 0 < count)
    (bufNull : Bool) (data : Nat → UInt8) (env : IoEnv) (henv : v.HasBuffers env bufNull count) :
    (∀ pieces, v.Cut count pieces → (∀ p ∈ pieces, v.HasBuffers p.env bufNull p.count) →
      v.pwritePieces bufNull data offset pieces =
        (vblkSyncPwriteS20 v env bufNull count offset).assigns v data) ∧
    (∀ pieces s, v.isAsync = false → v.Cut count pieces → s.posWrite = offset → v.Written bufNull s pieces →
      v.writePieces bufNull data s pieces = (vblkSyncPwriteS20 v env bufNull count offset).assigns v data) ∧
    (offset = 0 ∧ count = v.nblks * v.geo.nsectr * v.geo.nbytes →
      let slots := ((vblkSyncPwriteS20 v env bufNull count offset).assigns v data).map Prod.fst
      CoversOnce v.nblks v.geo.nsectr slots ∧ (slots.map v.addr).Nodup) ∧
    (∀ env', let w := (vblkSyncPwriteS20 v env false count offset).offsets v
      let r := (vblkSyncPreadS20 v env' count offset).offsets v
      (v.mode = .vector → w <+: r ∧ r.length < w.length + naddrMax) ∧ (v.mode = .scalar → r = w)) := by
  obtain ⟨k, u, h⟩ := VblkL.units_of_dvd hr.dvd_count hr.dvd_offset
  have hone := assigns_syncPwriteS20 h hw hr.bound hpos henv data
  refine ⟨?_, ?_, ?_, ?_⟩
  · intro pieces hcut hbufs
    rw [hone, pwritePieces_eq hw bufNull hcut hbufs data h hr.bound]
  · intro pieces s hsync hcut hs hwr
    subst hs
    obtain ⟨heq, hbufs⟩ := writePieces_eq hw hsync bufNull hcut data h hr.bound hwr
    rw [hone, heq, pwritePieces_eq hw bufNull hcut hbufs data h hr.bound]
  · rintro ⟨h0, hall⟩
    have hcovers := coversOnce_syncPwriteS20 h hw hn hdvd hr.bound hpos henv data h0 hall
    exact ⟨hcovers, hcovers.nodup_addr hd⟩
  · exact offsets_syncPreadS20_pwrite h hw hr.bound hpos ⟨by simp, henv.2⟩

/-- Both chunks of a small virtual block in two calls, in vector mode. -/
theorem sync_write_cut_independent_two_calls :
    let v := tinyVblk .vector false
    let pieces : List Piece := [⟨1024, .good⟩, ⟨3072, .good⟩]
    let one := vblkSyncPwriteS20 v .good false 4096 0
    v.pwritePieces false UInt8.ofNat 0 pieces = one.assigns v UInt8.ofNat ∧
    v.writePieces false UInt8.ofNat ⟨0, 0⟩ pieces = one.assigns v UInt8.ofNat ∧
    CoversOnce 2 4 ((one.assigns v UInt8.ofNat).map Prod.fst) ∧
    one.offsets v <+: (vblkSyncPreadS20 v .good 4096 0).offsets v := by
  intro v pieces one
  have hbufs : ∀ count, v.HasBuffers .good false count := fun count => ⟨by simp, fun h => absurd rfl h⟩
  have hpieces : ∀ p ∈ pieces, (p.count = 1024 ∨ p.count = 3072) ∧ p.env = .good := by
    simp [pieces]
  have hcut : v.Cut 4096 pieces := by
    refine ⟨fun p hp => ?_, fun p hp => ?_, rfl⟩ <;> rcases (hpieces p hp).1 with h | h <;> rw [h] <;> decide
  have hunits : v.Units 4096 0 4 0 := ⟨by decide, by decide⟩
  have henv : ∀ p ∈ pieces, v.HasBuffers p.env false p.count := fun p hp => by
    rw [(hpieces p hp).2]
    exact hbufs p.count
  have hwritten : v.Written false ⟨0, 0⟩ pieces := by
    apply written_of_ok (s := ⟨0, 0⟩) (by decide) rfl hcut hunits (by decide) henv
    · intro p hp n
      rw [(hpieces p hp).2]
      rfl
    · intro p hp
      rcases (hpieces p hp).1 with h | h <;> rw [h] <;> decide
  obtain ⟨hpwrite, hwrite, hwhole, hread⟩ := sync_write_cut_independent v
    (by rw [VblkL.DistinctChunks]; decide) (by decide) (by decide) (by decide) 4096 0
    ⟨by decide, by decide, by decide⟩ (by decide) false UInt8.ofNat .good (hbufs 4096)
  exact ⟨hpwrite pieces hcut henv, hwrite pieces ⟨0, 0⟩ rfl hcut rfl hwritten,
    (hwhole ⟨rfl, by decide⟩).1, ((hread .good).1 rfl).1⟩

end LightNvm
