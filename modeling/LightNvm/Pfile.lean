import LightNvm.Addr
import LightNvm.ListRel

/-! The payload files of the command line: `pfile_to_buf` reads a file in pieces of 4096 bytes, each of
them to the start of the buffer, and `nvm_cli_opts_pfile_load` loads one file for each option. -/

namespace LightNvm

def freadNbytes : Nat := 4096

/-- What `fread` stores, over the bytes that are there. -/
def overlay (chunk buf : List UInt8) : List UInt8 := chunk ++ buf.drop chunk.length

/-- The buffer, how many bytes each `fread` stored from its start on, and the count returned. -/
structure PfileRead where
  buf : List UInt8
  stored : List Nat
  nbytes : Nat

/-- The loop of `pfile_to_buf`; a short read sets `feof`, which ends it. -/
def pfileLoop (fileNbytes readNbytes : Nat) (buf rest : List UInt8) : PfileRead :=
  if readNbytes < fileNbytes then
    let chunk := rest.take freadNbytes
    if rest.length < freadNbytes then ⟨overlay chunk buf, [chunk.length], readNbytes + chunk.length⟩
    else
      let r := pfileLoop fileNbytes (readNbytes + chunk.length) (overlay chunk buf) (rest.drop freadNbytes)
      { r with stored := chunk.length :: r.stored }
  else ⟨buf, [], readNbytes⟩
termination_by rest.length
decreasing_by
  simp only [List.length_drop, freadNbytes] at *
  omega

/-- `file` is what `fopen` makes of the name: an error, or a file with its content. -/
def pfileToBuf (file : Except Errno (List UInt8)) (buf : List UInt8) (maxFsize : Nat) :
    Except Errno PfileRead :=
  file.bind fun content =>
    if maxFsize < content.length then .error .einval else .ok (pfileLoop content.length 0 buf content)

/-- One of the files: what its name opens, the largest size, and whether the two buffers for it can be
allocated. -/
structure PfileOpt where
  file : Except Errno (List UInt8)
  nbytes : Nat
  dupAlloc : Bool
  bufAlloc : Bool

structure PfileLoaded where
  nbytes : Nat
  buf : List UInt8
  dup : List UInt8

def PfileOpt.load (o : PfileOpt) : Except Errno (Option PfileLoaded) :=
  if o.nbytes = 0 then .ok none
  else if !o.dupAlloc then .error .enomem
  else
    (pfileToBuf o.file (List.replicate o.nbytes 0) o.nbytes).bind fun r =>
      -- `nvm_buf_alloc` refuses an empty buffer
      if r.nbytes = 0 then .error .einval
      else if !o.bufAlloc then .error .enomem
      else .ok (some ⟨r.nbytes, r.buf.take r.nbytes, r.buf⟩)

structure PfileOpts where
  cmd : PfileOpt
  md : PfileOpt
  data : PfileOpt

def PfileOpts.all (o : PfileOpts) : List PfileOpt := [o.cmd, o.md, o.data]

def nvmCliOptsPfileLoad (o : PfileOpts) : Except Errno (List (Option PfileLoaded)) :=
  o.all.mapM PfileOpt.load

/-- Every file that was asked for is in its two buffers, byte for byte. -/
def LoadsExactly (o : PfileOpts) : Prop :=
  ∃ ls, nvmCliOptsPfileLoad o = .ok ls ∧
    List.Forall₂ (fun o l => ∀ content, o.nbytes ≠ 0 → o.file = .ok content →
      ∃ x, l = some x ∧ x.nbytes = content.length ∧ x.buf.take content.length = content ∧
        x.dup.take content.length = content) o.all ls

/-- The pieces of the content do not differ where they are stored over each other: there is only one, or
the content is zero but for the part of the first piece that a second one does not reach. -/
def PiecesAgree (content : List UInt8) : Prop :=
  content.length ≤ freadNbytes ∨ ∀ j < content.length, content[j]? = some 0 ∨
    (content.length ≤ 2 * freadNbytes ∧ content.length - freadNbytes ≤ j ∧ j < freadNbytes)

/-! The loop. -/

theorem getElem?_overlay (chunk buf : List UInt8) (j : Nat) :
    (overlay chunk buf)[j]? = if j < chunk.length then chunk[j]? else buf[j]? := by
  rw [overlay]
  split_ifs with h
  · rw [List.getElem?_append_left h]
  · rw [List.getElem?_append_right (not_lt.mp h), List.getElem?_drop, Nat.add_sub_cancel' (not_lt.mp h)]

section

variable {fileNbytes readNbytes : Nat} {buf rest : List UInt8}

theorem pfileLoop_end (h : fileNbytes = readNbytes) :
    pfileLoop fileNbytes readNbytes buf rest = ⟨buf, [], readNbytes⟩ := by
  rw [pfileLoop, if_neg (by omega)]

theorem pfileLoop_step (hread : fileNbytes = readNbytes + rest.length) (h : freadNbytes ≤ rest.length) :
    pfileLoop fileNbytes readNbytes buf rest =
      let r := pfileLoop fileNbytes (readNbytes + freadNbytes) (overlay (rest.take freadNbytes) buf)
        (rest.drop freadNbytes)
      { r with stored := freadNbytes :: r.stored } := by
  have hpos : 0 < freadNbytes := by decide
  have hlen : (rest.take freadNbytes).length = freadNbytes := by
    rw [List.length_take]
    omega
  rw [pfileLoop, if_pos (by omega), if_neg (by omega)]
  simp only [hlen]

theorem pfileLoop_last (hread : fileNbytes = readNbytes + rest.length) (hpos : rest ≠ [])
    (h : rest.length ≤ freadNbytes) :
    pfileLoop fileNbytes readNbytes buf rest = ⟨overlay rest buf, [rest.length], fileNbytes⟩ := by
  have hlen := List.length_pos_of_ne_nil hpos
  rcases h.lt_or_eq with hlt | heq
  · rw [pfileLoop, if_pos (by omega)]
    simp only [List.take_of_length_le h, if_pos hlt, ← hread]
  · rw [pfileLoop_step hread heq.ge, pfileLoop_end (by omega)]
    simp only [List.take_of_length_le h]
    rw [← heq, ← hread]

/-- What holds of a last piece and is kept by a whole one before it holds of every run of the loop. -/
theorem pfileLoop_rule {P : List UInt8 → List UInt8 → PfileRead → Prop}
    (hlast : ∀ buf rest, rest ≠ [] → rest.length ≤ freadNbytes →
      P buf rest ⟨overlay rest buf, [rest.length], fileNbytes⟩)
    (hstep : ∀ buf rest r, freadNbytes < rest.length →
      P (overlay (rest.take freadNbytes) buf) (rest.drop freadNbytes) r →
      P buf rest { r with stored := freadNbytes :: r.stored })
    (hread : fileNbytes = readNbytes + rest.length) (hne : rest ≠ []) :
    P buf rest (pfileLoop fileNbytes readNbytes buf rest) := by
  induction hn : rest.length using Nat.strong_induction_on generalizing readNbytes buf rest with
  | h n ih =>
    by_cases h : rest.length ≤ freadNbytes
    · rw [pfileLoop_last hread hne h]
      exact hlast buf rest hne h
    · have hpos : 0 < freadNbytes := by decide
      have hdrop : (rest.drop freadNbytes).length = n - freadNbytes := by rw [List.length_drop, hn]
      rw [pfileLoop_step hread (by omega)]
      apply hstep buf rest _ (by omega)
      apply ih (n - freadNbytes) (by omega) (by omega) _ hdrop
      exact List.ne_nil_of_length_pos (by omega)

theorem pfileLoop_nbytes (hread : fileNbytes = readNbytes + rest.length) (hne : rest ≠ []) :
    (pfileLoop fileNbytes readNbytes buf rest).nbytes = fileNbytes :=
  pfileLoop_rule (P := fun _ _ r => r.nbytes = fileNbytes) (fun _ _ _ _ => rfl) (fun _ _ _ _ h => h)
    hread hne

theorem pfileLoop_stored (hread : fileNbytes = readNbytes + rest.length) :
    ∀ n ∈ (pfileLoop fileNbytes readNbytes buf rest).stored, n ≤ rest.length := by
  by_cases hne : rest = []
  · rw [pfileLoop_end (by simpa [hne] using hread)]
    simp
  apply pfileLoop_rule (P := fun _ rest r => ∀ n ∈ r.stored, n ≤ rest.length) _ _ hread hne
  · intro buf rest _ _ n hn
    exact (List.mem_singleton.mp hn).le
  · intro buf rest r hlt h n hn
    rcases List.mem_cons.mp hn with rfl | hn
    · exact hlt.le
    · have hle := h n hn
      rw [List.length_drop] at hle
      omega

theorem pfileLoop_getElem?_of_ge (hread : fileNbytes = readNbytes + rest.length) (hne : rest ≠ []) {j : Nat}
    (hj : freadNbytes ≤ j) : (pfileLoop fileNbytes readNbytes buf rest).buf[j]? = buf[j]? := by
  apply pfileLoop_rule (P := fun buf _ r => r.buf[j]? = buf[j]?) _ _ hread hne
  · intro buf rest _ hle
    rw [getElem?_overlay, if_neg (by omega)]
  · intro buf rest r _ h
    have hlen := List.length_take_le freadNbytes rest
    dsimp only
    rw [h, getElem?_overlay, if_neg (by omega)]

/-- Below 4096 there is a byte of the last two pieces. -/
theorem pfileLoop_getElem?_of_lt (hread : fileNbytes = readNbytes + rest.length)
    (hlt : 2 * freadNbytes < rest.length) {j : Nat} (hj : j < freadNbytes) :
    ∃ i, freadNbytes ≤ i ∧ i < rest.length ∧
      (pfileLoop fileNbytes readNbytes buf rest).buf[j]? = rest[i]? := by
  have hne : rest ≠ [] := List.ne_nil_of_length_pos (by omega)
  have hall : ((pfileLoop fileNbytes readNbytes buf rest).buf[j]? = buf[j]? ∧ rest.length ≤ freadNbytes) ∨
      ∃ i, (2 * freadNbytes < rest.length → freadNbytes ≤ i) ∧ i < rest.length ∧
        (pfileLoop fileNbytes readNbytes buf rest).buf[j]? = rest[i]? := by
    apply pfileLoop_rule (P := fun buf rest r => (r.buf[j]? = buf[j]? ∧ rest.length ≤ freadNbytes) ∨
      ∃ i, (2 * freadNbytes < rest.length → freadNbytes ≤ i) ∧ i < rest.length ∧ r.buf[j]? = rest[i]?)
      _ _ hread hne
    · intro buf rest _ hle
      dsimp only
      rw [getElem?_overlay]
      split_ifs with hin
      · exact .inr ⟨j, fun _ => by omega, hin, rfl⟩
      · exact .inl ⟨rfl, hle⟩
    · intro buf rest r hmore h
      rw [getElem?_overlay, List.length_take, if_pos (by omega), List.length_drop] at h
      refine .inr ?_
      rcases h with ⟨h, hle⟩ | ⟨i, -, hi, h⟩
      · refine ⟨j, fun _ => by omega, by omega, ?_⟩
        dsimp only
        rw [h, List.getElem?_take_of_lt hj]
      · refine ⟨freadNbytes + i, fun _ => Nat.le_add_right _ _, by omega, ?_⟩
        dsimp only
        rw [h, List.getElem?_drop]
  rcases hall with ⟨-, hle⟩ | ⟨i, hi, hin, heq⟩
  · omega
  · exact ⟨i, hi hlt, hin, heq⟩

theorem pfileLoop_getElem?_two (hread : fileNbytes = readNbytes + rest.length)
    (hgt : freadNbytes < rest.length) (hle : rest.length ≤ 2 * freadNbytes) {j : Nat} (hj : j < freadNbytes) :
    (pfileLoop fileNbytes readNbytes buf rest).buf[j]? =
      if j < rest.length - freadNbytes then rest[freadNbytes + j]? else rest[j]? := by
  have hlen : (rest.drop freadNbytes).length = rest.length - freadNbytes := List.length_drop
  have hne : rest.drop freadNbytes ≠ [] := List.ne_nil_of_length_pos (by omega)
  rw [pfileLoop_step hread hgt.le, pfileLoop_last (by omega) hne (by omega)]
  dsimp only
  have hfirst : (overlay (rest.take freadNbytes) buf)[j]? = rest[j]? := by
    rw [getElem?_overlay, List.length_take, if_pos (by omega), List.getElem?_take_of_lt hj]
  rw [getElem?_overlay, hlen, List.getElem?_drop, hfirst]

end

/-! What is loaded. -/

theorem take_eq_iff {l content : List UInt8} :
    l.take content.length = content ↔ ∀ j < content.length, l[j]? = content[j]? := by
  constructor
  · intro h j hj
    rw [← List.getElem?_take_of_lt hj, h]
  · intro h
    apply List.ext_getElem? fun j => ?_
    by_cases hj : j < content.length
    · rw [List.getElem?_take_of_lt hj, h j hj]
    · rw [List.getElem?_take_eq_none (not_lt.mp hj), List.getElem?_eq_none (not_lt.mp hj)]

section

variable {content : List UInt8} {max : Nat}

theorem loaded_getElem?_of_ge (hle : content.length ≤ max) {j : Nat} (hj : j < content.length)
    (hge : freadNbytes ≤ j) :
    (pfileLoop content.length 0 (List.replicate max 0) content).buf[j]? = some 0 := by
  have hne : content ≠ [] := List.ne_nil_of_length_pos (by omega)
  rw [pfileLoop_getElem?_of_ge (Nat.zero_add _).symm hne hge, List.getElem?_replicate, if_pos (by omega)]

/-- A second piece leaves the middle of the first one in its place. -/
theorem loaded_two_iff (hle : content.length ≤ max) (hgt : freadNbytes < content.length)
    (htwo : content.length ≤ 2 * freadNbytes) :
    (∀ j < content.length,
      (pfileLoop content.length 0 (List.replicate max 0) content).buf[j]? = content[j]?) ↔
      ∀ j < content.length, content[j]? = some 0 ∨ (content.length - freadNbytes ≤ j ∧ j < freadNbytes) := by
  have hlow : ∀ j < freadNbytes, (pfileLoop content.length 0 (List.replicate max 0) content).buf[j]? =
      if j < content.length - freadNbytes then content[freadNbytes + j]? else content[j]? :=
    fun j hj => pfileLoop_getElem?_two (Nat.zero_add _).symm hgt htwo hj
  constructor
  · intro h j hj
    have hzero : ∀ i < content.length, freadNbytes ≤ i → content[i]? = some 0 := by
      intro i hi hge
      rw [← h i hi, loaded_getElem?_of_ge hle hi hge]
    by_cases hge : freadNbytes ≤ j
    · exact .inl (hzero j hj hge)
    · by_cases hlt : j < content.length - freadNbytes
      · left
        rw [← h j hj, hlow j (not_le.mp hge), if_pos hlt]
        exact hzero _ (by omega) (Nat.le_add_right _ _)
      · exact .inr ⟨not_lt.mp hlt, not_le.mp hge⟩
  · intro h j hj
    by_cases hge : freadNbytes ≤ j
    · rw [loaded_getElem?_of_ge hle hj hge, (h j hj).resolve_right (by omega)]
    · rw [hlow j (not_le.mp hge)]
      split_ifs with hlt
      · rw [(h j hj).resolve_right (by omega), (h _ (by omega)).resolve_right (by omega)]
      · rfl

/-- With more pieces every byte of the buffer is zero or one that lies behind the first piece. -/
theorem loaded_many_iff (hle : content.length ≤ max) (hgt : 2 * freadNbytes < content.length) :
    (∀ j < content.length,
      (pfileLoop content.length 0 (List.replicate max 0) content).buf[j]? = content[j]?) ↔
      ∀ j < content.length, content[j]? = some 0 := by
  have hlow : ∀ j < freadNbytes, ∃ i, freadNbytes ≤ i ∧ i < content.length ∧
      (pfileLoop content.length 0 (List.replicate max 0) content).buf[j]? = content[i]? :=
    fun j hj => pfileLoop_getElem?_of_lt (Nat.zero_add _).symm hgt hj
  constructor
  · intro h j hj
    by_cases hge : freadNbytes ≤ j
    · rw [← h j hj, loaded_getElem?_of_ge hle hj hge]
    · obtain ⟨i, hi, hlt, heq⟩ := hlow j (not_le.mp hge)
      rw [← h j hj, heq, ← h i hlt, loaded_getElem?_of_ge hle hlt hi]
  · intro hzero j hj
    rw [hzero j hj]
    by_cases hge : freadNbytes ≤ j
    · exact loaded_getElem?_of_ge hle hj hge
    · obtain ⟨i, -, hlt, heq⟩ := hlow j (not_le.mp hge)
      rw [heq, hzero i hlt]

theorem take_pfileLoop_iff (hne : content ≠ []) (hle : content.length ≤ max) :
    (pfileLoop content.length 0 (List.replicate max 0) content).buf.take content.length = content ↔
      PiecesAgree content := by
  rw [take_eq_iff, PiecesAgree]
  by_cases hone : content.length ≤ freadNbytes
  · refine iff_of_true (fun j hj => ?_) (.inl hone)
    rw [pfileLoop_last (Nat.zero_add _).symm hne hone]
    dsimp only
    rw [getElem?_overlay, if_pos hj]
  rw [or_iff_right hone]
  by_cases htwo : content.length ≤ 2 * freadNbytes
  · simp only [loaded_two_iff hle (not_le.mp hone) htwo, htwo, true_and]
  · simp only [loaded_many_iff hle (not_le.mp htwo), htwo, false_and, or_false]

end

theorem PfileOpt.load_ok_iff {o : PfileOpt} {content : List UInt8} (hfile : o.file = .ok content)
    (hne : content ≠ []) (hle : content.length ≤ o.nbytes) {l : Option PfileLoaded} :
    o.load = .ok l ↔ o.dupAlloc = true ∧ o.bufAlloc = true ∧
      l = some ⟨content.length,
        (pfileLoop content.length 0 (List.replicate o.nbytes 0) content).buf.take content.length,
        (pfileLoop content.length 0 (List.replicate o.nbytes 0) content).buf⟩ := by
  have hpos := List.length_pos_of_ne_nil hne
  have hn : (pfileLoop content.length 0 (List.replicate o.nbytes 0) content).nbytes = content.length :=
    pfileLoop_nbytes (Nat.zero_add content.length).symm hne
  have hto : pfileToBuf o.file (List.replicate o.nbytes 0) o.nbytes =
      .ok (pfileLoop content.length 0 (List.replicate o.nbytes 0) content) := by
    rw [pfileToBuf, hfile]
    exact if_neg (not_lt.mpr hle)
  rw [PfileOpt.load, if_neg (by omega), hto]
  cases o.dupAlloc with
  | false => simp
  | true =>
    cases o.bufAlloc with
    | false => simp [Except.bind, hn, hpos.ne']
    | true =>
      simp only [Except.bind, hn, hpos.ne', Bool.not_true, Bool.false_eq_true, if_false, Except.ok.injEq,
        true_and]
      exact eq_comm

theorem pfileToBuf_stored {file : Except Errno (List UInt8)} {buf : List UInt8} {maxFsize : Nat}
    {r : PfileRead} (h : pfileToBuf file buf maxFsize = .ok r) : ∀ n ∈ r.stored, n ≤ maxFsize := by
  cases file with
  | error e => cases h
  | ok content =>
    change (if maxFsize < content.length then _ else _) = _ at h
    split_ifs at h with hmax
    obtain rfl := Except.ok.inj h
    intro n hn
    exact (pfileLoop_stored (Nat.zero_add _).symm n hn).trans (not_lt.mp hmax)

theorem loadsExactly_iff {o : PfileOpts} (hfiles : ∀ p ∈ o.all, p.nbytes ≠ 0 →
      ∃ content, p.file = .ok content ∧ content ≠ [] ∧ content.length ≤ p.nbytes) :
    LoadsExactly o ↔ ∀ p ∈ o.all, p.nbytes ≠ 0 → p.dupAlloc = true ∧ p.bufAlloc = true ∧
      ∀ content, p.file = .ok content → PiecesAgree content := by
  simp only [LoadsExactly, nvmCliOptsPfileLoad, ListRel.mapM_ok_iff, ListRel.exists_forall₂_iff]
  apply forall₂_congr
  intro p hp
  by_cases hn : p.nbytes = 0
  · simp [hn, PfileOpt.load]
  · obtain ⟨content, hfile, hne, hle⟩ := hfiles p hp hn
    have hbytes := take_pfileLoop_iff hne hle
    simp only [PfileOpt.load_ok_iff hfile hne hle, hfile, Except.ok.injEq, forall_eq', hn, ne_eq,
      not_false_eq_true, forall_const]
    constructor
    · rintro ⟨l, ⟨hdup, hbuf, rfl⟩, x, hx, -, -, htake⟩
      obtain rfl := Option.some.inj hx
      exact ⟨hdup, hbuf, hbytes.mp htake⟩
    · rintro ⟨hdup, hbuf, hagree⟩
      have htake := hbytes.mpr hagree
      refine ⟨_, ⟨hdup, hbuf, rfl⟩, _, rfl, rfl, ?_, htake⟩
      rw [List.take_take, Nat.min_self]
      exact htake

/-- A file is loaded byte for byte exactly when the pieces that are stored over each other agree; nothing
is stored behind the buffer. -/
theorem pfile_load_exact_iff (o : PfileOpts) (hfiles : ∀ p ∈ o.all, p.nbytes ≠ 0 →
      ∃ content, p.file = .ok content ∧ content ≠ [] ∧ content.length ≤ p.nbytes) :
    (LoadsExactly o ↔ ∀ p ∈ o.all, p.nbytes ≠ 0 → p.dupAlloc = true ∧ p.bufAlloc = true ∧
      ∀ content, p.file = .ok content → PiecesAgree content) ∧
    ∀ file buf maxFsize r, pfileToBuf file buf maxFsize = .ok r → ∀ n ∈ r.stored, n ≤ maxFsize :=
  ⟨loadsExactly_iff hfiles, fun _ _ _ _ => pfileToBuf_stored⟩

def noFile : PfileOpt := ⟨.ok [], 0, true, true⟩

def dataFile (content : List UInt8) : PfileOpts := ⟨noFile, noFile, ⟨.ok content, 1 <<< 20, true, true⟩⟩

theorem pfile_load_exact_iff_short : LoadsExactly (dataFile [1, 2, 3]) := by
  refine (pfile_load_exact_iff (dataFile [1, 2, 3]) ?_).1.mpr ?_
  · simp [dataFile, PfileOpts.all, noFile]
  · simp [dataFile, PfileOpts.all, noFile, PiecesAgree, freadNbytes]

theorem dataFile_loadsExactly_iff {content : List UInt8} (hne : content ≠ [])
    (hle : content.length ≤ 1 <<< 20) :
    LoadsExactly (dataFile content) ↔ PiecesAgree content := by
  rw [loadsExactly_iff]
  · simp [dataFile, PfileOpts.all, noFile]
  · simpa [dataFile, PfileOpts.all, noFile] using ⟨hne, hle⟩

/-- The byte after the first piece goes to the start of the buffer, and not behind the piece. -/
theorem pfile_second_piece_misplaced : ¬ LoadsExactly (dataFile (List.replicate 4097 1)) := by
  have hlen : (List.replicate 4097 (1 : UInt8)).length = 4097 := List.length_replicate
  rw [dataFile_loadsExactly_iff (List.ne_nil_of_length_pos (by rw [hlen]; decide)) (by rw [hlen]; decide),
    PiecesAgree, hlen]
  rintro (hone | hzero)
  · exact absurd hone (by decide)
  · rcases hzero 0 (by decide) with h | h
    · rw [List.getElem?_replicate_of_lt (by decide)] at h
      cases h
    · exact absurd h.2.1 (by decide)

end LightNvm
