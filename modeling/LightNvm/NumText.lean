import Mathlib.Algebra.Order.Ring.Int
import Mathlib.Data.List.TakeWhile

/-! Numbers as texts: what C's `strtoll` reads, and what the `%x` conversions of `printf` write. -/

namespace NumText

/-- The value of an ASCII digit or letter. -/
def digitVal (c : Char) : Option Nat :=
  if 48 ≤ c.toNat ∧ c.toNat ≤ 57 then some (c.toNat - 48)
  else if 97 ≤ c.toNat ∧ c.toNat ≤ 122 then some (c.toNat - 87)
  else if 65 ≤ c.toNat ∧ c.toNat ≤ 90 then some (c.toNat - 55)
  else none

def digitOf (base : Nat) (c : Char) : Option Nat := (digitVal c).filter (· < base)

def isDigit (base : Nat) (c : Char) : Bool := (digitOf base c).isSome

def value (base : Nat) (ds : List Char) : Nat :=
  ds.foldl (fun n c => n * base + (digitOf base c).getD 0) 0

def isSpace (c : Char) : Bool :=
  c = ' ' || c = '\t' || c = '\n' || c = '\x0b' || c = '\x0c' || c = '\r'

def sign : List Char → Bool × List Char
  | '-' :: cs => (true, cs)
  | '+' :: cs => (false, cs)
  | cs => (false, cs)

/-- A leading `0x` belongs to the number only in base 16 and before a digit. -/
def dropLead (base : Nat) : List Char → List Char
  | '0' :: x :: c :: cs =>
    if base = 16 ∧ (x = 'x' ∨ x = 'X') ∧ isDigit 16 c = true then c :: cs else '0' :: x :: c :: cs
  | cs => cs

/-- `strtoll` with no end pointer; out of range it answers the nearest `long long`. -/
def strtoll (base : Nat) (text : List Char) : Int :=
  let signed := sign (text.dropWhile isSpace)
  let n : Int := value base ((dropLead base signed.2).takeWhile (isDigit base))
  max (-2 ^ 63) (min (if signed.1 then -n else n) (2 ^ 63 - 1))

/-- The text is that of the number `n`: digits, after `0x` if it is hexadecimal and one likes. -/
def IsNumeral (base : Nat) (text : List Char) (n : Nat) : Prop :=
  ∃ lead ds, (lead = [] ∨ base = 16 ∧ (lead = ['0', 'x'] ∨ lead = ['0', 'X'])) ∧ ds ≠ [] ∧
    (∀ c ∈ ds, isDigit base c = true) ∧ text = lead ++ ds ∧ value base ds = n

/-- `%0wx` of a number that has at most `w` digits. -/
def hexPadded : Nat → Nat → List Char
  | 0, _ => []
  | w + 1, n => hexPadded w (n / 16) ++ [Nat.digitChar (n % 16)]

theorem isNumeral_digits {base : Nat} {ds : List Char} (hne : ds ≠ []) (h : ds.all (isDigit base) = true) :
    IsNumeral base ds (value base ds) :=
  ⟨[], ds, .inl rfl, hne, List.all_eq_true.mp h, rfl, rfl⟩

theorem isDigit_plain {base : Nat} {c : Char} (h : isDigit base c = true) :
    isSpace c = false ∧ c ≠ '-' ∧ c ≠ '+' := by
  have hsome : (digitVal c).isSome = true := by
    rw [isDigit, digitOf] at h
    cases hv : digitVal c with
    | none => simp [hv] at h
    | some d => rfl
  refine ⟨?_, ?_, ?_⟩
  · by_contra hs
    simp only [isSpace, Bool.not_eq_false, Bool.or_eq_true, decide_eq_true_eq] at hs
    rcases hs with ((((rfl | rfl) | rfl) | rfl) | rfl) | rfl <;> simp [digitVal] at hsome
  · rintro rfl
    simp [digitVal] at hsome
  · rintro rfl
    simp [digitVal] at hsome

theorem sign_of_digit {base : Nat} {c : Char} (h : isDigit base c = true) (cs : List Char) :
    sign (c :: cs) = (false, c :: cs) := by
  obtain ⟨-, hminus, hplus⟩ := isDigit_plain h
  simp [sign, hminus, hplus]

theorem dropLead_digits {base : Nat} {ds : List Char} (h : ∀ c ∈ ds, isDigit base c = true) :
    dropLead base ds = ds := by
  rw [dropLead.eq_def]
  split
  · next x c cs =>
    rw [if_neg]
    rintro ⟨rfl, rfl | rfl, -⟩
    · exact absurd (h 'x' (by simp)) (by decide)
    · exact absurd (h 'X' (by simp)) (by decide)
  · rfl

theorem strtoll_of_isNumeral {base : Nat} {text : List Char} {n : Nat} (h : IsNumeral base text n) :
    strtoll base text = ((min n (2 ^ 63 - 1) : Nat) : Int) := by
  obtain ⟨lead, ds, hlead, hne, hds, rfl, rfl⟩ := h
  have htake : ds.takeWhile (isDigit base) = ds := List.takeWhile_eq_self_iff.mpr hds
  have hread : sign ((lead ++ ds).dropWhile isSpace) = (false, lead ++ ds) ∧
      dropLead base (lead ++ ds) = ds := by
    obtain ⟨d, es, rfl⟩ := List.exists_cons_of_ne_nil hne
    have hd : isDigit base d = true := hds d (by simp)
    rcases hlead with rfl | ⟨rfl, rfl | rfl⟩
    · refine ⟨?_, dropLead_digits hds⟩
      rw [List.nil_append, List.dropWhile_cons_of_neg (by simp [(isDigit_plain hd).1]), sign_of_digit hd]
    · exact ⟨by simp [sign, isSpace], by simp [dropLead, hd]⟩
    · exact ⟨by simp [sign, isSpace], by simp [dropLead, hd]⟩
  rw [strtoll]
  simp only [hread.1, hread.2, htake]
  rw [if_neg Bool.false_ne_true]
  omega

theorem IsNumeral.head?_ne {base : Nat} {text : List Char} {n : Nat} (h : IsNumeral base text n) :
    text.head? ≠ some '-' := by
  obtain ⟨lead, ds, hlead, hne, hds, rfl, -⟩ := h
  obtain ⟨d, es, rfl⟩ := List.exists_cons_of_ne_nil hne
  rcases hlead with rfl | ⟨-, rfl | rfl⟩
  · simpa using (isDigit_plain (hds d (by simp))).2.1
  · simp
  · simp

theorem digitOf_digitChar : ∀ d, d < 16 → digitOf 16 (Nat.digitChar d) = some d := by decide

theorem value_append_singleton (base : Nat) (ds : List Char) (c : Char) :
    value base (ds ++ [c]) = value base ds * base + (digitOf base c).getD 0 := by
  rw [value, List.foldl_append]
  rfl

theorem value_hexPadded {w n : Nat} (h : n < 16 ^ w) : value 16 (hexPadded w n) = n := by
  induction w generalizing n with
  | zero =>
    rw [Nat.pow_zero] at h
    obtain rfl : n = 0 := by omega
    rfl
  | succ w ih =>
    have hdiv : n / 16 < 16 ^ w := by
      rw [Nat.pow_succ] at h
      omega
    rw [hexPadded, value_append_singleton, ih hdiv, digitOf_digitChar _ (Nat.mod_lt n (by decide)),
      Option.getD_some]
    omega

theorem isDigit_hexPadded (w n : Nat) : ∀ c ∈ hexPadded w n, isDigit 16 c = true := by
  induction w generalizing n with
  | zero => simp [hexPadded]
  | succ w ih =>
    intro c hc
    rcases List.mem_append.mp hc with hc | hc
    · exact ih (n / 16) c hc
    · rw [List.mem_singleton.mp hc, isDigit, digitOf_digitChar _ (Nat.mod_lt n (by decide))]
      rfl

theorem isNumeral_hexPadded {w n : Nat} (hw : 0 < w) (h : n < 16 ^ w) :
    IsNumeral 16 ('0' :: 'x' :: hexPadded w n) n := by
  refine ⟨['0', 'x'], hexPadded w n, .inr ⟨rfl, .inl rfl⟩, ?_, isDigit_hexPadded w n, rfl, value_hexPadded h⟩
  obtain ⟨v, rfl⟩ : ∃ v, w = v + 1 := ⟨w - 1, by omega⟩
  simp [hexPadded]

end NumText
