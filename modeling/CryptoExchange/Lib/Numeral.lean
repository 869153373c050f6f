import Mathlib.Data.Rat.Floor
import Mathlib.Data.Int.Log
import Mathlib.Algebra.Order.Field.Rat
import Mathlib.Algebra.Order.Field.Basic
import Mathlib.Algebra.Order.Field.Power
import Mathlib.Algebra.Order.Round
import Mathlib.Tactic.Linarith
import Mathlib.Tactic.Ring

/-!
# Numerals and floats

* `Numeral`: a printed number, as a JSON text or a `NUMERIC` literal writes it. It remembers how
  many decimals it prints and whether it has an exponent. Its text (`chars`) reads back as it
  (`ofChars_chars`), also from the front of a longer text (`chars_append`).
* `PyFloat`: a finite float, given by the shortest decimal that reads back as it: the digits that
  `repr` prints. Two floats are equal exactly when these digits are. A double has at most 17.
* `PyFloat.repr`: fixed notation for a decimal point between the 4th place before and the 16th
  after the first digit, exponent notation otherwise.
* `PyFloat.ofDecimal`: the float with a given shortest decimal. It undoes `value`
  (`ofDecimal_shift`); a decimal of more than 17 digits would have to be rounded, and is `none`.
  So a printed float reads back as it (`ofNumeral_repr`).
* `roundDigits`: a sum of `Decimal`s in a context of so many digits. What has no more of them is not
  rounded (`roundDigits_of_lt`).
-/

namespace Lib

/-- A printed number: `± mantissa * 10 ^ (-scale)` with `scale` decimals, times `10 ^ exp` when an
exponent is printed. -/
structure Numeral where
  neg : Bool
  mantissa : ℕ
  scale : ℕ
  exp : Option ℤ
  deriving DecidableEq

/-! ## Text -/

/-- Digits with zeros in front, up to the width. -/
def padLeft (width : ℕ) (ds : List Char) : List Char :=
  List.replicate (width - ds.length) '0' ++ ds

theorem length_padLeft (width : ℕ) (ds : List Char) : width ≤ (padLeft width ds).length := by
  simp only [padLeft, List.length_append, List.length_replicate]
  omega

theorem isDigit_padLeft {width n : ℕ} : ∀ c ∈ padLeft width (Nat.toDigits 10 n), c.isDigit := by
  intro c hc
  rcases List.mem_append.mp hc with hc | hc
  · rw [(List.mem_replicate.mp hc).2]; decide
  · exact Nat.isDigit_of_mem_toDigits (by decide) (by decide) hc

theorem ofDigitChars_padLeft (width n : ℕ) :
    Nat.ofDigitChars 10 (padLeft width (Nat.toDigits 10 n)) 0 = n := by
  rw [padLeft, Nat.ofDigitChars_append, Nat.ofDigitChars_replicate_zero, mul_zero,
    Nat.ofDigitChars_ten_toDigits]

/-- A text that is cut where `p` first fails. -/
theorem span_append {α : Type} {p : α → Bool} {l r : List α} (hl : ∀ a ∈ l, p a)
    (hr : ∀ a ∈ r.head?, p a = false) :
    (l ++ r).takeWhile p = l ∧ (l ++ r).dropWhile p = r := by
  rw [List.takeWhile_append_of_pos hl, List.dropWhile_append_of_pos hl]
  cases r with
  | nil => simp
  | cons a r =>
    have ha := hr a rfl
    simp [ha]

/-- A padded number ends where the digits end. -/
theorem padLeft_append {w w' n n' : ℕ} {r r' : List Char} (hr : ∀ c ∈ r.head?, c.isDigit = false)
    (hr' : ∀ c ∈ r'.head?, c.isDigit = false)
    (h : padLeft w (Nat.toDigits 10 n) ++ r = padLeft w' (Nat.toDigits 10 n') ++ r') :
    n = n' ∧ r = r' := by
  have h₁ := span_append (l := padLeft w (Nat.toDigits 10 n)) isDigit_padLeft hr
  have h₂ := span_append (l := padLeft w' (Nat.toDigits 10 n')) isDigit_padLeft hr'
  rw [h] at h₁
  refine ⟨?_, h₁.2.symm.trans h₂.2⟩
  rw [← ofDigitChars_padLeft w n, ← ofDigitChars_padLeft w' n', ← h₁.1, h₂.1]

namespace Numeral

/-- The digits, at least one of them before the decimal point. -/
def digits (n : Numeral) : List Char := padLeft (n.scale + 1) (Nat.toDigits 10 n.mantissa)

/-- A printed exponent has a sign and two digits or more. -/
def expChars : Option ℤ → List Char
  | none => []
  | some e => 'e' :: (if e < 0 then '-' else '+') :: padLeft 2 (Nat.toDigits 10 e.natAbs)

def chars (n : Numeral) : List Char :=
  (if n.neg then ['-'] else []) ++ n.digits.take (n.digits.length - n.scale) ++
  (if n.scale = 0 then [] else '.' :: n.digits.drop (n.digits.length - n.scale)) ++ expChars n.exp

def expOf : List Char → Option ℤ
  | _ :: sign :: ds =>
    some (if sign = '-' then -(Nat.ofDigitChars 10 ds 0 : ℤ) else Nat.ofDigitChars 10 ds 0)
  | _ => none

/-- The numeral that a text prints. -/
def ofChars (cs : List Char) : Numeral :=
  let unsigned := cs.dropWhile fun c => c = '-'
  let body := unsigned.takeWhile fun c => c ≠ 'e'
  let fraction := (body.dropWhile fun c => c ≠ '.').tail
  { neg := cs.head? = some '-'
    mantissa := Nat.ofDigitChars 10 ((body.takeWhile fun c => c ≠ '.') ++ fraction) 0
    scale := fraction.length
    exp := expOf (unsigned.dropWhile fun c => c ≠ 'e') }

theorem expOf_expChars (e : Option ℤ) : expOf (expChars e) = e := by
  cases e with
  | none => rfl
  | some e =>
    rw [expChars, expOf, ofDigitChars_padLeft]
    by_cases he : e < 0
    · rw [if_pos he, if_pos rfl]
      congr 1
      omega
    · rw [if_neg he, if_neg (by decide)]
      congr 1
      omega

theorem head_expChars (e : Option ℤ) : ∀ c ∈ (expChars e).head?, c = 'e' := by
  cases e <;> simp [expChars]

/-- **A text reads back** as the numeral that printed it. -/
theorem ofChars_chars (n : Numeral) : ofChars n.chars = n := by
  obtain ⟨neg, m, scale, exp⟩ := n
  let ds := padLeft (scale + 1) (Nat.toDigits 10 m)
  let whole := ds.take (ds.length - scale)
  let point := if scale = 0 then [] else '.' :: ds.drop (ds.length - scale)
  have hlen : scale + 1 ≤ ds.length := length_padLeft _ _
  have hdig : ∀ c ∈ ds, c.isDigit := isDigit_padLeft
  have hne : ∀ c ∈ ds, c ≠ '-' ∧ c ≠ '.' ∧ c ≠ 'e' := by
    intro c hc
    have := hdig c hc
    refine ⟨?_, ?_, ?_⟩ <;> (rintro rfl; revert this; decide)
  have hwhole : ∀ c ∈ whole, c ∈ ds := fun c hc => List.mem_of_mem_take hc
  have hpos : whole ≠ [] := by
    intro h
    have := congrArg List.length h
    simp only [whole, List.length_take, List.length_nil] at this
    omega
  -- the point separates the digits, and nothing else
  have hpoint : (point = [] ∧ scale = 0) ∨ point = '.' :: ds.drop (ds.length - scale) := by
    by_cases h0 : scale = 0
    · exact .inl ⟨if_pos h0, h0⟩
    · exact .inr (if_neg h0)
  have hbody : ∀ c ∈ whole ++ point, c ≠ 'e' := by
    intro c hc
    rcases List.mem_append.mp hc with hc | hc
    · exact (hne c (hwhole c hc)).2.2
    · rcases hpoint with ⟨h, -⟩ | h
      · rw [h] at hc; cases hc
      · rw [h] at hc
        rcases List.mem_cons.mp hc with rfl | hc
        · decide
        · exact (hne c (List.mem_of_mem_drop hc)).2.2
  have hchars : chars ⟨neg, m, scale, exp⟩ =
      (if neg then ['-'] else []) ++ (whole ++ point ++ expChars exp) := by
    simp only [chars, digits, whole, point, ds, List.append_assoc]
  obtain ⟨c, cs, hcons⟩ := List.exists_cons_of_ne_nil hpos
  have hhead : c ≠ '-' := (hne c (hwhole c (by rw [hcons]; exact List.mem_cons_self))).1
  have hsign : (chars ⟨neg, m, scale, exp⟩).dropWhile (fun c => c = '-') =
      whole ++ point ++ expChars exp := by
    rw [hchars]
    refine (span_append ?_ ?_).2
    · cases neg <;> simp
    · rw [hcons]; simp [hhead]
  have hbody' := span_append (p := fun c => decide (c ≠ 'e')) (l := whole ++ point)
    (r := expChars exp) (fun c hc => decide_eq_true (hbody c hc))
    (fun c hc => by simp [head_expChars exp c hc])
  have hspan := span_append (p := fun c => decide (c ≠ '.')) (l := whole) (r := point)
    (fun c hc => decide_eq_true (hne c (hwhole c hc)).2.1)
    (fun c hc => by rcases hpoint with ⟨h, -⟩ | h <;> (rw [h] at hc; simp at hc; try simp [← hc]))
  have htail : point.tail = ds.drop (ds.length - scale) := by
    rcases hpoint with ⟨h, h0⟩ | h
    · rw [h, h0]; simp
    · rw [h]; rfl
  have hneg : ((chars ⟨neg, m, scale, exp⟩).head? = some '-' : Bool) = neg := by
    rw [hchars, hcons]
    cases neg <;> simp [hhead]
  unfold ofChars
  simp only [hsign, hbody'.1, hbody'.2, hspan.1, hspan.2, htail, hneg, expOf_expChars,
    List.length_drop]
  rw [List.take_append_drop, ofDigitChars_padLeft]
  simp only [mk.injEq, true_and, and_true]
  omega

theorem chars_injective : Function.Injective chars :=
  Function.LeftInverse.injective ofChars_chars

/-- The characters of numerals. -/
def IsChar (c : Char) : Bool := c.isDigit ∨ c = '-' ∨ c = '+' ∨ c = '.' ∨ c = 'e'

theorem isChar_of_isDigit {c : Char} (h : c.isDigit) : IsChar c := by simp [IsChar, h]

theorem isChar_digits (n : Numeral) : ∀ c ∈ n.digits, IsChar c :=
  fun c hc => isChar_of_isDigit (isDigit_padLeft c hc)

theorem isChar_expChars (e : Option ℤ) : ∀ c ∈ expChars e, IsChar c := by
  cases e with
  | none => intro c hc; cases hc
  | some e =>
    intro c hc
    rcases List.mem_cons.mp hc with rfl | hc
    · decide
    · rcases List.mem_cons.mp hc with rfl | hc
      · split <;> decide
      · exact isChar_of_isDigit (isDigit_padLeft c hc)

theorem isChar_chars (n : Numeral) : ∀ c ∈ n.chars, IsChar c := by
  intro c hc
  rcases List.mem_append.mp hc with hc | hc
  · rcases List.mem_append.mp hc with hc | hc
    · rcases List.mem_append.mp hc with hc | hc
      · split at hc
        · rw [List.mem_singleton.mp hc]; decide
        · cases hc
      · exact n.isChar_digits c (List.mem_of_mem_take hc)
    · split at hc
      · cases hc
      · rcases List.mem_cons.mp hc with rfl | hc
        · decide
        · exact n.isChar_digits c (List.mem_of_mem_drop hc)
  · exact isChar_expChars _ c hc

theorem chars_ne_nil (n : Numeral) : n.chars ≠ [] := by
  intro h
  have hlen : n.scale + 1 ≤ n.digits.length := length_padLeft _ _
  have := congrArg List.length h
  simp only [chars, List.length_append, List.length_take, List.length_nil] at this
  omega

/-- A numeral is read off the front of a text whose rest is no part of it. -/
theorem chars_append {n m : Numeral} {r r' : List Char} (hr : ∀ c ∈ r.head?, IsChar c = false)
    (hr' : ∀ c ∈ r'.head?, IsChar c = false) (h : n.chars ++ r = m.chars ++ r') :
    n = m ∧ r = r' := by
  obtain ⟨h1, h2⟩ := span_append n.isChar_chars hr
  obtain ⟨h3, h4⟩ := span_append m.isChar_chars hr'
  exact ⟨chars_injective (by rw [← h1, h, h3]), by rw [← h2, h, h4]⟩

/-- `str(n)` of an integer. -/
def ofInt (n : ℤ) : Numeral := ⟨n < 0, n.natAbs, 0, none⟩

theorem ofInt_injective : Function.Injective ofInt := by
  intro a b h
  simp only [ofInt, mk.injEq, decide_eq_decide, and_true] at h
  omega

end Numeral

/-! ## Floats -/

/-- The number of decimal digits, `1` for zero. -/
def numDigits (n : ℕ) : ℕ := (Nat.toDigits 10 n).length

theorem numDigits_pos (n : ℕ) : 0 < numDigits n := Nat.length_toDigits_pos

theorem numDigits_le_iff {n k : ℕ} (hk : 0 < k) : numDigits n ≤ k ↔ n < 10 ^ k :=
  Nat.length_toDigits_le_iff (by decide) hk

/-- A finite float: `± digits * 10 ^ exp`, its shortest decimal (module doc). -/
structure PyFloat where
  neg : Bool
  digits : ℕ
  exp : ℤ
  /-- No trailing zero; zero has exponent 0. -/
  shortest : digits % 10 ≠ 0 ∨ digits = 0 ∧ exp = 0
  digits_lt : digits < 10 ^ 17
  deriving DecidableEq

namespace PyFloat

/-- The decimal value of `repr`: `Decimal(str(x))`. -/
def value (x : PyFloat) : ℚ := (if x.neg then -1 else 1) * x.digits * (10 : ℚ) ^ x.exp

/-- The place of the decimal point: the value is `0.d₁d₂… * 10 ^ decpt`. -/
def decpt (x : PyFloat) : ℤ := numDigits x.digits + x.exp

/-- `0.0`. -/
def zero : PyFloat := ⟨false, 0, 0, by decide, by decide⟩

/-- `float.__repr__`. -/
def repr (x : PyFloat) : Numeral :=
  if -4 < x.decpt ∧ x.decpt ≤ 16 then
    let scale := max 1 (-x.exp).toNat
    ⟨x.neg, x.digits * 10 ^ (scale + x.exp).toNat, scale, none⟩
  else ⟨x.neg, x.digits, numDigits x.digits - 1, some (x.decpt - 1)⟩

/-- `m * 10 ^ e` without trailing zeros. -/
def strip (m : ℕ) (e : ℤ) : ℕ × ℤ :=
  if h : m = 0 then (0, 0)
  else if m % 10 = 0 then strip (m / 10) (e + 1)
  else (m, e)
termination_by m
decreasing_by omega

theorem strip_shortest (m : ℕ) (e : ℤ) :
    (strip m e).1 % 10 ≠ 0 ∨ (strip m e).1 = 0 ∧ (strip m e).2 = 0 := by
  induction m, e using strip.induct with
  | case1 e => right; rw [strip]; simp
  | case2 m e h hm ih => rw [strip]; simpa [h, hm] using ih
  | case3 m e h hm => left; rw [strip]; simp [h, hm]

/-- The float with the shortest decimal `± m * 10 ^ e`. -/
def ofDecimal (neg : Bool) (m : ℕ) (e : ℤ) : Option PyFloat :=
  if h : (strip m e).1 < 10 ^ 17 then
    some ⟨neg, (strip m e).1, (strip m e).2, strip_shortest m e, h⟩
  else none

/-- Zeros appended to a shortest decimal are stripped again. -/
theorem strip_shift {d : ℕ} (hd : d % 10 ≠ 0) (k : ℕ) (e : ℤ) :
    strip (d * 10 ^ k) (e - k) = (d, e) := by
  induction k with
  | zero =>
    have h0 : d ≠ 0 := by rintro rfl; exact hd rfl
    rw [pow_zero, mul_one, strip]
    simp [h0, hd]
  | succ k ih =>
    have h0 : d * 10 ^ (k + 1) ≠ 0 := by
      have : d ≠ 0 := by rintro rfl; exact hd rfl
      positivity
    have h1 : d * 10 ^ (k + 1) = d * 10 ^ k * 10 := by ring
    rw [strip, dif_neg h0, if_pos (by omega), h1, Nat.mul_div_cancel _ (by decide)]
    rw [show e - ((k + 1 : ℕ) : ℤ) + 1 = e - k by push_cast; ring]
    exact ih

/-- **Reading back.** A decimal with the digits of a float, possibly with zeros appended, is that
float. -/
theorem ofDecimal_shift (x : PyFloat) (k : ℕ) :
    ofDecimal x.neg (x.digits * 10 ^ k) (x.exp - k) = some x := by
  obtain ⟨neg, d, e, hs, hd⟩ := x
  have hstrip : strip (d * 10 ^ k) (e - k) = (d, e) := by
    rcases hs with h | ⟨h, h'⟩
    · exact strip_shift h k e
    · subst h h'
      rw [zero_mul, strip]; simp
  unfold ofDecimal
  rw [dif_pos (by rw [hstrip]; exact hd)]
  simp only [hstrip]

/-- `float` of a numeral. -/
def ofNumeral (n : Numeral) : Option PyFloat :=
  ofDecimal n.neg n.mantissa (n.exp.getD 0 - n.scale)

theorem ofNumeral_repr (x : PyFloat) : ofNumeral x.repr = some x := by
  unfold repr
  split
  · have := ofDecimal_shift x (max 1 (-x.exp).toNat + x.exp).toNat
    simp only [ofNumeral, Option.getD_none, Nat.cast_max, Nat.cast_one] at this ⊢
    rw [← this]
    congr 1
    omega
  · have := ofDecimal_shift x 0
    have hpos := numDigits_pos x.digits
    simp only [ofNumeral, Option.getD_some, decpt, pow_zero, mul_one] at this ⊢
    rw [← this]
    congr 1
    omega

theorem repr_injective : Function.Injective repr := by
  intro x y h
  have hx := ofNumeral_repr x
  rw [h, ofNumeral_repr y] at hx
  exact (Option.some.inj hx).symm

/-- A float is printed with a point or an exponent. -/
theorem repr_ne_ofInt (x : PyFloat) (n : ℤ) : x.repr ≠ Numeral.ofInt n := by
  unfold repr
  split
  · intro h
    have : max 1 (-x.exp).toNat = 0 := congrArg Numeral.scale h
    omega
  · intro h
    cases congrArg Numeral.exp h

end PyFloat

/-! ## A number of digits -/

/-- The nearest integer, of two the even one. -/
def roundHalfEven (x : ℚ) : ℤ :=
  if Int.fract x = 1 / 2 ∧ Even ⌊x⌋ then ⌊x⌋ else round x

/-- `x` rounded to `n` significant digits: how a `Decimal` context of precision `n` rounds. -/
def roundDigits (n : ℕ) (x : ℚ) : ℚ :=
  let unit : ℚ := 10 ^ (Int.log 10 |x| - n + 1)
  roundHalfEven (x / unit) * unit

theorem roundHalfEven_intCast (k : ℤ) : roundHalfEven k = k := by
  rw [roundHalfEven, if_neg (fun h => by simp at h), round_intCast]

/-- A number of at most `n` digits is not rounded. -/
theorem roundDigits_of_lt {n : ℕ} {d e : ℤ} (h : |d| < 10 ^ n) :
    roundDigits n (d * 10 ^ e) = d * 10 ^ e := by
  rcases eq_or_ne d 0 with rfl | h0
  · simp [roundDigits, roundHalfEven]
  have hpos : 0 < |(d : ℚ) * 10 ^ e| := abs_pos.mpr (by positivity)
  -- its last digit is not right of the unit
  have hlog : Int.log 10 |(d : ℚ) * 10 ^ e| < n + e := by
    rw [← Int.lt_zpow_iff_log_lt (by decide) hpos, abs_mul,
      abs_of_pos (by positivity : (0 : ℚ) < 10 ^ e), Nat.cast_ofNat, zpow_add₀ (by norm_num),
      zpow_natCast]
    exact mul_lt_mul_of_pos_right (by exact_mod_cast h) (by positivity)
  obtain ⟨k, hk⟩ : ∃ k : ℕ, (k : ℤ) = e - (Int.log 10 |(d : ℚ) * 10 ^ e| - n + 1) :=
    ⟨_, Int.toNat_of_nonneg (by omega)⟩
  have hunits : (d : ℚ) * 10 ^ e / 10 ^ (Int.log 10 |(d : ℚ) * 10 ^ e| - n + 1) =
      ((d * 10 ^ k : ℤ) : ℚ) := by
    rw [mul_div_assoc, ← zpow_sub₀ (by norm_num), ← hk, zpow_natCast]
    push_cast
    rfl
  rw [roundDigits, hunits, roundHalfEven_intCast, ← hunits, div_mul_cancel₀ _ (by positivity)]

example : roundDigits 2 (115 / 10) = 12 ∧ roundDigits 2 (125 / 10) = 12 := by decide +kernel

/-! ## Natural numbers -/

theorem natText_isDigit {n : ℕ} {c : Char} (h : c ∈ (toString n).toList) : c.isDigit := by
  have hc : c ∈ Nat.toDigits 10 n := by simpa using h
  exact Nat.isDigit_of_mem_toDigits (by decide) (by decide) hc

end Lib
