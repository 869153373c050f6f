import Mathlib.Data.Rat.Floor
import Mathlib.Algebra.Order.Round
import Mathlib.Tactic.Linarith
import Mathlib.Tactic.FieldSimp
import Mathlib.Tactic.Ring

/-!
# Columns that round what they store

A database column keeps a number to a fixed number of decimals. `Column` is what a proof needs
of such a column: storing is monotone and odd, stored values are closed under `+`, and adding a
stored value to a nonnegative one commutes with storing (`store_add`): a sum that is kept up to
date in one column and its parts, kept in others, do not drift apart.

* `Column.exact` stores every number.
* `Column.numeric n` rounds to `n` decimals, half away from zero: PostgreSQL's `NUMERIC(p, n)`.
-/

namespace Lib

/-- A column of numbers (module doc). -/
structure Column where
  store : ℚ → ℚ
  mono : Monotone store
  neg : ∀ x, store (-x) = -store x
  idem : ∀ x, store (store x) = store x
  add_stored : ∀ x y, store x = x → store y = y → store (x + y) = x + y
  store_add : ∀ x y, store x = x → 0 ≤ x → 0 ≤ y → store (x + y) = x + store y

namespace Column

/-- `x` is a value that the column can hold. -/
def Holds (c : Column) (x : ℚ) : Prop := c.store x = x

instance (c : Column) (x : ℚ) : Decidable (c.Holds x) := inferInstanceAs (Decidable (_ = _))

section

variable (c : Column)

@[simp] theorem store_zero : c.store 0 = 0 := by
  have h := c.neg 0
  rw [neg_zero] at h
  linarith

theorem holds_zero : c.Holds 0 := c.store_zero

variable {c}

theorem store_nonpos {x : ℚ} (h : x ≤ 0) : c.store x ≤ 0 := by
  simpa using c.mono h

theorem Holds.store {x : ℚ} (h : c.Holds x) : c.store x = x := h

theorem store_nonneg {x : ℚ} (h : 0 ≤ x) : 0 ≤ c.store x := by
  simpa using c.mono h

theorem Holds.neg {x : ℚ} (h : c.Holds x) : c.Holds (-x) := by
  rw [Holds, c.neg, h.store]

theorem Holds.add {x y : ℚ} (hx : c.Holds x) (hy : c.Holds y) : c.Holds (x + y) :=
  c.add_stored x y hx hy

theorem Holds.sub {x y : ℚ} (hx : c.Holds x) (hy : c.Holds y) : c.Holds (x - y) := by
  rw [sub_eq_add_neg]; exact hx.add hy.neg

/-- Adding to a stored value of the same sign. -/
theorem Holds.store_add {x y : ℚ} (hx : c.Holds x) (h : 0 ≤ x ∧ 0 ≤ y ∨ x ≤ 0 ∧ y ≤ 0) :
    c.store (x + y) = x + c.store y := by
  rcases h with ⟨h0, hy⟩ | ⟨h0, hy⟩
  · exact c.store_add x y hx h0 hy
  · have := c.store_add (-x) (-y) hx.neg (by linarith) (by linarith)
    rw [← neg_add, c.neg, c.neg] at this
    linarith

theorem holds_sum {l : List ℚ} (h : ∀ x ∈ l, c.Holds x) : c.Holds l.sum := by
  induction l with
  | nil => exact c.holds_zero
  | cons x l ih =>
    rw [List.sum_cons]
    exact (h x List.mem_cons_self).add (ih fun y hy => h y (List.mem_cons_of_mem _ hy))

theorem Holds.abs {x : ℚ} (h : c.Holds x) : c.Holds |x| := by
  rcases abs_choice x with e | e <;> rw [e]
  · exact h
  · exact h.neg

theorem Holds.max {x y : ℚ} (hx : c.Holds x) (hy : c.Holds y) : c.Holds (max x y) := by
  rcases max_choice x y with e | e <;> rw [e]
  · exact hx
  · exact hy

/-- What fits below a stored bound before storing fits below it after. -/
theorem Holds.store_le {x y : ℚ} (hy : c.Holds y) (h : x ≤ y) : c.store x ≤ y := by
  have := c.mono h
  rwa [hy.store] at this

end

/-- A column without rounding. -/
def exact : Column where
  store x := x
  mono _ _ h := h
  neg _ := rfl
  idem _ := rfl
  add_stored _ _ _ _ := rfl
  store_add _ _ _ _ _ := rfl

@[simp] theorem exact_store (x : ℚ) : exact.store x = x := rfl

/-! ## Rounding half away from zero -/

/-- `x` rounded to an integer, halves away from zero. -/
def roundAway (x : ℚ) : ℤ := if 0 ≤ x then ⌊x + 1 / 2⌋ else -⌊-x + 1 / 2⌋

theorem roundAway_of_nonneg {x : ℚ} (h : 0 ≤ x) : roundAway x = ⌊x + 1 / 2⌋ := if_pos h

theorem roundAway_nonneg {x : ℚ} (h : 0 ≤ x) : 0 ≤ roundAway x := by
  rw [roundAway_of_nonneg h]
  exact Int.floor_nonneg.mpr (by linarith)

theorem roundAway_neg (x : ℚ) : roundAway (-x) = -roundAway x := by
  unfold roundAway
  rcases lt_trichotomy x 0 with h | rfl | h
  · rw [if_pos (by linarith), if_neg (by linarith), neg_neg]
  · norm_num
  · rw [if_neg (by linarith), if_pos h.le, neg_neg]

theorem roundAway_intCast (n : ℤ) : roundAway n = n := by
  have key : ∀ m : ℤ, ⌊(m : ℚ) + 1 / 2⌋ = m := fun m => by
    rw [Int.floor_intCast_add]; norm_num
  unfold roundAway
  split
  · exact key n
  · rw [← Int.cast_neg, key, neg_neg]

theorem roundAway_mono {x y : ℚ} (h : x ≤ y) : roundAway x ≤ roundAway y := by
  rcases le_or_gt 0 x with hx | hx
  · rw [roundAway_of_nonneg hx, roundAway_of_nonneg (hx.trans h)]
    exact Int.floor_le_floor (by linarith)
  rcases le_or_gt 0 y with hy | hy
  · have h1 : 0 ≤ roundAway (-x) := roundAway_nonneg (by linarith)
    rw [roundAway_neg] at h1
    have := roundAway_nonneg hy
    omega
  · rw [roundAway, if_neg (by linarith), roundAway, if_neg (by linarith)]
    exact neg_le_neg (Int.floor_le_floor (by linarith))

theorem roundAway_int_add {x : ℚ} (n : ℤ) (hn : 0 ≤ n) (hx : 0 ≤ x) :
    roundAway (n + x) = n + roundAway x := by
  have hn' : (0 : ℚ) ≤ n := by exact_mod_cast hn
  rw [roundAway_of_nonneg (by linarith), roundAway_of_nonneg hx, add_assoc, Int.floor_intCast_add]

/-- `x` rounded to `n` decimals, halves away from zero. -/
def roundTo (n : ℕ) (x : ℚ) : ℚ := roundAway (x * 10 ^ n) / 10 ^ n

section

variable {n : ℕ}

theorem ten_pow_pos (n : ℕ) : (0 : ℚ) < 10 ^ n := by positivity

/-- The numbers with `n` decimals are the multiples of `10 ^ (-n)`. -/
theorem roundTo_eq_self_iff {x : ℚ} : roundTo n x = x ↔ ∃ k : ℤ, x * 10 ^ n = k := by
  have h := (ten_pow_pos n).ne'
  constructor
  · intro e
    exact ⟨roundAway (x * 10 ^ n), by rw [roundTo, div_eq_iff h] at e; exact e.symm⟩
  · rintro ⟨k, hk⟩
    rw [roundTo, hk, roundAway_intCast, div_eq_iff h, hk]

theorem roundTo_add {x y : ℚ} (hx : roundTo n x = x) (h0 : 0 ≤ x) (hy : 0 ≤ y) :
    roundTo n (x + y) = x + roundTo n y := by
  have h := ten_pow_pos n
  obtain ⟨k, hk⟩ := roundTo_eq_self_iff.mp hx
  have hk0 : 0 ≤ k := by
    have : (0 : ℚ) ≤ k := by rw [← hk]; positivity
    exact_mod_cast this
  rw [roundTo, roundTo, add_mul, hk, roundAway_int_add k hk0 (by positivity)]
  push_cast
  rw [add_div, ← hk, mul_div_assoc, div_self h.ne', mul_one]

end

/-- `NUMERIC(p, n)`: `n` decimals, half away from zero. -/
def numeric (n : ℕ) : Column where
  store := roundTo n
  mono x y h := by
    have hp := ten_pow_pos n
    have := roundAway_mono (mul_le_mul_of_nonneg_right h hp.le)
    exact div_le_div_of_nonneg_right (by exact_mod_cast this) hp.le
  neg x := by rw [roundTo, neg_mul, roundAway_neg, Int.cast_neg, neg_div]; rfl
  idem x := roundTo_eq_self_iff.mpr
    ⟨roundAway (x * 10 ^ n), by rw [roundTo, div_mul_cancel₀ _ (ten_pow_pos n).ne']⟩
  add_stored x y hx hy := by
    obtain ⟨k, hk⟩ := roundTo_eq_self_iff.mp hx
    obtain ⟨l, hl⟩ := roundTo_eq_self_iff.mp hy
    exact roundTo_eq_self_iff.mpr ⟨k + l, by rw [add_mul, hk, hl, Int.cast_add]⟩
  store_add x y := roundTo_add

end Column

end Lib
