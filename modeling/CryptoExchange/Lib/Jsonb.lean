import CryptoExchange.Lib.JsonText

/-!
# Storage as `jsonb`

What is read back when a value is printed as JSON, stored in a `jsonb` column and loaded again
(`Json.stored`).

* A number is kept as a `numeric`: an exact decimal that prints no exponent, with as many decimals
  as it was given, and that has no negative zero (`Numeral.numeric`). `json.loads` reads a numeral
  without a point or an exponent as an `int` (`Json.ofNumeral`).
* The members of an object are kept in an order of their own (`keyOrder`).

A value is read back with the text it had (`dumps_stored`) exactly when none of its floats is as
large as `10 ^ 16`, which is where `repr` turns to an exponent, or a negative zero
(`PyFloat.Kept`).
-/

namespace Lib

/-! ## Numbers -/

/-- The numeral that `numeric` prints for the one that it was given. -/
def Numeral.numeric (n : Numeral) : Numeral :=
  let decimals := (n.scale : ℤ) - n.exp.getD 0
  ⟨n.neg && n.mantissa ≠ 0, n.mantissa * 10 ^ (-decimals).toNat, decimals.toNat, none⟩

/-- `json.loads` of a numeral. -/
def Json.ofNumeral (n : Numeral) : Option Json :=
  if n.scale = 0 ∧ n.exp = none then
    some (.int (if n.neg then -(n.mantissa : ℤ) else n.mantissa))
  else (PyFloat.ofNumeral n).map Json.float

namespace PyFloat

/-- The float is read back as it was. -/
def Kept (x : PyFloat) : Prop := |x.value| < 10 ^ 16 ∧ ¬(x.neg ∧ x.digits = 0)

instance (x : PyFloat) : Decidable x.Kept := inferInstanceAs (Decidable (_ ∧ _))

theorem abs_value (x : PyFloat) : |x.value| = x.digits * (10 : ℚ) ^ x.exp := by
  have h : (0 : ℚ) ≤ x.digits * (10 : ℚ) ^ x.exp :=
    mul_nonneg (Nat.cast_nonneg _) (zpow_nonneg (by norm_num) _)
  unfold value
  split
  · rw [neg_one_mul, neg_mul, abs_neg, abs_of_nonneg h]
  · rw [one_mul, abs_of_nonneg h]

/-- The decimal point is behind at most 16 digits below `10 ^ 16`. -/
theorem decpt_le_iff (x : PyFloat) : x.decpt ≤ 16 ↔ |x.value| < 10 ^ 16 := by
  have hten : (0 : ℚ) < 10 ^ x.exp := zpow_pos (by norm_num) _
  have hdiv : (10 : ℚ) ^ 16 / 10 ^ x.exp = 10 ^ (16 - x.exp) := by
    rw [zpow_sub₀ (by norm_num)]
    norm_num
  rw [abs_value, decpt, ← lt_div_iff₀ hten, hdiv]
  by_cases hk : x.exp < 16
  · obtain ⟨k, hk'⟩ : ∃ k : ℕ, 16 - x.exp = k := ⟨(16 - x.exp).toNat, by omega⟩
    rw [hk', zpow_natCast]
    have hdigits := numDigits_le_iff (n := x.digits) (k := k) (by omega)
    rw [show (numDigits x.digits : ℤ) + x.exp ≤ 16 ↔ numDigits x.digits ≤ k by omega, hdigits]
    exact_mod_cast Iff.rfl
  · have hpos := numDigits_pos x.digits
    have hd : 1 ≤ x.digits := by
      rcases x.shortest with h | ⟨-, h⟩ <;> omega
    refine iff_of_false (by omega) (not_lt.mpr ?_)
    calc (10 : ℚ) ^ (16 - x.exp) ≤ 1 := zpow_le_one_of_nonpos₀ (by norm_num) (by omega)
      _ ≤ x.digits := by exact_mod_cast hd

/-- The float without the sign of a negative zero. -/
def unsignedZero (x : PyFloat) : PyFloat := { x with neg := x.neg && x.digits ≠ 0 }

theorem unsignedZero_eq_iff (x : PyFloat) : x.unsignedZero = x ↔ ¬(x.neg ∧ x.digits = 0) := by
  obtain ⟨neg, d, e, hs, hd⟩ := x
  cases neg <;> simp [unsignedZero]

theorem kept_unsignedZero {x : PyFloat} (h : x.decpt ≤ 16) : x.unsignedZero.Kept := by
  refine ⟨(decpt_le_iff _).mp h, ?_⟩
  simp only [unsignedZero, Bool.and_eq_true, decide_eq_true_eq]
  exact fun hz => hz.1.2 hz.2

theorem numDigits_le (x : PyFloat) : numDigits x.digits ≤ 17 :=
  (numDigits_le_iff (by decide)).mpr x.digits_lt

/-- A decimal with a point is read as a float. -/
theorem ofNumeral_point (x : PyFloat) {k s : ℕ} (hs : s ≠ 0) (h : x.exp - k = -s) :
    Json.ofNumeral ⟨x.neg, x.digits * 10 ^ k, s, none⟩ = some (.float x) := by
  have hx := ofDecimal_shift x k
  rw [Json.ofNumeral, if_neg (fun h => hs h.1), ofNumeral]
  simp only [Option.getD_none, zero_sub, ← h, hx, Option.map_some]

/-- Below `10 ^ 16` a float is read back as a float. -/
theorem ofNumeral_numeric {x : PyFloat} (h : x.decpt ≤ 16) :
    Json.ofNumeral x.repr.numeric = some (.float x.unsignedZero) := by
  have hpos := numDigits_pos x.digits
  have hzero : ∀ k : ℕ, decide (x.digits * 10 ^ k ≠ 0) = decide (x.digits ≠ 0) := by
    intro k
    simp
  unfold repr
  split
  · have hs : (0 : ℤ) ≤ (max 1 (-x.exp).toNat : ℕ) + x.exp := by omega
    have hn : (-((max 1 (-x.exp).toNat : ℕ) - (0 : ℤ))).toNat = 0 := by omega
    have ht : ((max 1 (-x.exp).toNat : ℕ) - (0 : ℤ)).toNat = max 1 (-x.exp).toNat := by omega
    simp only [Numeral.numeric, Option.getD_none, hn, ht, pow_zero, mul_one, hzero]
    exact ofNumeral_point x.unsignedZero (by omega) (by simp only [unsignedZero]; omega)
  · rename_i hr
    have hd : ((numDigits x.digits - 1 : ℕ) : ℤ) - (x.decpt - 1) = -x.exp := by
      simp only [decpt]; omega
    have he : x.exp < 0 := by
      simp only [decpt] at h hr; omega
    simp only [Numeral.numeric, Option.getD_some, hd, neg_neg]
    rw [Int.toNat_of_nonpos he.le, pow_zero, mul_one]
    have := ofNumeral_point x.unsignedZero (k := 0) (s := (-x.exp).toNat) (by omega)
      (by simp only [unsignedZero]; omega)
    rwa [pow_zero, mul_one] at this

/-- From `10 ^ 16` on a float comes back as an integer. -/
theorem ofNumeral_numeric_large {x : PyFloat} (h : 16 < x.decpt) :
    ∃ n, Json.ofNumeral x.repr.numeric = some (.int n) := by
  have hd := x.numDigits_le
  have hr : ¬(-4 < x.decpt ∧ x.decpt ≤ 16) := by omega
  have hpos := numDigits_pos x.digits
  rw [repr, if_neg hr]
  refine ⟨_, if_pos ⟨?_, rfl⟩⟩
  simp only [Numeral.numeric, Option.getD_some, decpt] at h ⊢
  omega

end PyFloat

theorem ofNumeral_ofInt (n : ℤ) : Json.ofNumeral (Numeral.ofInt n).numeric = some (.int n) := by
  rw [Json.ofNumeral, if_pos ⟨rfl, rfl⟩]
  congr 2
  simp only [Numeral.numeric, Numeral.ofInt]
  by_cases h : n < 0
  · simp [h, h.ne, abs_of_neg h]
  · simp [h, abs_of_nonneg (not_lt.mp h)]

/-! ## Values -/

namespace Json

/-- The order of the keys in an object: by length, then by their bytes. -/
def keyOrder (a b : String × Json) : Prop :=
  a.1.utf8ByteSize < b.1.utf8ByteSize ∨ a.1.utf8ByteSize = b.1.utf8ByteSize ∧ a.1 ≤ b.1

instance : DecidableRel keyOrder := fun _ _ => inferInstanceAs (Decidable (_ ∨ _))

mutual

/-- The value that is read back. A number is always read: `getD` gives no default. -/
def stored : Json → Json
  | .int n => (ofNumeral (Numeral.ofInt n).numeric).getD .null
  | .float x => (ofNumeral x.repr.numeric).getD .null
  | .arr xs => .arr (storedItems xs)
  | .obj kvs => .obj ((storedMembers kvs).insertionSort keyOrder)
  | j => j

def storedItems : List Json → List Json
  | [] => []
  | x :: xs => stored x :: storedItems xs

def storedMembers : List (String × Json) → List (String × Json)
  | [] => []
  | (k, x) :: kvs => (k, stored x) :: storedMembers kvs

end

theorem storedItems_eq (xs : List Json) : storedItems xs = xs.map stored := by
  induction xs with
  | nil => rfl
  | cons x xs ih => rw [storedItems, ih, List.map_cons]

theorem storedMembers_eq (kvs : List (String × Json)) :
    storedMembers kvs = kvs.map (Prod.map id stored) := by
  induction kvs with
  | nil => rfl
  | cons kv kvs ih => rw [storedMembers, ih, List.map_cons, Prod.map, id]

mutual

/-- Every float in the value is kept. -/
def Kept : Json → Prop
  | .float x => x.Kept
  | .arr xs => KeptItems xs
  | .obj kvs => KeptMembers kvs
  | _ => True

def KeptItems : List Json → Prop
  | [] => True
  | x :: xs => Kept x ∧ KeptItems xs

def KeptMembers : List (String × Json) → Prop
  | [] => True
  | (_, x) :: kvs => Kept x ∧ KeptMembers kvs

end

theorem kept_arr {xs : List Json} : Kept (.arr xs) ↔ ∀ x ∈ xs, Kept x := by
  rw [Kept]
  induction xs with
  | nil => simp [KeptItems]
  | cons x xs ih => simp [KeptItems, ih]

theorem kept_obj {kvs : List (String × Json)} : Kept (.obj kvs) ↔ ∀ kv ∈ kvs, Kept kv.2 := by
  rw [Kept]
  induction kvs with
  | nil => simp [KeptMembers]
  | cons kv kvs ih => simp [KeptMembers, ih]

mutual

def decideKept : (j : Json) → Decidable (Kept j)
  | .float x => inferInstanceAs (Decidable x.Kept)
  | .arr xs => decideKeptItems xs
  | .obj kvs => decideKeptMembers kvs
  | .null | .bool _ | .int _ | .str _ => inferInstanceAs (Decidable True)

def decideKeptItems : (xs : List Json) → Decidable (KeptItems xs)
  | [] => inferInstanceAs (Decidable True)
  | x :: xs => @instDecidableAnd _ _ (decideKept x) (decideKeptItems xs)

def decideKeptMembers : (kvs : List (String × Json)) → Decidable (KeptMembers kvs)
  | [] => inferInstanceAs (Decidable True)
  | (_, x) :: kvs => @instDecidableAnd _ _ (decideKept x) (decideKeptMembers kvs)

end

instance (j : Json) : Decidable (Kept j) := decideKept j

theorem stored_float (x : PyFloat) :
    stored (.float x) = .float x.unsignedZero ∧ x.decpt ≤ 16 ∨
      16 < x.decpt ∧ ∃ n, stored (.float x) = .int n := by
  rw [stored]
  by_cases h : x.decpt ≤ 16
  · rw [PyFloat.ofNumeral_numeric h]
    exact .inl ⟨rfl, h⟩
  · obtain ⟨n, hn⟩ := PyFloat.ofNumeral_numeric_large (not_le.mp h)
    rw [hn]
    exact .inr ⟨not_le.mp h, n, rfl⟩

theorem sortKeys_stored_float (x : PyFloat) :
    sortKeys (stored (.float x)) = sortKeys (.float x) ↔ x.Kept := by
  rw [PyFloat.Kept, ← PyFloat.decpt_le_iff]
  rcases stored_float x with ⟨e, h⟩ | ⟨h, n, e⟩
  · rw [e, sortKeys, sortKeys, float.injEq, PyFloat.unsignedZero_eq_iff]
    · exact ⟨fun hz => ⟨h, hz⟩, fun hk => hk.2⟩
    all_goals simp
  · rw [e]
    simp only [sortKeys, reduceCtorEq, false_iff]
    exact fun hk => absurd hk.1 (not_le.mpr h)

/-- **A value is read back** up to the order of its keys exactly when its floats are kept. -/
theorem sortKeys_stored {j : Json} (hd : Distinct j) :
    sortKeys (stored j) = sortKeys j ↔ Kept j := by
  induction j using Json.induct with
  | null => simp [stored, Kept]
  | bool b => simp [stored, Kept]
  | int n => simp [stored, Kept, ofNumeral_ofInt]
  | float x => rw [Kept, sortKeys_stored_float]
  | str s => simp [stored, Kept]
  | arr xs ih =>
    rw [distinct_arr] at hd
    rw [stored, sortKeys, sortKeys, arr.injEq, sortItems_eq, sortItems_eq, storedItems_eq,
      List.map_map, List.map_inj_left, kept_arr]
    exact forall₂_congr fun x hx => ih x hx (hd x hx)
  | obj kvs ih =>
    rw [distinct_obj] at hd
    obtain ⟨hk, hd⟩ := hd
    have hkeys : Keyed Prod.fst ((kvs.map (Prod.map id stored)).map (Prod.map id sortKeys)) := by
      simpa [Keyed, Function.comp_def] using hk
    have hperm := insertionSort_perm hkeys
      ((List.perm_insertionSort keyOrder (kvs.map (Prod.map id stored))).map _).symm
    rw [stored, sortKeys_obj, sortKeys_obj, obj.injEq, storedMembers_eq, ← hperm,
      insertionSort_map, insertionSort_map, insertionSort_map, List.map_map, List.map_inj_left,
      kept_obj]
    simp only [List.mem_insertionSort]
    refine forall₂_congr fun kv hkv => ?_
    rw [← ih kv hkv (hd kv hkv)]
    simp [Prod.ext_iff]

theorem dumps_stored {j : Json} (hd : Distinct j) : dumps (stored j) = dumps j ↔ Kept j :=
  dumps_inj.trans (sortKeys_stored hd)

end Json

end Lib
