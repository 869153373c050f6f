import CryptoExchange.Lib.JsonText

/-!
# What the columns take

A database refuses a row when a value does not fit its column. A text has no `U+0000`
(`NoNul`); a `VARCHAR(n)` takes at most `n` characters, and an `INTEGER` 32 bits. `jsonb` takes
every JSON value whose texts have no `U+0000` (`Json.Accepted`), and no lone surrogate.

* `Varchar n` and `PgInt` are values that came from a column.
* The printed integers fit (`fitsVarchar_toString`).
* `PyText` is a text of Python, where a surrogate can stand by itself.
-/

namespace Lib

/-- The text has no `U+0000`. -/
def NoNul (s : String) : Prop := Char.ofNat 0 ∉ s.toList

instance (s : String) : Decidable (NoNul s) := inferInstanceAs (Decidable (_ ∉ s.toList))

theorem noNul_append {s t : String} : NoNul (s ++ t) ↔ NoNul s ∧ NoNul t := by
  simp [NoNul, String.toList_append]

def FitsVarchar (n : ℕ) (s : String) : Prop := s.length ≤ n ∧ NoNul s

instance (n : ℕ) (s : String) : Decidable (FitsVarchar n s) := inferInstanceAs (Decidable (_ ∧ _))

theorem FitsVarchar.mono {m n : ℕ} {s : String} (h : FitsVarchar m s) (hmn : m ≤ n) :
    FitsVarchar n s :=
  ⟨h.1.trans hmn, h.2⟩

def FitsInteger (n : ℤ) : Prop := -2 ^ 31 ≤ n ∧ n < 2 ^ 31

instance (n : ℤ) : Decidable (FitsInteger n) := inferInstanceAs (Decidable (_ ∧ _))

/-- A value of a `VARCHAR(n)` column. -/
structure Varchar (n : ℕ) where
  text : String
  fits : FitsVarchar n text

/-- A value of an `INTEGER` column. -/
structure PgInt where
  val : ℤ
  fits : FitsInteger val

@[simp] theorem Varchar.fitsVarchar {n : ℕ} (s : Varchar n) : FitsVarchar n s.text := s.fits

@[simp] theorem PgInt.fitsInteger (n : PgInt) : FitsInteger n.val := n.fits

/-! ## Texts of Python -/

/-- A code point that is no character, `U+D800` the first; the first 1024 are the high ones. -/
abbrev Surrogate := Fin 2048

/-- A sequence of code points: characters, and surrogates with the characters behind each. -/
structure PyText where
  head : String
  rest : List (Surrogate × String) := []
  deriving DecidableEq

namespace PyText

/-- The text has no surrogate. -/
def toString? (t : PyText) : Option String := if t.rest = [] then some t.head else none

/-- `f` goes through the characters one by one, and leaves surrogates as they are. -/
def map (f : String → String) (t : PyText) : PyText where
  head := f t.head
  rest := t.rest.map fun x => (x.1, f x.2)

/-- No two surrogates are next to each other that are a pair, and so one character. -/
def Joined (t : PyText) : Prop :=
  t.rest.IsChain fun x y => ¬(x.2 = "" ∧ x.1.val < 1024 ∧ 1024 ≤ y.1.val)

end PyText

/-! ## Printed integers -/

theorem noNul_toDigits (n : ℕ) : NoNul (String.ofList (Nat.toDigits 10 n)) := by
  intro h
  rw [String.toList_ofList] at h
  have := Nat.isDigit_of_mem_toDigits (by decide) (by decide) h
  revert this
  decide

theorem fitsVarchar_toDigits {n : ℕ} (h : n < 10 ^ 10) :
    FitsVarchar 10 (String.ofList (Nat.toDigits 10 n)) :=
  ⟨by rw [String.length_ofList]; exact (numDigits_le_iff (by decide)).mpr h,
    noNul_toDigits n⟩

theorem fitsVarchar_toString {n : ℤ} (h : FitsInteger n) : FitsVarchar 11 (toString n) := by
  obtain ⟨hlo, hhi⟩ := h
  cases n with
  | ofNat n =>
    have hn : n < 10 ^ 10 := by
      simp only [Int.ofNat_eq_natCast] at hhi
      omega
    exact (fitsVarchar_toDigits hn).mono (by decide)
  | negSucc n =>
    have hn : n + 1 < 10 ^ 10 := by omega
    obtain ⟨hlen, hnul⟩ := fitsVarchar_toDigits hn
    show FitsVarchar 11 ("-" ++ String.ofList (Nat.toDigits 10 (n + 1)))
    refine ⟨?_, noNul_append.mpr ⟨by decide, hnul⟩⟩
    rw [String.length_append]
    have : "-".length = 1 := rfl
    omega

/-! ## `jsonb` -/

namespace Json

mutual

/-- Python reads no integer that is too long for a `numeric`. -/
def Accepted : Json → Prop
  | .str s => NoNul s
  | .arr xs => AcceptedItems xs
  | .obj kvs => AcceptedMembers kvs
  | _ => True

def AcceptedItems : List Json → Prop
  | [] => True
  | x :: xs => Accepted x ∧ AcceptedItems xs

def AcceptedMembers : List (String × Json) → Prop
  | [] => True
  | (k, x) :: kvs => (NoNul k ∧ Accepted x) ∧ AcceptedMembers kvs

end

@[simp] theorem accepted_null : Accepted .null := trivial

@[simp] theorem accepted_int (n : ℤ) : Accepted (.int n) := trivial

@[simp] theorem accepted_float (x : PyFloat) : Accepted (.float x) := trivial

@[simp] theorem accepted_str {s : String} : Accepted (.str s) ↔ NoNul s := Iff.rfl

theorem accepted_arr {xs : List Json} : Accepted (.arr xs) ↔ ∀ x ∈ xs, Accepted x := by
  rw [Accepted]
  induction xs with
  | nil => simp [AcceptedItems]
  | cons x xs ih => simp [AcceptedItems, ih]

@[simp] theorem accepted_obj_nil : Accepted (.obj []) := trivial

@[simp] theorem accepted_obj_cons {k : String} {x : Json} {kvs : List (String × Json)} :
    Accepted (.obj ((k, x) :: kvs)) ↔ (NoNul k ∧ Accepted x) ∧ Accepted (.obj kvs) := Iff.rfl

end Json

end Lib
