import CryptoExchange.Lib.Numeral

/-!
# JSON values

The values that `json.dumps` accepts and `json.loads` returns, with `int` and `float` apart, and
dicts as association lists in insertion order.
-/

namespace Lib

/-- A JSON value. -/
inductive Json where
  | null
  | bool (b : Bool)
  | int (n : ℤ)
  | float (x : PyFloat)
  | str (s : String)
  | arr (xs : List Json)
  | obj (kvs : List (String × Json))

/-- Induction on a value: its parts are the elements of the lists in it. -/
@[elab_as_elim] theorem Json.induct {P : Json → Prop} (null : P .null) (bool : ∀ b, P (.bool b))
    (int : ∀ n, P (.int n)) (float : ∀ x, P (.float x)) (str : ∀ s, P (.str s))
    (arr : ∀ xs, (∀ x ∈ xs, P x) → P (.arr xs))
    (obj : ∀ kvs, (∀ kv ∈ kvs, P kv.2) → P (.obj kvs)) (j : Json) : P j := by
  refine Json.rec (motive_1 := P) (motive_2 := fun xs => ∀ x ∈ xs, P x)
    (motive_3 := fun kvs => ∀ kv ∈ kvs, P kv.2) (motive_4 := fun kv => P kv.2)
    null bool int float str arr obj ?_ ?_ ?_ ?_ ?_ j
  · simp
  · intro x xs hx hxs
    simpa using ⟨hx, hxs⟩
  · simp
  · intro kv kvs hkv hkvs
    simpa using ⟨hkv, fun k x => hkvs (k, x)⟩
  · exact fun _ _ h => h

/-- A dict: the members of a JSON object. -/
abbrev Dict := List (String × Json)

end Lib
