import Mathlib.Algebra.BigOperators.Group.List.Basic
import Mathlib.Algebra.BigOperators.Ring.List
import Mathlib.Algebra.Order.BigOperators.Group.List
import Mathlib.Data.Fintype.EquivFin
import Mathlib.Data.List.Nodup
import Mathlib.Tactic.Abel
import Mathlib.Tactic.Linarith

/-!
# Tables as lists of rows with a key

A table is a list of rows; `key` reads a row's primary key. `modify key k f l` is the table after
an `UPDATE ... WHERE key = k`, `findRow key k l` the lookup by primary key.

* What `modify` keeps: the columns that `f` keeps (`map_modify`).
* What it changes: `sum_modify` is how a sum over the table changes when one row does.
* `Keyed.eq_of_key`: with distinct keys, two rows with one key are one row.
-/

namespace Lib

section Rows

variable {α β : Type} (key : α → β)

/-- The keys are distinct: a primary key or a unique constraint. -/
def Keyed (l : List α) : Prop := (l.map key).Nodup

section

variable {key}

theorem Keyed.cons_iff {x : α} {l : List α} :
    Keyed key (x :: l) ↔ (∀ y ∈ l, key y ≠ key x) ∧ Keyed key l := by
  simp [Keyed, List.nodup_cons]

theorem keyed_append {l l' : List α} :
    Keyed key (l ++ l') ↔ Keyed key l ∧ Keyed key l' ∧ ∀ x ∈ l, ∀ y ∈ l', key x ≠ key y := by
  simp [Keyed, List.nodup_append]

theorem Keyed.append {l : List α} (h : Keyed key l) {x : α} (hx : ∀ y ∈ l, key y ≠ key x) :
    Keyed key (l ++ [x]) := by
  refine keyed_append.mpr ⟨h, List.nodup_singleton _, ?_⟩
  intro y hy z hz
  rw [List.mem_singleton.mp hz]
  exact hx y hy

theorem Keyed.map {f : α → α} {l : List α} (h : Keyed key l) (hf : ∀ x, key (f x) = key x) :
    Keyed key (l.map f) := by
  have e : (l.map f).map key = l.map key := by
    rw [List.map_map]
    exact List.map_congr_left fun x _ => hf x
  rw [Keyed, e]
  exact h

theorem exists_fresh (key : α → ℕ) (l : List α) : ∃ n, ∀ x ∈ l, key x ≠ n := by
  obtain ⟨n, hn⟩ := Infinite.exists_notMem_finset (l.map key).toFinset
  refine ⟨n, fun x hx e => hn ?_⟩
  rw [List.mem_toFinset, ← e]
  exact List.mem_map_of_mem hx

theorem Keyed.nodup {l : List α} (h : Keyed key l) : l.Nodup := List.Nodup.of_map key h

/-- With distinct keys, two rows with one key are one row. -/
theorem Keyed.eq_of_key {l : List α} (h : Keyed key l) {x y : α} (hx : x ∈ l) (hy : y ∈ l)
    (e : key x = key y) : x = y :=
  List.inj_on_of_nodup_map h hx hy e

end

variable [DecidableEq β]

instance (l : List α) : Decidable (Keyed key l) := inferInstanceAs (Decidable (l.map key).Nodup)

/-- The rows after `f` was applied to those with the key `k`. -/
def modify (k : β) (f : α → α) (l : List α) : List α := l.map fun x => if key x = k then f x else x

/-- The row with the key `k`. -/
def findRow (k : β) (l : List α) : Option α := l.find? fun x => key x = k

variable {key}

theorem modify_cons (k : β) (f : α → α) (x : α) (l : List α) :
    modify key k f (x :: l) = (if key x = k then f x else x) :: modify key k f l := rfl

theorem mem_modify {k : β} {f : α → α} {l : List α} {y : α} :
    y ∈ modify key k f l ↔ ∃ x ∈ l, (if key x = k then f x else x) = y := List.mem_map

/-- An update that keeps a column keeps it in the whole table. -/
theorem map_modify {γ : Type} (g : α → γ) {k : β} {f : α → α} (hf : ∀ x, g (f x) = g x)
    (l : List α) : (modify key k f l).map g = l.map g := by
  rw [modify, List.map_map]
  refine List.map_congr_left fun x _ => ?_
  simp only [Function.comp]
  split
  · exact hf x
  · rfl

theorem Keyed.modify {k : β} {f : α → α} {γ : Type} [DecidableEq γ] {c : α → γ} {l : List α}
    (h : Keyed c l) (hf : ∀ x, c (f x) = c x) : Keyed c (Lib.modify key k f l) := by
  rw [Keyed, map_modify c hf]; exact h

theorem findRow_mem {k : β} {l : List α} {x : α} (h : findRow key k l = some x) :
    x ∈ l ∧ key x = k :=
  ⟨List.mem_of_find?_eq_some h, by simpa using List.find?_some h⟩

theorem findRow_none {k : β} {l : List α} : findRow key k l = none ↔ ∀ x ∈ l, key x ≠ k := by
  simp [findRow]

theorem Keyed.findRow {l : List α} (h : Keyed key l) {x : α} (hx : x ∈ l) :
    Lib.findRow key (key x) l = some x := by
  cases hf : Lib.findRow key (key x) l with
  | none => exact absurd rfl (findRow_none.mp hf x hx)
  | some y =>
    obtain ⟨hy, e⟩ := findRow_mem hf
    rw [h.eq_of_key hy hx e]

/-- The lookup by key as a filter. -/
theorem Keyed.filter_key {l : List α} (h : Keyed key l) {x : α} (hx : x ∈ l) :
    l.filter (fun y => key y = key x) = [x] := by
  induction l with
  | nil => cases hx
  | cons y l ih =>
    obtain ⟨hy, hl⟩ := Keyed.cons_iff.mp h
    rcases List.mem_cons.mp hx with rfl | hxl
    · rw [List.filter_cons_of_pos (by simp), List.filter_eq_nil_iff.mpr fun z hz => by simp [hy z hz]]
    · have hne : key y ≠ key x := fun e => hy x hxl e.symm
      rw [List.filter_cons_of_neg (by simp [hne]), ih hl hxl]

theorem modify_of_not_mem {k : β} {f : α → α} {l : List α} (h : ∀ x ∈ l, key x ≠ k) :
    modify key k f l = l := by
  rw [modify]
  conv => rhs; rw [← List.map_id l]
  exact List.map_congr_left fun x hx => by simp [h x hx]

/-- An update that changes no row. -/
theorem modify_eq_self {k : β} {f : α → α} {l : List α} (h : ∀ x ∈ l, key x = k → f x = x) :
    modify key k f l = l := by
  rw [modify]
  conv => rhs; rw [← List.map_id l]
  refine List.map_congr_left fun x hx => ?_
  by_cases e : key x = k
  · simp [e, h x hx e]
  · simp [e]

/-- Two updates of one row are one. -/
theorem modify_modify {k : β} {f g : α → α} (hf : ∀ x, key (f x) = key x) (l : List α) :
    modify key k g (modify key k f l) = modify key k (fun x => g (f x)) l := by
  rw [modify, modify, modify, List.map_map]
  refine List.map_congr_left fun x _ => ?_
  by_cases hx : key x = k
  · simp [hx, hf]
  · simp [hx]

/-- An update of a row that a filter keeps or drops as before. -/
theorem Keyed.filter_modify {l : List α} (h : Keyed key l) {x : α} (hx : x ∈ l) {f : α → α}
    {p : α → Bool} (hp : p (f x) = p x) :
    (Lib.modify key (key x) f l).filter p = Lib.modify key (key x) f (l.filter p) := by
  rw [Lib.modify, List.filter_map, Lib.modify]
  congr 1
  refine List.filter_congr fun y hy => ?_
  simp only [Function.comp]
  split
  · rename_i e
    rw [h.eq_of_key hy hx e]
    exact hp
  · rfl

theorem modify_congr {k : β} {f g : α → α} {l : List α} (h : ∀ x ∈ l, key x = k → f x = g x) :
    modify key k f l = modify key k g l := by
  rw [modify, modify]
  refine List.map_congr_left fun x hx => ?_
  by_cases e : key x = k
  · simp [e, h x hx e]
  · simp [e]

/-- Updates of rows with different keys, one after another. -/
theorem foldl_modify {γ : Type} (k : γ → β) (f : γ → α → α) (hf : ∀ u x, key (f u x) = key x)
    {us : List γ} (hus : Keyed k us) (l : List α) :
    us.foldl (fun l u => modify key (k u) (f u) l) l =
      l.map fun x => ((findRow k (key x) us).map fun u => f u x).getD x := by
  induction us generalizing l with
  | nil => simp [findRow]
  | cons u us ih =>
    obtain ⟨hu, hus⟩ := Keyed.cons_iff.mp hus
    rw [List.foldl_cons, ih hus, modify, List.map_map]
    refine List.map_congr_left fun x _ => ?_
    by_cases hx : key x = k u
    · have hn : findRow k (key x) us = none := findRow_none.mpr fun v hv => hx ▸ hu v hv
      have hs : findRow k (key x) (u :: us) = some u := by simp [findRow, hx]
      simp only [Function.comp, if_pos hx, hf, hn, hs, Option.map_none, Option.map_some,
        Option.getD_none, Option.getD_some]
    · have hs : findRow k (key x) (u :: us) = findRow k (key x) us := by
        have hne : ¬k u = key x := fun e => hx e.symm
        simp only [findRow, List.find?_cons, hne, decide_false]
      simp only [Function.comp, if_neg hx, hs]

/-! ## Tables with a row condition -/

variable {row : α → Prop}

/-- A table with a primary key, each of whose rows satisfies `row`. -/
structure Table (key : α → β) (row : α → Prop) (l : List α) : Prop where
  keyed : Keyed key l
  rows : ∀ x ∈ l, row x

theorem Table.modify {k : β} {f : α → α} {l : List α} (h : Table key row l)
    (hk : ∀ x, key (f x) = key x) (hf : ∀ x, row x → row (f x)) :
    Table key row (modify key k f l) := by
  refine ⟨h.keyed.modify hk, fun y hy => ?_⟩
  obtain ⟨x, hx, rfl⟩ := mem_modify.mp hy
  split
  · exact hf x (h.rows x hx)
  · exact h.rows x hx

omit [DecidableEq β] in
theorem Table.map {f : α → α} {l : List α} (h : Table key row l) (hk : ∀ x, key (f x) = key x)
    (hf : ∀ x ∈ l, row x → row (f x)) : Table key row (l.map f) := by
  refine ⟨h.keyed.map hk, fun y hy => ?_⟩
  obtain ⟨x, hx, rfl⟩ := List.mem_map.mp hy
  exact hf x hx (h.rows x hx)

omit [DecidableEq β] in
theorem Table.append {l : List α} {x : α} (h : Table key row l) (hk : ∀ y ∈ l, key y ≠ key x)
    (hx : row x) : Table key row (l ++ [x]) := by
  refine ⟨h.keyed.append hk, fun y hy => ?_⟩
  rcases List.mem_append.mp hy with hy | hy
  · exact h.rows y hy
  · rw [List.mem_singleton.mp hy]; exact hx

/-! ## Sums over a table -/

variable {M : Type} [AddCommGroup M]

/-- How a sum changes when the one row with the key `k` does. -/
theorem sum_modify (g : α → M) {k : β} {f : α → α} {l : List α} (h : Keyed key l) {x : α}
    (hx : x ∈ l) (hk : key x = k) :
    ((modify key k f l).map g).sum = (l.map g).sum - g x + g (f x) := by
  induction l with
  | nil => cases hx
  | cons y l ih =>
    obtain ⟨hy, hl⟩ := Keyed.cons_iff.mp h
    rw [modify_cons]
    rcases List.mem_cons.mp hx with rfl | hxl
    · rw [if_pos hk, modify_of_not_mem fun z hz => hk ▸ hy z hz]
      simp only [List.map_cons, List.sum_cons]
      abel
    · have hne : key y ≠ k := fun e => hy x hxl (hk.trans e.symm)
      rw [if_neg hne]
      simp only [List.map_cons, List.sum_cons, ih hl hxl]
      abel

/-- A filtered sum is a sum of the summands that the filter lets through. -/
theorem sum_filter (p : α → Bool) (g : α → M) (l : List α) :
    ((l.filter p).map g).sum = (l.map fun x => if p x then g x else 0).sum := by
  induction l with
  | nil => rfl
  | cons x l ih =>
    rw [List.filter_cons, List.map_cons, List.sum_cons, ← ih]
    split <;> simp

omit [DecidableEq β] in
/-- A sum over the rows of one table that are in the other. -/
theorem sum_inter [DecidableEq α] (g : α → M) {l l' : List α} (h : Keyed key l) (h' : Keyed key l') :
    ((l.filter fun x => x ∈ l').map g).sum = ((l'.filter fun x => x ∈ l).map g).sum := by
  have hp : (l.filter fun x => x ∈ l').Perm (l'.filter fun x => x ∈ l) := by
    refine (List.perm_ext_iff_of_nodup (h.nodup.filter _) (h'.nodup.filter _)).mpr fun x => ?_
    simp [and_comm]
  exact (hp.map g).sum_eq

end Rows

section Order

variable {α : Type}

theorem sum_nonneg_of {g : α → ℚ} {l : List α} (h : ∀ x ∈ l, 0 ≤ g x) : 0 ≤ (l.map g).sum :=
  List.sum_nonneg fun y hy => by
    obtain ⟨x, hx, rfl⟩ := List.mem_map.mp hy
    exact h x hx

theorem sum_nonpos_of {g : α → ℚ} {l : List α} (h : ∀ x ∈ l, g x ≤ 0) : (l.map g).sum ≤ 0 :=
  (List.sum_le_sum h).trans_eq (by simp)

/-- Numbers without opposite signs that add up to 0 are 0. -/
theorem eq_zero_of_sum_eq_zero {l : List ℚ} (hs : l.sum = 0)
    (hsign : ∀ x ∈ l, ∀ y ∈ l, 0 ≤ x * y) {x : ℚ} (hx : x ∈ l) : x = 0 := by
  have hall : x * x ≤ (l.map fun y => x * y).sum :=
    List.single_le_sum (by simpa using hsign x hx) _ (List.mem_map_of_mem hx)
  rw [List.sum_map_mul_left, List.map_id', hs, mul_zero] at hall
  exact mul_self_eq_zero.mp (le_antisymm hall (mul_self_nonneg x))

end Order

end Lib
