import Mathlib.Data.List.Basic
import Mathlib.Data.List.Nodup
import Mathlib.Data.List.Perm.Subperm
import Mathlib.Data.List.ReduceOption

/-!
# Python sets, and iteration over a set that changes

A set is a hash table, a list of slots. Which slot an element gets depends on its hash, and a table
that gets full is rebuilt; both are left open (`Placement`).

* `add`, `discard`: `members` is the set as a mathematical one.
* `next`: the iterator, a position in the table and the size that the set had at the start. It raises
  when the set has another size.
* `Kept`: what is still in the set is where it was. An `add` to a free slot and a `discard` keep
  everything; a rebuilt table does not.
* `Iterated`: what an iterator has yielded so far, of elements that stay where they are: each once.
-/

namespace Lib

structure PySet (α : Type) where
  slots : List (Option α)
  nodup : slots.reduceOption.Nodup

namespace PySet

variable {α : Type}

def empty : PySet α := ⟨[], List.nodup_nil⟩

def members (s : PySet α) : List α := s.slots.reduceOption

def size (s : PySet α) : ℕ := s.members.length

instance : Membership α (PySet α) := ⟨fun s x => x ∈ s.members⟩

instance [DecidableEq α] (x : α) (s : PySet α) : Decidable (x ∈ s) :=
  inferInstanceAs (Decidable (x ∈ s.members))

variable {s t : PySet α} {x y : α}

theorem mem_iff : x ∈ s ↔ some x ∈ s.slots := List.reduceOption_mem_iff

/-- An element is in one slot. -/
theorem slot_unique {i j : ℕ} (hi : s.slots[i]? = some (some x))
    (hj : s.slots[j]? = some (some x)) : i = j := by
  have hn := s.nodup
  generalize s.slots = l at hi hj hn
  induction l generalizing i j with
  | nil => cases hi
  | cons o l ih =>
    have hl : l.reduceOption.Nodup := by
      cases o with
      | none => exact hn
      | some y => exact (List.nodup_cons.mp hn).2
    have hhead : ∀ k : ℕ, l[k]? = some (some x) → o ≠ some x := by
      rintro k hk rfl
      exact (List.nodup_cons.mp hn).1 (List.reduceOption_mem_iff.mpr (List.mem_of_getElem? hk))
    cases i with
    | zero =>
      cases j with
      | zero => rfl
      | succ j => exact absurd (Option.some.inj hi) (hhead j hj)
    | succ i =>
      cases j with
      | zero => exact absurd (Option.some.inj hj) (hhead i hi)
      | succ j => exact congrArg _ (ih hi hj hl)

/-! ## Adding and discarding -/

/-- Where an added element goes: to a free slot, or into a rebuilt table. -/
inductive Placement (α : Type) where
  | slot (i : ℕ)
  | rebuilt (t : PySet α)

theorem reduceOption_set {l : List (Option α)} {i : ℕ} (h : l[i]? = some none) :
    (l.set i (some x)).reduceOption.Perm (x :: l.reduceOption) := by
  induction l generalizing i with
  | nil => cases h
  | cons o l ih =>
    cases i with
    | zero =>
      cases h
      simp
    | succ i =>
      have hp := ih (i := i) h
      cases o with
      | none => exact hp
      | some y => exact (hp.cons y).trans (.swap x y _)

variable [DecidableEq α]

/-- The table with one more slot. -/
def grown (s : PySet α) (x : α) (h : x ∉ s) : PySet α where
  slots := s.slots ++ [some x]
  nodup := by
    rw [List.reduceOption_append, List.nodup_append]
    refine ⟨s.nodup, by simp, fun a ha b hb e => h ?_⟩
    obtain rfl : b = x := by simpa using hb
    exact e ▸ ha

/-- An element that is in the set is not added again. A placement that is none, a taken slot or
another table's elements, makes the table grow. -/
def add (s : PySet α) (x : α) (p : Placement α) : PySet α :=
  if h : x ∈ s then s
  else match p with
    | .slot i =>
      if hi : s.slots[i]? = some none then
        ⟨s.slots.set i (some x), (reduceOption_set hi).nodup_iff.mpr (List.nodup_cons.mpr ⟨h, s.nodup⟩)⟩
      else s.grown x h
    | .rebuilt t => if t.members.Perm (x :: s.members) then t else s.grown x h

theorem mem_add {p : Placement α} : y ∈ s.add x p ↔ y = x ∨ y ∈ s := by
  unfold add
  split
  · rename_i h
    exact ⟨.inr, fun e => e.elim (fun e => e ▸ h) id⟩
  · rename_i h
    have hgrown : y ∈ s.grown x h ↔ y = x ∨ y ∈ s := by
      rw [mem_iff, mem_iff, grown, List.mem_append, List.mem_singleton, Option.some.injEq]
      exact or_comm
    cases p with
    | slot i =>
      dsimp only
      split
      · rename_i hi
        exact (reduceOption_set hi).mem_iff.trans List.mem_cons
      · exact hgrown
    | rebuilt t =>
      dsimp only
      split
      · rename_i ht
        exact ht.mem_iff.trans List.mem_cons
      · exact hgrown

theorem reduceOption_discard (l : List (Option α)) (x : α) :
    (l.map fun o => if o = some x then none else o).reduceOption =
      l.reduceOption.filter fun y => y ≠ x := by
  induction l with
  | nil => rfl
  | cons o l ih =>
    cases o with
    | none => simpa using ih
    | some y =>
      by_cases e : y = x
      · simp [e, ih]
      · simp [e, ih]

def discard (s : PySet α) (x : α) : PySet α where
  slots := s.slots.map fun o => if o = some x then none else o
  nodup := by
    rw [reduceOption_discard]
    exact s.nodup.filter _

theorem mem_discard : y ∈ s.discard x ↔ y ∈ s ∧ y ≠ x := by
  show y ∈ (s.slots.map _).reduceOption ↔ _
  rw [reduceOption_discard, List.mem_filter, decide_eq_true_eq]
  rfl

/-- `for x in xs: s.discard(x)`. -/
def discardAll (s : PySet α) (xs : List α) : PySet α := xs.foldl discard s

theorem mem_discardAll {xs : List α} : y ∈ s.discardAll xs ↔ y ∈ s ∧ y ∉ xs := by
  induction xs generalizing s with
  | nil => simp [discardAll]
  | cons x xs ih =>
    show y ∈ (s.discard x).discardAll xs ↔ _
    rw [ih, mem_discard]
    simp [and_assoc]

/-! ## What stays in its place -/

omit [DecidableEq α] in
variable (s t) in
/-- The table has its slots, and what is still in the set is where it was. -/
structure Kept : Prop where
  length : t.slots.length = s.slots.length
  slot : ∀ (j : ℕ) (x : α), s.slots[j]? = some (some x) → x ∈ t → t.slots[j]? = some (some x)

omit [DecidableEq α] in
theorem Kept.refl (s : PySet α) : Kept s s := ⟨rfl, fun _ _ h _ => h⟩

omit [DecidableEq α] in
/-- One change after another, when the second adds nothing. -/
theorem Kept.trans {u : PySet α} (h : Kept s t) (h' : Kept t u) (hsub : ∀ x ∈ u, x ∈ t) :
    Kept s u where
  length := h'.length.trans h.length
  slot j x hj hx := h'.slot j x (h.slot j x hj (hsub x hx)) hx

theorem kept_discard (s : PySet α) (x : α) : Kept s (s.discard x) where
  length := List.length_map _
  slot j y hj hy := by
    have hne : y ≠ x := (mem_discard.mp hy).2
    simp [discard, hj, hne]

theorem kept_discardAll (s : PySet α) (xs : List α) : Kept s (s.discardAll xs) := by
  induction xs generalizing s with
  | nil => exact .refl s
  | cons x xs ih =>
    refine (kept_discard s x).trans (ih (s.discard x)) fun y hy => ?_
    change y ∈ (s.discard x).discardAll xs at hy
    exact (mem_discardAll.mp hy).1

/-- The placement is a free slot of the table, or not needed. -/
def Fits (s : PySet α) (x : α) : Placement α → Prop
  | .slot i => x ∈ s ∨ s.slots[i]? = some none
  | .rebuilt _ => x ∈ s

instance (s : PySet α) (x : α) (p : Placement α) : Decidable (Fits s x p) := by
  unfold Fits
  split <;> infer_instance

theorem kept_add {p : Placement α} (h : Fits s x p) : Kept s (s.add x p) := by
  unfold add
  split
  · exact .refl s
  · rename_i hx
    cases p with
    | slot i =>
      have hi := h.resolve_left hx
      simp only [dif_pos hi]
      refine ⟨List.length_set, fun j y hj _ => ?_⟩
      have hne : i ≠ j := by
        rintro rfl
        rw [hi] at hj
        cases hj
      simp [hne, hj]
    | rebuilt t => exact absurd h hx

/-! ## Iteration -/

structure Iter where
  /-- The size of the set at the start. -/
  used : ℕ
  pos : ℕ

def iter (s : PySet α) : Iter := ⟨s.size, 0⟩

/-- The first element of the slots, and the position behind it. -/
def scan : List (Option α) → ℕ → Option (α × ℕ)
  | [], _ => none
  | none :: l, p => scan l (p + 1)
  | some x :: _, p => some (x, p + 1)

inductive Yield (α : Type) where
  /-- `RuntimeError: Set changed size during iteration`. -/
  | raised
  | stopped
  | item (x : α) (it : Iter)

def next (s : PySet α) (it : Iter) : Yield α :=
  if s.size ≠ it.used then .raised
  else match scan (s.slots.drop it.pos) it.pos with
    | none => .stopped
    | some (x, pos) => .item x { it with pos }

section

omit [DecidableEq α]

theorem scan_some {l : List (Option α)} {p q : ℕ} (h : scan l p = some (x, q)) :
    ∃ k, l[k]? = some (some x) ∧ q = p + k + 1 ∧ ∀ i < k, l[i]? = some none := by
  induction l generalizing p with
  | nil => cases h
  | cons o l ih =>
    cases o with
    | none =>
      obtain ⟨k, hk, rfl, hnone⟩ := ih h
      refine ⟨k + 1, hk, by omega, fun i hi => ?_⟩
      cases i with
      | zero => rfl
      | succ i => exact hnone i (by omega)
    | some y =>
      cases h
      exact ⟨0, rfl, rfl, fun i hi => absurd hi (by omega)⟩

theorem scan_none {l : List (Option α)} {p : ℕ} (h : scan l p = none) (k : ℕ) :
    l[k]? ≠ some (some x) := by
  induction l generalizing p k with
  | nil => simp
  | cons o l ih =>
    cases o with
    | none =>
      cases k with
      | zero => simp
      | succ k => exact ih h k
    | some y => cases h

theorem next_raised_iff {it : Iter} : next s it = .raised ↔ s.size ≠ it.used := by
  unfold next
  split
  · simp [*]
  · rename_i h
    split <;> simp [h]

/-- The next element is the one of the first slot in use from the position on. -/
theorem next_item {it it' : Iter} (h : next s it = .item x it') :
    ∃ k, it.pos ≤ k ∧ it' = ⟨it.used, k + 1⟩ ∧ s.slots[k]? = some (some x) ∧
      ∀ i y, it.pos ≤ i → s.slots[i]? = some (some y) → k ≤ i := by
  unfold next at h
  split at h
  · cases h
  split at h
  · cases h
  · rename_i hs
    cases h
    obtain ⟨k, hk, rfl, hnone⟩ := scan_some hs
    rw [List.getElem?_drop] at hk
    refine ⟨it.pos + k, by omega, rfl, hk, fun i y hi hy => ?_⟩
    by_contra hlt
    have := hnone (i - it.pos) (by omega)
    rw [List.getElem?_drop, show it.pos + (i - it.pos) = i by omega, hy] at this
    cases this

theorem next_stopped {it : Iter} (h : next s it = .stopped) {j : ℕ}
    (hj : s.slots[j]? = some (some x)) : j < it.pos := by
  unfold next at h
  split at h
  · cases h
  split at h
  · rename_i hs
    by_contra hlt
    refine scan_none (x := x) hs (j - it.pos) ?_
    rw [List.getElem?_drop, show it.pos + (j - it.pos) = j by omega, hj]
  · cases h

end

/-- Of the elements in `stayed`, the iterator at `pos` has yielded those in the slots before it, each
once. -/
def Iterated (s : PySet α) (stayed yielded : List α) (pos : ℕ) : Prop :=
  ∀ x ∈ stayed, ∃ j, s.slots[j]? = some (some x) ∧ yielded.count x = if j < pos then 1 else 0

variable {stayed yielded : List α}

theorem iterated_start (s : PySet α) : Iterated s s.members [] 0 := by
  intro x hx
  obtain ⟨j, hj⟩ := List.mem_iff_getElem?.mp (mem_iff.mp hx)
  exact ⟨j, hj, rfl⟩

/-- A change of the set that keeps the places of what stays. -/
theorem Iterated.kept {pos : ℕ} (h : Iterated s stayed yielded pos) (hk : Kept s t) :
    Iterated t (stayed.filter (· ∈ t)) yielded pos := by
  intro x hx
  obtain ⟨hx, ht⟩ := List.mem_filter.mp hx
  obtain ⟨j, hj, hc⟩ := h x hx
  exact ⟨j, hk.slot j x hj (of_decide_eq_true ht), hc⟩

theorem Iterated.item {it it' : Iter} (h : Iterated s stayed yielded it.pos)
    (hn : next s it = .item x it') : Iterated s stayed (yielded ++ [x]) it'.pos := by
  obtain ⟨k, hk, rfl, hx, hfirst⟩ := next_item hn
  intro y hy
  obtain ⟨j, hj, hc⟩ := h y hy
  refine ⟨j, hj, ?_⟩
  show _ = if j < k + 1 then 1 else 0
  rw [List.count_append, hc]
  by_cases e : x = y
  · subst e
    obtain rfl : j = k := slot_unique hj hx
    simp [hk]
  · have hne : j ≠ k := by
      rintro rfl
      rw [hj] at hx
      exact e (Option.some.inj (Option.some.inj hx)).symm
    have hle : it.pos ≤ j → k ≤ j := fun hp => hfirst j y hp hj
    have hzero : [x].count y = 0 := by simp [e]
    rw [hzero, Nat.add_zero]
    by_cases hp : j < it.pos
    · have hk' : j < k + 1 := by omega
      rw [if_pos hp, if_pos hk']
    · have hk' : ¬j < k + 1 := by
        have := hle (by omega)
        omega
      rw [if_neg hp, if_neg hk']

theorem Iterated.stopped {it : Iter} (h : Iterated s stayed yielded it.pos)
    (hn : next s it = .stopped) (hx : x ∈ stayed) : yielded.count x = 1 := by
  obtain ⟨j, hj, hc⟩ := h x hx
  rw [hc, if_pos (next_stopped hn hj)]

end PySet

end Lib
