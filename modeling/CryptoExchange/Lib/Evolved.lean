import CryptoExchange.Lib.Rows

/-!
# Tables that only grow

`Evolved R l l'`: the table `l` was later `l'`. Each row is still in its place, as a later version of
itself by `R`, and new rows stand behind. `Evolved.refl` and `Evolved.trans` make it a relation between
the moments of a run; an insert (`evolved_append`) and an update that moves a row forward
(`evolved_modify`) keep it.
-/

namespace Lib

variable {α β : Type} {R : α → α → Prop} {l l' l'' : List α}

/-- Each row of `l` has a later version in its place in `l'`. -/
def Evolved (R : α → α → Prop) (l l' : List α) : Prop :=
  ∀ (i : ℕ) (x : α), l[i]? = some x → ∃ y, l'[i]? = some y ∧ R x y

theorem Evolved.refl (hR : ∀ x, R x x) (l : List α) : Evolved R l l := fun _ x hx => ⟨x, hx, hR x⟩

theorem Evolved.trans (hR : ∀ x y z, R x y → R y z → R x z) (h : Evolved R l l')
    (h' : Evolved R l' l'') : Evolved R l l'' := by
  intro i x hx
  obtain ⟨y, hy, hxy⟩ := h i x hx
  obtain ⟨z, hz, hyz⟩ := h' i y hy
  exact ⟨z, hz, hR x y z hxy hyz⟩

theorem Evolved.mem (h : Evolved R l l') {x : α} (hx : x ∈ l) : ∃ y ∈ l', R x y := by
  obtain ⟨i, hi⟩ := List.mem_iff_getElem?.mp hx
  obtain ⟨y, hy, hR⟩ := h i x hi
  exact ⟨y, List.mem_of_getElem? hy, hR⟩

theorem evolved_append (hR : ∀ x, R x x) (l new : List α) : Evolved R l (l ++ new) := by
  intro i x hx
  refine ⟨x, ?_, hR x⟩
  rw [List.getElem?_append_left (List.getElem?_eq_some_iff.mp hx).1, hx]

theorem evolved_modify [DecidableEq β] {key : α → β} (hR : ∀ x, R x x) {k : β} {f : α → α}
    (hf : ∀ x ∈ l, key x = k → R x (f x)) : Evolved R l (modify key k f l) := by
  intro i x hx
  refine ⟨if key x = k then f x else x, ?_, ?_⟩
  · rw [modify, List.getElem?_map, hx]
    rfl
  · split
    · rename_i e
      exact hf x (List.mem_of_getElem? hx) e
    · exact hR x

end Lib
