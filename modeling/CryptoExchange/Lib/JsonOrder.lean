import CryptoExchange.Lib.Jsonb

/-!
# The order of keys

`Json.Reordered a b`: `b` is `a` with the members of some of its dicts in another order. It is
defined with no sorting: the least relation that exchanges the order of members and goes into items
and members.

* `reordered_iff`: for dicts with distinct keys, two values are equal up to the order of the keys
  exactly when sorting the keys makes them one.
* `dumps_eq_iff`: so the sorted texts are equal exactly then.
* `kept_of_dumps_stored`: a value that was stored prints the text of another one only when that one
  is kept.
-/

namespace Lib.Json

/-- The values are equal up to the order of the keys. -/
inductive Reordered : Json → Json → Prop
  | refl (j : Json) : Reordered j j
  | trans {a b c : Json} : Reordered a b → Reordered b c → Reordered a c
  | perm {kvs kvs' : Dict} : kvs.Perm kvs' → Reordered (.obj kvs) (.obj kvs')
  | item {a b : Json} (xs ys : List Json) :
      Reordered a b → Reordered (.arr (xs ++ a :: ys)) (.arr (xs ++ b :: ys))
  | member {a b : Json} (k : String) (kvs kvs' : Dict) :
      Reordered a b → Reordered (.obj (kvs ++ (k, a) :: kvs')) (.obj (kvs ++ (k, b) :: kvs'))

namespace Reordered

theorem symm {a b : Json} (h : Reordered a b) : Reordered b a := by
  induction h with
  | refl j => exact .refl j
  | trans _ _ ih ih' => exact ih'.trans ih
  | perm h => exact .perm h.symm
  | item xs ys _ ih => exact .item xs ys ih
  | member k kvs kvs' _ ih => exact .member k kvs kvs' ih

/-- All items at once, those before `pre` are done. -/
theorem items {f : Json → Json} {xs : List Json} (h : ∀ x ∈ xs, Reordered x (f x)) :
    ∀ pre, Reordered (.arr (pre ++ xs)) (.arr (pre ++ xs.map f)) := by
  induction xs with
  | nil => exact fun pre => .refl _
  | cons x xs ih =>
    intro pre
    have hrest := ih (fun y hy => h y (List.mem_cons_of_mem _ hy)) (pre ++ [f x])
    simp only [List.append_assoc, List.singleton_append] at hrest
    exact (item pre xs (h x List.mem_cons_self)).trans hrest

theorem members {f : Json → Json} {kvs : Dict} (h : ∀ kv ∈ kvs, Reordered kv.2 (f kv.2)) :
    ∀ pre, Reordered (.obj (pre ++ kvs)) (.obj (pre ++ kvs.map (Prod.map id f))) := by
  induction kvs with
  | nil => exact fun pre => .refl _
  | cons kv kvs ih =>
    intro pre
    have hrest := ih (fun y hy => h y (List.mem_cons_of_mem _ hy)) (pre ++ [(kv.1, f kv.2)])
    simp only [List.append_assoc, List.singleton_append] at hrest
    exact (member kv.1 pre kvs (h kv List.mem_cons_self)).trans hrest

end Reordered

theorem reordered_sortKeys (j : Json) : Reordered j (sortKeys j) := by
  induction j using Json.induct with
  | null | bool | int | float | str => exact .refl _
  | arr xs ih =>
    rw [sortKeys, sortItems_eq]
    exact .items ih []
  | obj kvs ih =>
    rw [sortKeys_obj]
    exact (Reordered.members ih []).trans (.perm (List.perm_insertionSort _ _).symm)

/-- Another order of the keys is sorted into the same value, and has distinct keys as well. -/
theorem Reordered.sortKeys_eq {a b : Json} (h : Reordered a b) (hd : Distinct a) :
    sortKeys a = sortKeys b ∧ Distinct b := by
  induction h with
  | refl j => exact ⟨rfl, hd⟩
  | trans _ _ ih ih' =>
    obtain ⟨e, hd⟩ := ih hd
    obtain ⟨e', hd⟩ := ih' hd
    exact ⟨e.trans e', hd⟩
  | @perm kvs kvs' h =>
    obtain ⟨hk, hd⟩ := distinct_obj.mp hd
    have hk' : Keyed Prod.fst (kvs.map (Prod.map id sortKeys)) := by
      simpa [Keyed, Function.comp_def] using hk
    refine ⟨?_, distinct_obj.mpr ⟨(h.map Prod.fst).nodup_iff.mp hk, fun kv hkv => ?_⟩⟩
    · rw [sortKeys_obj, sortKeys_obj, insertionSort_perm hk' (h.map _)]
    · exact hd kv (h.mem_iff.mpr hkv)
  | item xs ys _ ih =>
    simp only [distinct_arr, List.forall_mem_append, List.forall_mem_cons] at hd ⊢
    obtain ⟨e, hb⟩ := ih hd.2.1
    exact ⟨by simp only [sortKeys, sortItems_eq, List.map_append, List.map_cons, e],
      hd.1, hb, hd.2.2⟩
  | member k kvs kvs' _ ih =>
    simp only [distinct_obj, List.forall_mem_append, List.forall_mem_cons] at hd ⊢
    obtain ⟨e, hb⟩ := ih hd.2.2.1
    exact ⟨by simp only [sortKeys_obj, List.map_append, List.map_cons, Prod.map, e],
      by simpa [Keyed] using hd.1, hd.2.1, hb, hd.2.2.2⟩

theorem reordered_of_sortKeys {a b : Json} (h : sortKeys a = sortKeys b) : Reordered a b := by
  have ha := reordered_sortKeys a
  rw [h] at ha
  exact ha.trans (reordered_sortKeys b).symm

/-- **The order of the keys** is what sorting them takes away. -/
theorem reordered_iff {a b : Json} (hd : Distinct a) : Reordered a b ↔ sortKeys a = sortKeys b :=
  ⟨fun h => (h.sortKeys_eq hd).1, reordered_of_sortKeys⟩

/-- The sorted texts are equal up to the order of the keys only. -/
theorem dumps_eq_iff {a b : Json} (hd : Distinct a) : dumps a = dumps b ↔ Reordered a b :=
  dumps_inj.trans (reordered_iff hd).symm

theorem sortKeys_eq_str {j : Json} {s : String} : sortKeys j = .str s ↔ j = .str s := by
  cases j <;> simp [sortKeys]

/-- Members that are taken out by their keys. -/
theorem sortKeys_filter {l l' : Dict} (hk : Keyed Prod.fst l) (p : String → Bool)
    (h : sortKeys (.obj l) = sortKeys (.obj l')) :
    sortKeys (.obj (l.filter fun kv => p kv.1)) = sortKeys (.obj (l'.filter fun kv => p kv.1)) := by
  rw [sortKeys_obj, sortKeys_obj, obj.injEq] at h
  have hperm : (l.map (Prod.map id sortKeys)).Perm (l'.map (Prod.map id sortKeys)) :=
    (List.perm_insertionSort keyLe _).symm.trans (h ▸ List.perm_insertionSort keyLe _)
  have hfilter : ∀ d : Dict, (d.filter fun kv => p kv.1).map (Prod.map id sortKeys) =
      (d.map (Prod.map id sortKeys)).filter fun kv => p kv.1 := fun d => by
    rw [List.filter_map]
    rfl
  have hkeys : Keyed Prod.fst ((l.map (Prod.map id sortKeys)).filter fun kv => p kv.1) := by
    have hl : Keyed Prod.fst (l.map (Prod.map id sortKeys)) := by
      simpa [Keyed, Function.comp_def] using hk
    exact hl.sublist (List.filter_sublist.map _)
  rw [sortKeys_obj, sortKeys_obj, obj.injEq, hfilter, hfilter]
  exact insertionSort_perm hkeys (hperm.filter _)

/-! ## Stored values -/

/-- What is read back is kept when it is stored again. -/
theorem kept_stored (j : Json) : Kept (stored j) := by
  induction j using Json.induct with
  | null | bool | str => simp [stored, Kept]
  | int n => simp [stored, ofNumeral_ofInt, Kept]
  | float x =>
    rcases stored_float x with ⟨e, h⟩ | ⟨-, n, e⟩
    · rw [e]
      exact PyFloat.kept_unsignedZero h
    · rw [e]
      trivial
  | arr xs ih =>
    rw [stored, storedItems_eq, kept_arr]
    simpa using ih
  | obj kvs ih =>
    rw [stored, storedMembers_eq, kept_obj]
    intro kv hkv
    rw [List.mem_insertionSort] at hkv
    obtain ⟨kv', hkv', rfl⟩ := List.mem_map.mp hkv
    exact ih kv' hkv'

theorem kept_sortKeys (j : Json) : Kept (sortKeys j) ↔ Kept j := by
  induction j using Json.induct with
  | null | bool | int | float | str => exact Iff.rfl
  | arr xs ih =>
    rw [sortKeys, sortItems_eq, kept_arr, kept_arr]
    simp only [List.forall_mem_map]
    exact forall₂_congr ih
  | obj kvs ih =>
    rw [sortKeys_obj, kept_obj, kept_obj]
    simp only [List.mem_insertionSort, List.forall_mem_map, Prod.map]
    exact forall₂_congr ih

theorem kept_of_dumps_stored {a b : Json} (h : dumps (stored a) = dumps b) : Kept b := by
  rw [← kept_sortKeys, ← dumps_inj.mp h, kept_sortKeys]
  exact kept_stored a

end Lib.Json
