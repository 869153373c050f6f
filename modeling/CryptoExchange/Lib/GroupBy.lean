import Mathlib.Algebra.BigOperators.Group.List.Basic
import Mathlib.Algebra.GroupWithZero.Nat
import Mathlib.Data.List.Dedup

/-!
# Groups of rows

`groupBy key l` is `GROUP BY key`: each key of the rows, with the rows that have it.

* `groupBy_keys_nodup`, `mem_groupBy_keys`: every key of a row comes exactly once, and no other.
* `sum_fibers`: a sum over the rows, key by key, with any list of distinct keys that has all of
  them. `sum_groupBy` and `length_groupBy`: the totals of the groups.
-/

namespace Lib

variable {α β M : Type} [DecidableEq β] [AddCommMonoid M]

def groupBy (key : α → β) (l : List α) : List (β × List α) :=
  (l.map key).dedup.map fun k => (k, l.filter fun x => key x = k)

section

variable (key : α → β) (l : List α)

theorem groupBy_keys : (groupBy key l).map Prod.fst = (l.map key).dedup := by
  rw [groupBy, List.map_map]
  exact List.map_id _

theorem groupBy_keys_nodup : ((groupBy key l).map Prod.fst).Nodup := by
  rw [groupBy_keys]
  exact List.nodup_dedup _

theorem mem_groupBy_keys {k : β} : k ∈ (groupBy key l).map Prod.fst ↔ ∃ x ∈ l, key x = k := by
  rw [groupBy_keys, List.mem_dedup, List.mem_map]

end

/-- **A sum, key by key.** -/
theorem sum_fibers (f : α → M) (key : α → β) {ks : List β} (hn : ks.Nodup) {l : List α}
    (h : ∀ x ∈ l, key x ∈ ks) :
    (ks.map fun k => ((l.filter fun x => key x = k).map f).sum).sum = (l.map f).sum := by
  induction ks generalizing l with
  | nil =>
    rw [List.eq_nil_iff_forall_not_mem.mpr fun x hx => List.not_mem_nil (h x hx)]
    rfl
  | cons k ks ih =>
    obtain ⟨hk, hn⟩ := List.nodup_cons.mp hn
    -- the rows with another key
    let others := l.filter fun x => ¬key x = k
    have hothers : ∀ x ∈ others, key x ∈ ks := by
      intro x hx
      obtain ⟨hx, hne⟩ := List.mem_filter.mp hx
      exact (List.mem_cons.mp (h x hx)).resolve_left (of_decide_eq_true hne)
    have hsame : ∀ k' ∈ ks, others.filter (fun x => key x = k') =
        l.filter fun x => key x = k' := by
      intro k' hk'
      rw [List.filter_filter]
      refine List.filter_congr fun x _ => ?_
      by_cases e : key x = k'
      · have hne : k' ≠ k := fun e' => hk (e' ▸ hk')
        simp [e, hne]
      · simp [e]
    rw [List.map_cons, List.sum_cons, ← List.sum_map_filter_add_sum_map_filter_not
      (fun x => key x = k) f l, ← ih hn hothers]
    congr 2
    exact List.map_congr_left fun k' hk' => by rw [hsame k' hk']

variable (key : α → β) (l : List α)

theorem sum_groupBy (f : α → M) :
    ((groupBy key l).map fun g => (g.2.map f).sum).sum = (l.map f).sum := by
  rw [← sum_fibers f key (List.nodup_dedup (l.map key)) fun x hx =>
    List.mem_dedup.mpr (List.mem_map_of_mem hx), groupBy, List.map_map]
  rfl

theorem length_groupBy : ((groupBy key l).map fun g => g.2.length).sum = l.length := by
  have h := sum_groupBy key l fun _ => 1
  simpa using h

end Lib
