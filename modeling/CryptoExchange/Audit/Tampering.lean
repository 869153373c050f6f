import CryptoExchange.Audit.Verify

/-!
# Tampering with the log

`verify_audit_chain` recomputes the hash of each row from the row's own fields, with the `prev_hash`
that the row has, and compares it with nothing but the row's own `row_hash`. So rows that
`_write` wrote pass wherever they stand, and a row that was put between them passes when its hash
fits its fields, or when it has none (`tampered_broken_iff`).
-/

namespace CryptoExchange

open Lib

/-- The row after the ids `i` and `j` were exchanged. -/
def AuditLog.exchangeId (i j : ℕ) (r : AuditLog) : AuditLog :=
  { r with id := if r.id = i then j else if r.id = j then i else r.id }

/-- `Tampered log added rows`: the table was `log` and now is `rows`; the rows `added` are new. -/
inductive Tampered (log : List AuditLog) : List AuditLog → List AuditLog → Prop
  /-- Rows were deleted, and not just the last ones. -/
  | delete {rows : List AuditLog} : rows.Sublist log → ¬rows <+: log → Tampered log [] rows
  /-- The ids of two rows were exchanged. -/
  | exchange {a b : AuditLog} : a ∈ log → b ∈ log → a.id ≠ b.id →
      Tampered log [] (log.map (AuditLog.exchangeId a.id b.id))
  /-- A row was inserted between two others. -/
  | insert {a r b : AuditLog} : a ∈ log → b ∈ log → a.id < r.id → r.id < b.id →
      (∀ x ∈ log, x.id ≠ r.id) → Tampered log [r] (log ++ [r])

theorem Integrity.broken_iff {i : Integrity} : i = .broken ↔ ¬i = .ok := by
  cases i <;> simp

theorem firstRows_of_length {limit : ℕ} {rows : List AuditLog} (h : rows.length ≤ limit)
    {r : AuditLog} : r ∈ firstRows limit rows ↔ r ∈ rows := by
  have hlen : (orderById rows).length ≤ limit := by
    rw [orderById, List.length_insertionSort]
    exact h
  rw [firstRows, List.take_of_length_le hlen, orderById, List.mem_insertionSort]

section

variable {sha : List Char → String}

/-- The hash does not cover the id. -/
theorem Written.exchangeId {r : AuditLog} (h : Written sha r) (i j : ℕ) :
    Written sha (r.exchangeId i j) :=
  ⟨h.hashed, h.distinct⟩

/-- Every row of the tampered table is new, or one that was written. -/
theorem Tampered.written {log added rows : List AuditLog} (h : Tampered log added rows)
    (hw : ∀ r ∈ log, Written sha r) : ∀ r ∈ rows, r ∈ added ∨ r ∉ added ∧ Written sha r := by
  cases h with
  | delete hs _ => exact fun r hr => .inr ⟨List.not_mem_nil, hw r (hs.subset hr)⟩
  | exchange =>
    intro r hr
    obtain ⟨x, hx, rfl⟩ := List.mem_map.mp hr
    exact .inr ⟨List.not_mem_nil, (hw x hx).exchangeId _ _⟩
  | @insert _ r' _ _ _ _ _ hne =>
    intro r hr
    rcases List.mem_append.mp hr with hr | hr
    · refine .inr ⟨fun h => hne r hr ?_, hw r hr⟩
      rw [List.mem_singleton.mp h]
    · exact .inl hr

theorem Tampered.added_mem {log added rows : List AuditLog} (h : Tampered log added rows) :
    ∀ r ∈ added, r ∈ rows := by
  cases h with
  | delete => exact fun r hr => absurd hr List.not_mem_nil
  | exchange => exact fun r hr => absurd hr List.not_mem_nil
  | insert => exact fun r hr => List.mem_append_right _ hr

/-- **Tampering is found** exactly when a row that was written is not kept by the storage, or the
row that was put in has a `row_hash` that is not the hash of its fields. -/
theorem tampered_broken_iff (hsha : Function.Injective sha) {events : List Event}
    (hd : ∀ e ∈ events, e.data.Distinct) {s : AuditWorld × List (Next WritePhase Bool)}
    (h : (auditing sha events).Reach s) {added rows : List AuditLog}
    (ht : Tampered s.1.rows added rows) {limit : ℕ} (hl : rows.length ≤ limit) :
    (verifyAuditChain sha limit rows).integrity = .broken ↔
      (∃ r ∈ rows, r ∉ added ∧ ¬r.Kept) ∨
        ∃ r ∈ added, ∃ x ∈ r.rowHash, r.readBack.hash sha ≠ x := by
  have hw := ht.written (((auditing_ok sha events).reach h).1.written sha hd)
  rw [Integrity.broken_iff, verify_ok_iff]
  simp only [firstRows_of_length hl]
  push Not
  constructor
  · rintro ⟨r, hr, x, hx, hne⟩
    rcases hw r hr with ha | ⟨ha, hwr⟩
    · exact .inr ⟨r, ha, x, hx, hne⟩
    · refine .inl ⟨r, hr, ha, fun hk => hne ?_⟩
      rw [(hash_readBack sha r hwr.distinct).1 hk]
      rw [hwr.hashed] at hx
      exact Option.some.inj hx
  · rintro (⟨r, hr, ha, hk⟩ | ⟨r, ha, x, hx, hne⟩)
    · rcases hw r hr with ha' | ⟨-, hwr⟩
      · exact absurd ha' ha
      · exact ⟨r, hr, _, hwr.hashed, fun heq => hk ((hash_readBack sha r hwr.distinct).2 hsha heq)⟩
    · exact ⟨r, ht.added_mem r ha, x, hx, hne⟩

end

/-! ## A forged row, and a deleted one -/

namespace Sample

theorem logins_kept : ∀ e ∈ logins, e.data.Kept ∧ e.data.Distinct := by decide

/-- A row with an empty `row_hash`. -/
def forged : AuditLog :=
  (⟨"ORDER_CREATED", none, none, none, none, none, none, "INFO"⟩ : Event).row 2
    ⟨1970, 1, 1, 0, 0, 0, 0⟩ none ""

theorem sha_obj_ne (kvs : List (String × Json)) : sha (Json.obj kvs).dumps ≠ "" := by
  intro h
  have := congrArg String.toList h
  rw [sha, String.toList_ofList, Json.dumps, Json.sortKeys_obj, Json.text] at this
  simp at this

end Sample

open Sample in
/-- The result for a forged row between two others. -/
theorem tampered_broken_iff_forged :
    ∃ s, (auditing sha logins).Reach s ∧
      (verifyAuditChain sha 500 (s.1.rows ++ [forged])).integrity = .broken := by
  obtain ⟨s, hs, hrows, -⟩ := secondFails_reach
  have hids : s.1.rows.map AuditLog.id = [1, 3] := by
    simpa [Function.comp_def] using congrArg (List.map Prod.fst) hrows
  have hmem : ∀ i ∈ [1, 3], ∃ a ∈ s.1.rows, a.id = i := fun i hi => List.mem_map.mp (hids ▸ hi)
  obtain ⟨a, ha, ha1⟩ := hmem 1 (by simp)
  obtain ⟨b, hb, hb3⟩ := hmem 3 (by simp)
  have hne : ∀ x ∈ s.1.rows, x.id ≠ forged.id := by
    intro x hx he
    have : x.id ∈ [1, 3] := hids ▸ List.mem_map_of_mem hx
    rw [he] at this
    revert this
    decide
  have hlen : s.1.rows.length = 2 := by simpa using congrArg List.length hids
  have ht : Tampered s.1.rows [forged] (s.1.rows ++ [forged]) :=
    .insert ha hb (by rw [ha1]; decide) (by rw [hb3]; decide) hne
  refine ⟨s, hs, (tampered_broken_iff sha_injective (fun e he => (logins_kept e he).2) hs ht
    (by simp [hlen])).mpr (.inr ⟨forged, List.mem_cons_self, "", rfl, sha_obj_ne _⟩)⟩

open Sample in
/-- The first of the two rows is deleted: the row that is left has the hash of the deleted one as
its `prev_hash`, and the log verifies. -/
theorem deletion_not_found :
    ∃ s rows, Function.Injective sha ∧ (auditing sha logins).Reach s ∧
      Tampered s.1.rows [] rows ∧ rows.length ≤ 500 ∧ ¬Linked (orderById rows) ∧
      (verifyAuditChain sha 500 rows).integrity = .ok := by
  obtain ⟨s, hs, hrows, -⟩ := secondFails_reach
  obtain ⟨a, b, hlog⟩ := List.length_eq_two.mp (by simpa using congrArg List.length hrows)
  rw [hlog] at hrows
  simp only [List.map_cons, List.map_nil, List.cons.injEq, Prod.mk.injEq, and_true] at hrows
  obtain ⟨⟨ha, -⟩, hb, hprev⟩ := hrows
  have hG := ((auditing_ok sha logins).reach hs).1
  have hbm : b ∈ s.1.rows := by rw [hlog]; simp
  have hwr := hG.written sha (fun e he => (logins_kept e he).2) b hbm
  have hk : b.Kept := by
    obtain ⟨y, hy, rfl⟩ := List.mem_map.mp hbm
    exact (logins_kept _ (List.mem_of_getElem? (hG.recorded y hy))).1
  refine ⟨s, [b], sha_injective, hs, .delete ?_ ?_, by simp, fun hl => ?_, ?_⟩
  · rw [hlog]
    exact List.sublist_cons_self a [b]
  · rw [hlog]
    intro h
    rw [(List.cons_prefix_cons.mp h).1] at hb
    omega
  · rw [hl.first b rfl] at hprev
    cases hprev
  · rw [verify_ok_iff]
    intro r hr x hx
    rw [List.mem_singleton.mp (mem_firstRows hr)] at hx ⊢
    rw [(hash_readBack sha b hwr.distinct).1 hk]
    rw [hwr.hashed] at hx
    exact Option.some.inj hx

end CryptoExchange
