import CryptoExchange.Audit.Chain
import CryptoExchange.Lib.Varchar

/-!
# Rows that the database refuses

`_write` logs every exception and goes on (`app/audit/service.py`). While the database is up, the
only call of it that raises is the commit of a row that does not fit the columns of `audit_logs`
(`app/audit/model.py`).

* `EmitCall.Storable`: the columns take the row of the call.
* `DatabaseUp`: how the calls of the tasks are answered then.
* `stored_exactly`: in every run, a task that has ended has written its row exactly when its call is
  storable. `auditingUp_ends`: every task can end.
-/

namespace CryptoExchange

open Lib

/-- A call of `emit`. A float that is infinite and a text with a lone surrogate are no JSON values:
the event has `null` for them. -/
structure EmitCall where
  event : Event
  /-- The keys in `event_data` of the infinite floats. -/
  infinite : List String := []
  /-- The keys in `event_data` of the texts with a lone surrogate. -/
  surrogates : List String := []

/-- The row fits its columns. -/
structure EmitCall.Storable (x : EmitCall) : Prop where
  eventType : FitsVarchar 64 x.event.eventType
  actorId : ∀ n ∈ x.event.actorId, FitsInteger n
  actorUsername : ∀ s ∈ x.event.actorUsername, FitsVarchar 64 s
  targetType : ∀ s ∈ x.event.targetType, FitsVarchar 64 s
  targetId : ∀ s ∈ x.event.targetId, FitsVarchar 64 s
  ipAddress : ∀ s ∈ x.event.ipAddress, FitsVarchar 45 s
  eventData : ∀ d ∈ x.event.eventData, (Json.obj d).Accepted
  finite : x.infinite = []
  encodable : x.surrogates = []
  severity : FitsVarchar 16 x.event.severity

section

variable {sha : List Char → String} {calls : List EmitCall}

variable (calls) in
/-- The calls of a task do not raise, but for the commit of a row that does not fit. -/
def DatabaseUp (_ : AuditWorld) (a : WriteAnswer) : WritePhase → Prop
  | .commit i _ _ _ _ =>
    (a.fails = true ↔ ∃ x, calls[i]? = some x ∧ ¬x.Storable) ∧ a.persisted = false
  | _ => a.fails = false

variable (calls) in
/-- What the task `i` has done, once it has come to its commit. -/
def Settled (i : ℕ) (w : AuditWorld) : Next WritePhase Bool → Prop
  | .await (.close _ _) | .done _ => ∀ x, calls[i]? = some x → (w.Wrote i ↔ x.Storable)
  | _ => True

theorem Settled.congr {i : ℕ} {w w' : AuditWorld} {t : Next WritePhase Bool}
    (h : Settled calls i w t) (hw : w'.Wrote i ↔ w.Wrote i) : Settled calls i w' t := by
  unfold Settled at h ⊢
  split
  · exact fun x hx => hw.trans (h x hx)
  · exact fun x hx => hw.trans (h x hx)
  · trivial

theorem settled_step {events : List Event} {i : ℕ} {w w' : AuditWorld} {a : WriteAnswer}
    {p : WritePhase} {n : Next WritePhase Bool} (hT : TaskOk sha events i w (.await p))
    (hS : Settled calls i w (.await p)) (hC : DatabaseUp calls w a p)
    (h : writeStep sha w a p = (w', n)) :
    Settled calls i w' n ∧ ∀ j t, j ≠ i → Settled calls j w t → Settled calls j w' t := by
  cases p with
  | acquire j e =>
    have hf : a.fails = false := hC
    simp only [writeStep, hf, Bool.false_eq_true, if_false] at h
    split at h
    · cases h
      exact ⟨trivial, fun _ _ _ ht => ht⟩
    · cases h
      exact ⟨trivial, fun _ _ _ ht => ht.congr Iff.rfl⟩
  | selectLatest j e =>
    have hf : a.fails = false := hC
    simp only [writeStep, hf, Bool.false_eq_true, if_false] at h
    cases h
    exact ⟨trivial, fun _ _ _ ht => ht⟩
  | commit j e now prevHash rowHash =>
    obtain ⟨rfl, -, hw, -⟩ := hT
    obtain ⟨hfails, hp⟩ := hC
    simp only [writeStep, hp, Bool.not_false, and_true] at h
    split at h
    · rename_i hf
      cases h
      obtain ⟨x, hx, hbad⟩ := hfails.mp hf
      refine ⟨fun y hy => ?_, fun _ _ _ ht => ht.congr Iff.rfl⟩
      rw [hx] at hy
      cases hy
      exact ⟨fun h => absurd h hw, fun h => absurd h hbad⟩
    · rename_i hf
      cases h
      refine ⟨fun x hx => ⟨fun _ => ?_, fun _ => ?_⟩, fun k t hk ht => ht.congr ?_⟩
      · by_contra hbad
        exact hf (hfails.mpr ⟨x, hx, hbad⟩)
      · simp [AuditWorld.Wrote]
      · simp [AuditWorld.Wrote, hk]
  | close j failed =>
    simp only [writeStep] at h
    cases h
    exact ⟨hS, fun _ _ _ ht => ht.congr Iff.rfl⟩

variable (sha calls) in
/-- The tasks of the calls, while the database is up. -/
abbrev auditingUp : Sys :=
  (auditing sha (calls.map EmitCall.event)).restrict (StepMeets (DatabaseUp calls))

theorem auditingUp_settled (sha : List Char → String) (calls : List EmitCall) :
    (auditingUp sha calls).Inductive fun s =>
      LogOk sha (calls.map EmitCall.event) s.1 ∧ ∀ i t, s.2[i]? = some t →
        TaskOk sha (calls.map EmitCall.event) i s.1 t ∧ Settled calls i s.1 t := by
  refine interleave_indexed (G := LogOk sha (calls.map EmitCall.event))
    (T := fun i w t => TaskOk sha (calls.map EmitCall.event) i w t ∧ Settled calls i w t)
    (fun w ts h => ?_) fun i w a p w' n hG hT hC hs => ?_
  · obtain ⟨hG, hT⟩ := (auditing_ok sha (calls.map EmitCall.event)).init (w, ts) h
    refine ⟨hG, fun i t ht => ⟨hT i t ht, ?_⟩⟩
    obtain ⟨-, -, rfl⟩ := h
    rw [List.getElem?_mapIdx] at ht
    obtain ⟨e, -, rfl⟩ := Option.map_eq_some_iff.mp ht
    trivial
  · obtain ⟨hG', hown, hothers⟩ := writeStep_ok hG hT.1 hs
    obtain ⟨hsettled, hkept⟩ := settled_step hT.1 hT.2 hC hs
    exact ⟨hG', ⟨hown, hsettled⟩, fun j t hj ht => ⟨hothers j t hj ht.1, hkept j t hj ht.2⟩⟩

/-- **A task that has ended** has written one row, with the event of its call, when the call is
storable, and no row when it is not. -/
theorem stored_exactly {s : AuditWorld × List (Next WritePhase Bool)}
    (h : (auditingUp sha calls).Reach s) {i : ℕ} {x : EmitCall} (hx : calls[i]? = some x) {ok : Bool}
    (hi : s.2[i]? = some (.done ok)) :
    (x.Storable → (s.1.entries.filter fun y => y.writer = i).map (fun y => y.row.event) =
      [x.event]) ∧
    (¬x.Storable → s.1.entries.filter (fun y => y.writer = i) = []) := by
  obtain ⟨hG, hT⟩ := (auditingUp_settled sha calls).reach h
  have hwrote : s.1.Wrote i ↔ x.Storable := (hT i _ hi).2 x hx
  constructor
  · intro hs
    obtain ⟨y, hy, rfl⟩ := List.mem_map.mp (hwrote.mpr hs)
    have hrow := hG.recorded y hy
    rw [List.getElem?_map, hx] at hrow
    rw [hG.writers.filter_key hy, List.map_singleton]
    exact congrArg (fun e => [e]) (Option.some.inj hrow).symm
  · intro hs
    rw [List.filter_eq_nil_iff]
    intro y hy hi
    exact hs (hwrote.mp (List.mem_map.mpr ⟨y, hy, of_decide_eq_true hi⟩))

theorem auditingUp_ends {s : AuditWorld × List (Next WritePhase Bool)}
    (h : (auditingUp sha calls).Reach s) :
    ∃ as s', (auditingUp sha calls).Run s as s' ∧ ∀ t ∈ s'.2, t.isDone := by
  refine auditing_ends sha _ (fun w p => ?_) h
  cases p with
  | commit i e now prevHash rowHash =>
    by_cases hbad : ∃ x, calls[i]? = some x ∧ ¬x.Storable
    · exact ⟨{ fails := true }, by simpa using hbad, rfl⟩
    · exact ⟨{}, by simpa using hbad, rfl⟩
  | _ => exact ⟨{}, rfl⟩

end

end CryptoExchange
