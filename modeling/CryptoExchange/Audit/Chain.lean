import CryptoExchange.Audit.Log
import Mathlib.Data.List.Chain

/-!
# The log is one chain

A task holds `_write_lock` from before it reads the latest hash until after its commit, on every
path. So the latest hash that it read is still the latest when its row is stored (`TaskOk`), and
the log is one linked chain in the order of the ids (`LogOk`), whichever tasks fail and wherever
they do. The lock is always given back: from every state the tasks can all end (`auditing_ends`).
-/

namespace CryptoExchange

open Lib

/-- Every row has the hash of the row before it. -/
structure Linked (log : List AuditLog) : Prop where
  first : ∀ r ∈ log.head?, r.prevHash = none
  next : log.IsChain fun a b => b.prevHash = a.rowHash

theorem Linked.append {log : List AuditLog} (h : Linked log) {r : AuditLog}
    (hr : r.prevHash = log.getLast?.bind AuditLog.rowHash) : Linked (log ++ [r]) := by
  refine ⟨?_, h.next.append (List.isChain_singleton r) fun a ha b hb => ?_⟩
  · cases log with
    | nil =>
      intro x hx
      cases hx
      simpa using hr
    | cons y log => exact h.first
  · cases hb
    rw [hr, ha]
    rfl

/-! ## The table in the order of the ids -/

section

variable {rows : List AuditLog} (h : rows.Pairwise fun a b => a.id < b.id)

include h

theorem keyed_of_ids : Keyed AuditLog.id rows :=
  List.pairwise_map.mpr (h.imp fun hab => Nat.ne_of_lt hab)

theorem orderById_eq : orderById rows = rows :=
  (h.imp fun hab => Nat.le_of_lt hab).insertionSort_eq

theorem latestHash_eq : latestHash rows = rows.getLast?.bind AuditLog.rowHash := by
  let desc : AuditLog → AuditLog → Prop := fun a b => b.id ≤ a.id
  have : Std.Total desc := ⟨fun a b => Nat.le_total b.id a.id⟩
  have : IsTrans AuditLog desc := ⟨fun _ _ _ hab hbc => Nat.le_trans hbc hab⟩
  have hanti : ∀ a b, a ∈ rows.insertionSort desc → b ∈ rows.reverse → desc a b → desc b a →
      a = b := fun a b ha hb hab hba =>
    (keyed_of_ids h).eq_of_key ((List.mem_insertionSort _).mp ha) (List.mem_reverse.mp hb)
      (Nat.le_antisymm hba hab)
  have hsort : rows.insertionSort desc = rows.reverse :=
    List.Perm.eq_of_pairwise hanti (List.pairwise_insertionSort desc rows)
      (List.pairwise_reverse.mpr (h.imp fun hab => Nat.le_of_lt hab))
      ((List.perm_insertionSort _ rows).trans (List.reverse_perm rows).symm)
  rw [← List.head?_reverse, ← hsort]
  rfl

end

/-! ## The invariant -/

section

variable {sha : List Char → String} {events : List Event}

/-- The task has stored its row. -/
def AuditWorld.Wrote (w : AuditWorld) (i : ℕ) : Prop := i ∈ w.entries.map Entry.writer

variable (sha events) in
/-- The invariant of the table. -/
structure LogOk (w : AuditWorld) : Prop where
  ids : w.rows.Pairwise fun a b => a.id < b.id
  lt_next : ∀ r ∈ w.rows, r.id < w.nextId
  linked : Linked w.rows
  hashed : ∀ r ∈ w.rows, r.rowHash = some (r.hash sha)
  writers : Keyed Entry.writer w.entries
  recorded : ∀ x ∈ w.entries, events[x.writer]? = some x.row.event
  owner : ∀ i ∈ w.lock, i < events.length

variable (sha events) in
/-- The invariant of the task `i`: where it holds the lock, and what it has done. -/
def TaskOk (i : ℕ) (w : AuditWorld) : Next WritePhase Bool → Prop
  | .await (.acquire j e) => j = i ∧ events[i]? = some e ∧ ¬w.Wrote i ∧ w.lock ≠ some i
  | .await (.selectLatest j e) => j = i ∧ events[i]? = some e ∧ ¬w.Wrote i ∧ w.lock = some i
  | .await (.commit j e now prevHash rowHash) => j = i ∧ events[i]? = some e ∧ ¬w.Wrote i ∧
      w.lock = some i ∧ prevHash = w.rows.getLast?.bind AuditLog.rowHash ∧
      rowHash = computeRowHash sha e.eventType e.actorId now e.eventData prevHash
  | .await (.close j failed) => j = i ∧ w.lock = some i ∧ (failed = false → w.Wrote i)
  | .done ok => w.lock ≠ some i ∧ (ok → w.Wrote i)

/-- A step of the task that holds the lock does not concern the others. -/
theorem TaskOk.other {i j : ℕ} {w w' : AuditWorld} {t : Next WritePhase Bool} (hj : j ≠ i)
    (h : TaskOk sha events j w t) (hlock : w.lock = some i ∨ w.lock = none)
    (hlock' : w'.lock = some i ∨ w'.lock = none)
    (hwrote : w'.Wrote j ↔ w.Wrote j) : TaskOk sha events j w' t := by
  have hne : w.lock ≠ some j := by
    rcases hlock with e | e <;> rw [e] <;> simp [Ne.symm hj]
  have hne' : w'.lock ≠ some j := by
    rcases hlock' with e | e <;> rw [e] <;> simp [Ne.symm hj]
  match t, h with
  | .await (.acquire _ _), ⟨hi, he, hw, _⟩ => exact ⟨hi, he, fun h => hw (hwrote.mp h), hne'⟩
  | .await (.selectLatest _ _), ⟨_, _, _, hl⟩ => exact absurd hl hne
  | .await (.commit _ _ _ _ _), ⟨_, _, _, hl, _⟩ => exact absurd hl hne
  | .await (.close _ _), ⟨_, hl, _⟩ => exact absurd hl hne
  | .done _, ⟨_, hw⟩ => exact ⟨hne', fun h => hwrote.mpr (hw h)⟩

/-- The row of a task that holds the lock is the next link. -/
theorem LogOk.append {w : AuditWorld} (hG : LogOk sha events w) {i : ℕ} {e : Event}
    (he : events[i]? = some e) (hw : ¬w.Wrote i) {id : ℕ} (hid : w.nextId ≤ id) {now : DateTime}
    {prevHash : Option String} {rowHash : String}
    (hp : prevHash = w.rows.getLast?.bind AuditLog.rowHash)
    (hr : rowHash = computeRowHash sha e.eventType e.actorId now e.eventData prevHash) :
    LogOk sha events { w with
      entries := w.entries ++ [⟨i, e.row id now prevHash rowHash⟩], nextId := id + 1 } := by
  have hrows : AuditWorld.rows { w with
      entries := w.entries ++ [⟨i, e.row id now prevHash rowHash⟩], nextId := id + 1 } =
      w.rows ++ [e.row id now prevHash rowHash] := by
    simp [AuditWorld.rows]
  have hlt : ∀ r ∈ w.rows, r.id < id := by
    intro r hr
    have := hG.lt_next r hr
    omega
  refine ⟨?_, ?_, ?_, ?_, ?_, ?_, hG.owner⟩
  · rw [hrows, List.pairwise_append]
    refine ⟨hG.ids, List.pairwise_singleton _ _, fun a ha b hb => ?_⟩
    rw [List.mem_singleton.mp hb]
    exact hlt a ha
  · rw [hrows]
    intro r hr
    show r.id < id + 1
    rcases List.mem_append.mp hr with hr | hr
    · have := hlt r hr
      omega
    · rw [List.mem_singleton.mp hr]
      simp [Event.row]
  · rw [hrows]
    exact hG.linked.append hp
  · rw [hrows]
    intro r hr'
    rcases List.mem_append.mp hr' with hr' | hr'
    · exact hG.hashed r hr'
    · rw [List.mem_singleton.mp hr', AuditLog.hash, Event.row, hr]
  · refine hG.writers.append fun x hx heq => hw ?_
    exact List.mem_map.mpr ⟨x, hx, heq⟩
  · intro x hx
    rcases List.mem_append.mp hx with hx | hx
    · exact hG.recorded x hx
    · rw [List.mem_singleton.mp hx]
      exact he

theorem writeStep_ok {i : ℕ} {w w' : AuditWorld} {ans : WriteAnswer} {p : WritePhase}
    {n : Next WritePhase Bool} (hG : LogOk sha events w) (hT : TaskOk sha events i w (.await p))
    (h : writeStep sha w ans p = (w', n)) :
    LogOk sha events w' ∧ TaskOk sha events i w' n ∧
      ∀ j t, j ≠ i → TaskOk sha events j w t → TaskOk sha events j w' t := by
  cases p with
  | acquire j e =>
    obtain ⟨rfl, he, hw, hl⟩ := hT
    simp only [writeStep] at h
    split at h
    · cases h
      exact ⟨hG, ⟨hl, fun h => by cases h⟩, fun _ _ _ ht => ht⟩
    split at h
    · cases h
      exact ⟨hG, ⟨rfl, he, hw, hl⟩, fun _ _ _ ht => ht⟩
    · rename_i hfree
      cases h
      have hnone : w.lock = none := by simpa using hfree
      have hlt : j < events.length := (List.getElem?_eq_some_iff.mp he).1
      refine ⟨{ hG with owner := ?_ }, ⟨rfl, he, hw, rfl⟩, fun k t hk ht =>
        ht.other hk (.inr hnone) (.inl rfl) Iff.rfl⟩
      intro k hk
      cases hk
      exact hlt
  | selectLatest j e =>
    obtain ⟨rfl, he, hw, hl⟩ := hT
    simp only [writeStep] at h
    split at h
    · cases h
      exact ⟨hG, ⟨rfl, hl, fun h => by cases h⟩, fun _ _ _ ht => ht⟩
    · cases h
      exact ⟨hG, ⟨rfl, he, hw, hl, latestHash_eq hG.ids, rfl⟩, fun _ _ _ ht => ht⟩
  | commit j e now prevHash rowHash =>
    obtain ⟨rfl, he, hw, hl, hp, hr⟩ := hT
    simp only [writeStep] at h
    split at h
    · cases h
      refine ⟨{ hG with lt_next := fun r hr => ?_ }, ⟨rfl, hl, fun h => by cases h⟩,
        fun k t hk ht => ht.other hk (.inl hl) (.inl hl) Iff.rfl⟩
      have := hG.lt_next r hr
      show r.id < w.nextId + ans.skipped
      omega
    · cases h
      refine ⟨hG.append he hw (by omega) hp hr, ⟨rfl, hl, fun _ => ?_⟩,
        fun k t hk ht => ht.other hk (.inl hl) (.inl hl) ?_⟩
      · simp [AuditWorld.Wrote]
      · simp [AuditWorld.Wrote, hk]
  | close j failed =>
    obtain ⟨rfl, hl, hw⟩ := hT
    simp only [writeStep] at h
    cases h
    refine ⟨{ hG with owner := ?_ }, ⟨by simp, fun hok => hw ?_⟩, fun k t hk ht =>
      ht.other hk (.inl hl) (.inr rfl) Iff.rfl⟩
    · intro k hk
      cases hk
    · simp only [Bool.and_eq_true, Bool.not_eq_true'] at hok
      exact hok.1

variable (sha events) in
/-- The invariant of a run. -/
def AuditOk (s : AuditWorld × List (Next WritePhase Bool)) : Prop :=
  LogOk sha events s.1 ∧ ∀ i t, s.2[i]? = some t → TaskOk sha events i s.1 t

variable (sha events)

theorem auditing_ok : (auditing sha events).Inductive (AuditOk sha events) := by
  unfold auditing AuditOk
  refine Sys.Inductive.unrestrict (C := StepMeets fun _ _ _ => True) (fun _ _ _ _ => trivial)
    (interleave_indexed (G := LogOk sha events) (T := TaskOk sha events) ?_
      fun i w ans p w' n hG hT _ (h : writeStep sha w ans p = (w', n)) => writeStep_ok hG hT h)
  rintro w ts ⟨hw, hl, rfl⟩
  refine ⟨⟨?_, ?_, ⟨?_, ?_⟩, ?_, ?_, ?_, ?_⟩, fun i t ht => ?_⟩
  · simp [AuditWorld.rows, hw]
  · simp [AuditWorld.rows, hw]
  · simp [AuditWorld.rows, hw]
  · simp [AuditWorld.rows, hw]
  · simp [AuditWorld.rows, hw]
  · simp [Keyed, hw]
  · simp [hw]
  · simp [hl]
  · rw [List.getElem?_mapIdx] at ht
    obtain ⟨e, he, rfl⟩ := Option.map_eq_some_iff.mp ht
    exact ⟨rfl, he, by simp [AuditWorld.Wrote, hw], by simp [hl]⟩

theorem auditing_length :
    (auditing sha events).Inductive fun s => s.2.length = events.length where
  init := by
    rintro s ⟨-, -, hts⟩
    rw [hts, List.length_mapIdx]
  step := by
    rintro s act s' hs ⟨p, -, rfl⟩
    rw [List.length_set]
    exact hs

/-- The awaited calls that a task has left. -/
def callsLeft : Next WritePhase Bool → ℕ
  | .await (.acquire _ _) => 4
  | .await (.selectLatest _ _) => 3
  | .await (.commit _ _ _ _ _) => 2
  | .await (.close _ _) => 1
  | .done _ => 0

/-- A task gets on, but for one that waits for the lock. -/
theorem callsLeft_lt {w : AuditWorld} (a : WriteAnswer) {p : WritePhase}
    (h : ∀ i e, p = .acquire i e → w.lock = none) :
    callsLeft (writeStep sha w a p).2 < callsLeft (.await p) := by
  cases p with
  | acquire i e =>
    simp only [writeStep, h i e rfl]
    split <;> simp [callsLeft]
  | selectLatest i e | commit i e now prevHash rowHash =>
    simp only [writeStep]
    split <;> simp [callsLeft]
  | close i failed => simp [writeStep, callsLeft]

/-- **No task waits for ever**, however its calls are answered: the lock is free, or a task that
has it goes on. -/
theorem auditing_ends {C : AuditWorld → WriteAnswer → WritePhase → Prop}
    (hC : ∀ w p, ∃ a, C w a p) {s : AuditWorld × List (Next WritePhase Bool)}
    (h : ((auditing sha events).restrict (StepMeets C)).Reach s) :
    ∃ as s', ((auditing sha events).restrict (StepMeets C)).Run s as s' ∧
      ∀ t ∈ s'.2, t.isDone := by
  have hI : (auditing sha events).Inductive fun s =>
      AuditOk sha events s ∧ s.2.length = events.length :=
    ⟨fun s hi => ⟨(auditing_ok sha events).init s hi, (auditing_length sha events).init s hi⟩,
      fun s a s' hs hst => ⟨(auditing_ok sha events).step s a s' hs.1 hst,
        (auditing_length sha events).step s a s' hs.2 hst⟩⟩
  refine interleave_ends callsLeft hI.restrict ?_ (hI.restrict.reach h)
  rintro ⟨w, ts⟩ ⟨⟨hG, hT⟩, hlen⟩ ⟨t, ht, hd⟩
  have hgo : ∀ (k : ℕ) (p : WritePhase), ts[k]? = some (.await p) →
      (∀ i e, p = .acquire i e → w.lock = none) →
      ∃ (i : ℕ) (a : WriteAnswer) (q : WritePhase), ts[i]? = some (.await q) ∧ C w a q ∧
        callsLeft (writeStep sha w a q).2 < callsLeft (.await q) := by
    intro k p hk hp
    obtain ⟨a, ha⟩ := hC w p
    exact ⟨k, a, p, hk, ha, callsLeft_lt sha a hp⟩
  obtain ⟨i, hi⟩ := List.mem_iff_getElem?.mp ht
  cases hl : w.lock with
  | none =>
    cases t with
    | await p => exact hgo i p hi fun _ _ _ => hl
    | done ok => cases hd
  | some k =>
    have hk : k < ts.length := hlen ▸ hG.owner k hl
    obtain ⟨t', hk'⟩ : ∃ t', ts[k]? = some t' := ⟨_, List.getElem?_eq_getElem hk⟩
    have hTk := hT k t' hk'
    match t', hk', hTk with
    | .await (.acquire _ _), _, ⟨_, _, _, h⟩ => exact absurd hl h
    | .await (.selectLatest _ _), hk', _ => exact hgo k _ hk' fun _ _ => nofun
    | .await (.commit _ _ _ _ _), hk', _ => exact hgo k _ hk' fun _ _ => nofun
    | .await (.close _ _), hk', _ => exact hgo k _ hk' fun _ _ => nofun
    | .done _, _, ⟨h, _⟩ => exact absurd hl h

/-- **One linked chain.** In every state of every run: the log in the order of the ids is linked;
every row has the hash of its own fields; every row is of an event whose task wrote no other row;
the event of a task that ended without an exception has its row. From every state all tasks can
end. -/
theorem audit_chain {s : AuditWorld × List (Next WritePhase Bool)}
    (h : (auditing sha events).Reach s) :
    Linked (orderById s.1.rows) ∧
    (∀ r ∈ s.1.rows, r.rowHash = some (r.hash sha)) ∧
    (∀ x ∈ s.1.entries, events[x.writer]? = some x.row.event ∧
      s.1.entries.filter (fun y => y.writer = x.writer) = [x]) ∧
    (∀ i, s.2[i]? = some (.done true) → ∃ x ∈ s.1.entries, x.writer = i) ∧
    ∃ as s', (auditing sha events).Run s as s' ∧ ∀ t ∈ s'.2, t.isDone := by
  obtain ⟨hG, hT⟩ := (auditing_ok sha events).reach h
  have hends := auditing_ends sha events (C := fun _ _ _ => True) (fun _ _ => ⟨{}, trivial⟩)
    (h.restrict fun _ _ _ _ => trivial)
  refine ⟨?_, hG.hashed, fun x hx => ⟨hG.recorded x hx, hG.writers.filter_key hx⟩, fun i hi => ?_,
    ?_⟩
  · rw [orderById_eq hG.ids]
    exact hG.linked
  · exact List.mem_map.mp ((hT i _ hi).2 rfl)
  · obtain ⟨as, s', hrun, hdone⟩ := hends
    exact ⟨as, s', hrun.of_restrict, hdone⟩

end

/-! ## A commit that fails -/

namespace Sample

/-- The payload stands for its hash: no two payloads collide. -/
def sha (payload : List Char) : String := String.ofList payload

theorem sha_injective : Function.Injective sha :=
  fun _ _ (h : String.ofList _ = String.ofList _) => String.ofList_injective h

def logins : List Event :=
  [{ eventType := "AUTH_LOGIN_SUCCESS", actorId := some 1 }, { eventType := "AUTH_LOGIN_FAILURE" },
   { eventType := "AUTH_LOGIN_SUCCESS", actorId := some 2 }]

/-- The calls of a task that gets the lock at once. -/
def writes (i : ℕ) (commit : WriteAnswer) : List (ℕ × WriteAnswer) :=
  [(i, {}), (i, {}), (i, commit), (i, {})]

/-- The tasks are started together; the commit of the second one fails. -/
def secondFails : List (ℕ × WriteAnswer) :=
  [0, 1, 2].map (fun i => (i, ({} : WriteAnswer))) ++ (writes 0 {}).drop 1 ++
    writes 1 { fails := true, skipped := 1 } ++ writes 2 {}

/-- The log has the rows 1 and 3. -/
theorem secondFails_reach : ∃ s, (auditing sha logins).Reach s ∧
    s.1.rows.map (fun r => (r.id, r.prevHash.isSome)) = [(1, false), (3, true)] ∧
    s.2[2]? = some (.done true) := by
  let start : AuditWorld × List (Next WritePhase Bool) :=
    ({}, logins.mapIdx fun i e => .await (.acquire i e))
  have hrun : (secondFails.foldlM (exec (writeStep sha) fun _ _ _ => True) start).map
      (fun s => (s.1.rows.map fun r => (r.id, r.prevHash.isSome),
        s.2[2]?.map fun t => match t with | .done ok => ok | .await _ => false)) =
      some ([(1, false), (3, true)], some true) := by decide +kernel
  obtain ⟨s, hs, h⟩ := Option.map_eq_some_iff.mp hrun
  obtain ⟨hrows, hdone⟩ := Prod.mk.inj h
  obtain ⟨t, ht, htrue⟩ := Option.map_eq_some_iff.mp hdone
  refine ⟨s, .foldlM (fun _ _ _ _ h => (exec_step h).2) (.init ⟨rfl, rfl, rfl⟩) hs, hrows, ?_⟩
  cases t with
  | await p => cases htrue
  | done ok => cases htrue; exact ht

end Sample

open Sample in
/-- The result when the commit of the second of three tasks fails. -/
theorem audit_chain_secondFails :
    ∃ s, (auditing sha logins).Reach s ∧ s.1.rows.map AuditLog.id = [1, 3] ∧
      Linked (orderById s.1.rows) ∧ ∃ x ∈ s.1.entries, x.writer = 2 := by
  obtain ⟨s, hs, hrows, hdone⟩ := secondFails_reach
  obtain ⟨hlinked, -, -, hwrote, -⟩ := audit_chain sha logins hs
  refine ⟨s, hs, ?_, hlinked, hwrote 2 hdone⟩
  simpa [Function.comp_def] using congrArg (List.map Prod.fst) hrows

end CryptoExchange
