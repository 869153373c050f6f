import CryptoExchange.Alerts.Thresholds

/-!
# A normalised metric clears its alert

The tasks of a cycle work on alerts of different types, so what a cycle leaves of a type is what
the type's own task leaves (`Outcome`), in whatever order the tasks run (`cycle_outcome`).
Deduplication looks at open alerts only, so a metric that is triggered again after its alert was
acknowledged gets a second one; two alerts are never resolved. `SingleActive` is the invariant of
the runs in which that does not happen (`Unacknowledged`).
-/

namespace CryptoExchange

open Lib

/-- The alerts of a type. -/
def alertsOf (t : AlertType) (alerts : List KpiAlert) : List KpiAlert :=
  alerts.filter fun a => a.alertType = t

/-- The alerts of a type that wait for the metric to normalise. -/
def activeOf (t : AlertType) (alerts : List KpiAlert) : List KpiAlert :=
  alerts.filter fun a => a.alertType = t ∧ a.active

theorem activeOf_eq (t : AlertType) (alerts : List KpiAlert) :
    activeOf t alerts = (alertsOf t alerts).filter KpiAlert.active := by
  rw [activeOf, alertsOf, List.filter_filter]
  refine List.filter_congr fun a _ => ?_
  simp [Bool.and_comm]

theorem mem_alertsOf {t : AlertType} {alerts : List KpiAlert} {a : KpiAlert} :
    a ∈ alertsOf t alerts ↔ a ∈ alerts ∧ a.alertType = t := by
  simp [alertsOf]

/-! ## What a task leaves -/

/-- A new alert of the check's type was opened; there was none open. -/
structure Opened (c : Check) (before after : List KpiAlert) : Prop where
  none_open : ∀ a ∈ alertsOf c.alertType before, a.status ≠ .open_
  opened : ∃ b, alertsOf c.alertType after = alertsOf c.alertType before ++ [b] ∧
    b.status = .open_ ∧ ∀ a ∈ before, a.id ≠ b.id

/-- What the task of a check leaves of its type. -/
inductive Outcome (c : Check) (before after : List KpiAlert) : Prop
  | deduplicated : c.triggered → (∃ a ∈ alertsOf c.alertType before, a.status = .open_) →
      alertsOf c.alertType after = alertsOf c.alertType before → Outcome c before after
  | opened : c.triggered → Opened c before after → Outcome c before after
  | resolved {a : KpiAlert} (now : ℕ) : c.triggered = false → activeOf c.alertType before = [a] →
      alertsOf c.alertType after =
        modify KpiAlert.id a.id (KpiAlert.resolve now) (alertsOf c.alertType before) →
      Outcome c before after
  | left : c.triggered = false → (activeOf c.alertType before).length ≠ 1 →
      alertsOf c.alertType after = alertsOf c.alertType before → Outcome c before after

/-- How far the task of a check has come. -/
def Progress (c : Check) (before after : List KpiAlert) : Next AlertPhase Unit → Prop
  | .await (.selectOpen c') => c' = c ∧ c.triggered ∧
      alertsOf c.alertType after = alertsOf c.alertType before
  | .await (.insert c') => c' = c ∧ c.triggered ∧
      alertsOf c.alertType after = alertsOf c.alertType before ∧
      ∀ a ∈ alertsOf c.alertType before, a.status ≠ .open_
  | .await (.refresh c') => c' = c ∧ c.triggered ∧ Opened c before after
  | .await (.selectActive t) => t = c.alertType ∧ c.triggered = false ∧
      alertsOf c.alertType after = alertsOf c.alertType before
  | .await (.resolve a) => c.triggered = false ∧
      alertsOf c.alertType after = alertsOf c.alertType before ∧
      activeOf c.alertType before = [a]
  | .done _ => Outcome c before after

/-- Progress is about the alerts of the check's type. -/
theorem Progress.congr {c : Check} {before after after' : List KpiAlert}
    {t : Next AlertPhase Unit} (h : Progress c before after t)
    (e : alertsOf c.alertType after' = alertsOf c.alertType after) :
    Progress c before after' t := by
  unfold Progress at h ⊢
  split
  · rwa [e]
  · rwa [e]
  · obtain ⟨hc, ht, hn, ho⟩ := h
    exact ⟨hc, ht, hn, by rwa [e]⟩
  · rwa [e]
  · rwa [e]
  · cases h with
    | deduplicated ht hd h => exact .deduplicated ht hd (e.trans h)
    | opened ht h => exact .opened ht ⟨h.none_open, by rw [e]; exact h.opened⟩
    | resolved now ht ha h => exact .resolved now ht ha (e.trans h)
    | left ht hl h => exact .left ht hl (e.trans h)

/-- The table keeps its rows, under distinct ids. -/
structure Grown (before after : List KpiAlert) : Prop where
  keyed : Keyed KpiAlert.id after
  kept : ∀ a ∈ before, ∃ a' ∈ after, a'.id = a.id

theorem alertsOf_modify {alerts : List KpiAlert} (hk : Keyed KpiAlert.id alerts) {a : KpiAlert}
    (ha : a ∈ alerts) {f : KpiAlert → KpiAlert} (hf : ∀ b, (f b).alertType = b.alertType)
    (t : AlertType) :
    alertsOf t (modify KpiAlert.id a.id f alerts) =
      if a.alertType = t then modify KpiAlert.id a.id f (alertsOf t alerts) else alertsOf t alerts := by
  have hfilter : alertsOf t (modify KpiAlert.id a.id f alerts) =
      modify KpiAlert.id a.id f (alertsOf t alerts) := by
    rw [alertsOf, Lib.modify, List.filter_map, Lib.modify, alertsOf]
    congr 1
    refine List.filter_congr fun b _ => ?_
    simp only [Function.comp]
    split
    · rw [hf]
    · rfl
  rw [hfilter]
  split
  · rfl
  · rename_i hne
    refine modify_eq_self fun b hb e => absurd ?_ hne
    obtain ⟨hb, hbt⟩ := mem_alertsOf.mp hb
    rw [← hk.eq_of_key hb ha e, hbt]

theorem alertsOf_append (t : AlertType) (alerts : List KpiAlert) (b : KpiAlert) :
    alertsOf t (alerts ++ [b]) =
      if b.alertType = t then alertsOf t alerts ++ [b] else alertsOf t alerts := by
  rw [alertsOf, List.filter_append]
  split
  · rename_i h; simp [h, alertsOf]
  · rename_i h; simp [h, alertsOf]

theorem openOf_eq (t : AlertType) (alerts : List KpiAlert) :
    (alerts.filter fun a => a.alertType = t ∧ a.status = .open_) =
      (alertsOf t alerts).filter fun a => a.status = .open_ := by
  rw [alertsOf, List.filter_filter]
  refine List.filter_congr fun a _ => ?_
  simp [Bool.and_comm]

/-- Inserting the alert of a check. -/
theorem Grown.insert {c : Check} {before alerts : List KpiAlert} (hG : Grown before alerts)
    (e : alertsOf c.alertType alerts = alertsOf c.alertType before)
    (hn : ∀ a ∈ alertsOf c.alertType before, a.status ≠ .open_) {id : ℕ}
    (hid : ∀ a ∈ alerts, a.id ≠ id) (now : ℕ) :
    Grown before (alerts ++ [c.alert id now]) ∧ Opened c before (alerts ++ [c.alert id now]) ∧
      ∀ t, t ≠ c.alertType → alertsOf t (alerts ++ [c.alert id now]) = alertsOf t alerts := by
  have htype : (c.alert id now).alertType = c.alertType := rfl
  refine ⟨⟨hG.keyed.append hid, fun a ha => ?_⟩, ⟨hn, c.alert id now, ?_, rfl, fun a ha e' => ?_⟩,
    fun t hne => ?_⟩
  · obtain ⟨a', ha', e'⟩ := hG.kept a ha
    exact ⟨a', List.mem_append_left _ ha', e'⟩
  · rw [alertsOf_append, if_pos htype, e]
  · obtain ⟨a', ha', e''⟩ := hG.kept a ha
    exact hid a' ha' (e''.trans e')
  · rw [alertsOf_append, if_neg (htype ▸ hne.symm)]

/-- Resolving the only active alert of a type. -/
theorem Grown.resolve {t : AlertType} {before alerts : List KpiAlert} (hG : Grown before alerts)
    (e : alertsOf t alerts = alertsOf t before) {a : KpiAlert} (ha : activeOf t before = [a])
    (now : ℕ) :
    Grown before (modify KpiAlert.id a.id (KpiAlert.resolve now) alerts) ∧
      alertsOf t (modify KpiAlert.id a.id (KpiAlert.resolve now) alerts) =
        modify KpiAlert.id a.id (KpiAlert.resolve now) (alertsOf t before) ∧
      ∀ t', t' ≠ t → alertsOf t' (modify KpiAlert.id a.id (KpiAlert.resolve now) alerts) =
        alertsOf t' alerts := by
  have hm : a ∈ alertsOf t alerts := by
    have : a ∈ activeOf t before := by rw [ha]; exact List.mem_cons_self
    rw [activeOf_eq, ← e] at this
    exact (List.mem_filter.mp this).1
  obtain ⟨hm, hat⟩ := mem_alertsOf.mp hm
  have hmod := alertsOf_modify hG.keyed hm (f := KpiAlert.resolve now) fun _ => rfl
  refine ⟨⟨hG.keyed.modify fun _ => rfl, fun b hb => ?_⟩, ?_, fun t' hne => ?_⟩
  · obtain ⟨b', hb', e'⟩ := hG.kept b hb
    refine ⟨_, mem_modify.mpr ⟨b', hb', rfl⟩, ?_⟩
    split <;> exact e'
  · rw [← e, hmod, if_pos hat]
  · rw [hmod, if_neg fun e' => hne (e'.symm.trans hat)]

/-- A step of a check's task: how far it has come, and that only its type is concerned. -/
theorem alertStep_progress {c : Check} {before : List KpiAlert} {w w' : AlertWorld}
    {ans : AlertAnswer} {p : AlertPhase} {n : Next AlertPhase Unit} (hG : Grown before w.alerts)
    (hT : Progress c before w.alerts (.await p)) (hw : Working w ans p)
    (h : alertStep w ans p = (w', n)) :
    Grown before w'.alerts ∧ Progress c before w'.alerts n ∧
      ∀ t, t ≠ c.alertType → alertsOf t w'.alerts = alertsOf t w.alerts := by
  cases p with
  | selectOpen c' =>
    obtain ⟨rfl, ht, e⟩ := hT
    have hf : ans.fails = false := hw
    simp only [alertStep, hf, Bool.false_eq_true, if_false, openOf_eq, e] at h
    split at h
    · rename_i hs
      cases h
      refine ⟨hG, ⟨rfl, ht, e, ?_⟩, fun _ _ => rfl⟩
      simpa [List.filter_eq_nil_iff] using scalarOneOrNone_none hs
    · rename_i hs
      cases h
      refine ⟨hG, .deduplicated ht ?_ e, fun _ _ => rfl⟩
      by_contra hn
      refine hs (congrArg scalarOneOrNone (List.filter_eq_nil_iff.mpr fun a ha ho => hn ⟨a, ha, ?_⟩))
      simpa using ho
  | insert c' =>
    obtain ⟨rfl, ht, e, hn⟩ := hT
    obtain ⟨hf, hid⟩ := hw
    have hany : ¬(ans.fails = true ∨ w.alerts.any (fun a => a.id = ans.rowId) = true) := by
      simpa [hf] using hid
    simp only [alertStep, if_neg hany] at h
    cases h
    obtain ⟨hG', ho, hothers⟩ := hG.insert e hn hid ans.now
    exact ⟨hG', ⟨rfl, ht, ho⟩, hothers⟩
  | refresh c' =>
    obtain ⟨rfl, ht, ho⟩ := hT
    have hf : ans.fails = false := hw
    simp only [alertStep, hf, Bool.false_eq_true, if_false] at h
    cases h
    exact ⟨hG, .opened ht ho, fun _ _ => rfl⟩
  | selectActive t =>
    obtain ⟨rfl, ht, e⟩ := hT
    have hf : ans.fails = false := hw
    have ha : activeOf c.alertType w.alerts = activeOf c.alertType before := by
      rw [activeOf_eq, activeOf_eq, e]
    simp only [alertStep, hf, Bool.false_eq_true, if_false] at h
    rw [show (w.alerts.filter fun a => a.alertType = c.alertType ∧ a.active) =
      activeOf c.alertType before from ha] at h
    split at h
    · rename_i hs
      cases h
      exact ⟨hG, ⟨ht, e, scalarOneOrNone_some hs⟩, fun _ _ => rfl⟩
    · rename_i hs
      cases h
      refine ⟨hG, .left ht (fun h1 => ?_) e, fun _ _ => rfl⟩
      obtain ⟨a, ha⟩ := List.length_eq_one_iff.mp h1
      exact hs a (by rw [ha]; rfl)
  | resolve a =>
    obtain ⟨ht, e, ha⟩ := hT
    have hf : ans.fails = false := hw
    simp only [alertStep, hf, Bool.false_eq_true, if_false] at h
    cases h
    obtain ⟨hG', hres, hothers⟩ := hG.resolve e ha ans.now
    exact ⟨hG', .resolved ans.now ht ha hres, hothers⟩

/-- How far the tasks of the checks `cs` have come. -/
def Advanced (cs : List Check) (before : List KpiAlert)
    (s : AlertWorld × List (Next AlertPhase Unit)) : Prop :=
  Grown before s.1.alerts ∧ ∀ (i : ℕ) (t : Next AlertPhase Unit), s.2[i]? = some t →
    ∃ c, cs[i]? = some c ∧ Progress c before s.1.alerts t

theorem cycleTasks_advanced {cs : List Check} (hcs : Keyed Check.alertType cs)
    (before : List KpiAlert) : ∀ s a s', Advanced cs before s → cycleTasks.step s a s' →
      Advanced cs before s' := by
  have hI : ((interleave alertStep fun _ _ => False).restrict (StepMeets Working)).Inductive
      (Advanced cs before) := by
    refine interleave_indexed (G := fun w : AlertWorld => Grown before w.alerts)
      (T := fun i w t => ∃ c, cs[i]? = some c ∧ Progress c before w.alerts t)
      (fun _ _ => False.elim) fun i w a p w' n hG ⟨c, hc, hT⟩ hw hs => ?_
    obtain ⟨hG', hT', hothers⟩ := alertStep_progress hG hT hw hs
    refine ⟨hG', ⟨c, hc, hT'⟩, fun j t hj ⟨c', hc', ht⟩ => ⟨c', hc', ht.congr (hothers _ ?_)⟩⟩
    -- another task's check has another type
    intro e
    have heq : c' = c := hcs.eq_of_key (List.mem_of_getElem? hc') (List.mem_of_getElem? hc) e
    have hlt := (List.getElem?_eq_some_iff.mp hc').1
    exact hj ((List.getElem?_inj hlt hcs.nodup).mp (hc'.trans (heq ▸ hc.symm)))
  exact hI.step

/-- **A cycle** leaves of every type what the type's task leaves. -/
theorem cycle_outcome {cs : List Check} (hcs : Keyed Check.alertType cs) {w w' : AlertWorld}
    {schedule : List (ℕ × AlertAnswer)} {ts : List (Next AlertPhase Unit)}
    (hk : Keyed KpiAlert.id w.alerts)
    (h : cycleTasks.Run (w, cs.map fun c => .await c.start) schedule (w', ts))
    (hdone : ∀ t ∈ ts, t = .done ()) :
    Grown w.alerts w'.alerts ∧ ∀ c ∈ cs, Outcome c w.alerts w'.alerts := by
  have start : Advanced cs w.alerts (w, cs.map fun c => .await c.start) := by
    refine ⟨⟨hk, fun a ha => ⟨a, ha, rfl⟩⟩, fun i t ht => ?_⟩
    rw [List.getElem?_map] at ht
    obtain ⟨c, hc, rfl⟩ := Option.map_eq_some_iff.mp ht
    refine ⟨c, hc, ?_⟩
    unfold Check.start
    split
    · exact ⟨rfl, ‹_›, rfl⟩
    · rename_i hn
      exact ⟨rfl, by simpa using hn, rfl⟩
  have hlen : ts.length = cs.length := by simpa using interleave_length h
  obtain ⟨hG, hT⟩ := h.keeps (cycleTasks_advanced hcs w.alerts) start
  refine ⟨hG, fun c hc => ?_⟩
  obtain ⟨i, hi⟩ := List.mem_iff_getElem?.mp hc
  have hlt : i < ts.length := hlen ▸ (List.getElem?_eq_some_iff.mp hi).1
  obtain ⟨c', hc', hp⟩ := hT i ts[i] (List.getElem?_eq_getElem hlt)
  rw [hi] at hc'
  cases hc'
  rw [hdone _ (List.getElem_mem hlt)] at hp
  exact hp

/-! ## Runs -/

/-- The step is a cycle in which the condition of the type is triggered. -/
def Triggers (cfg : AlertConfig) (t : AlertType) (s : AlertState) : AlertAction → Prop
  | .cycle k _ => ∃ c ∈ checks cfg s.prev k, c.alertType = t ∧ c.triggered
  | .acknowledge _ _ => False

/-- The step triggers no type `t` that has an acknowledged alert. -/
def Unacknowledged (cfg : AlertConfig) (t : AlertType) (s : AlertState) (a : AlertAction) : Prop :=
  Triggers cfg t s a → ∀ b ∈ alertsOf t s.world.alerts, b.status ≠ .acknowledged

instance (cfg : AlertConfig) (t : AlertType) (s : AlertState) (a : AlertAction) :
    Decidable (Triggers cfg t s a) :=
  match a with
  | .cycle k _ => inferInstanceAs (Decidable (∃ c ∈ checks cfg s.prev k, _))
  | .acknowledge _ _ => inferInstanceAs (Decidable False)

instance (cfg : AlertConfig) (t : AlertType) (s : AlertState) (a : AlertAction) :
    Decidable (Unacknowledged cfg t s a) :=
  inferInstanceAs (Decidable (Triggers cfg t s a → _))

/-- At most one alert of the type waits for the metric to normalise. -/
structure SingleActive (t : AlertType) (s : AlertState) : Prop where
  keyed : Keyed KpiAlert.id s.world.alerts
  single : (activeOf t s.world.alerts).length ≤ 1

/-- An acknowledged alert still waits. -/
theorem activeOf_acknowledge (t : AlertType) (id now : ℕ) (alerts : List KpiAlert) :
    (activeOf t (acknowledgeAlert id now alerts).1).length = (activeOf t alerts).length := by
  unfold acknowledgeAlert
  split
  · rfl
  · rfl
  · rename_i a hs
    by_cases ho : a.status = .open_
    · rw [if_neg (not_not.mpr ho)]
      have hrow : ∀ b ∈ alerts, b.id = id → b.status = .open_ := by
        intro b hb e
        have hm : b ∈ alerts.filter fun a => a.id = id := List.mem_filter.mpr ⟨hb, by simpa using e⟩
        rw [scalarOneOrNone_some hs, List.mem_singleton] at hm
        rw [hm, ho]
      rw [activeOf, Lib.modify, List.filter_map, List.length_map, activeOf]
      congr 1
      refine List.filter_congr fun b hb => ?_
      simp only [Function.comp]
      split
      · rename_i e
        simp [KpiAlert.acknowledge, KpiAlert.active, hrow b hb e]
      · rfl
    · rw [if_pos ho]

theorem keyed_acknowledge {alerts : List KpiAlert} (h : Keyed KpiAlert.id alerts) (id now : ℕ) :
    Keyed KpiAlert.id (acknowledgeAlert id now alerts).1 := by
  unfold acknowledgeAlert
  split
  · exact h
  · exact h
  · split
    · exact h
    · exact h.modify fun _ => rfl

/-- A cycle, seen from one type: the check of the type and its outcome. -/
theorem cycle_check {cfg : AlertConfig} {s s' : AlertState} {k : Kpis}
    {schedule : List (ℕ × AlertAnswer)} (hk : Keyed KpiAlert.id s.world.alerts)
    (h : (alerting cfg).step s (.cycle k schedule) s') (t : AlertType) :
    Keyed KpiAlert.id s'.world.alerts ∧ ∃ c, c.alertType = t ∧
      (Triggers cfg t s (.cycle k schedule) ↔ c.triggered) ∧
      Outcome c s.world.alerts s'.world.alerts := by
  obtain ⟨-, ts, hrun, hdone⟩ := h
  obtain ⟨hG, ho⟩ := cycle_outcome (checks_keyed cfg s.prev k) hk hrun hdone
  obtain ⟨c, hc, rfl⟩ := List.mem_map.mp (mem_checks_types cfg s.prev k t)
  refine ⟨hG.keyed, c, rfl, ⟨fun ⟨c', hc', e, ht⟩ => ?_, fun ht => ⟨c, hc, rfl, ht⟩⟩, ho c hc⟩
  rwa [← (checks_keyed cfg s.prev k).eq_of_key hc' hc e]

/-- An untriggered cycle clears the type unless two alerts wait. -/
theorem Outcome.cleared_iff {c : Check} {before after : List KpiAlert} (h : Outcome c before after)
    (hc : c.triggered = false) :
    activeOf c.alertType after = [] ↔ (activeOf c.alertType before).length ≤ 1 := by
  cases h with
  | deduplicated ht => simp [ht] at hc
  | opened ht => simp [ht] at hc
  | @resolved a now _ ha e =>
    refine ⟨fun _ => by rw [ha]; rfl, fun _ => ?_⟩
    rw [activeOf_eq, e, List.filter_eq_nil_iff]
    intro b' hb'
    obtain ⟨b, hb, rfl⟩ := mem_modify.mp hb'
    split
    · simp [KpiAlert.resolve, KpiAlert.active]
    · rename_i hne
      intro hact
      have hm : b ∈ activeOf c.alertType before := by
        rw [activeOf_eq]
        exact List.mem_filter.mpr ⟨hb, hact⟩
      rw [ha, List.mem_singleton] at hm
      exact hne (by rw [hm])
  | left _ hl e =>
    have he : activeOf c.alertType after = activeOf c.alertType before := by
      rw [activeOf_eq, activeOf_eq, e]
    rw [he, ← List.length_eq_zero_iff]
    omega

/-- A triggered cycle leaves one alert waiting, if none was acknowledged. -/
theorem Outcome.single {c : Check} {before after : List KpiAlert} (h : Outcome c before after)
    (hc : c.triggered) (hn : ∀ b ∈ alertsOf c.alertType before, b.status ≠ .acknowledged)
    (hl : (activeOf c.alertType before).length ≤ 1) :
    (activeOf c.alertType after).length ≤ 1 := by
  rw [activeOf_eq] at hl ⊢
  cases h with
  | deduplicated _ _ e => rwa [e]
  | opened _ ho =>
    obtain ⟨b, e, hb, -⟩ := ho.opened
    have hnil : (alertsOf c.alertType before).filter KpiAlert.active = [] := by
      refine List.filter_eq_nil_iff.mpr fun a ha => ?_
      simp [KpiAlert.active, ho.none_open a ha, hn a ha]
    rw [e, List.filter_append, hnil, List.nil_append]
    exact List.length_filter_le _ _
  | resolved _ ht => simp [ht] at hc
  | left ht => simp [ht] at hc

theorem singleActive (cfg : AlertConfig) (t : AlertType) :
    ((alerting cfg).restrict (Unacknowledged cfg t)).Inductive (SingleActive t) where
  init s h := by
    obtain ⟨h, -⟩ := h
    exact ⟨by simp [Keyed, h], by simp [activeOf, h]⟩
  step s a s' hi h := by
    obtain ⟨hu, h⟩ := h
    cases a with
    | cycle k schedule =>
      obtain ⟨hk, c, rfl, htrig, ho⟩ := cycle_check hi.keyed h t
      refine ⟨hk, ?_⟩
      by_cases hc : c.triggered
      · exact ho.single hc (hu (htrig.mpr hc)) hi.single
      · simp [(ho.cleared_iff (by simpa using hc)).mpr hi.single]
    | acknowledge id now =>
      cases h
      exact ⟨keyed_acknowledge hi.keyed id now, by
        rw [activeOf_acknowledge]; exact hi.single⟩

/-! ## The result -/

/-- Only steps that do not trigger the type. -/
def untriggered (cfg : AlertConfig) (t : AlertType) : Sys :=
  (alerting cfg).restrict fun s a => ¬Triggers cfg t s a

/-- No alert of the type waits, and the next cycle that triggers the type opens one. -/
structure Cleared (cfg : AlertConfig) (t : AlertType) (s : AlertState) : Prop where
  none_active : activeOf t s.world.alerts = []
  reopens : ∀ as s₂ k schedule s₃, (untriggered cfg t).Run s as s₂ →
    (alerting cfg).step s₂ (.cycle k schedule) s₃ → Triggers cfg t s₂ (.cycle k schedule) →
    ∃ b ∈ alertsOf t s₃.world.alerts, b.status = .open_ ∧ ∀ a ∈ s₂.world.alerts, a.id ≠ b.id

/-- Nothing waits as long as the type is not triggered. -/
theorem untriggered_cleared {cfg : AlertConfig} {t : AlertType} : ∀ s a s',
    Keyed KpiAlert.id s.world.alerts ∧ activeOf t s.world.alerts = [] →
      (untriggered cfg t).step s a s' →
        Keyed KpiAlert.id s'.world.alerts ∧ activeOf t s'.world.alerts = [] := by
  rintro s a s' ⟨hk, hn⟩ ⟨hq, h⟩
  cases a with
  | cycle k schedule =>
    obtain ⟨hk', c, rfl, htrig, ho⟩ := cycle_check hk h t
    refine ⟨hk', (ho.cleared_iff ?_).mpr (by simp [hn])⟩
    simpa using mt htrig.mpr hq
  | acknowledge id now =>
    cases h
    refine ⟨keyed_acknowledge hk id now, ?_⟩
    rw [← List.length_eq_zero_iff, activeOf_acknowledge, hn]
    rfl

theorem Cleared.of_active {cfg : AlertConfig} {t : AlertType} {s : AlertState}
    (hk : Keyed KpiAlert.id s.world.alerts) (hn : activeOf t s.world.alerts = []) :
    Cleared cfg t s where
  none_active := hn
  reopens as s₂ k schedule s₃ hrun h htrig := by
    obtain ⟨hk₂, hn₂⟩ := hrun.keeps
      (I := fun s : AlertState => Keyed KpiAlert.id s.world.alerts ∧ activeOf t s.world.alerts = [])
      untriggered_cleared ⟨hk, hn⟩
    obtain ⟨-, c, rfl, hc, ho⟩ := cycle_check hk₂ h t
    have hc := hc.mp htrig
    cases ho with
    | deduplicated _ hd =>
      obtain ⟨a, ha, hopen⟩ := hd
      rw [activeOf_eq, List.filter_eq_nil_iff] at hn₂
      exact absurd (by simp [KpiAlert.active, hopen]) (hn₂ a ha)
    | opened _ ho =>
      obtain ⟨b, e, hb, hid⟩ := ho.opened
      exact ⟨b, e ▸ List.mem_append_right _ List.mem_cons_self, hb, hid⟩
    | resolved _ ht => simp [ht] at hc
    | left ht => simp [ht] at hc

theorem keyed_alerts (cfg : AlertConfig) :
    (alerting cfg).Inductive fun s => Keyed KpiAlert.id s.world.alerts where
  init s h := by
    obtain ⟨h, -⟩ := h
    rw [h]
    exact List.nodup_nil
  step s a s' hk h := by
    cases a with
    | cycle k schedule => exact (cycle_check hk h .latencyHigh).1
    | acknowledge id now =>
      cases h
      exact keyed_acknowledge hk id now

/-- **A normalised metric clears its alert** in a run that triggers no type while it has an
acknowledged alert; in any run exactly when at most one alert of the type waits. -/
theorem normalised_clears (cfg : AlertConfig) (t : AlertType) {s s₁ : AlertState} {k : Kpis}
    {schedule : List (ℕ × AlertAnswer)} (h : (alerting cfg).step s (.cycle k schedule) s₁)
    (hn : ¬Triggers cfg t s (.cycle k schedule)) :
    (((alerting cfg).restrict (Unacknowledged cfg t)).Reach s → Cleared cfg t s₁) ∧
      ((alerting cfg).Reach s →
        (Cleared cfg t s₁ ↔ (activeOf t s.world.alerts).length ≤ 1)) := by
  have key : Keyed KpiAlert.id s.world.alerts →
      (Cleared cfg t s₁ ↔ (activeOf t s.world.alerts).length ≤ 1) := by
    intro hk
    obtain ⟨hk₁, c, rfl, hc, ho⟩ := cycle_check hk h t
    have hiff := ho.cleared_iff (by simpa using mt hc.mpr hn)
    exact ⟨fun hcl => hiff.mp hcl.none_active, fun hl => .of_active hk₁ (hiff.mpr hl)⟩
  refine ⟨fun hs => ?_, fun hs => key ((keyed_alerts cfg).reach hs)⟩
  obtain ⟨hk, hl⟩ := (singleActive cfg t).reach hs
  exact (key hk).mpr hl

/-! ## Two alerts -/

namespace Sample

/-- Whole numbers; the messages are left empty. -/
def alertConfig : AlertConfig :=
  let whole (q : ℚ) : PyFloat := (PyFloat.ofDecimal (q < 0) q.num.natAbs 0).getD .zero
  { latencyMsThreshold := whole 500
    errorRateThreshold := whole 1
    authFailurePerCycle := 10
    rateLimitPerCycle := 50
    liquidationPerCycle := 3
    exposurePctThreshold := whole 90
    globalExposureThreshold := whole 10000000
    float := whole
    oneDecimal _ := ""
    percent _ := ""
    amount _ := "" }

/-- The KPIs at a latency. -/
def kpis (latency : ℚ) : Kpis where
  latencyMs := alertConfig.float latency
  errorRate := alertConfig.float 0
  authFailures := 0
  rateLimitHits := 0
  globalExposure := alertConfig.float 0
  liquidationsTotal := 0

/-- The tasks one after the other, with `n` calls for the first and one for each of the others. -/
def inOrder (n rowId now : ℕ) : List (ℕ × AlertAnswer) :=
  List.replicate n (0, ⟨false, rowId, now⟩) ++ [1, 2, 3, 4, 5].map fun i => (i, ⟨false, 0, now⟩)

instance : ∀ w a p, Decidable (Working w a p)
  | _, _, .insert _ => inferInstanceAs (Decidable (_ ∧ _))
  | _, _, .selectOpen _ | _, _, .refresh _ | _, _, .selectActive _ | _, _, .resolve _ =>
    inferInstanceAs (Decidable (_ = _))

/-- A step, computed. -/
def alertExec (s : AlertState) : AlertAction → Option AlertState
  | .cycle k schedule => do
    let (world, ts) ← schedule.foldlM (exec alertStep Working)
      (s.world, (checks alertConfig s.prev k).map fun c => .await c.start)
    if ts.all Next.isDone then
      some ⟨world, ⟨k.authFailures, k.rateLimitHits, k.liquidationsTotal⟩⟩ else none
  | .acknowledge id now =>
    some { s with world.alerts := (acknowledgeAlert id now s.world.alerts).1 }

theorem alertExec_step {s s' : AlertState} {a : AlertAction} (h : alertExec s a = some s') :
    (alerting alertConfig).step s a s' := by
  cases a with
  | cycle k schedule =>
    obtain ⟨⟨world, ts⟩, hrun, h⟩ := Option.bind_eq_some_iff.mp h
    obtain ⟨hdone, h⟩ := Option.ite_none_right_eq_some.mp h
    cases h
    refine ⟨rfl, ts, .foldlM (fun _ _ _ _ h => exec_step h) hrun, fun t ht => ?_⟩
    have := List.all_eq_true.mp hdone t ht
    cases t with
    | await p => cases this
    | done r => rfl
  | acknowledge id now => cases h; rfl

/-- The latency is high, and its alert is acknowledged. -/
def acknowledged : List AlertAction := [.cycle (kpis 800) (inOrder 3 1 0), .acknowledge 1 1]

/-- The latency is high once more. -/
def retriggered : List AlertAction := acknowledged ++ [.cycle (kpis 800) (inOrder 3 2 2)]

/-- The latency is normal again; its task makes `n` calls. -/
def normal (n : ℕ) : AlertAction := .cycle (kpis 100) (inOrder n 0 3)

end Sample

open Sample in
/-- The result for an alert that was acknowledged before the latency was normal again. -/
theorem normalised_clears_acknowledged :
    ∃ s s₁, ((alerting alertConfig).restrict (Unacknowledged alertConfig .latencyHigh)).Reach s ∧
      (alerting alertConfig).step s (normal 2) s₁ ∧
      (activeOf .latencyHigh s.world.alerts).map KpiAlert.status = [.acknowledged] ∧
      Cleared alertConfig .latencyHigh s₁ := by
  let f (s : AlertState) (a : AlertAction) : Option AlertState :=
    if Unacknowledged alertConfig .latencyHigh s a then alertExec s a else none
  have hrun : (acknowledged.foldlM f ⟨⟨[], []⟩, {}⟩).map (fun s =>
      ((activeOf .latencyHigh s.world.alerts).map KpiAlert.status,
        decide (Triggers alertConfig .latencyHigh s (normal 2)), (alertExec s (normal 2)).isSome)) =
      some ([.acknowledged], false, true) := by decide +kernel
  obtain ⟨s, hs, h⟩ := Option.map_eq_some_iff.mp hrun
  simp only [Prod.mk.injEq] at h
  obtain ⟨hstatus, htrig, hsome⟩ := h
  obtain ⟨s₁, hs₁⟩ := Option.isSome_iff_exists.mp hsome
  have hstep := alertExec_step hs₁
  have hreach : ((alerting alertConfig).restrict
      (Unacknowledged alertConfig .latencyHigh)).Reach s := by
    refine .foldlM (f := f) (fun s a _ s' h => ?_) (.init ⟨rfl, rfl⟩) hs
    obtain ⟨hu, h⟩ := Option.ite_none_right_eq_some.mp h
    exact ⟨hu, alertExec_step h⟩
  exact ⟨s, s₁, hreach, hstep, hstatus,
    (normalised_clears alertConfig .latencyHigh hstep (of_decide_eq_false htrig)).1 hreach⟩

open Sample in
/-- The latency is high again after its alert was acknowledged: there are two alerts, and both are
left when it is (normal 2). -/
theorem normalised_not_cleared :
    ∃ s s₁, (alerting alertConfig).Reach s ∧ (alerting alertConfig).step s (normal 1) s₁ ∧
      ¬Triggers alertConfig .latencyHigh s (normal 1) ∧
      (activeOf .latencyHigh s₁.world.alerts).map KpiAlert.status = [.acknowledged, .open_] := by
  have hrun : (retriggered.foldlM alertExec ⟨⟨[], []⟩, {}⟩).map (fun s =>
      (decide (Triggers alertConfig .latencyHigh s (normal 1)),
        (alertExec s (normal 1)).map fun s₁ : AlertState =>
          (activeOf .latencyHigh s₁.world.alerts).map KpiAlert.status)) =
      some (false, some [.acknowledged, .open_]) := by decide +kernel
  obtain ⟨s, hs, h⟩ := Option.map_eq_some_iff.mp hrun
  obtain ⟨htrig, hstatus⟩ := Prod.mk.inj h
  obtain ⟨s₁, hs₁, hstatus⟩ := Option.map_eq_some_iff.mp hstatus
  have hreach : (alerting alertConfig).Reach s :=
    .foldlM (fun _ _ _ _ h => alertExec_step h) (.init ⟨rfl, rfl⟩) hs
  exact ⟨s, s₁, hreach, alertExec_step hs₁, of_decide_eq_false htrig, hstatus⟩

end CryptoExchange
