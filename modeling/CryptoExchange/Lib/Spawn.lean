import CryptoExchange.Lib.Machine

/-!
# Machines that start others

The machines of one interleaving put items on a list in their world. Each item starts a machine of
a second interleaving, which has a world of its own (jobs that are queued, a log that is written in
the background).

* `spawning`: both interleavings, a step of any machine at a time.
* `interleave_more`: what machines do, others that have not moved allow.
* `spawning_machines`, `spawning_started`: the rules for runs. Each side by itself is a run of its
  interleaving; on the second side there is a machine for every item.
* `spawning_side`: what the second side can do by itself.
* `spawnExec`: a step, computed.
-/

namespace Lib

variable {W A P R V B Q U E : Type}

/-- **Rule for more machines.** A run is also one of an interleaving that has other machines after
these. -/
theorem interleave_more {step : W → A → P → W × Next P R} {init init' : W → List (Next P R) → Prop}
    {us : List (Next P R)} (hinit : ∀ w ts, init w ts → init' w (ts ++ us))
    {s : W × List (Next P R)} (h : (interleave step init).Reach s) :
    (interleave step init').Reach (s.1, s.2 ++ us) := by
  refine Sys.Inductive.reach (I := fun s : W × List (Next P R) =>
    (interleave step init').Reach (s.1, s.2 ++ us)) ⟨fun s hi => .init (hinit _ _ hi), ?_⟩ h
  rintro s act _ ih ⟨p, hp, rfl⟩
  have hlt : act.1 < s.2.length := (List.getElem?_eq_some_iff.mp hp).1
  refine .step act ih ⟨p, ?_, ?_⟩
  · rw [List.getElem?_append_left hlt]
    exact hp
  · rw [List.set_append_left _ _ hlt]

/-- The rule with no more machines. -/
theorem interleave_init {step : W → A → P → W × Next P R} {init init' : W → List (Next P R) → Prop}
    (hinit : ∀ w ts, init w ts → init' w ts) {s : W × List (Next P R)}
    (h : (interleave step init).Reach s) : (interleave step init').Reach s := by
  have hmore : ∀ w ts, init w ts → init' w (ts ++ []) := fun w ts hi => by
    rw [List.append_nil]
    exact hinit w ts hi
  have hreach := interleave_more hmore h
  rwa [List.append_nil] at hreach

/-- The machines with their world, and those that they have started with theirs. -/
structure Spawning (W P R V Q U : Type) where
  world : W
  machines : List (Next P R)
  side : V
  started : List (Next Q U)

section

variable (step : W → A → P → W × Next P R) (items : W → List E) (step' : V → B → Q → V × Next Q U)
variable (start : ℕ → E → Q)

/-- The machines for the items, at their start. -/
def startAll (es : List E) : List (Next Q U) := es.mapIdx fun i e => .await (start i e)

/-- Both interleavings. A step of the first one starts a machine for each new item. -/
def spawning (init : W → List (Next P R) → Prop) (init' : V → Prop) : Sys where
  St := Spawning W P R V Q U
  Act := (ℕ × A) ⊕ (ℕ × B)
  init s := init s.world s.machines ∧ init' s.side ∧ s.started = startAll start (items s.world)
  step s act s' :=
    match act with
    | .inl (i, a) => ∃ p, s.machines[i]? = some (.await p) ∧
        s' = { s with
          world := (step s.world a p).1
          machines := s.machines.set i (step s.world a p).2
          started := s.started ++
            (startAll start (items (step s.world a p).1)).drop s.started.length }
    | .inr (i, b) => ∃ q, s.started[i]? = some (.await q) ∧
        s' = { s with
          side := (step' s.side b q).1
          started := s.started.set i (step' s.side b q).2 }

/-- The second interleaving by itself, for these items. -/
def startedFor (init' : V → Prop) (es : List E) : Sys :=
  interleave step' fun v ts => init' v ∧ ts = startAll start es

variable {step items step' start} {init : W → List (Next P R) → Prop} {init' : V → Prop}
variable {s s' : Spawning W P R V Q U}

/-- The first side of a run. -/
theorem spawning_machines (h : (spawning step items step' start init init').Reach s) :
    (interleave step init).Reach (s.world, s.machines) := by
  refine Sys.Inductive.reach (I := fun s : Spawning W P R V Q U =>
    (interleave step init).Reach (s.world, s.machines)) ⟨fun s hi => .init hi.1, ?_⟩ h
  rintro s (⟨i, a⟩ | ⟨i, b⟩) _ ih hst
  · obtain ⟨p, hp, rfl⟩ := hst
    exact .step (i, a) ih ⟨p, hp, rfl⟩
  · obtain ⟨q, hq, rfl⟩ := hst
    exact ih

variable (step items) in
/-- Items are only appended. -/
def Appends : Prop := ∀ w a p, items w <+: items (step w a p).1

/-- The second side of a run: a machine for every item of the moment. -/
theorem spawning_started (happ : Appends step items)
    (h : (spawning step items step' start init init').Reach s) :
    s.started.length = (items s.world).length ∧
      (startedFor step' start init' (items s.world)).Reach (s.side, s.started) := by
  refine Sys.Inductive.reach (I := fun s : Spawning W P R V Q U =>
    s.started.length = (items s.world).length ∧
      (startedFor step' start init' (items s.world)).Reach (s.side, s.started))
    ⟨?_, ?_⟩ h
  · rintro s ⟨-, hi⟩
    exact ⟨by rw [hi.2, startAll, List.length_mapIdx], .init hi⟩
  · rintro s (⟨i, a⟩ | ⟨i, b⟩) _ ⟨hlen, ih⟩ hst
    · obtain ⟨p, hp, rfl⟩ := hst
      obtain ⟨es, hes⟩ := happ s.world a p
      -- the machines that exist are those of the items before the step
      have hstarted : startAll start (items s.world) ++
          (startAll start (items (step s.world a p).1)).drop s.started.length =
            (startAll start (items (step s.world a p).1) : List (Next Q U)) := by
        rw [hlen, ← hes, startAll, startAll, List.mapIdx_append,
          List.drop_left' List.length_mapIdx]
      refine ⟨?_, interleave_more (fun v ts hi => ⟨hi.1, by rw [hi.2, hstarted]⟩) ih⟩
      have hle := (happ s.world a p).length_le
      simp only [List.length_append, List.length_drop, startAll, List.length_mapIdx]
      omega
    · obtain ⟨q, hq, rfl⟩ := hst
      exact ⟨(List.length_set).trans hlen, .step (i, b) ih ⟨q, hq, rfl⟩⟩

/-- **Rule for the second side.** What it can do by itself, it can do here, and the first side stays
as it is. -/
theorem spawning_side {init₂ : V → List (Next Q U) → Prop} {bs : List (ℕ × B)}
    {x y : V × List (Next Q U)} (h : (interleave step' init₂).Run x bs y) (w : W)
    (ts : List (Next P R)) :
    (spawning step items step' start init init').Run ⟨w, ts, x.1, x.2⟩ (bs.map .inr)
      ⟨w, ts, y.1, y.2⟩ := by
  induction bs generalizing x with
  | nil =>
    obtain rfl := Sys.run_nil.mp h
    exact .nil (S := spawning step items step' start init init') _
  | cons b bs ih =>
    obtain ⟨_, ⟨q, hq, rfl⟩, hrun⟩ := Sys.run_cons.mp h
    exact .cons (S := spawning step items step' start init init') ⟨q, hq, rfl⟩ (ih hrun)

variable (step items step' start) in
/-- An action of both interleavings, computed. -/
def spawnExec (s : Spawning W P R V Q U) : (ℕ × A) ⊕ (ℕ × B) → Option (Spawning W P R V Q U)
  | .inl (i, a) =>
    match s.machines[i]? with
    | some (.await p) => some { s with
        world := (step s.world a p).1
        machines := s.machines.set i (step s.world a p).2
        started := s.started ++
          (startAll start (items (step s.world a p).1)).drop s.started.length }
    | _ => none
  | .inr (i, b) =>
    match s.started[i]? with
    | some (.await q) => some { s with
        side := (step' s.side b q).1
        started := s.started.set i (step' s.side b q).2 }
    | _ => none

theorem spawnExec_step {act : (ℕ × A) ⊕ (ℕ × B)}
    (h : spawnExec step items step' start s act = some s') :
    (spawning step items step' start init init').step s act s' := by
  rcases act with ⟨i, a⟩ | ⟨i, b⟩ <;> simp only [spawnExec] at h <;> split at h
  · rename_i p hp
    cases h
    exact ⟨p, hp, rfl⟩
  · cases h
  · rename_i q hq
    cases h
    exact ⟨q, hq, rfl⟩
  · cases h

end

end Lib
