import Mathlib.Data.List.Basic

/-!
# Systems that take labelled steps

The generic layer under every result about runs: a system is a type of states, the initial states
and the steps that an action can make. A sequential service (one request after another) and a set
of interleaved tasks (an action says which task moves, and what it is answered) are both systems.

* `Sys.Reach`: the reachable states; `Sys.Inductive`: an inductive invariant, which holds of
  every reachable state (`Inductive.reach`).
* `Sys.Run s as s'`: the run with the actions `as`. `Reach.run` extends a reachable state by a run,
  and `Run.relates` relates two moments of one.
* `Sys.restrict C`: the same system with only the steps that meet the condition `C` (a condition
  on the state before the step and on the action).
* `Sys.withHistory f`: the same system with a variable that records what happened.
-/

namespace Lib

/-- A system: initial states and labelled steps. -/
structure Sys where
  St : Type
  Act : Type
  init : St → Prop
  step : St → Act → St → Prop

namespace Sys

variable (S : Sys)

/-- The states that a run from an initial state reaches. -/
inductive Reach : S.St → Prop
  | init {s : S.St} : S.init s → Reach s
  | step {s s' : S.St} (a : S.Act) : Reach s → S.step s a s' → Reach s'

/-- A run: its actions, first to last. -/
inductive Run : S.St → List S.Act → S.St → Prop
  | nil (s : S.St) : Run s [] s
  | cons {s s' s'' : S.St} {a : S.Act} {as : List S.Act} :
      S.step s a s' → Run s' as s'' → Run s (a :: as) s''

/-- An inductive invariant: it holds initially and every step keeps it. -/
structure Inductive (I : S.St → Prop) : Prop where
  init : ∀ s, S.init s → I s
  step : ∀ s a s', I s → S.step s a s' → I s'

/-- The system with only the steps that meet `C`. -/
def restrict (C : S.St → S.Act → Prop) : Sys where
  St := S.St
  Act := S.Act
  init := S.init
  step s a s' := C s a ∧ S.step s a s'

/-- The system with a history variable: it starts as `g₀`, and `f` extends it at each step. -/
def withHistory {G : Type} (g₀ : G) (f : S.St → S.Act → S.St → G → G) : Sys where
  St := S.St × G
  Act := S.Act
  init s := S.init s.1 ∧ s.2 = g₀
  step s a s' := S.step s.1 a s'.1 ∧ s'.2 = f s.1 a s'.1 s.2

variable {S}

theorem Inductive.reach {I : S.St → Prop} (h : S.Inductive I) {s : S.St} (hs : S.Reach s) :
    I s := by
  induction hs with
  | init hi => exact h.init _ hi
  | step a _ hst ih => exact h.step _ a _ ih hst

/-- A condition that every step meets can be left out. -/
theorem Inductive.unrestrict {C : S.St → S.Act → Prop} (hC : ∀ s a, C s a) {I : S.St → Prop}
    (h : (S.restrict C).Inductive I) : S.Inductive I :=
  ⟨h.init, fun s a s' hi hst => h.step s a s' hi ⟨hC s a, hst⟩⟩

theorem Inductive.restrict {C : S.St → S.Act → Prop} {I : S.St → Prop} (h : S.Inductive I) :
    (S.restrict C).Inductive I :=
  ⟨h.init, fun s a s' hi hst => h.step s a s' hi hst.2⟩

/-- What the steps keep that meet `C`, they also keep where they meet `D` besides. -/
theorem Inductive.restrict_inner {C D : S.St → S.Act → Prop} {I : S.St → Prop}
    (h : (S.restrict C).Inductive I) : ((S.restrict D).restrict C).Inductive I :=
  ⟨h.init, fun s a s' hi hst => h.step s a s' hi ⟨hst.1, hst.2.2⟩⟩

theorem run_nil {s s' : S.St} : S.Run s [] s' ↔ s = s' := by
  constructor
  · rintro ⟨⟩; rfl
  · rintro rfl; exact .nil s

theorem run_cons {s s' : S.St} {a : S.Act} {as : List S.Act} :
    S.Run s (a :: as) s' ↔ ∃ s₁, S.step s a s₁ ∧ S.Run s₁ as s' := by
  constructor
  · rintro (_ | ⟨hst, hrun⟩); exact ⟨_, hst, hrun⟩
  · rintro ⟨s₁, hst, hrun⟩; exact .cons hst hrun

/-- A run keeps what its steps keep. -/
theorem Run.keeps {I : S.St → Prop} (hI : ∀ s a s', I s → S.step s a s' → I s') {s s' : S.St}
    {as : List S.Act} (h : S.Run s as s') (hs : I s) : I s' := by
  induction h with
  | nil => exact hs
  | cons hst _ ih => exact ih (hI _ _ _ hs hst)

theorem Reach.run {s s' : S.St} {as : List S.Act} (hs : S.Reach s) (h : S.Run s as s') :
    S.Reach s' := by
  induction h with
  | nil => exact hs
  | cons hst _ ih => exact ih (.step _ hs hst)

/-- **Rule for two moments of a run.** A relation that is reflexive and transitive, and holds across
every step from a state that satisfies an invariant, holds between the moments of a run. -/
theorem Run.relates {I : S.St → Prop} (hI : S.Inductive I) {Q : S.St → S.St → Prop}
    (hrefl : ∀ s, Q s s) (htrans : ∀ s t u, Q s t → Q t u → Q s u)
    (hstep : ∀ s a s', I s → S.step s a s' → Q s s') {s s' : S.St} {as : List S.Act}
    (hs : S.Reach s) (h : S.Run s as s') : Q s s' := by
  induction h with
  | nil => exact hrefl _
  | cons hst _ ih => exact htrans _ _ _ (hstep _ _ _ (hI.reach hs) hst) (ih (.step _ hs hst))

/-- Where an action leads to one state at most, so do any actions. -/
theorem Run.unique (hS : ∀ s a s₁ s₂, S.step s a s₁ → S.step s a s₂ → s₁ = s₂) {s s₁ s₂ : S.St}
    {as : List S.Act} (h₁ : S.Run s as s₁) (h₂ : S.Run s as s₂) : s₁ = s₂ := by
  induction h₁ with
  | nil => exact run_nil.mp h₂
  | cons hst _ ih =>
    obtain ⟨t, hst', hrun⟩ := run_cons.mp h₂
    obtain rfl := hS _ _ _ _ hst hst'
    exact ih hrun

/-- A run that is computed: `f` makes steps of the system. -/
theorem Run.foldlM {f : S.St → S.Act → Option S.St} {as : List S.Act}
    (hf : ∀ s, ∀ a ∈ as, ∀ s', f s a = some s' → S.step s a s') {s s' : S.St}
    (h : as.foldlM f s = some s') : S.Run s as s' := by
  induction as generalizing s with
  | nil => cases h; exact .nil _
  | cons a as ih =>
    rw [List.foldlM_cons] at h
    obtain ⟨s₁, h₁, h₂⟩ := Option.bind_eq_some_iff.mp h
    exact .cons (hf s a List.mem_cons_self s₁ h₁)
      (ih (fun s b hb => hf s b (List.mem_cons_of_mem _ hb)) h₂)

theorem Reach.foldlM {f : S.St → S.Act → Option S.St} {as : List S.Act}
    (hf : ∀ s, ∀ a ∈ as, ∀ s', f s a = some s' → S.step s a s') {s s' : S.St} (hs : S.Reach s)
    (h : as.foldlM f s = some s') : S.Reach s' :=
  hs.run (.foldlM hf h)

theorem Reach.restrict {C : S.St → S.Act → Prop} (hC : ∀ s a, C s a) {s : S.St}
    (h : S.Reach s) : (S.restrict C).Reach s := by
  induction h with
  | init hi => exact .init hi
  | step a _ hst ih => exact .step a ih ⟨hC _ a, hst⟩

theorem Reach.of_restrict {C : S.St → S.Act → Prop} :
    ∀ {s : S.St}, (S.restrict C).Reach s → S.Reach s
  | _, .init h => .init h
  | _, .step a hs hst => .step a (of_restrict hs) hst.2

theorem Run.of_restrict {C : S.St → S.Act → Prop} :
    ∀ {s s' : S.St} {as : List S.Act}, (S.restrict C).Run s as s' → S.Run s as s'
  | _, _, _, .nil s => .nil (S := S) s
  | _, _, _, .cons hst hrun => .cons (S := S) hst.2 (of_restrict hrun)

/-- A run without its history. -/
theorem Run.of_withHistory {G : Type} {g₀ : G} {f : S.St → S.Act → S.St → G → G} {as : List S.Act}
    {s s' : S.St × G} (h : (S.withHistory g₀ f).Run s as s') : S.Run s.1 as s'.1 := by
  induction as generalizing s with
  | nil =>
    obtain rfl := run_nil.mp h
    exact .nil (S := S) s.1
  | cons a as ih =>
    obtain ⟨s₁, hst, hrun⟩ := run_cons.mp h
    exact .cons (S := S) hst.1 (ih hrun)

end Sys

end Lib
