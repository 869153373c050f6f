import CryptoExchange.Lib.Sys
import Mathlib.Algebra.BigOperators.Group.List.Basic
import Mathlib.Algebra.GroupWithZero.Nat
import Mathlib.Tactic.Abel

/-!
# Machines that await

A machine over shared worlds `W` runs from one awaited call to the next: `step w a p` is what it
does in the phase `p` when the call is answered `a`. It changes the world and awaits the next call
(`Next.await`) or is done (`Next.done`).

* `run`: the machine alone, from a phase to its result. `run_induct`: what every step keeps gives
  what the result satisfies.
* `CanEnd`: there is such a run with a given end.
* `feed`: the machine after some answers, whether it is done or not.
* `steps`: the steps of such a run. `run_last` is the rule for the step that ends it.
* `interleave`: any number of machines over one world, a step of any of them at a time.
  `interleave_inductive`: the rule for its invariants, with a condition on each machine that the
  steps of the others keep (rely and guarantee).
  `interleave_without`: the rule for a machine that leaves the world alone, and can be left out.
  `interleave_simulated`: the rule for the same machines over another world.
  `interleave_counted`: the rule for a number that all of them share.
  `interleave_ends`: the rule for the end of all of them.
* `recorded`: a machine that writes down what its steps did.
-/

namespace Lib

variable {W A P R : Type}

/-- After a step: the next phase, or the result. -/
inductive Next (P R : Type) where
  | await (p : P)
  | done (r : R)

def Next.isDone : Next P R → Bool
  | .await _ => false
  | .done _ => true

def Next.map {P' R' : Type} (f : P → P') (g : R → R') : Next P R → Next P' R'
  | .await p => .await (f p)
  | .done r => .done (g r)

theorem Next.map_eq_await {P' R' : Type} {f : P → P'} {g : R → R'} {n : Next P R} {p' : P'}
    (h : n.map f g = .await p') : ∃ p, n = .await p ∧ f p = p' := by
  cases n with
  | await p => cases h; exact ⟨p, rfl, rfl⟩
  | done r => cases h

section

variable (step : W → A → P → W × Next P R)

/-- The machine alone: every call is answered in turn, up to the result. -/
def run : List A → W → P → Option (W × R)
  | [], _, _ => none
  | a :: as, w, p =>
    match step w a p with
    | (w', .await p') => run as w' p'
    | (w', .done r) => some (w', r)

variable {step}

theorem run_await {a : A} {as : List A} {w v : W} {p q : P} (hs : step w a p = (v, .await q)) :
    run step (a :: as) w p = run step as v q := by
  rw [run, hs]

theorem run_done {a : A} {as : List A} {w v : W} {p : P} {r : R} (hs : step w a p = (v, .done r)) :
    run step (a :: as) w p = some (v, r) := by
  rw [run, hs]

/-- **Rule for runs.** With answers that all satisfy `C`: `I` holds of the phase at the start and
every step keeps it; a step that ends the machine gives `Q`. -/
theorem run_induct {C : A → Prop} {I : W → P → Prop} {Q : W → R → Prop}
    (hawait : ∀ w a p w' p', C a → I w p → step w a p = (w', .await p') → I w' p')
    (hdone : ∀ w a p w' r, C a → I w p → step w a p = (w', .done r) → Q w' r)
    {as : List A} {w w' : W} {p : P} {r : R} (hC : ∀ a ∈ as, C a) (hI : I w p)
    (h : run step as w p = some (w', r)) : Q w' r := by
  induction as generalizing w p with
  | nil => cases h
  | cons a as ih =>
    have ha := hC a List.mem_cons_self
    rw [run] at h
    split at h
    · rename_i hs
      exact ih (fun b hb => hC b (List.mem_cons_of_mem _ hb)) (hawait _ _ _ _ _ ha hI hs) h
    · rename_i hs
      cases h
      exact hdone _ _ _ _ _ ha hI hs

/-- A machine in the phases `f p` of another one runs as the first. -/
theorem run_map {P' R' : Type} {step' : W → A → P' → W × Next P' R'} {f : P → P'} {g : R → R'}
    (h : ∀ w a p, step' w a (f p) = ((step w a p).1, (step w a p).2.map f g))
    (as : List A) (w : W) (p : P) :
    run step' as w (f p) = (run step as w p).map fun x => (x.1, g x.2) := by
  induction as generalizing w p with
  | nil => rfl
  | cons a as ih =>
    rw [run, run, h]
    cases hs : step w a p with
    | mk w₁ n =>
      cases n with
      | await p₁ => exact ih w₁ p₁
      | done r => rfl

end

/-! ## Some answers -/

section

variable (step : W → A → P → W × Next P R)

/-- The machine after the answers; what is left over when it is done is not read. -/
def feed : List A → W × Next P R → W × Next P R
  | [], s => s
  | _ :: _, (w, .done r) => (w, .done r)
  | a :: as, (w, .await p) => feed as (step w a p)

@[simp] theorem feed_done (as : List A) (w : W) (r : R) :
    feed step as (w, .done r) = (w, .done r) := by
  cases as <;> rfl

@[simp] theorem feed_await (a : A) (as : List A) (w : W) (p : P) :
    feed step (a :: as) (w, .await p) = feed step as (step w a p) := rfl

theorem feed_append (as bs : List A) (s : W × Next P R) :
    feed step (as ++ bs) s = feed step bs (feed step as s) := by
  induction as generalizing s with
  | nil => rfl
  | cons a as ih =>
    obtain ⟨w, n⟩ := s
    cases n with
    | await p => exact ih _
    | done r => simp

end

/-! ## The last step -/

section

variable (step : W → A → P → W × Next P R)

/-- The steps of the machine alone: each with the world and the phase before it, and its answer. -/
def steps : List A → W → P → List (W × A × P)
  | [], _, _ => []
  | a :: as, w, p =>
    (w, a, p) ::
      match step w a p with
      | (w', .await p') => steps as w' p'
      | (_, .done _) => []

variable {step}

theorem steps_await {a : A} {as : List A} {w v : W} {p q : P} (hs : step w a p = (v, .await q)) :
    steps step (a :: as) w p = (w, a, p) :: steps step as v q := by
  rw [steps, hs]

theorem steps_done {a : A} {as : List A} {w v : W} {p : P} {r : R}
    (hs : step w a p = (v, .done r)) : steps step (a :: as) w p = [(w, a, p)] := by
  rw [steps, hs]

/-- **Rule for the last step.** Every step keeps `I`, and a bad one ends the machine. So `I` holds
where the run ends, and there was no bad step exactly when the last one is not bad. -/
theorem run_last {C : A → Prop} {I : W → P → Prop} {B : W → A → P → Prop}
    (hawait : ∀ w a p w' p', C a → I w p → step w a p = (w', .await p') → I w' p')
    (hbad : ∀ w a p w' p', step w a p = (w', .await p') → ¬B w a p)
    {as : List A} {w w' : W} {p : P} {r : R} (hC : ∀ a ∈ as, C a) (hI : I w p)
    (h : run step as w p = some (w', r)) :
    ∃ w₁ a p₁, C a ∧ I w₁ p₁ ∧ step w₁ a p₁ = (w', .done r) ∧
      ((∀ x ∈ steps step as w p, ¬B x.1 x.2.1 x.2.2) ↔ ¬B w₁ a p₁) := by
  induction as generalizing w p with
  | nil => cases h
  | cons a as ih =>
    have ha := hC a List.mem_cons_self
    rw [run] at h
    rw [steps]
    split at h
    · rename_i w₁ p₁ hs
      obtain ⟨w₂, b, p₂, hb, hI₂, hs₂, hiff⟩ :=
        ih (fun b hb => hC b (List.mem_cons_of_mem _ hb)) (hawait _ _ _ _ _ ha hI hs) h
      refine ⟨w₂, b, p₂, hb, hI₂, hs₂, ?_⟩
      rw [← hiff, List.forall_mem_cons]
      exact and_iff_right (hbad _ _ _ _ _ hs)
    · rename_i hs
      cases h
      refine ⟨w, a, p, ha, hI, hs, ?_⟩
      rw [List.forall_mem_cons]
      exact and_iff_left (by simp)

end

/-! ## Runs that there are -/

section

variable (step : W → A → P → W × Next P R)

/-- With some answers, the machine ends in a way that satisfies `Q`. -/
def CanEnd (w : W) (p : P) (Q : W → R → Prop) : Prop :=
  ∃ as w' r, run step as w p = some (w', r) ∧ Q w' r

variable {step} {Q : W → R → Prop} {w v : W} {p : P}

theorem CanEnd.await {q : P} (a : A) (hs : step w a p = (v, .await q))
    (h : CanEnd step v q Q) : CanEnd step w p Q := by
  obtain ⟨as, w₁, r, hr, hQ⟩ := h
  exact ⟨a :: as, w₁, r, (run_await hs).trans hr, hQ⟩

theorem CanEnd.done {r : R} (a : A) (hs : step w a p = (v, .done r)) (h : Q v r) :
    CanEnd step w p Q :=
  ⟨[a], v, r, run_done hs, h⟩

theorem CanEnd.mono {Q' : W → R → Prop} (h : CanEnd step w p Q) (hQ : ∀ v r, Q v r → Q' v r) :
    CanEnd step w p Q' := by
  obtain ⟨as, v, r, hr, hv⟩ := h
  exact ⟨as, v, r, hr, hQ v r hv⟩

variable (step Q) in
/-- After a step: from here, the machine can end so. -/
def Next.CanEnd (v : W) : Next P R → Prop
  | .await q => Lib.CanEnd step v q Q
  | .done r => Q v r

theorem CanEnd.next {n : Next P R} (a : A) (hs : step w a p = (v, n)) (h : n.CanEnd step Q v) :
    CanEnd step w p Q := by
  cases n with
  | await q => exact .await a hs h
  | done r => exact .done a hs h

end

/-! ## Interleaving -/

variable (step : W → A → P → W × Next P R)

/-- Machines over one world. A step of the machine `i`, answered `a`, is the action `(i, a)`. -/
def interleave (init : W → List (Next P R) → Prop) : Sys where
  St := W × List (Next P R)
  Act := ℕ × A
  init s := init s.1 s.2
  step s act s' := ∃ p, s.2[act.1]? = some (.await p) ∧
    s' = ((step s.1 act.2 p).1, s.2.set act.1 (step s.1 act.2 p).2)

variable {step}

/-- `C` holds of the step that the action makes. -/
def StepMeets (C : W → A → P → Prop) (s : W × List (Next P R)) (act : ℕ × A) : Prop :=
  ∀ p, s.2[act.1]? = some (.await p) → C s.1 act.2 p

/-- **Rule for interleavings.** `G` holds of the world, `T i w t` of the `i`th machine as it is now.
A step of a machine keeps `G`, gives `T` for what it does next, and keeps `T` for the others. -/
theorem interleave_indexed {init : W → List (Next P R) → Prop} {C : W → A → P → Prop}
    {G : W → Prop} {T : ℕ → W → Next P R → Prop}
    (hinit : ∀ w ts, init w ts → G w ∧ ∀ i t, ts[i]? = some t → T i w t)
    (hstep : ∀ i w a p w' n, G w → T i w (.await p) → C w a p → step w a p = (w', n) →
      G w' ∧ T i w' n ∧ ∀ j t, j ≠ i → T j w t → T j w' t) :
    ((interleave step init).restrict (StepMeets C)).Inductive fun s =>
      G s.1 ∧ ∀ i t, s.2[i]? = some t → T i s.1 t where
  init s h := hinit _ _ h
  step s act s' h := by
    rintro ⟨hC, p, hp, rfl⟩
    obtain ⟨hG, hT⟩ := h
    obtain ⟨hG', hown, hothers⟩ := hstep _ _ _ _ _ _ hG (hT _ _ hp) (hC p hp) rfl
    refine ⟨hG', fun j t hj => ?_⟩
    rw [List.getElem?_set] at hj
    by_cases e : act.1 = j
    · subst e
      rw [if_pos rfl] at hj
      split at hj
      · cases hj; exact hown
      · cases hj
    · rw [if_neg e] at hj
      exact hothers j t (Ne.symm e) (hT j t hj)

/-- No machine comes or goes. -/
theorem interleave_length {init : W → List (Next P R) → Prop} {C : W → A → P → Prop}
    {s s' : W × List (Next P R)} {as : List (ℕ × A)}
    (h : ((interleave step init).restrict (StepMeets C)).Run s as s') :
    s'.2.length = s.2.length := by
  refine h.keeps (I := fun v : W × List (Next P R) => v.2.length = s.2.length)
    (fun v act v' hv hst => ?_) rfl
  obtain ⟨-, p, -, rfl⟩ := hst
  rw [List.length_set]
  exact hv

/-- An interleaving is determined by the order of the steps and the answers. -/
theorem interleave_unique {init : W → List (Next P R) → Prop} {s s₁ s₂ : W × List (Next P R)}
    {as : List (ℕ × A)} (h₁ : (interleave step init).Run s as s₁)
    (h₂ : (interleave step init).Run s as s₂) : s₁ = s₂ := by
  refine h₁.unique (fun s act s₁ s₂ hs₁ hs₂ => ?_) h₂
  obtain ⟨p, hp, rfl⟩ := hs₁
  obtain ⟨q, hq, rfl⟩ := hs₂
  cases hp.symm.trans hq
  rfl

/-- A step of the machine `i`. -/
theorem interleave_own {init : W → List (Next P R) → Prop} {s s' : W × List (Next P R)} {i : ℕ} {a : A}
    {p : P} (h : (interleave step init).step s (i, a) s') (hp : s.2[i]? = some (.await p)) :
    s'.1 = (step s.1 a p).1 ∧ s'.2[i]? = some (step s.1 a p).2 := by
  obtain ⟨q, hq, rfl⟩ := h
  cases hp.symm.trans hq
  exact ⟨rfl, List.getElem?_set_self (List.getElem?_eq_some_iff.mp hp).1⟩

/-- A step of another one leaves it where it is. -/
theorem interleave_other {init : W → List (Next P R) → Prop} {s s' : W × List (Next P R)} {i : ℕ}
    {act : ℕ × A} (h : (interleave step init).step s act s') (hi : act.1 ≠ i) :
    s'.2[i]? = s.2[i]? := by
  obtain ⟨q, -, rfl⟩ := h
  exact List.getElem?_set_ne hi

/-- A machine that is done stays so. -/
theorem interleave_done {init : W → List (Next P R) → Prop} {C : W → A → P → Prop}
    {s s' : W × List (Next P R)} {as : List (ℕ × A)} {i : ℕ} {r : R}
    (h : ((interleave step init).restrict (StepMeets C)).Run s as s')
    (hr : s.2[i]? = some (.done r)) : s'.2[i]? = some (.done r) := by
  refine h.keeps (I := fun v : W × List (Next P R) => v.2[i]? = some (.done r))
    (fun v act v' hv hst => ?_) hr
  have hne : act.1 ≠ i := by
    rintro rfl
    obtain ⟨-, p, hp, -⟩ := hst
    cases hv.symm.trans hp
  exact (interleave_other hst.2 hne).trans hv

/-- The actions of the other machines. -/
def without (i : ℕ) (as : List (ℕ × A)) : List (ℕ × A) := as.filter fun act => act.1 ≠ i

theorem without_own {i : ℕ} {act : ℕ × A} (h : act.1 = i) (as : List (ℕ × A)) :
    without i (act :: as) = without i as :=
  List.filter_cons_of_neg (by simpa using h)

theorem without_other {i : ℕ} {act : ℕ × A} (h : act.1 ≠ i) (as : List (ℕ × A)) :
    without i (act :: as) = act :: without i as :=
  List.filter_cons_of_pos (by simpa using h)

/-- **Frame rule.** A machine whose phases in `Q` leave the world alone, and go on to such phases, can
be left out of a run in which it does not end: the others do the same without it. -/
theorem interleave_without {init : W → List (Next P R) → Prop} {C : W → A → P → Prop} {Q : P → Prop}
    (hQ : ∀ w a p w' p', Q p → C w a p → step w a p = (w', .await p') → w' = w ∧ Q p')
    {s s' : W × List (Next P R)} {as : List (ℕ × A)} {i : ℕ} {p p' : P}
    (h : ((interleave step init).restrict (StepMeets C)).Run s as s')
    (hp : s.2[i]? = some (.await p)) (hQp : Q p) (hp' : s'.2[i]? = some (.await p'))
    {ts : List (Next P R)} (hts : ∀ j, j ≠ i → ts[j]? = s.2[j]?) :
    Q p' ∧ ∃ ts', ((interleave step init).restrict (StepMeets C)).Run (s.1, ts)
        (without i as) (s'.1, ts') ∧
      ∀ j, j ≠ i → ts'[j]? = s'.2[j]? := by
  induction as generalizing s p ts with
  | nil =>
    obtain rfl := Sys.run_nil.mp h
    cases hp.symm.trans hp'
    exact ⟨hQp, ts, .nil (S := (interleave step init).restrict (StepMeets C)) _, hts⟩
  | cons act as ih =>
    obtain ⟨_, ⟨hC, q, hq, rfl⟩, hrun⟩ := Sys.run_cons.mp h
    have hlt := (List.getElem?_eq_some_iff.mp hq).1
    by_cases e : act.1 = i
    · -- a step of the machine itself: it does not end here, and leaves the world
      rw [without_own e]
      cases hq.symm.trans (e ▸ hp)
      cases hn : step s.1 act.2 p with
      | mk w' n =>
        rw [hn] at hrun
        have hown : (s.2.set act.1 n)[i]? = some n := by rw [e, List.getElem?_set_self (e ▸ hlt)]
        cases n with
        | done r => cases (interleave_done hrun hown).symm.trans hp'
        | await q' =>
          obtain ⟨rfl, hQq⟩ := hQ _ _ _ _ _ hQp (hC p hq) hn
          refine ih hrun hown hQq fun j hj => ?_
          rw [hts j hj, List.getElem?_set_ne (fun h => hj (h.symm.trans e))]
    · rw [without_other e]
      have hq' : ts[act.1]? = some (.await q) := (hts _ e).trans hq
      have hlt' := (List.getElem?_eq_some_iff.mp hq').1
      have hp₁ : (s.2.set act.1 (step s.1 act.2 q).2)[i]? = some (.await p) := by
        rw [List.getElem?_set_ne e]
        exact hp
      have hts₁ : ∀ j, j ≠ i → (ts.set act.1 (step s.1 act.2 q).2)[j]? =
          (s.2.set act.1 (step s.1 act.2 q).2)[j]? := by
        intro j hj
        by_cases hj' : act.1 = j
        · subst hj'
          rw [List.getElem?_set_self hlt', List.getElem?_set_self hlt]
        · rw [List.getElem?_set_ne hj', List.getElem?_set_ne hj']
          exact hts j hj
      obtain ⟨hQ', ts', hrun', hts'⟩ := ih hrun hp₁ hQp hts₁
      refine ⟨hQ', ts', .cons ⟨fun q'' hq'' => hC q'' ?_, q, hq', rfl⟩ hrun', hts'⟩
      exact hq.trans (hq'.symm.trans hq'')

/-- **Rule for simulations.** The same machines run over worlds of two types; related worlds stay
related and give a machine the same next call. -/
theorem interleave_simulated {W' : Type} {step' : W' → A → P → W' × Next P R}
    {init : W → List (Next P R) → Prop} {init' : W' → List (Next P R) → Prop}
    {T : W → W' → Prop} (hinit : ∀ w ts, init w ts → ∃ w', init' w' ts ∧ T w w')
    (hstep : ∀ w w' a p, T w w' →
      (step w a p).2 = (step' w' a p).2 ∧ T (step w a p).1 (step' w' a p).1)
    {s : W × List (Next P R)} (h : (interleave step init).Reach s) :
    ∃ w', (interleave step' init').Reach (w', s.2) ∧ T s.1 w' := by
  have hI : (interleave step init).Inductive fun s =>
      ∃ w', (interleave step' init').Reach (w', s.2) ∧ T s.1 w' := by
    refine ⟨fun s hi => ?_, ?_⟩
    · obtain ⟨w', hi', hT⟩ := hinit _ _ hi
      exact ⟨w', .init hi', hT⟩
    · rintro s act _ ⟨w', hr, hT⟩ ⟨p, hp, rfl⟩
      obtain ⟨hn, hT'⟩ := hstep _ _ act.2 p hT
      exact ⟨_, .step act hr ⟨p, hp, by rw [hn]⟩, hT'⟩
  exact hI.reach h

/-- The rule when all machines keep the same: `T w p` holds of a machine in the phase `p`. -/
theorem interleave_inductive {init : W → List (Next P R) → Prop} {C : W → A → P → Prop}
    {G : W → Prop} {T : W → P → Prop}
    (hinit : ∀ w ts, init w ts → G w ∧ ∀ p, .await p ∈ ts → T w p)
    (hstep : ∀ w a p w' n, G w → T w p → C w a p → step w a p = (w', n) →
      G w' ∧ (∀ p', n = .await p' → T w' p') ∧ ∀ q, T w q → T w' q) :
    ((interleave step init).restrict (StepMeets C)).Inductive fun s =>
      G s.1 ∧ ∀ p, .await p ∈ s.2 → T s.1 p := by
  have h : ((interleave step init).restrict (StepMeets C)).Inductive fun s =>
      G s.1 ∧ ∀ (i : ℕ) (t : Next P R), s.2[i]? = some t → ∀ p, t = .await p → T s.1 p := by
    refine interleave_indexed (T := fun _ w t => ∀ p, t = .await p → T w p) (fun w ts hi => ?_)
      fun i w a p w' n hG hT hC hs => ?_
    · exact ⟨(hinit w ts hi).1, fun i t ht p e => (hinit w ts hi).2 p
        (e ▸ List.mem_of_getElem? ht)⟩
    · obtain ⟨hG', hown, hothers⟩ := hstep w a p w' n hG (hT p rfl) hC hs
      exact ⟨hG', hown, fun j t _ ht q e => hothers q (ht q e)⟩
  refine ⟨fun s hs => hinit _ _ hs, fun s act s' hi hst => ?_⟩
  obtain ⟨hG, hT⟩ := h.step s act s' ⟨hi.1, fun i t ht p e => hi.2 p
    (e ▸ List.mem_of_getElem? ht)⟩ hst
  refine ⟨hG, fun p hp => ?_⟩
  obtain ⟨i, hi⟩ := List.mem_iff_getElem?.mp hp
  exact hT i _ hi p rfl

/-- An action of the interleaving, computed. -/
def exec (step : W → A → P → W × Next P R) (C : W → A → P → Prop)
    [∀ w a p, Decidable (C w a p)] (s : W × List (Next P R)) (act : ℕ × A) :
    Option (W × List (Next P R)) :=
  match s.2[act.1]? with
  | some (.await p) =>
    if C s.1 act.2 p then some ((step s.1 act.2 p).1, s.2.set act.1 (step s.1 act.2 p).2) else none
  | _ => none

theorem exec_step {init : W → List (Next P R) → Prop} {C : W → A → P → Prop}
    [∀ w a p, Decidable (C w a p)] {s s' : W × List (Next P R)} {act : ℕ × A}
    (h : exec step C s act = some s') :
    ((interleave step init).restrict (StepMeets C)).step s act s' := by
  unfold exec at h
  split at h
  · rename_i p hp
    split at h
    · rename_i hC
      cases h
      refine ⟨fun q hq => ?_, p, hp, rfl⟩
      cases hp.symm.trans hq
      exact hC
    · cases h
  · cases h

/-- How a sum over a list changes when one of its elements does. -/
theorem sum_replace {α M : Type} [AddCommMonoid M] {f : α → M} {l : List α} {i : ℕ} {x : α}
    (h : l[i]? = some x) (y : α) : ((l.set i y).map f).sum + f x = (l.map f).sum + f y := by
  induction l generalizing i with
  | nil => cases h
  | cons z l ih =>
    cases i with
    | zero =>
      cases h
      rw [List.set_cons_zero, List.map_cons, List.map_cons, List.sum_cons, List.sum_cons]
      abel
    | succ i =>
      have := ih (i := i) (by simpa using h)
      rw [List.set_cons_succ, List.map_cons, List.map_cons, List.sum_cons, List.sum_cons, add_assoc,
        this, add_assoc]

theorem sum_set_lt {α : Type} {f : α → ℕ} {l : List α} {i : ℕ} {x y : α} (h : l[i]? = some x)
    (hlt : f y < f x) : ((l.set i y).map f).sum < (l.map f).sum := by
  have := sum_replace (f := f) h y
  omega

/-- **Rule for counts.** Each machine holds a number of permits, `used` were used up, and `cap` is
how many there may be. A step that takes permits raises `cap` or gives others up. -/
theorem interleave_counted {init : W → List (Next P R) → Prop} {C : W → A → P → Prop}
    {I : W × List (Next P R) → Prop} (used cap : W → ℕ) (held : Next P R → ℕ)
    (hI : ((interleave step init).restrict (StepMeets C)).Inductive I)
    (hinit : ∀ w ts, init w ts → used w + (ts.map held).sum ≤ cap w)
    (hstep : ∀ s : W × List (Next P R), I s → ∀ (i : ℕ) (a : A) (p : P),
      s.2[i]? = some (.await p) → C s.1 a p →
      used (step s.1 a p).1 + held (step s.1 a p).2 + cap s.1 ≤
        cap (step s.1 a p).1 + used s.1 + held (.await p)) :
    ((interleave step init).restrict (StepMeets C)).Inductive fun s =>
      I s ∧ used s.1 + (s.2.map held).sum ≤ cap s.1 := by
  refine ⟨fun s hs => ⟨hI.init s hs, hinit _ _ hs⟩, fun s act s' hs hst => ?_⟩
  refine ⟨hI.step s act s' hs.1 hst, ?_⟩
  obtain ⟨hC, p, hp, rfl⟩ := hst
  have hle := hstep s hs.1 _ _ p hp (hC p hp)
  have hsum := sum_replace (f := held) hp (step s.1 act.2 p).2
  have hused := hs.2
  dsimp only
  omega

/-- **Rule for termination.** Where not every machine is done, one of them has a step that leaves
it less to do: all of them can be done. -/
theorem interleave_ends {init : W → List (Next P R) → Prop} {C : W → A → P → Prop}
    {I : W × List (Next P R) → Prop} (left : Next P R → ℕ)
    (hI : ((interleave step init).restrict (StepMeets C)).Inductive I)
    (hstep : ∀ s, I s → (∃ t ∈ s.2, t.isDone = false) →
      ∃ (i : ℕ) (a : A) (p : P), s.2[i]? = some (.await p) ∧ C s.1 a p ∧
        left (step s.1 a p).2 < left (.await p))
    {s : W × List (Next P R)} (hs : I s) :
    ∃ as s', ((interleave step init).restrict (StepMeets C)).Run s as s' ∧
      ∀ t ∈ s'.2, t.isDone := by
  obtain ⟨n, hn⟩ : ∃ n, (s.2.map left).sum = n := ⟨_, rfl⟩
  induction n using Nat.strongRecOn generalizing s with
  | ind n ih =>
    by_cases hd : ∃ t ∈ s.2, t.isDone = false
    · obtain ⟨i, a, p, hp, hC, hlt⟩ := hstep s hs hd
      have hst : ((interleave step init).restrict (StepMeets C)).step s (i, a)
          ((step s.1 a p).1, s.2.set i (step s.1 a p).2) := by
        refine ⟨fun q hq => ?_, p, hp, rfl⟩
        cases hp.symm.trans hq
        exact hC
      have hless := hn ▸ sum_set_lt hp hlt
      obtain ⟨as, s', hrun, hdone⟩ := ih _ hless (hI.step _ _ _ hs hst) rfl
      exact ⟨(i, a) :: as, s', .cons hst hrun, hdone⟩
    · refine ⟨[], s, .nil (S := (interleave step init).restrict (StepMeets C)) s, fun t ht => ?_⟩
      by_contra h
      exact hd ⟨t, ht, by simpa using h⟩

/-! ## Records -/

/-- The machine with a record of what happened: a step adds what `f` says. -/
def recorded {H : Type} (step : W → A → P → W × Next P R) (f : P → Next P R → List H)
    (w : W × List H) (a : A) (p : P) : (W × List H) × Next P R :=
  (((step w.1 a p).1, w.2 ++ f p (step w.1 a p).2), (step w.1 a p).2)

theorem recorded_eq {H : Type} {f : P → Next P R → List H} {w w' : W × List H} {a : A} {p : P}
    {n : Next P R} (h : recorded step f w a p = (w', n)) :
    step w.1 a p = (w'.1, n) ∧ w'.2 = w.2 ++ f p n := by
  cases h
  exact ⟨rfl, rfl⟩

end Lib
