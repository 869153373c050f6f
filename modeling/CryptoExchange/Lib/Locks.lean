import CryptoExchange.Lib.Machine

/-!
# Machines that wait for each other

Machines over one world that hold resources from one call to the next. A call can take resources
(a row to change, a mutex): while another machine holds one of them the call waits, and it is
answered when that machine has moved on, or fails before (a timeout, a deadlock that was found).

* `Locking`: what a machine holds in a phase, and what the awaited call takes.
* `locked`: the interleaving in which calls wait. Its runs are runs of `interleave`, so the rules
  for that hold of them (`Sys.Inductive.restrict_inner`).
* `Locking.exclusive`: no two machines hold the same.
* `locked_inductive`: the rule for invariants. What a machine relies on, only steps of machines
  that hold nothing of its own must keep.
* `lockedExec`: a step, computed.
-/

namespace Lib

variable {W A P R K : Type}

structure Locking (A P K : Type) where
  holds : P → List K
  takes : P → List K
  /-- The call fails with this answer, and takes nothing. -/
  fails : A → Bool

namespace Locking

variable (l : Locking A P K)

/-- What a machine holds as it is now. -/
def heldBy : Option (Next P R) → List K
  | some (.await p) => l.holds p
  | _ => []

/-- The call of machine `i` that `a` answers has not to wait: it takes nothing that another machine
holds. -/
def Free (s : W × List (Next P R)) (act : ℕ × A) : Prop :=
  l.fails act.2 = false → ∀ p, s.2[act.1]? = some (.await p) → ∀ k ∈ l.takes p,
    ∀ j < s.2.length, j ≠ act.1 → k ∉ l.heldBy s.2[j]?

/-- What a machine holds after a step, it has held or taken. -/
def Fits (step : W → A → P → W × Next P R) : Prop :=
  ∀ w a p w' p', step w a p = (w', .await p') → ∀ k ∈ l.holds p',
    k ∈ l.holds p ∨ l.fails a = false ∧ k ∈ l.takes p

/-- No two machines hold the same. -/
def Exclusive (ts : List (Next P R)) : Prop :=
  ∀ i j : ℕ, i ≠ j → ∀ k ∈ l.heldBy ts[i]?, k ∉ l.heldBy ts[j]?

end Locking

/-- The machines over one world, waiting for each other. -/
abbrev locked (l : Locking A P K) (step : W → A → P → W × Next P R)
    (init : W → List (Next P R) → Prop) : Sys := (interleave step init).restrict l.Free

variable {l : Locking A P K} {step : W → A → P → W × Next P R} {init : W → List (Next P R) → Prop}

/-- Where nothing is held at first, no two machines hold the same. -/
theorem Locking.exclusive (hl : l.Fits step)
    (hinit : ∀ w ts, init w ts → ∀ p, .await p ∈ ts → l.holds p = []) :
    (locked l step init).Inductive fun s => l.Exclusive s.2 where
  init s hs i j _ k hk := by
    cases hi : s.2[i]? with
    | none =>
      rw [hi] at hk
      cases hk
    | some n =>
      rw [hi] at hk
      cases n with
      | await p =>
        rw [heldBy, hinit _ _ hs p (List.mem_of_getElem? hi)] at hk
        cases hk
      | done r => cases hk
  step s act s' hs := by
    rintro ⟨hfree, p, hp, rfl⟩
    have hlt : act.1 < s.2.length := (List.getElem?_eq_some_iff.mp hp).1
    -- what the machine holds after its step, no other one held before
    have hown : ∀ j, j ≠ act.1 → ∀ k ∈ l.heldBy (some (step s.1 act.2 p).2),
        k ∉ l.heldBy s.2[j]? := by
      intro j hj k hk
      cases hn : (step s.1 act.2 p).2 with
      | done r =>
        rw [hn] at hk
        cases hk
      | await p' =>
        rw [hn] at hk
        rcases hl _ _ _ _ p' (Prod.ext rfl hn) k hk with hheld | ⟨hfails, htaken⟩
        · exact hs act.1 j (Ne.symm hj) k (by rwa [hp])
        · intro hkj
          by_cases hjlt : j < s.2.length
          · exact hfree hfails p hp k htaken j hjlt hj hkj
          · rw [List.getElem?_eq_none (by omega)] at hkj
            cases hkj
    intro i j hij k hk
    dsimp only at hk ⊢
    by_cases hi : act.1 = i
    · subst hi
      rw [List.getElem?_set_self hlt] at hk
      rw [List.getElem?_set_ne hij]
      exact hown j (Ne.symm hij) k hk
    · rw [List.getElem?_set_ne hi] at hk
      by_cases hj : act.1 = j
      · subst hj
        rw [List.getElem?_set_self hlt]
        exact fun hkj => hown i hij k hkj hk
      · rw [List.getElem?_set_ne hj]
        exact hs i j hij k hk

/-- **Rule for machines that wait.** `G` holds of the world, `T w p` of a machine in the phase `p`.
A step keeps `G`, gives `T` for what the machine does next, and keeps `T` for each machine that
holds nothing of its own. -/
theorem locked_inductive {C : W → A → P → Prop} {G : W → Prop} {T : W → P → Prop}
    (hl : l.Fits step)
    (hinit : ∀ w ts, init w ts → G w ∧ ∀ p, .await p ∈ ts → l.holds p = [] ∧ T w p)
    (hstep : ∀ w a p w' n, G w → T w p → C w a p → step w a p = (w', n) →
      G w' ∧ (∀ p', n = .await p' → T w' p') ∧
        ∀ q, (∀ k ∈ l.holds p, k ∉ l.holds q) → T w q → T w' q) :
    ((locked l step init).restrict (StepMeets C)).Inductive fun s =>
      (G s.1 ∧ ∀ p, .await p ∈ s.2 → T s.1 p) ∧ l.Exclusive s.2 := by
  have hex := Locking.exclusive hl fun w ts hi p hp => ((hinit w ts hi).2 p hp).1
  refine ⟨fun s hi => ⟨⟨(hinit _ _ hi).1, fun p hp => ((hinit _ _ hi).2 p hp).2⟩, hex.init s hi⟩, ?_⟩
  rintro s act s' ⟨⟨hG, hT⟩, hs⟩ ⟨hC, hst⟩
  refine ⟨?_, hex.step s act s' hs hst⟩
  obtain ⟨-, p, hp, rfl⟩ := hst
  obtain ⟨hG', hown, hothers⟩ := hstep _ _ _ _ _ hG (hT p (List.mem_of_getElem? hp)) (hC p hp) rfl
  refine ⟨hG', fun q hq => ?_⟩
  obtain ⟨j, hj⟩ := List.mem_iff_getElem?.mp hq
  rw [List.getElem?_set] at hj
  by_cases e : act.1 = j
  · subst e
    rw [if_pos rfl] at hj
    split at hj
    · exact hown q (Option.some.inj hj)
    · cases hj
  · rw [if_neg e] at hj
    refine hothers q (fun k hk hkq => ?_) (hT q (List.mem_of_getElem? hj))
    exact hs act.1 j e k (by rwa [hp]) (by rwa [hj])

/-- An action of machines that wait, computed. -/
def lockedExec [DecidableEq K] (l : Locking A P K) (step : W → A → P → W × Next P R)
    (C : W → A → P → Prop) [∀ w a p, Decidable (C w a p)] (s : W × List (Next P R))
    (act : ℕ × A) : Option (W × List (Next P R)) :=
  match s.2[act.1]? with
  | some (.await p) =>
    if l.fails act.2 = false → ∀ k ∈ l.takes p, ∀ j < s.2.length, j ≠ act.1 →
        k ∉ l.heldBy s.2[j]? then
      exec step C s act
    else none
  | _ => none

theorem lockedExec_step [DecidableEq K] {C : W → A → P → Prop} [∀ w a p, Decidable (C w a p)]
    {s s' : W × List (Next P R)} {act : ℕ × A} (h : lockedExec l step C s act = some s') :
    ((locked l step init).restrict (StepMeets C)).step s act s' := by
  unfold lockedExec at h
  split at h
  · rename_i p hp
    split at h
    · rename_i hfree
      have hexec : ((interleave step init).restrict (StepMeets C)).step s act s' := exec_step h
      obtain ⟨hC, hst⟩ := hexec
      refine ⟨hC, fun hf q hq => ?_, hst⟩
      obtain rfl : p = q := by cases hp.symm.trans hq; rfl
      exact hfree hf
    · cases h
  · cases h

end Lib
