import CryptoExchange.Lib.Machine

/-!
# Loops that try again

A loop makes one attempt after another for as long as a flag is set, and sleeps in between: longer
and longer up to a limit, and as long as at first after an attempt that returned.

* `Retry`: what is tried; `Retry.step`: the machine of the loop, with the attempt's machine in it.
* `Retry.Steps`, `Retry.step_cases`: what a step of the loop does.
* `Retry.retrying`: the loop next to anything else that changes the world. Its history has a `Lap`
  for each attempt.
* `Retry.slept_eq`: how long it sleeps after each attempt. It sleeps after every one but the last.
* `Retry.goes_on`: it does not end while nobody stops it.
-/

namespace Lib

variable {W A P : Type}

/-- An attempt, and what stands around it. -/
structure Retry (W A P : Type) where
  /-- The first delay. -/
  base : ℕ
  /-- The longest delay. -/
  cap : ℕ
  base_le : base ≤ cap
  running : W → Bool
  start : P
  /-- A step of the attempt, which ends with whether it returned. -/
  attempt : W → A → P → W × Next P Bool
  /-- What follows every attempt. -/
  settle : W → W
  /-- A call that follows every sleep. -/
  refresh : Option (W → A → W)

inductive RetryPhase (P : Type) where
  | attempt (delay : ℕ) (p : P)
  | sleep (delay : ℕ)
  | refresh (delay : ℕ)

namespace Retry

variable (r : Retry W A P)

/-- The head of the loop. -/
def again (w : W) (delay : ℕ) : W × Next (RetryPhase P) Unit :=
  if r.running w then (w, .await (.attempt delay r.start)) else (w, .done ())

/-- After an attempt. -/
def settled (w : W) (delay : ℕ) : W × Next (RetryPhase P) Unit :=
  if r.running w then (w, .await (.sleep delay)) else (w, .done ())

def step (w : W) (a : A) : RetryPhase P → W × Next (RetryPhase P) Unit
  | .attempt delay p =>
    match r.attempt w a p with
    | (w, .await p) => (w, .await (.attempt delay p))
    | (w, .done returned) => r.settled (r.settle w) (if returned then r.base else delay)
  | .sleep delay =>
    if r.refresh.isSome then (w, .await (.refresh (min (delay * 2) r.cap)))
    else r.again w (min (delay * 2) r.cap)
  | .refresh delay =>
    match r.refresh with
    | some f => r.again (f w a) delay
    | none => r.again w delay

/-- The steps of the loop. -/
inductive Steps (w : W) (a : A) : RetryPhase P → W → Next (RetryPhase P) Unit → Prop
  | tried {delay : ℕ} {p p' : P} {w' : W} (step_eq : r.attempt w a p = (w', .await p')) :
    Steps w a (.attempt delay p) w' (.await (.attempt delay p'))
  | sleeps {delay : ℕ} {p : P} {w' : W} {returned : Bool}
    (step_eq : r.attempt w a p = (w', .done returned)) :
    Steps w a (.attempt delay p) (r.settle w')
      (.await (.sleep (if returned then r.base else delay)))
  | stopped {delay : ℕ} {p : P} {w' : W} {returned : Bool}
    (step_eq : r.attempt w a p = (w', .done returned))
    (running_eq : r.running (r.settle w') = false) :
    Steps w a (.attempt delay p) (r.settle w') (.done ())
  | woken {delay : ℕ} : Steps w a (.sleep delay) w (.await (.refresh (min (delay * 2) r.cap)))
  | again {delay : ℕ} :
    Steps w a (.sleep delay) w (.await (.attempt (min (delay * 2) r.cap) r.start))
  | ended {delay : ℕ} (running_eq : r.running w = false) : Steps w a (.sleep delay) w (.done ())
  | refreshed {delay : ℕ} {w' : W} (refresh_eq : w' = w ∨ ∃ f ∈ r.refresh, w' = f w a) :
    Steps w a (.refresh delay) w' (.await (.attempt delay r.start))
  | refreshedEnded {delay : ℕ} {w' : W} (refresh_eq : w' = w ∨ ∃ f ∈ r.refresh, w' = f w a)
    (running_eq : r.running w' = false) : Steps w a (.refresh delay) w' (.done ())

variable {r} {w w' : W} {a : A} {n : Next (RetryPhase P) Unit}

theorem again_cases (w : W) (delay : ℕ) :
    r.again w delay = (w, .await (.attempt delay r.start)) ∨
      r.again w delay = (w, .done ()) ∧ r.running w = false := by
  unfold Retry.again
  split
  · exact .inl rfl
  · rename_i h
    exact .inr ⟨rfl, Bool.not_eq_true _ ▸ h⟩

theorem settled_cases (w : W) (delay : ℕ) :
    r.settled w delay = (w, .await (.sleep delay)) ∨
      r.settled w delay = (w, .done ()) ∧ r.running w = false := by
  unfold Retry.settled
  split
  · exact .inl rfl
  · rename_i h
    exact .inr ⟨rfl, Bool.not_eq_true _ ▸ h⟩

theorem step_cases {p : RetryPhase P} (h : r.step w a p = (w', n)) : r.Steps w a p w' n := by
  cases p with
  | attempt delay p =>
    simp only [Retry.step] at h
    split at h
    · rename_i hs
      cases h
      exact .tried hs
    · rename_i w₁ returned hs
      have hsettled := settled_cases (r := r) (r.settle w₁) (if returned then r.base else delay)
      rcases hsettled with e | ⟨e, hr⟩
      · rw [e] at h
        cases h
        exact .sleeps hs
      · rw [e] at h
        cases h
        exact .stopped hs hr
  | sleep delay =>
    simp only [Retry.step] at h
    split at h
    · cases h
      exact .woken
    · rcases again_cases (r := r) w (min (delay * 2) r.cap) with e | ⟨e, hr⟩
      · rw [e] at h
        cases h
        exact .again
      · rw [e] at h
        cases h
        exact .ended hr
  | refresh delay =>
    have next : ∀ {v : W}, (v = w ∨ ∃ f ∈ r.refresh, v = f w a) → r.again v delay = (w', n) →
        r.Steps w a (.refresh delay) w' n := by
      intro v hv e
      rcases again_cases (r := r) v delay with e' | ⟨e', hr⟩
      · rw [e'] at e
        cases e
        exact .refreshed hv
      · rw [e'] at e
        cases e
        exact .refreshedEnded hv hr
    simp only [Retry.step] at h
    split at h
    · rename_i f hf
      exact next (.inr ⟨f, hf, rfl⟩) h
    · exact next (.inl rfl) h

/-! ## Laps -/

/-- An attempt that has ended, and the sleep that followed. -/
structure Lap where
  returned : Bool
  slept : Option ℕ

/-- The number of attempts in a row, from the last one that returned. -/
def row (laps : List Lap) : ℕ := laps.foldl (fun n lap => if lap.returned then 1 else n + 1) 0

theorem row_concat (laps : List Lap) (lap : Lap) :
    row (laps ++ [lap]) = if lap.returned then 1 else row laps + 1 := by
  rw [row, List.foldl_append]
  rfl

inductive RetryAction (W A : Type) where
  /-- The loop makes a step. -/
  | own (a : A)
  /-- Something else has changed the world. -/
  | other (w : W)

variable (r)

/-- The sleep that a loop is in. -/
def sleepOf : Next (RetryPhase P) Unit → Option ℕ
  | .await (.sleep delay) => some delay
  | _ => none

/-- The end of an attempt makes a lap. -/
def lapsOf (s : W × Next (RetryPhase P) Unit) (act : RetryAction W A)
    (s' : W × Next (RetryPhase P) Unit) (laps : List Lap) : List Lap :=
  match act, s.2 with
  | .own a, .await (.attempt _ p) =>
    match (r.attempt s.1 a p).2 with
    | .done returned => laps ++ [⟨returned, sleepOf s'.2⟩]
    | .await _ => laps
  | _, _ => laps

/-- The loop, next to anything else, with its laps. -/
def retrying : Sys :=
  let loop : Sys :=
    { St := W × Next (RetryPhase P) Unit
      Act := RetryAction W A
      init s := ∃ w, s = r.again w r.base
      step s act s' := match act with
        | .own a => ∃ p, s.2 = .await p ∧ s' = r.step s.1 a p
        | .other w => s' = (w, s.2) }
  loop.withHistory [] r.lapsOf

/-- The delay before the next attempt. -/
def delayAfter (laps : List Lap) : ℕ := min (r.base * 2 ^ row laps) r.cap

theorem delayAfter_returned (laps : List Lap) (slept : Option ℕ) :
    r.delayAfter (laps ++ [⟨true, slept⟩]) = min (r.base * 2) r.cap := by
  rw [delayAfter, row_concat]
  simp

theorem delayAfter_raised (laps : List Lap) (slept : Option ℕ) :
    r.delayAfter (laps ++ [⟨false, slept⟩]) = min (r.delayAfter laps * 2) r.cap := by
  rw [delayAfter, row_concat, delayAfter]
  simp only [Bool.false_eq_true, if_false, pow_succ, ← mul_assoc]
  omega

/-- The delay that the loop has come to. -/
def Paced (laps : List Lap) : Next (RetryPhase P) Unit → Prop
  | .await (.attempt delay _) | .await (.refresh delay) => delay = r.delayAfter laps
  | .await (.sleep delay) => min (delay * 2) r.cap = r.delayAfter laps
  | .done _ => True

/-- How long the loop slept after each attempt: it is last that it does not sleep. -/
structure Slept (laps : List Lap) (n : Next (RetryPhase P) Unit) : Prop where
  slept : ∀ i lap, laps[i]? = some lap → ∀ delay ∈ lap.slept,
    delay = min (r.base * 2 ^ (row (laps.take (i + 1)) - 1)) r.cap
  last : ∀ i lap, laps[i]? = some lap → lap.slept = none → i + 1 = laps.length ∧ n = .done ()

variable {r} {laps : List Lap}

theorem getElem?_concat_some {α : Type} {l : List α} {x y : α} {i : ℕ}
    (h : (l ++ [x])[i]? = some y) : l[i]? = some y ∨ i = l.length ∧ y = x := by
  rcases Nat.lt_or_ge i l.length with hlt | hge
  · exact .inl (by rwa [List.getElem?_append_left hlt] at h)
  · rw [List.getElem?_append_right hge, List.getElem?_singleton] at h
    split at h
    · cases h
      exact .inr ⟨by omega, rfl⟩
    · cases h

/-- An attempt ends, and with it a lap. -/
theorem Slept.concat {n n' : Next (RetryPhase P) Unit} {lap : Lap} (h : r.Slept laps n)
    (hn : n ≠ .done ())
    (hslept : ∀ delay ∈ lap.slept, delay = min (r.base * 2 ^ (row (laps ++ [lap]) - 1)) r.cap)
    (hlast : lap.slept = none → n' = .done ()) : r.Slept (laps ++ [lap]) n' where
  slept i x hx delay hd := by
    rcases getElem?_concat_some hx with hold | ⟨rfl, rfl⟩
    · have hlt := (List.getElem?_eq_some_iff.mp hold).1
      rw [List.take_append_of_le_length hlt]
      exact h.slept i x hold delay hd
    · rw [List.take_of_length_le (by simp)]
      exact hslept delay hd
  last i x hx hnone := by
    rcases getElem?_concat_some hx with hold | ⟨rfl, rfl⟩
    · exact absurd (h.last i x hold hnone).2 hn
    · exact ⟨by simp, hlast hnone⟩

/-- While no attempt ends, only the phase changes. -/
theorem Slept.phase {n n' : Next (RetryPhase P) Unit} (h : r.Slept laps n) (hn : n ≠ .done ()) :
    r.Slept laps n' where
  slept := h.slept
  last i x hx hnone := absurd (h.last i x hx hnone).2 hn

/-- The delay of the sleep after an attempt, and the next one. -/
theorem delay_after {delay : ℕ} (h : delay = r.delayAfter laps) (returned : Bool)
    (slept : Option ℕ) :
    (if returned then r.base else delay) =
        min (r.base * 2 ^ (row (laps ++ [⟨returned, slept⟩]) - 1)) r.cap ∧
      min ((if returned then r.base else delay) * 2) r.cap =
        r.delayAfter (laps ++ [⟨returned, slept⟩]) := by
  cases returned with
  | true =>
    refine ⟨?_, (r.delayAfter_returned laps slept).symm⟩
    rw [row_concat]
    simp [r.base_le]
  | false =>
    refine ⟨?_, ?_⟩
    · rw [row_concat]
      exact h
    · rw [delayAfter_raised, ← h]
      rfl

/-- **Rule for the delays.** After each attempt but the last the loop sleeps, and for as long as the
attempts in a row say. -/
theorem slept_eq : r.retrying.Inductive fun s => r.Paced s.2 s.1.2 ∧ r.Slept s.2 s.1.2 := by
  refine ⟨?_, ?_⟩
  · rintro ⟨⟨w, n⟩, laps⟩ ⟨⟨w₁, hs⟩, hlaps⟩
    dsimp only at hs hlaps ⊢
    subst hlaps
    refine ⟨?_, fun i x hx => by simp at hx, fun i x hx => by simp at hx⟩
    rcases again_cases (r := r) w₁ r.base with e | ⟨e, -⟩
    · rw [e] at hs
      cases hs
      simp [Paced, delayAfter, row, r.base_le]
    · rw [e] at hs
      cases hs
      trivial
  · rintro ⟨⟨w, n⟩, laps⟩ act ⟨⟨w', n'⟩, laps'⟩ ⟨hp, hslept⟩ ⟨hst, hlaps⟩
    dsimp only at hp hslept hst hlaps ⊢
    cases act with
    | other v =>
      cases hst
      subst hlaps
      exact ⟨hp, hslept⟩
    | own a =>
      obtain ⟨p, rfl, hs⟩ := hst
      have hne : (.await p : Next (RetryPhase P) Unit) ≠ .done () := by simp
      cases step_cases hs.symm with
      | tried step_eq =>
        simp only [lapsOf, step_eq] at hlaps
        subst hlaps
        exact ⟨hp, hslept.phase hne⟩
      | @sleeps delay q w₁ returned step_eq =>
        simp only [lapsOf, step_eq, sleepOf] at hlaps
        subst hlaps
        obtain ⟨hd, hnext⟩ := delay_after hp returned (some (if returned then r.base else delay))
        refine ⟨hnext, hslept.concat hne (fun d hmem => ?_) fun e => by cases e⟩
        cases hmem
        exact hd
      | stopped step_eq =>
        simp only [lapsOf, step_eq, sleepOf] at hlaps
        subst hlaps
        exact ⟨trivial, hslept.concat hne (fun d hmem => by cases hmem) fun _ => rfl⟩
      | woken | again =>
        subst hlaps
        exact ⟨hp, hslept.phase hne⟩
      | refreshed =>
        subst hlaps
        exact ⟨hp, hslept.phase hne⟩
      | ended | refreshedEnded =>
        subst hlaps
        exact ⟨trivial, hslept.phase hne⟩

/-! ## Loops that nobody stops -/

/-- Nothing that an attempt does clears the flag. -/
structure KeepsRunning (r : Retry W A P) : Prop where
  attempt : ∀ w a p, r.running w = true → r.running (r.attempt w a p).1 = true
  settle : ∀ w, r.running w = true → r.running (r.settle w) = true
  refresh : ∀ f ∈ r.refresh, ∀ w a, r.running w = true → r.running (f w a) = true

/-- Nothing else clears the flag in the action. -/
def Undisturbed (r : Retry W A P) (_ : (W × Next (RetryPhase P) Unit) × List Lap) :
    RetryAction W A → Prop
  | .own _ => True
  | .other w => r.running w = true

/-- A step of a loop that nobody stops. -/
theorem Steps.goes_on {p : RetryPhase P} (hk : r.KeepsRunning) (hr : r.running w = true)
    (h : r.Steps w a p w' n) : r.running w' = true ∧ n.isDone = false := by
  have tried : ∀ {q : P} {m : Next P Bool} {v : W}, r.attempt w a q = (v, m) →
      r.running v = true := fun {q} _ _ e => by
    have hv := hk.attempt w a q hr
    rwa [e] at hv
  cases h with
  | tried step_eq => exact ⟨tried step_eq, rfl⟩
  | sleeps step_eq => exact ⟨hk.settle _ (tried step_eq), rfl⟩
  | stopped step_eq running_eq =>
    rw [hk.settle _ (tried step_eq)] at running_eq
    cases running_eq
  | woken | again => exact ⟨hr, rfl⟩
  | ended running_eq =>
    rw [hr] at running_eq
    cases running_eq
  | refreshed refresh_eq =>
    rcases refresh_eq with rfl | ⟨f, hf, rfl⟩
    · exact ⟨hr, rfl⟩
    · exact ⟨hk.refresh f hf w a hr, rfl⟩
  | refreshedEnded refresh_eq running_eq =>
    have : r.running w' = true := by
      rcases refresh_eq with rfl | ⟨f, hf, rfl⟩
      · exact hr
      · exact hk.refresh f hf w a hr
    rw [this] at running_eq
    cases running_eq

/-- **Rule for the end.** A loop that nobody stops does not end. -/
theorem goes_on (hk : r.KeepsRunning) {s s' : (W × Next (RetryPhase P) Unit) × List Lap}
    {as : List (RetryAction W A)} (h : (r.retrying.restrict r.Undisturbed).Run s as s')
    (hr : r.running s.1.1 = true) (hn : s.1.2.isDone = false) :
    r.running s'.1.1 = true ∧ s'.1.2.isDone = false := by
  refine h.keeps (I := fun v : (W × Next (RetryPhase P) Unit) × List Lap =>
    r.running v.1.1 = true ∧ v.1.2.isDone = false) (fun v act v' hv hst => ?_) ⟨hr, hn⟩
  obtain ⟨hu, hst, -⟩ := hst
  cases act with
  | other w =>
    have hs : v'.1 = (w, v.1.2) := hst
    rw [hs]
    exact ⟨hu, hv.2⟩
  | own a =>
    obtain ⟨p, -, hs⟩ := hst
    exact (step_cases hs.symm).goes_on hk hv.1

end Retry

end Lib
