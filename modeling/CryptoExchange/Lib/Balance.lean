import CryptoExchange.Lib.Machine

/-!
# Balances over interleavings

What goes into a shared world is there, or still held by a machine. The amounts are of any
cancellative commutative monoid: numbers, or multisets of what was moved.

`interleave_balanced` is the rule for interleaved machines. It asks of one step only that it moves
what it takes.
-/

namespace Lib

variable {W A P R M : Type} [AddCancelCommMonoid M]

variable {step : W → A → P → W × Next P R}

/-- **Rule for balances.** `paid` went into the world, `kept` is what is there, and each machine holds
some of it. A step keeps the balance of the world and of the machine that makes it. -/
theorem interleave_balanced {init : W → List (Next P R) → Prop} {C : W → A → P → Prop}
    {I : W × List (Next P R) → Prop} (paid kept : W → M) (held : Next P R → M)
    (hI : ((interleave step init).restrict (StepMeets C)).Inductive I)
    (hinit : ∀ w ts, init w ts → paid w = kept w + (ts.map held).sum)
    (hstep : ∀ s : W × List (Next P R), I s → ∀ (i : ℕ) (a : A) (p : P),
      s.2[i]? = some (.await p) → C s.1 a p →
      paid (step s.1 a p).1 + kept s.1 + held (.await p) =
        paid s.1 + kept (step s.1 a p).1 + held (step s.1 a p).2) :
    ((interleave step init).restrict (StepMeets C)).Inductive fun s =>
      I s ∧ paid s.1 = kept s.1 + (s.2.map held).sum := by
  refine ⟨fun s hs => ⟨hI.init s hs, hinit _ _ hs⟩, fun s act s' hs hst => ?_⟩
  refine ⟨hI.step s act s' hs.1 hst, ?_⟩
  obtain ⟨hC, p, hp, rfl⟩ := hst
  have hmoved := hstep s hs.1 _ _ p hp (hC p hp)
  have hsum := sum_replace (f := held) hp (step s.1 act.2 p).2
  -- both sides of the balance, with what was there before added to them
  refine add_right_cancel (b := kept s.1 + held (.await p) + (s.2.map held).sum) ?_
  calc paid (step s.1 act.2 p).1 + (kept s.1 + held (.await p) + (s.2.map held).sum)
      = (paid (step s.1 act.2 p).1 + kept s.1 + held (.await p)) + (s.2.map held).sum := by abel
    _ = paid s.1 + kept (step s.1 act.2 p).1 + held (step s.1 act.2 p).2 + (s.2.map held).sum := by
        rw [hmoved]
    _ = paid s.1 + kept (step s.1 act.2 p).1 +
          ((s.2.map held).sum + held (step s.1 act.2 p).2) := by abel
    _ = (kept s.1 + (s.2.map held).sum) + kept (step s.1 act.2 p).1 +
          (((s.2.set act.1 (step s.1 act.2 p).2).map held).sum + held (.await p)) := by
        rw [hs.2, hsum]
    _ = _ := by abel

end Lib
