import CryptoExchange.Ledger.Margin
import CryptoExchange.Lib.Sys
import Mathlib.Data.Finset.Card

/-!
# Sequences of liquidations

The exchange reports a liquidation more than once, and through two types of events. The calls of
`_apply_liquidation`, one after another, leave the tables as a function of the set of the symbols
they mention: `Db.endIn` ends the live positions in a set of symbols at once.

* `ApplyLiquidation.counts`: the increments of the liquidation counter, as a history variable.
* `liquidation_step`: one call is `endIn` of one symbol, and counts if it ends a position.
* `endIn_endIn`: two sets one after the other are their union. A margin is never negative, so the
  cuts at 0 on the way make no difference.
* `liquidations_converge`: any two sequences that mention the same symbols.
-/

namespace CryptoExchange

open Lib Db

variable {cfg : Config} {c : Column} {db : Db}

/-! ## Sets of symbols -/

/-- The live positions in the symbols. -/
def Db.liveIn (db : Db) (symbols : List String) : List Position :=
  db.positions.filter fun p => p.symbol ∈ symbols ∧ p.liquidated = false

/-- The live positions in the symbols end, and each account is rid of their margins. -/
def Db.endIn (db : Db) (symbols : List String) : Db :=
  { db with
    accounts := db.accounts.map fun a =>
      if ∃ p ∈ db.liveIn symbols, p.accountId = a.id then
        { a with
          marginUsed := max (a.marginUsed - ApplyLiquidation.marginIn (db.liveIn symbols) a.id) 0 }
      else a
    positions := db.positions.map fun p =>
      if p.symbol ∈ symbols ∧ p.liquidated = false then { p with liquidated := true } else p }

theorem mem_liveIn {symbols : List String} {p : Position} :
    p ∈ db.liveIn symbols ↔ p ∈ db.positions ∧ p.symbol ∈ symbols ∧ p.liquidated = false := by
  simp [Db.liveIn]

theorem liveIn_singleton (db : Db) (symbol : String) :
    db.liveIn [symbol] = db.livePositionsIn symbol := by
  simp [Db.liveIn, livePositionsIn]

theorem liveIn_congr {symbols symbols' : List String} (h : ∀ x, x ∈ symbols ↔ x ∈ symbols') :
    db.liveIn symbols = db.liveIn symbols' := by
  simp only [Db.liveIn, h]

theorem endIn_congr {symbols symbols' : List String} (h : ∀ x, x ∈ symbols ↔ x ∈ symbols') :
    db.endIn symbols = db.endIn symbols' := by
  simp only [Db.endIn, liveIn_congr h, h]

/-- Nothing is live in the symbols. -/
theorem endIn_of_nil {symbols : List String} (h : db.liveIn symbols = []) :
    db.endIn symbols = db := by
  have hp : ∀ p ∈ db.positions, ¬(p.symbol ∈ symbols ∧ p.liquidated = false) := fun p hp hl => by
    have hm := mem_liveIn.mpr ⟨hp, hl⟩
    rw [h] at hm
    cases hm
  have accounts : (db.endIn symbols).accounts = db.accounts := by
    simp [Db.endIn, h]
  have positions : (db.endIn symbols).positions = db.positions := by
    show db.positions.map _ = _
    conv => rhs; rw [← List.map_id db.positions]
    exact List.map_congr_left fun p hm => if_neg (hp p hm)
  calc db.endIn symbols = { db with
        accounts := (db.endIn symbols).accounts, positions := (db.endIn symbols).positions } := rfl
    _ = db := by rw [accounts, positions]

namespace ApplyLiquidation

theorem marginIn_of_ne {ps : List Position} {id : ℕ} (h : ∀ p ∈ ps, p.accountId ≠ id) :
    marginIn ps id = 0 := by
  refine List.sum_eq_zero fun x hx => ?_
  obtain ⟨p, hp, rfl⟩ := List.mem_map.mp hx
  exact if_neg (h p hp)

end ApplyLiquidation

open ApplyLiquidation (marginIn marginIn_nonneg marginIn_of_ne releaseAll releaseAll_clamp)

namespace Nonneg

theorem live (h : Nonneg db) (symbols : List String) : ∀ p ∈ db.liveIn symbols, 0 ≤ p.margin :=
  fun p hp => h.margin p (mem_liveIn.mp hp).1

/-- What `endIn` leaves of an account, without the case of an account that loses nothing. -/
theorem endIn_account (h : Nonneg db) (symbols : List String) {a : Account}
    (ha : a ∈ db.accounts) :
    (if ∃ p ∈ db.liveIn symbols, p.accountId = a.id then
      { a with marginUsed := max (a.marginUsed - marginIn (db.liveIn symbols) a.id) 0 } else a) =
      { a with marginUsed := max (a.marginUsed - marginIn (db.liveIn symbols) a.id) 0 } := by
  split
  · rfl
  · rename_i hn
    push Not at hn
    rw [marginIn_of_ne hn, sub_zero, max_eq_left (h.marginUsed a ha)]

theorem endIn_accounts (h : Nonneg db) (symbols : List String) :
    (db.endIn symbols).accounts = db.accounts.map fun a =>
      { a with marginUsed := max (a.marginUsed - marginIn (db.liveIn symbols) a.id) 0 } :=
  List.map_congr_left fun _ ha => h.endIn_account symbols ha

theorem endIn (h : Nonneg db) (symbols : List String) : Nonneg (db.endIn symbols) := by
  refine ⟨fun a' ha' => ?_, fun p' hp' => ?_⟩
  · rw [h.endIn_accounts] at ha'
    obtain ⟨a, -, rfl⟩ := List.mem_map.mp ha'
    exact le_max_right _ _
  · obtain ⟨p, hp, rfl⟩ := List.mem_map.mp hp'
    split <;> exact h.margin p hp

end Nonneg

/-- The margins that end in the first set and then in the second are those of the union. -/
theorem marginIn_endIn (db : Db) (S T : List String) (id : ℕ) :
    marginIn (db.liveIn S) id + marginIn ((db.endIn S).liveIn T) id =
      marginIn (db.liveIn (S ++ T)) id := by
  unfold marginIn Db.liveIn
  rw [sum_filter, sum_filter, sum_filter]
  show _ + ((db.positions.map _).map _).sum = _
  rw [List.map_map, ← List.sum_map_add]
  congr 1
  refine List.map_congr_left fun p _ => ?_
  simp only [Function.comp, decide_eq_true_eq, List.mem_append]
  by_cases hS : p.symbol ∈ S
  · cases hl : p.liquidated <;> simp [hS, hl]
  · simp [hS]

/-- **Two sets of symbols, one after the other.** -/
theorem endIn_endIn (h : Nonneg db) (S T : List String) :
    (db.endIn S).endIn T = db.endIn (S ++ T) := by
  have accounts : ((db.endIn S).endIn T).accounts = (db.endIn (S ++ T)).accounts := by
    rw [(h.endIn S).endIn_accounts, h.endIn_accounts, h.endIn_accounts, List.map_map]
    refine List.map_congr_left fun a _ => ?_
    have hT := marginIn_nonneg ((h.endIn S).live T) a.id
    simp only [Function.comp]
    rw [← marginIn_endIn, ← sub_sub]
    rcases max_cases (a.marginUsed - marginIn (db.liveIn S) a.id) 0 with ⟨e, -⟩ | ⟨e, hneg⟩
    · rw [e]
    · rw [e, max_eq_right (a := (0 : ℚ) - _) (by linarith), max_eq_right (by linarith)]
  have positions : ((db.endIn S).endIn T).positions = (db.endIn (S ++ T)).positions := by
    show (db.positions.map _).map _ = db.positions.map _
    rw [List.map_map]
    refine List.map_congr_left fun p _ => ?_
    simp only [Function.comp, List.mem_append]
    by_cases hS : p.symbol ∈ S
    · cases hl : p.liquidated <;> simp [hS, hl]
    · simp [hS]
  calc (db.endIn S).endIn T = { db with
        accounts := ((db.endIn S).endIn T).accounts
        positions := ((db.endIn S).endIn T).positions } := rfl
    _ = db.endIn (S ++ T) := by rw [accounts, positions]; rfl

theorem holds_marginIn (hv : db.Valid c) (symbols : List String) (id : ℕ) :
    c.Holds (marginIn (db.liveIn symbols) id) := by
  refine Column.holds_sum fun x hx => ?_
  obtain ⟨p, hp, rfl⟩ := List.mem_map.mp hx
  split
  · exact (hv.positions.rows p (mem_liveIn.mp hp).1).2.2.2
  · exact c.holds_zero

theorem valid_endIn (hv : db.Valid c) (symbols : List String) : (db.endIn symbols).Valid c := by
  have hid : ∀ a : Account, (if ∃ p ∈ db.liveIn symbols, p.accountId = a.id then
      { a with marginUsed := max (a.marginUsed - marginIn (db.liveIn symbols) a.id) 0 }
      else a).id = a.id := fun a => by split <;> rfl
  have hu : ∀ a : Account, (if ∃ p ∈ db.liveIn symbols, p.accountId = a.id then
      { a with marginUsed := max (a.marginUsed - marginIn (db.liveIn symbols) a.id) 0 }
      else a).userId = a.userId := fun a => by split <;> rfl
  refine { hv with
    accounts := hv.accounts.map hid fun a _ hs => ?_
    accountUsers := hv.accountUsers.map hu
    positions := hv.positions.map (fun p => by split <;> rfl) fun p _ hs => ?_ }
  · split
    · exact ⟨hs.1, (hs.2.sub (holds_marginIn hv symbols a.id)).max c.holds_zero⟩
    · exact hs
  · split <;> exact hs

/-- The commit of `_apply_liquidation` is `endIn` of its symbol: what it stores is not rounded. -/
theorem liquidated_eq (hv : db.Valid c) (h : Nonneg db) (symbol : String) :
    ApplyLiquidation.liquidated c db symbol = db.endIn [symbol] := by
  have accounts : (ApplyLiquidation.liquidated c db symbol).accounts =
      (db.endIn [symbol]).accounts := by
    rw [h.endIn_accounts]
    refine List.map_congr_left fun a ha => ?_
    have hlive := h.live [symbol]
    rw [liveIn_singleton] at hlive ⊢
    rw [releaseAll_clamp hlive (h.marginUsed a ha)]
    have hholds := holds_marginIn hv [symbol] a.id
    rw [liveIn_singleton] at hholds
    rw [(((hv.accounts.rows a ha).2.sub hholds).max c.holds_zero).store]
  have positions : (ApplyLiquidation.liquidated c db symbol).positions =
      (db.endIn [symbol]).positions := by
    simp only [ApplyLiquidation.liquidated, Db.endIn, List.mem_singleton]
  calc ApplyLiquidation.liquidated c db symbol = { db with
        accounts := (ApplyLiquidation.liquidated c db symbol).accounts
        positions := (ApplyLiquidation.liquidated c db symbol).positions } := rfl
    _ = db.endIn [symbol] := by rw [accounts, positions]; rfl

/-! ## One call -/

namespace ApplyLiquidation

/-- `increment_liquidation_event`, once after the commit. -/
def counts : Phase → After Phase Unit → List Unit
  | .commit _, .done (.ok ()) => [()]
  | _, _ => []

/-- The symbols that a call with this symbol is about: the empty one is ignored. -/
def named (symbol : String) : List String := [symbol].filter (· ≠ "")

theorem named_of_ne {symbol : String} (h : symbol ≠ "") : named symbol = [symbol] := by
  simp [named, h]

/-- After the first step there are positions to end. -/
def Begun (db : Db) (symbol : String) : Phase → Prop
  | .selectPositions _ => True
  | _ => symbol ≠ "" ∧ db.livePositionsIn symbol ≠ []

/-- What a call that returns did. -/
def Did (db : Db) (symbol : String) (h : List Unit) (w : World × List Unit) : Prop :=
  w.1.db = db.endIn (named symbol) ∧
    w.2 = h ++ if db.liveIn (named symbol) = [] then [] else [()]

theorem did_nothing {symbol : String} {h : List Unit} {w : World × List Unit} (hw : w.1.db = db)
    (hh : w.2 = h) (hnil : db.liveIn (named symbol) = []) : Did db symbol h w := by
  refine ⟨by rw [hw, endIn_of_nil hnil], ?_⟩
  rw [if_pos hnil, List.append_nil, hh]

theorem begun_await {symbol : String} {w w' : World} {a : Answer} {p p' : Phase}
    (hA : Alone db symbol w p) (hb : Begun db symbol p)
    (h : step cfg c w a p = (w', .await p')) : Begun db symbol p' := by
  cases p with
  | selectPositions sym =>
    obtain ⟨hw, rfl⟩ := hA
    simp only [step] at h
    split at h
    · cases h
    · rename_i hs
      split at h
      · cases h
      · split at h
        · cases h
        · rename_i hl
          cases h
          exact ⟨hs, fun e => by rw [← hw, hl] at e; cases e⟩
  | selectAccount s p todo =>
    have hturn : ∀ accounts, Begun db symbol (s.turn p todo accounts) := by
      intro accounts
      unfold Loop.turn Loop.next
      cases todo <;> exact hb
    simp only [step] at h
    split at h
    · cases h
    · split at h
      · cases h; exact hturn _
      · split at h
        · cases h
        · cases h; exact hturn _
        · cases h; exact hturn _
  | commit s =>
    simp only [step] at h
    split at h
    · cases h
    · split at h <;> cases h

theorem did_done {symbol : String} {h₀ : List Unit} {w w' : World × List Unit} {a : Answer}
    {p : Phase} (hv : db.Valid c) (hn : Nonneg db) (hA : Alone db symbol w.1 p)
    (hh : w.2 = h₀) (hb : Begun db symbol p)
    (h : recorded (step cfg c) counts w a p = (w', .done (.ok ()))) : Did db symbol h₀ w' := by
  obtain ⟨hst, hrec⟩ := recorded_eq h
  cases p with
  | selectPositions sym =>
    obtain ⟨hw, rfl⟩ := hA
    have hw' : w'.2 = h₀ := by rw [hrec, hh]; exact List.append_nil h₀
    simp only [step] at hst
    split at hst
    · rename_i hs
      have e := (Prod.mk.inj hst).1
      exact did_nothing (e ▸ hw) hw' (by simp [named, hs, Db.liveIn])
    · rename_i hs
      split at hst
      · cases (Prod.mk.inj hst).2
      · split at hst
        · rename_i hl
          have e := (Prod.mk.inj hst).1
          refine did_nothing (e ▸ hw) hw' ?_
          rw [named_of_ne hs, liveIn_singleton, ← hw]
          exact hl
        · cases (Prod.mk.inj hst).2
  | selectAccount s p todo =>
    simp only [step] at hst
    split at hst
    · cases (Prod.mk.inj hst).2
    · split at hst
      · cases (Prod.mk.inj hst).2
      · split at hst <;> cases (Prod.mk.inj hst).2
  | commit s =>
    obtain ⟨hs, hlive⟩ := hb
    obtain ⟨hw, hps, hr⟩ := hA
    simp only [step] at hst
    split at hst
    · cases (Prod.mk.inj hst).2
    · split at hst
      · cases (Prod.mk.inj hst).2
      · rename_i w₁ hcommit
        have hdb : w'.1.db = w₁.db := by
          rw [← (Prod.mk.inj hst).1]
          rw [foldl_emit]
        have hc : Committed c db symbol s w'.1.db :=
          ⟨hps, hr, by rw [hdb, ← hw]; exact World.commit_db hcommit⟩
        refine ⟨by rw [hc.eq hv, liquidated_eq hv hn, named_of_ne hs], ?_⟩
        rw [hrec, hh, named_of_ne hs, liveIn_singleton, if_neg hlive]
        rfl

/-- **One call.** -/
theorem run_did {symbol : String} {as : List Answer} {w w' : World × List Unit}
    (hv : w.1.db.Valid c) (hn : Nonneg w.1.db)
    (h : run (recorded (step cfg c) counts) as w (.selectPositions symbol) = some (w', .ok ())) :
    Did w.1.db symbol w.2 w' := by
  refine run_induct (C := fun _ => True)
    (I := fun v p => Alone w.1.db symbol v.1 p ∧ v.2 = w.2 ∧ Begun w.1.db symbol p)
    (Q := fun v r => r = .ok () → Did w.1.db symbol w.2 v) ?_ ?_ (fun _ _ => trivial) ?_ h rfl
  · rintro v a p v' p' - ⟨hA, hh, hb⟩ hs
    obtain ⟨hst, hrec⟩ := recorded_eq hs
    refine ⟨alone_await hA hst, ?_, begun_await hA hb hst⟩
    rw [hrec, hh]
    cases p <;> exact List.append_nil _
  · rintro v a p v' r - ⟨hA, hh, hb⟩ hs rfl
    exact did_done hv hn hA hh hb hs
  · exact ⟨And.intro rfl rfl, rfl, trivial⟩

end ApplyLiquidation

/-! ## Sequences -/

/-- `_apply_liquidation` calls that return, each to its end before the next, with the count. -/
def liquidations (cfg : Config) (c : Column) : Sys where
  St := World × List Unit
  Act := String × List Answer
  init _ := True
  step w a w' := run (recorded (ApplyLiquidation.step cfg c) ApplyLiquidation.counts) a.2 w
    (.selectPositions a.1) = some (w', .ok ())

/-- The symbols that the calls mention. -/
def mentioned (as : List (String × List Answer)) : List String :=
  as.flatMap fun a => ApplyLiquidation.named a.1

/-- There is a live position in the symbol. -/
def Db.LiveIn (db : Db) (symbol : String) : Prop :=
  ∃ p ∈ db.positions, p.symbol = symbol ∧ p.liquidated = false

instance (db : Db) (symbol : String) : Decidable (db.LiveIn symbol) :=
  inferInstanceAs (Decidable (∃ p ∈ db.positions, _))

/-- The number of the symbols in which there is a live position. -/
def liveCount (db : Db) (symbols : List String) : ℕ :=
  (symbols.toFinset.filter fun x => db.LiveIn x).card

theorem liveIn_eq_nil (db : Db) (x : String) : db.liveIn [x] = [] ↔ ¬db.LiveIn x := by
  simp [Db.liveIn, Db.LiveIn, List.filter_eq_nil_iff]

/-- What has ended is not live again, and the rest is live as before. -/
theorem live_endIn (db : Db) (S : List String) (x : String) :
    (db.endIn S).LiveIn x ↔ x ∉ S ∧ db.LiveIn x := by
  constructor
  · rintro ⟨q, hq, hs, hl⟩
    obtain ⟨p, hp, rfl⟩ := List.mem_map.mp hq
    split at hs
    · rename_i h
      rw [if_pos h] at hl
      cases hl
    · rename_i h
      rw [if_neg h] at hl
      exact ⟨fun hx => h ⟨hs ▸ hx, hl⟩, p, hp, hs, hl⟩
  · rintro ⟨hx, p, hp, rfl, hl⟩
    exact ⟨p, List.mem_map.mpr ⟨p, hp, if_neg fun h => hx h.1⟩, rfl, hl⟩

/-- A call counts its symbol if it is live, and no later call does again. -/
theorem liveCount_cons (db : Db) (x : String) (T : List String) :
    liveCount db (x :: T) = (if db.LiveIn x then 1 else 0) + liveCount (db.endIn [x]) T := by
  unfold liveCount
  rw [List.toFinset_cons, Finset.filter_insert]
  have hlater : T.toFinset.filter (fun y => (db.endIn [x]).LiveIn y) =
      (T.toFinset.filter fun y => db.LiveIn y).erase x := by
    ext y
    simp only [Finset.mem_filter, live_endIn, List.mem_singleton, Finset.mem_erase]
    tauto
  rw [hlater]
  split
  · have herase : insert x (T.toFinset.filter fun y => db.LiveIn y) =
        insert x ((T.toFinset.filter fun y => db.LiveIn y).erase x) := by
      ext y
      simp only [Finset.mem_insert, Finset.mem_erase]
      tauto
    rw [herase, Finset.card_insert_of_notMem (Finset.notMem_erase _ _), add_comm]
  · rename_i h
    rw [Finset.erase_eq_of_notMem fun hm => h (Finset.mem_filter.mp hm).2, zero_add]

/-- **Runs.** A sequence of calls ends what is live in the symbols that it mentions, and counts
these. -/
theorem run_liquidations {w w' : World × List Unit} {as : List (String × List Answer)}
    (hv : w.1.db.Valid c) (hn : Nonneg w.1.db) (h : (liquidations cfg c).Run w as w') :
    w'.1.db = w.1.db.endIn (mentioned as) ∧
      w'.2.length = w.2.length + liveCount w.1.db (mentioned as) := by
  induction as generalizing w with
  | nil =>
    obtain rfl := Sys.run_nil.mp h
    refine ⟨(endIn_of_nil ?_).symm, rfl⟩
    simp [Db.liveIn, mentioned]
  | cons a as ih =>
    obtain ⟨w₁, hst, hrun⟩ := Sys.run_cons.mp h
    have hd := ApplyLiquidation.run_did hv hn hst
    obtain ⟨hdb₁, hcount₁⟩ := hd
    obtain ⟨hdb, hcount⟩ := ih (hdb₁ ▸ valid_endIn hv _) (hdb₁ ▸ hn.endIn _) hrun
    rw [hdb, hcount, hdb₁, endIn_endIn hn, hcount₁, List.length_append]
    refine ⟨rfl, ?_⟩
    show _ = _ + liveCount w.1.db (ApplyLiquidation.named a.1 ++ mentioned as)
    by_cases hs : a.1 = ""
    · have hnamed : ApplyLiquidation.named a.1 = [] := by simp [ApplyLiquidation.named, hs]
      have hnil : w.1.db.liveIn [] = [] := by simp [Db.liveIn]
      rw [hnamed, hnil, endIn_of_nil hnil]
      rfl
    · rw [ApplyLiquidation.named_of_ne hs, List.singleton_append, liveCount_cons]
      by_cases hl : w.1.db.LiveIn a.1
      · have hsome : w.1.db.liveIn [a.1] ≠ [] := fun e => (liveIn_eq_nil _ _).mp e hl
        rw [if_neg hsome, if_pos hl, List.length_singleton, add_assoc]
      · rw [if_pos ((liveIn_eq_nil _ _).mpr hl), if_neg hl, List.length_nil, add_assoc]

/-- **Liquidations can be repeated and reordered.** Two sequences of calls that mention the same
symbols leave the same tables and the same count. Exactly the live positions in these symbols have
ended, and each account is rid of the margins of those that were its own. -/
theorem liquidations_converge {w w₁ w₂ : World × List Unit} {as₁ as₂ : List (String × List Answer)}
    (hv : w.1.db.Valid c) (hn : Nonneg w.1.db) (h₁ : (liquidations cfg c).Run w as₁ w₁)
    (h₂ : (liquidations cfg c).Run w as₂ w₂) (h : ∀ x, x ∈ mentioned as₁ ↔ x ∈ mentioned as₂) :
    w₁.1.db = w₂.1.db ∧ w₁.2.length = w₂.2.length ∧
    w₁.1.db.positions = w.1.db.positions.map (fun p =>
      if p.symbol ∈ mentioned as₁ ∧ p.liquidated = false then { p with liquidated := true } else p) ∧
    w₁.1.db.accounts = w.1.db.accounts.map fun a =>
      if ∃ p ∈ w.1.db.liveIn (mentioned as₁), p.accountId = a.id then
        { a with
          marginUsed := max (a.marginUsed - marginIn (w.1.db.liveIn (mentioned as₁)) a.id) 0 }
      else a := by
  obtain ⟨hdb₁, hcount₁⟩ := run_liquidations hv hn h₁
  obtain ⟨hdb₂, hcount₂⟩ := run_liquidations hv hn h₂
  have hsame : liveCount w.1.db (mentioned as₁) = liveCount w.1.db (mentioned as₂) := by
    unfold liveCount
    rw [show (mentioned as₁).toFinset = (mentioned as₂).toFinset from Finset.ext fun x => by
      rw [List.mem_toFinset, List.mem_toFinset, h]]
  refine ⟨?_, ?_, ?_, ?_⟩
  · rw [hdb₁, hdb₂, endIn_congr h]
  · rw [hcount₁, hcount₂, hsame]
  · rw [hdb₁]; rfl
  · rw [hdb₁]; rfl

namespace Sample

/-- Two live positions, with more margin than is reserved. -/
def btcAndEth : World :=
  { start 1000 with
    db := { (start 1000).db with
      accounts := [⟨1, 1, 1000, 25⟩]
      positions := [{ id := 1, accountId := 1, userId := 1, symbol := "BTCUSDT", quantity := 1,
                      entryPrice := 100, notional := 100, margin := 10, liquidated := false },
                    { id := 2, accountId := 1, userId := 1, symbol := "ETHUSDT", quantity := 2,
                      entryPrice := 100, notional := 200, margin := 20, liquidated := false }] } }

theorem btcAndEth_valid : btcAndEth.db.Valid .exact where
  accounts := ⟨by decide, fun _ _ => ⟨rfl, rfl⟩⟩
  accountUsers := by decide
  positions := ⟨by decide, fun _ _ => ⟨rfl, rfl, rfl, rfl⟩⟩
  orders := ⟨List.nodup_nil, fun _ h => nomatch h⟩
  trades := ⟨List.nodup_nil, fun _ h => nomatch h⟩

/-- A call whose database calls succeed. -/
def liquidate (symbol : String) : String × List Answer := (symbol, [{}, {}, {}])

def oneCall (w : World × List Unit) (a : String × List Answer) : Option (World × List Unit) :=
  match run (recorded (ApplyLiquidation.step config .exact) ApplyLiquidation.counts) a.2 w
    (.selectPositions a.1) with
  | some (w', .ok ()) => some w'
  | _ => none

theorem oneCall_step {w w' : World × List Unit} {a : String × List Answer}
    (h : oneCall w a = some w') : (liquidations config .exact).step w a w' := by
  unfold oneCall at h
  split at h
  · rename_i hr
    cases h
    exact hr
  · cases h

end Sample

open Sample in
/-- A repeated and reordered sequence, and one without: both end the two positions. -/
theorem liquidations_converge_two :
    ∃ w₁ w₂ : World × List Unit, w₁.2.length = 2 ∧ w₁.1.db = w₂.1.db ∧
      w₁.2.length = w₂.2.length := by
  let s : World × List Unit := (btcAndEth, [])
  have h₁ : ([liquidate "ETHUSDT", liquidate "BTCUSDT", liquidate "ETHUSDT"].foldlM oneCall s).map
      (fun w => w.2.length) = some 2 := by decide +kernel
  have h₂ : ([liquidate "BTCUSDT", liquidate "ETHUSDT"].foldlM oneCall s).map
      (fun w => w.2.length) = some 2 := by decide +kernel
  obtain ⟨w₁, h₁, hcount⟩ := Option.map_eq_some_iff.mp h₁
  obtain ⟨w₂, h₂, -⟩ := Option.map_eq_some_iff.mp h₂
  have hn : Nonneg btcAndEth.db :=
    ⟨by decide +kernel, by decide +kernel⟩
  obtain ⟨hdb, hlen, -⟩ := liquidations_converge (w := s) btcAndEth_valid hn
    (.foldlM (fun _ _ _ _ => oneCall_step) h₁) (.foldlM (fun _ _ _ _ => oneCall_step) h₂)
    (fun x => by simp [mentioned, liquidate, ApplyLiquidation.named]; tauto)
  exact ⟨w₁, w₂, hcount, hdb, hlen⟩

end CryptoExchange
