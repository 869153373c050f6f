import CryptoExchange.Ledger.Margin
import CryptoExchange.Lib.Machine

/-!
# Releases of one symbol, interleaved

`close_position` and `_apply_liquidation` both release the margin of a position: each reads the
position as live, and later the account, from which it takes the position's margin. When another
handler has released the margin in between, it is taken twice. `releases` is the system of any
number of these handlers for one symbol. In a run in which every position that a handler is about to
release is still live when the handler reads the account (`StillLive`), the reserved margin stays
that of the live positions.

A handler holds positions (`Holding`), and later accounts (`Read`), as it read them. `Release` is
what a commit does, whichever handler makes it: it keeps both for the other handlers.
-/

namespace CryptoExchange

open Lib Db

variable {cfg : Config} {c : Column} {db db' : Db} {symbol : String}

def Position.ended (p : Position) : Position := { p with liquidated := true }

/-- The positions that a handler holds: live when it read them, and all that the accounts concerned
have in the symbol. -/
structure Holding (symbol : String) (db : Db) (ps : List Position) : Prop where
  keyed : Keyed Position.id ps
  live : ∀ p ∈ ps, p.liquidated = false ∧ p.symbol = symbol
  rows : ∀ p ∈ ps, p ∈ db.positions ∨ p.ended ∈ db.positions
  complete : ∀ p ∈ ps, ∀ q ∈ db.positions, q.accountId = p.accountId → q.symbol = symbol →
    q.liquidated = false → q ∈ ps

/-- The margin that the account `id` has in the positions `ps` that are still live. -/
def stillHeld (db : Db) (ps : List Position) (id : ℕ) : ℚ :=
  ((ps.filter fun p => p ∈ db.positions).map fun p => if p.accountId = id then p.margin else 0).sum

/-- The margin that the account `id` had in the positions `ps` that have ended. -/
def alreadyReleased (db : Db) (ps : List Position) (id : ℕ) : ℚ :=
  ((ps.filter fun p => p ∉ db.positions).map fun p => if p.accountId = id then p.margin else 0).sum

open ApplyLiquidation (marginIn releaseAll)

theorem stillHeld_add (db : Db) (ps : List Position) (id : ℕ) :
    stillHeld db ps id + alreadyReleased db ps id = marginIn ps id := by
  rw [stillHeld, alreadyReleased, marginIn, sum_filter, sum_filter, ← List.sum_map_add]
  congr 1
  refine List.map_congr_left fun p _ => ?_
  by_cases hp : p ∈ db.positions
  · simp [hp]
  · simp [hp]

namespace Holding

variable {ps qs : List Position}

theorem margin_nonneg (h : Holding symbol db ps) (hb : Balanced c db) :
    ∀ p ∈ ps, 0 ≤ p.margin := by
  intro p hp
  rcases h.rows p hp with hp' | hp'
  · exact hb.margin_nonneg p hp'
  · have := hb.margin_nonneg _ hp'
    exact this

theorem margin_holds (h : Holding symbol db ps) (hv : db.Valid c) :
    ∀ p ∈ ps, c.Holds p.margin := by
  intro p hp
  rcases h.rows p hp with hp' | hp'
  · exact (hv.positions.rows p hp').2.2.2
  · have := (hv.positions.rows _ hp').2.2.2
    exact this

/-- A live row with the id of a held position is that position. -/
theorem eq_of_id (h : Holding symbol db ps) (hv : db.Valid c) {p q : Position} (hp : p ∈ ps)
    (hq : q ∈ db.positions) (hid : q.id = p.id) (hl : q.liquidated = false) : q = p := by
  rcases h.rows p hp with hp' | hp'
  · exact hv.positions.keyed.eq_of_key hq hp' hid
  · have e : q = p.ended := hv.positions.keyed.eq_of_key hq hp' hid
    rw [e] at hl
    cases hl

/-- The account of a held position. -/
theorem account (h : Holding symbol db ps) (hb : Balanced c db) {p : Position} (hp : p ∈ ps) :
    ∃ a ∈ db.accounts, a.id = p.accountId ∧ db.selectAccount p.accountId = [a] := by
  obtain ⟨a, ha, hid, -⟩ : ∃ a ∈ db.accounts, a.id = p.accountId ∧ a.userId = p.userId := by
    rcases h.rows p hp with hp' | hp'
    · exact hb.owner p hp'
    · have := hb.owner _ hp'
      exact this
  refine ⟨a, ha, hid, ?_⟩
  rw [selectAccount, ← hid]
  exact hb.valid.accounts.keyed.filter_key ha

/-- What is still held is part of what the account's live positions hold. -/
theorem stillHeld_eq (h : Holding symbol db ps) (hv : db.Valid c) (id : ℕ) :
    stillHeld db ps id = ((db.positions.filter fun q => q ∈ ps).map (Position.held id)).sum := by
  rw [stillHeld, sum_inter _ h.keyed hv.positions.keyed]
  congr 1
  refine List.map_congr_left fun p hp => ?_
  have hl := (h.live p (by simpa using (List.mem_filter.mp hp).2)).1
  simp [Position.held, hl]

theorem stillHeld_le (h : Holding symbol db ps) (hb : Balanced c db) (id : ℕ) :
    stillHeld db ps id ≤ liveMargin db.positions id := by
  rw [h.stillHeld_eq hb.valid, liveMargin_eq, sum_filter]
  refine List.sum_le_sum fun q hq => ?_
  have hn : 0 ≤ q.held id := by
    unfold Position.held
    split
    · exact hb.margin_nonneg q hq
    · exact le_rfl
  split
  · exact le_rfl
  · exact hn

end Holding

/-! ## A commit -/

/-- The commit of a handler that holds `ps`: they have ended, and every account is rid of what they
still held. -/
structure Release (c : Column) (ps : List Position) (db db' : Db) : Prop where
  valid : db'.Valid c
  positions : db'.positions =
    db.positions.map fun q => if q.id ∈ ps.map Position.id then q.ended else q
  accounts : ∃ f : Account → Account, db'.accounts = db.accounts.map f ∧ ∀ a ∈ db.accounts,
    (f a).id = a.id ∧ (f a).userId = a.userId ∧
      (f a).marginUsed = a.marginUsed - stillHeld db ps a.id

namespace Release

variable {ps qs : List Position}

theorem mem_positions (h : Release c ps db db') {q' : Position} :
    q' ∈ db'.positions ↔
      ∃ q ∈ db.positions, (if q.id ∈ ps.map Position.id then q.ended else q) = q' := by
  rw [h.positions, List.mem_map]

/-- What is live after the commit was live before, and not held. -/
theorem live_iff (h : Release c ps db db') {q : Position} (hl : q.liquidated = false) :
    q ∈ db'.positions ↔ q ∈ db.positions ∧ q.id ∉ ps.map Position.id := by
  rw [h.mem_positions]
  constructor
  · rintro ⟨r, hr, rfl⟩
    split at hl
    · cases hl
    · rename_i hn
      rw [if_neg hn]
      exact ⟨hr, hn⟩
  · rintro ⟨hq, hn⟩
    exact ⟨q, hq, if_neg hn⟩

/-- How the commit changes a sum over the live positions that counts those in the symbol as their
margin. -/
theorem sum_eq (h : Release c ps db db') (hh : Holding symbol db ps) (hv : db.Valid c) (id : ℕ)
    {g : Position → ℚ} (hg : ∀ q : Position, q.liquidated = true → g q = 0)
    (hs : ∀ q : Position, q.symbol = symbol → g q = q.held id) :
    (db'.positions.map g).sum = (db.positions.map g).sum - stillHeld db ps id := by
  rw [eq_sub_iff_add_eq, hh.stillHeld_eq hv, h.positions, List.map_map, sum_filter,
    ← List.sum_map_add]
  congr 1
  refine List.map_congr_left fun q hq => ?_
  simp only [Function.comp, decide_eq_true_eq]
  by_cases hid : q.id ∈ ps.map Position.id
  · obtain ⟨p, hp, e⟩ := List.mem_map.mp hid
    rw [if_pos hid, hg q.ended rfl, zero_add]
    cases hl : q.liquidated with
    | false =>
      have hqp : q ∈ ps := hh.eq_of_id hv hp hq e.symm hl ▸ hp
      rw [if_pos hqp, hs q (hh.live q hqp).2]
    | true => simp [hg q hl, Position.held, hl]
  · have hn : q ∉ ps := fun hq' => hid (List.mem_map_of_mem hq')
    rw [if_neg hid, if_neg hn, add_zero]

/-- The commit ends what it still held of an account's margin. -/
theorem liveMargin (h : Release c ps db db') (hh : Holding symbol db ps) (hv : db.Valid c)
    (id : ℕ) : CryptoExchange.liveMargin db'.positions id =
      CryptoExchange.liveMargin db.positions id - stillHeld db ps id := by
  rw [liveMargin_eq, liveMargin_eq]
  refine h.sum_eq hh hv id (fun q hl => ?_) fun _ _ => rfl
  simp [Position.held, hl]

theorem balanced (h : Release c ps db db') (hh : Holding symbol db ps) (hb : Balanced c db) :
    Balanced c db' := by
  obtain ⟨f, e, hf⟩ := h.accounts
  refine hb.update h.valid ?_ ?_ ?_
  · intro a ha
    exact ⟨f a, e ▸ List.mem_map_of_mem ha, (hf a ha).1, (hf a ha).2.1⟩
  · intro a' ha'
    rw [e] at ha'
    obtain ⟨a, ha, rfl⟩ := List.mem_map.mp ha'
    obtain ⟨hid, -, hm⟩ := hf a ha
    refine ⟨a, ha, hid, ?_⟩
    rw [hm, h.liveMargin hh hb.valid]
    ring
  · intro q' hq'
    obtain ⟨q, hq, rfl⟩ := h.mem_positions.mp hq'
    split <;> exact ⟨hb.margin_nonneg q hq, hb.owner q hq⟩

end Release

/-! ## What the others hold -/

/-- An account as a handler that holds `ps` read it: what the others have released since is still
in it, and it covers everything that the handler is about to release. -/
structure Read (db : Db) (ps : List Position) (a : Account) : Prop where
  row : ∃ r ∈ db.accounts, r.id = a.id ∧
    a.marginUsed = r.marginUsed + alreadyReleased db ps a.id
  covers : marginIn ps a.id ≤ a.marginUsed
  held : ∃ p ∈ ps, p.accountId = a.id

/-- The margin of the live positions of the account `id` in the symbol. -/
def marginInSymbol (symbol : String) (db : Db) (id : ℕ) : ℚ :=
  (db.positions.map fun q => if q.symbol = symbol then q.held id else 0).sum

section

variable {ps qs : List Position}

/-- A handler still holds all that is live in the symbol. -/
theorem Holding.stillHeld_symbol (h : Holding symbol db ps) (hv : db.Valid c) {p : Position}
    (hp : p ∈ ps) : stillHeld db ps p.accountId = marginInSymbol symbol db p.accountId := by
  rw [h.stillHeld_eq hv, marginInSymbol, sum_filter]
  congr 1
  refine List.map_congr_left fun q hq => ?_
  simp only [decide_eq_true_eq]
  by_cases hqp : q ∈ ps
  · rw [if_pos hqp, if_pos (h.live q hqp).2]
  · rw [if_neg hqp]
    split
    · rename_i hs
      refine (if_neg fun hc => hqp ?_).symm
      exact h.complete p hp q hq hc.1 hs hc.2
    · rfl

theorem Holding.release (h : Holding symbol db ps) (hr : Release c qs db db') :
    Holding symbol db' ps := by
  refine ⟨h.keyed, h.live, fun p hp => ?_, fun p hp q hq ha hs hl => ?_⟩
  · have ended : p.ended ∈ db.positions → p.ended ∈ db'.positions := by
      intro hp'
      refine hr.mem_positions.mpr ⟨_, hp', ?_⟩
      split <;> rfl
    rcases h.rows p hp with hp' | hp'
    · by_cases hid : p.id ∈ qs.map Position.id
      · exact .inr (hr.mem_positions.mpr ⟨p, hp', if_pos hid⟩)
      · exact .inl (hr.mem_positions.mpr ⟨p, hp', if_neg hid⟩)
    · exact .inr (ended hp')
  · exact h.complete p hp q ((hr.live_iff hl).mp hq).1 ha hs hl

theorem Read.release {a : Account} (h : Read db ps a) (hp : Holding symbol db ps)
    (hq : Holding symbol db qs) (hv : db.Valid c) (hr : Release c qs db db') : Read db' ps a := by
  obtain ⟨r, hrm, hid, hm⟩ := h.row
  obtain ⟨p, hpm, hpa⟩ := h.held
  obtain ⟨f, e, hf⟩ := hr.accounts
  obtain ⟨hfid, -, hfm⟩ := hf r hrm
  refine ⟨⟨f r, e ▸ List.mem_map_of_mem hrm, hfid.trans hid, ?_⟩, h.covers, h.held⟩
  have before := hp.stillHeld_symbol hv hpm
  have after := (hp.release hr).stillHeld_symbol hr.valid hpm
  have change : marginInSymbol symbol db' a.id =
      marginInSymbol symbol db a.id - stillHeld db qs a.id := by
    refine hr.sum_eq hq hv a.id (fun q hl => ?_) fun q hs => if_pos hs
    simp [Position.held, hl]
  rw [hpa] at before after
  have := stillHeld_add db ps a.id
  have := stillHeld_add db' ps a.id
  rw [hfm, hid]
  linarith

/-- The row of a held position is live. -/
def StillLive (db : Db) (p : Position) : Prop :=
  ∃ q ∈ db.positions, q.id = p.id ∧ q.liquidated = false

instance (db : Db) (p : Position) : Decidable (StillLive db p) :=
  inferInstanceAs (Decidable (∃ q ∈ db.positions, _))

theorem stillHeld_of_ne {id : ℕ} (h : ∀ p ∈ ps, p.accountId ≠ id) : stillHeld db ps id = 0 := by
  refine List.sum_eq_zero fun x hx => ?_
  obtain ⟨p, hp, rfl⟩ := List.mem_map.mp hx
  exact if_neg (h p (List.mem_filter.mp hp).1)

/-- An account that is read while the positions on it are live. -/
theorem Read.of_live (hb : Balanced c db) (hh : Holding symbol db ps) {p : Position} (hp : p ∈ ps)
    (hlive : ∀ q ∈ ps, q.accountId = p.accountId → StillLive db q) {a : Account}
    (ha : a ∈ db.accounts) (hid : a.id = p.accountId) : Read db ps a := by
  have h0 : alreadyReleased db ps a.id = 0 := by
    refine List.sum_eq_zero fun x hx => ?_
    obtain ⟨q, hq, rfl⟩ := List.mem_map.mp hx
    obtain ⟨hq, hdead⟩ := List.mem_filter.mp hq
    refine if_neg fun e => ?_
    obtain ⟨r, hr, e', hl⟩ := hlive q hq (e.trans hid)
    rw [hh.eq_of_id hb.valid hq hr e' hl] at hr
    simp [hr] at hdead
  refine ⟨⟨a, ha, rfl, by rw [h0, add_zero]⟩, ?_, p, hp, hid.symm⟩
  have := stillHeld_add db ps a.id
  have := hh.stillHeld_le hb a.id
  have := hb.sum a ha
  linarith

/-- What the commit leaves of the account. -/
theorem Read.patch (hb : Balanced c db) (hh : Holding symbol db ps) {a r : Account}
    (h : Read db ps a) (hr : r ∈ db.accounts) (hid : r.id = a.id) :
    patch c.store a.marginUsed (releaseAll a.id ps a.marginUsed) r.marginUsed =
      r.marginUsed - stillHeld db ps a.id := by
  obtain ⟨r', hr', hid', hm⟩ := h.row
  have e : r' = r := hb.valid.accounts.keyed.eq_of_key hr' hr (hid'.trans hid.symm)
  rw [e] at hm
  have hn : ∀ p ∈ ps, (0 : ℚ) ≤ if p.accountId = a.id then p.margin else 0 := by
    intro p hp
    split
    · exact hh.margin_nonneg hb p hp
    · exact le_rfl
  have hstill : 0 ≤ stillHeld db ps a.id :=
    sum_nonneg_of fun p hp => hn p (List.mem_filter.mp hp).1
  have halready : 0 ≤ alreadyReleased db ps a.id :=
    sum_nonneg_of fun p hp => hn p (List.mem_filter.mp hp).1
  have hadd := stillHeld_add db ps a.id
  have new : releaseAll a.id ps a.marginUsed = r.marginUsed - stillHeld db ps a.id := by
    rw [ApplyLiquidation.releaseAll_eq (hh.margin_nonneg hb) h.covers]
    linarith
  rw [Db.patch, new]
  split
  · linarith
  · refine ((hb.valid.accounts.rows r hr).2.sub (Column.holds_sum fun x hx => ?_)).store
    obtain ⟨p, hp, rfl⟩ := List.mem_map.mp hx
    split
    · exact hh.margin_holds hb.valid p (List.mem_filter.mp hp).1
    · exact c.holds_zero

/-- An `UPDATE` that ends a position, wherever it is by now. -/
theorem flush_ended {p : Position} (hl : p.liquidated = false) :
    db.flush c (updatePosition p { p with liquidated := true }) =
      some (db.modifyPosition p.id Position.ended) := by
  rw [flush_updatePosition]
  congr 2
  funext now
  simp [patchPosition, Db.patch, Position.ended, hl]

/-- What a step of a handler in the symbol does: the tables stay and `T` holds of the next phase, or
the handler ends, without a change or with a release. -/
inductive Moves {P R : Type} (c : Column) (symbol : String) (T : P → Prop) (db db' : Db) :
    Next P R → Prop
  | kept {p : P} (db_eq : db' = db) (next : T p) : Moves c symbol T db db' (.await p)
  | ended {r : R} (db_eq : db' = db) : Moves c symbol T db db' (.done r)
  | released {r : R} {ps : List Position} (holding : Holding symbol db ps)
    (release : Release c ps db db') : Moves c symbol T db db' (.done r)

theorem Moves.map {P R P' R' : Type} {T : P → Prop} {T' : P' → Prop} {n : Next P R}
    (h : Moves c symbol T db db' n) {f : P → P'} {g : R → R'} (hT : ∀ p, T p → T' (f p)) :
    Moves c symbol T' db db' (n.map f g) := by
  cases h with
  | kept e ht => exact .kept e (hT _ ht)
  | ended e => exact .ended e
  | released hh hr => exact .released hh hr

end

/-! ## `close_position` -/

namespace ClosePosition

/-- What a close of a position in the symbol holds in each phase. -/
def Releasing (cfg : Config) (symbol : String) (db : Db) : Phase → Prop
  | .selectPosition _ sym => cfg.upper sym = symbol
  | .getPrice s | .reduceOnly s _ | .selectAccount s _ => Holding symbol db [s.position]
  | .flushOrder s _ account | .commit s _ account _ =>
    Holding symbol db [s.position] ∧ ∃ a, account = some a ∧ Read db [s.position] a

theorem Releasing.release {ps : List Position} {p : Phase} (h : Releasing cfg symbol db p)
    (hq : Holding symbol db ps) (hv : db.Valid c) (hr : Release c ps db db') :
    Releasing cfg symbol db' p := by
  cases p with
  | selectPosition u sym => exact h
  | getPrice s | reduceOnly s x | selectAccount s x => exact Holding.release h hr
  | flushOrder s x account | commit s x account o =>
    obtain ⟨hh, a, e, ha⟩ := h
    exact ⟨hh.release hr, a, e, ha.release hh hq hv hr⟩

/-- The `SELECT` of the position. -/
theorem holding (hb : Balanced c db) {userId : ℤ} {p : Position}
    (h : db.livePositionsOf userId symbol = [p]) : Holding symbol db [p] := by
  have hp : p ∈ db.livePositionsOf userId symbol := by rw [h]; exact List.mem_cons_self
  obtain ⟨hp, hu, hs, hl⟩ := mem_livePositionsOf.mp hp
  refine ⟨by simp [Keyed], ?_, ?_, ?_⟩
  · intro q hq
    rw [List.mem_singleton.mp hq]
    exact ⟨hl, hs⟩
  · intro q hq
    rw [List.mem_singleton.mp hq]
    exact .inl hp
  · intro q hq r hr ha hrs hrl
    rw [List.mem_singleton.mp hq] at ha
    -- the positions of one account are of one user
    obtain ⟨a, haa, hid, hau⟩ := hb.owner p hp
    obtain ⟨b, hbb, hid', hbu⟩ := hb.owner r hr
    have e : b = a := hb.valid.accounts.keyed.eq_of_key hbb haa (hid'.trans (ha.trans hid.symm))
    rw [← h]
    refine mem_livePositionsOf.mpr ⟨hr, ?_, hrs, hrl⟩
    rw [← hbu, e, hau, hu]

theorem release_commit (hb : Balanced c db) {s : Loaded} {closePrice : PyFloat} {a : Account}
    {o t : ℕ} (hh : Holding symbol db [s.position]) (ha : Read db [s.position] a)
    (h : db.flush c (s.writes closePrice (some a) o t) = some db') :
    Release c [s.position] db db' := by
  have hl : s.position.liquidated = false := (hh.live _ List.mem_cons_self).1
  have hv := hb.valid.flush h
  unfold Loaded.writes Loaded.closing at h
  obtain ⟨db₃, h, h₄⟩ := flush_append_some h
  obtain ⟨db₂, h, h₃⟩ := flush_append_some h
  obtain ⟨db₁, h₁, h₂⟩ := flush_append_some h
  rw [flush_updateAccount] at h₁
  rw [flush_ended hl] at h₂
  cases h₁
  cases h₂
  have ea : db'.accounts = modify Account.id a.id (patchAccount c a (s.released a)) db.accounts := by
    rw [(flush_insertTrade h₄).2, (flush_insertOrder h₃).2]
    rfl
  have ep : db'.positions = modify Position.id s.position.id Position.ended db.positions := by
    rw [(flush_insertTrade h₄).2, (flush_insertOrder h₃).2]
    rfl
  have hpa : s.position.accountId = a.id := by
    obtain ⟨p, hp, hpa⟩ := ha.held
    rwa [List.mem_singleton.mp hp] at hpa
  have new : (s.released a).marginUsed = releaseAll a.id [s.position] a.marginUsed := by
    simp [releaseAll, hpa, Loaded.released]
  refine ⟨hv, by rw [ep]; simp [Lib.modify], _, ea, fun r hr => ?_⟩
  by_cases hid : r.id = a.id
  · rw [if_pos hid, hid, ← ha.patch hb hh hr hid, ← new]
    exact ⟨hid, rfl, rfl⟩
  · rw [if_neg hid, stillHeld_of_ne, sub_zero]
    · exact ⟨rfl, rfl, rfl⟩
    · intro p hp
      rw [List.mem_singleton.mp hp, hpa]
      exact Ne.symm hid

/-- What a close is about to release is still live when it reads the account. -/
def StillLive (db : Db) : Phase → Prop
  | .selectAccount s _ => CryptoExchange.StillLive db s.position
  | _ => True

instance (db : Db) (p : Phase) : Decidable (StillLive db p) :=
  match p with
  | .selectAccount _ _ => inferInstanceAs (Decidable (CryptoExchange.StillLive db _))
  | .selectPosition _ _ | .getPrice _ | .reduceOnly _ _ | .flushOrder _ _ _ | .commit _ _ _ _ =>
    .isTrue trivial

theorem releasing_step {w w' : World} (hb : Balanced c w.db) {a : Answer} {p : Phase}
    {n : After Phase Reply} (h : Releasing cfg symbol w.db p) (hlive : StillLive w.db p)
    (hs : step cfg c w a p = (w', n)) :
    Moves c symbol (Releasing cfg symbol w.db) w.db w'.db n := by
  cases step_cases hs with
  | failed => exact .ended rfl
  | found hp =>
    unfold Releasing at h
    rw [h] at hp
    exact .kept rfl (holding hb (scalarOneOrNone_some hp))
  | priced hp => exact .kept rfl h
  | reduced hr => exact .kept rfl h
  | account hsel =>
    obtain ⟨b, hbm, hid, e⟩ := Holding.account h hb List.mem_cons_self
    rw [e] at hsel
    cases hsel
    refine .kept rfl ⟨h, b, rfl, .of_live hb h List.mem_cons_self (fun q hq _ => ?_) hbm hid⟩
    rw [List.mem_singleton.mp hq]
    exact hlive
  | flushed hf => exact .kept rfl h
  | committed hc =>
    obtain ⟨hh, b, rfl, hr⟩ := h
    exact .released hh (release_commit hb hh hr (World.commit_db hc))

end ClosePosition

/-! ## `_apply_liquidation` -/

namespace ApplyLiquidation

/-- What a handler of the symbol's events holds in each phase. -/
def Releasing (symbol : String) (db : Db) : Phase → Prop
  | .selectPositions sym => sym = symbol
  | .selectAccount s p todo => Holding symbol db s.positions ∧
      ∃ ps, s.positions = ps ++ p :: todo ∧
        Turned (Read db s.positions) (fun _ => False) ps s.accounts
  | .commit s => Holding symbol db s.positions ∧
      Turned (Read db s.positions) (fun _ => False) s.positions s.accounts

theorem Releasing.release {ps : List Position} {p : Phase} (h : Releasing symbol db p)
    (hq : Holding symbol db ps) (hv : db.Valid c) (hr : Release c ps db db') :
    Releasing symbol db' p := by
  cases p with
  | selectPositions sym => exact h
  | selectAccount s p todo =>
    obtain ⟨hh, ps, e, ht⟩ := h
    exact ⟨hh.release hr, ps, e, ht.mono fun a ha => ha.release hh hq hv hr⟩
  | commit s =>
    obtain ⟨hh, ht⟩ := h
    exact ⟨hh.release hr, ht.mono fun a ha => ha.release hh hq hv hr⟩

/-- The `SELECT` of the positions. -/
theorem holding (hv : db.Valid c) (symbol : String) :
    Holding symbol db (db.livePositionsIn symbol) where
  keyed := hv.positions.keyed.sublist (List.filter_sublist.map _)
  live p hp := by
    obtain ⟨-, hs, hl⟩ := mem_livePositionsIn.mp hp
    exact ⟨hl, hs⟩
  rows p hp := .inl (mem_livePositionsIn.mp hp).1
  complete p hp q hq _ hs hl := mem_livePositionsIn.mpr ⟨hq, hs, hl⟩

theorem release_commit (hb : Balanced c db) {s : Loop} (hh : Holding symbol db s.positions)
    (ht : Turned (Read db s.positions) (fun _ => False) s.positions s.accounts)
    (h : db.flush c s.writes = some db') : Release c s.positions db db' := by
  have hv := hb.valid.flush h
  obtain ⟨db₁, h₁, h₂⟩ := flush_append_some h
  rw [flush_flatMap (f := fun p db => db.modifyPosition p.id Position.ended)
    fun p hp db => flush_ended (hh.live p hp).1, foldl_modifyPosition Position.id,
    foldl_modify Position.id (fun _ => Position.ended) (fun _ _ => rfl) hh.keyed] at h₁
  rw [flush_flatMap fun l _ db => flush_updateAccount l.account _, foldl_modifyAccount,
    foldl_modify (fun l : Loaded => l.account.id)
      (fun l => patchAccount c l.account { l.account with marginUsed := l.marginUsed })
      (fun _ _ => rfl) ht.keyed] at h₂
  cases h₁
  cases h₂
  refine ⟨hv, ?_, _, rfl, fun r hr => ?_⟩
  · refine List.map_congr_left fun q _ => ?_
    cases hf : findRow Position.id q.id s.positions with
    | none =>
      refine (if_neg fun hq => ?_).symm
      obtain ⟨p, hp, e⟩ := List.mem_map.mp hq
      exact findRow_none.mp hf p hp e
    | some p =>
      obtain ⟨hp, e⟩ := findRow_mem hf
      exact (if_pos (List.mem_map.mpr ⟨p, hp, e⟩)).symm
  · cases hf : findRow (fun l : Loaded => l.account.id) r.id s.accounts with
    | none =>
      refine ⟨rfl, rfl, ?_⟩
      rw [stillHeld_of_ne, sub_zero]
      · rfl
      · intro p hp e
        obtain ⟨l, hl, e'⟩ := (ht.complete p hp).resolve_left id
        exact findRow_none.mp hf l hl (e'.trans e)
    | some l =>
      obtain ⟨hl, hid⟩ := findRow_mem hf
      refine ⟨rfl, rfl, ?_⟩
      rw [← hid, ← (ht.loaded l hl).patch hb hh hr hid.symm, ← ht.released l hl]
      rfl

/-- What the handler is about to release from an account is still live when it reads the account. -/
def StillLive (db : Db) : Phase → Prop
  | .selectAccount s p _ => (∃ l ∈ s.accounts, l.account.id = p.accountId) ∨
      ∀ q ∈ s.positions, q.accountId = p.accountId → CryptoExchange.StillLive db q
  | _ => True

instance (db : Db) (p : Phase) : Decidable (StillLive db p) :=
  match p with
  | .selectAccount _ _ _ => inferInstanceAs (Decidable ((∃ l ∈ _, _) ∨ ∀ q ∈ _, _))
  | .selectPositions _ | .commit _ => .isTrue trivial

/-- The phase after a turn. -/
theorem releasing_turn {s : Loop} {p : Position} {todo ps : List Position} {accounts : List Loaded}
    (hh : Holding symbol db s.positions) (hps : s.positions = ps ++ p :: todo)
    (h : Turned (Read db s.positions) (fun _ => False) ps accounts)
    (hl : ∃ l ∈ accounts, l.account.id = p.accountId) :
    Releasing symbol db (s.turn p todo accounts) := by
  have ht := h.turn (.inr hl)
  unfold Loop.turn
  cases todo with
  | nil =>
    refine ⟨hh, ?_⟩
    rw [← hps] at ht
    exact ht
  | cons q todo =>
    refine ⟨hh, ps ++ [p], ?_, ht⟩
    show s.positions = _
    rw [hps, List.append_assoc]
    rfl

theorem releasing_step {w w' : World} (hb : Balanced c w.db) {a : Answer} {p : Phase}
    {n : After Phase Unit} (h : Releasing symbol w.db p) (hlive : StillLive w.db p)
    (hs : step cfg c w a p = (w', n)) : Moves c symbol (Releasing symbol w.db) w.db w'.db n := by
  cases step_cases hs with
  | unchanged => exact .ended rfl
  | found hp =>
    have hh := holding hb.valid symbol
    cases h
    rw [hp] at hh
    exact .kept rfl ⟨hh, [], rfl, .nil _ _⟩
  | known hl =>
    obtain ⟨hh, ps, hps, ht⟩ := h
    exact .kept rfl (releasing_turn hh hps ht hl)
  | @missing s p todo hl ha =>
    obtain ⟨hh, ps, hps, ht⟩ := h
    have hpm : p ∈ s.positions := by rw [hps]; simp
    obtain ⟨b, -, -, hsel⟩ := hh.account hb hpm
    rw [hsel] at ha
    cases ha
  | @loaded s p todo b hl ha =>
    obtain ⟨hh, ps, hps, ht⟩ := h
    have hpm : p ∈ s.positions := by rw [hps]; simp
    obtain ⟨_, hbm, hid, hsel⟩ := hh.account hb hpm
    rw [hsel] at ha
    cases ha
    have hread : Read w.db s.positions b := .of_live hb hh hpm (hlive.resolve_left hl) hbm hid
    refine .kept rfl (releasing_turn hh hps (ht.load hread id ?_)
      ⟨⟨b, b.marginUsed⟩, List.mem_append_right _ List.mem_cons_self, hid⟩)
    exact fun l hl' e => hl ⟨l, hl', e.trans hid⟩
  | committed hdb hc =>
    obtain ⟨hh, ht⟩ := h
    rw [hdb]
    exact .released hh (release_commit hb hh ht (World.commit_db hc))

end ApplyLiquidation

/-! ## Any number of them -/

/-- A handler that ends positions in the symbol, at its start. -/
def StartsRelease (cfg : Config) (symbol : String) : Task cfg → Prop
  | .closePosition (.selectPosition _ sym) => cfg.upper sym = symbol
  | .applyLiquidation (.selectPositions sym) => sym = symbol
  | _ => False

/-- Any number of handlers that end positions in the symbol, from a balanced ledger. -/
def releases (cfg : Config) (c : Column) (symbol : String) : Sys :=
  interleave (Task.step cfg c) fun w ts =>
    Balanced c w.db ∧ ∀ t ∈ ts, ∃ p, StartsRelease cfg symbol p ∧ t = .await p

namespace Task

/-- What a handler about to release positions holds. -/
def Releasing (symbol : String) (db : Db) : Task cfg → Prop
  | .closePosition p => ClosePosition.Releasing cfg symbol db p
  | .applyLiquidation p => ApplyLiquidation.Releasing symbol db p
  | _ => False

/-- Every position that the handler is about to release from the account that it reads now is still
live. -/
def StillLive (w : World) (_ : Answer) : Task cfg → Prop
  | .closePosition p => ClosePosition.StillLive w.db p
  | .applyLiquidation p => ApplyLiquidation.StillLive w.db p
  | _ => True

instance (w : World) (a : Answer) (p : Task cfg) : Decidable (StillLive w a p) :=
  match p with
  | .closePosition p => inferInstanceAs (Decidable (ClosePosition.StillLive w.db p))
  | .applyLiquidation p => inferInstanceAs (Decidable (ApplyLiquidation.StillLive w.db p))
  | .createOrder _ | .cancelOrder _ | .syncBalance _ | .setMarginType _ => .isTrue trivial

theorem Releasing.release {ps : List Position} {p : Task cfg} (h : Releasing symbol db p)
    (hq : Holding symbol db ps) (hv : db.Valid c) (hr : Release c ps db db') :
    Releasing symbol db' p := by
  cases p with
  | closePosition p => exact ClosePosition.Releasing.release h hq hv hr
  | applyLiquidation p => exact ApplyLiquidation.Releasing.release h hq hv hr
  | _ => cases h

theorem releasing_step {w w' : World} (hb : Balanced c w.db) {a : Answer} {p : Task cfg}
    {n : After (Task cfg) Reply} (h : Releasing symbol w.db p) (hlive : StillLive w a p)
    (hs : step cfg c w a p = (w', n)) : Moves c symbol (Releasing symbol w.db) w.db w'.db n := by
  cases p with
  | closePosition p =>
    cases hs
    exact (ClosePosition.releasing_step hb h hlive rfl).map fun _ => id
  | applyLiquidation p =>
    cases hs
    exact (ApplyLiquidation.releasing_step hb h hlive rfl).map fun _ => id
  | _ => cases h

end Task

theorem releases_inductive (cfg : Config) (c : Column) (symbol : String) :
    ((releases cfg c symbol).restrict (StepMeets Task.StillLive)).Inductive fun s =>
      Balanced c s.1.db ∧ ∀ p, .await p ∈ s.2 → Task.Releasing symbol s.1.db p := by
  refine interleave_inductive (G := fun w : World => Balanced c w.db)
    (T := fun w p => Task.Releasing symbol w.db p) ?_ ?_
  · rintro w ts ⟨hb, hts⟩
    refine ⟨hb, fun p hp => ?_⟩
    obtain ⟨q, hq, e⟩ := hts _ hp
    cases e
    unfold StartsRelease at hq
    split at hq
    · exact hq
    · exact hq
    · cases hq
  · intro w a p w' n hb h hlive hs
    cases Task.releasing_step hb h hlive hs with
    | kept e ht =>
      refine ⟨e ▸ hb, fun p' hp' => ?_, fun q hq => e ▸ hq⟩
      cases hp'
      exact e ▸ ht
    | ended e => exact ⟨e ▸ hb, fun p' hp' => (by cases hp'), fun q hq => e ▸ hq⟩
    | released hh hr =>
      exact ⟨hr.balanced hh hb, fun p' hp' => (by cases hp'), fun q hq =>
        hq.release hh hb.valid hr⟩

/-- **A margin is released once** in every run in which each position that a handler is about to
release is still live when the handler reads its account. -/
theorem margin_released_once {s : World × List (After (Task cfg) Reply)}
    (h : ((releases cfg c symbol).restrict (StepMeets Task.StillLive)).Reach s) :
    ∀ a ∈ s.1.db.accounts, a.marginUsed = liveMargin s.1.db.positions a.id :=
  ((releases_inductive cfg c symbol).reach h).1.sum

/-! ## A close and the exchange's event for it -/

namespace Sample

/-- A position of 100 in BTC with a margin of 10, and one of 200 in ETH with a margin of 20. -/
def twoPositions : World where
  db :=
    { users := [⟨1, "trader_1", "standard", "trader"⟩]
      accounts := [⟨1, 1, 1000, 30⟩]
      positions := [
        { id := 1, accountId := 1, userId := 1, symbol := "BTCUSDT", quantity := 1,
          entryPrice := 100, notional := 100, margin := 10, liquidated := false },
        { id := 2, accountId := 1, userId := 1, symbol := "ETHUSDT", quantity := 2,
          entryPrice := 100, notional := 200, margin := 20, liquidated := false }]
      orders := []
      trades := [] }
  redis _ := none
  placed := []
  events := []

theorem twoPositions_balanced : Balanced (.numeric 8) twoPositions.db where
  valid :=
    { accounts := ⟨by decide, by decide +kernel⟩
      accountUsers := by decide
      positions := ⟨by decide, by decide +kernel⟩
      orders := ⟨by decide, by decide +kernel⟩
      trades := ⟨by decide, by decide +kernel⟩ }
  owner := by decide +kernel
  margin_nonneg := by decide +kernel
  sum := by decide +kernel

/-- The event that the exchange sends when the close of the BTC position fills. -/
def filled : StreamEvent := .accountUpdate [{ symbol := "BTCUSDT", amount := some 0 }]

/-- The close of the BTC position, and the handler of the event. -/
def closeAndEvent : World × List (After (Task config) Reply) :=
  (twoPositions, .await (.closePosition (.selectPosition 1 "BTCUSDT")) ::
    filled.liquidates.map fun symbol => .await (.applyLiquidation (.selectPositions symbol)))

theorem closeAndEvent_init :
    (releases config (.numeric 8) "BTCUSDT").init closeAndEvent := by
  have hfilled : filled.liquidates = ["BTCUSDT"] := by decide +kernel
  refine ⟨twoPositions_balanced, fun t ht => ?_⟩
  simp only [closeAndEvent, hfilled, List.map_cons, List.map_nil, List.mem_cons,
    List.not_mem_nil, or_false] at ht
  rcases ht with rfl | rfl
  · have h : config.upper "BTCUSDT" = "BTCUSDT" := by decide +kernel
    exact ⟨.closePosition (.selectPosition 1 "BTCUSDT"), h, rfl⟩
  · exact ⟨.applyLiquidation (.selectPositions "BTCUSDT"), rfl, rfl⟩

/-- The event is handled while the close awaits the exchange. -/
def eventFirst : List (ℕ × Answer) :=
  [(0, {}), (0, { price := dec 1 2 }), (0, { exchange := .ok {} }), (1, {}), (1, {}), (1, {}),
    (0, {}), (0, { rowId := 1 }), (0, { tradeId := 1 })]

/-- Both read the account before one of them commits. -/
def bothRead : List (ℕ × Answer) :=
  [(0, {}), (0, { price := dec 1 2 }), (0, { exchange := .ok {} }), (0, {}), (1, {}), (1, {}),
    (1, {}), (0, { rowId := 1 }), (0, { tradeId := 1 })]

end Sample

open Sample in
/-- The result when both have read the account before one of them commits. -/
theorem margin_released_once_bothRead :
    ∃ s, ((releases config (.numeric 8) "BTCUSDT").restrict (StepMeets Task.StillLive)).Reach s ∧
      s.2.all Next.isDone ∧ ∃ a ∈ s.1.db.accounts, a.marginUsed = 20 ∧
        a.marginUsed = liveMargin s.1.db.positions a.id := by
  let f := exec (Task.step config (.numeric 8)) Task.StillLive
  have hrun : (bothRead.foldlM f closeAndEvent).map (fun s => (s.2.all Next.isDone, s.1.db.accounts)) =
      some (true, [⟨1, 1, 1000, 20⟩]) := by decide +kernel
  obtain ⟨s, hs, h⟩ := Option.map_eq_some_iff.mp hrun
  obtain ⟨hdone, ha⟩ := Prod.mk.inj h
  have hreach : ((releases config (.numeric 8) "BTCUSDT").restrict
      (StepMeets Task.StillLive)).Reach s :=
    .foldlM (f := f) (fun _ _ _ _ h => exec_step h) (.init closeAndEvent_init) hs
  have hm : ⟨1, 1, 1000, 20⟩ ∈ s.1.db.accounts := by rw [ha]; exact List.mem_cons_self
  exact ⟨s, hreach, hdone, _, hm, rfl, margin_released_once hreach _ hm⟩

open Sample in
/-- The margin of 10 is taken twice, and `margin_used` is 10 with a live margin of 20. -/
theorem margin_released_twice :
    ∃ s, (releases config (.numeric 8) "BTCUSDT").Reach s ∧ s.2.all Next.isDone ∧
      ∃ a ∈ s.1.db.accounts, a.marginUsed = 10 ∧ liveMargin s.1.db.positions a.id = 20 := by
  let f := exec (Task.step config (.numeric 8)) fun _ _ _ => True
  have hrun : (eventFirst.foldlM f closeAndEvent).map (fun s =>
      (s.2.all Next.isDone, s.1.db.accounts, liveMargin s.1.db.positions 1)) =
        some (true, [⟨1, 1, 1000, 10⟩], 20) := by decide +kernel
  obtain ⟨s, hs, h⟩ := Option.map_eq_some_iff.mp hrun
  simp only [Prod.mk.injEq] at h
  obtain ⟨hdone, ha, hl⟩ := h
  have hreach : ((releases config (.numeric 8) "BTCUSDT").restrict
      (StepMeets fun _ _ _ => True)).Reach s :=
    .foldlM (f := f) (fun _ _ _ _ h => exec_step h) (.init closeAndEvent_init) hs
  exact ⟨s, hreach.of_restrict, hdone, ⟨1, 1, 1000, 10⟩, by rw [ha]; exact List.mem_cons_self, rfl, hl⟩

end CryptoExchange
