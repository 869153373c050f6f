import CryptoExchange.Audit.Settings
import CryptoExchange.Ledger.Failures
import CryptoExchange.Ledger.Steps

/-!
# Margin types here and at the exchange

The exchange keeps one margin type for each symbol of its account, which all users share. `positions`
has a column of its own: `set_margin_type` updates it for the positions of the user who asked, and a
position that `create_order` opens gets the column's default.

* `exchangeMarginType`: the setting, read off the changes that the exchange has accepted.
* `Mirrors`: every live position has the type of its symbol.
* `KeepsMirror`: the condition on a request under which it stays so.
* `margin_types_mirror`: the condition is right: such runs only reach states that mirror the exchange,
  and any other request leads out of these.
-/

namespace CryptoExchange

open Lib Db

/-- The margin type of a symbol at the exchange: CROSSED, up to an accepted change. -/
def exchangeMarginType (placed : List ExchangeRequest) (symbol : String) : MarginType :=
  placed.foldl (fun now request =>
    match request with
    | .changeMarginType s marginType => if s = symbol then marginType else now
    | _ => now) .crossed

/-- Every live position has the margin type of its symbol at the exchange. -/
def Mirrors (w : World) : Prop :=
  ∀ p ∈ w.db.positions, p.liquidated = false → p.marginType = exchangeMarginType w.placed p.symbol

variable {cfg : Config} {c : Column}

/-! ## The condition -/

namespace CreateOrder

/-- The commit of an order without a live position in the symbol, which works. -/
def OpensIn (c : Column) (w : World) (a : Answer) : Phase cfg → Prop
  | .commit s none => a.fails = false ∧ w.commit c (s.writes none a.rowId a.tradeId) ≠ none
  | _ => False

/-- The call opens a position. -/
def Opens (cfg : Config) (c : Column) (payload : OrderCreate) (as : List Answer) (w : World) : Prop :=
  ∃ x ∈ steps (step cfg c) as w (.selectUser payload), OpensIn c x.1 x.2.1 x.2.2

end CreateOrder

/-- An order opens a position only where the exchange has the column's default. Where the exchange
accepts a change, the live positions in the symbol have the type already, or are the user's own and
the calls to the database behind it work. -/
def KeepsMirror (cfg : Config) (c : Column) (w : World) (a : Request × List Answer) : Prop :=
  match a.1 with
  | .createOrder payload =>
    CreateOrder.Opens cfg c payload a.2 w →
      exchangeMarginType w.placed payload.symbol = .crossed
  | .setMarginType r =>
    cfg.hasCredentials → Accepts a.2 →
      ∀ p ∈ w.db.positions, p.symbol = cfg.upper r.symbol → p.liquidated = false →
        p.marginType = r.marginType ∨ p.userId = r.userId ∧ DatabaseAnswers a.2
  | _ => True

/-! ## Requests that change no setting -/

section

variable {w w' : World}

/-- The exchange has the settings that it had. -/
def SameSettings (w w' : World) : Prop := exchangeMarginType w'.placed = exchangeMarginType w.placed

theorem SameSettings.of_placed (h : w'.placed = w.placed) : SameSettings w w' := by
  rw [SameSettings, h]

theorem SameSettings.commit {ws : List Write} (h : w.commit c ws = some w') : SameSettings w w' :=
  .of_placed (World.commit_placed h)

theorem SameSettings.accept {x : ExchangeRequest}
    (hx : ∀ symbol marginType, x ≠ .changeMarginType symbol marginType) :
    SameSettings w (w.accept x) := by
  funext symbol
  rw [World.accept, exchangeMarginType, List.foldl_append]
  cases x with
  | changeMarginType s m => exact absurd rfl (hx s m)
  | newOrder | reduceOnly | cancelOrder => rfl

theorem exchangeMarginType_accept (w : World) (symbol s : String) (m : MarginType) :
    exchangeMarginType (w.accept (.changeMarginType symbol m)).placed s =
      if symbol = s then m else exchangeMarginType w.placed s := by
  rw [World.accept, exchangeMarginType, List.foldl_append]
  rfl

/-- A machine of which no step changes a setting. -/
theorem run_sameSettings {P R : Type} {step : World → Answer → P → World × Next P R}
    (hstep : ∀ w a p w' n, step w a p = (w', n) → SameSettings w w') {as : List Answer} {p : P} {r : R}
    (h : run step as w p = some (w', r)) : SameSettings w w' := by
  refine run_induct (C := fun _ => True) (I := fun v _ => SameSettings w v)
    (Q := fun v _ => SameSettings w v) ?_ ?_ (fun _ _ => trivial) rfl h
  · rintro v a p v' p' - hI hs
    exact (hstep _ _ _ _ _ hs).trans hI
  · rintro v a p v' r - hI hs
    exact (hstep _ _ _ _ _ hs).trans hI

theorem CreateOrder.step_sameSettings {a : Answer} {p : CreateOrder.Phase cfg}
    {n : After (CreateOrder.Phase cfg) CreateOrder.Reply}
    (h : CreateOrder.step cfg c w a p = (w', n)) : SameSettings w w' := by
  cases n with
  | done r => exact .of_placed (CreateOrder.step_done h).2.2
  | await q =>
    cases CreateOrder.step_cases h with
    | accepted => exact .accept fun _ _ e => by cases e
    | committed hc => exact .commit hc
    | user | account | opened | priced | userSummed | approved | flushed | flushedOnly | cached
    | positioned => rfl

theorem ClosePosition.step_sameSettings {a : Answer} {p : ClosePosition.Phase}
    {n : After ClosePosition.Phase ClosePosition.Reply}
    (h : ClosePosition.step cfg c w a p = (w', n)) : SameSettings w w' := by
  cases ClosePosition.step_cases h with
  | reduced => exact .accept fun _ _ e => by cases e
  | committed hc => exact .commit hc
  | failed | found | priced | account | flushed => rfl

theorem CancelOrder.step_sameSettings {a : Answer} {p : CancelOrder.Phase}
    {n : After CancelOrder.Phase Order} (h : CancelOrder.step cfg c w a p = (w', n)) :
    SameSettings w w' := by
  cases CancelOrder.step_cases h with
  | accepted => exact .accept fun _ _ e => by cases e
  | committed hc => exact .commit hc
  | failed | found | uncached | cached | refreshed => rfl

theorem SyncBalance.step_sameSettings {a : Answer} {p : SyncBalance.Phase}
    {n : After SyncBalance.Phase Account} (h : SyncBalance.step cfg c w a p = (w', n)) :
    SameSettings w w' := by
  cases p with
  | getAccount userId q =>
    simp only [SyncBalance.step] at h
    split at h <;> cases h <;> rfl
  | wallet o =>
    simp only [SyncBalance.step] at h
    split at h <;> cases h <;> rfl
  | commit o balance =>
    simp only [SyncBalance.step] at h
    split at h
    · cases h; rfl
    split at h
    · cases h; rfl
    · rename_i hc
      cases h
      exact .commit hc
  | refresh o =>
    simp only [SyncBalance.step] at h
    split at h <;> cases h <;> rfl

/-- Only `set_margin_type` changes a setting. -/
theorem handle_sameSettings {req : Request} {as : List Answer} {r : Except Failure Reply}
    (hreq : ∀ q, req ≠ .setMarginType q) (h : handle cfg c req as w = some (w', r)) :
    SameSettings w w' := by
  cases req with
  | createOrder payload =>
    obtain ⟨r', h', -⟩ := run_lift (CreateOrder.step cfg c) .createOrder .order (fun _ _ _ => rfl) h
    exact run_sameSettings (fun _ _ _ _ _ => CreateOrder.step_sameSettings) h'
  | closePosition userId symbol =>
    obtain ⟨r', h', -⟩ :=
      run_lift (ClosePosition.step cfg c) .closePosition .closed (fun _ _ _ => rfl) h
    exact run_sameSettings (fun _ _ _ _ _ => ClosePosition.step_sameSettings) h'
  | cancelOrder orderId userId =>
    obtain ⟨r', h', -⟩ := run_lift (CancelOrder.step cfg c) .cancelOrder .canceled (fun _ _ _ => rfl) h
    exact run_sameSettings (fun _ _ _ _ _ => CancelOrder.step_sameSettings) h'
  | syncBalance userId =>
    obtain ⟨r', h', -⟩ := run_lift (SyncBalance.step cfg c) .syncBalance .account (fun _ _ _ => rfl) h
    exact run_sameSettings (fun _ _ _ _ _ => SyncBalance.step_sameSettings) h'
  | setMarginType q => exact absurd rfl (hreq q)
  | applyLiquidation symbol =>
    obtain ⟨r', h', -⟩ := run_lift (ApplyLiquidation.step cfg c) .applyLiquidation
      (fun _ => .liquidated) (fun _ _ _ => rfl) h
    exact run_sameSettings (fun _ _ _ _ _ hs => .of_placed (ApplyLiquidation.step_placed hs)) h'

end

/-! ## Orders -/

namespace CreateOrder

variable {payload : OrderCreate} {as : List Answer} {w w' : World} {a : Answer} {p q : Phase cfg}
  {r : Except Failure Reply}

/-- The rest of a call behind its commit. -/
theorem refresh_run {s : Placed cfg} (h : run (step cfg c) as w (.refresh s) = some (w', r)) :
    w'.db = w.db ∧ ¬∃ x ∈ steps (step cfg c) as w (.refresh s), OpensIn c x.1 x.2.1 x.2.2 := by
  cases as with
  | nil => cases h
  | cons a as =>
    obtain ⟨v, n, hs⟩ : ∃ v n, step cfg c w a (.refresh s) = (v, n) := ⟨_, _, rfl⟩
    cases n with
    | await q => cases step_cases hs
    | done r' =>
      rw [run_done hs] at h
      cases h
      rw [steps_done hs]
      refine ⟨(step_done hs).1, ?_⟩
      rintro ⟨x, hx, hopens⟩
      rw [List.mem_singleton.mp hx] at hopens
      exact hopens

/-- A step that ends the call has opened nothing. -/
theorem not_opensIn_done (h : step cfg c w a p = (w', .done r)) : ¬OpensIn c w a p := by
  intro hopens
  cases p with
  | commit s position =>
    cases position with
    | none =>
      obtain ⟨hf, hc⟩ := hopens
      obtain ⟨v, hv⟩ := Option.ne_none_iff_exists'.mp hc
      simp only [step, hf, hv, Bool.false_eq_true, if_false] at h
      cases h
    | some => exact hopens
  | _ => exact hopens

theorem opensIn_commit {s : Placed cfg} (h : step cfg c w a (.commit s none) = (w', .await q)) :
    OpensIn c w a (.commit s none) := by
  simp only [step] at h
  split at h
  · cases h
  rename_i hf
  split at h
  · cases h
  · rename_i hc
    exact ⟨Bool.eq_false_iff.mpr hf, by rw [hc]; exact Option.some_ne_none _⟩

theorem Alone.db_eq {A : Answer → Prop} {db₀ : Db} (hI : Alone c db₀ payload A w p)
    (hp : ∀ s, p ≠ .refresh s) : w.db = db₀ := by
  cases p with
  | refresh s => exact absurd rfl (hp s)
  | _ => exact hI.1

/-- Before the commit, the call goes on. -/
theorem step_before (hp : ∀ s position, p ≠ .commit s position)
    (h : step cfg c w a p = (w', .await q)) : ¬OpensIn c w a p ∧ ∀ s, q ≠ .refresh s := by
  constructor
  · intro hopens
    cases p with
    | commit s position => exact hp s position rfl
    | _ => exact hopens
  · rintro s rfl
    cases step_cases h
    exact hp _ _ rfl

/-- The call opens a position exactly when it commits an order without one. -/
theorem run_opens {db₀ : Db} (hI : Alone c db₀ payload (fun _ => True) w p)
    (hp : ∀ s, p ≠ .refresh s) (h : run (step cfg c) as w p = some (w', r)) :
    (∃ x ∈ steps (step cfg c) as w p, OpensIn c x.1 x.2.1 x.2.2) ∧
        (∃ (s : Placed cfg) (i t : ℕ), Committed c db₀ payload (fun _ => True) s none i t w'.db) ∨
      ¬(∃ x ∈ steps (step cfg c) as w p, OpensIn c x.1 x.2.1 x.2.2) ∧
        (w'.db = db₀ ∨ ∃ (s : Placed cfg) (q : Position) (i t : ℕ),
          Committed c db₀ payload (fun _ => True) s (some q) i t w'.db) := by
  induction as generalizing w p with
  | nil => cases h
  | cons a as ih =>
    obtain ⟨v, n, hs⟩ : ∃ v n, step cfg c w a p = (v, n) := ⟨_, _, rfl⟩
    cases n with
    | done r' =>
      rw [run_done hs] at h
      cases h
      rw [steps_done hs]
      refine .inr ⟨?_, ?_⟩
      · rintro ⟨x, hx, hopens⟩
        rw [List.mem_singleton.mp hx] at hopens
        exact not_opensIn_done hs hopens
      · exact .inl ((step_done hs).1.trans (hI.db_eq hp))
    | await q =>
      rw [run_await hs] at h
      rw [steps_await hs]
      by_cases hcommit : ∃ s position, p = .commit s position
      · obtain ⟨s, position, rfl⟩ := hcommit
        obtain ⟨hw, hcurrent, hposition⟩ := hI
        cases step_cases hs with
        | committed hc =>
          obtain ⟨hdb, hnone⟩ := refresh_run h
          have hcommitted : Committed c db₀ payload (fun _ => True) s position a.rowId a.tradeId
              w'.db := ⟨hcurrent, hposition, by rw [hdb, ← hw]; exact World.commit_db hc⟩
          cases position with
          | none =>
            exact .inl ⟨⟨_, List.mem_cons_self, opensIn_commit hs⟩, s, _, _, hcommitted⟩
          | some q =>
            refine .inr ⟨?_, .inr ⟨s, q, _, _, hcommitted⟩⟩
            rintro ⟨x, hx, hopens⟩
            rcases List.mem_cons.mp hx with rfl | hx
            · exact hopens
            · exact hnone ⟨x, hx, hopens⟩
      · obtain ⟨hnot, hq⟩ := step_before (fun s position e => hcommit ⟨s, position, e⟩) hs
        have hrest : ((∃ x ∈ (w, a, p) :: steps (step cfg c) as v q, OpensIn c x.1 x.2.1 x.2.2) ↔
            ∃ x ∈ steps (step cfg c) as v q, OpensIn c x.1 x.2.1 x.2.2) := by
          rw [List.exists_mem_cons_iff]
          exact or_iff_right hnot
        rw [hrest]
        exact ih (alone_await trivial hI hs) hq h

end CreateOrder

/-! ## `set_margin_type` -/

namespace SetMarginType

variable {r : Request} {as : List Answer} {w w' : World} {res : Except Failure String}

/-- The user's live positions in the symbol get the type. -/
theorem flush_positions {db db' : Db} (hv : db.Valid c)
    (h : db.flush c (writes cfg r (db.positions.filter fun p => p.userId = r.userId)) = some db') :
    db'.positions = db.positions.map fun p =>
      if p.userId = r.userId ∧ p.symbol = cfg.upper r.symbol ∧ p.liquidated = false then
        { p with marginType := r.marginType }
      else p := by
  have hk : Keyed Position.id (db.positions.filter fun p => p.userId = r.userId) :=
    hv.positions.keyed.sublist (List.filter_sublist.map _)
  rw [flush_writes hk] at h
  rw [← Option.some.inj h]
  refine List.map_congr_left fun p hp => ?_
  have hmem : ∀ q, q ∈ touched cfg r (db.positions.filter fun p => p.userId = r.userId) ↔
      q ∈ db.positions ∧ q.userId = r.userId ∧ q.symbol = cfg.upper r.symbol ∧
        q.liquidated = false := by
    intro q
    simp only [touched, List.mem_filter, decide_eq_true_eq, and_assoc]
  by_cases hown : p.userId = r.userId ∧ p.symbol = cfg.upper r.symbol ∧ p.liquidated = false
  · have hk' : Keyed Position.id (touched cfg r (db.positions.filter fun p => p.userId = r.userId)) :=
      hk.sublist (List.filter_sublist.map _)
    rw [if_pos hown, hk'.findRow ((hmem p).mpr ⟨hp, hown⟩)]
    show change r p p = _
    rw [change, patch_id_self]
  · rw [if_neg hown]
    have hnone : findRow Position.id p.id
        (touched cfg r (db.positions.filter fun p => p.userId = r.userId)) = none := by
      refine findRow_none.mpr fun q hq hid => hown ?_
      obtain ⟨hq, hrest⟩ := (hmem q).mp hq
      rwa [hv.positions.keyed.eq_of_key hq hp hid] at hrest
    rw [hnone]
    rfl

/-- What the call does here and at the exchange. -/
theorem run_cases (h : run (step cfg c) as w (.changeMarginType r) = some (w', res)) :
    ¬(cfg.hasCredentials ∧ Accepts as) ∧ w'.db = w.db ∧ w'.placed = w.placed ∨
    (cfg.hasCredentials ∧ Accepts as) ∧
      (∀ s, exchangeMarginType w'.placed s =
        if cfg.upper r.symbol = s then r.marginType else exchangeMarginType w.placed s) ∧
      (DatabaseAnswers as ∧ w.db.flush c (writes cfg r (w.db.positions.filter fun p =>
          p.userId = r.userId)) = some w'.db ∨
        ¬DatabaseAnswers as ∧ w'.db = w.db) := by
  cases as with
  | nil => cases h
  | cons a as =>
    by_cases hc : cfg.hasCredentials
    · cases ha : a.exchange with
      | error text =>
        have hstep : step cfg c w a (.changeMarginType r) =
            (w, .done (.error (.http 400 text))) := by simp [step, hc, ha]
        rw [run_done hstep] at h
        cases h
        refine .inl ⟨?_, rfl, rfl⟩
        rintro ⟨-, b, hb, reply, he⟩
        cases hb
        cases ha.symm.trans he
      | ok reply =>
        have hstep : step cfg c w a (.changeMarginType r) =
            (w.accept (.changeMarginType (cfg.upper r.symbol) r.marginType),
              .await (.selectPositions r)) := by simp [step, hc, ha]
        rw [run_await hstep] at h
        refine .inr ⟨⟨hc, a, rfl, reply, ha⟩, ?_⟩
        rcases run_reflect h with ⟨hdb, -, db', hflush, rfl⟩ | ⟨hdb, -, rfl⟩
        · exact ⟨fun s => exchangeMarginType_accept w _ s _, .inl ⟨hdb, hflush⟩⟩
        · exact ⟨fun s => exchangeMarginType_accept w _ s _, .inr ⟨hdb, rfl⟩⟩
    · have hstep : step cfg c w a (.changeMarginType r) =
          (w, .done (.error (.http 400 "Exchange integration not configured"))) := by
        simp [step, hc]
      rw [run_done hstep] at h
      cases h
      exact .inl ⟨fun h => hc h.1, rfl, rfl⟩

end SetMarginType

/-! ## One request -/

section

variable {w w' : World}

/-- Each live position was one before, with its margin type. -/
def Carried (db db' : Db) : Prop :=
  ∀ p' ∈ db'.positions, p'.liquidated = false →
    ∃ p ∈ db.positions, p.liquidated = false ∧ p.symbol = p'.symbol ∧ p.marginType = p'.marginType

theorem Carried.of_positions {db db' : Db} (h : db'.positions = db.positions) : Carried db db' :=
  fun p hp hlive => ⟨p, h ▸ hp, hlive, rfl, rfl⟩

theorem Mirrors.carried (h : Mirrors w) (hs : SameSettings w w') (hc : Carried w.db w'.db) :
    Mirrors w' := by
  intro p' hp' hlive'
  obtain ⟨p, hp, hlive, hsymbol, htype⟩ := hc p' hp' hlive'
  rw [hs, ← hsymbol, ← htype]
  exact h p hp hlive

/-- Of a request that opens no position and changes no margin type. -/
theorem Effect.carried {db db' : Db} {req : Request} (hv : db.Valid c)
    (h : Effect cfg c (fun _ => True) db req db') (hcreate : ∀ payload, req ≠ .createOrder payload)
    (hset : ∀ r, req ≠ .setMarginType r) : Carried db db' := by
  cases h with
  | same => exact .of_positions rfl
  | @createOrder payload => exact absurd rfl (hcreate payload)
  | closePosition hc _ =>
    rw [hc.eq hv]
    intro p' hp' hlive'
    obtain ⟨p, hp, rfl⟩ := mem_modify.mp hp'
    split at hlive'
    · cases hlive'
    · rename_i hne
      rw [if_neg hne]
      exact ⟨p, hp, hlive', rfl, rfl⟩
  | cancelOrder hc =>
    obtain ⟨-, -, -, e⟩ := hc.eq hv
    exact .of_positions (by rw [e]; rfl)
  | syncBalance hc => exact .of_positions (by rw [hc.eq hv])
  | @setMarginType r => exact absurd rfl (hset r)
  | applyLiquidation hc =>
    rw [hc.eq hv]
    intro p' hp' hlive'
    obtain ⟨p, hp, rfl⟩ := List.mem_map.mp hp'
    split at hlive'
    · cases hlive'
    · rename_i hne
      rw [if_neg hne]
      exact ⟨p, hp, hlive', rfl, rfl⟩

/-- An order on top of a live position. -/
theorem CreateOrder.Committed.carried {db db' : Db} {payload : OrderCreate} {A : Answer → Prop}
    {s : CreateOrder.Placed cfg} {q : Position} {i t : ℕ} (hv : db.Valid c)
    (h : CreateOrder.Committed c db payload A s (some q) i t db') : Carried db db' := by
  obtain ⟨hq, -, -, hlive⟩ := h.mem
  rw [h.eq hv]
  intro p' hp' hlive'
  obtain ⟨p, hp, rfl⟩ := mem_modify.mp hp'
  split
  · exact ⟨q, hq, hlive, rfl, rfl⟩
  · rename_i hne
    rw [if_neg hne] at hlive'
    exact ⟨p, hp, hlive', rfl, rfl⟩

theorem createOrder_mirrors_iff {payload : OrderCreate} {as : List Answer}
    {r : Except Failure CreateOrder.Reply} (hv : w.db.Valid c) (hm : Mirrors w)
    (hs : SameSettings w w')
    (h : run (CreateOrder.step cfg c) as w (.selectUser payload) = some (w', r)) :
    Mirrors w' ↔ KeepsMirror cfg c w (.createOrder payload, as) := by
  have hI : CreateOrder.Alone c w.db payload (fun _ => True) w
      (.selectUser payload : CreateOrder.Phase cfg) := ⟨rfl, rfl⟩
  show _ ↔ (CreateOrder.Opens cfg c payload as w → _)
  rcases CreateOrder.run_opens hI (by simp) h with
    ⟨hopens, s, i, t, hc⟩ | ⟨hnot, hdb | ⟨s, q, i, t, hc⟩⟩
  · -- a new position, with the default
    have hpositions : w'.db.positions = w.db.positions ++ [storePosition c (s.position i)] := by
      rw [hc.eq hv]
      rfl
    have hsymbol : (storePosition c (s.position i)).symbol = payload.symbol :=
      congrArg OrderCreate.symbol hc.payload_eq
    constructor
    · intro hm' _
      have hnew := hm' (storePosition c (s.position i))
        (by rw [hpositions]; exact List.mem_append_right _ List.mem_cons_self) rfl
      rw [hsymbol, hs] at hnew
      exact hnew.symm
    · intro hdefault p hp hlive
      rw [hpositions] at hp
      rcases List.mem_append.mp hp with hp | hp
      · rw [hs]
        exact hm p hp hlive
      · rw [List.mem_singleton.mp hp, hsymbol, hs, hdefault hopens]
        rfl
  · refine iff_of_true (hm.carried hs (.of_positions (by rw [hdb]))) fun h => absurd h hnot
  · refine iff_of_true (hm.carried hs (hc.carried hv)) fun h => absurd h hnot

/-- After a change, the positions in its symbol decide. -/
theorem Mirrors.changed_iff (hm : Mirrors w) {symbol : String} {m : MarginType}
    (hset : ∀ s, exchangeMarginType w'.placed s =
      if symbol = s then m else exchangeMarginType w.placed s)
    (hother : ∀ p ∈ w'.db.positions, p.symbol ≠ symbol → p ∈ w.db.positions) :
    Mirrors w' ↔
      ∀ p ∈ w'.db.positions, p.symbol = symbol → p.liquidated = false → p.marginType = m := by
  constructor
  · intro hm' p hp hs hlive
    rw [hm' p hp hlive, hset, if_pos hs.symm]
  · intro h p hp hlive
    rw [hset]
    by_cases hs : p.symbol = symbol
    · rw [if_pos hs.symm]
      exact h p hp hs hlive
    · rw [if_neg (Ne.symm hs)]
      exact hm p (hother p hp hs) hlive

theorem setMarginType_mirrors_iff {q : SetMarginType.Request} {as : List Answer}
    {r : Except Failure String} (hv : w.db.Valid c) (hm : Mirrors w)
    (h : run (SetMarginType.step cfg c) as w (.changeMarginType q) = some (w', r)) :
    Mirrors w' ↔ KeepsMirror cfg c w (.setMarginType q, as) := by
  show _ ↔ (cfg.hasCredentials → Accepts as → _)
  rcases SetMarginType.run_cases h with ⟨hno, hdb, hplaced⟩ | ⟨⟨hcred, hacc⟩, hset, hdb⟩
  · exact iff_of_true (hm.carried (.of_placed hplaced) (.of_positions (by rw [hdb])))
      fun hcred hacc => absurd ⟨hcred, hacc⟩ hno
  rcases hdb with ⟨hdb, hflush⟩ | ⟨hdb, hsame⟩
  · -- the user's own positions in the symbol are updated
    have hpositions := SetMarginType.flush_positions hv hflush
    rw [hm.changed_iff hset, hpositions]
    · constructor
      · intro hm' _ _ p hp hs hlive
        by_cases hu : p.userId = q.userId
        · exact .inr ⟨hu, hdb⟩
        · refine .inl (hm' p (List.mem_map.mpr ⟨p, hp, ?_⟩) hs hlive)
          exact if_neg fun h => hu h.1
      · intro hkeeps p' hp' hs hlive
        obtain ⟨p, hp, rfl⟩ := List.mem_map.mp hp'
        split at hs
        · rename_i hown
          rw [if_pos hown]
        · rename_i hown
          rw [if_neg hown] at hlive ⊢
          exact (hkeeps hcred hacc p hp hs hlive).resolve_right
            fun h => hown ⟨h.1, hs, hlive⟩
    · intro p' hp' hne
      rw [hpositions] at hp'
      obtain ⟨p, hp, rfl⟩ := List.mem_map.mp hp'
      split at hne
      · rename_i hown
        exact absurd hown.2.1 hne
      · rename_i hown
        rw [if_neg hown]
        exact hp
  · rw [hm.changed_iff hset fun p hp _ => hsame ▸ hp, hsame]
    constructor
    · exact fun hm' _ _ p hp hs hlive => .inl (hm' p hp hs hlive)
    · exact fun hkeeps p hp hs hlive =>
        (hkeeps hcred hacc p hp hs hlive).resolve_right fun h => hdb h.2

/-- **One request.** From a state that mirrors the exchange, the condition is what it takes to stay
in one. -/
theorem handle_mirrors_iff {a : Request × List Answer} {r : Except Failure Reply}
    (hv : w.db.Valid c) (hm : Mirrors w) (h : handle cfg c a.1 a.2 w = some (w', r)) :
    Mirrors w' ↔ KeepsMirror cfg c w a := by
  obtain ⟨req, as⟩ := a
  have kept : (∀ payload, req ≠ .createOrder payload) → (∀ q, req ≠ .setMarginType q) →
      Mirrors w' := fun hcreate hset => hm.carried (handle_sameSettings hset h)
    ((handle_effect (fun _ _ => trivial) h).carried hv hcreate hset)
  cases req with
  | createOrder payload =>
    have hs := handle_sameSettings (fun q => by simp) h
    obtain ⟨r', h', -⟩ := run_lift (CreateOrder.step cfg c) .createOrder .order (fun _ _ _ => rfl) h
    exact createOrder_mirrors_iff hv hm hs h'
  | setMarginType q =>
    obtain ⟨r', h', -⟩ := run_lift (SetMarginType.step cfg c) .setMarginType .detail (fun _ _ _ => rfl) h
    exact setMarginType_mirrors_iff hv hm h'
  | closePosition | cancelOrder | syncBalance | applyLiquidation =>
    exact iff_of_true (kept (by simp) (by simp)) trivial

end

/-! ## Runs -/

/-- A ledger that mirrors the exchange, up to a request that does not meet the condition. -/
theorem mirrors_inductive (cfg : Config) (c : Column) :
    ((ledger cfg c).restrict (KeepsMirror cfg c)).Inductive fun w => w.db.Valid c ∧ Mirrors w where
  init w h := by
    refine ⟨h.valid, fun p hp => ?_⟩
    rw [h.positions] at hp
    cases hp
  step w a w' h hst := by
    obtain ⟨hv, hm⟩ := h
    obtain ⟨hkeeps, r, hrun⟩ := hst
    exact ⟨(handle_effect (A := fun _ => True) (fun _ _ => trivial) hrun).valid hv,
      (handle_mirrors_iff hv hm hrun).mpr hkeeps⟩

/-- **Margin types mirror the exchange** in every state that a run reaches whose requests all meet
the condition. Any other request, handled in such a state, leads to one that does not. -/
theorem margin_types_mirror {cfg : Config} {c : Column} {w : World}
    (hw : ((ledger cfg c).restrict (KeepsMirror cfg c)).Reach w) :
    Mirrors w ∧ ∀ a w', (ledger cfg c).step w a w' → (Mirrors w' ↔ KeepsMirror cfg c w a) := by
  obtain ⟨hv, hm⟩ := (mirrors_inductive cfg c).reach hw
  refine ⟨hm, fun a w' hst => ?_⟩
  obtain ⟨r, hrun⟩ := hst
  exact handle_mirrors_iff hv hm hrun

namespace Sample

/-- A request handled alone, computed. -/
def ledgerExec (w : World) (a : Request × List Answer) : Option World :=
  (handle config .exact a.1 a.2 w).map Prod.fst

theorem ledgerExec_step {w w' : World} {a : Request × List Answer}
    (h : ledgerExec w a = some w') : (ledger config .exact).step w a w' := by
  obtain ⟨⟨w₁, r⟩, hw, e⟩ := Option.map_eq_some_iff.mp h
  cases e
  exact ⟨r, hw⟩

theorem ledger_start : (ledger config .exact).init (start 1000) := seeded (by norm_num) rfl

/-- User 1 changes a symbol to ISOLATED, and the exchange accepts. -/
def isolating : Request × List Answer :=
  (.setMarginType ⟨1, "BTCUSDT", .isolated, none⟩, acceptedChange)

/-- User 1 buys 1 BTC. -/
def buying : Request × List Answer :=
  (.createOrder (order "BTCUSDT" .buy 1 0), accepted (dec 1 2) 1)

end Sample

open Sample in
/-- The change reaches a position of the user that was opened before it. -/
theorem margin_types_mirror_own :
    ∃ w, ((ledger config .exact).restrict (KeepsMirror config .exact)).Reach w ∧
      (w.db.positions.map Position.marginType) = [.isolated] ∧ Mirrors w := by
  have hrun : (ledgerExec (start 1000) buying).bind (fun w => (ledgerExec w isolating).map fun w' =>
        (w.db.positions.map Position.userId, w'.db.positions.map Position.marginType)) =
      some ([1], [.isolated]) := by
    decide +kernel
  obtain ⟨w, hw, h⟩ := Option.bind_eq_some_iff.mp hrun
  obtain ⟨w', hw', h⟩ := Option.map_eq_some_iff.mp h
  obtain ⟨husers, htypes⟩ := Prod.mk.inj h
  have hbuy : KeepsMirror config .exact (start 1000) buying := fun _ => rfl
  have hisolate : KeepsMirror config .exact w isolating := by
    intro _ _ p hp _ _
    have hu : p.userId ∈ [1] := husers ▸ List.mem_map_of_mem hp
    exact .inr ⟨List.mem_singleton.mp hu, by unfold DatabaseAnswers; decide⟩
  have hreach := (Sys.Reach.init (S := (ledger config .exact).restrict (KeepsMirror config .exact))
    ledger_start).step buying ⟨hbuy, ledgerExec_step hw⟩
  have hreach := hreach.step isolating ⟨hisolate, ledgerExec_step hw'⟩
  exact ⟨w', hreach, htypes, (margin_types_mirror hreach).1⟩

open Sample in
/-- A position that is opened behind a change has the column's default. -/
theorem opened_crossed : ∃ w, (ledger config .exact).Reach w ∧ ¬Mirrors w := by
  have hrun : ([isolating, buying].foldlM ledgerExec (start 1000)).map (fun w =>
        (w.db.positions.map fun p => (p.liquidated, p.marginType,
          exchangeMarginType w.placed p.symbol))) = some [(false, .crossed, .isolated)] := by
    decide +kernel
  obtain ⟨w, hw, h⟩ := Option.map_eq_some_iff.mp hrun
  refine ⟨w, .foldlM (fun _ _ _ _ h => ledgerExec_step h) (.init ledger_start) hw, fun hm => ?_⟩
  obtain ⟨p, hp, e⟩ := List.mem_map.mp (h ▸ List.mem_singleton_self _ :
    (false, MarginType.crossed, MarginType.isolated) ∈ w.db.positions.map _)
  simp only [Prod.mk.injEq] at e
  obtain ⟨hlive, hcrossed, hisolated⟩ := e
  have := hm p hp hlive
  rw [hcrossed, hisolated] at this
  cases this

end CryptoExchange
