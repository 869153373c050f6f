import CryptoExchange.Ledger.Exposure
import CryptoExchange.Sessions.Reservation

/-!
# The exposure limits under concurrent orders

The risk check of `create_order` adds the order's notional to the exposures that the call has read;
the position is inserted when the exchange has replied. What other calls commit in between is not
in the sums.

* `orderCalls`: any number of calls, interleaved; `OnNewSymbol`: a call begins when its user has no
  live position in the symbol and no other order in flight there.
* `First`: such a call inserts a position, and nobody else touches the user's symbol before.
* `Room`: what is left below the limits when a call commits. There is room when the exposures have
  not risen since the call read them (`Unraised`).
-/

namespace CryptoExchange

open Lib Db

variable {cfg : Config} {c : Column} {db db' : Db}

/-- Both limits of the risk check hold of the tables. -/
structure Capped (cfg : Config) (db : Db) : Prop where
  global : db.globalExposure ≤ cfg.globalExposureThreshold
  user : ∀ u ∈ db.users, db.userExposure u.id ≤ userExposureLimit cfg (riskTier cfg u)

theorem holds_exposureOf (hv : db.Valid c) (f : Position → Bool) :
    c.Holds (exposureOf f db.positions) := by
  refine c.holds_sum fun x hx => ?_
  obtain ⟨p, hp, rfl⟩ := List.mem_map.mp hx
  unfold Position.exposed
  split
  · exact (hv.positions.rows p hp).2.2.1
  · exact c.holds_zero

namespace CreateOrder

/-! ## What a call knows -/

/-- The user and the symbol of a call that has begun and has not committed. -/
def pending : Phase cfg → Option (ℤ × String)
  | .selectUser _ | .refresh _ => none
  | .getAccount payload _ _ => some (payload.userId, payload.symbol)
  | .getPrice s | .userExposure s _ | .globalExposure s _ _ =>
    some (s.payload.userId, s.payload.symbol)
  | .newOrder s | .flushOrder s _ => some (s.payload.userId, s.payload.symbol)
  | .redisSet s _ | .selectPosition s | .commit s _ => some (s.payload.userId, s.payload.symbol)

/-- The user is as read, the symbol has no live position yet, and none was found. -/
def First (db : Db) : Phase cfg → Prop
  | .selectUser _ | .refresh _ => True
  | .getAccount payload user _ =>
    db.selectUser payload.userId = [user] ∧ db.livePositionsOf payload.userId payload.symbol = []
  | .getPrice s | .userExposure s _ | .globalExposure s _ _ =>
    db.selectUser s.payload.userId = [s.user] ∧
      db.livePositionsOf s.payload.userId s.payload.symbol = []
  | .newOrder s | .flushOrder s _ =>
    db.selectUser s.payload.userId = [s.user] ∧
      db.livePositionsOf s.payload.userId s.payload.symbol = []
  | .redisSet s _ | .selectPosition s =>
    db.selectUser s.payload.userId = [s.user] ∧
      db.livePositionsOf s.payload.userId s.payload.symbol = []
  | .commit s position =>
    (db.selectUser s.payload.userId = [s.user] ∧
      db.livePositionsOf s.payload.userId s.payload.symbol = []) ∧ position = none

/-- It concerns the users, and the live positions in the symbol of the call. -/
theorem First.congr {p : Phase cfg} (h : First db p) (hu : db'.users = db.users)
    (hl : ∀ k ∈ pending p, db'.livePositionsOf k.1 k.2 = db.livePositionsOf k.1 k.2) :
    First db' p := by
  have hs : ∀ id, db'.selectUser id = db.selectUser id := fun id => by
    rw [selectUser, selectUser, hu]
  cases p with
  | selectUser payload | refresh s => trivial
  | commit s position => exact ⟨⟨(hs _).trans h.1.1, (hl _ rfl).trans h.1.2⟩, h.2⟩
  | _ => exact ⟨(hs _).trans h.1, (hl _ rfl).trans h.2⟩

/-- A call that begins. -/
def Begins (db : Db) : Phase cfg → Prop
  | .selectUser payload => db.livePositionsOf payload.userId payload.symbol = []
  | _ => True

theorem first_await {w w' : World} {a : Answer} {p p' : Phase cfg} (hf : First w.db p)
    (hb : Begins w.db p) (h : step cfg c w a p = (w', .await p')) : First w'.db p' := by
  cases step_cases h with
  | user hs => exact ⟨scalarOneOrNone_some hs, hb⟩
  | positioned hp =>
    refine ⟨hf, ?_⟩
    rw [hf.2] at hp
    cases hp
    rfl
  | committed => trivial
  | _ => exact hf

/-- The symbol stays the call's until the commit. -/
theorem pending_await {w w' : World} {a : Answer} {p p' : Phase cfg}
    (h : step cfg c w a p = (w', .await p')) :
    pending p' = none ∨ pending p' = pending p ∨
      ∃ payload, p = .selectUser payload ∧
        pending p' = some (payload.userId, payload.symbol) := by
  cases step_cases h with
  | user => exact .inr (.inr ⟨_, rfl, rfl⟩)
  | committed => exact .inl rfl
  | _ => exact .inr (.inl rfl)

/-! ## The commit -/

variable {s : Placed cfg} {i t : ℕ}

/-- The commit of a first order. -/
theorem flush_first (h : db.flush c (s.writes none i t) = some db') :
    db'.positions = db.positions ++ [storePosition c (s.position i)] := by
  rw [flush_tables h]
  rfl

theorem live_first (h : db.flush c (s.writes none i t) = some db') {userId : ℤ} {symbol : String}
    (hne : (s.payload.userId, s.payload.symbol) ≠ (userId, symbol)) :
    db'.livePositionsOf userId symbol = db.livePositionsOf userId symbol := by
  rw [livePositionsOf, flush_first h, List.filter_append, livePositionsOf,
    List.filter_eq_nil_iff (l := [_]) |>.mpr, List.append_nil]
  intro p hp
  rw [List.mem_singleton.mp hp, decide_eq_true_eq]
  rintro ⟨hu, hs, -⟩
  exact hne (Prod.ext hu hs)

/-- The order's notional, as the column keeps it. -/
def Placed.notional (c : Column) (s : Placed cfg) : ℚ := c.store (s.orderSize * s.price)

theorem exposureOf_first (h : db.flush c (s.writes none i t) = some db') (f : Position → Bool) :
    exposureOf f db'.positions = exposureOf f db.positions +
      if f (storePosition c (s.position i)) then s.notional c else 0 := by
  rw [flush_first h, exposureOf_append, Position.exposed]
  congr 1
  show (if _ ∧ false = false then c.store (|s.signedQty| * s.price) else 0) = _
  rw [s.abs_signedQty]
  simp [Placed.notional]

/-- The order fits below the limits, with the exposures that the tables have now. -/
structure Room (c : Column) (db : Db) (s : Placed cfg) : Prop where
  global : db.globalExposure + s.notional c ≤ cfg.globalExposureThreshold
  user : db.userExposure s.payload.userId + s.notional c ≤
    userExposureLimit cfg (riskTier cfg s.user)

/-- **A first order keeps the limits** exactly when there is room for it. -/
theorem capped_iff (hcap : Capped cfg db) (hu : db.selectUser s.payload.userId = [s.user])
    (h : db.flush c (s.writes none i t) = some db') : Capped cfg db' ↔ Room c db s := by
  have hglobal : db'.globalExposure = db.globalExposure + s.notional c := by
    rw [globalExposure_eq, globalExposure_eq, exposureOf_first h, if_pos rfl]
  have hown : db'.userExposure s.payload.userId =
      db.userExposure s.payload.userId + s.notional c := by
    have e : (storePosition c (s.position i)).userId = s.payload.userId := rfl
    rw [userExposure_eq, userExposure_eq, exposureOf_first h, if_pos (decide_eq_true e)]
  have hother : ∀ id, id ≠ s.payload.userId → db'.userExposure id = db.userExposure id := by
    intro id hne
    rw [userExposure_eq, userExposure_eq, exposureOf_first h, if_neg, add_zero]
    rw [decide_eq_true_eq]
    exact fun e => hne e.symm
  have hmem : s.user ∈ db.users ∧ s.user.id = s.payload.userId := by
    have : s.user ∈ db.selectUser s.payload.userId := by rw [hu]; exact List.mem_cons_self
    simpa [selectUser] using this
  constructor
  · intro hcap'
    refine ⟨hglobal ▸ hcap'.global, ?_⟩
    have := hcap'.user s.user ((flush_users h).symm ▸ hmem.1)
    rwa [hmem.2, hown] at this
  · intro hr
    refine ⟨hglobal ▸ hr.global, fun u hmu => ?_⟩
    rw [flush_users h] at hmu
    by_cases e : u.id = s.payload.userId
    · have hsel : u ∈ db.selectUser s.payload.userId := by simp [selectUser, hmu, e]
      rw [hu, List.mem_singleton] at hsel
      rw [e, hown, hsel]
      exact hr.user
    · rw [hother u.id e]
      exact hcap.user u hmu

/-- What the check allowed still fits when the exposures have not risen. -/
theorem Room.of_le (hv : db.Valid c) (hc : c.Holds cfg.globalExposureThreshold)
    (hl : ∀ tier, c.Holds (userExposureLimit cfg tier))
    (hglobal : db.globalExposure ≤ s.globalExposure)
    (huser : db.userExposure s.payload.userId ≤ s.userExposure) : Room c db s := by
  have hg := s.approved.global_le
  have hu := s.approved.user_le
  rw [s.approved.globalExposureAfter] at hg
  rw [s.approved.userExposureAfter] at hu
  change s.globalExposure + s.orderSize * s.price ≤ _ at hg
  change s.userExposure + s.orderSize * s.price ≤ userExposureLimit cfg (riskTier cfg s.user) at hu
  have hgh : c.Holds db.globalExposure := globalExposure_eq db ▸ holds_exposureOf hv _
  have huh : c.Holds (db.userExposure s.payload.userId) :=
    userExposure_eq db s.payload.userId ▸ holds_exposureOf hv _
  have h₁ : s.notional c ≤ cfg.globalExposureThreshold - db.globalExposure :=
    (hc.sub hgh).store_le (by linarith)
  have h₂ : s.notional c ≤
      userExposureLimit cfg (riskTier cfg s.user) - db.userExposure s.payload.userId :=
    ((hl _).sub huh).store_le (by linarith)
  exact ⟨by linarith, by linarith⟩

end CreateOrder

/-! ## Calls on new symbols -/

/-- Any number of `create_order` calls, interleaved. -/
def orderCalls (cfg : Config) (c : Column) (init : Db → Prop) : Sys :=
  interleave (CreateOrder.step cfg c) fun w ts =>
    init w.db ∧ ∀ t ∈ ts, ∃ payload, t = .await (.selectUser payload)

/-- The tables, and how far the calls have come. -/
abbrev OrderState (cfg : Config) : Type :=
  World × List (After (CreateOrder.Phase cfg) CreateOrder.Reply)

/-- The user and the symbol of a call in flight. -/
def inFlight : After (CreateOrder.Phase cfg) CreateOrder.Reply → Option (ℤ × String)
  | .await p => CreateOrder.pending p
  | .done _ => none

/-- A call begins when its user has no live position in the symbol, and no other order in flight
there. -/
def OnNewSymbol (s : OrderState cfg) (act : ℕ × Answer) : Prop :=
  ∀ payload, s.2[act.1]? = some (.await (.selectUser payload)) →
    s.1.db.livePositionsOf payload.userId payload.symbol = [] ∧
    ∀ t ∈ s.2, inFlight t ≠ some (payload.userId, payload.symbol)

/-- Every call in flight is the first in its symbol, and no two are in one symbol. -/
structure Apart (c : Column) (s : OrderState cfg) : Prop where
  valid : s.1.db.Valid c
  first : ∀ p, .await p ∈ s.2 → CreateOrder.First s.1.db p
  apart : ∀ (i j : ℕ) (p q : CreateOrder.Phase cfg) (k : ℤ × String),
    s.2[i]? = some (.await p) → s.2[j]? = some (.await q) →
      CreateOrder.pending p = some k → CreateOrder.pending q = some k → i = j

theorem getElem?_set_some {α : Type} {l : List α} {i j : ℕ} {x y : α}
    (h : (l.set i y)[j]? = some x) : i = j ∧ x = y ∨ i ≠ j ∧ l[j]? = some x := by
  rw [List.getElem?_set] at h
  by_cases e : i = j
  · rw [if_pos e] at h
    split at h
    · exact .inl ⟨e, (Option.some.inj h).symm⟩
    · cases h
  · rw [if_neg e] at h
    exact .inr ⟨e, h⟩

/-- What a step leaves of the call's claim on its symbol is its own. -/
theorem Apart.others {s : OrderState cfg} {act : ℕ × Answer} {p p' q : CreateOrder.Phase cfg}
    {w' : World} {j : ℕ} {k : ℤ × String} (h : Apart c s) (ho : OnNewSymbol s act)
    (hp : s.2[act.1]? = some (.await p))
    (hs : CreateOrder.step cfg c s.1 act.2 p = (w', .await p')) (hj : act.1 ≠ j)
    (hq : s.2[j]? = some (.await q)) (hk : CreateOrder.pending q = some k) :
    CreateOrder.pending p' ≠ some k := by
  intro hk'
  rcases CreateOrder.pending_await hs with e | e | ⟨payload, rfl, e⟩
  · rw [e] at hk'
    cases hk'
  · exact hj (h.apart _ _ _ _ _ hp hq (e ▸ hk') hk)
  · refine (ho payload hp).2 _ (List.mem_of_getElem? hq) ?_
    rw [inFlight, hk, ← hk', e]

theorem Apart.step {s s' : OrderState cfg} {act : ℕ × Answer} {init : Db → Prop}
    (h : Apart c s) (ho : OnNewSymbol s act) (hst : (orderCalls cfg c init).step s act s') :
    Apart c s' := by
  obtain ⟨p, hp, rfl⟩ := hst
  obtain ⟨w', n, hs⟩ : ∃ w' n, CreateOrder.step cfg c s.1 act.2 p = (w', n) := ⟨_, _, rfl⟩
  have hfirst := h.first p (List.mem_of_getElem? hp)
  rw [hs]
  refine ⟨?_, fun q hq => ?_, fun i j q r k hq hr hk hk' => ?_⟩
  · rcases CreateOrder.step_db hs with ⟨e, -⟩ | ⟨t, position, -, -, hf⟩
    · exact e ▸ h.valid
    · exact h.valid.flush hf
  · obtain ⟨j, hj⟩ := List.mem_iff_getElem?.mp hq
    rcases getElem?_set_some hj with ⟨rfl, rfl⟩ | ⟨hne, hj⟩
    · refine CreateOrder.first_await hfirst ?_ hs
      cases p with
      | selectUser payload => exact (ho payload hp).1
      | _ => trivial
    · have hfq := h.first q (List.mem_of_getElem? hj)
      rcases CreateOrder.step_db hs with ⟨e, -⟩ | ⟨t, position, rfl, -, hf⟩
      · exact e ▸ hfq
      · obtain ⟨-, rfl⟩ := hfirst
        refine hfq.congr (flush_users hf) fun k hk => CreateOrder.live_first hf fun e => ?_
        -- the committing call has this symbol to itself
        exact hne (h.apart _ _ _ _ k hp hj (congrArg some e) hk)
  · rcases getElem?_set_some hq with ⟨rfl, rfl⟩ | ⟨hi, hq'⟩ <;>
      rcases getElem?_set_some hr with ⟨rfl, e⟩ | ⟨hj, hr'⟩
    · rfl
    · exact absurd hk (h.others ho hp hs hj hr' hk')
    · subst e
      exact absurd hk' (h.others ho hp hs hi hq' hk)
    · exact h.apart _ _ _ _ _ hq' hr' hk hk'

/-- The tables are within the limits, and as the constraints say. -/
def StartsCapped (cfg : Config) (c : Column) (db : Db) : Prop := db.Valid c ∧ Capped cfg db

theorem apart (cfg : Config) (c : Column) :
    ((orderCalls cfg c (StartsCapped cfg c)).restrict OnNewSymbol).Inductive (Apart c) where
  init s h := by
    obtain ⟨⟨hv, -⟩, hts⟩ := h
    have hpending : ∀ (i : ℕ) (p : CreateOrder.Phase cfg), s.2[i]? = some (.await p) →
        ∃ payload, p = .selectUser payload := by
      intro i p hp
      obtain ⟨payload, e⟩ := hts _ (List.mem_of_getElem? hp)
      cases e
      exact ⟨payload, rfl⟩
    refine ⟨hv, fun p hp => ?_, fun i j p q k hp _ hk => ?_⟩
    · obtain ⟨i, hi⟩ := List.mem_iff_getElem?.mp hp
      obtain ⟨payload, rfl⟩ := hpending i p hi
      trivial
    · obtain ⟨payload, rfl⟩ := hpending i p hp
      cases hk
  step s act s' h hst := h.step hst.1 hst.2

/-! ## The result -/

/-- When a call commits, the exposures have not risen since it read them. -/
def Unraised (w : World) (_ : Answer) : CreateOrder.Phase cfg → Prop
  | .commit s _ => w.db.globalExposure ≤ s.globalExposure ∧
      w.db.userExposure s.payload.userId ≤ s.userExposure
  | _ => True

/-- When a call commits, its order fits below the limits. -/
def Roomy (c : Column) (w : World) (a : Answer) : CreateOrder.Phase cfg → Prop
  | .commit s position => a.fails = false →
      w.db.flush c (s.writes position a.rowId a.tradeId) ≠ none → CreateOrder.Room c w.db s
  | _ => True

/-- A step keeps the limits exactly when there is room for what it commits. -/
theorem capped_step_iff {s s' : OrderState cfg} {act : ℕ × Answer} {init : Db → Prop}
    (h : Apart c s) (hcap : Capped cfg s.1.db) (hst : (orderCalls cfg c init).step s act s') :
    Capped cfg s'.1.db ↔ StepMeets (Roomy c) s act := by
  obtain ⟨p, hp, rfl⟩ := hst
  have hfirst := h.first p (List.mem_of_getElem? hp)
  have hmeets : StepMeets (Roomy c) s act ↔ Roomy c s.1 act.2 p := by
    refine ⟨fun hm => hm p hp, fun hr q hq => ?_⟩
    cases hp.symm.trans hq
    exact hr
  rw [hmeets]
  obtain ⟨w', n, hs⟩ : ∃ w' n, CreateOrder.step cfg c s.1 act.2 p = (w', n) := ⟨_, _, rfl⟩
  rw [hs]
  cases p with
  | commit t position =>
    obtain ⟨⟨hu, -⟩, rfl⟩ := hfirst
    simp only [CreateOrder.step] at hs
    by_cases hf : act.2.fails = true
    · rw [if_pos hf] at hs
      cases hs
      simp [Roomy, hf, hcap]
    · rw [if_neg hf] at hs
      have hf : act.2.fails = false := by simpa using hf
      cases hflush : s.1.db.flush c (t.writes none act.2.rowId act.2.tradeId) with
      | none =>
        simp only [World.commit, hflush, Option.map_none] at hs
        cases hs
        simp [Roomy, hflush, hcap]
      | some db' =>
        simp only [World.commit, hflush, Option.map_some] at hs
        cases hs
        have hiff := CreateOrder.capped_iff hcap hu hflush
        simp [Roomy, hf, hflush, hiff]
  | _ =>
    rcases CreateOrder.step_db hs with ⟨e, -⟩ | ⟨t, position, e, -⟩
    · exact ⟨fun _ => trivial, fun _ => e ▸ hcap⟩
    · cases e

/-- **The exposure limits** hold in every state of a run in which the exposures have not risen, when
a call commits, since it read them; and a step breaks them exactly when it commits an order for which
the tables leave no room. -/
theorem exposures_capped (cfg : Config) (c : Column) :
    (c.Holds cfg.globalExposureThreshold → (∀ tier, c.Holds (userExposureLimit cfg tier)) →
      ∀ s, (((orderCalls cfg c (StartsCapped cfg c)).restrict OnNewSymbol).restrict
        (StepMeets Unraised)).Reach s → Capped cfg s.1.db) ∧
    ∀ s act s', ((orderCalls cfg c (StartsCapped cfg c)).restrict OnNewSymbol).Reach s →
      Capped cfg s.1.db → (orderCalls cfg c (StartsCapped cfg c)).step s act s' →
      (Capped cfg s'.1.db ↔ StepMeets (Roomy c) s act) := by
  constructor
  · intro hc hl
    have hI : (((orderCalls cfg c (StartsCapped cfg c)).restrict OnNewSymbol).restrict
        (StepMeets Unraised)).Inductive fun s => Apart c s ∧ Capped cfg s.1.db := by
      refine ⟨fun s hs => ⟨(apart cfg c).init s hs, hs.1.2⟩, fun s act s' hs hst => ?_⟩
      obtain ⟨ha, hcap⟩ := hs
      obtain ⟨hm, ho, hst⟩ := hst
      refine ⟨ha.step ho hst, (capped_step_iff ha hcap hst).mpr fun p hp => ?_⟩
      cases p with
      | commit t position =>
        intro _ _
        obtain ⟨hg, hu⟩ := hm _ hp
        exact .of_le ha.valid hc hl hg hu
      | _ => trivial
    exact fun s hs => (hI.reach hs).2
  · intro s act s' hs hcap hst
    exact capped_step_iff ((apart cfg c).reach hs) hcap hst

/-! ## Two large orders -/

namespace Sample

/-- Two calls of the user, for 4000 BTC and 4000 ETH, and money for both. -/
def largeOrders : OrderState config :=
  (start 1000000, [.await (.selectUser (order "BTCUSDT" .buy 4 3)),
    .await (.selectUser (order "ETHUSDT" .buy 4 3))])

theorem largeOrders_init :
    (orderCalls config (.numeric 8) (StartsCapped config (.numeric 8))).init largeOrders := by
  have hb : (Column.numeric 8).Holds 1000000 := by decide +kernel
  refine ⟨⟨(seeded (by norm_num) hb).valid, ⟨by decide +kernel, by decide +kernel⟩⟩,
    fun t ht => ?_⟩
  simp only [largeOrders, List.mem_cons, List.not_mem_nil, or_false] at ht
  rcases ht with rfl | rfl
  · exact ⟨_, rfl⟩
  · exact ⟨_, rfl⟩

instance (w : World) (a : Answer) (p : CreateOrder.Phase config) : Decidable (Unraised w a p) := by
  unfold Unraised
  split <;> infer_instance

instance (s : OrderState config) (act : ℕ × Answer) : Decidable (OnNewSymbol s act) :=
  match h : s.2[act.1]? with
  | some (.await (.selectUser payload)) =>
    decidable_of_iff (s.1.db.livePositionsOf payload.userId payload.symbol = [] ∧
        ∀ t ∈ s.2, inFlight t ≠ some (payload.userId, payload.symbol))
      ⟨fun hc q hq => by cases h.symm.trans hq; exact hc, fun hc => hc payload h⟩
  | none | some (.done _) | some (.await (.getAccount ..)) | some (.await (.getPrice _))
  | some (.await (.userExposure ..)) | some (.await (.globalExposure ..))
  | some (.await (.newOrder _)) | some (.await (.flushOrder ..)) | some (.await (.redisSet ..))
  | some (.await (.selectPosition _)) | some (.await (.commit ..)) | some (.await (.refresh _)) =>
    .isTrue fun q hq => by cases h.symm.trans hq

/-- A step on a new symbol, computed. -/
def orderExec (C : World → Answer → CreateOrder.Phase config → Prop)
    [∀ w a p, Decidable (C w a p)] (s : OrderState config) (act : ℕ × Answer) :
    Option (OrderState config) :=
  if OnNewSymbol s act then exec (CreateOrder.step config (.numeric 8)) C s act else none

theorem orderExec_step {C : World → Answer → CreateOrder.Phase config → Prop}
    [∀ w a p, Decidable (C w a p)] {init : Db → Prop} {s s' : OrderState config}
    {act : ℕ × Answer} (h : orderExec C s act = some s') :
    (((orderCalls config (.numeric 8) init).restrict OnNewSymbol).restrict
      (StepMeets C)).step s act s' := by
  obtain ⟨ho, h⟩ := Option.ite_none_right_eq_some.mp h
  have hst : ((orderCalls config (.numeric 8) init).restrict (StepMeets C)).step s act s' :=
    exec_step h
  exact ⟨hst.1, ho, hst.2⟩

/-- The second call runs while the first waits for the exchange. -/
def bothChecked : List (ℕ × Answer) :=
  ((accepted (dec 1 2) 2).take 5).map ((0, ·)) ++ (accepted (dec 1 2) 1).map ((1, ·)) ++
    ((accepted (dec 1 2) 2).drop 5).map ((0, ·))

/-- One call after the other, the second at a lower price. -/
def secondSmaller : List (ℕ × Answer) :=
  (accepted (dec 1 2) 1).map ((0, ·)) ++ (accepted (dec 2 1) 2).map ((1, ·))

theorem config_holds :
    (Column.numeric 8).Holds config.globalExposureThreshold ∧
      ∀ tier, (Column.numeric 8).Holds (userExposureLimit config tier) := by
  refine ⟨by decide +kernel, fun tier => ?_⟩
  unfold userExposureLimit
  cases h : userExposureFraction.lookup tier with
  | none => decide +kernel
  | some x =>
    obtain ⟨t, ht⟩ := lookup_mem h
    simp only [userExposureFraction, List.mem_cons, Prod.mk.injEq, List.not_mem_nil, or_false] at ht
    rcases ht with ⟨-, rfl⟩ | ⟨-, rfl⟩ | ⟨-, rfl⟩ <;> decide +kernel

end Sample

open Sample in
/-- The result for two calls in turn: the exposures are 480000. -/
theorem exposures_capped_inTurn :
    ∃ s, (((orderCalls config (.numeric 8) (StartsCapped config (.numeric 8))).restrict
        OnNewSymbol).restrict (StepMeets Unraised)).Reach s ∧
      s.1.db.globalExposure = 480000 ∧ Capped config s.1.db := by
  have hrun : (secondSmaller.foldlM (orderExec Unraised) largeOrders).map
      (fun s => s.1.db.globalExposure) = some 480000 := by decide +kernel
  obtain ⟨s, hs, h⟩ := Option.map_eq_some_iff.mp hrun
  have hreach : (((orderCalls config (.numeric 8) (StartsCapped config (.numeric 8))).restrict
      OnNewSymbol).restrict (StepMeets Unraised)).Reach s :=
    .foldlM (f := orderExec Unraised) (fun _ _ _ _ h => orderExec_step h)
      (.init largeOrders_init) hs
  exact ⟨s, hreach, h, (exposures_capped config (.numeric 8)).1 config_holds.1 config_holds.2 s
    hreach⟩

open Sample in
/-- Both calls are checked against exposures of 0, and the user's exposure is 800000, with a limit of
500000. -/
theorem exposures_overshot :
    ∃ s, ((orderCalls config (.numeric 8) (StartsCapped config (.numeric 8))).restrict
        OnNewSymbol).Reach s ∧
      ∃ u ∈ s.1.db.users, userExposureLimit config (riskTier config u) = 500000 ∧
        s.1.db.userExposure u.id = 800000 := by
  have hrun : (bothChecked.foldlM (orderExec fun _ _ _ => True) largeOrders).map
      (fun s => s.1.db.users.map fun u =>
        (userExposureLimit config (riskTier config u), s.1.db.userExposure u.id)) =
      some [(500000, 800000)] := by decide +kernel
  obtain ⟨s, hs, h⟩ := Option.map_eq_some_iff.mp hrun
  obtain ⟨u, hu, h⟩ := List.map_eq_singleton_iff.mp h
  obtain ⟨hlimit, hexposure⟩ := Prod.mk.inj h
  have hreach : (((orderCalls config (.numeric 8) (StartsCapped config (.numeric 8))).restrict
      OnNewSymbol).restrict (StepMeets fun _ _ _ => True)).Reach s :=
    .foldlM (f := orderExec fun _ _ _ => True) (fun _ _ _ _ h => orderExec_step h)
      (.init largeOrders_init) hs
  exact ⟨s, hreach.of_restrict, u, by rw [hu]; exact List.mem_cons_self, hlimit, hexposure⟩

end CryptoExchange
