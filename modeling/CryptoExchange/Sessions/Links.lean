import CryptoExchange.Ledger.Cancel

/-!
# Links to the exchange's orders

`create_order` writes the exchange's `orderId` to the Redis key `exchange_order:{id}`, which
expires after a day, and `cancel_order` reads it there. Without a link it cancels the local order
only. A limit order is good till cancelled: it outlives its link.

* `LinkState`: the world with a clock, the keys' deadlines, the sequence of the order ids, and a
  record of which orders the exchange accepted with an `orderId` and which were set to `CANCELED`.
* `linkSessions`: any number of `create_order` and `cancel_order` calls, interleaved, with time
  passing before each step.
* `HasLink`: what `create_order` leaves for an order of the tables. It holds of every order that
  `cancel_order` finds, and time takes only the key away.
* `cancel_reaches_exchange`: in runs that look a link up while it is there (`StillLinked`), what is
  `CANCELED` is cancelled at the exchange. `canceled_but_resting` cancels after a day.

Times are microseconds.
-/

namespace CryptoExchange

open Lib Db

variable {cfg : Config} {c : Column} {db db' : Db}

structure LinkState where
  world : World
  now : ℕ
  /-- When the key of an order expires. -/
  expires : ℕ → ℕ
  /-- The sequence has given the ids below. -/
  nextId : ℕ
  /-- The orders that the exchange accepted with an `orderId`. -/
  accepted : List (Order × ℤ)
  /-- The orders that were set to `CANCELED`. -/
  canceled : List ℕ

/-- `ex=86400`. -/
def linkTtl : ℕ := 86400 * 1000000

namespace LinkState

/-- Time passes, and keys expire. -/
def elapse (g : LinkState) (t : ℕ) : LinkState :=
  { g with
    now := g.now + t
    world := { g.world with
      redis := fun id => if g.now + t < g.expires id then g.world.redis id else none } }

/-- The step of a call at a moment. The flush of an order takes an id that the sequence has not
given before; a link that is set expires in a day. -/
def act (cfg : Config) (c : Column) (g : LinkState) (a : Answer) (t : Task cfg) :
    LinkState × Next (Task cfg) (Except Failure Reply) :=
  match t with
  | .createOrder (.flushOrder s reply) =>
    let id := max a.rowId g.nextId
    let (world, n) := Task.step cfg c g.world { a with rowId := id } t
    let order := ({ s with orderId := id, reply } : CreateOrder.Placed cfg).order
    let accepted := if n.isDone then [] else (reply.orderId.map fun x => (order, x)).toList
    ({ g with world, nextId := id + 1, accepted := g.accepted ++ accepted }, n)
  | .createOrder (.redisSet s _) =>
    let (world, n) := Task.step cfg c g.world a t
    let expires :=
      if n.isDone then g.expires else Function.update g.expires s.orderId (g.now + linkTtl)
    ({ g with world, expires }, n)
  | .cancelOrder (.commit order) =>
    let (world, n) := Task.step cfg c g.world a t
    let canceled := if n.isDone then g.canceled else g.canceled ++ [order.id]
    ({ g with world, canceled }, n)
  | t =>
    let (world, n) := Task.step cfg c g.world a t
    ({ g with world }, n)

/-- A step, and the time that passes before it. -/
def step (cfg : Config) (c : Column) (g : LinkState) (a : ℕ × Answer) (t : Task cfg) :
    LinkState × Next (Task cfg) (Except Failure Reply) :=
  (g.elapse a.1).act cfg c a.2 t

end LinkState

/-- The tasks of a call of `create_order` or `cancel_order` that starts. -/
def StartsOrCancels (t : Next (Task cfg) (Except Failure Reply)) : Prop :=
  (∃ payload, t = .await (.createOrder (.selectUser payload))) ∨
    ∃ orderId userId, t = .await (.cancelOrder (.selectOrder orderId userId))

/-- Any tables and links; the sequence is ahead of them. -/
structure LinkStart (g : LinkState) (ts : List (Next (Task cfg) (Except Failure Reply))) :
    Prop where
  orders : ∀ o ∈ g.world.db.orders, o.id < g.nextId
  redis : ∀ id x, g.world.redis id = some x → id < g.nextId
  accepted : g.accepted = []
  canceled : g.canceled = []
  tasks : ∀ t ∈ ts, StartsOrCancels t

/-- Calls of `create_order` and `cancel_order`, interleaved, while time passes. -/
abbrev linkSessions (cfg : Config) (c : Column) : Sys :=
  interleave (LinkState.step cfg c) LinkStart

/-- An order that is `CANCELED`, and that the exchange accepted, is cancelled at the exchange. -/
def CanceledAtExchange (g : LinkState) : Prop :=
  ∀ id ∈ g.canceled, ∀ e ∈ g.accepted, e.1.id = id →
    .cancelOrder e.1.symbol e.2 ∈ g.world.placed

instance (g : LinkState) : Decidable (CanceledAtExchange g) := by
  unfold CanceledAtExchange
  infer_instance

/-- When `cancel_order` looks for the link of an order that the exchange accepted with an `orderId`,
the id is not 0 and the key has not expired. -/
def StillLinked (g : LinkState) (a : ℕ × Answer) : Task cfg → Prop
  | .cancelOrder (.redisGet order) =>
    ∀ e ∈ g.accepted, e.1.id = order.id → e.2 ≠ 0 ∧ g.now + a.1 < g.expires order.id
  | _ => True

instance (g : LinkState) (a : ℕ × Answer) (t : Task cfg) : Decidable (StillLinked g a t) := by
  unfold StillLinked
  split <;> infer_instance

/-! ## Orders in the tables -/

/-- An order that the statement inserts has a good id and symbol. -/
def Write.Inserts (Q : ℕ → String → Prop) : Write → Prop
  | .insertOrder o => Q o.id o.symbol
  | _ => True

theorem orders_write {Q : ℕ → String → Prop} {w : Write} (hw : w.Inserts Q)
    (hdb : ∀ o ∈ db.orders, Q o.id o.symbol) (h : db.write c w = some db') :
    ∀ o ∈ db'.orders, Q o.id o.symbol := by
  cases w with
  | insertOrder o =>
    rw [← flush_single] at h
    obtain ⟨-, rfl⟩ := flush_insertOrder h
    intro o' ho'
    rcases List.mem_append.mp ho' with ho' | ho'
    · exact hdb o' ho'
    · rw [List.mem_singleton.mp ho']
      exact hw
  | insertAccount a | insertPosition p | insertTrade t =>
    rw [Db.write] at h
    split at h
    · cases h
    · cases h
      exact hdb
  | setStatus id v =>
    cases h
    intro o' ho'
    obtain ⟨o, ho, rfl⟩ := mem_modify.mp ho'
    have := hdb o ho
    split <;> exact this
  | _ => cases h; exact hdb

theorem orders_flush {Q : ℕ → String → Prop} {ws : List Write} (hws : ∀ w ∈ ws, w.Inserts Q)
    (hdb : ∀ o ∈ db.orders, Q o.id o.symbol) (h : db.flush c ws = some db') :
    ∀ o ∈ db'.orders, Q o.id o.symbol := by
  induction ws generalizing db with
  | nil => cases h; exact hdb
  | cons w ws ih =>
    obtain ⟨db₁, h₁, h₂⟩ := Option.bind_eq_some_iff.mp h
    exact ih (fun x hx => hws x (List.mem_cons_of_mem _ hx))
      (orders_write (hws w List.mem_cons_self) hdb h₁) h₂

/-- `create_order` inserts its own order, and no other. -/
theorem inserts_placed {Q : ℕ → String → Prop} {s : CreateOrder.Placed cfg}
    (h : Q s.orderId s.payload.symbol) (position : Option Position) (i t : ℕ) :
    ∀ w ∈ s.writes position i t, w.Inserts Q := by
  intro w hw
  simp only [CreateOrder.Placed.writes, List.mem_append, List.mem_singleton] at hw
  rcases hw with (((hw | rfl) | hw) | hw) | rfl
  · unfold OpenAccount.writes at hw
    split at hw
    · rw [List.mem_singleton.mp hw]
      trivial
    · cases hw
  · exact h
  · exact forall_updateAccount (fun _ => trivial) (fun _ => trivial) w hw
  · cases position with
    | none =>
      rw [List.mem_singleton.mp hw]
      trivial
    | some p =>
      exact forall_updatePosition (fun _ => ⟨trivial, trivial, trivial, trivial⟩)
        (fun _ => trivial) (fun _ => trivial) w hw
  · trivial

theorem World.subset_accept (w : World) (r : ExchangeRequest) :
    w.placed ⊆ (w.accept r).placed := List.subset_append_left _ _

/-! ## What holds of a link -/

/-- What `create_order` leaves for an order: when the exchange accepted an order with the id, it has
the symbol and, until the key expires, its link. The sequence gives the id to no other order. -/
def HasLink (g : LinkState) (id : ℕ) (symbol : String) : Prop :=
  id < g.nextId ∧ ∀ e ∈ g.accepted, e.1.id = id →
    e.1.symbol = symbol ∧ (e.2 ≠ 0 → g.now < g.expires id → g.world.redis id = some e.2)

/-- When the exchange accepted an order with the id, it has accepted its cancellation. -/
def Withdrawn (g : LinkState) (id : ℕ) : Prop :=
  id < g.nextId ∧ ∀ e ∈ g.accepted, e.1.id = id → .cancelOrder e.1.symbol e.2 ∈ g.world.placed

namespace LinkState

/-- The invariant of the state. -/
structure Good (g : LinkState) : Prop where
  ids : Keyed (fun e : Order × ℤ => e.1.id) g.accepted
  below : ∀ e ∈ g.accepted, e.1.id < g.nextId
  redis_below : ∀ id x, g.world.redis id = some x → id < g.nextId
  redis_accepted : ∀ id x, g.world.redis id = some x → ∀ e ∈ g.accepted, e.1.id = id → e.2 = x
  orders : ∀ o ∈ g.world.db.orders, HasLink g o.id o.symbol
  canceled : ∀ id ∈ g.canceled, Withdrawn g id

/-- What a call knows in its phase. -/
def Seen (g : LinkState) : Task cfg → Prop
  | .createOrder (.redisSet s x) => (s.order, x) ∈ g.accepted
  | .createOrder (.selectPosition s) | .createOrder (.commit s _) =>
    HasLink g s.orderId s.payload.symbol
  | .cancelOrder (.redisGet o) => HasLink g o.id o.symbol
  | .cancelOrder (.cancelOrder o x) =>
    o.id < g.nextId ∧ ∀ e ∈ g.accepted, e.1.id = o.id → e.1.symbol = o.symbol ∧ e.2 = x
  | .cancelOrder (.commit o) => Withdrawn g o.id
  | .createOrder _ | .cancelOrder _ => True
  | _ => False

/-- What the steps of all calls keep. -/
structure Grows (g g' : LinkState) : Prop where
  nextId : g.nextId ≤ g'.nextId
  accepted : g.accepted ⊆ g'.accepted
  fresh : ∀ e ∈ g'.accepted, e.1.id < g.nextId → e ∈ g.accepted
  placed : g.world.placed ⊆ g'.world.placed
  links : ∀ id symbol, HasLink g id symbol → HasLink g' id symbol

variable {g g' g'' : LinkState}

theorem Grows.trans (h : Grows g g') (h' : Grows g' g'') : Grows g g'' where
  nextId := h.nextId.trans h'.nextId
  accepted := List.Subset.trans h.accepted h'.accepted
  fresh e he hid := h.fresh e (h'.fresh e he (hid.trans_le h.nextId)) hid
  placed := List.Subset.trans h.placed h'.placed
  links id symbol hl := h'.links id symbol (h.links id symbol hl)

theorem Grows.withdrawn (h : Grows g g') {id : ℕ} (hw : Withdrawn g id) : Withdrawn g' id :=
  ⟨hw.1.trans_le h.nextId, fun e he hid =>
    h.placed (hw.2 e (h.fresh e he (hid ▸ hw.1)) hid)⟩

theorem Grows.seen (h : Grows g g') {t : Task cfg} (ht : g.Seen t) : g'.Seen t := by
  cases t with
  | createOrder p =>
    cases p with
    | redisSet s x => exact h.accepted ht
    | selectPosition s | commit s position => exact h.links _ _ ht
    | _ => trivial
  | cancelOrder p =>
    cases p with
    | redisGet o => exact h.links _ _ ht
    | cancelOrder o x =>
      exact ⟨ht.1.trans_le h.nextId, fun e he hid =>
        ht.2 e (h.fresh e he (hid ▸ ht.1)) hid⟩
    | commit o => exact h.withdrawn ht
    | _ => trivial
  | _ => exact ht.elim

/-! ## Time -/

theorem elapse_grows (g : LinkState) (t : ℕ) : Grows g (g.elapse t) where
  nextId := le_rfl
  accepted := List.Subset.refl _
  fresh _ he _ := he
  placed := List.Subset.refl _
  links id symbol hl := ⟨hl.1, fun e he hid => ⟨(hl.2 e he hid).1, fun hx hlt => by
    have hlt : g.now + t < g.expires id := hlt
    show (if g.now + t < g.expires id then g.world.redis id else none) = _
    rw [if_pos hlt]
    exact (hl.2 e he hid).2 hx (by omega)⟩⟩

theorem redis_of_elapse {t id : ℕ} {x : ℤ} (h : (g.elapse t).world.redis id = some x) :
    g.world.redis id = some x := by
  have h : (if g.now + t < g.expires id then g.world.redis id else none) = some x := h
  split at h
  · exact h
  · cases h

theorem Good.elapse (h : g.Good) (t : ℕ) : (g.elapse t).Good where
  ids := h.ids
  below := h.below
  redis_below id x hx := h.redis_below id x (redis_of_elapse hx)
  redis_accepted id x hx := h.redis_accepted id x (redis_of_elapse hx)
  orders o ho := (elapse_grows g t).links _ _ (h.orders o ho)
  canceled id hid := (elapse_grows g t).withdrawn (h.canceled id hid)

/-! ## Steps that set no link -/

theorem hasLink_world {w : World} (hr : w.redis = g.world.redis) {id : ℕ} {symbol : String} :
    HasLink { g with world := w } id symbol ↔ HasLink g id symbol := by
  simp only [HasLink, hr]

theorem grows_world {w : World} (hr : w.redis = g.world.redis)
    (hp : g.world.placed ⊆ w.placed) : Grows g { g with world := w } where
  nextId := le_rfl
  accepted := List.Subset.refl _
  fresh _ he _ := he
  placed := hp
  links _ _ hl := (hasLink_world hr).mpr hl

theorem Good.world (h : g.Good) {w : World} (hr : w.redis = g.world.redis)
    (hp : g.world.placed ⊆ w.placed) (ho : ∀ o ∈ w.db.orders, HasLink g o.id o.symbol) :
    ({ g with world := w } : LinkState).Good where
  ids := h.ids
  below := h.below
  redis_below id x hx := h.redis_below id x (by rw [← hr]; exact hx)
  redis_accepted id x hx := h.redis_accepted id x (by rw [← hr]; exact hx)
  orders o hm := (hasLink_world hr).mpr (ho o hm)
  canceled id hid := (grows_world hr hp).withdrawn (h.canceled id hid)

/-- What a step keeps, and what the request has seen when it goes on. -/
structure Acted (g g' : LinkState) (n : Next (Task cfg) (Except Failure Reply)) : Prop where
  good : g'.Good
  grows : Grows g g'
  seen : ∀ t, n = .await t → g'.Seen t

theorem Acted.world {n : Next (Task cfg) (Except Failure Reply)} (hG : g.Good) {w : World}
    (hr : w.redis = g.world.redis) (hp : g.world.placed ⊆ w.placed)
    (ho : ∀ o ∈ w.db.orders, HasLink g o.id o.symbol)
    (hn : ∀ t, n = .await t → ({ g with world := w } : LinkState).Seen t) :
    Acted g { g with world := w } n :=
  ⟨hG.world hr hp ho, grows_world hr hp, hn⟩

/-- A step that changes nothing. -/
theorem Acted.same {n : Next (Task cfg) (Except Failure Reply)} (hG : g.Good)
    (hn : ∀ t, n = .await t → g.Seen t) : Acted g g n :=
  .world hG rfl (List.Subset.refl _) hG.orders hn

/-! ## The steps that make a link, and the commit of a cancellation -/

/-- The id is taken from the sequence, and the order with it may be recorded. -/
def record (g : LinkState) (id : ℕ) (e : Option (Order × ℤ)) : LinkState :=
  { g with nextId := id + 1, accepted := g.accepted ++ e.toList }

theorem mem_record {id : ℕ} {o : Option (Order × ℤ)} {e : Order × ℤ}
    (h : e ∈ (g.record id o).accepted) : e ∈ g.accepted ∨ e ∈ o := by
  rcases List.mem_append.mp h with h | h
  · exact .inl h
  · exact .inr (Option.mem_toList.mp h)

theorem record_grows {id : ℕ} (hid : g.nextId ≤ id) {o : Option (Order × ℤ)}
    (ho : ∀ e ∈ o, e.1.id = id) : Grows g (g.record id o) := by
  have fresh : ∀ e ∈ (g.record id o).accepted, e.1.id < g.nextId → e ∈ g.accepted := by
    intro e he hlt
    refine (mem_record he).resolve_right fun heo => ?_
    have := ho e heo
    omega
  refine ⟨by show _ ≤ id + 1; omega, List.subset_append_left _ _, fresh, List.Subset.refl _, ?_⟩
  intro i symbol hl
  refine ⟨?_, fun e he hi => hl.2 e (fresh e he (hi ▸ hl.1)) hi⟩
  have := hl.1
  show i < id + 1
  omega

theorem Good.record (h : g.Good) {id : ℕ} (hid : g.nextId ≤ id) {o : Option (Order × ℤ)}
    (ho : ∀ e ∈ o, e.1.id = id) : (g.record id o).Good := by
  have grows := record_grows hid ho
  refine ⟨?_, fun e he => ?_, fun i x hx => ?_, fun i x hx e he hi => ?_,
    fun v hv => grows.links _ _ (h.orders v hv), fun i hi => grows.withdrawn (h.canceled i hi)⟩
  · show Keyed _ (g.accepted ++ o.toList)
    cases o with
    | none => rw [Option.toList_none, List.append_nil]; exact h.ids
    | some e =>
      refine h.ids.append fun y hy => ?_
      have := h.below y hy
      have := ho e rfl
      omega
  · show e.1.id < id + 1
    rcases mem_record he with he | he
    · have := h.below e he
      omega
    · have := ho e he
      omega
  · exact (h.redis_below i x hx).trans_le grows.nextId
  · exact h.redis_accepted i x hx e (grows.fresh e he (hi ▸ h.redis_below i x hx)) hi

variable {a : Answer} {n : Next (Task cfg) (Except Failure Reply)}

theorem act_flushOrder (hG : g.Good) {s : CreateOrder.Checked cfg} {reply : ExchangeOrder}
    (h : g.act cfg c a (.createOrder (.flushOrder s reply)) = (g', n)) :
    Acted g g' n := by
  have hid : g.nextId ≤ max a.rowId g.nextId := le_max_right _ _
  unfold act at h
  generalize max a.rowId g.nextId = id at h hid
  rcases hs : CreateOrder.step cfg c g.world { a with rowId := id } (.flushOrder s reply) with
    ⟨w', n'⟩
  simp only [Task.step, Task.lift, hs] at h
  cases n' with
  | done r =>
    obtain ⟨hdb, hr, hp⟩ := CreateOrder.step_done hs
    cases h
    have hgood := hG.record hid (o := none) (by simp)
    refine ⟨hgood.world hr (by rw [hp]; exact List.Subset.refl _) ?_, ?_, fun t ht => nomatch ht⟩
    · rw [hdb]
      exact hgood.orders
    · exact (record_grows hid (o := none) (by simp)).trans
        (grows_world hr (by rw [hp]; exact List.Subset.refl _))
  | await q =>
    let s' : CreateOrder.Placed cfg := { s with orderId := id, reply }
    let o : Option (Order × ℤ) := reply.orderId.map fun x => (s'.order, x)
    have ho : ∀ e ∈ o, e.1.id = id := by
      intro e he
      obtain ⟨x, -, rfl⟩ := Option.map_eq_some_iff.mp he
      rfl
    have key : w' = g.world ∧ (q = .selectPosition s' ∧ s'.exchangeOrderId = none ∨
        ∃ x, q = .redisSet s' x ∧ s'.exchangeOrderId = some x) := by
      simp only [CreateOrder.step] at hs
      split at hs
      · cases hs
      split at hs
      · rename_i x hx
        cases hs
        exact ⟨rfl, .inr ⟨x, rfl, hx⟩⟩
      · rename_i hx
        cases hs
        exact ⟨rfl, .inl ⟨rfl, hx⟩⟩
    obtain ⟨rfl, hq⟩ := key
    cases h
    refine ⟨hG.record hid ho, record_grows hid ho, fun t ht => ?_⟩
    cases ht
    rcases hq with ⟨rfl, hx⟩ | ⟨x, rfl, hx⟩
    · refine ⟨Nat.lt_succ_self id, fun e he hide => ?_⟩
      -- the only order with the new id is this one, and its `orderId` is 0
      rcases mem_record he with he | he
      · have hide : e.1.id = id := hide
        have := hG.below e he
        omega
      · obtain ⟨x, hx', rfl⟩ := Option.map_eq_some_iff.mp he
        refine ⟨rfl, fun hne => absurd hx ?_⟩
        simp only [CreateOrder.Placed.exchangeOrderId, s', hx']
        simp [Option.filter, hne]
    · refine List.mem_append_right _ (Option.mem_toList.mpr ?_)
      obtain ⟨hx', -⟩ := Option.filter_eq_some_iff.mp hx
      exact Option.map_eq_some_iff.mpr ⟨x, hx', rfl⟩

/-- The link of an order is set, and expires in a day. -/
def link (g : LinkState) (id : ℕ) (x : ℤ) : LinkState :=
  { g with
    world := g.world.setRedis id x
    expires := Function.update g.expires id (g.now + linkTtl) }

theorem link_grows (hG : g.Good) {e : Order × ℤ} (he : e ∈ g.accepted) :
    Grows g (g.link e.1.id e.2) := by
  refine ⟨le_rfl, List.Subset.refl _, fun _ h _ => h, List.Subset.refl _, fun i symbol hl => ?_⟩
  refine ⟨hl.1, fun e' he' hi => ⟨(hl.2 e' he' hi).1, fun hx hlt => ?_⟩⟩
  show Function.update g.world.redis e.1.id (some e.2) i = some e'.2
  by_cases heq : i = e.1.id
  · obtain rfl : e' = e := hG.ids.eq_of_key he' he (hi.trans heq)
    rw [heq, Function.update_self]
  · have hlt : g.now < Function.update g.expires e.1.id (g.now + linkTtl) i := hlt
    rw [Function.update_of_ne heq] at hlt ⊢
    exact (hl.2 e' he' hi).2 hx hlt

theorem Good.link (hG : g.Good) {e : Order × ℤ} (he : e ∈ g.accepted) :
    (g.link e.1.id e.2).Good := by
  have grows := link_grows hG he
  have redis : ∀ i x, (g.link e.1.id e.2).world.redis i = some x →
      i = e.1.id ∧ x = e.2 ∨ g.world.redis i = some x := by
    intro i x hx
    have hx : Function.update g.world.redis e.1.id (some e.2) i = some x := hx
    by_cases heq : i = e.1.id
    · rw [heq, Function.update_self] at hx
      exact .inl ⟨heq, (Option.some.inj hx).symm⟩
    · rw [Function.update_of_ne heq] at hx
      exact .inr hx
  refine ⟨hG.ids, hG.below, fun i x hx => ?_, fun i x hx e' he' hi => ?_,
    fun o ho => grows.links _ _ (hG.orders o ho), fun i hi => grows.withdrawn (hG.canceled i hi)⟩
  · rcases redis i x hx with ⟨rfl, -⟩ | hx
    · exact hG.below e he
    · exact hG.redis_below i x hx
  · rcases redis i x hx with ⟨rfl, rfl⟩ | hx
    · rw [hG.ids.eq_of_key he' he hi]
    · exact hG.redis_accepted i x hx e' he' hi

theorem act_redisSet (hG : g.Good) {s : CreateOrder.Placed cfg} {x : ℤ}
    (hT : (s.order, x) ∈ g.accepted)
    (h : g.act cfg c a (.createOrder (.redisSet s x)) = (g', n)) :
    Acted g g' n := by
  unfold act at h
  by_cases hf : a.fails
  · simp only [Task.step, Task.lift, CreateOrder.step, if_pos hf] at h
    cases h
    exact .same hG fun t ht => by cases ht
  · simp only [Task.step, Task.lift, CreateOrder.step, if_neg hf] at h
    cases h
    refine ⟨hG.link hT, link_grows hG hT, fun t ht => ?_⟩
    cases ht
    refine ⟨hG.below _ hT, fun e he hid => ?_⟩
    obtain rfl : e = (s.order, x) := hG.ids.eq_of_key he hT hid
    exact ⟨rfl, fun _ _ => Function.update_self _ _ _⟩

theorem act_commitCancel (hG : g.Good) {order : Order} (hT : Withdrawn g order.id)
    (h : g.act cfg c a (.cancelOrder (.commit order)) = (g', n)) :
    Acted g g' n := by
  rcases hs : CancelOrder.step cfg c g.world a (.commit order) with ⟨w', n'⟩
  simp only [act, Task.step, Task.lift, hs] at h
  cases n' with
  | done r =>
    cases CancelOrder.step_cases hs
    cases h
    exact .same hG fun t ht => nomatch ht
  | await q =>
    cases CancelOrder.step_cases hs with
    | committed hc =>
    obtain ⟨db', hdb, rfl⟩ := Option.map_eq_some_iff.mp hc
    have hgood : ({ g with world := { g.world with db := db' } } : LinkState).Good := by
      refine hG.world rfl (List.Subset.refl _) (orders_flush (fun w hw => ?_) hG.orders hdb)
      rw [(mem_dirty hw).2]
      trivial
    cases h
    refine ⟨⟨hgood.ids, hgood.below, hgood.redis_below, hgood.redis_accepted, hgood.orders, ?_⟩,
      ⟨le_rfl, List.Subset.refl _, fun _ he _ => he, List.Subset.refl _, fun _ _ hl => hl⟩,
      fun t ht => ?_⟩
    · intro id hid
      rcases List.mem_append.mp hid with hid | hid
      · exact hG.canceled id hid
      · rw [List.mem_singleton.mp hid]
        exact hT
    · cases ht
      trivial

/-! ## All steps -/

theorem act_createOrder (hG : g.Good) {p : CreateOrder.Phase cfg} (hT : g.Seen (.createOrder p))
    (h : g.act cfg c a (.createOrder p) = (g', n)) :
    Acted g g' n := by
  by_cases hflush : ∃ s reply, p = .flushOrder s reply
  · obtain ⟨s, reply, rfl⟩ := hflush
    exact act_flushOrder hG h
  by_cases hset : ∃ s x, p = .redisSet s x
  · obtain ⟨s, x, rfl⟩ := hset
    exact act_redisSet hG hT h
  rcases hs : CreateOrder.step cfg c g.world a p with ⟨w', n'⟩
  have hact : ({ g with world := w' }, n'.map Task.createOrder (Except.map Reply.order)) = (g', n) := by
    rw [← h]
    cases p with
    | flushOrder s reply => exact absurd ⟨s, reply, rfl⟩ hflush
    | redisSet s x => exact absurd ⟨s, x, rfl⟩ hset
    | _ => simp only [act, Task.step, Task.lift, hs]
  cases hact
  cases n' with
  | done r =>
    obtain ⟨hdb, hr, hp⟩ := CreateOrder.step_done hs
    have hp : g.world.placed ⊆ w'.placed := by rw [hp]; exact List.Subset.refl _
    exact .world hG hr hp (by rw [hdb]; exact hG.orders) fun t ht => nomatch ht
  | await q =>
    cases CreateOrder.step_cases hs with
    | flushed => exact absurd ⟨_, _, rfl⟩ hflush
    | flushedOnly => exact absurd ⟨_, _, rfl⟩ hflush
    | cached => exact absurd ⟨_, _, rfl⟩ hset
    | accepted hr =>
      refine .world hG rfl (World.subset_accept _ _) hG.orders fun t ht => ?_
      cases ht
      trivial
    | committed hc =>
      obtain ⟨db', hdb, rfl⟩ := Option.map_eq_some_iff.mp hc
      refine .world hG rfl (List.Subset.refl _) ?_ fun t ht => ?_
      · exact orders_flush (inserts_placed hT _ _ _) hG.orders hdb
      · cases ht
        trivial
    | positioned hp =>
      refine .same hG fun t ht => ?_
      cases ht
      exact hT
    | _ =>
      refine .same hG fun t ht => ?_
      cases ht
      trivial

theorem act_cancelOrder (hG : g.Good) {p : CancelOrder.Phase}
    (hT : g.Seen (.cancelOrder p : Task cfg)) (hC : StillLinked g (0, a) (.cancelOrder p : Task cfg))
    (h : g.act cfg c a (.cancelOrder p) = (g', n)) :
    Acted g g' n := by
  by_cases hcommit : ∃ order, p = .commit order
  · obtain ⟨order, rfl⟩ := hcommit
    exact act_commitCancel hG hT h
  rcases hs : CancelOrder.step cfg c g.world a p with ⟨w', n'⟩
  have hact : ({ g with world := w' }, n'.map Task.cancelOrder (Except.map Reply.canceled)) =
      (g', n) := by
    rw [← h]
    cases p with
    | commit order => exact absurd ⟨order, rfl⟩ hcommit
    | _ => simp only [act, Task.step, Task.lift, hs]
  cases hact
  cases CancelOrder.step_cases hs with
  | failed => exact .same hG fun t ht => nomatch ht
  | refreshed => exact .same hG fun t ht => nomatch ht
  | committed => exact absurd ⟨_, rfl⟩ hcommit
  | @found orderId userId order hsel _ =>
    refine .same hG fun t ht => ?_
    cases ht
    have hmem : order ∈ [order] := List.mem_singleton_self _
    rw [← scalarOneOrNone_some hsel] at hmem
    exact hG.orders _ (List.mem_filter.mp hmem).1
  | @uncached order hx =>
    refine .same hG fun t ht => ?_
    cases ht
    refine ⟨hT.1, fun e he hid => ?_⟩
    -- the key of an order that the exchange accepted is still there
    obtain ⟨hne, hlt⟩ := hC e he hid
    have := (hT.2 e he hid).2 hne hlt
    rw [hx] at this
    cases this
  | cached hx =>
    refine .same hG fun t ht => ?_
    cases ht
    exact ⟨hT.1, fun e he hid => ⟨(hT.2 e he hid).1, hG.redis_accepted _ _ hx e he hid⟩⟩
  | accepted hr =>
    refine .world hG rfl (World.subset_accept _ _) hG.orders fun t ht => ?_
    cases ht
    refine ⟨hT.1, fun e he hid => List.mem_append_right _ ?_⟩
    obtain ⟨hsymbol, hx⟩ := hT.2 e he hid
    rw [hsymbol, hx]
    exact List.mem_singleton_self _

end LinkState

open LinkState in
/-- **Cancelled here, cancelled there.** In runs in which `cancel_order` finds the links of orders
that the exchange accepted, every order set to `CANCELED` is cancelled at the exchange. -/
theorem cancel_reaches_exchange {s : LinkState × List (Next (Task cfg) (Except Failure Reply))}
    (h : ((linkSessions cfg c).restrict (StepMeets StillLinked)).Reach s) :
    CanceledAtExchange s.1 := by
  have hI : ((linkSessions cfg c).restrict (StepMeets StillLinked)).Inductive fun s =>
      s.1.Good ∧ ∀ t, .await t ∈ s.2 → s.1.Seen t := by
    refine interleave_inductive (G := Good) (T := LinkState.Seen) (fun g ts hi => ?_)
      fun g a t g' n hG hT hC hs => ?_
    · refine ⟨⟨?_, ?_, hi.redis, ?_, fun o ho => ⟨hi.orders o ho, ?_⟩, ?_⟩, fun t ht => ?_⟩
      · rw [hi.accepted]
        exact List.nodup_nil
      · simp [hi.accepted]
      · simp [hi.accepted]
      · simp [hi.accepted]
      · simp [hi.canceled]
      · obtain ⟨payload, e⟩ | ⟨orderId, userId, e⟩ := hi.tasks _ ht
        · cases e; trivial
        · cases e; trivial
    · have hT' := (elapse_grows g a.1).seen hT
      have key : Acted (g.elapse a.1) g' n := by
        cases t with
        | createOrder p => exact act_createOrder (hG.elapse a.1) hT' hs
        | cancelOrder p => exact act_cancelOrder (hG.elapse a.1) hT' (by
            cases p with
            | redisGet order => exact hC
            | _ => trivial) hs
        | _ => exact hT.elim
      exact ⟨key.good, key.seen, fun q hq => key.grows.seen ((elapse_grows g a.1).seen hq)⟩
  obtain ⟨hgood, -⟩ := hI.reach h
  exact fun id hid e he heq => (hgood.canceled id hid).2 e he heq

/-! ## A limit order -/

namespace Sample

/-- No orders and no links. -/
def linkStart : LinkState where
  world := start 1000
  now := 0
  expires _ := 0
  nextId := 1
  accepted := []
  canceled := []

/-- A limit order of user 1, and the cancellation of the order 1. -/
def placeAndCancel : LinkState × List (Next (Task config) (Except Failure Reply)) :=
  (linkStart, [.await (.createOrder (.selectUser limitOrder)),
    .await (.cancelOrder (.selectOrder 1 1))])

theorem placeAndCancel_init (c : Column) : (linkSessions config c).init placeAndCancel where
  orders _ ho := nomatch ho
  redis _ _ hx := nomatch hx
  accepted := rfl
  canceled := rfl
  tasks t ht := by
    rcases List.mem_cons.mp ht with rfl | ht
    · exact .inl ⟨_, rfl⟩
    · rw [List.mem_singleton.mp ht]
      exact .inr ⟨1, 1, rfl⟩

/-- The exchange accepts the order as 77 and lets it rest; it is cancelled later. -/
def cancelAfter (t : ℕ) (answers : List Answer) : List (ℕ × (ℕ × Answer)) :=
  (resting.map fun a => (0, (0, a))) ++ [(1, (t, ({} : Answer)))] ++ answers.map fun a => (1, (0, a))

end Sample

open Sample in
/-- A day after it was accepted, the order is set to `CANCELED`, and still rests at the exchange. -/
theorem canceled_but_resting :
    ∃ s, (linkSessions config .exact).Reach s ∧
      s.1.world.db.orders.map (fun o => (o.id, o.status)) = [(1, "CANCELED")] ∧
      s.1.world.placed.length = 1 ∧ ¬CanceledAtExchange s.1 := by
  let f := exec (LinkState.step config .exact) fun _ _ _ => True
  have hrun : ((cancelAfter linkTtl [{}, {}, {}]).foldlM f placeAndCancel).map (fun s =>
      (s.1.world.db.orders.map (fun o => (o.id, o.status)), s.1.world.placed.length,
        decide (CanceledAtExchange s.1))) =
        some ([(1, "CANCELED")], 1, false) := by decide +kernel
  obtain ⟨s, hs, h⟩ := Option.map_eq_some_iff.mp hrun
  simp only [Prod.mk.injEq, decide_eq_false_iff_not] at h
  have hreach : ((linkSessions config .exact).restrict (StepMeets fun _ _ _ => True)).Reach s :=
    .foldlM (f := f) (fun _ _ _ _ h => exec_step h) (.init (placeAndCancel_init .exact)) hs
  exact ⟨s, hreach.of_restrict, h⟩

open Sample in
/-- Cancelled within the day, it is cancelled at the exchange. -/
theorem cancel_reaches_exchange_sameDay :
    ∃ s, ((linkSessions config (.numeric 8)).restrict (StepMeets StillLinked)).Reach s ∧
      s.1.world.db.orders.map (fun o => (o.id, o.status)) = [(1, "CANCELED")] ∧
      CanceledAtExchange s.1 := by
  let f := exec (LinkState.step config (.numeric 8)) StillLinked
  have hrun : ((cancelAfter 3600000000 [{}, { exchange := .ok {} }, {}, {}]).foldlM f
      placeAndCancel).map (fun s => s.1.world.db.orders.map (fun o => (o.id, o.status))) =
        some [(1, "CANCELED")] := by decide +kernel
  obtain ⟨s, hs, h⟩ := Option.map_eq_some_iff.mp hrun
  have hreach : ((linkSessions config (.numeric 8)).restrict (StepMeets StillLinked)).Reach s :=
    .foldlM (f := f) (fun _ _ _ _ h => exec_step h) (.init (placeAndCancel_init (.numeric 8))) hs
  exact ⟨s, hreach, h, cancel_reaches_exchange hreach⟩

end CryptoExchange
