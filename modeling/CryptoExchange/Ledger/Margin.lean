import CryptoExchange.Ledger.Service

/-!
# Reserved margin

`margin_used` of an account is what its live positions hold. `Balanced` is the invariant; its step
lemma is one `Balanced.update` for each effect, from how the effect changes `liveMargin`.
-/

namespace CryptoExchange

open Lib Db

variable {cfg : Config} {c : Column} {db db' : Db}

/-! ## The margin of an account's live positions -/

/-- The margins of the live positions of the account `id`. -/
def liveMargin (ps : List Position) (id : ℕ) : ℚ :=
  ((ps.filter fun p => p.accountId = id ∧ p.liquidated = false).map Position.margin).sum

/-- What a position holds of the margin of the account `id`. -/
def Position.held (id : ℕ) (p : Position) : ℚ :=
  if p.accountId = id ∧ p.liquidated = false then p.margin else 0

theorem liveMargin_eq (ps : List Position) (id : ℕ) :
    liveMargin ps id = (ps.map (Position.held id)).sum := by
  simp only [liveMargin, sum_filter, decide_eq_true_eq]
  rfl

theorem liveMargin_append (ps : List Position) (p : Position) (id : ℕ) :
    liveMargin (ps ++ [p]) id = liveMargin ps id + p.held id := by
  simp [liveMargin_eq]

/-- How a change of one position changes the sum. -/
theorem liveMargin_modify {ps : List Position} (hk : Keyed Position.id ps) {p : Position}
    (hp : p ∈ ps) (f : Position → Position) (id : ℕ) :
    liveMargin (modify Position.id p.id f ps) id =
      liveMargin ps id - p.held id + (f p).held id := by
  rw [liveMargin_eq, liveMargin_eq, sum_modify (Position.held id) hk hp rfl]

/-- No position of an account holds more than the sum. -/
theorem held_le_liveMargin {ps : List Position} (hm : ∀ p ∈ ps, 0 ≤ p.margin) {p : Position}
    (hp : p ∈ ps) (id : ℕ) : p.held id ≤ liveMargin ps id := by
  rw [liveMargin_eq]
  refine List.single_le_sum (List.forall_mem_map.mpr fun q hq => ?_) _ (List.mem_map_of_mem hp)
  unfold Position.held
  split
  · exact hm q hq
  · exact le_rfl

theorem liveMargin_nonneg {ps : List Position} (hm : ∀ p ∈ ps, 0 ≤ p.margin) (id : ℕ) :
    0 ≤ liveMargin ps id :=
  sum_nonneg_of fun p hp => hm p (List.mem_filter.mp hp).1

/-! ## The invariant -/

/-- No reserved margin is negative. -/
structure Nonneg (db : Db) : Prop where
  marginUsed : ∀ a ∈ db.accounts, 0 ≤ a.marginUsed
  margin : ∀ p ∈ db.positions, 0 ≤ p.margin

/-- `margin_used` is the margin of the live positions. -/
structure Balanced (c : Column) (db : Db) : Prop where
  valid : db.Valid c
  /-- The foreign key of a position, and its user. -/
  owner : ∀ p ∈ db.positions, ∃ a ∈ db.accounts, a.id = p.accountId ∧ a.userId = p.userId
  margin_nonneg : ∀ p ∈ db.positions, 0 ≤ p.margin
  sum : ∀ a ∈ db.accounts, a.marginUsed = liveMargin db.positions a.id

theorem Balanced.marginUsed_nonneg (h : Balanced c db) {a : Account} (ha : a ∈ db.accounts) :
    0 ≤ a.marginUsed := by
  rw [h.sum a ha]
  exact liveMargin_nonneg h.margin_nonneg _

theorem Balanced.nonneg (h : Balanced c db) : Nonneg db :=
  ⟨fun _ ha => h.marginUsed_nonneg ha, h.margin_nonneg⟩

/-- **Step rule.** An update that changes the `margin_used` of each account as the margin of its
live positions. -/
theorem Balanced.update (h : Balanced c db) (hv : db'.Valid c)
    (keeps : ∀ a ∈ db.accounts, ∃ a' ∈ db'.accounts, a'.id = a.id ∧ a'.userId = a.userId)
    (comes : ∀ a' ∈ db'.accounts, ∃ a ∈ db.accounts, a'.id = a.id ∧
      a'.marginUsed - a.marginUsed =
        liveMargin db'.positions a.id - liveMargin db.positions a.id)
    (positions : ∀ p' ∈ db'.positions, 0 ≤ p'.margin ∧
      ∃ a ∈ db.accounts, a.id = p'.accountId ∧ a.userId = p'.userId) : Balanced c db' where
  valid := hv
  owner p' hp' := by
    obtain ⟨-, a, ha, e₁, e₂⟩ := positions p' hp'
    obtain ⟨a', ha', e₃, e₄⟩ := keeps a ha
    exact ⟨a', ha', e₃.trans e₁, e₄.trans e₂⟩
  margin_nonneg p' hp' := (positions p' hp').1
  sum a' ha' := by
    obtain ⟨a, ha, e, hd⟩ := comes a' ha'
    rw [e]
    linarith [h.sum a ha]

/-- An update of one account that keeps its id and user keeps both of every account. -/
theorem keeps_modify {as : List Account} {k : ℕ} {f : Account → Account}
    (hf : ∀ a ∈ as, a.id = k → (f a).id = a.id ∧ (f a).userId = a.userId) :
    ∀ a ∈ as, ∃ a' ∈ modify Account.id k f as, a'.id = a.id ∧ a'.userId = a.userId := by
  intro a ha
  refine ⟨_, mem_modify.mpr ⟨a, ha, rfl⟩, ?_⟩
  split
  · exact hf a ha ‹_›
  · exact ⟨rfl, rfl⟩

/-- A new account starts balanced. -/
theorem Balanced.opened (h : Balanced c db) {o : OpenAccount} {userId : ℤ}
    (ho : o.Current db userId) (hw : db.flush c o.writes = some db') : Balanced c db' := by
  have e := OpenAccount.flush_writes hw
  have hv := h.valid.flush hw
  unfold OpenAccount.Current at ho
  cases hf : o.fresh with
  | false =>
    have : db' = db := by simpa [OpenAccount.accounts, hf] using e
    rw [this]; exact h
  | true =>
    rw [hf, if_pos rfl] at ho
    have hs : storeAccount c o.account = o.account := by rw [ho.2]; simp [storeAccount]
    have e : db' = { db with accounts := db.accounts ++ [o.account] } := by
      simpa [OpenAccount.accounts, hf, hs] using e
    subst e
    have fresh : ∀ a ∈ db.accounts, a.id ≠ o.account.id := by
      have hk := hv.accounts.keyed
      rw [Keyed, List.map_append, List.nodup_append] at hk
      exact fun a ha => hk.2.2 a.id (List.mem_map_of_mem ha) o.account.id (by simp)
    refine ⟨hv, ?_, h.margin_nonneg, ?_⟩
    · intro p hp
      obtain ⟨a, ha, e⟩ := h.owner p hp
      exact ⟨a, List.mem_append_left _ ha, e⟩
    · intro a ha
      rcases List.mem_append.mp ha with ha | ha
      · exact h.sum a ha
      · rw [List.mem_singleton.mp ha, ho.2, liveMargin_eq]
        -- no position has the new id
        refine (List.sum_eq_zero fun x hx => ?_).symm
        obtain ⟨p, hp, rfl⟩ := List.mem_map.mp hx
        obtain ⟨b, hb, hid, -⟩ := h.owner p hp
        exact if_neg fun hc => fresh b hb (hid.trans hc.1)

/-! ## The effects -/

/-- The exchange reports positive prices. -/
def Positive (a : Answer) : Prop := ∀ x ∈ a.price, 0 < x.value

namespace CreateOrder

variable {payload : OrderCreate} {s : Placed cfg} {position : Option Position} {i t : ℕ}

theorem Committed.requiredMargin_pos
    (h : Committed c db payload Positive s position i t db') : 0 < s.approval.requiredMargin := by
  obtain ⟨a, hpos, hx⟩ := h.market
  exact s.approved.requiredMargin_pos (s.payload.price_pos (hpos _ hx))

/-- The position in the symbol, if there is one, is the account's own. -/
theorem Committed.accountId {A : Answer → Prop} (hb : Balanced c db)
    (h : Committed c db payload A s position i t db') {p : Position} (hp : position = some p) :
    p ∈ db.positions ∧ p.liquidated = false ∧ p.accountId = s.account.id := by
  subst hp
  obtain ⟨hp, hu, -, hl⟩ := h.mem
  rw [h.payload_eq] at hu
  obtain ⟨db₁, h₁⟩ := h.opened_flush
  have e₁ := OpenAccount.flush_writes h₁
  have hb₁ := hb.opened h.opened h₁
  obtain ⟨a, ha, hid, hau⟩ := hb₁.owner p (by rw [e₁]; exact hp)
  have hs : s.account ∈ db₁.accounts := by rw [e₁]; exact h.opened.mem
  have : a = s.account := hb₁.valid.accountUsers.eq_of_key ha hs
    (hau.trans (hu.trans h.opened.userId.symm))
  exact ⟨hp, hl, by rw [← this, hid]⟩

/-- The commit adds the stored margin to what the account's live positions hold. -/
theorem Committed.liveMargin (hb : Balanced c db)
    (h : Committed c db payload Positive s position i t db') (id : ℕ) :
    liveMargin (s.positions c position i db.positions) id =
      liveMargin db.positions id +
        if s.account.id = id then c.store s.approval.requiredMargin else 0 := by
  have hr := h.requiredMargin_pos.le
  cases position with
  | none =>
    rw [Placed.positions, liveMargin_append]
    simp [Position.held, Placed.position, storePosition]
  | some p =>
    obtain ⟨hp, hl, ha⟩ := h.accountId hb rfl
    rw [Placed.positions, liveMargin_modify hb.valid.positions.keyed hp]
    have hadd : c.store (p.margin + s.approval.requiredMargin) =
        p.margin + c.store s.approval.requiredMargin :=
      c.store_add _ _ (hb.valid.positions.rows p hp).2.2.2 (hb.margin_nonneg p hp) hr
    simp only [Position.held, storePosition, Placed.added, hl, ha, and_true, hadd]
    split <;> ring

end CreateOrder

theorem Balanced.createOrder (h : Balanced c db) {payload : OrderCreate}
    {s : CreateOrder.Placed cfg} {position : Option Position} {i t : ℕ}
    (hc : CreateOrder.Committed c db payload Positive s position i t db') : Balanced c db' := by
  obtain ⟨db₁, h₁⟩ := hc.opened_flush
  have hb := h.opened hc.opened h₁
  have e₁ := OpenAccount.flush_writes h₁
  have hr := hc.requiredMargin_pos.le
  have hs : s.account ∈ db₁.accounts := by rw [e₁]; exact hc.opened.mem
  have e : db'.accounts = modify Account.id s.account.id (fun _ => storeAccount c s.reserved)
      db₁.accounts := by rw [hc.eq h.valid, e₁]; rfl
  have ep : db'.positions = s.positions c position i db₁.positions := by
    rw [hc.eq h.valid, e₁]; rfl
  have el : ∀ id, liveMargin db'.positions id = liveMargin db₁.positions id +
      if s.account.id = id then c.store s.approval.requiredMargin else 0 := by
    intro id
    rw [ep, e₁]
    exact hc.liveMargin h id
  refine hb.update (h.valid.flush hc.flush) ?_ ?_ ?_
  · rw [e]
    refine keeps_modify fun a ha hid => ?_
    rw [hb.valid.accounts.keyed.eq_of_key ha hs hid]
    exact ⟨rfl, rfl⟩
  · intro a' ha'
    rw [e] at ha'
    obtain ⟨a, ha, rfl⟩ := mem_modify.mp ha'
    refine ⟨a, ha, ?_⟩
    rw [el]
    by_cases hid : a.id = s.account.id
    · have hadd : c.store (s.account.marginUsed + s.approval.requiredMargin) =
          s.account.marginUsed + c.store s.approval.requiredMargin :=
        c.store_add _ _ (hb.valid.accounts.rows _ hs).2 (hb.marginUsed_nonneg hs) hr
      rw [hb.valid.accounts.keyed.eq_of_key ha hs hid, if_pos rfl, if_pos rfl]
      refine ⟨rfl, ?_⟩
      simp only [storeAccount, CreateOrder.Placed.reserved, hadd]
      ring
    · rw [if_neg hid, if_neg fun x => hid x.symm]
      exact ⟨rfl, by ring⟩
  · intro p' hp'
    rw [ep] at hp'
    have howner : ∀ p ∈ db₁.positions, 0 ≤ p.margin ∧
        ∃ a ∈ db₁.accounts, a.id = p.accountId ∧ a.userId = p.userId :=
      fun p hp => ⟨hb.margin_nonneg p hp, hb.owner p hp⟩
    cases position with
    | none =>
      rcases List.mem_append.mp hp' with hp' | hp'
      · exact howner p' hp'
      · rw [List.mem_singleton.mp hp']
        refine ⟨Column.store_nonneg hr, s.account, hs, rfl, ?_⟩
        show s.account.userId = s.payload.userId
        rw [hc.payload_eq]
        exact hc.opened.userId
    | some q =>
      obtain ⟨p, hp, rfl⟩ := mem_modify.mp hp'
      split
      · rename_i hid
        obtain ⟨hq, -, -⟩ := hc.accountId h rfl
        have hq₁ : q ∈ db₁.positions := by rw [e₁]; exact hq
        refine ⟨Column.store_nonneg (add_nonneg (h.margin_nonneg q hq) hr), ?_⟩
        exact (howner q hq₁).2
      · exact howner p hp

namespace ClosePosition

variable {userId : ℤ} {symbol : String} {s : Loaded} {closePrice : PyFloat}
  {account : Option Account} {o t : ℕ}

/-- The position's account is there, and holds its margin. -/
theorem Committed.holds (hb : Balanced c db)
    (h : Committed c db userId symbol s closePrice account o t db') :
    ∃ a ∈ db.accounts, account = some a ∧ a.id = s.position.accountId ∧
      s.position.margin ≤ a.marginUsed := by
  obtain ⟨hp, -, -, hl⟩ := h.mem
  obtain ⟨b, hbm, hid, -⟩ := hb.owner _ hp
  cases ha : account with
  | none =>
    have := h.account_eq
    rw [ha] at this
    simp only [Option.toList_none, selectAccount, List.filter_eq_nil_iff] at this
    exact absurd hid (by simpa using this b hbm)
  | some a =>
    have := h.account_eq
    rw [ha] at this
    obtain ⟨ham, haid⟩ := selectAccount_eq this
    refine ⟨a, ham, rfl, haid, ?_⟩
    have := held_le_liveMargin hb.margin_nonneg hp a.id
    rw [Position.held, if_pos ⟨haid.symm, hl⟩, ← hb.sum a ham] at this
    exact this

end ClosePosition

theorem Balanced.closePosition (h : Balanced c db) {userId : ℤ} {symbol : String}
    {s : ClosePosition.Loaded} {closePrice : PyFloat} {account : Option Account} {o t : ℕ}
    (hc : ClosePosition.Committed c db userId symbol s closePrice account o t db') :
    Balanced c db' := by
  obtain ⟨hp, -, -, hl⟩ := hc.mem
  obtain ⟨b, hb, rfl, hid, hle⟩ := hc.holds h
  have e := hc.eq h.valid
  have stored := h.valid.positions.rows _ hp
  have hmax : c.store (max (b.marginUsed - s.position.margin) 0) =
      b.marginUsed - s.position.margin := by
    rw [max_eq_left (by linarith)]
    exact (h.valid.accounts.rows b hb).2.sub stored.2.2.2
  have el : ∀ id, liveMargin db'.positions id =
      liveMargin db.positions id - s.position.held id := by
    intro id
    have : (storePosition c { s.position with liquidated := true }).held id = 0 := by
      simp [Position.held, storePosition]
    rw [e, ClosePosition.Loaded.closed, liveMargin_modify h.valid.positions.keyed hp, this, add_zero]
  refine h.update (h.valid.flush hc.flush) ?_ ?_ ?_
  · rw [e]
    refine keeps_modify fun a ha hid' => ?_
    rw [h.valid.accounts.keyed.eq_of_key ha hb hid']
    exact ⟨rfl, rfl⟩
  · intro a' ha'
    rw [e] at ha'
    obtain ⟨a, ha, rfl⟩ := mem_modify.mp ha'
    refine ⟨a, ha, ?_⟩
    rw [el]
    by_cases hid' : a.id = b.id
    · rw [h.valid.accounts.keyed.eq_of_key ha hb hid', if_pos rfl]
      refine ⟨rfl, ?_⟩
      simp only [storeAccount, ClosePosition.Loaded.released, hmax, Position.held]
      rw [if_pos ⟨hid.symm, hl⟩]
      ring
    · rw [if_neg hid', Position.held, if_neg fun x => hid' (x.1.symm.trans hid.symm)]
      exact ⟨rfl, by ring⟩
  · intro p' hp'
    rw [e] at hp'
    obtain ⟨p, hpm, rfl⟩ := mem_modify.mp hp'
    split
    · exact ⟨Column.store_nonneg (h.margin_nonneg s.position hp), h.owner s.position hp⟩
    · exact ⟨h.margin_nonneg p hpm, h.owner p hpm⟩

theorem Balanced.cancelOrder (h : Balanced c db) {orderId : ℕ} {userId : ℤ} {order : Order}
    (hc : CancelOrder.Committed c db orderId userId order db') : Balanced c db' := by
  obtain ⟨-, -, -, e⟩ := hc.eq h.valid
  have hv := h.valid.flush hc.flush
  subst e
  exact ⟨hv, h.owner, h.margin_nonneg, h.sum⟩

theorem Balanced.syncBalance (h : Balanced c db) {userId : ℤ} {A : Answer → Prop} {o : OpenAccount}
    {balance : ℚ} (hc : SyncBalance.Committed c db userId A o balance db') : Balanced c db' := by
  obtain ⟨db₁, h₁⟩ := hc.opened_flush
  have hb := h.opened hc.opened h₁
  have e₁ := OpenAccount.flush_writes h₁
  have hs : o.account ∈ db₁.accounts := by rw [e₁]; exact hc.opened.mem
  have e : db' = { db₁ with
      accounts := modify Account.id o.account.id
        (fun _ => storeAccount c { o.account with balance }) db₁.accounts } := by
    rw [hc.eq h.valid, e₁]
  have hv := h.valid.flush hc.flush
  subst e
  refine hb.update hv ?_ ?_ fun p hp => ⟨hb.margin_nonneg p hp, hb.owner p hp⟩
  · refine keeps_modify fun a ha hid => ?_
    rw [hb.valid.accounts.keyed.eq_of_key ha hs hid]
    exact ⟨rfl, rfl⟩
  · intro a' ha'
    obtain ⟨a, ha, rfl⟩ := mem_modify.mp ha'
    refine ⟨a, ha, ?_⟩
    split
    · rename_i hid
      rw [hb.valid.accounts.keyed.eq_of_key ha hs hid]
      refine ⟨rfl, ?_⟩
      simp only [storeAccount, (hb.valid.accounts.rows _ hs).2.store]
      ring
    · exact ⟨rfl, by ring⟩

theorem Balanced.setMarginType (h : Balanced c db) {r : SetMarginType.Request}
    (hc : db.flush c (SetMarginType.writes cfg r
      (db.positions.filter fun p => p.userId = r.userId)) = some db') : Balanced c db' := by
  have hv := h.valid.flush hc
  obtain ⟨f, e⟩ := SetMarginType.flush_eq
    (h.valid.positions.keyed.sublist (List.filter_sublist.map _)) hc
  subst e
  refine h.update hv (fun a ha => ⟨a, ha, rfl, rfl⟩) (fun a ha => ⟨a, ha, rfl, ?_⟩) ?_
  · have : ∀ id, liveMargin (db.positions.map fun p => { p with marginType := f p }) id =
        liveMargin db.positions id := by
      intro id
      rw [liveMargin_eq, liveMargin_eq, List.map_map]
      rfl
    rw [this]
    ring
  · intro p' hp'
    obtain ⟨p, hp, rfl⟩ := List.mem_map.mp hp'
    exact ⟨h.margin_nonneg p hp, h.owner p hp⟩

namespace ApplyLiquidation

/-- The margin of the account `id` in the positions `ps`. -/
def marginIn (ps : List Position) (id : ℕ) : ℚ :=
  (ps.map fun p => if p.accountId = id then p.margin else 0).sum

theorem marginIn_nonneg {ps : List Position} (hm : ∀ p ∈ ps, 0 ≤ p.margin) (id : ℕ) :
    0 ≤ marginIn ps id := by
  refine sum_nonneg_of fun p hp => ?_
  split
  · exact hm p hp
  · exact le_rfl

/-- One after the other or at once: a cut at 0 stays one. -/
theorem releaseAll_clamp {id : ℕ} {ps : List Position} (hm : ∀ p ∈ ps, 0 ≤ p.margin) {m : ℚ}
    (h : 0 ≤ m) : releaseAll id ps m = max (m - marginIn ps id) 0 := by
  induction ps generalizing m with
  | nil => simp [releaseAll, marginIn, h]
  | cons p ps ih =>
    have hps : ∀ q ∈ ps, 0 ≤ q.margin := fun q hq => hm q (List.mem_cons_of_mem _ hq)
    have hn := marginIn_nonneg hps id
    have hc : marginIn (p :: ps) id =
        (if p.accountId = id then p.margin else 0) + marginIn ps id := List.sum_cons
    rw [hc]
    show releaseAll id ps (if p.accountId = id then max (m - p.margin) 0 else m) = _
    by_cases hp : p.accountId = id
    · simp only [if_pos hp]
      rw [ih hps (le_max_right _ _), ← sub_sub]
      rcases max_cases (m - p.margin) 0 with ⟨e, -⟩ | ⟨e, hneg⟩
      · rw [e]
      · rw [e, max_eq_right (by linarith), max_eq_right (by linarith)]
    · simp only [if_neg hp, zero_add]
      exact ih hps h

/-- Where the account covers all of them, no release is cut off at 0. -/
theorem releaseAll_eq {id : ℕ} {ps : List Position} (hm : ∀ p ∈ ps, 0 ≤ p.margin) {m : ℚ}
    (h : marginIn ps id ≤ m) : releaseAll id ps m = m - marginIn ps id := by
  rw [releaseAll_clamp hm ((marginIn_nonneg hm id).trans h), max_eq_left (sub_nonneg.mpr h)]

/-- What `_apply_liquidation` takes from the live positions. -/
theorem liveMargin_liquidated (c : Column) (db : Db) (symbol : String) (id : ℕ) :
    liveMargin (liquidated c db symbol).positions id + marginIn (db.livePositionsIn symbol) id =
      liveMargin db.positions id := by
  rw [liveMargin_eq, liveMargin_eq, marginIn, livePositionsIn, sum_filter]
  show ((db.positions.map _).map _).sum + _ = _
  rw [List.map_map, ← List.sum_map_add]
  congr 1
  refine List.map_congr_left fun p _ => ?_
  simp only [Function.comp, decide_eq_true_eq]
  by_cases hs : p.symbol = symbol ∧ p.liquidated = false
  · simp [Position.held, hs]
  · simp [hs]

/-- The account covers what is released. -/
theorem marginIn_le (h : Balanced c db) (symbol : String) {a : Account} (ha : a ∈ db.accounts) :
    marginIn (db.livePositionsIn symbol) a.id ≤ a.marginUsed := by
  have hl : ∀ p ∈ (liquidated c db symbol).positions, 0 ≤ p.margin := by
    intro p' hp'
    obtain ⟨p, hp, rfl⟩ := List.mem_map.mp hp'
    split <;> exact h.margin_nonneg p hp
  have := liveMargin_nonneg hl a.id
  rw [h.sum a ha, ← liveMargin_liquidated c db symbol]
  linarith

/-- What is left of `margin_used`. -/
theorem store_releaseAll (h : Balanced c db) (symbol : String) {a : Account}
    (ha : a ∈ db.accounts) :
    c.store (releaseAll a.id (db.livePositionsIn symbol) a.marginUsed) =
      a.marginUsed - marginIn (db.livePositionsIn symbol) a.id := by
  have hmem : ∀ p ∈ db.livePositionsIn symbol, p ∈ db.positions :=
    fun p hp => (mem_livePositionsIn.mp hp).1
  rw [releaseAll_eq (fun p hp => h.margin_nonneg p (hmem p hp)) (marginIn_le h symbol ha)]
  refine ((h.valid.accounts.rows a ha).2.sub (Column.holds_sum fun x hx => ?_)).store
  obtain ⟨p, hp, rfl⟩ := List.mem_map.mp hx
  split
  · exact (h.valid.positions.rows p (hmem p hp)).2.2.2
  · exact c.holds_zero

end ApplyLiquidation

open ApplyLiquidation in
theorem Balanced.applyLiquidation (h : Balanced c db) {symbol : String}
    {s : ApplyLiquidation.Loop} (hc : Committed c db symbol s db') : Balanced c db' := by
  have hv := h.valid.flush hc.flush
  have e := hc.eq h.valid
  subst e
  refine h.update hv ?_ ?_ ?_
  · exact fun a ha => ⟨_, List.mem_map_of_mem ha, rfl, rfl⟩
  · intro a' ha'
    obtain ⟨a, ha, rfl⟩ := List.mem_map.mp ha'
    refine ⟨a, ha, rfl, ?_⟩
    have hm := liveMargin_liquidated c db symbol a.id
    simp only [store_releaseAll h symbol ha]
    linarith
  · intro p' hp'
    obtain ⟨p, hp, rfl⟩ := List.mem_map.mp hp'
    split <;> exact ⟨h.margin_nonneg p hp, h.owner p hp⟩

/-- **One request or event.** -/
theorem Balanced.effect {req : Request} (h : Balanced c db)
    (he : Effect cfg c Positive db req db') : Balanced c db' := by
  cases he with
  | same => exact h
  | createOrder hc => exact h.createOrder hc
  | closePosition hc _ => exact h.closePosition hc
  | cancelOrder hc => exact h.cancelOrder hc
  | syncBalance hc => exact h.syncBalance hc
  | setMarginType hc => exact h.setMarginType hc
  | applyLiquidation hc => exact h.applyLiquidation hc

theorem Seeded.balanced (h : Seeded c db) : Balanced c db where
  valid := h.valid
  owner p hp := by rw [h.positions] at hp; cases hp
  margin_nonneg p hp := by rw [h.positions] at hp; cases hp
  sum a ha := by rw [h.marginUsed a ha, h.positions]; rfl

/-! ## The balance covers it -/

/-- Every account's balance covers its `margin_used`. -/
def Covered (db : Db) : Prop := ∀ a ∈ db.accounts, a.marginUsed ≤ a.balance

/-- `margin_used` of the user's account; a new account has 0. -/
def Db.marginUsedOf (db : Db) (userId : ℤ) : ℚ :=
  ((findRow Account.userId userId db.accounts).map Account.marginUsed).getD 0

theorem Db.marginUsedOf_eq (hv : db.Valid c) {a : Account} (ha : a ∈ db.accounts) :
    db.marginUsedOf a.userId = a.marginUsed := by
  rw [Db.marginUsedOf, hv.accountUsers.findRow ha]
  rfl

theorem OpenAccount.Current.marginUsed {o : OpenAccount} {userId : ℤ}
    (h : o.Current db userId) (hv : db.Valid c) :
    o.account.marginUsed = db.marginUsedOf userId := by
  unfold OpenAccount.Current at h
  split at h
  · rw [Db.marginUsedOf, findRow_none.mpr (selectAccountOf_nil h.1), h.2]
    rfl
  · obtain ⟨ha, rfl⟩ := selectAccountOf_eq h
    exact (Db.marginUsedOf_eq hv ha).symm

theorem Covered.opened (h : Covered db) {o : OpenAccount} {userId : ℤ} (ho : o.Current db userId) :
    ∀ a ∈ o.accounts c db.accounts, a.marginUsed ≤ a.balance := by
  intro a ha
  unfold OpenAccount.Current at ho
  unfold OpenAccount.accounts at ha
  split at ho
  · rename_i hf
    rw [if_pos hf] at ha
    rcases List.mem_append.mp ha with ha | ha
    · exact h a ha
    · rw [List.mem_singleton.mp ha, ho.2]
      simp [storeAccount]
  · rename_i hf
    rw [if_neg hf] at ha
    exact h a ha

/-- The account that a call reads or inserts is a row that the columns hold. -/
theorem OpenAccount.Current.stored {o : OpenAccount} {userId : ℤ} (h : o.Current db userId)
    (hv : db.Valid c) (h₁ : db.flush c o.writes = some db') : o.account.Stored c := by
  have hv₁ := hv.flush h₁
  rw [OpenAccount.flush_writes h₁] at hv₁
  exact hv₁.accounts.rows _ (h.mem (c := c))

theorem Covered.createOrder {A : Answer → Prop} (h : Covered db) (hb : Balanced c db)
    {payload : OrderCreate} {s : CreateOrder.Placed cfg} {position : Option Position} {i t : ℕ}
    (hc : CreateOrder.Committed c db payload A s position i t db') : Covered db' := by
  rw [hc.eq hb.valid]
  intro a' ha'
  obtain ⟨a, ha, rfl⟩ := mem_modify.mp ha'
  split
  · obtain ⟨db₁, h₁⟩ := hc.opened_flush
    have stored : s.account.Stored c := hc.opened.stored hb.valid h₁
    show c.store (s.account.marginUsed + s.approval.requiredMargin) ≤ c.store s.account.balance
    rw [stored.1.store]
    exact stored.1.store_le s.approved.margin_le
  · exact h.opened hc.opened a ha

theorem Covered.closePosition (h : Covered db) (hb : Balanced c db) {userId : ℤ} {symbol : String}
    {s : ClosePosition.Loaded} {closePrice : PyFloat} {account : Option Account} {o t : ℕ}
    (hc : ClosePosition.Committed c db userId symbol s closePrice account o t db') :
    Covered db' := by
  obtain ⟨b, hbm, rfl, -, hle⟩ := hc.holds hb
  rw [hc.eq hb.valid]
  intro a' ha'
  obtain ⟨a, ha, rfl⟩ := mem_modify.mp ha'
  split
  · have stored := hb.valid.accounts.rows b hbm
    show c.store (max (b.marginUsed - s.position.margin) 0) ≤ c.store b.balance
    rw [max_eq_left (by linarith), stored.1.store]
    refine stored.1.store_le ?_
    linarith [h b hbm, hb.margin_nonneg _ hc.mem.1]
  · exact h a ha

/-- When the balances that it stores cover the account's `margin_used`. -/
theorem Covered.syncBalance {A : Answer → Prop} (h : Covered db) (hb : Balanced c db) {userId : ℤ}
    (hw : ∀ a, A a → ∀ b, a.wallet = .ok (some b) → db.marginUsedOf userId ≤ c.store b)
    {o : OpenAccount} {balance : ℚ} (hc : SyncBalance.Committed c db userId A o balance db') :
    Covered db' := by
  rw [hc.eq hb.valid]
  intro a' ha'
  obtain ⟨a, ha, rfl⟩ := mem_modify.mp ha'
  split
  · obtain ⟨db₁, h₁⟩ := hc.opened_flush
    have stored := hc.opened.stored hb.valid h₁
    obtain ⟨a, hA, hb'⟩ := hc.wallet
    show c.store o.account.marginUsed ≤ c.store balance
    rw [stored.2.store, hc.opened.marginUsed hb.valid]
    exact hw a hA balance hb'
  · exact h.opened hc.opened a ha

theorem Covered.applyLiquidation (h : Covered db) (hb : Balanced c db) {symbol : String}
    {s : ApplyLiquidation.Loop} (hc : ApplyLiquidation.Committed c db symbol s db') :
    Covered db' := by
  rw [hc.eq hb.valid]
  intro a' ha'
  obtain ⟨a, ha, rfl⟩ := List.mem_map.mp ha'
  show c.store _ ≤ a.balance
  rw [ApplyLiquidation.store_releaseAll hb symbol ha]
  have : 0 ≤ ApplyLiquidation.marginIn (db.livePositionsIn symbol) a.id :=
    ApplyLiquidation.marginIn_nonneg
      (fun p hp => hb.margin_nonneg p (mem_livePositionsIn.mp hp).1) _
  linarith [h a ha]

/-- A request or event keeps the accounts covered, when the balances it stores cover theirs. -/
theorem Covered.effect {A : Answer → Prop} {req : Request} (h : Covered db) (hb : Balanced c db)
    (hw : ∀ userId, req = .syncBalance userId → ∀ a, A a → ∀ b, a.wallet = .ok (some b) →
      db.marginUsedOf userId ≤ c.store b)
    (he : Effect cfg c A db req db') : Covered db' := by
  cases he with
  | same => exact h
  | cancelOrder hc =>
    obtain ⟨-, -, -, e⟩ := hc.eq hb.valid
    rw [e]; exact h
  | setMarginType hc =>
    obtain ⟨f, e⟩ := SetMarginType.flush_eq
      (hb.valid.positions.keyed.sublist (List.filter_sublist.map _)) hc
    rw [e]; exact h
  | createOrder hc => exact h.createOrder hb hc
  | closePosition hc _ => exact h.closePosition hb hc
  | @syncBalance userId _ _ _ hc => exact h.syncBalance hb (hw userId rfl) hc
  | applyLiquidation hc => exact h.applyLiquidation hb hc

/-! ## Every run -/

/-- The prices that the exchange reports during a request are positive. -/
def PositivePrices (as : List Answer) : Prop := ∀ a ∈ as, Positive a

instance (as : List Answer) : Decidable (PositivePrices as) :=
  inferInstanceAs (Decidable (∀ a ∈ as, ∀ x ∈ a.price, 0 < x.value))

/-- A balance that `sync_balance_from_exchange` may store covers `margin_used` at that moment. -/
def CoveredSync (c : Column) (w : World) (a : Request × List Answer) : Prop :=
  ∀ userId, a.1 = .syncBalance userId → ∀ x ∈ a.2, ∀ b, x.wallet = .ok (some b) →
    w.db.marginUsedOf userId ≤ c.store b

theorem ledger_balanced (cfg : Config) (c : Column) :
    ((ledger cfg c).restrict fun _ a => PositivePrices a.2).Inductive fun w => Balanced c w.db where
  init _ h := h.balanced
  step _ _ _ h := by
    rintro ⟨hp, r, hr⟩
    exact h.effect (handle_effect hp hr)

theorem ledger_covered (cfg : Config) (c : Column) :
    ((ledger cfg c).restrict fun w a => PositivePrices a.2 ∧ CoveredSync c w a).Inductive
      fun w => Balanced c w.db ∧ Covered w.db where
  init _ h := ⟨h.balanced, fun a ha => by rw [h.marginUsed a ha]; exact h.balance a ha⟩
  step w a _ h := by
    obtain ⟨hb, hc⟩ := h
    rintro ⟨⟨hp, hs⟩, r, hr⟩
    exact ⟨hb.effect (handle_effect hp hr), hc.effect hb hs (handle_effect (fun _ hx => hx) hr)⟩

/-- **Reserved margin.** In every state that a run of the ledger reaches with positive prices,
`margin_used` of an account is the margin of its live positions, and no release was or will be cut
off at 0; and it stays within the balance when every balance from the exchange covered it. -/
theorem marginUsed_eq_liveMargin (cfg : Config) :
    (∀ w, ((ledger cfg (.numeric 8)).restrict fun _ a => PositivePrices a.2).Reach w →
      ∀ a ∈ w.db.accounts, 0 ≤ a.marginUsed ∧ a.marginUsed = liveMargin w.db.positions a.id ∧
        (∀ p ∈ w.db.positions, p.accountId = a.id → p.liquidated = false →
          max (a.marginUsed - p.margin) 0 = a.marginUsed - p.margin) ∧
        ∀ symbol, ApplyLiquidation.releaseAll a.id (w.db.livePositionsIn symbol) a.marginUsed =
          a.marginUsed - ApplyLiquidation.marginIn (w.db.livePositionsIn symbol) a.id) ∧
    ∀ w, ((ledger cfg (.numeric 8)).restrict fun w a =>
        PositivePrices a.2 ∧ CoveredSync (.numeric 8) w a).Reach w →
      ∀ a ∈ w.db.accounts, a.marginUsed ≤ a.balance := by
  refine ⟨fun w hw a ha => ?_, fun w hw => ((ledger_covered cfg _).reach hw).2⟩
  have h := (ledger_balanced cfg (.numeric 8)).reach hw
  refine ⟨h.marginUsed_nonneg ha, h.sum a ha, fun p hp e hl => max_eq_left ?_, fun symbol => ?_⟩
  · have := held_le_liveMargin h.margin_nonneg hp a.id
    rw [Position.held, if_pos ⟨e, hl⟩, ← h.sum a ha] at this
    linarith
  · exact ApplyLiquidation.releaseAll_eq
      (fun p hp => h.margin_nonneg p (mem_livePositionsIn.mp hp).1)
      (ApplyLiquidation.marginIn_le h symbol ha)

open Sample in
/-- The result for the run with one accepted order. -/
theorem marginUsed_eq_liveMargin_order :
    ∃ w, ((ledger config (.numeric 8)).restrict fun w a =>
        PositivePrices a.2 ∧ CoveredSync (.numeric 8) w a).Reach w ∧
      ∃ a ∈ w.db.accounts, a.marginUsed = 10 ∧
        a.marginUsed = liveMargin w.db.positions a.id ∧ a.marginUsed ≤ a.balance := by
  let act : Request × List Answer :=
    (.createOrder (order "BTCUSDT" .buy 1 0), accepted (dec 1 2) 1)
  have hrun : (handle config (.numeric 8) act.1 act.2 (start 1000)).map (fun x => x.1.db.accounts) =
      some [⟨1, 1, 1000, 10⟩] := by decide +kernel
  obtain ⟨⟨w, r⟩, hw, hacc⟩ := Option.map_eq_some_iff.mp hrun
  have hp : PositivePrices act.2 := by decide +kernel
  have hs : Seeded (.numeric 8) (start 1000).db := seeded (by norm_num) (by decide +kernel)
  have hsync : CoveredSync (.numeric 8) (start 1000) act := fun _ e => by cases e
  have ha : ⟨1, 1, 1000, 10⟩ ∈ w.db.accounts := by rw [hacc]; exact List.mem_cons_self
  have h := marginUsed_eq_liveMargin config
  refine ⟨w, .step act (.init hs) ⟨⟨hp, hsync⟩, r, hw⟩, _, ha, rfl, ?_, ?_⟩
  · exact (h.1 w (.step act (.init hs) ⟨hp, r, hw⟩) _ ha).2.1
  · exact h.2 w (.step act (.init hs) ⟨⟨hp, hsync⟩, r, hw⟩) _ ha

end CryptoExchange
