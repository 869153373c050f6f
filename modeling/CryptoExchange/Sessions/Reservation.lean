import CryptoExchange.Ledger.Margin
import CryptoExchange.Lib.Machine

/-!
# Orders of one user, interleaved

`create_order` reads the account, awaits the price, the exposures and the exchange, and then writes
`margin_used` as an absolute value: the value it read with its own margin. Two calls that read the
same value leave the margin of one. `reservations` is the system of any number of calls by one user;
no reservation is lost in a run in which each call that commits still finds the value it read
(`Unchanged`).
-/

namespace CryptoExchange

open Lib Db

variable {cfg : Config} {c : Column} {db db' : Db} {userId : ℤ}

/-- `m` with the `xs` added one by one, each time as the column keeps it. -/
def addAll (c : Column) (m : ℚ) (xs : List ℚ) : ℚ := xs.foldl (fun m x => c.store (m + x)) m

theorem addAll_append (m : ℚ) (xs : List ℚ) (x : ℚ) :
    addAll c m (xs ++ [x]) = c.store (addAll c m xs + x) := by
  rw [addAll, List.foldl_append]
  rfl

theorem addAll_exact (m : ℚ) (xs : List ℚ) : addAll .exact m xs = m + xs.sum := by
  induction xs generalizing m with
  | nil => simp [addAll]
  | cons x xs ih =>
    show addAll .exact (m + x) xs = _
    rw [ih, List.sum_cons, add_assoc]

/-! ## What a call knows of its account -/

/-- The balance that the call read is still the account's; a new account has none. -/
def OpenAccount.Known (db : Db) (userId : ℤ) (o : OpenAccount) : Prop :=
  if o.fresh then o.account = ⟨o.account.id, userId, 0, 0⟩
  else ∃ a ∈ db.accounts, a.id = o.account.id ∧ a.userId = userId ∧ a.balance = o.account.balance

/-- Every account is still there, with its balance. -/
def SameBalances (db db' : Db) : Prop :=
  ∀ a ∈ db.accounts, ∃ a' ∈ db'.accounts, a'.id = a.id ∧ a'.userId = a.userId ∧
    a'.balance = a.balance

theorem OpenAccount.Known.of_sameBalances {o : OpenAccount} (h : o.Known db userId)
    (hs : SameBalances db db') : o.Known db' userId := by
  unfold OpenAccount.Known at h ⊢
  split at h
  · rename_i hf
    rw [if_pos hf]
    exact h
  · rename_i hf
    rw [if_neg hf]
    obtain ⟨a, ha, e₁, e₂, e₃⟩ := h
    obtain ⟨a', ha', e₁', e₂', e₃'⟩ := hs a ha
    exact ⟨a', ha', e₁'.trans e₁, e₂'.trans e₂, e₃'.trans e₃⟩

theorem OpenAccount.subset_accounts (o : OpenAccount) {a : Account} (ha : a ∈ db.accounts) :
    a ∈ o.accounts c db.accounts := by
  unfold OpenAccount.accounts
  split
  · exact List.mem_append_left _ ha
  · exact ha

/-- The account's row, once the session has flushed a new account. -/
theorem OpenAccount.Known.row {o : OpenAccount} (h : o.Known db userId) (hv : db.Valid c)
    (hw : db.flush c o.writes = some db') :
    ∃ a ∈ db'.accounts, a.id = o.account.id ∧ a.userId = userId ∧ a.balance = o.account.balance ∧
      a.marginUsed = db.marginUsedOf userId ∧ (a ∈ db.accounts ∨ a = ⟨a.id, userId, 0, 0⟩) := by
  rw [OpenAccount.flush_writes hw]
  unfold OpenAccount.Known at h
  split at h
  · rename_i hf
    have hs : storeAccount c o.account = o.account := by rw [h]; simp [storeAccount]
    have hnone : findRow Account.userId userId db.accounts = none := by
      rw [OpenAccount.writes, if_pos hf] at hw
      refine findRow_none.mpr fun b hb => ?_
      have := ((flush_insertAccount hw).1 b hb).2
      rwa [h] at this
    refine ⟨o.account, ?_, rfl, by rw [h], rfl, ?_, .inr h⟩
    · show o.account ∈ o.accounts c db.accounts
      rw [OpenAccount.accounts, if_pos hf, hs]
      exact List.mem_append_right _ List.mem_cons_self
    · rw [Db.marginUsedOf, hnone, h]
      rfl
  · obtain ⟨a, ha, e₁, rfl, e₃⟩ := h
    exact ⟨a, o.subset_accounts ha, e₁, rfl, e₃, (Db.marginUsedOf_eq hv ha).symm, .inl ha⟩

theorem GetAccount.known {w : World} {ans : Answer} {p : GetAccount} {o : OpenAccount}
    (h : p.step c userId w ans = .done (.ok o)) : o.Known w.db userId := by
  cases p with
  | select =>
    simp only [GetAccount.step] at h
    split at h
    · cases h
    split at h
    · cases h
    · rename_i hs
      cases h
      obtain ⟨ha, hu⟩ := selectAccountOf_eq (scalarOneOrNone_some hs)
      exact ⟨_, ha, rfl, hu, rfl⟩
    · cases h
  | flush =>
    simp only [GetAccount.step] at h
    split at h
    · cases h
    · cases h
      rfl

namespace CreateOrder

/-- What a call of the user knows in each phase. -/
def Knows (db : Db) (userId : ℤ) : Phase cfg → Prop
  | .selectUser payload | .getAccount payload _ _ => payload.userId = userId
  | .getPrice s | .userExposure s _ | .globalExposure s _ _ =>
    s.payload.userId = userId ∧ s.opened.Known db userId
  | .newOrder s | .flushOrder s _ => s.payload.userId = userId ∧ s.opened.Known db userId
  | .redisSet s _ | .selectPosition s | .commit s _ =>
    s.payload.userId = userId ∧ s.opened.Known db userId
  | .refresh _ => True

theorem Knows.of_sameBalances {p : Phase cfg} (h : Knows db userId p)
    (hs : SameBalances db db') : Knows db' userId p := by
  cases p with
  | selectUser payload => exact h
  | getAccount payload user q => exact h
  | refresh s => exact h
  | _ => exact ⟨h.1, h.2.of_sameBalances hs⟩

/-- The margin that a step reserves: that of a call that commits. -/
def reserves : Phase cfg → After (Phase cfg) Reply → List ℚ
  | .commit s _, .await (.refresh _) => [s.approval.requiredMargin]
  | _, _ => []

/-- A step leaves the tables as they are, or is the commit. -/
theorem step_db {w w' : World} {a : Answer} {p : Phase cfg} {n : After (Phase cfg) Reply}
    (h : step cfg c w a p = (w', n)) :
    (w'.db = w.db ∧ reserves p n = []) ∨
    ∃ s position, p = .commit s position ∧ n = .await (.refresh s) ∧
      w.db.flush c (s.writes position a.rowId a.tradeId) = some w'.db := by
  cases step_cases h with
  | failed e =>
    refine .inl ⟨e, ?_⟩
    cases p <;> rfl
  | committed hc => exact .inr ⟨_, _, rfl, rfl, World.commit_db hc⟩
  | _ => exact .inl ⟨rfl, rfl⟩

theorem knows_await {w w' : World} {a : Answer} {p p' : Phase cfg} (hk : Knows w.db userId p)
    (h : step cfg c w a p = (w', .await p')) : Knows w'.db userId p' := by
  cases step_cases h with
  | opened hs => exact ⟨hk, hk ▸ GetAccount.known hs⟩
  | committed => trivial
  | _ => exact hk

/-! ## The commit -/

variable {s : Placed cfg} {position : Option Position} {i t : ℕ}

/-- The account of the commit: the row that is there now, with `margin_used` overwritten. -/
theorem flush_accounts (h : db.flush c (s.writes position i t) = some db') :
    db'.accounts = modify Account.id s.account.id (patchAccount c s.account s.reserved)
      (s.opened.accounts c db.accounts) := by
  rw [flush_tables h]

theorem sameBalances_commit (h : db.flush c (s.writes position i t) = some db') :
    SameBalances db db' := by
  intro a ha
  refine ⟨if a.id = s.account.id then patchAccount c s.account s.reserved a else a, ?_, ?_⟩
  · rw [flush_accounts h]
    exact mem_modify.mpr ⟨a, s.opened.subset_accounts ha, rfl⟩
  split
  · exact ⟨rfl, rfl, if_pos rfl⟩
  · exact ⟨rfl, rfl, rfl⟩

/-- The commit overwrites the account's `margin_used` with what the call computed. -/
theorem commit_account (hv : db.Valid c) (hk : s.opened.Known db userId)
    (h : db.flush c (s.writes position i t) = some db') :
    ∃ a ∈ db'.accounts, a.userId = userId ∧ a.balance = s.account.balance ∧
      a.marginUsed = patch c.store s.account.marginUsed s.reserved.marginUsed
        (db.marginUsedOf userId) := by
  obtain ⟨db₁, h₁⟩ := flush_opened h
  obtain ⟨a, ha, e₁, e₂, e₃, e₄, -⟩ := hk.row hv h₁
  rw [OpenAccount.flush_writes h₁] at ha
  refine ⟨patchAccount c s.account s.reserved a, ?_, e₂, ?_, ?_⟩
  · rw [flush_accounts h]
    exact mem_modify.mpr ⟨a, ha, if_pos e₁⟩
  · exact (if_pos rfl).trans e₃
  · rw [← e₄]
    rfl

theorem marginUsedOf_commit (hv : db.Valid c) (hk : s.opened.Known db userId)
    (h : db.flush c (s.writes position i t) = some db')
    (hu : db.marginUsedOf userId = s.account.marginUsed) :
    db'.marginUsedOf userId =
      c.store (db.marginUsedOf userId + s.approval.requiredMargin) := by
  obtain ⟨a, ha, rfl, -, e⟩ := commit_account hv hk h
  obtain ⟨db₁, h₁⟩ := flush_opened h
  obtain ⟨b, hb, -, -, -, e₄, -⟩ := hk.row hv h₁
  have stored : c.store (db.marginUsedOf a.userId) = db.marginUsedOf a.userId := by
    rw [← e₄]
    exact ((hv.flush h₁).accounts.rows b hb).2
  rw [marginUsedOf_eq (hv.flush h) ha, e, ← hu, patch_self stored, hu]
  rfl

/-- The commit keeps `margin_used` within the balance: the call checked it with its own. -/
theorem covered_commit (hv : db.Valid c) (hk : s.opened.Known db userId)
    (h : db.flush c (s.writes position i t) = some db')
    (hc : ∀ a ∈ db.accounts, a.userId = userId → a.marginUsed ≤ a.balance) :
    ∀ a ∈ db'.accounts, a.userId = userId → a.marginUsed ≤ a.balance := by
  intro a' ha' hu'
  have hv' := hv.flush h
  obtain ⟨a, ha, hu, hb, hm⟩ := commit_account hv hk h
  have e : a' = a := hv'.accountUsers.eq_of_key ha' ha (hu'.trans hu.symm)
  rw [e, hm, hb, patch]
  split
  · obtain ⟨db₁, h₁⟩ := flush_opened h
    obtain ⟨b, -, -, hbu, hbal, hbm, hold⟩ := hk.row hv h₁
    rw [← hbm, show s.account.balance = b.balance from hbal.symm]
    rcases hold with hold | hnew
    · exact hc b hold hbu
    · rw [hnew]
  · rename_i hne
    have hs : c.Holds s.account.balance := hb ▸ (hv'.accounts.rows a ha).1
    exact hs.store_le s.approved.margin_le

end CreateOrder

/-! ## Interleaved calls -/

/-- Any number of calls by the user, from a start that satisfies `I`; the record is the margins
of the calls that committed, in the order of their commits. -/
def reservations (cfg : Config) (c : Column) (userId : ℤ) (I : Db → Prop) : Sys :=
  interleave (recorded (CreateOrder.step cfg c) CreateOrder.reserves) fun w ts =>
    w.1.db.Valid c ∧ I w.1.db ∧ w.2 = [] ∧
      ∀ t ∈ ts, ∃ payload, payload.userId = userId ∧ t = .await (.selectUser payload)

/-- A property of the tables and of the record that every commit keeps. -/
theorem reservations_inductive {I : Db → Prop} {C : World × List ℚ → Answer →
    CreateOrder.Phase cfg → Prop} {Q : Db → List ℚ → Prop} (hI : ∀ db, I db → Q db [])
    (hcommit : ∀ w a s position, C w a (.commit s position) → w.1.db.Valid c →
      s.opened.Known w.1.db userId → Q w.1.db w.2 → ∀ db',
        w.1.db.flush c (s.writes position a.rowId a.tradeId) = some db' →
        Q db' (w.2 ++ [s.approval.requiredMargin])) :
    ((reservations cfg c userId I).restrict (StepMeets C)).Inductive fun s =>
      (s.1.1.db.Valid c ∧ Q s.1.1.db s.1.2) ∧
        ∀ p, .await p ∈ s.2 → CreateOrder.Knows s.1.1.db userId p := by
  refine interleave_inductive (G := fun w : World × List ℚ => w.1.db.Valid c ∧ Q w.1.db w.2)
    (T := fun w p => CreateOrder.Knows w.1.db userId p) ?_ ?_
  · rintro w ts ⟨hv, hi, hg, hts⟩
    refine ⟨⟨hv, hg ▸ hI _ hi⟩, fun p hp => ?_⟩
    obtain ⟨payload, hu, e⟩ := hts _ hp
    cases e
    exact hu
  · rintro w a p w' n ⟨hv, hq⟩ hk hC h
    obtain ⟨h, hg⟩ := recorded_eq h
    have own : ∀ p', n = .await p' → CreateOrder.Knows w'.1.db userId p' := by
      rintro p' rfl
      exact CreateOrder.knows_await hk h
    rcases CreateOrder.step_db h with ⟨e, hr⟩ | ⟨s, position, rfl, rfl, hf⟩
    · rw [hr, List.append_nil] at hg
      rw [hg, e]
      rw [e] at own
      exact ⟨⟨hv, hq⟩, own, fun q hq => hq⟩
    · refine ⟨⟨hv.flush hf, ?_⟩, own, fun q hq =>
        hq.of_sameBalances (CreateOrder.sameBalances_commit hf)⟩
      rw [hg]
      exact hcommit w a s position hC hv hk.2 hq _ hf

/-- The `margin_used` that a call read before the commit that it awaits. -/
def CreateOrder.read : CreateOrder.Phase cfg → Option ℚ
  | .commit s _ => some s.account.marginUsed
  | _ => none

/-- A call that commits finds the `margin_used` that it read. -/
def Unchanged (userId : ℤ) (w : World × List ℚ) (_ : Answer) (p : CreateOrder.Phase cfg) : Prop :=
  ∀ m ∈ CreateOrder.read p, w.1.db.marginUsedOf userId = m

instance (userId : ℤ) (w : World × List ℚ) (a : Answer) (p : CreateOrder.Phase cfg) :
    Decidable (Unchanged userId w a p) :=
  inferInstanceAs (Decidable (∀ m ∈ CreateOrder.read p, _ = m))

theorem reservations_kept (cfg : Config) (c : Column) (userId : ℤ) (m : ℚ) :
    ((reservations cfg c userId fun db => db.marginUsedOf userId = m).restrict
      (StepMeets (Unchanged userId))).Inductive fun s =>
        (s.1.1.db.Valid c ∧ s.1.1.db.marginUsedOf userId = addAll c m s.1.2) ∧
          ∀ p, .await p ∈ s.2 → CreateOrder.Knows s.1.1.db userId p := by
  refine reservations_inductive (Q := fun db g => db.marginUsedOf userId = addAll c m g)
    (fun _ hm => hm) fun w a s position hC hv hk hq db' hf => ?_
  rw [addAll_append, CreateOrder.marginUsedOf_commit hv hk hf (hC _ rfl), hq]

/-- `margin_used` of the user is within the balance. -/
def CoveredUser (userId : ℤ) (db : Db) : Prop :=
  ∀ a ∈ db.accounts, a.userId = userId → a.marginUsed ≤ a.balance

theorem reservations_covered (cfg : Config) (c : Column) (userId : ℤ) :
    ((reservations cfg c userId (CoveredUser userId)).restrict
      (StepMeets fun _ _ _ => True)).Inductive fun s =>
        (s.1.1.db.Valid c ∧ CoveredUser userId s.1.1.db) ∧
          ∀ p, .await p ∈ s.2 → CreateOrder.Knows s.1.1.db userId p :=
  reservations_inductive (Q := fun db _ => CoveredUser userId db) (fun _ hm => hm)
    fun _ _ _ _ _ hv hk hq _ hf => CreateOrder.covered_commit hv hk hf hq

/-- **Reservations.** In a run of calls by one user in which each call that commits finds the
`margin_used` that it read, `margin_used` is what it was with the margins of the calls that
committed: each added as the column keeps it, and without rounding their sum. In every run it stays
within the balance. -/
theorem reservations_not_lost (cfg : Config) (userId : ℤ) (m : ℚ) :
    (∀ c, ∀ s, ((reservations cfg c userId fun db => db.marginUsedOf userId = m).restrict
      (StepMeets (Unchanged userId))).Reach s →
        s.1.1.db.marginUsedOf userId = addAll c m s.1.2) ∧
    (∀ s, ((reservations cfg .exact userId fun db => db.marginUsedOf userId = m).restrict
      (StepMeets (Unchanged userId))).Reach s →
        s.1.1.db.marginUsedOf userId = m + s.1.2.sum) ∧
    ∀ c, ∀ s, (reservations cfg c userId (CoveredUser userId)).Reach s →
      CoveredUser userId s.1.1.db := by
  refine ⟨fun c s h => ((reservations_kept cfg c userId m).reach h).1.2, fun s h => ?_,
    fun c s h => ?_⟩
  · rw [← addAll_exact]
    exact ((reservations_kept cfg .exact userId m).reach h).1.2
  · exact ((reservations_covered cfg c userId).reach (h.restrict fun _ _ _ _ => trivial)).1.2

/-! ## Two orders -/

namespace Sample

/-- Two calls of the user, for 1 BTC and 1 ETH. -/
def twoOrders : (World × List ℚ) × List (After (CreateOrder.Phase config) CreateOrder.Reply) :=
  ((start 1000, []), [.await (.selectUser (order "BTCUSDT" .buy 1 0)),
    .await (.selectUser (order "ETHUSDT" .buy 1 0))])

theorem twoOrders_init {c : Column} {I : Db → Prop} (hI : I (start 1000).db)
    (hb : c.Holds 1000) : (reservations config c 1 I).init twoOrders := by
  refine ⟨(seeded (by norm_num) hb).valid, hI, rfl, fun t ht => ?_⟩
  simp only [twoOrders, List.mem_cons, List.not_mem_nil, or_false] at ht
  rcases ht with rfl | rfl
  · exact ⟨_, rfl, rfl⟩
  · exact ⟨_, rfl, rfl⟩

/-- One call after the other. -/
def inTurn : List (ℕ × Answer) :=
  (accepted (dec 1 2) 1).map ((0, ·)) ++ (accepted (dec 1 2) 2).map ((1, ·))

/-- The second call runs after the first has read the account. -/
def overtaken : List (ℕ × Answer) :=
  ((accepted (dec 1 2) 2).take 2).map ((0, ·)) ++ (accepted (dec 1 2) 1).map ((1, ·)) ++
    ((accepted (dec 1 2) 2).drop 2).map ((0, ·))

end Sample

open Sample in
/-- The result for the two calls in turn. -/
theorem reservations_not_lost_inTurn :
    ∃ s, ((reservations config (.numeric 8) 1 fun db => db.marginUsedOf 1 = 0).restrict
        (StepMeets (Unchanged 1))).Reach s ∧ s.2.all Next.isDone ∧ s.1.2 = [10, 10] ∧
      s.1.1.db.marginUsedOf 1 = addAll (.numeric 8) 0 s.1.2 := by
  let f := exec (recorded (CreateOrder.step config (.numeric 8)) CreateOrder.reserves) (Unchanged 1)
  have hrun : (inTurn.foldlM f twoOrders).map (fun s => (s.2.all Next.isDone, s.1.2)) =
      some (true, [10, 10]) := by decide +kernel
  obtain ⟨s, hs, h⟩ := Option.map_eq_some_iff.mp hrun
  obtain ⟨hdone, hg⟩ := Prod.mk.inj h
  have hinit : (reservations config (.numeric 8) 1 fun db => db.marginUsedOf 1 = 0).init twoOrders :=
    twoOrders_init (by decide +kernel) (by decide +kernel)
  have hreach : ((reservations config (.numeric 8) 1 fun db => db.marginUsedOf 1 = 0).restrict
      (StepMeets (Unchanged 1))).Reach s :=
    .foldlM (f := f) (fun _ _ _ _ h => exec_step h) (.init hinit) hs
  exact ⟨s, hreach, hdone, hg, (reservations_not_lost config 1 0).1 _ s hreach⟩

open Sample in
/-- Both calls read 0 and commit their margin of 10, and `margin_used` is 10. -/
theorem reservation_lost :
    ∃ s, (reservations config .exact 1 fun db => db.marginUsedOf 1 = 0).Reach s ∧
      s.2.all Next.isDone ∧ s.1.2 = [10, 10] ∧ s.1.1.db.marginUsedOf 1 = 10 ∧
      s.1.1.db.marginUsedOf 1 ≠ 0 + s.1.2.sum := by
  let f := exec (recorded (CreateOrder.step config .exact) CreateOrder.reserves) fun _ _ _ => True
  have hrun : (overtaken.foldlM f twoOrders).map
      (fun s => (s.2.all Next.isDone, s.1.2, s.1.1.db.marginUsedOf 1)) =
        some (true, [10, 10], 10) := by decide +kernel
  obtain ⟨s, hs, h⟩ := Option.map_eq_some_iff.mp hrun
  simp only [Prod.mk.injEq] at h
  obtain ⟨hdone, hg, hm⟩ := h
  have hinit : (reservations config .exact 1 fun db => db.marginUsedOf 1 = 0).init twoOrders :=
    twoOrders_init (by decide +kernel) rfl
  have hreach : ((reservations config .exact 1 fun db => db.marginUsedOf 1 = 0).restrict
      (StepMeets fun _ _ _ => True)).Reach s :=
    .foldlM (f := f) (fun _ _ _ _ h => exec_step h) (.init hinit) hs
  refine ⟨s, hreach.of_restrict, hdone, hg, hm, ?_⟩
  rw [hm, hg]
  norm_num

end CryptoExchange
