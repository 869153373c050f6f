import CryptoExchange.Keys.Live
import CryptoExchange.Ledger.Service

/-!
# The demo users

`seed_initial_data` (`app/main.py`), which runs at every start: it inserts the default users that are
missing, sets password, tier and role of the others, and opens the accounts that are missing.

* `Database`: the tables with the users' password hashes; `Database.Valid` are their constraints.
* `seedInitialData`: the function. An `INSERT` whose key is taken fails it.
* `seedInitialData_eq`: on valid tables, the users are refreshed in place and the missing rows
  follow behind the others.
* `seed_safe`: what a start leaves, and that the next one changes password hashes only.
-/

namespace CryptoExchange

open Lib

/-! ## Inserts -/

/-- A row is refused when it clashes with one of the table. -/
def insertRow {α : Type} (clash : α → α → Prop) [DecidableRel clash] (l : List α) (x : α) :
    Option (List α) :=
  if ∃ y ∈ l, clash y x then none else some (l ++ [x])

theorem foldlM_insertRow {α : Type} {clash : α → α → Prop} [DecidableRel clash] {xs l : List α}
    (h : (l ++ xs).Pairwise fun y x => ¬clash y x) :
    xs.foldlM (insertRow clash) l = some (l ++ xs) := by
  induction xs generalizing l with
  | nil => rw [List.append_nil]; rfl
  | cons x xs ih =>
    have hfree : ¬∃ y ∈ l, clash y x := fun ⟨y, hy, hc⟩ =>
      (List.pairwise_append.mp h).2.2 y hy x List.mem_cons_self hc
    rw [← List.singleton_append, ← List.append_assoc] at h
    rw [List.foldlM_cons, insertRow, if_neg hfree]
    refine (ih h).trans ?_
    rw [List.append_assoc, List.singleton_append]

/-- Two columns with distinct values, as a condition on each pair of rows. -/
theorem pairwise_keyed {α β γ : Type} {f : α → β} {g : α → γ} {l : List α} (hf : Keyed f l)
    (hg : Keyed g l) : l.Pairwise fun y x => ¬(f y = f x ∨ g y = g x) := by
  refine ((List.pairwise_map.mp hf).and (List.pairwise_map.mp hg)).imp ?_
  rintro y x ⟨hf, hg⟩ (h | h)
  · exact hf h
  · exact hg h

/-! ## The tables -/

/-- A row of `users`, with the column that the ledger does not read. -/
structure UserRow extends User where
  passwordHash : String
  deriving DecidableEq

structure Database where
  users : List UserRow
  accounts : List Account
  positions : List Position
  orders : List Order
  trades : List Trade
  deriving DecidableEq

/-- Without the hashes. -/
def Database.ledger (s : Database) : Db :=
  ⟨s.users.map UserRow.toUser, s.accounts, s.positions, s.orders, s.trades⟩

/-- Primary keys, the unique columns and the foreign key of the two tables. -/
structure Database.Valid (s : Database) : Prop where
  userIds : Keyed (fun u : UserRow => u.id) s.users
  usernames : Keyed (fun u : UserRow => u.username) s.users
  accountIds : Keyed Account.id s.accounts
  accountUsers : Keyed Account.userId s.accounts
  owner : ∀ a ∈ s.accounts, ∃ u ∈ s.users, u.id = a.userId

/-! ## `seed_initial_data` -/

structure DefaultUser where
  username : String
  password : String
  tier : String
  role : String
  deriving DecidableEq

def defaultUsers : List DefaultUser :=
  [⟨"trader_1", "password123", "standard", "trader"⟩,
   ⟨"trader_2", "password456", "standard", "trader"⟩,
   ⟨"trader_3", "password789", "standard", "trader"⟩,
   ⟨"user_1", "password123", "standard", "trader"⟩,
   ⟨"user_2", "password456", "standard", "trader"⟩,
   ⟨"user_3", "password789", "standard", "trader"⟩,
   ⟨"admin_1", "adminpass1", "standard", "admin"⟩,
   ⟨"regulator_1", "regulatorpass1", "standard", "regulator"⟩]

/-- What is drawn for a username: the salt, and the ids that the sequences give. -/
structure Draws where
  salt : String → String
  userId : String → ℤ
  accountId : String → ℕ

namespace Seed

variable (pwd : PwdContext) (draws : Draws)

def hashPassword (d : DefaultUser) : String := pwd.hash (draws.salt d.username) d.password

def newUser (d : DefaultUser) : UserRow where
  id := draws.userId d.username
  username := d.username
  tier := d.tier
  role := d.role
  passwordHash := hashPassword pwd draws d

def refreshed (d : DefaultUser) (u : UserRow) : UserRow :=
  { u with passwordHash := hashPassword pwd draws d, tier := d.tier, role := d.role }

/-- `new_users` and `existing_users`. -/
structure Staged where
  newUsers : List UserRow
  existingUsers : List UserRow

/-- One turn of the first loop, over the users that were loaded. -/
def stage (loaded : List UserRow) (st : Staged) (d : DefaultUser) : Staged :=
  match findRow (fun u : UserRow => u.username) d.username loaded with
  | none => { st with newUsers := st.newUsers ++ [newUser pwd draws d] }
  | some user => { st with existingUsers := st.existingUsers ++ [refreshed pwd draws d user] }

/-- The `UPDATE` of an existing user. -/
def updateUser (users : List UserRow) (u : UserRow) : List UserRow :=
  modify (fun u : UserRow => u.id) u.id
    (fun now => { now with passwordHash := u.passwordHash, tier := u.tier, role := u.role }) users

def insertUser : List UserRow → UserRow → Option (List UserRow) :=
  insertRow fun y x => y.id = x.id ∨ y.username = x.username

def insertAccount : List Account → Account → Option (List Account) :=
  insertRow fun y x => y.id = x.id ∨ y.userId = x.userId

def newAccount (u : UserRow) : Account := ⟨draws.accountId u.username, u.id, 0, 0⟩

/-- `user.account is None`, as loaded. -/
def Accountless (loaded : List Account) (u : UserRow) : Prop :=
  findRow Account.userId u.id loaded = none

instance (loaded : List Account) (u : UserRow) : Decidable (Accountless loaded u) :=
  inferInstanceAs (Decidable (_ = _))

end Seed

open Seed in
def seedInitialData (pwd : PwdContext) (draws : Draws) (s : Database) : Option Database := do
  let st := defaultUsers.foldl (stage pwd draws s.users) ⟨[], []⟩
  let users := st.existingUsers.foldl updateUser s.users
  let users ← st.newUsers.foldlM insertUser users
  let accounts ← st.newUsers.foldlM (fun accounts u => insertAccount accounts (newAccount draws u))
    s.accounts
  let accounts ← st.existingUsers.foldlM (fun accounts u =>
    if Accountless s.accounts u then insertAccount accounts (newAccount draws u) else some accounts)
    accounts
  return { s with users, accounts }

/-! ## The two lists of users -/

namespace Seed

section

variable {pwd : PwdContext} {draws : Draws} {s : Database}

/-- The loaded user with the name of a default user. -/
def loadedAs (loaded : List UserRow) (d : DefaultUser) : Option UserRow :=
  findRow (fun u : UserRow => u.username) d.username loaded

variable (pwd draws) in
def newUsers (loaded : List UserRow) (ds : List DefaultUser) : List UserRow :=
  (ds.filter fun d => loadedAs loaded d = none).map (newUser pwd draws)

variable (pwd draws) in
def existingUsers (loaded : List UserRow) (ds : List DefaultUser) : List UserRow :=
  ds.filterMap fun d => (loadedAs loaded d).map (refreshed pwd draws d)

theorem foldl_stage (loaded : List UserRow) (ds : List DefaultUser) (st : Staged) :
    ds.foldl (stage pwd draws loaded) st =
      ⟨st.newUsers ++ newUsers pwd draws loaded ds,
        st.existingUsers ++ existingUsers pwd draws loaded ds⟩ := by
  induction ds generalizing st with
  | nil => simp [newUsers, existingUsers]
  | cons d ds ih =>
    rw [List.foldl_cons, ih]
    cases h : loadedAs loaded d with
    | none =>
      have hstage : stage pwd draws loaded st d =
          { st with newUsers := st.newUsers ++ [newUser pwd draws d] } := by
        rw [loadedAs] at h
        rw [stage, h]
      rw [hstage]
      simp [newUsers, existingUsers, h]
    | some u =>
      have hstage : stage pwd draws loaded st d =
          { st with existingUsers := st.existingUsers ++ [refreshed pwd draws d u] } := by
        rw [loadedAs] at h
        rw [stage, h]
      rw [hstage]
      simp [newUsers, existingUsers, h]

theorem loadedAs_some {loaded : List UserRow} {d : DefaultUser} {u : UserRow}
    (h : loadedAs loaded d = some u) : u ∈ loaded ∧ u.username = d.username :=
  findRow_mem h

theorem loadedAs_none {loaded : List UserRow} {d : DefaultUser} (h : loadedAs loaded d = none) :
    ∀ u ∈ loaded, u.username ≠ d.username :=
  findRow_none.mp h

theorem mem_newUsers {loaded : List UserRow} {ds : List DefaultUser} {u : UserRow} :
    u ∈ newUsers pwd draws loaded ds ↔
      ∃ d ∈ ds, loadedAs loaded d = none ∧ newUser pwd draws d = u := by
  simp [newUsers, and_assoc]

theorem mem_existingUsers {loaded : List UserRow} {ds : List DefaultUser} {u : UserRow} :
    u ∈ existingUsers pwd draws loaded ds ↔
      ∃ d ∈ ds, ∃ v, loadedAs loaded d = some v ∧ refreshed pwd draws d v = u := by
  simp [existingUsers]

theorem defaultUsers_keyed : Keyed DefaultUser.username defaultUsers := by decide

theorem newUsers_keyed {β : Type} {key : UserRow → β} (h : ∀ d ∈ defaultUsers, ∀ d' ∈ defaultUsers,
    loadedAs s.users d = none → loadedAs s.users d' = none →
    key (newUser pwd draws d) = key (newUser pwd draws d') → d.username = d'.username) :
    Keyed key (newUsers pwd draws s.users defaultUsers) := by
  rw [Keyed, List.Nodup, List.pairwise_map, newUsers, List.pairwise_map]
  have hpair := (List.pairwise_map.mp defaultUsers_keyed).filter
    fun d => decide (loadedAs s.users d = none)
  refine hpair.imp_of_mem fun {d d'} hd hd' hne e => hne ?_
  obtain ⟨hd, hnone⟩ := List.mem_filter.mp hd
  obtain ⟨hd', hnone'⟩ := List.mem_filter.mp hd'
  exact h d hd d' hd' (of_decide_eq_true hnone) (of_decide_eq_true hnone') e

theorem existingUsers_keyed {β : Type} {key : UserRow → β} (h : ∀ d d' : DefaultUser, ∀ v v',
    loadedAs s.users d = some v → loadedAs s.users d' = some v' →
    key (refreshed pwd draws d v) = key (refreshed pwd draws d' v') → d.username = d'.username) :
    Keyed key (existingUsers pwd draws s.users defaultUsers) := by
  rw [Keyed, List.Nodup, List.pairwise_map, existingUsers, List.pairwise_filterMap]
  refine (List.pairwise_map.mp defaultUsers_keyed).imp fun {d d'} hne u hu u' hu' e => hne ?_
  obtain ⟨v, hload, rfl⟩ := Option.map_eq_some_iff.mp hu
  obtain ⟨v', hload', rfl⟩ := Option.map_eq_some_iff.mp hu'
  exact h d d' v v' hload hload' e

theorem existingUsers_ids (hv : s.Valid) :
    Keyed (fun u : UserRow => u.id) (existingUsers pwd draws s.users defaultUsers) := by
  refine existingUsers_keyed fun d d' v v' hload hload' e => ?_
  obtain ⟨hm, hname⟩ := loadedAs_some hload
  obtain ⟨hm', hname'⟩ := loadedAs_some hload'
  obtain rfl : v = v' := hv.userIds.eq_of_key hm hm' e
  exact hname.symm.trans hname'

theorem existingUsers_names :
    Keyed (fun u : UserRow => u.username) (existingUsers pwd draws s.users defaultUsers) :=
  existingUsers_keyed fun _ _ _ _ hload hload' e =>
    (loadedAs_some hload).2.symm.trans (e.trans (loadedAs_some hload').2)

/-! ## The users -/

variable (pwd draws) in
/-- The row of a user after the loop. -/
def refresh (u : UserRow) : UserRow :=
  ((findRow DefaultUser.username u.username defaultUsers).map fun d =>
    refreshed pwd draws d u).getD u

theorem refresh_default {d : DefaultUser} (hd : d ∈ defaultUsers) {u : UserRow}
    (h : u.username = d.username) : refresh pwd draws u = refreshed pwd draws d u := by
  rw [refresh, h, defaultUsers_keyed.findRow hd]
  rfl

theorem refresh_other {u : UserRow} (h : ∀ d ∈ defaultUsers, d.username ≠ u.username) :
    refresh pwd draws u = u := by
  rw [refresh, findRow_none.mpr h]
  rfl

@[simp] theorem refresh_id (u : UserRow) : (refresh pwd draws u).id = u.id := by
  unfold refresh
  cases findRow DefaultUser.username u.username defaultUsers <;> rfl

@[simp] theorem refresh_username (u : UserRow) :
    (refresh pwd draws u).username = u.username := by
  unfold refresh
  cases findRow DefaultUser.username u.username defaultUsers <;> rfl

/-- The row that the session has for a loaded user. -/
theorem findRow_existing (hv : s.Valid) {u : UserRow} (hu : u ∈ s.users) :
    findRow (fun u : UserRow => u.id) u.id (existingUsers pwd draws s.users defaultUsers) =
      (findRow DefaultUser.username u.username defaultUsers).map fun d =>
        refreshed pwd draws d u := by
  cases hd : findRow DefaultUser.username u.username defaultUsers with
  | some d =>
    obtain ⟨hm, hname⟩ := findRow_mem hd
    have hload : loadedAs s.users d = some u := by
      rw [loadedAs, hname]
      exact hv.usernames.findRow hu
    exact (existingUsers_ids hv).findRow (mem_existingUsers.mpr ⟨d, hm, u, hload, rfl⟩)
  | none =>
    refine findRow_none.mpr fun e he hid => ?_
    obtain ⟨d, hm, v, hload, rfl⟩ := mem_existingUsers.mp he
    obtain ⟨hv', hname⟩ := loadedAs_some hload
    obtain rfl : v = u := hv.userIds.eq_of_key hv' hu hid
    exact findRow_none.mp hd d hm hname.symm

/-- The updates refresh the loaded users. -/
theorem foldl_updateUser (hv : s.Valid) :
    (existingUsers pwd draws s.users defaultUsers).foldl updateUser s.users =
      s.users.map (refresh pwd draws) := by
  have hkey : ∀ u now : UserRow, ({ now with
      passwordHash := u.passwordHash, tier := u.tier, role := u.role } : UserRow).id = now.id :=
    fun _ _ => rfl
  refine (foldl_modify (fun u : UserRow => u.id) _ hkey (existingUsers_ids hv) s.users).trans ?_
  refine List.map_congr_left fun u hu => ?_
  rw [findRow_existing hv hu, refresh]
  cases findRow DefaultUser.username u.username defaultUsers <;> rfl

/-! ## The rows that are inserted -/

/-- The default user has no account, or is missing. -/
def Unopened (s : Database) (d : DefaultUser) : Prop :=
  ∀ u, loadedAs s.users d = some u → Accountless s.accounts u

/-- The ids that the sequences give are distinct and not in use. -/
structure Unused (draws : Draws) (s : Database) : Prop where
  userId : ∀ d ∈ defaultUsers, loadedAs s.users d = none →
    ∀ u ∈ s.users, u.id ≠ draws.userId d.username
  userIds : ∀ d ∈ defaultUsers, ∀ d' ∈ defaultUsers, loadedAs s.users d = none →
    loadedAs s.users d' = none → draws.userId d.username = draws.userId d'.username →
    d.username = d'.username
  accountId : ∀ d ∈ defaultUsers, Unopened s d →
    ∀ a ∈ s.accounts, a.id ≠ draws.accountId d.username
  accountIds : ∀ d ∈ defaultUsers, ∀ d' ∈ defaultUsers, Unopened s d → Unopened s d' →
    draws.accountId d.username = draws.accountId d'.username → d.username = d'.username

variable (pwd draws s) in
/-- The users that get an account. -/
def owners : List UserRow :=
  newUsers pwd draws s.users defaultUsers ++
    (existingUsers pwd draws s.users defaultUsers).filter fun u => Accountless s.accounts u

theorem users_ids (hv : s.Valid) (hu : Unused draws s) : Keyed (fun u : UserRow => u.id)
    (s.users.map (refresh pwd draws) ++ newUsers pwd draws s.users defaultUsers) := by
  refine keyed_append.mpr ⟨hv.userIds.map refresh_id, newUsers_keyed hu.userIds, ?_⟩
  intro y hy x hx
  obtain ⟨u, hm, rfl⟩ := List.mem_map.mp hy
  obtain ⟨d, hd, hnone, rfl⟩ := mem_newUsers.mp hx
  rw [refresh_id]
  exact hu.userId d hd hnone u hm

theorem users_names (hv : s.Valid) : Keyed (fun u : UserRow => u.username)
    (s.users.map (refresh pwd draws) ++ newUsers pwd draws s.users defaultUsers) := by
  refine keyed_append.mpr ⟨hv.usernames.map refresh_username,
    newUsers_keyed fun d _ d' _ _ _ e => e, ?_⟩
  intro y hy x hx
  obtain ⟨u, hm, rfl⟩ := List.mem_map.mp hy
  obtain ⟨d, -, hnone, rfl⟩ := mem_newUsers.mp hx
  rw [refresh_username]
  exact loadedAs_none hnone u hm

theorem owner_default {u : UserRow} (h : u ∈ owners pwd draws s) :
    ∃ d ∈ defaultUsers, u.username = d.username ∧ Unopened s d := by
  rcases List.mem_append.mp h with h | h
  · obtain ⟨d, hd, hnone, rfl⟩ := mem_newUsers.mp h
    exact ⟨d, hd, rfl, fun u hload => by rw [hnone] at hload; cases hload⟩
  · obtain ⟨he, hless⟩ := List.mem_filter.mp h
    obtain ⟨d, hd, v, hload, rfl⟩ := mem_existingUsers.mp he
    refine ⟨d, hd, (loadedAs_some hload).2, fun u hload' => ?_⟩
    obtain rfl : v = u := Option.some.inj (hload.symm.trans hload')
    exact of_decide_eq_true hless

theorem owners_keyed {β : Type} {key : UserRow → β}
    (hn : Keyed key (newUsers pwd draws s.users defaultUsers))
    (he : Keyed key (existingUsers pwd draws s.users defaultUsers))
    (hne : ∀ u ∈ newUsers pwd draws s.users defaultUsers,
      ∀ v ∈ existingUsers pwd draws s.users defaultUsers, key u ≠ key v) :
    Keyed key (owners pwd draws s) := by
  refine keyed_append.mpr ⟨hn, he.sublist (List.filter_sublist.map key), ?_⟩
  exact fun u hu v hv => hne u hu v (List.mem_filter.mp hv).1

theorem owners_ids (hv : s.Valid) (hu : Unused draws s) :
    Keyed (fun u : UserRow => u.id) (owners pwd draws s) := by
  refine owners_keyed (newUsers_keyed hu.userIds) (existingUsers_ids hv) ?_
  intro u hm v hm' e
  obtain ⟨d, hd, hnone, rfl⟩ := mem_newUsers.mp hm
  obtain ⟨d', -, v, hload, rfl⟩ := mem_existingUsers.mp hm'
  exact hu.userId d hd hnone v (loadedAs_some hload).1 e.symm

theorem owners_names : Keyed (fun u : UserRow => u.username) (owners pwd draws s) := by
  refine owners_keyed (newUsers_keyed fun d _ d' _ _ _ e => e) existingUsers_names ?_
  intro u hm v hm' e
  obtain ⟨d, -, hnone, rfl⟩ := mem_newUsers.mp hm
  obtain ⟨d', -, v, hload, rfl⟩ := mem_existingUsers.mp hm'
  exact loadedAs_none hnone v (loadedAs_some hload).1 e.symm

theorem accounts_ids (hv : s.Valid) (hu : Unused draws s) :
    Keyed Account.id (s.accounts ++ (owners pwd draws s).map (newAccount draws)) := by
  refine keyed_append.mpr ⟨hv.accountIds, ?_, ?_⟩
  · rw [Keyed, List.map_map, List.Nodup, List.pairwise_map]
    refine (List.pairwise_map.mp owners_names).imp_of_mem fun {u v} hm hm' hne e => hne ?_
    obtain ⟨d, hd, hname, hopen⟩ := owner_default hm
    obtain ⟨d', hd', hname', hopen'⟩ := owner_default hm'
    simp only [Function.comp, newAccount, hname, hname'] at e ⊢
    exact hu.accountIds d hd d' hd' hopen hopen' e
  · intro a ha x hx
    obtain ⟨u, hm, rfl⟩ := List.mem_map.mp hx
    obtain ⟨d, hd, hname, hopen⟩ := owner_default hm
    simp only [newAccount, hname]
    exact hu.accountId d hd hopen a ha

theorem accounts_users (hv : s.Valid) (hu : Unused draws s) :
    Keyed Account.userId (s.accounts ++ (owners pwd draws s).map (newAccount draws)) := by
  refine keyed_append.mpr ⟨hv.accountUsers, ?_, ?_⟩
  · rw [Keyed, List.map_map]
    exact owners_ids hv hu
  · intro a ha x hx
    obtain ⟨u, hm, rfl⟩ := List.mem_map.mp hx
    rcases List.mem_append.mp hm with hm | hm
    · -- A new user's id is not in `users`, and so not in `accounts`.
      obtain ⟨d, hd, hnone, rfl⟩ := mem_newUsers.mp hm
      obtain ⟨v, hv', hid⟩ := hv.owner a ha
      exact fun e => hu.userId d hd hnone v hv' (hid.trans e)
    · have hless : Accountless s.accounts u := of_decide_eq_true (List.mem_filter.mp hm).2
      exact findRow_none.mp hless a ha

/-! ## What a start leaves -/

variable (pwd draws s) in
/-- The tables after `seed_initial_data`. -/
def outcome : Database :=
  { s with
    users := s.users.map (refresh pwd draws) ++ newUsers pwd draws s.users defaultUsers
    accounts := s.accounts ++ (owners pwd draws s).map (newAccount draws) }

/-- The two loops that open accounts. -/
theorem open_accounts (hv : s.Valid) (hu : Unused draws s) :
    ∃ opened, (newUsers pwd draws s.users defaultUsers).foldlM
        (fun accounts u => insertAccount accounts (newAccount draws u)) s.accounts = some opened ∧
      (existingUsers pwd draws s.users defaultUsers).foldlM (fun accounts u =>
        if Accountless s.accounts u then insertAccount accounts (newAccount draws u)
        else some accounts) opened = some (outcome pwd draws s).accounts := by
  have hids : Keyed Account.id (outcome pwd draws s).accounts := accounts_ids hv hu
  have hfold := foldlM_insertRow (pairwise_keyed hids (accounts_users hv hu))
  rw [List.foldlM_map, owners, List.foldlM_append] at hfold
  obtain ⟨opened, hnew, hexisting⟩ := Option.bind_eq_some_iff.mp hfold
  refine ⟨opened, hnew, ?_⟩
  simp only [List.foldlM_filter, decide_eq_true_eq] at hexisting
  exact hexisting

theorem refresh_mem {u : UserRow} (hm : u ∈ s.users) :
    refresh pwd draws u ∈ (outcome pwd draws s).users :=
  List.mem_append_left _ (List.mem_map_of_mem hm)

/-- A staged user is a row afterwards. -/
theorem staged_mem {u : UserRow} (h : u ∈ newUsers pwd draws s.users defaultUsers ∨
    u ∈ existingUsers pwd draws s.users defaultUsers) : u ∈ (outcome pwd draws s).users := by
  rcases h with h | h
  · exact List.mem_append_right _ h
  · obtain ⟨d, hd, v, hload, rfl⟩ := mem_existingUsers.mp h
    obtain ⟨hm, hname⟩ := loadedAs_some hload
    rw [← refresh_default hd hname]
    exact refresh_mem hm

theorem owners_mem {u : UserRow} (h : u ∈ owners pwd draws s) :
    u ∈ (outcome pwd draws s).users := by
  refine staged_mem ((List.mem_append.mp h).imp_right fun h => ?_)
  exact (List.mem_filter.mp h).1

theorem outcome_valid (hv : s.Valid) (hu : Unused draws s) : (outcome pwd draws s).Valid where
  userIds := users_ids hv hu
  usernames := users_names hv
  accountIds := accounts_ids hv hu
  accountUsers := accounts_users hv hu
  owner a ha := by
    rcases List.mem_append.mp ha with ha | ha
    · obtain ⟨u, hm, hid⟩ := hv.owner a ha
      exact ⟨_, refresh_mem hm, (refresh_id u).trans hid⟩
    · obtain ⟨u, hm, rfl⟩ := List.mem_map.mp ha
      exact ⟨u, owners_mem hm, rfl⟩

variable (pwd draws s) in
/-- The row of a default user, with its account. -/
theorem outcome_default {d : DefaultUser} (hd : d ∈ defaultUsers) :
    ∃ u ∈ (outcome pwd draws s).users, u.username = d.username ∧ refreshed pwd draws d u = u ∧
      ∃ a ∈ (outcome pwd draws s).accounts, a.userId = u.id := by
  cases hload : loadedAs s.users d with
  | none =>
    have hn : newUser pwd draws d ∈ newUsers pwd draws s.users defaultUsers :=
      mem_newUsers.mpr ⟨d, hd, hload, rfl⟩
    have ho : newUser pwd draws d ∈ owners pwd draws s := List.mem_append_left _ hn
    exact ⟨_, staged_mem (.inl hn), rfl, rfl,
      _, List.mem_append_right _ (List.mem_map_of_mem ho), rfl⟩
  | some v =>
    have he : refreshed pwd draws d v ∈ existingUsers pwd draws s.users defaultUsers :=
      mem_existingUsers.mpr ⟨d, hd, v, hload, rfl⟩
    refine ⟨_, staged_mem (.inr he), (loadedAs_some hload).2, rfl, ?_⟩
    cases ha : findRow Account.userId v.id s.accounts with
    | none =>
      have ho : refreshed pwd draws d v ∈ owners pwd draws s :=
        List.mem_append_right _ (List.mem_filter.mpr ⟨he, decide_eq_true ha⟩)
      exact ⟨_, List.mem_append_right _ (List.mem_map_of_mem ho), rfl⟩
    | some a =>
      obtain ⟨hm, hid⟩ := findRow_mem ha
      exact ⟨a, List.mem_append_left _ hm, hid⟩

/-- The username is one of the default users'. -/
def IsDefault (u : UserRow) : Prop := ∃ d ∈ defaultUsers, d.username = u.username

instance (u : UserRow) : Decidable (IsDefault u) := inferInstanceAs (Decidable (∃ d ∈ _, _))

theorem isDefault_refresh {u : UserRow} : IsDefault (refresh pwd draws u) ↔ IsDefault u := by
  rw [IsDefault, refresh_username, IsDefault]

/-- The other users are as they were. -/
theorem outcome_others : ((outcome pwd draws s).users.filter fun u => ¬IsDefault u) =
    s.users.filter fun u => ¬IsDefault u := by
  have hsame : (fun u => decide ¬IsDefault (refresh pwd draws u)) =
      fun u => decide ¬IsDefault u := by
    funext u
    exact decide_eq_decide.mpr (not_congr isDefault_refresh)
  have hold : ((s.users.map (refresh pwd draws)).filter fun u => ¬IsDefault u) =
      s.users.filter fun u => ¬IsDefault u := by
    rw [List.filter_map, Function.comp_def, hsame]
    conv => rhs; rw [← List.map_id (s.users.filter _)]
    refine List.map_congr_left fun u hu => refresh_other fun d hd e => ?_
    exact of_decide_eq_true (List.mem_filter.mp hu).2 ⟨d, hd, e⟩
  have hnew : ((newUsers pwd draws s.users defaultUsers).filter fun u => ¬IsDefault u) = [] := by
    refine List.filter_eq_nil_iff.mpr fun u hu => ?_
    obtain ⟨d, hd, -, rfl⟩ := mem_newUsers.mp hu
    exact fun h => of_decide_eq_true h ⟨d, hd, rfl⟩
  rw [outcome, List.filter_append, hold, hnew, List.append_nil]

/-! ## The next start -/

/-- No default user and none of their accounts is missing. -/
def Complete (s : Database) : Prop := ∀ d ∈ defaultUsers, ¬Unopened s d

theorem outcome_complete (hv : s.Valid) (hu : Unused draws s) :
    Complete (outcome pwd draws s) := by
  intro d hd hopen
  obtain ⟨u, hm, hname, -, a, ha, hid⟩ := outcome_default pwd draws s hd
  have hload : loadedAs (outcome pwd draws s).users d = some u := by
    rw [loadedAs, ← hname]
    exact (outcome_valid hv hu).usernames.findRow hm
  exact findRow_none.mp (hopen u hload) a ha hid

theorem Complete.loaded (h : Complete s) {d : DefaultUser} (hd : d ∈ defaultUsers) :
    loadedAs s.users d ≠ none :=
  fun hnone => h d hd fun u hload => by rw [hnone] at hload; cases hload

/-- Nothing is drawn but salts. -/
theorem Complete.unused (h : Complete s) (draws : Draws) : Unused draws s where
  userId _ hd hnone := absurd hnone (h.loaded hd)
  userIds _ hd _ _ hnone := absurd hnone (h.loaded hd)
  accountId d hd hopen := absurd hopen (h d hd)
  accountIds d hd _ _ hopen := absurd hopen (h d hd)

theorem Complete.outcome_eq (h : Complete s) :
    outcome pwd draws s = { s with users := s.users.map (refresh pwd draws) } := by
  have hnew : newUsers pwd draws s.users defaultUsers = [] := by
    refine List.eq_nil_iff_forall_not_mem.mpr fun u hu => ?_
    obtain ⟨d, hd, hnone, -⟩ := mem_newUsers.mp hu
    exact h.loaded hd hnone
  have howners : owners pwd draws s = [] := by
    refine List.eq_nil_iff_forall_not_mem.mpr fun u hu => ?_
    obtain ⟨d, hd, -, hopen⟩ := owner_default hu
    exact h d hd hopen
  rw [outcome, hnew, howners, List.map_nil, List.append_nil, List.append_nil]

variable (pwd draws) in
/-- A default user's row with a hash of the listed password under the salt that was drawn. -/
def rehash (u : UserRow) : UserRow :=
  ((findRow DefaultUser.username u.username defaultUsers).map fun d =>
    { u with passwordHash := hashPassword pwd draws d }).getD u

end

end Seed

open Seed

section

variable {pwd : PwdContext} {draws : Draws} {s : Database}

theorem seedInitialData_eq (hv : s.Valid) (hu : Unused draws s) :
    seedInitialData pwd draws s = some (outcome pwd draws s) := by
  have husers : (newUsers pwd draws s.users defaultUsers).foldlM insertUser
      (s.users.map (refresh pwd draws)) = some (outcome pwd draws s).users :=
    foldlM_insertRow (pairwise_keyed (users_ids hv hu) (users_names hv))
  obtain ⟨opened, hnew, hexisting⟩ : ∃ opened, _ ∧ _ = some (outcome pwd draws s).accounts :=
    open_accounts hv hu
  simp only [seedInitialData, foldl_stage, List.nil_append, foldl_updateUser hv]
  rw [husers, Option.bind_eq_bind, Option.bind_some, hnew, Option.bind_eq_bind, Option.bind_some,
    hexisting]
  rfl

/-- Started again, tier and role of the default users are the listed ones already. -/
theorem refresh_outcome (hv : s.Valid) (hu : Unused draws s) {draws' : Draws} {u : UserRow}
    (hm : u ∈ (outcome pwd draws s).users) : refresh pwd draws' u = rehash pwd draws' u := by
  rw [refresh, rehash]
  cases hd : findRow DefaultUser.username u.username defaultUsers with
  | none => rfl
  | some d =>
    obtain ⟨hd, hname⟩ := findRow_mem hd
    obtain ⟨v, hv', hname', hr, -⟩ :=
      outcome_default pwd draws s hd
    obtain rfl : v = u := (outcome_valid hv hu).usernames.eq_of_key hv' hm (hname'.trans hname)
    show refreshed pwd draws' d v = _
    rw [← hr]
    rfl

theorem seed_again (hv : s.Valid) (hu : Unused draws s) (draws' : Draws) :
    seedInitialData pwd draws' (outcome pwd draws s) = some { outcome pwd draws s with
      users := (outcome pwd draws s).users.map (rehash pwd draws') } := by
  have hc : Complete (outcome pwd draws s) := outcome_complete hv hu
  rw [seedInitialData_eq (outcome_valid hv hu) (hc.unused draws'), hc.outcome_eq]
  congr 2
  exact List.map_congr_left fun u hm => refresh_outcome hv hu hm

/-- A start leaves one row for each default user, as listed, with one account; everything else is
kept, and the accounts that are opened are empty. The next start draws new salts. -/
theorem seed_safe (hv : s.Valid) (hu : Unused draws s) :
    ∃ s', seedInitialData pwd draws s = some s' ∧
      (∀ d ∈ defaultUsers, ∃ u a, (s'.users.filter fun u => u.username = d.username) = [u] ∧
        u.tier = d.tier ∧ u.role = d.role ∧ u.passwordHash = hashPassword pwd draws d ∧
        (s'.accounts.filter fun a => a.userId = u.id) = [a]) ∧
      ((s'.users.filter fun u => ¬IsDefault u) = s.users.filter fun u => ¬IsDefault u) ∧
      (∃ opened, s'.accounts = s.accounts ++ opened ∧
        ∀ a ∈ opened, a.balance = 0 ∧ a.marginUsed = 0 ∧
          ∃ u ∈ s'.users, IsDefault u ∧ u.id = a.userId) ∧
      s'.positions = s.positions ∧ s'.orders = s.orders ∧ s'.trades = s.trades ∧
      ∀ draws', seedInitialData pwd draws' s' =
        some { s' with users := s'.users.map (rehash pwd draws') } := by
  refine ⟨outcome pwd draws s, seedInitialData_eq hv hu, ?_, outcome_others,
    ⟨_, rfl, ?_⟩, rfl, rfl, rfl, seed_again hv hu⟩
  · intro d hd
    have hv' : (outcome pwd draws s).Valid := outcome_valid hv hu
    obtain ⟨u, hm, hname, hr, a, ha, hid⟩ :=
      outcome_default pwd draws s hd
    refine ⟨u, a, ?_, ?_, ?_, ?_, ?_⟩
    · rw [← hname]
      exact hv'.usernames.filter_key hm
    · rw [← hr]; rfl
    · rw [← hr]; rfl
    · rw [← hr]; rfl
    · rw [← hid]
      exact hv'.accountUsers.filter_key ha
  · intro a ha
    obtain ⟨u, hm, rfl⟩ := List.mem_map.mp ha
    obtain ⟨d, hd, hname, -⟩ := owner_default hm
    exact ⟨rfl, rfl, u, owners_mem hm, ⟨d, hd, hname.symm⟩, rfl⟩

/-- From tables that a ledger can start from, a start leaves such tables. -/
theorem Seeded.outcome {c : Column} (h : Seeded c s.ledger) (hv : s.Valid) (hu : Unused draws s) :
    Seeded c (Seed.outcome pwd draws s).ledger where
  valid :=
    { h.valid with
      accounts := ⟨accounts_ids hv hu, by
        intro a ha
        rcases List.mem_append.mp ha with ha | ha
        · exact h.valid.accounts.rows a ha
        · obtain ⟨u, -, rfl⟩ := List.mem_map.mp ha
          exact ⟨c.holds_zero, c.holds_zero⟩⟩
      accountUsers := accounts_users hv hu }
  marginUsed a ha := by
    rcases List.mem_append.mp ha with ha | ha
    · exact h.marginUsed a ha
    · obtain ⟨u, -, rfl⟩ := List.mem_map.mp ha
      rfl
  balance a ha := by
    rcases List.mem_append.mp ha with ha | ha
    · exact h.balance a ha
    · obtain ⟨u, -, rfl⟩ := List.mem_map.mp ha
      exact le_refl 0
  positions := h.positions
  orders := h.orders
  trades := h.trades

end

namespace Sample

/-- A default user without an account, and another user with one. -/
def beforeStart : Database where
  users := [⟨⟨1, "trader_1", "vip", "admin"⟩, "old"⟩, ⟨⟨9, "zoe", "standard", "trader"⟩, "own"⟩]
  accounts := [⟨4, 9, 70, 5⟩]
  positions := []
  orders := []
  trades := []

/-- The next ids of the two sequences, in the order of the list. -/
def nextIds : Draws where
  salt name := name
  userId name := 10 + (defaultUsers.findIdx fun d => d.username = name : ℕ)
  accountId name := 5 + defaultUsers.findIdx fun d => d.username = name

theorem beforeStart_valid : beforeStart.Valid where
  userIds := by decide
  usernames := by decide
  accountIds := by decide
  accountUsers := by decide
  owner := by decide

theorem nextIds_unused : Unused nextIds beforeStart := by
  have hid : ∀ d ∈ defaultUsers, ∀ u ∈ beforeStart.users, u.id ≠ nextIds.userId d.username := by
    decide
  have hids : ∀ d ∈ defaultUsers, ∀ d' ∈ defaultUsers,
      nextIds.userId d.username = nextIds.userId d'.username → d.username = d'.username := by decide
  have haccount : ∀ d ∈ defaultUsers, ∀ a ∈ beforeStart.accounts,
      a.id ≠ nextIds.accountId d.username := by decide
  have haccounts : ∀ d ∈ defaultUsers, ∀ d' ∈ defaultUsers,
      nextIds.accountId d.username = nextIds.accountId d'.username →
      d.username = d'.username := by decide
  exact ⟨fun d hd _ => hid d hd, fun d hd d' hd' _ _ => hids d hd d' hd',
    fun d hd _ => haccount d hd, fun d hd d' hd' _ _ => haccounts d hd d' hd'⟩

end Sample

open Sample in
theorem seed_safe_trader_1 : ∃ s' opened,
    seedInitialData KeySample.plain nextIds beforeStart = some s' ∧
      s'.accounts = ⟨4, 9, 70, 5⟩ :: opened := by
  obtain ⟨s', hs, -, -, ⟨opened, ha, -⟩, -⟩ := seed_safe beforeStart_valid nextIds_unused
  exact ⟨s', opened, hs, ha⟩

end CryptoExchange
