import CryptoExchange.Ledger.World
import CryptoExchange.Lib.Varchar

/-!
# API keys

`app/api_keys/{model,service}.py`: the table of keys and the operations on it, each up to its
commit. The random draws of an operation are its arguments (`Generated`). Times are microseconds.
The row's number and `created_at` are left out: no modelled operation reads them.
-/

namespace CryptoExchange

open Lib

/-- `pwd_context`: a hash draws a salt, and exactly the secret that was hashed verifies. -/
structure PwdContext where
  hash : (salt secret : String) → String
  verify : (secret hash : String) → Bool
  verify_hash : ∀ salt secret s, verify s (hash salt secret) = decide (s = secret)

structure ApiKey where
  keyId : String
  keyHash : String
  userId : ℤ
  label : String
  scopes : List String
  isActive : Bool
  lastUsedAt : Option ℤ
  expiresAt : Option ℤ
  deriving DecidableEq

/-- What `_generate_pair` draws. -/
structure Generated where
  keyId : String
  rawSecret : String
  salt : String
  deriving DecidableEq

def Generated.keyHash (pwd : PwdContext) (g : Generated) : String := pwd.hash g.salt g.rawSecret

/-- The key's `expires_at` has passed. -/
def Expired (expiresAt : Option ℤ) (now : ℤ) : Prop := ∃ t ∈ expiresAt, t < now

instance (e : Option ℤ) (now : ℤ) : Decidable (Expired e now) :=
  inferInstanceAs (Decidable (∃ t ∈ e, t < now))

namespace ApiKeyService

variable (keys : List ApiKey)

/-- `create_key`: the row, and the raw secret, which only the caller gets. The row is refused for a
label that does not fit its column, or for a `key_id` that there is. -/
def createKey (pwd : PwdContext) (g : Generated) (userId : ℤ) (label : String)
    (scopes : List String) (expiresAt : Option ℤ) :
    Except Failure (List ApiKey × ApiKey × String) :=
  if ¬FitsVarchar 128 label ∨ keys.any fun k => k.keyId = g.keyId then .error .database
  else
    let key : ApiKey :=
      { keyId := g.keyId, keyHash := g.keyHash pwd, userId, label, scopes, isActive := true,
        lastUsedAt := none, expiresAt }
    .ok (keys ++ [key], key, g.rawSecret)

def getKeyForUser (keyId : String) (userId : ℤ) : Except Failure (Option ApiKey) :=
  scalarOneOrNone (keys.filter fun k => k.keyId = keyId ∧ k.userId = userId)

def deactivated (k : ApiKey) : ApiKey := { k with isActive := false }

def deactivateKey (keyId : String) (userId : ℤ) : Except Failure (List ApiKey × Option ApiKey) :=
  match getKeyForUser keys keyId userId with
  | .error e => .error e
  | .ok none => .ok (keys, none)
  | .ok (some k) => .ok (modify ApiKey.keyId k.keyId deactivated keys, some (deactivated k))

/-- The row with a new secret; it is active again. -/
def regenerated (pwd : PwdContext) (g : Generated) (k : ApiKey) : ApiKey :=
  { k with keyHash := g.keyHash pwd, isActive := true }

def regenerateKey (pwd : PwdContext) (g : Generated) (keyId : String) (userId : ℤ) :
    Except Failure (List ApiKey × Option (ApiKey × String)) :=
  match getKeyForUser keys keyId userId with
  | .error e => .error e
  | .ok none => .ok (keys, none)
  | .ok (some k) =>
    .ok (modify ApiKey.keyId k.keyId (regenerated pwd g) keys, some (regenerated pwd g k, g.rawSecret))

def authenticate (pwd : PwdContext) (now : ℤ) (keyId rawSecret : String) :
    Except Failure (Option ApiKey) :=
  match scalarOneOrNone (keys.filter fun k => k.keyId = keyId ∧ k.isActive) with
  | .error e => .error e
  | .ok none => .ok none
  | .ok (some k) =>
    if Expired k.expiresAt now then .ok none
    else if pwd.verify rawSecret k.keyHash then .ok (some k)
    else .ok none

def touchLastUsed (now : ℤ) (keyId : String) : Except Failure (List ApiKey) :=
  match scalarOneOrNone (keys.filter fun k => k.keyId = keyId) with
  | .error e => .error e
  | .ok none => .ok keys
  | .ok (some k) =>
    .ok (modify ApiKey.keyId k.keyId (fun k => { k with lastUsedAt := some now }) keys)

/-! ## With unique ids -/

variable {keys} {pwd : PwdContext} {keyId : String} {userId now : ℤ}

theorem createKey_ok {g : Generated} {label : String} {scopes : List String}
    {expiresAt : Option ℤ} {r : List ApiKey × ApiKey × String}
    (h : createKey keys pwd g userId label scopes expiresAt = .ok r) :
    (∀ k ∈ keys, k.keyId ≠ g.keyId) ∧ r.1 = keys ++ [r.2.1] ∧ r.2.2 = g.rawSecret ∧
      r.2.1 = ⟨g.keyId, g.keyHash pwd, userId, label, scopes, true, none, expiresAt⟩ := by
  unfold createKey at h
  split at h
  · cases h
  · rename_i hn
    cases h
    have hnew := (not_or.mp hn).2
    simp only [List.any_eq_true, decide_eq_true_eq, not_exists, not_and] at hnew
    exact ⟨hnew, rfl, rfl, rfl⟩

/-- The lookup of a key finds a row of the user, or there is none. -/
theorem getKeyForUser_cases (hk : Keyed ApiKey.keyId keys) (keyId : String) (userId : ℤ) :
    (∃ k ∈ keys, k.keyId = keyId ∧ k.userId = userId ∧
      getKeyForUser keys keyId userId = .ok (some k)) ∨
    getKeyForUser keys keyId userId = .ok none := by
  by_cases h : ∃ k ∈ keys, k.keyId = keyId ∧ k.userId = userId
  · obtain ⟨k, hm, rfl, rfl⟩ := h
    refine .inl ⟨k, hm, rfl, rfl, ?_⟩
    have hf : keys.filter (fun j => j.keyId = k.keyId ∧ j.userId = k.userId) = [k] := by
      rw [← hk.filter_key hm]
      refine List.filter_congr fun j hj => ?_
      by_cases e : j.keyId = k.keyId
      · simp [hk.eq_of_key hj hm e]
      · simp [e]
    rw [getKeyForUser, hf]
    rfl
  · right
    have hf : keys.filter (fun j => j.keyId = keyId ∧ j.userId = userId) = [] := by
      simpa [List.filter_eq_nil_iff] using h
    rw [getKeyForUser, hf]
    rfl

/-- A secret authenticates when an active key with the id has it, and has not expired. -/
theorem authenticate_some (hk : Keyed ApiKey.keyId keys) {secret : String} {k : ApiKey} :
    authenticate keys pwd now keyId secret = .ok (some k) ↔
      k ∈ keys ∧ k.keyId = keyId ∧ k.isActive ∧ ¬Expired k.expiresAt now ∧
        pwd.verify secret k.keyHash := by
  have found : ∀ j ∈ keys, j.keyId = keyId → j.isActive →
      keys.filter (fun j => j.keyId = keyId ∧ j.isActive) = [j] := by
    rintro j hj rfl ha
    rw [← hk.filter_key hj]
    refine List.filter_congr fun i hi => ?_
    by_cases e : i.keyId = j.keyId
    · simp [hk.eq_of_key hi hj e, ha]
    · simp [e]
  constructor
  · intro h
    unfold authenticate at h
    split at h
    · cases h
    · cases h
    · rename_i j hj
      have hm : j ∈ keys.filter fun j => j.keyId = keyId ∧ j.isActive := by
        rw [scalarOneOrNone_some hj]; exact List.mem_cons_self
      simp only [List.mem_filter, decide_eq_true_eq] at hm
      split at h
      · cases h
      · split at h
        · cases h; exact ⟨hm.1, hm.2.1, hm.2.2, ‹_›, ‹_›⟩
        · cases h
  · rintro ⟨hm, hid, ha, he, hv⟩
    rw [authenticate, found k hm hid ha]
    simp [scalarOneOrNone, he, hv]

/-- The stamp of the last use changes nothing else. -/
theorem touchLastUsed_ok {keys' : List ApiKey} (h : touchLastUsed keys now keyId = .ok keys') :
    keys' = keys ∨ ∃ id, keys' =
      modify ApiKey.keyId id (fun k => { k with lastUsedAt := some now }) keys := by
  unfold touchLastUsed at h
  split at h
  · cases h
  · cases h; exact .inl rfl
  · cases h; exact .inr ⟨_, rfl⟩

end ApiKeyService

end CryptoExchange
