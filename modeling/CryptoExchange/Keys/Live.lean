import CryptoExchange.Keys.Service

/-!
# The live secret of a key

The sequences of `create_key`, `deactivate_key`, `regenerate_key`, `touch_last_used` and passing
time. The state has a history of what the operations returned; the live secret of a key is read
off that history alone.

* The draws of `_generate_pair` are fresh (`KeyState.Fresh`): `secrets.token_hex`.
* `liveSecret`: the secret that the last operation on the key returned, while the key has not
  expired.
* `KeyState.Consistent`: a row has the hash, the flag and the expiry that the history says.
* `live_secret_authenticates`: at every point of every run the live secret, and no other,
  authenticates; a superseded secret never does again; an operation of one user keeps the rows of
  the others.
-/

namespace CryptoExchange

open Lib

inductive KeyOp where
  | createKey (g : Generated) (userId : ℤ) (label : String) (scopes : List String)
      (expiresAt : Option ℤ)
  | deactivateKey (keyId : String) (userId : ℤ)
  | regenerateKey (g : Generated) (keyId : String) (userId : ℤ)
  | touchLastUsed (keyId : String)
  | wait (d : ℕ)
  deriving DecidableEq

/-- What an operation that found its key returned. -/
inductive KeyEvent where
  | created (keyId : String) (secret : String) (expiresAt : Option ℤ)
  | deactivated (keyId : String)
  | regenerated (keyId : String) (secret : String)
  deriving DecidableEq

structure KeyState where
  now : ℤ
  keys : List ApiKey
  /-- Every draw so far. -/
  drawn : List Generated
  /-- Newest first. -/
  history : List KeyEvent
  deriving DecidableEq

namespace KeyOp

def generated : KeyOp → Option Generated
  | createKey g _ _ _ _ | regenerateKey g _ _ => some g
  | _ => none

def userId : KeyOp → Option ℤ
  | createKey _ u _ _ _ | deactivateKey _ u | regenerateKey _ _ u => some u
  | _ => none

/-- The table after the operation, and what it returned. -/
def result (pwd : PwdContext) (now : ℤ) (keys : List ApiKey) :
    KeyOp → Except Failure (List ApiKey × List KeyEvent)
  | createKey g u label scopes e =>
    (ApiKeyService.createKey keys pwd g u label scopes e).map fun r =>
      (r.1, [.created r.2.1.keyId r.2.2 r.2.1.expiresAt])
  | deactivateKey keyId u =>
    (ApiKeyService.deactivateKey keys keyId u).map fun r =>
      (r.1, r.2.toList.map fun k => .deactivated k.keyId)
  | regenerateKey g keyId u =>
    (ApiKeyService.regenerateKey keys pwd g keyId u).map fun r =>
      (r.1, r.2.toList.map fun k => .regenerated k.1.keyId k.2)
  | touchLastUsed keyId => (ApiKeyService.touchLastUsed keys now keyId).map fun ks => (ks, [])
  | wait _ => .ok (keys, [])

end KeyOp

namespace KeyEvent

def keyId : KeyEvent → String
  | created k _ _ | deactivated k | regenerated k _ => k

/-- The secret that the caller was shown. -/
def issued : KeyEvent → Option String
  | created _ s _ | regenerated _ s => some s
  | deactivated _ => none

def expiry : KeyEvent → Option (Option ℤ)
  | created _ _ e => some e
  | _ => none

/-- The newest event of a key. -/
def last (keyId : String) (history : List KeyEvent) : Option KeyEvent :=
  history.find? fun e => e.keyId = keyId

/-- The expiry that the key was created with. -/
def expiresAt (keyId : String) (history : List KeyEvent) : Option ℤ :=
  (history.findSome? fun e => if e.keyId = keyId then e.expiry else none).join

/-- `secret` was issued for the key, and a later operation regenerated or deactivated it. -/
def Superseded (keyId secret : String) (history : List KeyEvent) : Prop :=
  ∃ newer e older, history = newer ++ e :: older ∧ e.keyId = keyId ∧ e.issued = some secret ∧
    ∃ e' ∈ newer, e'.keyId = keyId

end KeyEvent

/-- The one secret of the key that is good at `now`, as the history tells it. -/
def liveSecret (keyId : String) (now : ℤ) (history : List KeyEvent) : Option String :=
  if Expired (KeyEvent.expiresAt keyId history) now then none
  else (KeyEvent.last keyId history).bind KeyEvent.issued

namespace KeyState

/-- A draw repeats no id and no secret. -/
def Fresh (s : KeyState) (op : KeyOp) : Prop :=
  ∀ g ∈ op.generated, ∀ d ∈ s.drawn, d.keyId ≠ g.keyId ∧ d.rawSecret ≠ g.rawSecret

instance (s : KeyState) (op : KeyOp) : Decidable (s.Fresh op) :=
  inferInstanceAs (Decidable (∀ g ∈ op.generated, _))

/-- The clock and the draws after an operation. -/
def elapsed (s : KeyState) : KeyOp → KeyState
  | .wait d => { s with now := s.now + d }
  | op => { s with drawn := op.generated.toList ++ s.drawn }

/-- A failed operation is rolled back. -/
def after (pwd : PwdContext) (s : KeyState) (op : KeyOp) : KeyState :=
  match op.result pwd s.now s.keys with
  | .error _ => s.elapsed op
  | .ok (keys, events) => { s.elapsed op with keys, history := events ++ s.history }

/-- `authenticate` returns the key. -/
def Authenticates (pwd : PwdContext) (s : KeyState) (keyId secret : String) : Prop :=
  ∃ k, ApiKeyService.authenticate s.keys pwd s.now keyId secret = .ok (some k)

end KeyState

/-- The service from an empty table on. -/
def keySystem (pwd : PwdContext) : Sys where
  St := KeyState
  Act := KeyOp
  init s := s.keys = [] ∧ s.drawn = [] ∧ s.history = []
  step s op s' := s.Fresh op ∧ s' = s.after pwd op

namespace KeyOp

open ApiKeyService

variable {pwd : PwdContext} {now : ℤ} {keys keys' : List ApiKey} {events : List KeyEvent}

/-- What an operation does: it adds a key, it changes one key of its user, or it keeps every
column but `last_used_at`. -/
theorem result_cases (hk : Keyed ApiKey.keyId keys) {op : KeyOp}
    (h : op.result pwd now keys = .ok (keys', events)) :
    (∃ g k, op.generated = some g ∧ op.userId = some k.userId ∧ (∀ j ∈ keys, j.keyId ≠ g.keyId) ∧
      k.keyId = g.keyId ∧ k.keyHash = g.keyHash pwd ∧ k.isActive ∧ keys' = keys ++ [k] ∧
      events = [.created k.keyId g.rawSecret k.expiresAt]) ∨
    (∃ k ∈ keys, op.userId = some k.userId ∧ ((
      keys' = modify ApiKey.keyId k.keyId deactivated keys ∧ events = [.deactivated k.keyId]) ∨
      ∃ g, op.generated = some g ∧ keys' = modify ApiKey.keyId k.keyId (regenerated pwd g) keys ∧
        events = [.regenerated k.keyId g.rawSecret])) ∨
    (events = [] ∧ (keys' = keys ∨ op.userId = none ∧ ∃ id,
      keys' = modify ApiKey.keyId id (fun k => { k with lastUsedAt := some now }) keys)) := by
  cases op with
  | createKey g u label scopes e =>
    rw [result] at h
    cases hc : ApiKeyService.createKey keys pwd g u label scopes e with
    | error e => rw [hc] at h; cases h
    | ok r =>
      obtain ⟨hne, hks, hs, hrow⟩ := createKey_ok hc
      rw [hc] at h
      cases h
      exact .inl ⟨g, r.2.1, rfl, by rw [hrow]; rfl, hne, by rw [hrow], by rw [hrow], by rw [hrow],
        hks, by rw [hs]⟩
  | deactivateKey keyId u =>
    rw [result, ApiKeyService.deactivateKey] at h
    obtain ⟨k, hm, rfl, rfl, hg⟩ | hg := getKeyForUser_cases hk keyId u
    · rw [hg] at h
      cases h
      exact .inr (.inl ⟨k, hm, rfl, .inl ⟨rfl, rfl⟩⟩)
    · rw [hg] at h
      cases h
      exact .inr (.inr ⟨rfl, .inl rfl⟩)
  | regenerateKey g keyId u =>
    rw [result, ApiKeyService.regenerateKey] at h
    obtain ⟨k, hm, rfl, rfl, hg⟩ | hg := getKeyForUser_cases hk keyId u
    · rw [hg] at h
      cases h
      exact .inr (.inl ⟨k, hm, rfl, .inr ⟨g, rfl, rfl, rfl⟩⟩)
    · rw [hg] at h
      cases h
      exact .inr (.inr ⟨rfl, .inl rfl⟩)
  | touchLastUsed keyId =>
    rw [result] at h
    cases ht : ApiKeyService.touchLastUsed keys now keyId with
    | error e => rw [ht] at h; cases h
    | ok ks =>
      rw [ht] at h
      cases h
      obtain rfl | ⟨id, rfl⟩ := touchLastUsed_ok ht
      · exact .inr (.inr ⟨rfl, .inl rfl⟩)
      · exact .inr (.inr ⟨rfl, .inr ⟨rfl, id, rfl⟩⟩)
  | wait d =>
    cases h
    exact .inr (.inr ⟨rfl, .inl rfl⟩)

end KeyOp

namespace KeyEvent

variable {keyId : String} {e : KeyEvent} {history : List KeyEvent}

theorem last_cons_self : last e.keyId (e :: history) = some e := by
  simp [last]

theorem last_cons_ne (h : e.keyId ≠ keyId) : last keyId (e :: history) = last keyId history := by
  simp [last, h]

theorem last_some (h : last keyId history = some e) : e ∈ history ∧ e.keyId = keyId :=
  ⟨List.mem_of_find?_eq_some h, by simpa using List.find?_some h⟩

/-- The newest event is among any newest events that have one of the key. -/
theorem last_append {newer : List KeyEvent} (h : ∃ e' ∈ newer, e'.keyId = keyId)
    (hl : last keyId (newer ++ history) = some e) : e ∈ newer := by
  obtain ⟨e', hm, hk⟩ := h
  rw [last, List.find?_append] at hl
  cases hf : newer.find? fun e => e.keyId = keyId with
  | none => exact absurd hk (by simpa using List.find?_eq_none.mp hf e' hm)
  | some x =>
    rw [hf] at hl
    cases hl
    exact List.mem_of_find?_eq_some hf

theorem expiresAt_created {secret : String} {t : Option ℤ} :
    expiresAt keyId (.created keyId secret t :: history) = t := by
  simp [expiresAt, expiry, KeyEvent.keyId]

/-- Only a creation sets the expiry. -/
theorem expiresAt_cons (h : e.keyId ≠ keyId ∨ e.expiry = none) :
    expiresAt keyId (e :: history) = expiresAt keyId history := by
  have hn : (if e.keyId = keyId then e.expiry else none) = none := by
    rcases h with h | h
    · rw [if_neg h]
    · rw [h, ite_self]
  rw [expiresAt, List.findSome?_cons, hn, expiresAt]

theorem Superseded.append {secret : String} (h : Superseded keyId secret history)
    (events : List KeyEvent) : Superseded keyId secret (events ++ history) := by
  obtain ⟨newer, e, older, rfl, hk, hi, e', hm, he⟩ := h
  exact ⟨events ++ newer, e, older, by simp, hk, hi, e', List.mem_append_right _ hm, he⟩

end KeyEvent

/-! ## The rows and the history -/

/-- The row is as the newest event of its key left it. -/
def AsRecorded (pwd : PwdContext) (history : List KeyEvent) (k : ApiKey) : Prop :=
  k.expiresAt = KeyEvent.expiresAt k.keyId history ∧
    ∃ e, KeyEvent.last k.keyId history = some e ∧
      ((∃ salt secret, e.issued = some secret ∧ k.isActive = true ∧
          k.keyHash = pwd.hash salt secret) ∨
        e.issued = none ∧ k.isActive = false)

theorem AsRecorded.cons_ne {pwd : PwdContext} {history : List KeyEvent} {k : ApiKey} {e : KeyEvent}
    (h : AsRecorded pwd history k) (hne : e.keyId ≠ k.keyId) : AsRecorded pwd (e :: history) k := by
  rw [AsRecorded, KeyEvent.last_cons_ne hne, KeyEvent.expiresAt_cons (.inl hne)]
  exact h

namespace KeyState

variable {pwd : PwdContext}

structure Consistent (pwd : PwdContext) (s : KeyState) : Prop where
  keyed : Keyed ApiKey.keyId s.keys
  row : ∀ k ∈ s.keys, AsRecorded pwd s.history k
  /-- A key with a history has a row: no operation deletes one. -/
  known : ∀ e ∈ s.history, ∃ k ∈ s.keys, k.keyId = e.keyId
  ids : ∀ k ∈ s.keys, ∃ d ∈ s.drawn, d.keyId = k.keyId
  secrets : ∀ x ∈ s.history.filterMap KeyEvent.issued, ∃ d ∈ s.drawn, d.rawSecret = x
  nodup : (s.history.filterMap KeyEvent.issued).Nodup

theorem elapsed_keys (s : KeyState) (op : KeyOp) :
    (s.elapsed op).keys = s.keys ∧ (s.elapsed op).history = s.history ∧
      (s.elapsed op).drawn = op.generated.toList ++ s.drawn := by
  cases op <;> exact ⟨rfl, rfl, rfl⟩

theorem Consistent.elapsed {s : KeyState} (h : s.Consistent pwd) (op : KeyOp) :
    (s.elapsed op).Consistent pwd := by
  obtain ⟨hk, hh, hd⟩ := s.elapsed_keys op
  refine ⟨hk ▸ h.keyed, ?_, ?_, ?_, ?_, ?_⟩
  · rw [hk, hh]; exact h.row
  · rw [hk, hh]; exact h.known
  · rw [hk, hd]
    intro k hm
    obtain ⟨d, hd, e⟩ := h.ids k hm
    exact ⟨d, List.mem_append_right _ hd, e⟩
  · rw [hh, hd]
    intro x hx
    obtain ⟨d, hd, e⟩ := h.secrets x hx
    exact ⟨d, List.mem_append_right _ hd, e⟩
  · rw [hh]; exact h.nodup

theorem Consistent.fresh_secret {s : KeyState} {op : KeyOp} {g : Generated} (h : s.Consistent pwd)
    (hf : s.Fresh op) (hg : op.generated = some g) :
    g.rawSecret ∉ s.history.filterMap KeyEvent.issued := by
  intro hx
  obtain ⟨d, hd, e⟩ := h.secrets _ hx
  exact (hf g hg d hd).2 e

/-- The issued secrets after one more event. -/
theorem issued_cons {e : KeyEvent} {history : List KeyEvent} {drawn : List Generated}
    (hs : ∀ x ∈ history.filterMap KeyEvent.issued, ∃ d ∈ drawn, d.rawSecret = x)
    (hn : (history.filterMap KeyEvent.issued).Nodup)
    (he : ∀ x ∈ e.issued, (∃ d ∈ drawn, d.rawSecret = x) ∧
      x ∉ history.filterMap KeyEvent.issued) :
    (∀ x ∈ (e :: history).filterMap KeyEvent.issued, ∃ d ∈ drawn, d.rawSecret = x) ∧
      ((e :: history).filterMap KeyEvent.issued).Nodup := by
  cases hi : e.issued with
  | none =>
    rw [List.filterMap_cons_none hi]
    exact ⟨hs, hn⟩
  | some x =>
    rw [List.filterMap_cons_some hi]
    obtain ⟨hd, hx⟩ := he x hi
    refine ⟨fun y hy => ?_, List.nodup_cons.mpr ⟨hx, hn⟩⟩
    rcases List.mem_cons.mp hy with rfl | hy
    · exact hd
    · exact hs y hy

theorem Consistent.create {s : KeyState} (h : s.Consistent pwd) {g : Generated} {k : ApiKey}
    (hg : g ∈ s.drawn) (hfresh : g.rawSecret ∉ s.history.filterMap KeyEvent.issued)
    (hid : k.keyId = g.keyId) (hne : ∀ j ∈ s.keys, j.keyId ≠ g.keyId)
    (hhash : k.keyHash = g.keyHash pwd) (hactive : k.isActive) :
    ({ s with
        keys := s.keys ++ [k]
        history := .created k.keyId g.rawSecret k.expiresAt :: s.history }).Consistent pwd := by
  obtain ⟨hs, hn⟩ := issued_cons (e := .created k.keyId g.rawSecret k.expiresAt) h.secrets h.nodup
    (by rintro x ⟨⟩; exact ⟨⟨g, hg, rfl⟩, hfresh⟩)
  refine ⟨h.keyed.append (fun j hj => hid ▸ hne j hj), fun j hj => ?_, fun e he => ?_,
    fun j hj => ?_, hs, hn⟩
  · rcases List.mem_append.mp hj with hj | hj
    · exact (h.row j hj).cons_ne fun e => hne j hj (e.symm.trans hid)
    · rw [List.mem_singleton.mp hj]
      exact ⟨KeyEvent.expiresAt_created.symm, _, KeyEvent.last_cons_self,
        .inl ⟨g.salt, g.rawSecret, rfl, hactive, hhash⟩⟩
  · rcases List.mem_cons.mp he with rfl | he
    · exact ⟨k, List.mem_append_right _ List.mem_cons_self, rfl⟩
    · obtain ⟨j, hj, e⟩ := h.known e he
      exact ⟨j, List.mem_append_left _ hj, e⟩
  · rcases List.mem_append.mp hj with hj | hj
    · exact h.ids j hj
    · exact ⟨g, hg, by rw [List.mem_singleton.mp hj, hid]⟩

/-- One row changes, and the history says how. -/
theorem Consistent.change {s : KeyState} (h : s.Consistent pwd) {k : ApiKey} (hk : k ∈ s.keys)
    {f : ApiKey → ApiKey} (hid : ∀ x, (f x).keyId = x.keyId)
    (hexp : ∀ x, (f x).expiresAt = x.expiresAt) {e : KeyEvent} (he : e.keyId = k.keyId)
    (hexpiry : e.expiry = none)
    (hrow : (∃ salt secret, e.issued = some secret ∧ (f k).isActive = true ∧
        (f k).keyHash = pwd.hash salt secret) ∨ e.issued = none ∧ (f k).isActive = false)
    (hissued : ∀ x ∈ e.issued, (∃ d ∈ s.drawn, d.rawSecret = x) ∧
      x ∉ s.history.filterMap KeyEvent.issued) :
    ({ s with
        keys := modify ApiKey.keyId k.keyId f s.keys
        history := e :: s.history }).Consistent pwd := by
  obtain ⟨hs, hn⟩ := issued_cons h.secrets h.nodup hissued
  have hmem : ∀ j ∈ s.keys, ∃ i ∈ modify ApiKey.keyId k.keyId f s.keys, i.keyId = j.keyId := by
    intro j hj
    refine ⟨_, mem_modify.mpr ⟨j, hj, rfl⟩, ?_⟩
    split
    · exact hid j
    · rfl
  refine ⟨h.keyed.modify hid, fun i hi => ?_, fun e' he' => ?_, fun i hi => ?_, hs, hn⟩
  · obtain ⟨j, hj, rfl⟩ := mem_modify.mp hi
    by_cases hjk : j.keyId = k.keyId
    · obtain rfl := h.keyed.eq_of_key hj hk hjk
      rw [if_pos rfl]
      refine ⟨?_, e, ?_, hrow⟩
      · rw [hexp, hid, KeyEvent.expiresAt_cons (.inr hexpiry)]
        exact (h.row j hj).1
      · rw [hid, ← he]
        exact KeyEvent.last_cons_self
    · rw [if_neg hjk]
      exact (h.row j hj).cons_ne fun e' => hjk (e'.symm.trans he)
  · rcases List.mem_cons.mp he' with rfl | he'
    · obtain ⟨i, hi, e⟩ := hmem k hk
      exact ⟨i, hi, e.trans he.symm⟩
    · obtain ⟨j, hj, e⟩ := h.known e' he'
      obtain ⟨i, hi, e'⟩ := hmem j hj
      exact ⟨i, hi, e'.trans e⟩
  · obtain ⟨j, hj, rfl⟩ := mem_modify.mp hi
    split
    · rw [hid]; exact h.ids j hj
    · exact h.ids j hj

/-- The stamp of the last use is no part of what the history says. -/
theorem Consistent.touch {s : KeyState} (h : s.Consistent pwd) (id : String) (t : Option ℤ) :
    ({ s with keys := modify ApiKey.keyId id (fun k => { k with lastUsedAt := t }) s.keys }
      ).Consistent pwd := by
  have hback : ∀ i ∈ modify ApiKey.keyId id (fun k => { k with lastUsedAt := t }) s.keys,
      ∃ j ∈ s.keys, i = j ∨ i = { j with lastUsedAt := t } := by
    intro i hi
    obtain ⟨j, hj, rfl⟩ := mem_modify.mp hi
    split
    · exact ⟨j, hj, .inr rfl⟩
    · exact ⟨j, hj, .inl rfl⟩
  refine ⟨h.keyed.modify fun _ => rfl, fun i hi => ?_, fun e he => ?_, fun i hi => ?_, h.secrets,
    h.nodup⟩
  · obtain ⟨j, hj, rfl | rfl⟩ := hback i hi
    · exact h.row _ hj
    · exact h.row j hj
  · obtain ⟨j, hj, e⟩ := h.known e he
    refine ⟨_, mem_modify.mpr ⟨j, hj, rfl⟩, ?_⟩
    split <;> exact e
  · obtain ⟨j, hj, rfl | rfl⟩ := hback i hi
    · exact h.ids _ hj
    · exact h.ids j hj

theorem Consistent.after {s : KeyState} {op : KeyOp} (h : s.Consistent pwd) (hf : s.Fresh op) :
    (s.after pwd op).Consistent pwd := by
  obtain ⟨hkeys, hhistory, hdrawn⟩ := s.elapsed_keys op
  have he := h.elapsed op
  have hmem : ∀ g, op.generated = some g → g ∈ (s.elapsed op).drawn := by
    intro g hg
    rw [hdrawn, hg]
    exact List.mem_cons_self
  have hnew : ∀ g, op.generated = some g →
      g.rawSecret ∉ (s.elapsed op).history.filterMap KeyEvent.issued := by
    intro g hg
    rw [hhistory]
    exact h.fresh_secret hf hg
  unfold KeyState.after
  split
  · exact he
  · rename_i keys events hr
    rw [← hhistory]
    obtain ⟨g, k, hg, -, hne, hid, hhash, hactive, rfl, rfl⟩ |
      ⟨k, hk, -, ⟨rfl, rfl⟩ | ⟨g, hg, rfl, rfl⟩⟩ | ⟨rfl, rfl | ⟨-, id, rfl⟩⟩ :=
        KeyOp.result_cases h.keyed hr
    · rw [← hkeys] at hne ⊢
      exact he.create (hmem g hg) (hnew g hg) hid hne hhash hactive
    · rw [← hkeys] at hk ⊢
      exact he.change (f := ApiKeyService.deactivated) (e := .deactivated k.keyId) hk
        (fun _ => rfl) (fun _ => rfl) rfl rfl (.inr ⟨rfl, rfl⟩) (by rintro x ⟨⟩)
    · rw [← hkeys] at hk ⊢
      refine he.change (f := ApiKeyService.regenerated pwd g)
        (e := .regenerated k.keyId g.rawSecret) hk (fun _ => rfl) (fun _ => rfl) rfl rfl
        (.inl ⟨g.salt, g.rawSecret, rfl, rfl, rfl⟩) ?_
      rintro x ⟨⟩
      exact ⟨⟨g, hmem g hg, rfl⟩, hnew g hg⟩
    · rw [← hkeys]
      exact he
    · rw [← hkeys]
      exact he.touch id _

theorem reach_consistent {s : KeyState} (h : (keySystem pwd).Reach s) : s.Consistent pwd := by
  have hI : (keySystem pwd).Inductive fun s => s.Consistent pwd := by
    refine ⟨fun s => ?_, fun s op s' hs => ?_⟩
    · rintro ⟨hk, -, hh⟩
      refine ⟨?_, ?_, ?_, ?_, ?_, ?_⟩ <;> simp [hk, hh, Keyed]
    · rintro ⟨hf, rfl⟩
      exact hs.after hf
  exact hI.reach h

/-- What authenticates is what the history says. -/
theorem Consistent.authenticates {s : KeyState} (h : s.Consistent pwd) (keyId secret : String) :
    s.Authenticates pwd keyId secret ↔ liveSecret keyId s.now s.history = some secret := by
  rw [Authenticates]
  simp only [ApiKeyService.authenticate_some h.keyed]
  constructor
  · rintro ⟨k, hk, rfl, ha, hexp, hv⟩
    obtain ⟨he, e, hl, ⟨salt, x, hi, -, hh⟩ | ⟨-, hi⟩⟩ := h.row k hk
    · rw [hh, pwd.verify_hash, decide_eq_true_eq] at hv
      rw [liveSecret, ← he, if_neg hexp, hl, hv]
      exact hi
    · rw [ha] at hi
      cases hi
  · intro hl
    unfold liveSecret at hl
    split at hl
    · cases hl
    · rename_i hexp
      obtain ⟨e, hlast, hi⟩ := Option.bind_eq_some_iff.mp hl
      obtain ⟨hm, rfl⟩ := KeyEvent.last_some hlast
      obtain ⟨k, hk, hid⟩ := h.known e hm
      obtain ⟨he, e', hl', ⟨salt, x, hi', ha, hh⟩ | ⟨hi', -⟩⟩ := h.row k hk
      all_goals
        rw [hid] at hl' he
        cases hlast.symm.trans hl'
      · cases hi.symm.trans hi'
        exact ⟨k, hk, hid, ha, he ▸ hexp, by rw [hh, pwd.verify_hash]; exact decide_eq_true rfl⟩
      · cases hi.symm.trans hi'

/-- A superseded secret is not the live one: no secret is issued twice. -/
theorem Consistent.superseded {s : KeyState} (h : s.Consistent pwd) {keyId secret : String}
    (hs : KeyEvent.Superseded keyId secret s.history) (now : ℤ) :
    liveSecret keyId now s.history ≠ some secret := by
  obtain ⟨newer, e, older, hh, -, hi, hnewer⟩ := hs
  intro hl
  unfold liveSecret at hl
  split at hl
  · cases hl
  · obtain ⟨e', hlast, hi'⟩ := Option.bind_eq_some_iff.mp hl
    rw [hh] at hlast
    have hm := KeyEvent.last_append hnewer hlast
    have hn := h.nodup
    rw [hh, List.filterMap_append, List.filterMap_cons_some hi, List.nodup_append] at hn
    exact hn.2.2 secret (List.mem_filterMap.mpr ⟨e', hm, hi'⟩) secret List.mem_cons_self rfl

/-- The history only grows. -/
theorem after_history (pwd : PwdContext) (s : KeyState) (op : KeyOp) :
    ∃ events, (s.after pwd op).history = events ++ s.history := by
  unfold KeyState.after
  split
  · exact ⟨[], (s.elapsed_keys op).2.1⟩
  · exact ⟨_, rfl⟩

theorem run_superseded {s s' : KeyState} {ops : List KeyOp} {keyId secret : String}
    (h : (keySystem pwd).Run s ops s') (hs : KeyEvent.Superseded keyId secret s.history) :
    KeyEvent.Superseded keyId secret s'.history := by
  refine h.keeps (I := fun s : KeyState => KeyEvent.Superseded keyId secret s.history) ?_ hs
  rintro s op _ hs ⟨-, rfl⟩
  obtain ⟨events, he⟩ := s.after_history pwd op
  rw [he]
  exact hs.append events

/-- An operation keeps the rows of every other user. -/
theorem after_others {s : KeyState} (h : s.Consistent pwd) {op : KeyOp} {v : ℤ}
    (hv : op.userId = some v) :
    (s.after pwd op).keys.filter (fun k => k.userId ≠ v) =
      s.keys.filter fun k => k.userId ≠ v := by
  have hchange : ∀ k ∈ s.keys, k.userId = v → ∀ f : ApiKey → ApiKey,
      (∀ x, (f x).userId = x.userId) →
      (modify ApiKey.keyId k.keyId f s.keys).filter (fun k => k.userId ≠ v) =
        s.keys.filter fun k => k.userId ≠ v := by
    intro k hk hkv f hf
    rw [Lib.modify, List.filter_map]
    have hp : ((fun k : ApiKey => decide (k.userId ≠ v)) ∘
        fun x => if x.keyId = k.keyId then f x else x) = fun k => decide (k.userId ≠ v) := by
      funext x
      simp only [Function.comp]
      split
      · rw [hf]
      · rfl
    rw [hp]
    conv => rhs; rw [← List.map_id (s.keys.filter fun k => k.userId ≠ v)]
    refine List.map_congr_left fun x hx => ?_
    obtain ⟨hx, hxv⟩ := List.mem_filter.mp hx
    rw [if_neg, id]
    intro e
    rw [h.keyed.eq_of_key hx hk e] at hxv
    exact (of_decide_eq_true hxv) hkv
  unfold KeyState.after
  split
  · rw [(s.elapsed_keys op).1]
  · rename_i keys events hr
    obtain ⟨g, k, -, hu, -, -, -, -, rfl, -⟩ | ⟨k, hk, hu, ⟨rfl, -⟩ | ⟨g, -, rfl, -⟩⟩ |
      ⟨-, rfl | ⟨hu, -⟩⟩ := KeyOp.result_cases h.keyed hr
    · cases hv.symm.trans hu
      simp
    · exact hchange k hk (Option.some.inj (hu.symm.trans hv)) _ fun _ => rfl
    · exact hchange k hk (Option.some.inj (hu.symm.trans hv)) _ fun _ => rfl
    · rfl
    · cases hv.symm.trans hu

/-- A step, computed. -/
def exec (pwd : PwdContext) (s : KeyState) (op : KeyOp) : Option KeyState :=
  if s.Fresh op then some (s.after pwd op) else none

theorem exec_step {s s' : KeyState} {op : KeyOp} (h : s.exec pwd op = some s') :
    (keySystem pwd).step s op s' := by
  unfold exec at h
  split at h
  · cases h; exact ⟨‹_›, rfl⟩
  · cases h

end KeyState

namespace KeySample

/-- A hash that keeps the secret as it is. -/
def plain : PwdContext where
  hash _ secret := secret
  verify secret hash := secret = hash
  verify_hash _ _ _ := rfl

def start : KeyState := { now := 0, keys := [], drawn := [], history := [] }

/-- The user 1 creates a key, deactivates it and regenerates it. -/
def ops : List KeyOp :=
  [.createKey ⟨"key", "first", "a"⟩ 1 "bot" ["read:market"] (some 100), .deactivateKey "key" 1,
    .wait 50, .regenerateKey ⟨"unused", "second", "b"⟩ "key" 1]

def rotated : KeyState := ops.foldl (KeyState.after plain) start

theorem rotated_reach : (keySystem plain).Reach rotated :=
  Sys.Reach.foldlM (S := keySystem plain) (f := KeyState.exec plain)
    (fun _ _ _ _ => KeyState.exec_step) (.init (s := start) ⟨rfl, rfl, rfl⟩)
    (show ops.foldlM (KeyState.exec plain) start = some rotated by rfl)

end KeySample

end CryptoExchange
