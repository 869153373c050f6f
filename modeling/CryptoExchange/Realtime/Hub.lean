import CryptoExchange.Lib.Machine
import CryptoExchange.Lib.PySet

/-!
# The WebSocket hub

`app/realtime/ws_hub.py`: sets of connected clients, one for each channel. A broadcast iterates over
the set of its channel and awaits a send for each client, so that others connect, disconnect and
discard stale clients while it iterates. `broadcast_alert` iterates over a union, a set of its own.

`hubStep` is the machine of a call; `realtime` is any number of calls, interleaved.
-/

namespace CryptoExchange

open Lib

variable {α : Type} [DecidableEq α]

/-- `WebSocketHub`, with clients of a type `α`. -/
structure Hub (α : Type) where
  marketClients : PySet α
  kpiClients : PySet α
  accountClients : PySet α
  regulatorClients : PySet α
  klineClients : String → Option (PySet α)

/-- The attribute that holds the set; kline clients are keyed. -/
inductive Channel where
  | market
  | kpi
  | account
  | regulator
  | kline (channel : String)
  deriving DecidableEq

/-- `_kline_channel`. -/
def klineChannel (upper : String → String) (symbol interval : String) : Channel :=
  .kline (upper symbol ++ ":" ++ interval)

namespace Hub

omit [DecidableEq α] in
/-- The set of a channel; a kline channel has none before its first client. -/
def clients (h : Hub α) : Channel → Option (PySet α)
  | .market => some h.marketClients
  | .kpi => some h.kpiClients
  | .account => some h.accountClients
  | .regulator => some h.regulatorClients
  | .kline channel => h.klineClients channel

def set (h : Hub α) (ch : Channel) (s : PySet α) : Hub α :=
  match ch with
  | .market => { h with marketClients := s }
  | .kpi => { h with kpiClients := s }
  | .account => { h with accountClients := s }
  | .regulator => { h with regulatorClients := s }
  | .kline channel => { h with klineClients := Function.update h.klineClients channel (some s) }

omit [DecidableEq α] in
@[simp] theorem clients_set (h : Hub α) (ch ch' : Channel) (s : PySet α) :
    (h.set ch s).clients ch' = if ch' = ch then some s else h.clients ch' := by
  by_cases e : ch' = ch
  · subst e
    cases ch' <;> simp [set, clients]
  · cases ch <;> cases ch' <;> simp_all [set, clients]

def connect (h : Hub α) (ch : Channel) (client : α) (p : PySet.Placement α) : Hub α :=
  h.set ch (((h.clients ch).getD .empty).add client p)

def discardAll (h : Hub α) (ch : Channel) (stale : List α) : Hub α :=
  match h.clients ch with
  | some s => h.set ch (s.discardAll stale)
  | none => h

def members (h : Hub α) (ch : Channel) : List α := ((h.clients ch).map PySet.members).getD []

end Hub

/-! ## Calls -/

inductive HubPhase (α : Type) where
  /-- `connect_*`: the handshake. -/
  | accept (ch : Channel) (client : α)
  /-- `disconnect_*`, not yet run. -/
  | disconnect (ch : Channel) (client : α)
  /-- `broadcast_*`, not yet run. -/
  | broadcast (ch : Channel)
  | send (ch : Channel) (it : PySet.Iter) (client : α) (stale : List α)
  /-- `broadcast_alert`, not yet run. -/
  | broadcastAlert
  | sendAlert (rest : List α) (client : α) (stale : List α)

def connectMarket (client : α) : HubPhase α := .accept .market client
def connectKpi (client : α) : HubPhase α := .accept .kpi client
def connectAccount (client : α) : HubPhase α := .accept .account client
def connectRegulator (client : α) : HubPhase α := .accept .regulator client
def connectKline (upper : String → String) (client : α) (symbol interval : String) : HubPhase α :=
  .accept (klineChannel upper symbol interval) client

def disconnectMarket (client : α) : HubPhase α := .disconnect .market client
def disconnectKpi (client : α) : HubPhase α := .disconnect .kpi client
def disconnectAccount (client : α) : HubPhase α := .disconnect .account client
def disconnectRegulator (client : α) : HubPhase α := .disconnect .regulator client
def disconnectKline (upper : String → String) (client : α) (symbol interval : String) : HubPhase α :=
  .disconnect (klineChannel upper symbol interval) client

def broadcastMarket : HubPhase α := .broadcast .market
def broadcastKpi : HubPhase α := .broadcast .kpi
def broadcastAccount : HubPhase α := .broadcast .account
def broadcastKline (upper : String → String) (symbol interval : String) : HubPhase α :=
  .broadcast (klineChannel upper symbol interval)

/-- The exceptions that leave a call. -/
inductive HubError where
  | accept
  /-- `RuntimeError: Set changed size during iteration`. -/
  | changedSize
  deriving DecidableEq

structure HubAnswer (α : Type) where
  /-- The awaited call raises. -/
  fails : Bool := false
  /-- Where an added client goes. -/
  placement : PySet.Placement α := .slot 0

abbrev AfterCall (α : Type) : Type := Next (HubPhase α) (Except HubError Unit)

/-- `for client in clients`, from the next client on. -/
def broadcastLoop (h : Hub α) (ch : Channel) (s : PySet α) (it : PySet.Iter) (stale : List α) :
    Hub α × AfterCall α :=
  match s.next it with
  | .raised => (h, .done (.error .changedSize))
  | .stopped => (h.discardAll ch stale, .done (.ok ()))
  | .item client it' => (h, .await (.send ch it' client stale))

/-- `for client in targets` of `broadcast_alert`. -/
def alertLoop (h : Hub α) : List α → List α → Hub α × AfterCall α
  | [], stale => ((h.discardAll .kpi stale).discardAll .regulator stale, .done (.ok ()))
  | client :: rest, stale => (h, .await (.sendAlert rest client stale))

/-- `stale.append(client)` when the send raised. -/
def appendStale (stale : List α) (client : α) (fails : Bool) : List α :=
  if fails then stale ++ [client] else stale

def hubStep (h : Hub α) (ans : HubAnswer α) : HubPhase α → Hub α × AfterCall α
  | .accept ch client =>
    if ans.fails then (h, .done (.error .accept))
    else (h.connect ch client ans.placement, .done (.ok ()))
  | .disconnect ch client => (h.discardAll ch [client], .done (.ok ()))
  | .broadcast ch =>
    match h.clients ch with
    | some s => broadcastLoop h ch s s.iter []
    | none => (h, .done (.ok ()))
  | .send ch it client stale =>
    match h.clients ch with
    | some s => broadcastLoop h ch s it (appendStale stale client ans.fails)
    | none => (h, .done (.ok ()))
  | .broadcastAlert => alertLoop h (h.members .kpi ++
      (h.members .regulator).filter fun client => client ∉ h.members .kpi) []
  | .sendAlert rest client stale => alertLoop h rest (appendStale stale client ans.fails)

/-- A call that has not run yet. -/
def HubPhase.Starting : HubPhase α → Prop
  | .send .. | .sendAlert .. => False
  | _ => True

abbrev HubState (α : Type) : Type := Hub α × List (AfterCall α)

/-- Any number of calls, interleaved. -/
def realtime (α : Type) [DecidableEq α] : Sys :=
  interleave hubStep fun (_ : Hub α) ts => ∀ t ∈ ts, ∃ p : HubPhase α, t = .await p ∧ p.Starting

/-! ## What a step leaves of a channel -/

theorem Hub.clients_discardAll {h : Hub α} {ch : Channel} {s : PySet α} (hs : h.clients ch = some s)
    (ch' : Channel) (stale : List α) :
    ∃ t, (h.discardAll ch' stale).clients ch = some t ∧ PySet.Kept s t ∧ ∀ x ∈ t, x ∈ s := by
  unfold Hub.discardAll
  by_cases e : ch = ch'
  · subst e
    rw [hs]
    exact ⟨_, by simp, s.kept_discardAll stale, fun x hx => (PySet.mem_discardAll.mp hx).1⟩
  · refine ⟨s, ?_, .refl s, fun x hx => hx⟩
    split
    · simp [e, hs]
    · exact hs

theorem Hub.mem_discardAll {h : Hub α} {ch : Channel} {stale : List α} {c : α} :
    c ∈ (h.discardAll ch stale).members ch ↔ c ∈ h.members ch ∧ c ∉ stale := by
  unfold Hub.discardAll Hub.members
  cases hs : h.clients ch with
  | none => simp [hs]
  | some s =>
    simp only [Hub.clients_set, if_true, Option.map_some, Option.getD_some]
    exact PySet.mem_discardAll

theorem Hub.mem_members_discardAll {h : Hub α} {ch ch' : Channel} {stale : List α} {c : α} :
    c ∈ (h.discardAll ch stale).members ch' ↔ c ∈ h.members ch' ∧ ¬(ch' = ch ∧ c ∈ stale) := by
  by_cases e : ch' = ch
  · subst e
    rw [Hub.mem_discardAll]
    simp
  · have hother : (h.discardAll ch stale).members ch' = h.members ch' := by
      unfold Hub.discardAll
      split
      · rw [Hub.members, Hub.clients_set, if_neg e]
        rfl
      · rfl
    rw [hother]
    simp [e]

theorem Hub.mem_members_connect {h : Hub α} {ch ch' : Channel} {client c : α}
    {p : PySet.Placement α} :
    c ∈ (h.connect ch client p).members ch' ↔ ch' = ch ∧ c = client ∨ c ∈ h.members ch' := by
  unfold Hub.connect Hub.members
  rw [Hub.clients_set]
  by_cases e : ch' = ch
  · subst e
    rw [if_pos rfl]
    refine (PySet.mem_add (p := p)).trans ?_
    rw [and_iff_right rfl]
    cases h.clients ch' <;> rfl
  · rw [if_neg e]
    simp [e]

/-- A client that connects to the channel goes to a free slot. -/
def HubPhase.Fits (s : PySet α) (ch : Channel) (ans : HubAnswer α) : HubPhase α → Prop
  | .accept ch' client => ch' = ch → ans.fails = false → PySet.Fits s client ans.placement
  | _ => True

/-- What stays in a channel's set stays in its place. -/
theorem hubStep_kept {h : Hub α} {ch : Channel} {s : PySet α} {ans : HubAnswer α} {p : HubPhase α}
    (hs : h.clients ch = some s) (hf : p.Fits s ch ans) :
    ∃ t, (hubStep h ans p).1.clients ch = some t ∧ PySet.Kept s t := by
  have loop : ∀ (ch' : Channel) (s' : PySet α) (it : PySet.Iter) (stale : List α),
      ∃ t, (broadcastLoop h ch' s' it stale).1.clients ch = some t ∧ PySet.Kept s t := by
    intro ch' s' it stale
    unfold broadcastLoop
    split
    · exact ⟨s, hs, .refl s⟩
    · obtain ⟨t, ht, hk, -⟩ := Hub.clients_discardAll hs ch' stale
      exact ⟨t, ht, hk⟩
    · exact ⟨s, hs, .refl s⟩
  have alert : ∀ rest stale : List α,
      ∃ t, (alertLoop h rest stale).1.clients ch = some t ∧ PySet.Kept s t := by
    intro rest stale
    cases rest with
    | nil =>
      obtain ⟨t, ht, hk, -⟩ := Hub.clients_discardAll hs .kpi stale
      obtain ⟨u, hu, hk', hsub⟩ := Hub.clients_discardAll ht .regulator stale
      exact ⟨u, hu, hk.trans hk' hsub⟩
    | cons client rest => exact ⟨s, hs, .refl s⟩
  cases p with
  | accept ch' client =>
    simp only [hubStep]
    split
    · exact ⟨s, hs, .refl s⟩
    · rename_i hfail
      by_cases e : ch' = ch
      · subst e
        refine ⟨_, by rw [Hub.connect, Hub.clients_set, if_pos rfl, hs], ?_⟩
        exact PySet.kept_add (hf rfl (by simpa using hfail))
      · exact ⟨s, by rw [Hub.connect, Hub.clients_set, if_neg (Ne.symm e), hs], .refl s⟩
  | disconnect ch' client =>
    obtain ⟨t, ht, hk, -⟩ := Hub.clients_discardAll hs ch' [client]
    exact ⟨t, ht, hk⟩
  | broadcast ch' =>
    simp only [hubStep]
    split
    · exact loop ..
    · exact ⟨s, hs, .refl s⟩
  | send ch' it client stale =>
    simp only [hubStep]
    split
    · exact loop ..
    · exact ⟨s, hs, .refl s⟩
  | broadcastAlert => exact alert ..
  | sendAlert rest client stale => exact alert ..

end CryptoExchange
