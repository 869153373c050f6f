import CryptoExchange.Realtime.KlineChannels
import CryptoExchange.Realtime.AlertBroadcasts
import CryptoExchange.Audit.Event
import CryptoExchange.Gateway.Auth

/-!
# The WebSocket routes

The handlers of the five WebSocket routes and the broadcasts of the hub, interleaved. A handler
checks its query parameters, is put in one set of the hub, and stays in its loop until a call
raises; then it takes itself out.

* `admission`: the checks of each route. `decodeAccessToken` is a parameter: what the token of a
  client decodes to when its handler checks it, `none` for a `ValueError`. `Allowed` says who may be
  on which channel, and `admission_channel_iff` that exactly those pass.
* `streamStep`, `streams`: the handlers and the broadcasts. The cancellation of a handler when the
  server stops is left out.
* `Keeps`: what a step leaves of another client. `call_step`, `handler_step`: one step.
* `streams_authorized`: who is in a set of the hub is allowed there and in its loop, and a broadcast
  sends to nobody else. Who is in its loop is in its set, unless a send to it failed.
-/

namespace CryptoExchange

open Lib

variable {α : Type}

/-! ## The checks -/

inductive StreamRoute where
  | market
  | klines
  | kpi
  | account
  | regulator
  deriving DecidableEq

/-- A WebSocket that came to a route, with its query parameters. -/
structure StreamRequest (α : Type) where
  websocket : α
  route : StreamRoute
  token : Option String := none
  symbol : Option String := none
  interval : Option String := none

/-- `websocket.close`. -/
structure CloseFrame where
  code : ℕ
  reason : String
  deriving DecidableEq

/-- The payload of a token, with the name that `regulator_stream` reports. -/
structure StreamClaims extends Claims where
  username : Option String

/-- The set that a client is put in, and the event that it is reported with. -/
structure Admission where
  channel : Channel
  audit : Option Event := none

namespace Streams

section

variable (upper : String → String) (decodeAccessToken : α → String → Option StreamClaims)

/-- The check that each handler begins with. -/
def checkToken (r : StreamRequest α) (next : StreamClaims → Except CloseFrame Admission) :
    Except CloseFrame Admission :=
  let token := r.token.getD ""
  if token = "" then .error ⟨4401, "Missing token"⟩
  else
    match decodeAccessToken r.websocket token with
    | none => .error ⟨4401, "Invalid token"⟩
    | some payload => next payload

def marketStream (r : StreamRequest α) : Except CloseFrame Admission :=
  checkToken decodeAccessToken r fun _ => .ok { channel := .market }

def kpiStream (r : StreamRequest α) : Except CloseFrame Admission :=
  checkToken decodeAccessToken r fun _ => .ok { channel := .kpi }

def accountStream (r : StreamRequest α) : Except CloseFrame Admission :=
  checkToken decodeAccessToken r fun _ => .ok { channel := .account }

def klineStreamWs (r : StreamRequest α) : Except CloseFrame Admission :=
  let symbol := upper (r.symbol.getD "")
  let interval := r.interval.getD ""
  checkToken decodeAccessToken r fun _ =>
    if symbol = "" then .error ⟨4400, "Missing symbol"⟩
    else if interval ∉ validIntervals then
      .error ⟨4400, "Unsupported interval. Valid: ['15m', '1h', '1m', '5m']"⟩
    else .ok { channel := klineChannel upper symbol interval }

/-- The event of a regulator that connects. -/
def connected (payload : StreamClaims) : Event where
  eventType := "REGULATOR_ACCESS"
  actorId := if payload.sub = 0 then none else some payload.sub
  actorUsername := payload.username
  eventData := some [("endpoint", .str "/regulator/stream"), ("action", .str "connect")]

def regulatorStream (r : StreamRequest α) : Except CloseFrame Admission :=
  checkToken decodeAccessToken r fun payload =>
    if payload.role.getD "trader" ∉ ["admin", "regulator"] then
      .error ⟨4403, "Insufficient role"⟩
    else .ok { channel := .regulator, audit := connected payload }

def admission (r : StreamRequest α) : Except CloseFrame Admission :=
  match r.route with
  | .market => marketStream decodeAccessToken r
  | .klines => klineStreamWs upper decodeAccessToken r
  | .kpi => kpiStream decodeAccessToken r
  | .account => accountStream decodeAccessToken r
  | .regulator => regulatorStream decodeAccessToken r

/-- The client came to the route of the channel with what that route asks for. -/
def Suits (r : StreamRequest α) (payload : StreamClaims) : Channel → Prop
  | .market => r.route = .market
  | .kpi => r.route = .kpi
  | .account => r.route = .account
  | .regulator => r.route = .regulator ∧ payload.role.getD "trader" ∈ ["admin", "regulator"]
  | .kline key => r.route = .klines ∧ upper (r.symbol.getD "") ≠ "" ∧
    r.interval.getD "" ∈ validIntervals ∧
    upper (upper (r.symbol.getD "")) ++ ":" ++ r.interval.getD "" = key

/-- The client may be on the channel. -/
def Allowed (r : StreamRequest α) (ch : Channel) : Prop :=
  ∃ token payload, r.token = some token ∧ token ≠ "" ∧
    decodeAccessToken r.websocket token = some payload ∧ Suits upper r payload ch

variable {upper decodeAccessToken}

theorem checkToken_ok {r : StreamRequest α} {next : StreamClaims → Except CloseFrame Admission}
    {a : Admission} : checkToken decodeAccessToken r next = .ok a ↔
      ∃ token payload, r.token = some token ∧ token ≠ "" ∧
        decodeAccessToken r.websocket token = some payload ∧ next payload = .ok a := by
  unfold checkToken
  dsimp only
  cases ht : r.token with
  | none => simp
  | some token =>
    simp only [Option.getD_some, Option.some.injEq, exists_and_left, exists_eq_left']
    by_cases hne : token = ""
    · simp [hne]
    · rw [if_neg hne]
      cases decodeAccessToken r.websocket token with
      | none => simp
      | some payload => simp [hne]

theorem checkToken_channel {r : StreamRequest α}
    {next : StreamClaims → Except CloseFrame Admission} {ch : Channel} :
    (∃ a, checkToken decodeAccessToken r next = .ok a ∧ a.channel = ch) ↔
      ∃ token payload, r.token = some token ∧ token ≠ "" ∧
        decodeAccessToken r.websocket token = some payload ∧
        ∃ a, next payload = .ok a ∧ a.channel = ch := by
  constructor
  · rintro ⟨a, ha, hch⟩
    obtain ⟨token, payload, ht, hne, hp, hok⟩ := checkToken_ok.mp ha
    exact ⟨token, payload, ht, hne, hp, a, hok, hch⟩
  · rintro ⟨token, payload, ht, hne, hp, a, hok, hch⟩
    exact ⟨a, checkToken_ok.mpr ⟨token, payload, ht, hne, hp, hok⟩, hch⟩

theorem ok_channel {a' : Admission} {ch : Channel} :
    (∃ a, (.ok a' : Except CloseFrame Admission) = .ok a ∧ a.channel = ch) ↔ a'.channel = ch := by
  constructor
  · rintro ⟨a, ha, rfl⟩
    cases ha
    rfl
  · rintro rfl
    exact ⟨a', rfl, rfl⟩

theorem unless_channel {c : Prop} [Decidable c] {frame : CloseFrame}
    {x : Except CloseFrame Admission} {ch : Channel} :
    (∃ a, (if c then .error frame else x) = .ok a ∧ a.channel = ch) ↔
      ¬c ∧ ∃ a, x = .ok a ∧ a.channel = ch := by
  by_cases h : c <;> simp [h]

/-- Exactly those pass the checks that are allowed, and to that channel. -/
theorem admission_channel_iff {r : StreamRequest α} {ch : Channel} :
    (∃ a, admission upper decodeAccessToken r = .ok a ∧ a.channel = ch) ↔
      Allowed upper decodeAccessToken r ch := by
  unfold admission Allowed
  cases hroute : r.route with
  | market =>
    refine checkToken_channel.trans ?_
    simp only [ok_channel]
    cases ch <;> simp [Suits, hroute]
  | kpi =>
    refine checkToken_channel.trans ?_
    simp only [ok_channel]
    cases ch <;> simp [Suits, hroute]
  | account =>
    refine checkToken_channel.trans ?_
    simp only [ok_channel]
    cases ch <;> simp [Suits, hroute]
  | klines =>
    refine checkToken_channel.trans ?_
    simp only [unless_channel, ok_channel, klineChannel]
    cases ch <;> simp [Suits, hroute]
  | regulator =>
    refine checkToken_channel.trans ?_
    simp only [unless_channel, ok_channel, not_not]
    cases ch <;> simp [Suits, hroute]

/-- The event of a client that is let in to the regulators. -/
theorem admission_audit {r : StreamRequest α} {a : Admission}
    (h : admission upper decodeAccessToken r = .ok a) (hch : a.channel = .regulator) :
    ∃ token payload, r.token = some token ∧ decodeAccessToken r.websocket token = some payload ∧
      a.audit = some (connected payload) := by
  unfold admission at h
  split at h
  · obtain ⟨-, -, -, -, -, hok⟩ := checkToken_ok.mp h
    cases hok
    cases hch
  · obtain ⟨-, -, -, -, -, hok⟩ := checkToken_ok.mp h
    split at hok
    · cases hok
    · split at hok
      · cases hok
      · cases hok
        cases hch
  · obtain ⟨-, -, -, -, -, hok⟩ := checkToken_ok.mp h
    cases hok
    cases hch
  · obtain ⟨-, -, -, -, -, hok⟩ := checkToken_ok.mp h
    cases hok
    cases hch
  · obtain ⟨token, payload, ht, -, hp, hok⟩ := checkToken_ok.mp h
    split at hok
    · cases hok
    · cases hok
      exact ⟨token, payload, ht, hp, rfl⟩

end

end Streams

/-! ## The handlers -/

/-- What a handler awaits. -/
inductive HandlerPhase where
  | start
  | close (frame : CloseFrame)
  /-- The handshake, in `connect_*`. -/
  | accept (a : Admission)
  /-- `market_service.snapshot` or `market_service.get_candles`. -/
  | snapshot (ch : Channel)
  /-- The first message. -/
  | hello (ch : Channel)
  /-- `receive_text`, in the loop. -/
  | receive (ch : Channel)

/-- The channel that a connected handler is on. -/
def HandlerPhase.channel : HandlerPhase → Option Channel
  | .start | .close _ | .accept _ => none
  | .snapshot ch | .hello ch | .receive ch => some ch

inductive StreamPhase (α : Type) where
  | handler (r : StreamRequest α) (p : HandlerPhase)
  /-- A call of the hub by another part of the program. -/
  | call (p : HubPhase α)

inductive StreamEnd where
  | refused (frame : CloseFrame)
  /-- The handshake raised. -/
  | raised
  | left
  | called (r : Except HubError Unit)

/-- The hub, with the events that the handlers reported and the clients a send to whom failed. -/
structure StreamWorld (α : Type) where
  hub : Hub α
  events : List Event := []
  unreachable : List α := []

/-- What a handler does once it is connected. -/
def StreamRoute.opened (ch : Channel) : StreamRoute → HandlerPhase
  | .market | .klines => .snapshot ch
  | .kpi | .regulator => .hello ch
  | .account => .receive ch

/-- The client that a send of a broadcast fails to reach. -/
def HubPhase.unreached (fails : Bool) : HubPhase α → List α
  | .send _ _ client _ | .sendAlert _ client _ => if fails then [client] else []
  | _ => []

variable [DecidableEq α]

/-- `disconnect_*`, in the `except` of a handler. -/
def StreamWorld.leave (w : StreamWorld α) (ch : Channel) (client : α) :
    StreamWorld α × Next (StreamPhase α) StreamEnd :=
  ({ w with hub := w.hub.discardAll ch [client] }, .done .left)

section

variable (upper : String → String) (decodeAccessToken : α → String → Option StreamClaims)

def handlerStep (w : StreamWorld α) (ans : HubAnswer α) (r : StreamRequest α) :
    HandlerPhase → StreamWorld α × Next (StreamPhase α) StreamEnd
  | .start =>
    match Streams.admission upper decodeAccessToken r with
    | .error frame => (w, .await (.handler r (.close frame)))
    | .ok a => (w, .await (.handler r (.accept a)))
  | .close frame => (w, .done (.refused frame))
  | .accept a =>
    if ans.fails then (w, .done .raised)
    else
      ({ w with
          hub := w.hub.connect a.channel r.websocket ans.placement
          events := w.events ++ a.audit.toList },
        .await (.handler r (r.route.opened a.channel)))
  | .snapshot ch =>
    if ans.fails then
      -- `kline_stream_ws` goes on without its first message
      if r.route = .klines then (w, .await (.handler r (.receive ch)))
      else w.leave ch r.websocket
    else (w, .await (.handler r (.hello ch)))
  | .hello ch =>
    if ans.fails ∧ r.route ≠ .klines then w.leave ch r.websocket
    else (w, .await (.handler r (.receive ch)))
  | .receive ch =>
    if ans.fails then w.leave ch r.websocket else (w, .await (.handler r (.receive ch)))

def streamStep (w : StreamWorld α) (ans : HubAnswer α × List α) :
    StreamPhase α → StreamWorld α × Next (StreamPhase α) StreamEnd
  | .handler r p => handlerStep upper decodeAccessToken w ans.1 r p
  | .call p =>
    ({ w with
        hub := (hubStepIn w.hub ans p).1
        unreachable := w.unreachable ++ p.unreached ans.1.fails },
      (hubStepIn w.hub ans p).2.map .call .called)

/-- A broadcast that has not begun. -/
def HubPhase.Pushes : HubPhase α → Prop
  | .broadcast _ | .broadcastAlert => True
  | _ => False

/-- The handlers of the requests and any number of broadcasts. Each request has a socket of its
own. -/
def streams (requests : List (StreamRequest α)) : Sys :=
  (interleave (streamStep upper decodeAccessToken) fun w ts =>
    (requests.map StreamRequest.websocket).Nodup ∧
    w = { hub := ⟨.empty, .empty, .empty, .empty, fun _ => none⟩ } ∧
    ∃ calls : List (HubPhase α), (∀ p ∈ calls, p.Pushes) ∧
      ts = requests.map (fun r => .await (.handler r .start)) ++
        calls.map fun p => .await (.call p)).restrict
    (StepMeets fun w ans p => ∀ q, p = .call q → Ordered w.hub ans q)

end

/-! ## What a step leaves of a client -/

/-- The client stays where it is, unless a broadcast did not reach it. -/
structure Keeps (w w' : StreamWorld α) (c : α) : Prop where
  members : ∀ ch, c ∈ w'.hub.members ch → c ∈ w.hub.members ch
  stays : ∀ ch, c ∈ w.hub.members ch → c ∈ w'.hub.members ch ∨ c ∈ w'.unreachable
  unreachable : w.unreachable ⊆ w'.unreachable
  events : w.events ⊆ w'.events

omit [DecidableEq α] in
theorem keeps_hub {w w' : StreamWorld α} (hhub : w'.hub = w.hub)
    (hu : w.unreachable ⊆ w'.unreachable) (he : w'.events = w.events) (c : α) : Keeps w w' c :=
  ⟨fun _ hc => hhub ▸ hc, fun _ hc => .inl (hhub ▸ hc), hu, he ▸ List.Subset.refl _⟩

/-- The discards of a broadcast. -/
theorem keeps_discardAll (w w' : StreamWorld α) (ch : Channel) {stale : List α}
    (hhub : w'.hub = w.hub.discardAll ch stale) (hu : w.unreachable ⊆ w'.unreachable)
    (he : w'.events = w.events) {c : α} (hc : c ∈ stale → c ∈ w'.unreachable) : Keeps w w' c where
  members ch' h := by
    rw [hhub, Hub.mem_members_discardAll] at h
    exact h.1
  stays ch' h := by
    by_cases hs : c ∈ stale
    · exact .inr (hc hs)
    · refine .inl ?_
      rw [hhub, Hub.mem_members_discardAll]
      exact ⟨h, fun hd => hs hd.2⟩
  unreachable := hu
  events := he ▸ List.Subset.refl _

omit [DecidableEq α] in
theorem Keeps.trans {w w' w'' : StreamWorld α} {c : α} (h : Keeps w w' c) (h' : Keeps w' w'' c) :
    Keeps w w'' c where
  members ch hc := h.members ch (h'.members ch hc)
  stays ch hc := (h.stays ch hc).elim (h'.stays ch) fun hu => .inr (h'.unreachable hu)
  unreachable := List.Subset.trans h.unreachable h'.unreachable
  events := List.Subset.trans h.events h'.events

section

variable {upper : String → String} {decodeAccessToken : α → String → Option StreamClaims}
variable {requests : List (StreamRequest α)} {w w' : StreamWorld α}

/-! ## Broadcasts -/

/-- The client came with a request and is allowed on the channel. -/
def Entitled (upper : String → String) (decodeAccessToken : α → String → Option StreamClaims)
    (requests : List (StreamRequest α)) (ch : Channel) (c : α) : Prop :=
  ∃ r ∈ requests, r.websocket = c ∧ Streams.Allowed upper decodeAccessToken r ch

/-- The clients of the sets are entitled to be there. -/
def Admitted (upper : String → String) (decodeAccessToken : α → String → Option StreamClaims)
    (requests : List (StreamRequest α)) (h : Hub α) : Prop :=
  ∀ ch, ∀ c ∈ h.members ch, Entitled upper decodeAccessToken requests ch c

/-- A broadcast under way: whom it sends to, and whom it did not reach. -/
def Pushing (upper : String → String) (decodeAccessToken : α → String → Option StreamClaims)
    (requests : List (StreamRequest α)) (w : StreamWorld α) : HubPhase α → Prop
  | .accept .. | .disconnect .. => False
  | .broadcast _ | .broadcastAlert => True
  | .send ch _ client stale =>
    Entitled upper decodeAccessToken requests ch client ∧ stale ⊆ w.unreachable
  | .sendAlert rest client stale =>
    (∀ c ∈ client :: rest, Entitled upper decodeAccessToken requests .kpi c ∨
      Entitled upper decodeAccessToken requests .regulator c) ∧ stale ⊆ w.unreachable

omit [DecidableEq α] in
theorem Pushing.mono {p : HubPhase α} (h : Pushing upper decodeAccessToken requests w p)
    (hu : w.unreachable ⊆ w'.unreachable) : Pushing upper decodeAccessToken requests w' p := by
  cases p with
  | accept | disconnect => exact h.elim
  | broadcast | broadcastAlert => trivial
  | send => exact ⟨h.1, List.Subset.trans h.2 hu⟩
  | sendAlert => exact ⟨h.1, List.Subset.trans h.2 hu⟩

/-- A broadcast after one of its steps. -/
def AfterPush (upper : String → String) (decodeAccessToken : α → String → Option StreamClaims)
    (requests : List (StreamRequest α)) (w : StreamWorld α) (n : AfterCall α) : Prop :=
  ∀ p, n = .await p → Pushing upper decodeAccessToken requests w p

/-- One round of `for client in clients`. -/
theorem loop_pushing {ch : Channel} {s : PySet α} {it : PySet.Iter} {stale : List α}
    {n : AfterCall α} (ha : Admitted upper decodeAccessToken requests w.hub)
    (hs : w.hub.clients ch = some s) (hstale : stale ⊆ w'.unreachable)
    (hu : w.unreachable ⊆ w'.unreachable) (he : w'.events = w.events)
    (e : broadcastLoop w.hub ch s it stale = (w'.hub, n)) :
    AfterPush upper decodeAccessToken requests w' n ∧ ∀ c, Keeps w w' c := by
  unfold broadcastLoop at e
  split at e
  · obtain ⟨hh, rfl⟩ := Prod.mk.inj e
    exact ⟨fun p hp => (by cases hp), keeps_hub hh.symm hu he⟩
  · obtain ⟨hh, rfl⟩ := Prod.mk.inj e
    exact ⟨fun p hp => (by cases hp), fun c => keeps_discardAll w w' ch hh.symm hu he (hstale ·)⟩
  · rename_i client it' hn
    obtain ⟨hh, rfl⟩ := Prod.mk.inj e
    obtain ⟨k, -, -, hk, -⟩ := PySet.next_item hn
    have hclient : client ∈ w.hub.members ch := by
      rw [Hub.members, hs]
      exact PySet.mem_iff.mpr (List.mem_of_getElem? hk)
    refine ⟨fun p hp => ?_, keeps_hub hh.symm hu he⟩
    cases hp
    exact ⟨ha ch client hclient, hstale⟩

/-- One round of `for client in targets`. -/
theorem alert_pushing {rest stale : List α} {n : AfterCall α}
    (ht : ∀ c ∈ rest, Entitled upper decodeAccessToken requests .kpi c ∨
      Entitled upper decodeAccessToken requests .regulator c)
    (hstale : stale ⊆ w'.unreachable) (hu : w.unreachable ⊆ w'.unreachable)
    (he : w'.events = w.events) (e : alertLoop w.hub rest stale = (w'.hub, n)) :
    AfterPush upper decodeAccessToken requests w' n ∧ ∀ c, Keeps w w' c := by
  cases rest with
  | nil =>
    obtain ⟨hh, rfl⟩ := Prod.mk.inj e
    refine ⟨fun p hp => (by cases hp), fun c => ?_⟩
    let mid : StreamWorld α := { w' with hub := w.hub.discardAll .kpi stale }
    have hmid : Keeps w mid c := keeps_discardAll w mid .kpi rfl hu he (hstale ·)
    exact hmid.trans
      (keeps_discardAll mid w' .regulator hh.symm (List.Subset.refl _) rfl (hstale ·))
  | cons client rest =>
    obtain ⟨hh, rfl⟩ := Prod.mk.inj e
    refine ⟨fun p hp => ?_, fun c => ?_⟩
    · cases hp
      exact ⟨ht, hstale⟩
    · exact keeps_hub hh.symm hu he c

/-- **A step of a broadcast.** It goes on to clients who are entitled to it, and takes only those
out whom a send did not reach. -/
theorem call_step {ans : HubAnswer α × List α} {p : HubPhase α} {n : AfterCall α}
    (ha : Admitted upper decodeAccessToken requests w.hub)
    (hp : Pushing upper decodeAccessToken requests w p) (ho : Ordered w.hub ans p)
    (hu : w'.unreachable = w.unreachable ++ p.unreached ans.1.fails) (he : w'.events = w.events)
    (hs : hubStepIn w.hub ans p = (w'.hub, n)) :
    AfterPush upper decodeAccessToken requests w' n ∧ ∀ c, Keeps w w' c := by
  have hgrow : w.unreachable ⊆ w'.unreachable := hu ▸ List.subset_append_left _ _
  have stale : ∀ {stale : List α} {client : α}, stale ⊆ w.unreachable →
      (if ans.1.fails then [client] else []) ⊆ w'.unreachable →
      appendStale stale client ans.1.fails ⊆ w'.unreachable := by
    intro stale client hstale hclient c hc
    unfold appendStale at hc
    split at hc
    · rename_i hf
      rw [if_pos hf] at hclient
      exact (List.mem_append.mp hc).elim (fun h => hgrow (hstale h)) fun h => hclient h
    · exact hgrow (hstale hc)
  cases p with
  | accept | disconnect => exact hp.elim
  | broadcast ch =>
    simp only [hubStepIn, hubStep] at hs
    split at hs
    · rename_i s hch
      exact loop_pushing ha hch (List.nil_subset _) hgrow he hs
    · obtain ⟨hh, rfl⟩ := Prod.mk.inj hs
      exact ⟨fun p hp => (by cases hp), keeps_hub hh.symm hgrow he⟩
  | send ch it client st =>
    have hclient := hu ▸ List.subset_append_right w.unreachable _
    simp only [hubStepIn, hubStep] at hs
    split at hs
    · rename_i s hch
      exact loop_pushing ha hch (stale hp.2 hclient) hgrow he hs
    · obtain ⟨hh, rfl⟩ := Prod.mk.inj hs
      exact ⟨fun p hp => (by cases hp), keeps_hub hh.symm hgrow he⟩
  | broadcastAlert =>
    refine alert_pushing (fun c hc => ?_) (List.nil_subset _) hgrow he hs
    exact (mem_alertTargets.mp ((ho rfl).mem_iff.mp hc)).imp (ha .kpi c) (ha .regulator c)
  | sendAlert rest client st =>
    have hclient := hu ▸ List.subset_append_right w.unreachable _
    exact alert_pushing (fun c hc => hp.1 c (List.mem_cons_of_mem _ hc)) (stale hp.2 hclient)
      hgrow he hs

/-! ## Handlers -/

section

variable (upper decodeAccessToken) (w)

/-- A handler that is not connected, or no longer. -/
inductive Waiting (r : StreamRequest α) : Next (StreamPhase α) StreamEnd → Prop
  | start : Waiting r (.await (.handler r .start))
  | close {frame : CloseFrame} : Streams.admission upper decodeAccessToken r = .error frame →
      Waiting r (.await (.handler r (.close frame)))
  | accept {a : Admission} : Streams.admission upper decodeAccessToken r = .ok a →
      Waiting r (.await (.handler r (.accept a)))
  | refused {frame : CloseFrame} : Streams.admission upper decodeAccessToken r = .error frame →
      Waiting r (.done (.refused frame))
  | raised : Waiting r (.done .raised)
  | left : Waiting r (.done .left)

/-- A client that was put in the set of a channel. -/
structure Connected (r : StreamRequest α) (ch : Channel) : Prop where
  admitted : ∃ a, Streams.admission upper decodeAccessToken r = .ok a ∧ a.channel = ch ∧
    ∀ e ∈ a.audit, e ∈ w.events
  only : ∀ ch', r.websocket ∈ w.hub.members ch' → ch' = ch
  inSet : r.websocket ∈ w.hub.members ch ∨ r.websocket ∈ w.unreachable

/-- The handler of `r`, as it is now. -/
inductive Seated (r : StreamRequest α) : Next (StreamPhase α) StreamEnd → Prop
  | outside {t : Next (StreamPhase α) StreamEnd} : Waiting upper decodeAccessToken r t →
      (∀ ch, r.websocket ∉ w.hub.members ch) → Seated r t
  | inside {p : HandlerPhase} {ch : Channel} : p.channel = some ch →
      Connected upper decodeAccessToken w r ch → Seated r (.await (.handler r p))

end

omit [DecidableEq α] in
theorem Connected.keeps {r : StreamRequest α} {ch : Channel}
    (h : Connected upper decodeAccessToken w r ch) (hk : Keeps w w' r.websocket) :
    Connected upper decodeAccessToken w' r ch where
  admitted := by
    obtain ⟨a, ha, hch, he⟩ := h.admitted
    exact ⟨a, ha, hch, fun e hm => hk.events (he e hm)⟩
  only ch' hc := h.only ch' (hk.members ch' hc)
  inSet := h.inSet.elim (hk.stays ch) fun hu => .inr (hk.unreachable hu)

omit [DecidableEq α] in
theorem Seated.keeps {r : StreamRequest α} {t : Next (StreamPhase α) StreamEnd}
    (h : Seated upper decodeAccessToken w r t) (hk : Keeps w w' r.websocket) :
    Seated upper decodeAccessToken w' r t := by
  cases h with
  | outside ht hout => exact .outside ht fun ch hc => hout ch (hk.members ch hc)
  | inside hp hc => exact .inside hp (hc.keeps hk)

omit [DecidableEq α] in
/-- Once it is connected, a handler is on the channel that it was admitted to. -/
theorem opened_channel (route : StreamRoute) (ch : Channel) :
    (route.opened ch).channel = some ch := by
  cases route <;> rfl

/-- The `except` of a handler. -/
theorem leave_step {r : StreamRequest α} {ch : Channel}
    {n : Next (StreamPhase α) StreamEnd} (hc : Connected upper decodeAccessToken w r ch)
    (hs : w.leave ch r.websocket = (w', n)) :
    Seated upper decodeAccessToken w' r n ∧ ∀ c, c ≠ r.websocket → Keeps w w' c := by
  cases hs
  refine ⟨.outside .left fun ch' hm => ?_, fun c hne => ?_⟩
  · rw [Hub.mem_members_discardAll] at hm
    exact hm.2 ⟨hc.only ch' hm.1, List.mem_singleton_self _⟩
  · exact keeps_discardAll w { w with hub := w.hub.discardAll ch [r.websocket] } ch rfl
      (List.Subset.refl _) rfl fun h => absurd (List.mem_singleton.mp h) hne

/-- The end of `connect_*`. -/
theorem accept_step {r : StreamRequest α} {a : Admission} {ans : HubAnswer α}
    {n : Next (StreamPhase α) StreamEnd}
    (ha : Streams.admission upper decodeAccessToken r = .ok a)
    (hout : ∀ ch, r.websocket ∉ w.hub.members ch)
    (hs : handlerStep upper decodeAccessToken w ans r (.accept a) = (w', n)) :
    Seated upper decodeAccessToken w' r n ∧ ∀ c, c ≠ r.websocket → Keeps w w' c := by
  simp only [handlerStep] at hs
  split at hs
  · cases hs
    exact ⟨.outside .raised hout, fun c _ => keeps_hub rfl (List.Subset.refl _) rfl c⟩
  · cases hs
    refine ⟨.inside (opened_channel _ _) ⟨⟨a, ha, rfl, fun e he => ?_⟩, fun ch hm => ?_, ?_⟩,
      fun c hne => ⟨fun ch hm => ?_, fun ch hm => .inl ?_, List.Subset.refl _,
        List.subset_append_left _ _⟩⟩
    · exact List.mem_append_right _ (Option.mem_toList.mpr he)
    · exact (Hub.mem_members_connect.mp hm).elim And.left fun h => absurd h (hout ch)
    · exact .inl (Hub.mem_members_connect.mpr (.inl ⟨rfl, rfl⟩))
    · exact (Hub.mem_members_connect.mp hm).elim (fun h => absurd h.2 hne) id
    · exact Hub.mem_members_connect.mpr (.inr hm)

/-- **A step of a handler.** It moves its own client only. -/
theorem handler_step {r : StreamRequest α} {p : HandlerPhase} {ans : HubAnswer α}
    {n : Next (StreamPhase α) StreamEnd}
    (h : Seated upper decodeAccessToken w r (.await (.handler r p)))
    (hs : handlerStep upper decodeAccessToken w ans r p = (w', n)) :
    Seated upper decodeAccessToken w' r n ∧ ∀ c, c ≠ r.websocket → Keeps w w' c := by
  have stays : ∀ {t : Next (StreamPhase α) StreamEnd}, Seated upper decodeAccessToken w r t →
      (w, t) = (w', n) →
      Seated upper decodeAccessToken w' r n ∧ ∀ c, c ≠ r.websocket → Keeps w w' c := by
    intro t ht e
    cases e
    exact ⟨ht, fun c _ => keeps_hub rfl (List.Subset.refl _) rfl c⟩
  cases h with
  | outside ht hout =>
    cases ht with
    | start =>
      simp only [handlerStep] at hs
      split at hs
      · rename_i hadm
        exact stays (.outside (.close hadm) hout) hs
      · rename_i hadm
        exact stays (.outside (.accept hadm) hout) hs
    | close hadm => exact stays (.outside (.refused hadm) hout) hs
    | accept hadm => exact accept_step hadm hout hs
  | inside hp hc =>
    cases p with
    | start | close | accept => cases hp
    | snapshot ch =>
      cases hp
      simp only [handlerStep] at hs
      split at hs
      · split at hs
        · exact stays (.inside rfl hc) hs
        · exact leave_step hc hs
      · exact stays (.inside rfl hc) hs
    | hello ch =>
      cases hp
      simp only [handlerStep] at hs
      split at hs
      · exact leave_step hc hs
      · exact stays (.inside rfl hc) hs
    | receive ch =>
      cases hp
      simp only [handlerStep] at hs
      split at hs
      · exact leave_step hc hs
      · exact stays (.inside rfl hc) hs

theorem handlerStep_unreachable (w : StreamWorld α) (ans : HubAnswer α) (r : StreamRequest α)
    (p : HandlerPhase) :
    (handlerStep upper decodeAccessToken w ans r p).1.unreachable = w.unreachable := by
  cases p with
  | close => rfl
  | snapshot ch =>
    simp only [handlerStep]
    split
    · split <;> rfl
    · rfl
  | start | accept | hello | receive =>
    simp only [handlerStep]
    split <;> rfl

omit [DecidableEq α] in
/-- Who is in a set was admitted to it. -/
theorem Seated.entitled {r : StreamRequest α} {t : Next (StreamPhase α) StreamEnd} {ch : Channel}
    (h : Seated upper decodeAccessToken w r t) (hr : r ∈ requests)
    (hm : r.websocket ∈ w.hub.members ch) :
    Entitled upper decodeAccessToken requests ch r.websocket := by
  cases h with
  | outside _ hout => exact absurd hm (hout ch)
  | inside hp hc =>
    obtain ⟨a, ha, hch, -⟩ := hc.admitted
    obtain rfl := hc.only ch hm
    exact ⟨r, hr, rfl, Streams.admission_channel_iff.mp ⟨a, ha, hch⟩⟩

/-! ## Runs -/

/-- The `i`th machine, as it is now. -/
def Slot (upper : String → String) (decodeAccessToken : α → String → Option StreamClaims)
    (requests : List (StreamRequest α)) (i : ℕ) (w : StreamWorld α)
    (t : Next (StreamPhase α) StreamEnd) : Prop :=
  (∀ r, requests[i]? = some r → Seated upper decodeAccessToken w r t) ∧
  (requests[i]? = none → ∀ q, t = .await q →
    ∃ p, q = .call p ∧ Pushing upper decodeAccessToken requests w p)

omit [DecidableEq α] in
theorem Slot.keeps {i : ℕ} {t : Next (StreamPhase α) StreamEnd}
    (h : Slot upper decodeAccessToken requests i w t)
    (hk : ∀ r, requests[i]? = some r → Keeps w w' r.websocket)
    (hu : w.unreachable ⊆ w'.unreachable) : Slot upper decodeAccessToken requests i w' t := by
  refine ⟨fun r hr => (h.1 r hr).keeps (hk r hr), fun hn q hq => ?_⟩
  obtain ⟨p, rfl, hp⟩ := h.2 hn q hq
  exact ⟨p, rfl, hp.mono hu⟩

theorem streams_slots (requests : List (StreamRequest α)) :
    (streams upper decodeAccessToken requests).Inductive fun s =>
      ((requests.map StreamRequest.websocket).Nodup ∧
        Admitted upper decodeAccessToken requests s.1.hub) ∧
      ∀ i t, s.2[i]? = some t → Slot upper decodeAccessToken requests i s.1 t := by
  refine interleave_indexed (G := fun w => (requests.map StreamRequest.websocket).Nodup ∧
    Admitted upper decodeAccessToken requests w.hub)
    (T := Slot upper decodeAccessToken requests) (fun w ts h => ?_)
    fun i w ans p w' n hG hT hC hs => ?_
  · obtain ⟨hnodup, rfl, calls, hcalls, rfl⟩ := h
    have hempty : ∀ ch (c : α),
        c ∉ (⟨.empty, .empty, .empty, .empty, fun _ => none⟩ : Hub α).members ch := by
      intro ch c hc
      cases ch <;> simp [Hub.members, Hub.clients, PySet.empty, PySet.members] at hc
    refine ⟨⟨hnodup, fun ch c hc => absurd hc (hempty ch c)⟩, fun i t ht => ⟨fun r hr => ?_,
      fun hn q hq => ?_⟩⟩
    · rw [List.getElem?_append_left (by simpa using (List.getElem?_eq_some_iff.mp hr).1),
        List.getElem?_map, hr] at ht
      cases ht
      exact .outside .start fun ch => hempty ch _
    · rw [List.getElem?_append_right (by simpa using List.getElem?_eq_none_iff.mp hn)] at ht
      obtain ⟨p, hp, rfl⟩ := List.mem_map.mp (List.mem_of_getElem? ht)
      cases hq
      refine ⟨p, rfl, ?_⟩
      have := hcalls p hp
      cases p with
      | broadcast | broadcastAlert => trivial
      | _ => exact this.elim
  · obtain ⟨hnodup, ha⟩ := hG
    cases hi : requests[i]? with
    | some r =>
      have hr := List.mem_of_getElem? hi
      have hseat := hT.1 r hi
      obtain ⟨p, rfl⟩ : ∃ q, p = .handler r q := by
        cases hseat with
        | outside ht _ => cases ht <;> exact ⟨_, rfl⟩
        | inside => exact ⟨_, rfl⟩
      obtain ⟨hown, hothers⟩ := handler_step hseat hs
      have hu : w'.unreachable = w.unreachable :=
        (congrArg (fun x => x.1.unreachable) hs.symm).trans (handlerStep_unreachable w ans.1 r p)
      refine ⟨⟨hnodup, fun ch c hc => ?_⟩, ⟨fun r' hr' => ?_, fun hn => ?_⟩, fun j t hj ht => ?_⟩
      · by_cases hne : c = r.websocket
        · subst hne
          exact hown.entitled hr hc
        · exact ha ch c ((hothers c hne).members ch hc)
      · obtain rfl := Option.some.inj (hi.symm.trans hr')
        exact hown
      · rw [hi] at hn
        cases hn
      · refine ht.keeps (fun r' hr' => hothers _ fun e => hj ?_) (hu ▸ List.Subset.refl _)
        have hlt := (List.getElem?_eq_some_iff.mp hr').1
        refine (List.getElem?_inj (by simpa using hlt) hnodup).mp ?_
        rw [List.getElem?_map, List.getElem?_map, hr', hi, Option.map_some, Option.map_some, e]
    | none =>
      obtain ⟨p, rfl, hp⟩ := hT.2 hi p rfl
      obtain ⟨hw, hn⟩ := Prod.mk.inj hs
      have hcall : AfterPush upper decodeAccessToken requests w' (hubStepIn w.hub ans p).2 ∧
          ∀ c, Keeps w w' c :=
        call_step ha hp (hC p rfl) (by rw [← hw]) (by rw [← hw]) (Prod.ext (by rw [← hw]) rfl)
      obtain ⟨hafter, hothers⟩ := hcall
      refine ⟨⟨hnodup, fun ch c hc => ha ch c ((hothers c).members ch hc)⟩,
        ⟨fun r hr => ?_, fun _ q hq => ?_⟩, fun j t _ ht => ?_⟩
      · rw [hi] at hr
        cases hr
      · rw [← hn] at hq
        obtain ⟨p', hp', rfl⟩ := Next.map_eq_await hq
        exact ⟨p', rfl, hafter p' hp'⟩
      · refine ht.keeps (fun r _ => hothers r.websocket) ?_
        rw [← hw]
        exact List.subset_append_left _ _

/-- No machine comes or goes. -/
theorem streams_length (requests : List (StreamRequest α)) :
    (streams upper decodeAccessToken requests).Inductive fun s => requests.length ≤ s.2.length where
  init s h := by
    obtain ⟨-, -, calls, -, hts⟩ := h
    rw [hts, List.length_append, List.length_map]
    exact Nat.le_add_right _ _
  step s act s' hle h := by
    obtain ⟨-, p, -, rfl⟩ := h
    rwa [List.length_set]

/-- **Only who may listen is sent to.** At any moment, whatever the order of the steps: a client in
a set of the hub passed the checks of that channel, and its handler has not left. A handler that is
connected is in its set unless a send to it failed, and a regulator was reported. A broadcast that
sends to a client is one for a channel that it may be on. Who was refused may be on none. -/
theorem streams_authorized {s : StreamWorld α × List (Next (StreamPhase α) StreamEnd)}
    (h : (streams upper decodeAccessToken requests).Reach s) :
    (∀ ch, ∀ c ∈ s.1.hub.members ch, ∃ r ∈ requests, r.websocket = c ∧
      Streams.Allowed upper decodeAccessToken r ch ∧
      ∃ p, .await (.handler r p) ∈ s.2 ∧ p.channel = some ch) ∧
    (∀ r p ch, .await (.handler r p) ∈ s.2 → p.channel = some ch →
      (r.websocket ∈ s.1.hub.members ch ∨ r.websocket ∈ s.1.unreachable) ∧
      (ch = .regulator → ∃ token payload, r.token = some token ∧
        decodeAccessToken r.websocket token = some payload ∧
        Streams.connected payload ∈ s.1.events)) ∧
    (∀ ch it c stale, .await (.call (.send ch it c stale)) ∈ s.2 →
      Entitled upper decodeAccessToken requests ch c) ∧
    (∀ rest c stale, .await (.call (.sendAlert rest c stale)) ∈ s.2 →
      Entitled upper decodeAccessToken requests .kpi c ∨
      Entitled upper decodeAccessToken requests .regulator c) ∧
    ∀ (i : ℕ) (r : StreamRequest α) (frame : CloseFrame), requests[i]? = some r →
      s.2[i]? = some (.done (.refused frame)) →
      ∀ ch, ¬Streams.Allowed upper decodeAccessToken r ch := by
  obtain ⟨⟨hnodup, ha⟩, hslots⟩ := (streams_slots requests).reach h
  have hlen := (streams_length requests).reach h
  -- the slot of a machine that awaits
  have awaiting : ∀ q, .await q ∈ s.2 →
      ∃ i, Slot upper decodeAccessToken requests i s.1 (.await q) :=
    fun q hq => (List.mem_iff_getElem?.mp hq).imp fun i hi => hslots i _ hi
  have calls : ∀ p, .await (.call p) ∈ s.2 → Pushing upper decodeAccessToken requests s.1 p := by
    intro p hp
    obtain ⟨i, hsome, hnone⟩ := awaiting _ hp
    cases hi : requests[i]? with
    | some r =>
      cases hsome r hi with
      | outside ht _ => cases ht
    | none =>
      obtain ⟨p', e, hpush⟩ := hnone hi _ rfl
      cases e
      exact hpush
  refine ⟨fun ch c hc => ?_, fun r p ch hm hch => ?_, fun ch it c stale hm => (calls _ hm).1,
    fun rest c stale hm => (calls _ hm).1 c List.mem_cons_self,
    fun i r frame hr hm ch hallowed => ?_⟩
  · obtain ⟨r, hr, rfl, hallowed⟩ := ha ch c hc
    refine ⟨r, hr, rfl, hallowed, ?_⟩
    obtain ⟨i, hi⟩ := List.mem_iff_getElem?.mp hr
    have hlt : i < s.2.length := Nat.lt_of_lt_of_le (List.getElem?_eq_some_iff.mp hi).1 hlen
    obtain ⟨t, ht⟩ : ∃ t, s.2[i]? = some t := ⟨_, List.getElem?_eq_getElem hlt⟩
    cases (hslots i t ht).1 r hi with
    | outside _ hout => exact absurd hc (hout ch)
    | inside hp hcon =>
      obtain rfl := hcon.only ch hc
      exact ⟨_, List.mem_of_getElem? ht, hp⟩
  · obtain ⟨i, hsome, hnone⟩ := awaiting _ hm
    cases hi : requests[i]? with
    | none =>
      obtain ⟨p', e, -⟩ := hnone hi _ rfl
      cases e
    | some r' =>
      cases hsome r' hi with
      | outside ht _ => cases ht <;> cases hch
      | inside hp hcon =>
        obtain rfl := Option.some.inj (hp.symm.trans hch)
        refine ⟨hcon.inSet, fun hreg => ?_⟩
        obtain ⟨a, hadm, hach, hevents⟩ := hcon.admitted
        obtain ⟨token, payload, ht, hpay, haudit⟩ := Streams.admission_audit hadm (hach.trans hreg)
        exact ⟨token, payload, ht, hpay, hevents _ haudit⟩
  · cases (hslots i _ hm).1 r hr with
    | outside ht _ =>
      cases ht with
      | refused hadm =>
        obtain ⟨a, hok, -⟩ := Streams.admission_channel_iff.mpr hallowed
        rw [hadm] at hok
        cases hok

end

/-! ## An alert to a regulator and an administrator -/

namespace Sample

instance (w : StreamWorld ℕ) (ans : HubAnswer ℕ × List ℕ) (p : StreamPhase ℕ) :
    Decidable (∀ q, p = .call q → Ordered w.hub ans q) :=
  match p with
  | .handler .. => .isTrue fun _ e => by cases e
  | .call q => decidable_of_iff (Ordered w.hub ans q)
      ⟨fun h _ e => StreamPhase.call.inj e ▸ h, fun h => h q rfl⟩

/-- A token is its role. -/
def decodeRole (_ : ℕ) (token : String) : Option StreamClaims :=
  if token = "regulator" ∨ token = "admin" then some ⟨⟨7, token⟩, none⟩ else none

/-- The third one has no token. -/
def threeStreams : List (StreamRequest ℕ) :=
  [{ websocket := 0, route := .regulator, token := some "regulator" },
   { websocket := 1, route := .kpi, token := some "admin" }, { websocket := 2, route := .market }]

def threeStreamsStart : StreamWorld ℕ × List (Next (StreamPhase ℕ) StreamEnd) :=
  ({ hub := ⟨.empty, .empty, .empty, .empty, fun _ => none⟩ },
    threeStreams.map (fun r => .await (.handler r .start)) ++ [.await (.call .broadcastAlert)])

/-- All of them up to their loops or their ends, then the alert, whose first send fails. -/
def threeStreamsSteps : List (ℕ × HubAnswer ℕ × List ℕ) :=
  [(0, {}, []), (1, {}, []), (2, {}, []), (0, {}, []), (1, {}, []), (2, {}, []), (0, {}, []),
   (3, {}, [0, 1]), (1, {}, []), (3, { fails := true }, [])]

end Sample

open Sample in
/-- The alert has not reached the regulator, who is still in the set, and goes on to the other. -/
theorem streams_authorized_alert :
    ∃ s, (streams id decodeRole threeStreams).Reach s ∧ s.1.hub.members .regulator = [0] ∧
      s.1.hub.members .kpi = [1] ∧ s.1.unreachable = [0] ∧
      ∀ ch, ∀ c ∈ s.1.hub.members ch, ∃ r ∈ threeStreams, r.websocket = c ∧
        Streams.Allowed id decodeRole r ch ∧
        ∃ p, .await (.handler r p) ∈ s.2 ∧ p.channel = some ch := by
  have hrun : (threeStreamsSteps.foldlM (exec (streamStep id decodeRole)
        fun w ans p => ∀ q, p = .call q → Ordered w.hub ans q) threeStreamsStart).map (fun s =>
        (s.1.hub.members .regulator, s.1.hub.members .kpi, s.1.unreachable)) =
      some ([0], [1], [0]) := by
    decide +kernel
  obtain ⟨s, hs, h⟩ := Option.map_eq_some_iff.mp hrun
  simp only [Prod.mk.injEq] at h
  obtain ⟨hreg, hkpi, hun⟩ := h
  have hreach : (streams id decodeRole threeStreams).Reach s := by
    refine .foldlM (fun _ _ _ _ h => exec_step h)
      (.init ⟨by decide, rfl, [.broadcastAlert], fun p hp => ?_, rfl⟩) hs
    obtain rfl := List.mem_singleton.mp hp
    trivial
  exact ⟨s, hreach, hreg, hkpi, hun, (streams_authorized hreach).1⟩

end CryptoExchange
