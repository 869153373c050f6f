import Mathlib.Data.List.Induction
import CryptoExchange.Realtime.Hub

/-!
# Kline channels

Kline clients are kept by a key, `f"{symbol.upper()}:{interval}"`. Calls come one after another here:
each runs to its end before the next begins.

* `klineChannel_inj`: an interval has no colon, so the last colon of a key is the one between its
  parts.
* `broadcast_alone`: a broadcast that nothing interrupts sends to its set, each client once.
* `KlineEvent`, `Subscribed`: who is on a channel, read off what has happened.
* `klines_separate`: the sets are the subscribed clients, and a broadcast touches one channel.
-/

namespace CryptoExchange

open Lib

/-! ## Keys -/

/-- `VALID_INTERVALS`. -/
def validIntervals : List String := ["1m", "5m", "15m", "1h"]

/-- A text with a separator that the part behind it does not have. -/
theorem append_last_inj {β : Type} {d : β} {a b x y : List β} (hx : d ∉ x) (hy : d ∉ y)
    (h : a ++ d :: x = b ++ d :: y) : a = b ∧ x = y := by
  rcases List.append_eq_append_iff.mp h with ⟨c, rfl, hc⟩ | ⟨c, rfl, hc⟩
  · cases c with
    | nil => exact ⟨(List.append_nil a).symm, (List.cons.inj hc).2⟩
    | cons e c =>
      obtain ⟨rfl, rfl⟩ := List.cons.inj hc
      exact absurd (List.mem_append_right c List.mem_cons_self) hx
  · cases c with
    | nil => exact ⟨List.append_nil b, (List.cons.inj hc).2.symm⟩
    | cons e c =>
      obtain ⟨rfl, rfl⟩ := List.cons.inj hc
      exact absurd (List.mem_append_right c List.mem_cons_self) hy

theorem validIntervals_colon {interval : String} (h : interval ∈ validIntervals) :
    ':' ∉ interval.toList := by
  revert interval
  decide

theorem klineChannel_inj (upper : String → String) {symbol symbol' interval interval' : String}
    (h : interval ∈ validIntervals) (h' : interval' ∈ validIntervals) :
    klineChannel upper symbol interval = klineChannel upper symbol' interval' ↔
      upper symbol = upper symbol' ∧ interval = interval' := by
  constructor
  · intro e
    have hkey := congrArg String.toList (Channel.kline.inj e)
    rw [String.toList_append, String.toList_append, String.toList_append, String.toList_append,
      List.append_assoc, List.append_assoc] at hkey
    obtain ⟨hs, hi⟩ := append_last_inj (validIntervals_colon h) (validIntervals_colon h') hkey
    exact ⟨String.toList_injective hs, String.toList_injective hi⟩
  · rintro ⟨hs, rfl⟩
    rw [klineChannel, klineChannel, hs]

/-! ## A broadcast alone -/

variable {α : Type} [DecidableEq α]

/-- The sends of a call that runs alone, and whether they failed. -/
def sends (as : List (HubAnswer α)) (h : Hub α) (p : HubPhase α) : List (α × Bool) :=
  (steps hubStep as h p).filterMap fun x =>
    match x.2.2 with
    | .send _ _ client _ => some (client, x.2.1.fails)
    | _ => none

/-- The send that a step of a broadcast ends with. -/
def ownSend (ans : HubAnswer α) : HubPhase α → List (α × Bool)
  | .send _ _ client _ => [(client, ans.fails)]
  | _ => []

theorem sends_done {h h' : Hub α} {ans : HubAnswer α} {as : List (HubAnswer α)} {p : HubPhase α}
    {r : Except HubError Unit} (hstep : hubStep h ans p = (h', .done r)) :
    sends (ans :: as) h p = ownSend ans p := by
  rw [sends, steps_done hstep]
  cases p <;> rfl

theorem sends_await {h h' : Hub α} {ans : HubAnswer α} {as : List (HubAnswer α)}
    {p q : HubPhase α} (hstep : hubStep h ans p = (h', .await q)) :
    sends (ans :: as) h p = ownSend ans p ++ sends as h' q := by
  rw [sends, steps_await hstep]
  cases p <;> rfl

/-- The clients whose send failed. -/
def failedSends (sent : List (α × Bool)) : List α := (sent.filter Prod.snd).map Prod.fst

omit [DecidableEq α] in
theorem mem_failedSends {sent : List (α × Bool)} {c : α} :
    c ∈ failedSends sent ↔ (c, true) ∈ sent := by
  simp [failedSends]

/-- What a broadcast has done when it ends: it sent to the set, each client once, and removed those
whose send failed. -/
structure BroadcastDone (h h' : Hub α) (ch : Channel) (r : Except HubError Unit)
    (sent : List (α × Bool)) : Prop where
  returns : r = .ok ()
  once : ∀ c ∈ h.members ch, (sent.map Prod.fst).count c = 1
  others : ∀ c ∉ h.members ch, (sent.map Prod.fst).count c = 0
  removed : h' = h.discardAll ch (failedSends sent)

/-- **One round of the loop.** It ends after every member, or goes on to a member that was not
sent to. -/
theorem loop_cases {h h' : Hub α} {ch : Channel} {t : PySet α} {it : PySet.Iter}
    {ans : HubAnswer α} {as : List (HubAnswer α)} {p : HubPhase α} {stale yielded : List α}
    {r : Except HubError Unit} (hstep : hubStep h ans p = broadcastLoop h ch t it stale)
    (hused : t.size = it.used) (hiter : t.Iterated t.members yielded it.pos)
    (hrun : run hubStep (ans :: as) h p = some (h', r)) :
    (r = .ok () ∧ (∀ c ∈ t.members, yielded.count c = 1) ∧ h' = h.discardAll ch stale ∧
        sends (ans :: as) h p = ownSend ans p) ∨
      ∃ client it', client ∈ t ∧ t.size = it'.used ∧
        t.Iterated t.members (yielded ++ [client]) it'.pos ∧
        run hubStep as h (.send ch it' client stale) = some (h', r) ∧
        sends (ans :: as) h p = ownSend ans p ++ sends as h (.send ch it' client stale) := by
  cases hn : t.next it with
  | raised => exact absurd hused (PySet.next_raised_iff.mp hn)
  | stopped =>
    rw [broadcastLoop, hn] at hstep
    rw [run_done hstep] at hrun
    cases hrun
    exact .inl ⟨rfl, fun c hc => hiter.stopped hn hc, rfl, sends_done hstep⟩
  | item client it' =>
    rw [broadcastLoop, hn] at hstep
    rw [run_await hstep] at hrun
    obtain ⟨k, -, hit, hslot, -⟩ := PySet.next_item hn
    have hclient : client ∈ t := PySet.mem_iff.mpr (List.mem_of_getElem? hslot)
    have hused' : t.size = it'.used := by rw [hit]; exact hused
    exact .inr ⟨client, it', hclient, hused', hiter.item hn, hrun, sends_await hstep⟩

/-- From a send on: `yielded` are those that were sent to before. -/
theorem sends_loop {h h' : Hub α} {ch : Channel} {t : PySet α} (ht : h.clients ch = some t)
    {as : List (HubAnswer α)} {it : PySet.Iter} {client : α} {stale yielded : List α}
    {r : Except HubError Unit} (hused : t.size = it.used) (hclient : client ∈ t)
    (hiter : t.Iterated t.members (yielded ++ [client]) it.pos)
    (hrun : run hubStep as h (.send ch it client stale) = some (h', r)) :
    r = .ok () ∧
    (∀ c ∈ t.members,
      (yielded ++ (sends as h (.send ch it client stale)).map Prod.fst).count c = 1) ∧
    (∀ x ∈ sends as h (.send ch it client stale), x.1 ∈ t) ∧
    h' = h.discardAll ch (stale ++ failedSends (sends as h (.send ch it client stale))) := by
  induction as generalizing it client stale yielded with
  | nil => cases hrun
  | cons ans as ih =>
    have hstale : appendStale stale client ans.fails =
        stale ++ failedSends [(client, ans.fails)] := by
      unfold appendStale failedSends
      cases ans.fails <;> simp
    have hstep : hubStep h ans (.send ch it client stale) =
        broadcastLoop h ch t it (stale ++ failedSends [(client, ans.fails)]) := by
      rw [← hstale]
      simp only [hubStep, ht]
    rcases loop_cases hstep hused hiter hrun with ⟨rfl, honce, hh, hsends⟩ |
      ⟨client', it', hclient', hused', hiter', hrun', hsends⟩
    · rw [hsends]
      refine ⟨rfl, honce, fun x hx => ?_, hh⟩
      rw [List.mem_singleton.mp hx]
      exact hclient
    · obtain ⟨hr, honce, hin, hh⟩ := ih hused' hclient' hiter' hrun'
      rw [hsends]
      refine ⟨hr, fun c hc => ?_, fun x hx => ?_, ?_⟩
      · rw [List.map_append, ← List.append_assoc]
        exact honce c hc
      · rcases List.mem_append.mp hx with hx | hx
        · rw [List.mem_singleton.mp hx]
          exact hclient
        · exact hin x hx
      · rw [hh, List.append_assoc]
        congr 2
        unfold failedSends
        rw [← List.map_append, ← List.filter_append]
        rfl

theorem broadcast_alone {h h' : Hub α} {ch : Channel} {as : List (HubAnswer α)}
    {r : Except HubError Unit} (hrun : run hubStep as h (.broadcast ch) = some (h', r)) :
    BroadcastDone h h' ch r (sends as h (.broadcast ch)) := by
  cases as with
  | nil => cases hrun
  | cons ans as =>
    cases ht : h.clients ch with
    | none =>
      have hstep : hubStep h ans (.broadcast ch) = (h, .done (.ok ())) := by simp only [hubStep, ht]
      rw [run_done hstep] at hrun
      cases hrun
      have hempty : h.members ch = [] := by rw [Hub.members, ht]; rfl
      rw [sends_done hstep]
      refine ⟨rfl, fun c hc => ?_, fun _ _ => rfl, ?_⟩
      · rw [hempty] at hc
        cases hc
      · rw [Hub.discardAll, ht]
    | some t =>
      have hmembers : h.members ch = t.members := by rw [Hub.members, ht]; rfl
      have hstep : hubStep h ans (.broadcast ch) = broadcastLoop h ch t t.iter [] := by
        simp only [hubStep, ht]
      rcases loop_cases hstep rfl t.iterated_start hrun with ⟨rfl, honce, hh, hsends⟩ |
        ⟨client, it, hclient, hused, hiter, hrun', hsends⟩
      · rw [hsends]
        exact ⟨rfl, fun c hc => honce c (hmembers ▸ hc), fun _ _ => rfl, hh⟩
      · obtain ⟨hr, honce, hin, hh⟩ := sends_loop ht hused hclient hiter hrun'
        rw [hsends]
        refine ⟨hr, fun c hc => honce c (hmembers ▸ hc), fun c hc => ?_, hh⟩
        refine List.count_eq_zero_of_not_mem fun hm => hc ?_
        obtain ⟨x, hx, rfl⟩ := List.mem_map.mp hm
        rw [hmembers]
        exact hin x hx

/-! ## Sequences of calls -/

/-- A call of one of the three kline methods. -/
inductive KlineCall (α : Type) where
  | connect (client : α) (symbol interval : String)
  | disconnect (client : α) (symbol interval : String)
  | broadcast (symbol interval : String)

/-- The upper-case symbol and the interval. -/
abbrev KlineKey := String × String

/-- What a call did to a channel. -/
inductive KlineEvent (α : Type) where
  | connected (key : KlineKey) (client : α)
  | disconnected (key : KlineKey) (client : α)
  | failed (key : KlineKey) (client : α)

namespace KlineCall

variable (upper : String → String)

omit [DecidableEq α]

def interval : KlineCall α → String
  | connect _ _ interval | disconnect _ _ interval | broadcast _ interval => interval

def phase : KlineCall α → HubPhase α
  | connect client symbol interval => connectKline upper client symbol interval
  | disconnect client symbol interval => disconnectKline upper client symbol interval
  | broadcast symbol interval => broadcastKline upper symbol interval

/-- What a call that ended with `r` did. -/
def events (r : Except HubError Unit) (sent : List (α × Bool)) : KlineCall α → List (KlineEvent α)
  | connect client symbol interval =>
    match r with
    | .ok () => [.connected (upper symbol, interval) client]
    | .error _ => []
  | disconnect client symbol interval => [.disconnected (upper symbol, interval) client]
  | broadcast symbol interval => (failedSends sent).map (.failed (upper symbol, interval))

end KlineCall

/-- Calls for valid intervals, one after another, and what they did. -/
def klineHub (α : Type) [DecidableEq α] (upper : String → String) : Sys where
  St := Hub α × List (KlineEvent α)
  Act := KlineCall α × List (HubAnswer α)
  init s := (∀ channel, s.1.klineClients channel = none) ∧ s.2 = []
  step s act s' := act.1.interval ∈ validIntervals ∧ ∃ r,
    run hubStep act.2 s.1 (act.1.phase upper) = some (s'.1, r) ∧
    s'.2 = s.2 ++ act.1.events upper r (sends act.2 s.1 (act.1.phase upper))

/-- The client has connected to the channel; since then it has neither left it nor has a send to it
there failed. -/
def Subscribed (log : List (KlineEvent α)) (key : KlineKey) (client : α) : Prop :=
  ∃ before after, log = before ++ .connected key client :: after ∧
    .disconnected key client ∉ after ∧ .failed key client ∉ after

omit [DecidableEq α] in
theorem subscribed_append {log : List (KlineEvent α)} {e : KlineEvent α} {key : KlineKey} {c : α} :
    Subscribed (log ++ [e]) key c ↔ e = .connected key c ∨
      Subscribed log key c ∧ e ≠ .disconnected key c ∧ e ≠ .failed key c := by
  constructor
  · rintro ⟨before, after, hlog, hd, hf⟩
    cases after using List.reverseRecOn with
    | nil =>
      obtain ⟨-, he⟩ := List.append_inj' hlog rfl
      exact .inl (List.cons.inj he).1
    | append_singleton after e' =>
      rw [← List.cons_append, ← List.append_assoc] at hlog
      obtain ⟨rfl, he⟩ := List.append_inj' hlog rfl
      obtain rfl := (List.cons.inj he).1
      simp only [List.mem_append, List.mem_singleton, not_or] at hd hf
      exact .inr ⟨⟨before, after, rfl, hd.1, hf.1⟩, Ne.symm hd.2, Ne.symm hf.2⟩
  · rintro (rfl | ⟨⟨before, after, rfl, hd, hf⟩, hd', hf'⟩)
    · exact ⟨log, [], rfl, by simp, by simp⟩
    · refine ⟨before, after ++ [e], by simp, ?_, ?_⟩
      · simpa [hd] using Ne.symm hd'
      · simpa [hf] using Ne.symm hf'

omit [DecidableEq α] in
theorem subscribed_failed {log : List (KlineEvent α)} {key key' : KlineKey} {stale : List α} {c : α} :
    Subscribed (log ++ stale.map (.failed key)) key' c ↔
      Subscribed log key' c ∧ ¬(key' = key ∧ c ∈ stale) := by
  induction stale using List.reverseRecOn with
  | nil => simp
  | append_singleton stale x ih =>
    rw [List.map_append, ← List.append_assoc, List.map_singleton, subscribed_append, ih]
    simp only [reduceCtorEq, false_or, ne_eq, KlineEvent.failed.injEq, not_false_eq_true, true_and,
      List.mem_append, List.mem_singleton]
    constructor
    · rintro ⟨⟨hs, hn⟩, hx⟩
      refine ⟨hs, ?_⟩
      rintro ⟨rfl, hc | rfl⟩
      · exact hn ⟨rfl, hc⟩
      · exact hx ⟨rfl, rfl⟩
    · rintro ⟨hs, hn⟩
      refine ⟨⟨hs, fun h => hn ⟨h.1, .inl h.2⟩⟩, ?_⟩
      rintro ⟨rfl, rfl⟩
      exact hn ⟨rfl, .inr rfl⟩

/-! ## The sets are the subscribed clients -/

section

variable {upper : String → String} {h h' : Hub α} {as : List (HubAnswer α)}
  {r : Except HubError Unit}

/-- The handshake fails, and nothing happens, or the client is in the set. -/
theorem connect_alone {ch : Channel} {client : α}
    (hrun : run hubStep as h (.accept ch client) = some (h', r)) :
    (∃ e, r = .error e ∧ h' = h) ∨ r = .ok () ∧ ∃ p, h' = h.connect ch client p := by
  cases as with
  | nil => cases hrun
  | cons ans as =>
    cases hf : ans.fails with
    | true =>
      rw [run_done (show hubStep h ans (.accept ch client) = (h, .done (.error .accept)) by
        simp [hubStep, hf])] at hrun
      cases hrun
      exact .inl ⟨_, rfl, rfl⟩
    | false =>
      rw [run_done (show hubStep h ans (.accept ch client) =
        (h.connect ch client ans.placement, .done (.ok ())) by simp [hubStep, hf])] at hrun
      cases hrun
      exact .inr ⟨rfl, _, rfl⟩

theorem disconnect_alone {ch : Channel} {client : α}
    (hrun : run hubStep as h (.disconnect ch client) = some (h', r)) :
    h' = h.discardAll ch [client] := by
  cases as with
  | nil => cases hrun
  | cons ans as => cases hrun; rfl

/-- Before and after a call the set of each valid channel is its subscribed clients. -/
theorem subscribed_step {log : List (KlineEvent α)} {call : KlineCall α}
    (hcall : call.interval ∈ validIntervals)
    (hrun : run hubStep as h (call.phase upper) = some (h', r))
    {symbol interval : String} (hi : interval ∈ validIntervals) {c : α}
    (hm : c ∈ h.members (klineChannel upper symbol interval) ↔
      Subscribed log (upper symbol, interval) c) :
    c ∈ h'.members (klineChannel upper symbol interval) ↔
      Subscribed (log ++ call.events upper r (sends as h (call.phase upper)))
        (upper symbol, interval) c := by
  cases call with
  | connect client symbol' interval' =>
    have hi' : interval' ∈ validIntervals := hcall
    rcases connect_alone hrun with ⟨e, rfl, rfl⟩ | ⟨rfl, p, rfl⟩
    · simpa only [KlineCall.events, List.append_nil] using hm
    · rw [Hub.mem_members_connect, klineChannel_inj upper hi hi', hm, KlineCall.events,
        subscribed_append]
      simp [eq_comm]
  | disconnect client symbol' interval' =>
    have hi' : interval' ∈ validIntervals := hcall
    rw [disconnect_alone hrun, Hub.mem_members_discardAll, klineChannel_inj upper hi hi', hm,
      KlineCall.events, subscribed_append]
    simp [eq_comm]
  | broadcast symbol' interval' =>
    have hi' : interval' ∈ validIntervals := hcall
    rw [(broadcast_alone hrun).removed, Hub.mem_members_discardAll, klineChannel_inj upper hi hi',
      hm, KlineCall.events, subscribed_failed, Prod.mk.injEq]
    rfl

theorem subscribed_members (α : Type) [DecidableEq α] (upper : String → String) :
    (klineHub α upper).Inductive fun s => ∀ symbol interval, interval ∈ validIntervals → ∀ c,
      c ∈ s.1.members (klineChannel upper symbol interval) ↔
        Subscribed s.2 (upper symbol, interval) c where
  init s h symbol interval _ c := by
    obtain ⟨hnone, hlog⟩ := h
    have hempty : s.1.members (klineChannel upper symbol interval) = [] := by
      rw [Hub.members, klineChannel, Hub.clients, hnone]
      rfl
    rw [hempty, hlog]
    constructor
    · intro hc
      cases hc
    · rintro ⟨before, after, hno, -⟩
      simp at hno
  step s act s' hI hst symbol interval hi c := by
    obtain ⟨hcall, r, hrun, hlog⟩ := hst
    rw [hlog]
    exact subscribed_step hcall hrun hi (hI symbol interval hi c)

/-- **Kline updates never cross channels.** In every sequence of calls a broadcast for a symbol and an
interval sends to the subscribed clients, each once, and to nobody else. It removes those whose send
failed from its own channel and leaves every other set of the hub. Two pairs of upper-case symbol and
interval have two channels. -/
theorem klines_separate (α : Type) [DecidableEq α] (upper : String → String) :
    (∀ s, (klineHub α upper).Reach s → ∀ symbol interval as s',
      (klineHub α upper).step s (.broadcast symbol interval, as) s' →
      let sent := sends as s.1 (broadcastKline upper symbol interval)
      (∀ c, Subscribed s.2 (upper symbol, interval) c → (sent.map Prod.fst).count c = 1) ∧
      (∀ c, ¬Subscribed s.2 (upper symbol, interval) c → (sent.map Prod.fst).count c = 0) ∧
      ∀ ch c, c ∈ s'.1.members ch ↔ c ∈ s.1.members ch ∧
        ¬(ch = klineChannel upper symbol interval ∧ (c, true) ∈ sent)) ∧
    (∀ s, (klineHub α upper).Reach s → ∀ symbol interval, interval ∈ validIntervals → ∀ c,
      c ∈ s.1.members (klineChannel upper symbol interval) ↔
        Subscribed s.2 (upper symbol, interval) c) ∧
    ∀ symbol symbol' interval interval', interval ∈ validIntervals → interval' ∈ validIntervals →
      (klineChannel upper symbol interval = klineChannel upper symbol' interval' ↔
        upper symbol = upper symbol' ∧ interval = interval') := by
  refine ⟨fun s hs symbol interval as s' hst => ?_, fun s hs => (subscribed_members α upper).reach hs,
    fun symbol symbol' interval interval' h h' => klineChannel_inj upper h h'⟩
  intro sent
  obtain ⟨hi, r, hrun, -⟩ := hst
  have hsub := (subscribed_members α upper).reach hs symbol interval hi
  have hdone := broadcast_alone hrun
  refine ⟨fun c hc => hdone.once c ((hsub c).mpr hc),
    fun c hc => hdone.others c fun hm => hc ((hsub c).mp hm), fun ch c => ?_⟩
  rw [hdone.removed, Hub.mem_members_discardAll, mem_failedSends]
  rfl

end

/-! ## A client on two channels -/

namespace Sample

/-- `str.upper` on the two symbols here. -/
def btcUpper (symbol : String) : String := if symbol = "btcusdt" then "BTCUSDT" else symbol

/-- A kline call, computed. -/
def klineExec (s : Hub ℕ × List (KlineEvent ℕ)) (act : KlineCall ℕ × List (HubAnswer ℕ)) :
    Option (Hub ℕ × List (KlineEvent ℕ)) :=
  if act.1.interval ∈ validIntervals then
    (run hubStep act.2 s.1 (act.1.phase btcUpper)).map fun x =>
      (x.1, s.2 ++ act.1.events btcUpper x.2
        (sends act.2 s.1 (act.1.phase btcUpper)))
  else none

theorem klineExec_step {s s' : Hub ℕ × List (KlineEvent ℕ)}
    {act : KlineCall ℕ × List (HubAnswer ℕ)} (h : klineExec s act = some s') :
    (klineHub ℕ btcUpper).step s act s' := by
  obtain ⟨hi, h⟩ := Option.ite_none_right_eq_some.mp h
  obtain ⟨x, hx, rfl⟩ := Option.map_eq_some_iff.mp h
  exact ⟨hi, x.2, hx, rfl⟩

def noClients : Hub ℕ × List (KlineEvent ℕ) := (⟨.empty, .empty, .empty, .empty, fun _ => none⟩, [])

/-- 1 is on one channel and 2 on two. -/
def joining : List (KlineCall ℕ × List (HubAnswer ℕ)) :=
  [(.connect 1 "btcusdt" "1m", [{}]), (.connect 2 "BTCUSDT" "1m", [{}]),
    (.connect 2 "BTCUSDT" "5m", [{}])]

/-- The second of two sends fails. -/
def staleSend : KlineCall ℕ × List (HubAnswer ℕ) :=
  (.broadcast "btcusdt" "1m", [{}, {}, { fails := true }])

end Sample

open Sample in
/-- The send to 2 fails on the channel of the minute, and it stays on the other. -/
theorem klines_separate_two :
    ∃ s s', (klineHub ℕ btcUpper).Reach s ∧
      (klineHub ℕ btcUpper).step s staleSend s' ∧
      s'.1.members (klineChannel btcUpper "BTCUSDT" "1m") = [1] ∧
      (2 ∈ s'.1.members (klineChannel btcUpper "BTCUSDT" "5m") ↔
        2 ∈ s.1.members (klineChannel btcUpper "BTCUSDT" "5m")) := by
  have hrun : (joining.foldlM klineExec noClients).bind (fun s =>
        (klineExec s staleSend).map fun s' =>
          s'.1.members (klineChannel btcUpper "BTCUSDT" "1m")) = some [1] := by
    decide +kernel
  obtain ⟨s, hs, h⟩ := Option.bind_eq_some_iff.mp hrun
  obtain ⟨s', hs', hmembers⟩ := Option.map_eq_some_iff.mp h
  have hreach : (klineHub ℕ btcUpper).Reach s :=
    .foldlM (f := klineExec) (fun _ _ _ _ h => klineExec_step h) (.init ⟨fun _ => rfl, rfl⟩) hs
  obtain ⟨hbroadcast, -, hkeys⟩ := klines_separate ℕ btcUpper
  refine ⟨s, s', hreach, klineExec_step hs', hmembers, ?_⟩
  rw [(hbroadcast s hreach _ _ _ s' (klineExec_step hs')).2.2]
  refine and_iff_left fun h => ?_
  have := ((hkeys _ _ _ _ (by decide) (by decide)).mp h.1).2
  revert this
  decide

end CryptoExchange
