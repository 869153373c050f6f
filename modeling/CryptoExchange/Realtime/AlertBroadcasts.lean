import CryptoExchange.Realtime.Broadcasts

/-!
# Broadcasts of alerts

`broadcast_alert` iterates over the union of two sets, a set of its own, and edits both only when it
has sent to all of them. In which order a union is iterated is left open (`hubStepIn`).

* `AlertWatch`, `watchAlert`: who was in either set when the call started, and whom it sent to.
* `AlertWatching`: what holds between two sends; `alert_step`: what a step of the call does.
* `alert_reaches_each`: each client of either set is sent to once and nobody else is. When the call
  ends the other calls have done what they do without it, and it removes those whose send failed.
-/

namespace CryptoExchange

open Lib

variable {α : Type} [DecidableEq α]

/-! ## The order of a union -/

/-- `targets` of `broadcast_alert`. -/
def alertTargets (h : Hub α) : List α :=
  h.members .kpi ++ (h.members .regulator).filter fun client => client ∉ h.members .kpi

/-- `hubStep`, with the order in which `targets` is iterated when a `broadcast_alert` starts. -/
def hubStepIn (h : Hub α) (ans : HubAnswer α × List α) : HubPhase α → Hub α × AfterCall α
  | .broadcastAlert => alertLoop h ans.2 []
  | p => hubStep h ans.1 p

def Ordered (h : Hub α) (ans : HubAnswer α × List α) (p : HubPhase α) : Prop :=
  p = .broadcastAlert → ans.2.Perm (alertTargets h)

theorem mem_alertTargets {h : Hub α} {c : α} :
    c ∈ alertTargets h ↔ c ∈ h.members .kpi ∨ c ∈ h.members .regulator := by
  rw [alertTargets, List.mem_append, List.mem_filter, decide_eq_true_eq]
  by_cases hc : c ∈ h.members .kpi <;> simp [hc]

omit [DecidableEq α] in
theorem Hub.nodup_members (h : Hub α) (ch : Channel) : (h.members ch).Nodup := by
  unfold Hub.members
  cases h.clients ch with
  | none => exact List.nodup_nil
  | some s => exact s.nodup

theorem nodup_alertTargets (h : Hub α) : (alertTargets h).Nodup := by
  refine List.Nodup.append (h.nodup_members .kpi) ((h.nodup_members .regulator).filter _) ?_
  intro c hk hr
  exact of_decide_eq_true (List.mem_filter.mp hr).2 hk

/-- Any number of calls, interleaved, with unions in any order. -/
def realtimeIn (α : Type) [DecidableEq α] : Sys :=
  (interleave hubStepIn fun (_ : Hub α) ts =>
    ∀ t ∈ ts, ∃ p : HubPhase α, t = .await p ∧ p.Starting).restrict (StepMeets Ordered)

/-! ## The call, watched -/

/-- What is known of a `broadcast_alert` since it began. -/
structure AlertWatch (α : Type) where
  kpi : List α := []
  regulator : List α := []
  /-- Who was sent to, in this order, and whether it failed. -/
  sent : List (α × Bool) := []

def AlertWatch.clients (g : AlertWatch α) : List α := g.sent.map Prod.fst

def AlertWatch.failed (g : AlertWatch α) : List α := (g.sent.filter Prod.snd).map Prod.fst

/-- What the call adds in a step of its own. -/
def AlertWatch.note (h : Hub α) (ans : HubAnswer α × List α) (g : AlertWatch α) :
    HubPhase α → AlertWatch α
  | .broadcastAlert => { kpi := h.members .kpi, regulator := h.members .regulator }
  | .sendAlert _ client _ => { g with sent := g.sent ++ [(client, ans.1.fails)] }
  | _ => g

/-- Watching the call `i`. -/
def watchAlert (i : ℕ) (s : HubState α) (act : ℕ × HubAnswer α × List α) (_ : HubState α)
    (g : AlertWatch α) : AlertWatch α :=
  match s.2[i]? with
  | some (.await p) => if act.1 = i then g.note s.1 act.2 p else g
  | _ => g

def watchedAlert (α : Type) [DecidableEq α] (i : ℕ) : Sys :=
  (realtimeIn α).withHistory ({} : AlertWatch α) (watchAlert i)

/-- A `broadcast_alert`, before its start or at a send. -/
def HubPhase.IsAlert : HubPhase α → Prop
  | .broadcastAlert | .sendAlert .. => True
  | _ => False

/-- Those sent to and those still to come are the clients of either set, each once. -/
def AlertWatch.Covers (g : AlertWatch α) (rest : List α) : Prop :=
  ∀ c, (g.clients ++ rest).count c = if c ∈ g.kpi ∨ c ∈ g.regulator then 1 else 0

/-- A `broadcast_alert` that awaits a send. -/
def AlertWatching (g : AlertWatch α) : HubPhase α → Prop
  | .sendAlert rest client stale => stale = g.failed ∧ g.Covers (client :: rest)
  | _ => True

omit [DecidableEq α] in
theorem AlertWatch.mem_failed {g : AlertWatch α} {c : α} : c ∈ g.failed ↔ (c, true) ∈ g.sent := by
  simp [AlertWatch.failed]

theorem covers_start {h : Hub α} {targets : List α} (ht : targets.Perm (alertTargets h)) :
    AlertWatch.Covers { kpi := h.members .kpi, regulator := h.members .regulator } targets := by
  intro c
  show targets.count c = if c ∈ h.members .kpi ∨ c ∈ h.members .regulator then 1 else 0
  rw [ht.count_eq]
  by_cases hc : c ∈ alertTargets h
  · rw [if_pos (mem_alertTargets.mp hc)]
    exact List.count_eq_one_of_mem (nodup_alertTargets h) hc
  · rw [if_neg fun hm => hc (mem_alertTargets.mpr hm)]
    exact List.count_eq_zero_of_not_mem hc

/-- There are no more sends than clients in both sets. -/
theorem AlertWatch.Covers.length_le {g : AlertWatch α} {rest : List α} (h : g.Covers rest) :
    g.sent.length + rest.length ≤ g.kpi.length + g.regulator.length := by
  have hn : (g.clients ++ rest).Nodup := by
    rw [List.nodup_iff_count_le_one]
    intro c
    rw [h c]
    split <;> omega
  have hsub : g.clients ++ rest ⊆ g.kpi ++ g.regulator := by
    intro c hc
    have hpos := List.count_pos_iff.mpr hc
    rw [h c] at hpos
    rw [List.mem_append]
    by_contra hm
    rw [if_neg hm] at hpos
    omega
  have := (hn.subperm hsub).length_le
  rwa [List.length_append, List.length_append, AlertWatch.clients, List.length_map] at this

/-! ## The loop -/

/-- The loop goes on to the next client, or has sent to all and removes the stale ones. -/
theorem alertLoop_watching {h h' : Hub α} {g : AlertWatch α} {rest : List α} {n : AfterCall α}
    (hc : g.Covers rest) (hs : alertLoop h rest g.failed = (h', n)) :
    (∃ rest' client, n = .await (.sendAlert rest' client g.failed) ∧ h' = h ∧
        g.Covers (client :: rest')) ∨
      n = .done (.ok ()) ∧ g.Covers [] ∧
        h' = (h.discardAll .kpi g.failed).discardAll .regulator g.failed := by
  cases rest with
  | nil =>
    cases hs
    exact .inr ⟨rfl, hc, rfl⟩
  | cons client rest =>
    cases hs
    exact .inl ⟨rest, client, rfl, rfl, hc⟩

/-- A step of the call itself. -/
theorem alert_own {h h' : Hub α} {g : AlertWatch α} {ans : HubAnswer α × List α} {p : HubPhase α}
    {n : AfterCall α} (hp : p.IsAlert) (hw : AlertWatching g p) (ho : Ordered h ans p)
    (hs : hubStepIn h ans p = (h', n)) :
    let g' := g.note h ans p
    (∃ rest client, n = .await (.sendAlert rest client g'.failed) ∧ h' = h ∧
        g'.Covers (client :: rest)) ∨
      n = .done (.ok ()) ∧ g'.Covers [] ∧
        h' = (h.discardAll .kpi g'.failed).discardAll .regulator g'.failed := by
  intro g'
  cases p with
  | accept | disconnect | broadcast | send => exact hp.elim
  | broadcastAlert => exact alertLoop_watching (covers_start (ho rfl)) hs
  | sendAlert rest client stale =>
    obtain ⟨rfl, hc⟩ := hw
    have hstale : appendStale g.failed client ans.1.fails = g'.failed := by
      unfold appendStale AlertWatch.failed
      cases hf : ans.1.fails <;> simp [g', AlertWatch.note, hf]
    have hclients : g'.clients ++ rest = g.clients ++ client :: rest := by
      simp [g', AlertWatch.note, AlertWatch.clients]
    have hc' : g'.Covers rest := by
      intro c
      rw [hclients]
      exact hc c
    refine alertLoop_watching hc' ?_
    rw [← hstale]
    exact hs

/-- Only a `broadcast_alert` comes to the sends of one. -/
theorem hubStepIn_isAlert {h h' : Hub α} {ans : HubAnswer α × List α} {p p' : HubPhase α}
    (hs : hubStepIn h ans p = (h', .await p')) (hp' : p'.IsAlert) : p.IsAlert := by
  cases p with
  | accept ch client =>
    simp only [hubStepIn, hubStep] at hs
    split at hs <;> cases hs
  | disconnect ch client => cases hs
  | broadcast ch =>
    have := hubStep_channel (p := .broadcast ch) (show hubStep h ans.1 _ = _ from hs)
    cases p' <;> first | exact hp'.elim | cases this
  | send ch it client stale =>
    have := hubStep_channel (p := .send ch it client stale) (show hubStep h ans.1 _ = _ from hs)
    cases p' <;> first | exact hp'.elim | cases this
  | broadcastAlert => trivial
  | sendAlert => trivial

/-- While it goes on, the call leaves the hub alone. -/
theorem hubStepIn_alert {h h' : Hub α} {ans : HubAnswer α × List α} {p p' : HubPhase α}
    (hp : p.IsAlert) (hs : hubStepIn h ans p = (h', .await p')) : h' = h ∧ p'.IsAlert := by
  have loop : ∀ {rest stale : List α}, alertLoop h rest stale = (h', .await p') →
      h' = h ∧ p'.IsAlert := by
    intro rest stale hs
    cases rest with
    | nil => cases hs
    | cons client rest =>
      cases hs
      exact ⟨rfl, trivial⟩
  cases p with
  | accept | disconnect | broadcast | send => exact hp.elim
  | broadcastAlert => exact loop hs
  | sendAlert rest client stale => exact loop hs

/-! ## Runs -/

section

variable {i : ℕ} {s s' : HubState α × AlertWatch α} {ans : HubAnswer α × List α} {p : HubPhase α}

/-- A step of the call `i`. -/
theorem watchedAlert_own (hp : s.1.2[i]? = some (.await p))
    (hst : (watchedAlert α i).step s (i, ans) s') :
    Ordered s.1.1 ans p ∧ s'.1.1 = (hubStepIn s.1.1 ans p).1 ∧
      s'.1.2[i]? = some (hubStepIn s.1.1 ans p).2 ∧ s'.2 = s.2.note s.1.1 ans p := by
  obtain ⟨⟨ho, hst⟩, hg⟩ := hst
  obtain ⟨hhub, hn⟩ := interleave_own hst hp
  refine ⟨ho p hp, hhub, hn, ?_⟩
  simpa [watchAlert, hp] using hg

theorem alert_watching (α : Type) [DecidableEq α] (i : ℕ) :
    (watchedAlert α i).Inductive fun s =>
      ∀ p, s.1.2[i]? = some (.await p) → AlertWatching s.2 p where
  init s h p hp := by
    obtain ⟨h, -⟩ := h
    obtain ⟨q, e, hq⟩ := h _ (List.mem_of_getElem? hp)
    cases e
    cases p with
    | sendAlert => exact hq.elim
    | _ => trivial
  step s act s' hI hst p' hp' := by
    obtain ⟨j, ans⟩ := act
    by_cases hj : j = i
    · subst hj
      obtain ⟨⟨-, p, hp, -⟩, -⟩ := id hst
      obtain ⟨ho, -, hn, hg⟩ := watchedAlert_own hp hst
      cases p' with
      | sendAlert rest client stale =>
        have hs : hubStepIn s.1.1 ans p = ((hubStepIn s.1.1 ans p).1, .await _) :=
          Prod.ext rfl (Option.some.inj (hn.symm.trans hp'))
        have halert := hubStepIn_isAlert hs trivial
        rw [hg]
        rcases alert_own halert (hI p hp) ho hs with ⟨rest', client', hn, -, hc⟩ | ⟨hn, -⟩
        · cases hn
          exact ⟨rfl, hc⟩
        · cases hn
      | _ => trivial
    · obtain ⟨⟨-, hst⟩, hg⟩ := hst
      have hp : s.1.2[i]? = some (.await p') := (interleave_other hst hj).symm.trans hp'
      have hsame : s'.2 = s.2 := by simpa [watchAlert, hp, hj] using hg
      rw [hsame]
      exact hI p' hp

/-- A call that is a `broadcast_alert` was one from the start. -/
theorem alert_from_start {s₀ s : HubState α} {as : List (ℕ × HubAnswer α × List α)}
    (h₀ : (realtimeIn α).init s₀) (hrun : (realtimeIn α).Run s₀ as s)
    (hp : s.2[i]? = some (.await p)) (halert : p.IsAlert) :
    ∃ p₀, s₀.2[i]? = some (.await p₀) ∧ p₀.IsAlert := by
  have hlen : s.2.length = s₀.2.length := interleave_length hrun
  have hlt : i < s₀.2.length := hlen ▸ (List.getElem?_eq_some_iff.mp hp).1
  obtain ⟨p₀, e, -⟩ := h₀ _ (List.getElem_mem hlt)
  have hp₀ : s₀.2[i]? = some (.await p₀) := by rw [List.getElem?_eq_getElem hlt, e]
  refine ⟨p₀, hp₀, ?_⟩
  by_contra hno
  -- a call of another kind never comes to these phases
  refine hrun.keeps (I := fun v : HubState α => ∀ q, v.2[i]? = some (.await q) → ¬q.IsAlert)
    (fun v act v' hv hst q hq hqa => ?_) (fun q hq => ?_) p hp halert
  · obtain ⟨-, hst⟩ := hst
    obtain ⟨j, ans⟩ := act
    by_cases hj : j = i
    · subst hj
      obtain ⟨q', hq', -⟩ := id hst
      have hn := (interleave_own hst hq').2.symm.trans hq
      exact hv q' hq' (hubStepIn_isAlert (Prod.ext rfl (Option.some.inj hn)) hqa)
    · exact hv q ((interleave_other hst hj).symm.trans hq) hqa
  · cases hp₀.symm.trans hq
    exact hno

/-- **Alerts reach each recipient once.** A call of `broadcast_alert`, in any run of the hub, never
raises: each of its steps awaits the next send, or it ends. It sends to each client that was in
either set when it started once, and to no other. When it ends, the other calls are where they are
in the run without it, and so is each set, less the clients whose send failed. -/
theorem alert_reaches_each {s₀ : HubState α × AlertWatch α}
    {as : List (ℕ × HubAnswer α × List α)} (h₀ : (watchedAlert α i).init s₀)
    (hrun : (watchedAlert α i).Run s₀ as s) (hp : s.1.2[i]? = some (.await p)) (halert : p.IsAlert)
    (hst : (watchedAlert α i).step s (i, ans) s') :
    (∃ rest client stale, s'.1.2[i]? = some (.await (.sendAlert rest client stale)) ∧
      s'.2.sent.length < s'.2.kpi.length + s'.2.regulator.length ∧
      ∀ c, (s'.2.clients ++ client :: rest).count c =
        if c ∈ s'.2.kpi ∨ c ∈ s'.2.regulator then 1 else 0) ∨
    s'.1.2[i]? = some (.done (.ok ())) ∧
      (∀ c, s'.2.clients.count c = if c ∈ s'.2.kpi ∨ c ∈ s'.2.regulator then 1 else 0) ∧
      ∃ alone : HubState α, (realtimeIn α).Run s₀.1 (without i as) alone ∧
        (∀ j, j ≠ i → alone.2[j]? = s'.1.2[j]?) ∧
        ∀ ch c, c ∈ s'.1.1.members ch ↔ c ∈ alone.1.members ch ∧
          ¬((ch = .kpi ∨ ch = .regulator) ∧ (c, true) ∈ s'.2.sent) := by
  have hw := (alert_watching α i).reach ((Sys.Reach.init h₀).run hrun) p hp
  obtain ⟨ho, hhub, hn, hg⟩ := watchedAlert_own hp hst
  obtain ⟨h', n, hs⟩ : ∃ h' n, hubStepIn s.1.1 ans p = (h', n) := ⟨_, _, rfl⟩
  rw [hs] at hhub hn
  rw [hn, hg, hhub]
  rcases alert_own halert hw ho hs with ⟨rest, client, rfl, -, hc⟩ | ⟨rfl, hc, rfl⟩
  · refine .inl ⟨rest, client, _, rfl, ?_, hc⟩
    have := hc.length_le
    rw [List.length_cons] at this
    omega
  · refine .inr ⟨rfl, fun c => by simpa using hc c, ?_⟩
    obtain ⟨p₀, hp₀, halert₀⟩ := alert_from_start h₀.1 hrun.of_withHistory hp halert
    obtain ⟨-, calls, halone, hcalls'⟩ :=
      interleave_without (fun _ _ _ _ _ h _ hs => hubStepIn_alert h hs) hrun.of_withHistory hp₀
        halert₀ hp fun _ _ => rfl
    refine ⟨(s.1.1, calls), halone, fun j hj => ?_, fun ch c => ?_⟩
    · exact (hcalls' j hj).trans (interleave_other hst.1.2 (Ne.symm hj)).symm
    · rw [Hub.mem_members_discardAll, Hub.mem_members_discardAll, AlertWatch.mem_failed]
      tauto

end

/-! ## An alert while clients come and go -/

namespace Sample

instance (h : Hub ℕ) (ans : HubAnswer ℕ × List ℕ) (p : HubPhase ℕ) : Decidable (Ordered h ans p) :=
  match p with
  | .broadcastAlert =>
    decidable_of_iff (ans.2.Perm (alertTargets h)) ⟨fun h _ => h, fun h => h rfl⟩
  | .accept .. | .disconnect .. | .broadcast .. | .send .. | .sendAlert .. =>
    .isTrue fun e => by cases e

/-- A step of the watched hub, computed. -/
def broadcastAlertExec (i : ℕ) (s : HubState ℕ × AlertWatch ℕ) (act : ℕ × HubAnswer ℕ × List ℕ) :
    Option (HubState ℕ × AlertWatch ℕ) :=
  (exec hubStepIn Ordered s.1 act).map fun s' => (s', watchAlert i s.1 act s' s.2)

theorem broadcastAlertExec_step {i : ℕ} {s s' : HubState ℕ × AlertWatch ℕ}
    {act : ℕ × HubAnswer ℕ × List ℕ} (h : broadcastAlertExec i s act = some s') :
    (watchedAlert ℕ i).step s act s' := by
  obtain ⟨s₁, hs, rfl⟩ := Option.map_eq_some_iff.mp h
  exact ⟨exec_step hs, rfl⟩

/-- An alert to 1 and 2 in one set and 2 and 3 in the other. A client connects and one disconnects. -/
def alertToThree : HubState ℕ × AlertWatch ℕ :=
  ((⟨.empty, twoClients, .empty, ⟨[some 3, some 2], by decide⟩, fun _ => none⟩,
    [.await .broadcastAlert, .await (connectKpi 4), .await (disconnectRegulator 2)]), {})

theorem alertToThree_init : (watchedAlert ℕ 0).init alertToThree := by
  refine ⟨fun t ht => ?_, rfl⟩
  simp only [alertToThree, List.mem_cons, List.not_mem_nil, or_false] at ht
  rcases ht with rfl | rfl | rfl <;> exact ⟨_, rfl, trivial⟩

/-- The steps up to the answer of the last send. The send to 1 fails. -/
def alertSteps : List (ℕ × HubAnswer ℕ × List ℕ) :=
  [(0, {}, [2, 3, 1]), (1, { placement := .slot 1 }, []), (0, {}, []), (2, {}, []), (0, {}, [])]

/-- Whether a call awaits a send of an alert. -/
def sendsAlert : AfterCall ℕ → Bool
  | .await (.sendAlert ..) => true
  | _ => false

theorem sendsAlert_await {t : AfterCall ℕ} (h : sendsAlert t) :
    ∃ p, t = .await p ∧ p.IsAlert := by
  unfold sendsAlert at h
  split at h
  · exact ⟨_, rfl, trivial⟩
  · cases h

end Sample

open Sample in
/-- The alert goes to 1, 2 and 3, and only 1 is removed by it. -/
theorem alert_reaches_each_two :
    ∃ s s' : HubState ℕ × AlertWatch ℕ, (watchedAlert ℕ 0).Run alertToThree alertSteps s ∧
      s'.2.sent = [(2, false), (3, false), (1, true)] ∧ s'.1.1.members .kpi = [4, 2] ∧
      ∃ alone : HubState ℕ, (realtimeIn ℕ).Run alertToThree.1 (without 0 alertSteps) alone ∧
        (∀ j, j ≠ 0 → alone.2[j]? = s'.1.2[j]?) ∧
        ∀ ch c, c ∈ s'.1.1.members ch ↔ c ∈ alone.1.members ch ∧
          ¬((ch = .kpi ∨ ch = .regulator) ∧ (c, true) ∈ s'.2.sent) := by
  have hrun : (alertSteps.foldlM (broadcastAlertExec 0) alertToThree).bind (fun s =>
        (broadcastAlertExec 0 s (0, { fails := true }, [])).map fun s' =>
          (s.1.2[0]?.map sendsAlert, s'.1.2[0]?.map sendsAlert, s'.2.sent, s'.1.1.members .kpi)) =
      some (some true, some false, [(2, false), (3, false), (1, true)], [4, 2]) := by
    decide +kernel
  obtain ⟨s, hs, h⟩ := Option.bind_eq_some_iff.mp hrun
  obtain ⟨s', hs', h⟩ := Option.map_eq_some_iff.mp h
  simp only [Prod.mk.injEq] at h
  obtain ⟨hawait, hdone, hsent, hmembers⟩ := h
  have hreach : (watchedAlert ℕ 0).Run alertToThree alertSteps s :=
    .foldlM (f := broadcastAlertExec 0) (fun _ _ _ _ h => broadcastAlertExec_step h) hs
  obtain ⟨t, ht, hsends⟩ := Option.map_eq_some_iff.mp hawait
  obtain ⟨p, rfl, hp⟩ := sendsAlert_await hsends
  refine ⟨s, s', hreach, hsent, hmembers, ?_⟩
  rcases alert_reaches_each alertToThree_init hreach ht hp (broadcastAlertExec_step hs') with
    ⟨rest, client, stale, hn, -⟩ | ⟨-, -, h⟩
  · rw [hn] at hdone
    cases hdone
  · exact h

end CryptoExchange
