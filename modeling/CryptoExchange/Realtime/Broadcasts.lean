import CryptoExchange.Realtime.Hub

/-!
# Broadcasts over a set that changes

A broadcast is watched from its start: who has stayed connected, and whom it has sent to (`Watch`).

* `Undisturbed`: each time a send is answered the set has the size that it had at the start, and
  clients that connect go to free slots. In such runs `Watching` holds between two sends.
* `broadcast_survives`: then the broadcast returns, it has sent once to each client that stayed, and
  it removes those whose send failed.
-/

namespace CryptoExchange

open Lib

variable {α : Type} [DecidableEq α]

/-- What is known of a broadcast since it began. -/
structure Watch (α : Type) where
  /-- The number of slots that the table had at the start. -/
  slots : ℕ := 0
  /-- The clients that have been connected all the time. -/
  stayed : List α := []
  /-- Who was sent to, in this order, and whether it failed. -/
  sent : List (α × Bool) := []

/-- Whom it was sent to, and to whom that failed. -/
def Watch.clients (g : Watch α) : List α := g.sent.map Prod.fst

def Watch.failed (g : Watch α) : List α := (g.sent.filter Prod.snd).map Prod.fst

/-- Watching the call `i`. -/
def watch (i : ℕ) (s : HubState α) (act : ℕ × HubAnswer α) (s' : HubState α) (g : Watch α) :
    Watch α :=
  match s.2[i]? with
  | some (.await (.broadcast ch)) =>
    if act.1 = i then
      { slots := ((s.1.clients ch).map fun t => t.slots.length).getD 0, stayed := s.1.members ch }
    else g
  | some (.await (.send ch _ client _)) =>
    if act.1 = i then { g with sent := g.sent ++ [(client, act.2.fails)] }
    else { g with stayed := g.stayed.filter fun c => c ∈ s'.1.members ch }
  | _ => g

/-- Any number of calls, interleaved, with the call `i` watched. -/
def watched (α : Type) [DecidableEq α] (i : ℕ) : Sys :=
  (realtime α).withHistory ({} : Watch α) (watch i)

/-- While the broadcast `i` iterates: when its send is answered, the set has the size that it had
when the broadcast began; a client that connects to the channel goes to a free slot. -/
def Undisturbed (i : ℕ) (s : HubState α × Watch α) (act : ℕ × HubAnswer α) : Prop :=
  ∀ ch it client stale, s.1.2[i]? = some (.await (.send ch it client stale)) →
    ∀ t, s.1.1.clients ch = some t →
      if act.1 = i then t.size = it.used
      else ∀ p, s.1.2[act.1]? = some (.await p) → p.Fits t ch act.2

/-- A broadcast that awaits a send. -/
def Watching (h : Hub α) (g : Watch α) : HubPhase α → Prop
  | .send ch it client stale => ∃ t, h.clients ch = some t ∧ t.slots.length = g.slots ∧
      it.pos ≤ g.slots ∧ g.sent.length < it.pos ∧ stale = g.failed ∧
      t.Iterated g.stayed (g.clients ++ [client]) it.pos
  | _ => True

/-- The channel of a broadcast. -/
def HubPhase.channel : HubPhase α → Option Channel
  | .broadcast ch | .send ch .. => some ch
  | _ => none

/-- What a broadcast leaves when it returns. -/
structure Survived (ch : Channel) (h h' : Hub α) (g : Watch α) : Prop where
  once : ∀ c ∈ g.stayed, g.clients.count c = 1
  removed : ∀ c, c ∈ h'.members ch ↔ c ∈ h.members ch ∧ (c, true) ∉ g.sent

/-! ## The loop -/

omit [DecidableEq α] in
theorem Watch.mem_failed {g : Watch α} {c : α} : c ∈ g.failed ↔ (c, true) ∈ g.sent := by
  simp [Watch.failed]

/-- The loop goes on to the next client, or ends. -/
theorem broadcastLoop_watching {h h' : Hub α} {ch : Channel} {t : PySet α} {it : PySet.Iter}
    {g : Watch α} {n : AfterCall α} (ht : h.clients ch = some t) (hlen : t.slots.length = g.slots)
    (hused : t.size = it.used) (hsent : g.sent.length ≤ it.pos)
    (hiter : t.Iterated g.stayed g.clients it.pos)
    (hs : broadcastLoop h ch t it g.failed = (h', n)) :
    (∃ it' client, n = .await (.send ch it' client g.failed) ∧
        Watching h' g (.send ch it' client g.failed)) ∨
      n = .done (.ok ()) ∧ Survived ch h h' g := by
  unfold broadcastLoop at hs
  split at hs
  · rename_i hn
    exact absurd hused (PySet.next_raised_iff.mp hn)
  · rename_i hn
    cases hs
    refine .inr ⟨rfl, fun c hc => hiter.stopped hn hc, fun c => ?_⟩
    rw [Hub.mem_discardAll, Watch.mem_failed]
  · rename_i client it' hn
    cases hs
    refine .inl ⟨it', client, rfl, t, ht, hlen, ?_, ?_, rfl, hiter.item hn⟩
    · obtain ⟨k, -, rfl, hk, -⟩ := PySet.next_item hn
      have := (List.getElem?_eq_some_iff.mp hk).1
      show k + 1 ≤ g.slots
      omega
    · obtain ⟨k, hk, rfl, -, -⟩ := PySet.next_item hn
      show g.sent.length < k + 1
      omega

/-- A step of the broadcast itself. -/
theorem Watching.own {h h' : Hub α} {g : Watch α} {ch : Channel} {ans : HubAnswer α}
    {it : PySet.Iter} {client : α} {stale : List α} {n : AfterCall α}
    (hw : Watching h g (.send ch it client stale))
    (hused : ∀ t, h.clients ch = some t → t.size = it.used)
    (hs : hubStep h ans (.send ch it client stale) = (h', n)) :
    let g' := { g with sent := g.sent ++ [(client, ans.fails)] }
    (∃ it' client', n = .await (.send ch it' client' g'.failed) ∧
        Watching h' g' (.send ch it' client' g'.failed)) ∨
      n = .done (.ok ()) ∧ Survived ch h h' g' := by
  intro g'
  obtain ⟨t, ht, hlen, hpos, hsent, rfl, hiter⟩ := hw
  have hstale : appendStale g.failed client ans.fails = g'.failed := by
    unfold appendStale Watch.failed
    cases hf : ans.fails <;> simp [g', hf]
  have hclients : g.clients ++ [client] = g'.clients := by simp [Watch.clients, g']
  simp only [hubStep, ht, hstale] at hs
  refine broadcastLoop_watching ht hlen (hused t ht) ?_ (hclients ▸ hiter) hs
  show (g.sent ++ [(client, ans.fails)]).length ≤ it.pos
  rw [List.length_append, List.length_singleton]
  omega

/-- The start of a broadcast. -/
theorem watching_start {h h' : Hub α} {ch : Channel} {ans : HubAnswer α} {n : AfterCall α}
    (hs : hubStep h ans (.broadcast ch) = (h', n)) :
    let g : Watch α := { slots := ((h.clients ch).map fun t => t.slots.length).getD 0,
                         stayed := h.members ch }
    (∃ it client, n = .await (.send ch it client g.failed) ∧
        Watching h' g (.send ch it client g.failed)) ∨
      n = .done (.ok ()) ∧ Survived ch h h' g := by
  intro g
  cases ht : h.clients ch with
  | none =>
    simp only [hubStep, ht] at hs
    cases hs
    refine .inr ⟨rfl, fun c hc => ?_, fun c => by simp [g]⟩
    simp [g, Hub.members, ht] at hc
  | some t =>
    simp only [hubStep, ht] at hs
    have hg : g = { slots := t.slots.length, stayed := t.members } := by
      simp [g, ht, Hub.members]
    refine broadcastLoop_watching ht (by rw [hg]) rfl (Nat.zero_le _) ?_ hs
    rw [hg]
    exact t.iterated_start

/-- A step of another call. -/
theorem Watching.others {h h' : Hub α} {g : Watch α} {ch : Channel} {ans : HubAnswer α}
    {it : PySet.Iter} {client : α} {stale : List α} {p : HubPhase α} {n : AfterCall α}
    (hw : Watching h g (.send ch it client stale))
    (hfits : ∀ t, h.clients ch = some t → p.Fits t ch ans) (hs : hubStep h ans p = (h', n)) :
    Watching h' { g with stayed := g.stayed.filter fun c => c ∈ h'.members ch }
      (.send ch it client stale) := by
  obtain ⟨t, ht, hlen, hpos, hsent, rfl, hiter⟩ := hw
  obtain ⟨t', ht', hk⟩ := hubStep_kept ht (hfits t ht)
  rw [hs] at ht'
  refine ⟨t', ht', hk.length.trans hlen, hpos, hsent, rfl, ?_⟩
  have hm : h'.members ch = t'.members := by
    change h'.clients ch = some t' at ht'
    rw [Hub.members, ht']
    rfl
  simp only [hm]
  exact hiter.kept hk

/-! ## Runs -/

section

variable {i j : ℕ} {s s' : HubState α} {ans : HubAnswer α} {ch : Channel} {it : PySet.Iter}
  {client : α} {stale : List α} {g : Watch α}

theorem watch_start (hp : s.2[i]? = some (.await (.broadcast ch))) :
    watch i s (i, ans) s' g =
      { slots := ((s.1.clients ch).map fun t => t.slots.length).getD 0
        stayed := s.1.members ch } := by
  simp [watch, hp]

theorem watch_own (hp : s.2[i]? = some (.await (.send ch it client stale))) :
    watch i s (i, ans) s' g = { g with sent := g.sent ++ [(client, ans.fails)] } := by
  simp [watch, hp]

theorem watch_others (hj : j ≠ i) (hp : s.2[i]? = some (.await (.send ch it client stale))) :
    watch i s (j, ans) s' g =
      { g with stayed := g.stayed.filter fun c => c ∈ s'.1.members ch } := by
  simp [watch, hp, hj]

end

/-- A broadcast stays with its channel, and no other call begins one. -/
theorem hubStep_channel {h h' : Hub α} {ans : HubAnswer α} {p p' : HubPhase α}
    (hs : hubStep h ans p = (h', .await p')) : p'.channel = p.channel := by
  have loop : ∀ {ch : Channel} {t : PySet α} {it : PySet.Iter} {stale : List α},
      broadcastLoop h ch t it stale = (h', .await p') → p'.channel = some ch := by
    intro ch t it stale hs
    unfold broadcastLoop at hs
    split at hs
    · cases hs
    · cases hs
    · cases hs
      rfl
  have alert : ∀ {rest stale : List α}, alertLoop h rest stale = (h', .await p') →
      p'.channel = none := by
    intro rest stale hs
    cases rest with
    | nil => cases hs
    | cons client rest =>
      cases hs
      rfl
  cases p with
  | accept ch client =>
    simp only [hubStep] at hs
    split at hs <;> cases hs
  | disconnect ch client => cases hs
  | broadcast ch =>
    simp only [hubStep] at hs
    split at hs
    · exact loop hs
    · cases hs
  | send ch it client stale =>
    simp only [hubStep] at hs
    split at hs
    · exact loop hs
    · cases hs
  | broadcastAlert => exact alert hs
  | sendAlert rest client stale => exact alert hs

/-- What the broadcast does in a step of its own. -/
theorem own_step {i : ℕ} {s s' : HubState α × Watch α} {ans : HubAnswer α} {p : HubPhase α}
    {ch : Channel} (hw : Watching s.1.1 s.2 p) (hu : Undisturbed i s (i, ans))
    (hp : s.1.2[i]? = some (.await p)) (hch : p.channel = some ch)
    (hst : (watched α i).step s (i, ans) s') :
    (∃ it client stale, s'.1.2[i]? = some (.await (.send ch it client stale)) ∧
        Watching s'.1.1 s'.2 (.send ch it client stale)) ∨
      s'.1.2[i]? = some (.done (.ok ())) ∧ Survived ch s.1.1 s'.1.1 s'.2 := by
  obtain ⟨hst, hg⟩ := hst
  obtain ⟨h', n, hs⟩ : ∃ h' n, hubStep s.1.1 ans p = (h', n) := ⟨_, _, rfl⟩
  obtain ⟨hh, hn⟩ := interleave_own hst hp
  rw [hs] at hh hn
  rw [hn, hh]
  cases p with
  | accept | disconnect | broadcastAlert | sendAlert => cases hch
  | broadcast ch' =>
    cases hch
    rw [show s'.2 = _ from hg.trans (watch_start hp)]
    rcases watching_start hs with ⟨it, client, rfl, hw'⟩ | ⟨rfl, hsurv⟩
    · exact .inl ⟨it, client, _, rfl, hw'⟩
    · exact .inr ⟨rfl, hsurv⟩
  | send ch' it client stale =>
    cases hch
    rw [show s'.2 = _ from hg.trans (watch_own hp)]
    have hused : ∀ t, s.1.1.clients ch = some t → t.size = it.used := by
      intro t ht
      have := hu ch it client stale hp t ht
      rwa [if_pos rfl] at this
    rcases hw.own hused hs with ⟨it', client', rfl, hw'⟩ | ⟨rfl, hsurv⟩
    · exact .inl ⟨it', client', _, rfl, hw'⟩
    · exact .inr ⟨rfl, hsurv⟩

theorem watching (α : Type) [DecidableEq α] (i : ℕ) :
    ((watched α i).restrict (Undisturbed i)).Inductive fun s =>
      ∀ p, s.1.2[i]? = some (.await p) → Watching s.1.1 s.2 p where
  init s h p hp := by
    obtain ⟨h, -⟩ := h
    obtain ⟨q, e, hq⟩ := h _ (List.mem_of_getElem? hp)
    cases e
    cases p with
    | send => exact hq.elim
    | _ => trivial
  step s act s' hI hst p' hp' := by
    obtain ⟨hu, hst⟩ := hst
    obtain ⟨j, ans⟩ := act
    by_cases hj : j = i
    · subst hj
      obtain ⟨⟨p, hp, -⟩, -⟩ := id hst
      cases hch : p.channel with
      | some ch =>
        rcases own_step (hI p hp) hu hp hch hst with ⟨it, client, stale, hn, hw⟩ | ⟨hn, -⟩
        · cases hp'.symm.trans hn
          exact hw
        · cases hp'.symm.trans hn
      | none =>
        obtain ⟨h', n, hs⟩ : ∃ h' n, hubStep s.1.1 ans p = (h', n) := ⟨_, _, rfl⟩
        have hn := (interleave_own hst.1 hp).2
        rw [hs] at hn
        cases hp'.symm.trans hn
        have hch' := (hubStep_channel hs).trans hch
        cases p' with
        | send => cases hch'
        | _ => trivial
    · have hp : s.1.2[i]? = some (.await p') := (interleave_other hst.1 hj).symm.trans hp'
      obtain ⟨⟨q, hq, e⟩, hg⟩ := hst
      obtain ⟨h', n, hs⟩ : ∃ h' n, hubStep s.1.1 ans q = (h', n) := ⟨_, _, rfl⟩
      rw [hs] at e
      have hw := hI p' hp
      cases p' with
      | send ch it client stale =>
        rw [show s'.2 = _ from hg.trans (watch_others hj hp), e]
        refine hw.others (fun t ht => ?_) hs
        have := hu ch it client stale hp t ht
        rw [if_neg hj] at this
        exact this q hq
      | _ => trivial

/-- **A broadcast survives** the calls beside it in an undisturbed run: every step of its own awaits
the next send, of fewer than the slots of the table, or returns. It raises exactly when a send is
answered and the set has another size than at the start. -/
theorem broadcast_survives (α : Type) [DecidableEq α] (i : ℕ) :
    (∀ s ans s' p ch, ((watched α i).restrict (Undisturbed i)).Reach s →
      s.1.2[i]? = some (.await p) → p.channel = some ch →
      ((watched α i).restrict (Undisturbed i)).step s (i, ans) s' →
        (∃ it client stale, s'.1.2[i]? = some (.await (.send ch it client stale)) ∧
          s'.2.sent.length < s'.2.slots) ∨
        s'.1.2[i]? = some (.done (.ok ())) ∧ Survived ch s.1.1 s'.1.1 s'.2) ∧
    ∀ s ans s' ch it client stale t, (realtime α).step s (i, ans) s' →
      s.2[i]? = some (.await (.send ch it client stale)) → s.1.clients ch = some t →
      (s'.2[i]? = some (.done (.error .changedSize)) ↔ t.size ≠ it.used) := by
  constructor
  · intro s ans s' p ch hs hp hch hst
    have hw := (watching α i).reach hs p hp
    rcases own_step hw hst.1 hp hch hst.2 with ⟨it, client, stale, hn, hw'⟩ | h
    · obtain ⟨t, -, -, hpos, hsent, -⟩ := hw'
      exact .inl ⟨it, client, stale, hn, Nat.lt_of_lt_of_le hsent hpos⟩
    · exact .inr h
  · intro s ans s' ch it client stale t hst hp ht
    rw [(interleave_own hst hp).2]
    simp only [hubStep, ht]
    rw [← PySet.next_raised_iff]
    unfold broadcastLoop
    cases hn : t.next it <;> simp

/-! ## A client that connects during a send -/

namespace Sample

/-- Two clients of the market channel. -/
def twoClients : PySet ℕ := ⟨[some 1, none, some 2, none], by decide⟩

/-- A broadcast to them, and a client that connects to `ch`. -/
def connecting (ch : Channel) : HubState ℕ × Watch ℕ :=
  ((⟨twoClients, .empty, .empty, .empty, fun _ => none⟩, [.await broadcastMarket,
    .await (.accept ch 3)]), {})

theorem connecting_init (ch : Channel) : (watched ℕ 0).init (connecting ch) := by
  refine ⟨fun t ht => ?_, rfl⟩
  simp only [connecting, List.mem_cons, List.not_mem_nil, or_false] at ht
  rcases ht with rfl | rfl
  · exact ⟨_, rfl, trivial⟩
  · exact ⟨_, rfl, trivial⟩

instance (s : PySet ℕ) (ch : Channel) (ans : HubAnswer ℕ) (p : HubPhase ℕ) :
    Decidable (p.Fits s ch ans) := by
  unfold HubPhase.Fits
  split <;> infer_instance

/-- Whether the step is undisturbed, computed. -/
def undisturbed (i : ℕ) (s : HubState ℕ × Watch ℕ) (act : ℕ × HubAnswer ℕ) : Bool :=
  match s.1.2[i]?, s.1.2[act.1]? with
  | some (.await (.send ch it _ _)), some (.await p) =>
    match s.1.1.clients ch with
    | some t => if act.1 = i then t.size = it.used else p.Fits t ch act.2
    | none => false
  | _, _ => true

theorem undisturbed_iff {i : ℕ} {s : HubState ℕ × Watch ℕ} {act : ℕ × HubAnswer ℕ}
    (h : undisturbed i s act) : Undisturbed i s act := by
  intro ch it client stale hp t ht
  unfold undisturbed at h
  rw [hp] at h
  by_cases e : act.1 = i
  · subst e
    rw [hp] at h
    simpa [ht] using h
  · rw [if_neg e]
    intro p hq
    rw [hq] at h
    simpa [ht, e] using h

/-- A watched step, computed. -/
def watchedExec (i : ℕ) (s : HubState ℕ × Watch ℕ) (act : ℕ × HubAnswer ℕ) :
    Option (HubState ℕ × Watch ℕ) :=
  if undisturbed i s act then
    (exec hubStep (fun _ _ _ => True) s.1 act).map fun s' => (s', watch i s.1 act s' s.2)
  else none

theorem watchedExec_step {i : ℕ} {s s' : HubState ℕ × Watch ℕ} {act : ℕ × HubAnswer ℕ}
    (h : watchedExec i s act = some s') :
    ((watched ℕ i).restrict (Undisturbed i)).step s act s' := by
  obtain ⟨hu, h⟩ := Option.ite_none_right_eq_some.mp h
  obtain ⟨s₁, hs, rfl⟩ := Option.map_eq_some_iff.mp h
  have hst : ((realtime ℕ).restrict (StepMeets fun _ _ _ => True)).step s.1 act s₁ := exec_step hs
  exact ⟨undisturbed_iff hu, hst.2, rfl⟩

/-- The channel of a broadcast that awaits a send. -/
def awaitedChannel : AfterCall ℕ → Option Channel
  | .await p => p.channel
  | .done _ => none

/-- How a call ended. -/
def result : AfterCall ℕ → Option (Except HubError Unit)
  | .await _ => none
  | .done r => some r

end Sample

open Sample in
/-- The result for a broadcast to two clients of which the first has gone, while a third client
connects to another channel. -/
theorem broadcast_survives_two :
    ∃ s s' : HubState ℕ × Watch ℕ, ((watched ℕ 0).restrict (Undisturbed 0)).Reach s ∧
      s'.2.sent = [(1, true), (2, false)] ∧ s'.1.1.members .market = [2] ∧
      Survived .market s.1.1 s'.1.1 s'.2 := by
  have hrun : ([(0, {}), (1, {}), (0, { fails := true })].foldlM (watchedExec 0)
      (connecting .kpi)).bind (fun s => (watchedExec 0 s (0, {})).map fun s' =>
        (s.1.2[0]?.bind awaitedChannel, s'.1.2[0]?.bind awaitedChannel, s'.2.sent,
          s'.1.1.members .market)) =
      some (some .market, none, [(1, true), (2, false)], [2]) := by decide +kernel
  obtain ⟨s, hs, h⟩ := Option.bind_eq_some_iff.mp hrun
  obtain ⟨s', hs', h⟩ := Option.map_eq_some_iff.mp h
  simp only [Prod.mk.injEq] at h
  obtain ⟨hawait, hdone, hsent, hmembers⟩ := h
  have hreach : ((watched ℕ 0).restrict (Undisturbed 0)).Reach s :=
    .foldlM (f := watchedExec 0) (fun _ _ _ _ h => watchedExec_step h)
      (.init (connecting_init .kpi)) hs
  obtain ⟨t, ht, hch⟩ := Option.bind_eq_some_iff.mp hawait
  refine ⟨s, s', hreach, hsent, hmembers, ?_⟩
  cases t with
  | done r => cases hch
  | await p =>
    rcases (broadcast_survives ℕ 0).1 s {} s' p .market hreach ht hch (watchedExec_step hs') with
      ⟨it, client, stale, hn, -⟩ | ⟨-, h⟩
    · rw [hn] at hdone
      cases hdone
    · exact h

open Sample in
/-- A third client connects to the channel during the first send: the broadcast raises. -/
theorem broadcast_raised :
    ∃ s, (realtime ℕ).Reach s ∧
      s.2.map result = [some (.error .changedSize), some (.ok ())] := by
  have hrun : ([(0, {}), (1, { placement := .slot 1 }), (0, {})].foldlM
      (exec hubStep fun _ _ _ => True) (connecting .market).1).map (fun s =>
        s.2.map result) =
      some [some (.error .changedSize), some (.ok ())] := by decide +kernel
  obtain ⟨s, hs, h⟩ := Option.map_eq_some_iff.mp hrun
  have hreach : ((realtime ℕ).restrict (StepMeets fun _ _ _ => True)).Reach s :=
    .foldlM (f := exec hubStep fun _ _ _ => True) (fun _ _ _ _ h => exec_step h)
      (.init (connecting_init .market).1) hs
  exact ⟨s, hreach.of_restrict, h⟩

end CryptoExchange
