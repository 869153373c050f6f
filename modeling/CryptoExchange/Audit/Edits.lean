import CryptoExchange.Audit.Coverage
import CryptoExchange.Lib.JsonOrder

/-!
# Edited rows are located

What `_compute_row_hash` hashes tells its arguments apart (`payload_eq_iff`): up to the order of
keys, and to what `or` makes of a `None`. So the walk of `verify_audit_chain` ends at the first
edited row, and has then counted the rows before it.

* `auditingAfter`: the log goes on behind legacy rows, which have no hash. `Behind` relates its runs
  to the runs on the empty table.
* `edited`: the table after any edits of the five columns that are hashed.
* `edits_located_iff`: the walk breaks at the first edited row exactly when the rows before it come
  back as they were hashed. `edit_not_located` is a log where one does not.
-/

namespace CryptoExchange

open Lib

/-! ## What is hashed -/

/-- The arguments of `_compute_row_hash`. -/
structure HashArgs where
  eventType : String
  actorId : Option ℤ
  createdAt : DateTime
  eventData : Option Dict
  prevHash : Option String

namespace HashArgs

def data (a : HashArgs) : Json := .obj (a.eventData.getD [])

def payload (a : HashArgs) : List Char :=
  (hashPayload a.eventType a.actorId a.createdAt a.eventData a.prevHash).dumps

/-- Equal up to the order of keys, `None` for `{}` and `None` for `''`. -/
structure Equivalent (a b : HashArgs) : Prop where
  eventType : a.eventType = b.eventType
  actorId : a.actorId = b.actorId
  createdAt : a.createdAt = b.createdAt
  data : a.data.Reordered b.data
  prevHash : a.prevHash.getD "" = b.prevHash.getD ""

theorem payload_inj {a b : HashArgs} : a.payload = b.payload ↔
    a.eventType = b.eventType ∧ a.actorId = b.actorId ∧ a.createdAt = b.createdAt ∧
      a.data.dumps = b.data.dumps ∧ a.prevHash.getD "" = b.prevHash.getD "" := by
  rw [payload, payload, dumps_payload_inj, jsonInt?_injective.eq_iff,
    DateTime.isoformat_injective.eq_iff]
  rfl

theorem equivalent_of_payload {a b : HashArgs} (h : a.payload = b.payload) : a.Equivalent b := by
  obtain ⟨ht, hi, hc, hdata, hp⟩ := payload_inj.mp h
  exact ⟨ht, hi, hc, Json.reordered_of_sortKeys (Json.dumps_inj.mp hdata), hp⟩

/-- **The encoding is canonical and injective.** -/
theorem payload_eq_iff {a b : HashArgs} (hd : a.data.Distinct) :
    a.payload = b.payload ↔ a.Equivalent b := by
  refine ⟨equivalent_of_payload, fun ⟨ht, hi, hc, hdata, hp⟩ => ?_⟩
  exact payload_inj.mpr ⟨ht, hi, hc, (Json.dumps_eq_iff hd).mpr hdata, hp⟩

end HashArgs

namespace AuditLog

def hashArgs (r : AuditLog) : HashArgs where
  eventType := r.eventType
  actorId := r.actorId
  createdAt := r.createdAt
  eventData := r.eventData
  prevHash := r.prevHash

/-- The row with other values in the columns that are hashed. -/
def edit (r : AuditLog) (a : HashArgs) : AuditLog :=
  { r with
    eventType := a.eventType
    actorId := a.actorId
    createdAt := a.createdAt
    eventData := a.eventData
    prevHash := a.prevHash }

/-- The edit makes another row of it: what is read is not what was read before. -/
def Differs (r : AuditLog) (a : HashArgs) : Prop :=
  ¬(r.edit a).readBack.hashArgs.Equivalent r.readBack.hashArgs

end AuditLog

/-- The table after the edits: the new values for a row are found under its id. -/
def edited (edits : ℕ → Option HashArgs) (r : AuditLog) : AuditLog :=
  ((edits r.id).map r.edit).getD r

section

variable {edits : ℕ → Option HashArgs} {r : AuditLog}

theorem edited_none (h : edits r.id = none) : edited edits r = r := by
  rw [edited, h]
  rfl

theorem edited_some {a : HashArgs} (h : edits r.id = some a) : edited edits r = r.edit a := by
  rw [edited, h]
  rfl

@[simp] theorem edited_id : (edited edits r).id = r.id := by
  cases h : edits r.id with
  | none => rw [edited_none h]
  | some a => rw [edited_some h]; rfl

@[simp] theorem edited_rowHash : (edited edits r).rowHash = r.rowHash := by
  cases h : edits r.id with
  | none => rw [edited_none h]
  | some a => rw [edited_some h]; rfl

end

section

variable {sha : List Char → String}

/-- An edited row does not have its hash any more, kept or not. -/
theorem Written.edited_fails (hsha : Function.Injective sha) {r : AuditLog} (h : Written sha r)
    {a : HashArgs} (ha : r.Differs a) : ¬(r.edit a).Passes sha := by
  intro hpass
  have hhash : (r.edit a).readBack.hashArgs.payload = r.hashArgs.payload :=
    hsha (hpass _ h.hashed)
  obtain ⟨ht, hi, hc, hdata, hp⟩ := HashArgs.payload_inj.mp hhash
  have hread : (r.edit a).readBack.hashArgs.data = (r.edit a).data.stored := data_readBack _
  have hkept : r.Kept := Json.kept_of_dumps_stored (hread ▸ hdata)
  have hown : r.readBack.hashArgs.data.dumps = r.hashArgs.data.dumps := by
    have : r.readBack.hashArgs.data = r.data.stored := data_readBack r
    rw [this]
    exact (Json.dumps_stored h.distinct).mpr hkept
  have heq : (r.edit a).readBack.hashArgs.payload = r.readBack.hashArgs.payload :=
    HashArgs.payload_inj.mpr ⟨ht, hi, hc, hdata.trans hown.symm, hp⟩
  exact ha (HashArgs.equivalent_of_payload heq)

/-! ## The walk -/

theorem verifyRows_append {pre : List AuditLog} (h : ∀ r ∈ pre, r.Passes sha)
    (rows : List AuditLog) (checked : ℕ) :
    verifyRows sha ((pre ++ rows).map AuditLog.readBack) checked =
      verifyRows sha (rows.map AuditLog.readBack) (checked + pre.length) := by
  induction pre generalizing checked with
  | nil => rfl
  | cons r pre ih =>
    have hrest := ih (fun x hx => h x (List.mem_cons_of_mem _ hx)) (checked + 1)
    rw [Nat.add_assoc, Nat.add_comm 1] at hrest
    rw [List.cons_append, List.map_cons, verifyRows]
    split
    · exact hrest
    · rename_i x hx
      rw [if_neg (not_not.mpr (h r List.mem_cons_self x hx))]
      exact hrest

theorem verifyRows_fails {r : AuditLog} (h : ¬r.Passes sha) (rows : List AuditLog) (checked : ℕ) :
    verifyRows sha ((r :: rows).map AuditLog.readBack) checked =
      { integrity := .broken, brokenAtId := some r.id, checked } := by
  rw [List.map_cons, verifyRows]
  split
  · rename_i hn
    refine absurd (fun x hx => ?_) h
    change r.rowHash = none at hn
    rw [hn] at hx
    cases hx
  · rename_i x hx
    rw [if_pos fun heq => h fun y hy => ?_]
    · rfl
    · change r.rowHash = some x at hx
      rw [hx] at hy
      cases hy
      exact heq

/-- Where the walk breaks, and that it did not before. -/
theorem verifyRows_broken {rows : List AuditLog} {checked id : ℕ}
    (h : (verifyRows sha (rows.map AuditLog.readBack) checked).brokenAtId = some id) :
    ∃ pre r post, rows = pre ++ r :: post ∧ (∀ x ∈ pre, x.Passes sha) ∧ r.id = id ∧
      r.rowHash.isSome := by
  induction rows generalizing checked with
  | nil => cases h
  | cons r rows ih =>
    by_cases hp : r.Passes sha
    · rw [show r :: rows = [r] ++ rows from rfl, verifyRows_append (by simpa using hp)] at h
      obtain ⟨pre, r', post, rfl, hpre, hid, hs⟩ := ih h
      exact ⟨r :: pre, r', post, rfl, by simpa using ⟨hp, hpre⟩, hid, hs⟩
    · rw [verifyRows_fails hp] at h
      refine ⟨[], r, rows, rfl, by simp, Option.some.inj h, ?_⟩
      rw [Option.isSome_iff_ne_none]
      intro hn
      exact hp fun x hx => by simp [hn] at hx

/-- The rows before the row. -/
def before (rows : List AuditLog) (r : AuditLog) : List AuditLog :=
  rows.filter fun x => x.id < r.id

theorem mem_before {rows : List AuditLog} {r x : AuditLog} :
    x ∈ before rows r ↔ x ∈ rows ∧ x.id < r.id := by
  simp [before]

/-- The first rows, up to one of them. -/
theorem firstRows_split {rows : List AuditLog} (hids : rows.Pairwise fun a b => a.id < b.id)
    {limit : ℕ} {r : AuditLog} (hr : r ∈ firstRows limit rows) :
    ∃ post, firstRows limit rows = before rows r ++ r :: post := by
  rw [firstRows, orderById_eq hids] at hr ⊢
  obtain ⟨pre, post, hsplit⟩ := List.append_of_mem hr
  have hrows : pre ++ r :: (post ++ rows.drop limit) = rows := by
    rw [← List.cons_append, ← List.append_assoc, ← hsplit, List.take_append_drop]
  refine ⟨post, ?_⟩
  rw [hsplit]
  congr 1
  rw [← hrows] at hids ⊢
  obtain ⟨-, hpost, hpre⟩ := List.pairwise_append.mp hids
  have hge := (List.pairwise_cons.mp hpost).1
  rw [before, List.filter_append, List.filter_cons_of_neg (by simp),
    List.filter_eq_self.mpr fun x hx => ?_, List.filter_eq_nil_iff.mpr fun x hx => ?_,
    List.append_nil]
  · have := hge x hx
    simp only [decide_eq_true_eq]
    omega
  · simpa using hpre x hx r List.mem_cons_self

/-- Where the walk breaks in the rows in the order of their ids, `edits` or not. -/
theorem verify_broken_iff {rows : List AuditLog} (hids : rows.Pairwise fun a b => a.id < b.id)
    {limit : ℕ} {edits : ℕ → Option HashArgs} {r : AuditLog} (hr : r ∈ firstRows limit rows)
    (hfails : ¬(edited edits r).Passes sha) :
    verifyAuditChain sha limit (rows.map (edited edits)) =
        ⟨.broken, some r.id, (before rows r).length⟩ ↔
      ∀ x ∈ before rows r, (edited edits x).Passes sha := by
  obtain ⟨post, hsplit⟩ := firstRows_split hids hr
  rw [verifyAuditChain, firstRows_map (fun _ => edited_id), hsplit, List.map_append, List.map_cons]
  constructor
  · intro h
    obtain ⟨pre, r', post', hrows, hpre, hid, -⟩ :=
      verifyRows_broken (congrArg VerifyReply.brokenAtId h)
    have hsorted : (pre ++ r' :: post').Pairwise fun a b => a.id < b.id := by
      rw [← hrows, ← List.map_cons, ← List.map_append, ← hsplit, firstRows, orderById_eq hids]
      refine List.pairwise_map.mpr ((hids.sublist (List.take_sublist _ _)).imp fun hab => ?_)
      rwa [edited_id, edited_id]
    obtain ⟨-, hpost, -⟩ := List.pairwise_append.mp hsorted
    intro x hx
    have hx' : edited edits x ∈ pre ++ r' :: post' :=
      hrows ▸ List.mem_append_left _ (List.mem_map_of_mem hx)
    have hlt := (mem_before.mp hx).2
    rcases List.mem_append.mp hx' with hx' | hx'
    · exact hpre _ hx'
    · rcases List.mem_cons.mp hx' with e | hx'
      · have := congrArg AuditLog.id e
        rw [edited_id] at this
        omega
      · have := (List.pairwise_cons.mp hpost).1 _ hx'
        rw [edited_id] at this
        omega
  · intro h
    have hmap : ∀ y ∈ (before rows r).map (edited edits), y.Passes sha := by
      simpa using h
    rw [verifyRows_append hmap, verifyRows_fails hfails, edited_id, List.length_map, Nat.zero_add]

theorem passes_of_not_hashed {r : AuditLog} (h : r.rowHash = none) : r.Passes sha := by
  intro x hx
  rw [h] at hx
  cases hx

/-! ## Legacy rows -/

/-- Rows from before the hash columns were added, in the order of their ids. -/
structure Legacy where
  rows : List AuditLog
  ids : rows.Pairwise fun a b => a.id < b.id
  unhashed : ∀ r ∈ rows, r.rowHash = none

variable (sha) in
/-- `emit` was called for the events, in this order; the table holds legacy rows only. -/
def auditingAfter (legacy : Legacy) (events : List Event) : Sys :=
  interleave (writeStep sha) fun w ts => w.rows = legacy.rows ∧
    (∀ r ∈ legacy.rows, r.id < w.nextId) ∧ w.lock = none ∧
    ts = events.mapIdx fun i e => .await (.acquire i e)

/-- The world behind the legacy rows, and the same one without them. -/
structure Behind (legacy : Legacy) (w w' : AuditWorld) : Prop where
  rows : w.rows = legacy.rows ++ w'.rows
  nextId : w.nextId = w'.nextId
  lock : w.lock = w'.lock
  ids : w.rows.Pairwise fun a b => a.id < b.id
  lt_next : ∀ r ∈ w.rows, r.id < w.nextId

namespace Behind

variable {legacy : Legacy} {w w' : AuditWorld}

/-- The first row behind them has no `prev_hash`. -/
theorem latestHash_eq (h : Behind legacy w w') : latestHash w.rows = latestHash w'.rows := by
  have hids := h.ids
  rw [h.rows] at hids
  rw [CryptoExchange.latestHash_eq h.ids,
    CryptoExchange.latestHash_eq (List.pairwise_append.mp hids).2.1, h.rows]
  rcases List.eq_nil_or_concat w'.rows with e | ⟨rows, r, e⟩
  · rw [e, List.append_nil]
    cases hl : legacy.rows.getLast? with
    | none => rfl
    | some r => exact legacy.unhashed r (List.mem_of_getLast? hl)
  · rw [e]
    simp

/-- A row that is appended to both. -/
theorem append (h : Behind legacy w w') (i : ℕ) {r : AuditLog} (hr : w.nextId ≤ r.id) :
    Behind legacy { w with entries := w.entries ++ [⟨i, r⟩], nextId := r.id + 1 }
      { w' with entries := w'.entries ++ [⟨i, r⟩], nextId := r.id + 1 } := by
  have happend : ∀ v : AuditWorld, AuditWorld.rows { v with
      entries := v.entries ++ [⟨i, r⟩], nextId := r.id + 1 } = v.rows ++ [r] := by
    intro v
    simp [AuditWorld.rows]
  have hbelow : ∀ x ∈ w.rows, x.id < r.id := fun x hx => Nat.lt_of_lt_of_le (h.lt_next x hx) hr
  refine ⟨?_, rfl, h.lock, ?_, ?_⟩
  · rw [happend, happend, h.rows, List.append_assoc]
  · rw [happend]
    refine List.pairwise_append.mpr ⟨h.ids, List.pairwise_singleton _ _, fun x hx y hy => ?_⟩
    rw [List.mem_singleton.mp hy]
    exact hbelow x hx
  · rw [happend]
    intro x hx
    rcases List.mem_append.mp hx with hx | hx
    · exact Nat.lt_succ_of_lt (hbelow x hx)
    · rw [List.mem_singleton.mp hx]
      exact Nat.lt_succ_self _

theorem step (h : Behind legacy w w') (ans : WriteAnswer) (p : WritePhase) :
    (writeStep sha w ans p).2 = (writeStep sha w' ans p).2 ∧
      Behind legacy (writeStep sha w ans p).1 (writeStep sha w' ans p).1 := by
  obtain ⟨hrows, hnext, hlock, hids, hlt⟩ := h
  cases p with
  | acquire i e =>
    simp only [writeStep, hlock]
    split
    · exact ⟨rfl, hrows, hnext, hlock, hids, hlt⟩
    split
    · exact ⟨rfl, hrows, hnext, hlock, hids, hlt⟩
    · exact ⟨rfl, hrows, hnext, rfl, hids, hlt⟩
  | selectLatest i e =>
    simp only [writeStep, latestHash_eq ⟨hrows, hnext, hlock, hids, hlt⟩]
    split
    · exact ⟨rfl, hrows, hnext, hlock, hids, hlt⟩
    · exact ⟨rfl, hrows, hnext, hlock, hids, hlt⟩
  | commit i e now prevHash rowHash =>
    have h : Behind legacy w w' := ⟨hrows, hnext, hlock, hids, hlt⟩
    simp only [writeStep, hnext]
    split
    · refine ⟨rfl, hrows, rfl, hlock, hids, fun r hr => ?_⟩
      exact hnext ▸ Nat.lt_of_lt_of_le (hlt r hr) (Nat.le_add_right _ _)
    · refine ⟨rfl, h.append i (r := e.row (w'.nextId + ans.skipped) now prevHash rowHash) ?_⟩
      exact hnext ▸ Nat.le_add_right _ _
  | close i failed => exact ⟨rfl, hrows, hnext, rfl, hids, hlt⟩

end Behind

theorem auditingAfter_simulated {legacy : Legacy} {events : List Event}
    {s : AuditWorld × List (Next WritePhase Bool)} (h : (auditingAfter sha legacy events).Reach s) :
    ∃ w, (auditing sha events).Reach (w, s.2) ∧ Behind legacy s.1 w := by
  refine interleave_simulated (fun w ts hi => ?_) (fun _ _ ans p hT => hT.step ans p) h
  obtain ⟨hrows, hlt, hlock, hts⟩ := hi
  refine ⟨{ entries := [], nextId := w.nextId, lock := none }, ⟨rfl, rfl, hts⟩, ?_⟩
  exact ⟨by rw [hrows]; simp [AuditWorld.rows], rfl, hlock, hrows ▸ legacy.ids, hrows ▸ hlt⟩

/-- The table behind legacy rows: the rows with a hash are the ones that were written. -/
theorem auditingAfter_written {legacy : Legacy} {events : List Event}
    (hd : ∀ e ∈ events, e.data.Distinct) {s : AuditWorld × List (Next WritePhase Bool)}
    (h : (auditingAfter sha legacy events).Reach s) :
    s.1.rows.Pairwise (fun a b => a.id < b.id) ∧ (∀ r ∈ legacy.rows, r ∈ s.1.rows) ∧
      ∀ r ∈ s.1.rows, r.rowHash.isSome → Written sha r := by
  obtain ⟨w, hw, hafter⟩ := auditingAfter_simulated h
  refine ⟨hafter.ids, fun r hr => hafter.rows ▸ List.mem_append_left _ hr, fun r hr hs => ?_⟩
  rw [hafter.rows] at hr
  rcases List.mem_append.mp hr with hr | hr
  · rw [legacy.unhashed r hr] at hs
    cases hs
  · exact ((auditing_ok sha events).reach hw).1.written sha hd r hr

/-! ## The first edited row -/

/-- `r` is the first row with a hash that the edits make another row of. -/
structure FirstEdited (rows : List AuditLog) (edits : ℕ → Option HashArgs) (r : AuditLog) :
    Prop where
  hashed : r.rowHash.isSome
  differs : ∃ a ∈ edits r.id, r.Differs a
  least : ∀ x ∈ rows, x.rowHash.isSome → (edits x.id).isSome → r.id ≤ x.id

/-- **Edits are located.** Two texts are equal exactly when what is hashed is equivalent. With a
hash without collisions, and the first edited row within the limit: the walk breaks there, with
the rows before it counted, exactly when each of these that has a hash comes back as it was hashed.
It never breaks at a legacy row, edited or not. -/
theorem edits_located_iff (hsha : Function.Injective sha) {legacy : Legacy} {events : List Event}
    (hd : ∀ e ∈ events, e.data.Distinct) {s : AuditWorld × List (Next WritePhase Bool)}
    (h : (auditingAfter sha legacy events).Reach s) {limit : ℕ} {edits : ℕ → Option HashArgs}
    {r : AuditLog} (hr : r ∈ firstRows limit s.1.rows) (hfirst : FirstEdited s.1.rows edits r) :
    (∀ a b : HashArgs, a.data.Distinct → (a.payload = b.payload ↔ a.Equivalent b)) ∧
    (verifyAuditChain sha limit (s.1.rows.map (edited edits)) =
        ⟨.broken, some r.id, (before s.1.rows r).length⟩ ↔
      ∀ x ∈ before s.1.rows r, x.rowHash.isSome → x.Kept) ∧
    ∀ x ∈ legacy.rows,
      (verifyAuditChain sha limit (s.1.rows.map (edited edits))).brokenAtId ≠ some x.id := by
  obtain ⟨hids, hlegacy, hwritten⟩ := auditingAfter_written hd h
  obtain ⟨hs, ⟨a, ha, hdiff⟩, hleast⟩ := hfirst
  have hfails : ¬(edited edits r).Passes sha := by
    rw [edited_some ha]
    exact (hwritten r (mem_firstRows hr) hs).edited_fails hsha hdiff
  refine ⟨fun a b hd => HashArgs.payload_eq_iff hd, ?_, fun x hx hbroken => ?_⟩
  · rw [verify_broken_iff hids hr hfails]
    refine forall₂_congr fun x hx => ?_
    obtain ⟨hx, hlt⟩ := mem_before.mp hx
    cases hn : x.rowHash with
    | none =>
      refine iff_of_true (passes_of_not_hashed ?_) (by simp)
      rw [edited_rowHash, hn]
    | some y =>
      have hxs : x.rowHash.isSome := by rw [hn]; rfl
      have hnone : edits x.id = none := by
        by_contra he
        have := hleast x hx hxs (Option.isSome_iff_ne_none.mpr he)
        omega
      rw [edited_none hnone, (hwritten x hx hxs).passes_iff hsha]
      simp
  · rw [verifyAuditChain, firstRows_map (fun _ => edited_id)] at hbroken
    obtain ⟨pre, r', post, hrows, -, hid, hs'⟩ := verifyRows_broken hbroken
    have hmem : r' ∈ (firstRows limit s.1.rows).map (edited edits) := by
      rw [hrows]
      simp
    obtain ⟨y, hy, rfl⟩ := List.mem_map.mp hmem
    rw [edited_id] at hid
    rw [edited_rowHash, (keyed_of_ids hids).eq_of_key (mem_firstRows hy) (hlegacy x hx) hid,
      legacy.unhashed x hx] at hs'
    cases hs'

end

/-! ## An edit behind two other rows -/

namespace Sample

def midnight : DateTime := ⟨1970, 1, 1, 0, 0, 0, 0⟩

/-- A row without a hash. -/
def legacyRow : AuditLog :=
  { (⟨"AUTH_LOGIN_SUCCESS", some 1, none, none, none, none, none, "INFO"⟩ : Event).row 1 midnight
      none "" with rowHash := none }

def oneLegacy : Legacy where
  rows := [legacyRow]
  ids := List.pairwise_singleton _ _
  unhashed := by simp [legacyRow]

variable (e e' : Event)

def secondRow : AuditLog :=
  e.row 2 midnight none (computeRowHash sha e.eventType e.actorId midnight e.eventData none)

def thirdRow : AuditLog :=
  e'.row 3 midnight (secondRow e).rowHash
    (computeRowHash sha e'.eventType e'.actorId midnight e'.eventData (secondRow e).rowHash)

/-- The log of two events behind a legacy row. -/
def threeRows : AuditWorld where
  entries := [⟨0, legacyRow⟩, ⟨0, secondRow e⟩, ⟨1, thirdRow e e'⟩]
  nextId := 4

theorem threeRows_reach :
    (auditingAfter sha oneLegacy [e, e']).Reach (threeRows e e', [.done true, .done true]) := by
  have h : (auditingAfter sha oneLegacy [e, e']).Reach
      ({ entries := [⟨0, legacyRow⟩], nextId := 2 },
        [.await (.acquire 0 e), .await (.acquire 1 e')]) :=
    .init ⟨rfl, by simp [oneLegacy, legacyRow, Event.row], rfl, rfl⟩
  have hsecond : (auditingAfter sha oneLegacy [e, e']).Reach
      ({ entries := [⟨0, legacyRow⟩, ⟨0, secondRow e⟩], nextId := 3 },
        [.done true, .await (.acquire 1 e')]) :=
    h.run (.cons (a := (0, {})) ⟨_, rfl, rfl⟩ (.cons (a := (0, {})) ⟨_, rfl, rfl⟩
      (.cons (a := (0, {})) ⟨_, rfl, rfl⟩ (.cons (a := (0, {})) ⟨_, rfl, rfl⟩ (.nil _)))))
  exact hsecond.run (.cons (a := (1, {})) ⟨_, rfl, rfl⟩ (.cons (a := (1, {})) ⟨_, rfl, rfl⟩
    (.cons (a := (1, {})) ⟨_, rfl, rfl⟩ (.cons (a := (1, {})) ⟨_, rfl, rfl⟩ (.nil _)))))

/-- The last of the rows is of another user. -/
def edits (id : ℕ) : Option HashArgs :=
  if id = 3 then some { (thirdRow e e').hashArgs with actorId := some 7 } else none

variable (he : e'.actorId = none)

include he

theorem edits_first : FirstEdited (threeRows e e').rows (edits e e') (thirdRow e e') := by
  refine ⟨rfl, ⟨_, rfl, fun h => ?_⟩, fun x _ _ hx => ?_⟩
  · have hactor : some 7 = e'.actorId := h.actorId
    rw [he] at hactor
    cases hactor
  · rw [edits] at hx
    split at hx
    · rename_i hid
      rw [hid]
      rfl
    · cases hx

omit he in
theorem thirdRow_mem : thirdRow e e' ∈ firstRows 500 (threeRows e e').rows :=
  (firstRows_of_length (by simp [threeRows, AuditWorld.rows])).mpr
    (by simp [threeRows, AuditWorld.rows])

end Sample

open Sample in
/-- The result for the third row, when the second one is kept. -/
theorem edits_located_iff_third :
    verifyAuditChain sha 500 ((threeRows loginFailure loginFailure).rows.map
        (edited (edits loginFailure loginFailure))) = ⟨.broken, some 3, 2⟩ := by
  have hkept : loginFailure.data.Kept := by decide
  refine (edits_located_iff sha_injective (by decide) (threeRows_reach loginFailure loginFailure)
    (thirdRow_mem _ _) (edits_first _ _ rfl)).2.1.mpr fun x hx hs => ?_
  obtain ⟨hx, hlt⟩ := mem_before.mp hx
  simp only [threeRows, AuditWorld.rows, List.map_cons, List.map_nil, List.mem_cons,
    List.not_mem_nil, or_false] at hx
  rcases hx with rfl | rfl | rfl
  · cases hs
  · exact hkept
  · exact absurd hlt (Nat.lt_irrefl _)

open Sample in
/-- The first event is the rejection of an order for `1e+16` BTC: the walk breaks at its row,
which nobody edited. -/
theorem edit_not_located :
    ∃ e, rejectedEvents (order "BTCUSDT" .buy 1 16) = some [e] ∧ Function.Injective sha ∧
      (∀ x ∈ [e, loginFailure], x.data.Distinct) ∧
      (auditingAfter sha oneLegacy [e, loginFailure]).Reach
        (threeRows e loginFailure, [.done true, .done true]) ∧
      thirdRow e loginFailure ∈ firstRows 500 (threeRows e loginFailure).rows ∧
      FirstEdited (threeRows e loginFailure).rows (edits e loginFailure)
        (thirdRow e loginFailure) ∧
      verifyAuditChain sha 500 ((threeRows e loginFailure).rows.map
        (edited (edits e loginFailure))) = ⟨.broken, some 2, 1⟩ := by
  obtain ⟨e, hes, hk, hd⟩ :=
    rejectedEvents_one (order "BTCUSDT" .buy 1 16) false (by decide +kernel)
  have hwr : Written sha (secondRow e) := ⟨rfl, hd⟩
  have hfails : ¬(secondRow e).Passes sha := fun hp =>
    absurd ((hwr.passes_iff sha_injective).mp hp) (of_decide_eq_false hk : ¬e.data.Kept)
  have hlogin : loginFailure.data.Distinct := by decide
  refine ⟨e, hes, sha_injective, by simpa using ⟨hd, hlogin⟩, threeRows_reach _ _,
    thirdRow_mem _ _, edits_first _ _ rfl, ?_⟩
  have hids : (threeRows e loginFailure).rows.Pairwise fun a b => a.id < b.id := by
    simp [threeRows, AuditWorld.rows, legacyRow, secondRow, thirdRow, Event.row]
  have hmem : secondRow e ∈ firstRows 500 (threeRows e loginFailure).rows :=
    (firstRows_of_length (by simp [threeRows, AuditWorld.rows])).mpr
      (by simp [threeRows, AuditWorld.rows])
  refine (verify_broken_iff hids hmem (by rwa [edited_none rfl])).mpr fun x hx => ?_
  obtain ⟨hx, hlt⟩ := mem_before.mp hx
  simp only [threeRows, AuditWorld.rows, List.map_cons, List.map_nil, List.mem_cons,
    List.not_mem_nil, or_false] at hx
  rcases hx with rfl | rfl | rfl
  · exact passes_of_not_hashed rfl
  · exact absurd hlt (Nat.lt_irrefl _)
  · exact absurd hlt (by decide : ¬3 < 2)

end CryptoExchange
