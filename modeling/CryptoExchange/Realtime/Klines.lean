import CryptoExchange.Lib.Json
import CryptoExchange.Risk.Leverage

/-!
# The kline stream and the volatility monitor

The loop over the messages of `_connect_and_process` (`app/services/kline_stream.py`), and
`VolatilityMonitor` (`app/risk_engine/volatility.py`). A message is read field by field, and any
field can raise. A closed 1h candle updates the monitor before it is broadcast.

* `handle`: what a message does to the monitor.
* `HourCandle`: the message is a complete, closed 1h candle with a positive open.
* `modifier_follows`: the modifier of a symbol is that of its last such message.
-/

namespace CryptoExchange

open Lib

namespace KlineStream

/-! ## Reading a message -/

/-- `d[k]`. -/
def item (d : Json) (k : String) : Option Json :=
  match d with
  | .obj kvs => kvs.lookup k
  | _ => none

/-- `d.get(k, default)`. -/
def getOr (d : Json) (k : String) (default : Json) : Option Json :=
  match d with
  | .obj kvs => some ((kvs.lookup k).getD default)
  | _ => none

/-- `j == s`, for a text. -/
def isText (j : Json) (s : String) : Bool :=
  match j with
  | .str t => t = s
  | _ => false

/-- `bool(j)`. -/
def truthy : Json → Bool
  | .null => false
  | .bool b => b
  | .int n => n ≠ 0
  | .float x => x.digits ≠ 0
  | .str s => s ≠ ""
  | .arr xs => !xs.isEmpty
  | .obj kvs => !kvs.isEmpty

/-- A message of the stream. -/
structure Message where
  /-- What `json.loads` returns; `none` if it raises. -/
  value : Option Json
  /-- `broadcast_kline` raises. -/
  broadcastFails : Bool := false

structure Candle where
  symbol : Json
  interval : Json
  openTime : Json
  open_ : ℚ
  high : ℚ
  low : ℚ
  close : ℚ
  volume : ℚ
  closeTime : Json
  isClosed : Json

/-- `float(j)`; `none` if it raises. -/
abbrev ToFloat := Json → Option ℚ

section

variable (float : ToFloat)

/-- The dict `candle`. -/
def readCandle (data : Json) : Option Candle := do
  let k ← item data "k"
  let symbol ← item data "s"
  let interval ← item k "i"
  let openTime ← item k "t"
  let open_ ← (item k "o").bind float
  let high ← (item k "h").bind float
  let low ← (item k "l").bind float
  let close ← (item k "c").bind float
  let volume ← (item k "v").bind float
  let closeTime ← item k "T"
  let isClosed ← item k "x"
  return { symbol, interval, openTime, open_, high, low, close, volume, closeTime, isClosed }

/-- The candle of a message: `some none` if it has none, `none` if it raises. -/
def readMessage (m : Message) : Option (Option Candle) := do
  let msg ← m.value
  let data ← getOr msg "data" (.obj [])
  let e ← getOr data "e" .null
  if isText e "kline" then
    let candle ← readCandle float data
    return some candle
  else
    return none

variable (cfg : Config)

/-- `VolatilityMonitor.update`; `none` if it raises. -/
def updateVolatility (vol : Volatility) (symbol interval : Json) (open_ high low : ℚ) :
    Option Volatility :=
  if !isText interval "1h" || open_ ≤ 0 then some vol
  else
    match symbol with
    | .str s => some (Function.update vol (cfg.upper s) (some ((high - low) / open_ * 100)))
    | _ => none

/-- How the handling of a message ends. -/
inductive Handled where
  | raised
  | skipped
  | broadcast
  deriving DecidableEq

/-- The body of the loop. -/
def handle (vol : Volatility) (m : Message) : Volatility × Handled :=
  match readMessage float m with
  | none => (vol, .raised)
  | some none => (vol, .skipped)
  | some (some c) =>
    let updated :=
      if truthy c.isClosed && isText c.interval "1h" then
        updateVolatility cfg vol c.symbol c.interval c.open_ c.high c.low
      else some vol
    match updated with
    | none => (vol, .raised)
    | some vol => (vol, if m.broadcastFails then .raised else .broadcast)

/-- The monitor after the messages; it starts empty. -/
def volatilityAfter (ms : List Message) : Volatility :=
  ms.foldl (fun vol m => (handle float cfg vol m).1) fun _ => none

end

/-! ## Candles -/

/-- The message has all fields of a candle, with the dicts `msg`, `data` and `k`. -/
structure CandleIn (float : ToFloat) (m : Message) (msg data k : Dict) (c : Candle) : Prop where
  msg_eq : m.value = some (.obj msg)
  data_eq : msg.lookup "data" = some (.obj data)
  k_eq : data.lookup "k" = some (.obj k)
  kline : data.lookup "e" = some (.str "kline")
  symbol : data.lookup "s" = some c.symbol
  interval : k.lookup "i" = some c.interval
  openTime : k.lookup "t" = some c.openTime
  open_ : (k.lookup "o").bind float = some c.open_
  high : (k.lookup "h").bind float = some c.high
  low : (k.lookup "l").bind float = some c.low
  close : (k.lookup "c").bind float = some c.close
  volume : (k.lookup "v").bind float = some c.volume
  closeTime : k.lookup "T" = some c.closeTime
  isClosed : k.lookup "x" = some c.isClosed

/-- The message is a complete, closed 1h candle of the symbol with a positive open, and `range` is
its range in percent. -/
def HourCandle (float : ToFloat) (m : Message) (symbol : String) (range : ℚ) : Prop :=
  ∃ msg data k c, CandleIn float m msg data k c ∧ c.symbol = .str symbol ∧
    c.interval = .str "1h" ∧ truthy c.isClosed ∧ 0 < c.open_ ∧
    range = (c.high - c.low) / c.open_ * 100

section

variable {float : ToFloat} {m : Message}

theorem item_eq_some {d : Json} {k : String} {x : Json} :
    item d k = some x ↔ ∃ kvs, d = .obj kvs ∧ kvs.lookup k = some x := by
  cases d <;> simp [item]

/-- A value that is not the default stands in the dict. -/
theorem getOr_eq_some {d : Json} {k : String} {default x : Json} (h : getOr d k default = some x)
    (hx : x ≠ default) : ∃ kvs, d = .obj kvs ∧ kvs.lookup k = some x := by
  cases d with
  | obj kvs =>
    refine ⟨kvs, rfl, ?_⟩
    have hget : (kvs.lookup k).getD default = x := Option.some.inj h
    cases hlookup : kvs.lookup k with
    | none =>
      rw [hlookup] at hget
      exact absurd hget.symm hx
    | some y =>
      rw [hlookup] at hget
      exact congrArg some hget
  | _ => cases h

theorem isText_iff {j : Json} {s : String} : isText j s ↔ j = .str s := by
  cases j <;> simp [isText]

/-- A message is read as a candle only if it has all the fields. -/
theorem readMessage_eq_some {c : Candle} (h : readMessage float m = some (some c)) :
    ∃ msg data k, CandleIn float m msg data k c := by
  obtain ⟨j, hmsg, h⟩ := Option.bind_eq_some_iff.mp h
  obtain ⟨j', hdata, h⟩ := Option.bind_eq_some_iff.mp h
  obtain ⟨e, he, h⟩ := Option.bind_eq_some_iff.mp h
  split at h
  · rename_i hkline
    rw [isText_iff] at hkline
    subst hkline
    obtain ⟨c', h, hc⟩ := Option.bind_eq_some_iff.mp h
    cases hc
    obtain ⟨j'', hk, h⟩ := Option.bind_eq_some_iff.mp h
    obtain ⟨symbol, hs, h⟩ := Option.bind_eq_some_iff.mp h
    obtain ⟨interval, hi, h⟩ := Option.bind_eq_some_iff.mp h
    obtain ⟨openTime, ht, h⟩ := Option.bind_eq_some_iff.mp h
    obtain ⟨open_, ho, h⟩ := Option.bind_eq_some_iff.mp h
    obtain ⟨high, hh, h⟩ := Option.bind_eq_some_iff.mp h
    obtain ⟨low, hl, h⟩ := Option.bind_eq_some_iff.mp h
    obtain ⟨close, hc, h⟩ := Option.bind_eq_some_iff.mp h
    obtain ⟨volume, hv, h⟩ := Option.bind_eq_some_iff.mp h
    obtain ⟨closeTime, ht', h⟩ := Option.bind_eq_some_iff.mp h
    obtain ⟨isClosed, hx, h⟩ := Option.bind_eq_some_iff.mp h
    cases h
    obtain ⟨data, rfl, hk⟩ := item_eq_some.mp hk
    obtain ⟨k, rfl, hi⟩ := item_eq_some.mp hi
    have hne : Json.obj data ≠ .obj [] := by
      rintro ⟨⟩
      cases hk
    obtain ⟨msg, rfl, hdata'⟩ := getOr_eq_some hdata hne
    obtain ⟨_, ⟨⟩, he⟩ := getOr_eq_some he (by simp)
    exact ⟨msg, data, k, hmsg, hdata', hk, he, hs, hi, ht, ho, hh, hl, hc, hv, ht', hx⟩
  · cases h

theorem CandleIn.read {msg data k : Dict} {c : Candle} (h : CandleIn float m msg data k c) :
    readMessage float m = some (some c) := by
  obtain ⟨hmsg, hdata, hk, he, hs, hi, ht, ho, hh, hl, hc, hv, ht', hx⟩ := h
  have hcandle : readCandle float (.obj data) = some c := by
    refine Option.bind_eq_some_iff.mpr ⟨.obj k, hk, ?_⟩
    refine Option.bind_eq_some_iff.mpr ⟨c.symbol, hs, ?_⟩
    refine Option.bind_eq_some_iff.mpr ⟨c.interval, hi, ?_⟩
    refine Option.bind_eq_some_iff.mpr ⟨c.openTime, ht, ?_⟩
    refine Option.bind_eq_some_iff.mpr ⟨c.open_, ho, ?_⟩
    refine Option.bind_eq_some_iff.mpr ⟨c.high, hh, ?_⟩
    refine Option.bind_eq_some_iff.mpr ⟨c.low, hl, ?_⟩
    refine Option.bind_eq_some_iff.mpr ⟨c.close, hc, ?_⟩
    refine Option.bind_eq_some_iff.mpr ⟨c.volume, hv, ?_⟩
    refine Option.bind_eq_some_iff.mpr ⟨c.closeTime, ht', ?_⟩
    exact Option.bind_eq_some_iff.mpr ⟨c.isClosed, hx, rfl⟩
  have hget : getOr (.obj msg) "data" (.obj []) = some (.obj data) := by
    rw [getOr, hdata]
    rfl
  have hkline : getOr (.obj data) "e" .null = some (.str "kline") := by
    rw [getOr, he]
    rfl
  simp [readMessage, hmsg, hget, hkline, isText, hcandle]

variable {cfg : Config} {vol : Volatility} {symbol : String} {range : ℚ}

/-- A closed 1h candle replaces the range of its symbol, whether it is broadcast or not. -/
theorem handle_hourCandle (h : HourCandle float m symbol range) :
    (handle float cfg vol m).1 = Function.update vol (cfg.upper symbol) (some range) := by
  obtain ⟨msg, data, k, c, hc, hs, hi, hx, ho, rfl⟩ := h
  have hinterval : isText c.interval "1h" := isText_iff.mpr hi
  simp only [handle, hc.read, hx, hinterval, updateVolatility, hs, Bool.and_self, Bool.not_true,
    Bool.false_or, decide_eq_true_eq, not_le.mpr ho, if_true, if_false]

theorem updateVolatility_eq_some {vol' : Volatility} {symbol interval : Json} {open_ high low : ℚ}
    (h : updateVolatility cfg vol symbol interval open_ high low = some vol') :
    vol' = vol ∨ ∃ s, symbol = .str s ∧ interval = .str "1h" ∧ 0 < open_ := by
  unfold updateVolatility at h
  split at h
  · exact .inl (Option.some.inj h).symm
  · rename_i hguard
    simp only [Bool.or_eq_true, Bool.not_eq_true', decide_eq_true_eq, not_or, Bool.not_eq_false,
      isText_iff, not_le] at hguard
    cases symbol with
    | str s => exact .inr ⟨s, rfl, hguard⟩
    | _ => cases h

/-- Nothing else changes the monitor. -/
theorem handle_other (h : ∀ symbol range, ¬HourCandle float m symbol range) :
    (handle float cfg vol m).1 = vol := by
  unfold handle
  split
  · rfl
  · rfl
  · rename_i c hread
    obtain ⟨msg, data, k, hc⟩ := readMessage_eq_some hread
    dsimp only
    split
    · rfl
    · rename_i vol' hupdated
      split at hupdated
      · rename_i hclosed
        rw [Bool.and_eq_true] at hclosed
        rcases updateVolatility_eq_some hupdated with rfl | ⟨s, hs, hi, ho⟩
        · rfl
        · exact absurd ⟨msg, data, k, c, hc, hs, hi, hclosed.1, ho, rfl⟩ (h s _)
      · exact (Option.some.inj hupdated).symm

/-! ## Runs -/

/-- The message is such a candle of the symbol, in whatever case. -/
def IsFor (float : ToFloat) (cfg : Config) (symbol : String) (m : Message) (range : ℚ) : Prop :=
  ∃ s, HourCandle float m s range ∧ cfg.upper s = cfg.upper symbol

theorem handle_isFor (h : IsFor float cfg symbol m range) :
    (handle float cfg vol m).1 (cfg.upper symbol) = some range := by
  obtain ⟨s, hcandle, hupper⟩ := h
  rw [handle_hourCandle hcandle, hupper, Function.update_self]

theorem handle_not_isFor (h : ∀ range, ¬IsFor float cfg symbol m range) :
    (handle float cfg vol m).1 (cfg.upper symbol) = vol (cfg.upper symbol) := by
  by_cases hm : ∃ s range, HourCandle float m s range
  · obtain ⟨s, range, hcandle⟩ := hm
    have hne : cfg.upper symbol ≠ cfg.upper s := fun e => h range ⟨s, hcandle, e.symm⟩
    rw [handle_hourCandle hcandle, Function.update_of_ne hne]
  · rw [handle_other fun s range hc => hm ⟨s, range, hc⟩]

theorem volatilityAfter_append (ms ms' : List Message) :
    volatilityAfter float cfg (ms ++ ms') =
      ms'.foldl (fun vol m => (handle float cfg vol m).1) (volatilityAfter float cfg ms) :=
  List.foldl_append

/-- What a message makes of a range does not depend on the other ranges. -/
theorem foldl_congr {ms : List Message} {vol' : Volatility}
    (h : vol (cfg.upper symbol) = vol' (cfg.upper symbol)) :
    ms.foldl (fun vol m => (handle float cfg vol m).1) vol (cfg.upper symbol) =
      ms.foldl (fun vol m => (handle float cfg vol m).1) vol' (cfg.upper symbol) := by
  induction ms generalizing vol vol' with
  | nil => exact h
  | cons m ms ih =>
    refine ih ?_
    show (handle float cfg vol m).1 (cfg.upper symbol) =
      (handle float cfg vol' m).1 (cfg.upper symbol)
    by_cases hm : ∃ range, IsFor float cfg symbol m range
    · obtain ⟨range, hm⟩ := hm
      rw [handle_isFor hm, handle_isFor hm]
    · have hnot : ∀ range, ¬IsFor float cfg symbol m range := fun range h => hm ⟨range, h⟩
      rw [handle_not_isFor hnot, handle_not_isFor hnot, h]

/-- Messages without a candle of the symbol keep its range. -/
theorem foldl_symbol {ms : List Message} (h : ∀ m ∈ ms, ∀ range, ¬IsFor float cfg symbol m range) :
    ms.foldl (fun vol m => (handle float cfg vol m).1) vol (cfg.upper symbol) =
      vol (cfg.upper symbol) := by
  induction ms generalizing vol with
  | nil => rfl
  | cons m ms ih =>
    rw [List.foldl_cons, ih fun m' hm => h m' (List.mem_cons_of_mem _ hm)]
    exact handle_not_isFor (h m List.mem_cons_self)

end

/-! ## The modifier of the last candle -/

/-- **The last hourly candle.** The modifier of a symbol is the one of the last message that is a
complete, closed 1h candle of it with a positive open, and 1 without one. Every other message could
as well be missing; one that is no such candle of any symbol leaves the whole monitor as it is. -/
theorem modifier_follows (float : ToFloat) (cfg : Config) (symbol : String) :
    (∀ ms m ms' range, IsFor float cfg symbol m range →
      (∀ m' ∈ ms', ∀ range', ¬IsFor float cfg symbol m' range') →
      getModifier cfg (volatilityAfter float cfg (ms ++ m :: ms')) symbol =
        bandModifier range volatilityBands) ∧
    (∀ ms, (∀ m ∈ ms, ∀ range, ¬IsFor float cfg symbol m range) →
      getModifier cfg (volatilityAfter float cfg ms) symbol = 1) ∧
    (∀ ms m ms', (∀ range, ¬IsFor float cfg symbol m range) →
      getModifier cfg (volatilityAfter float cfg (ms ++ m :: ms')) symbol =
        getModifier cfg (volatilityAfter float cfg (ms ++ ms')) symbol) ∧
    (∀ vol m, (∀ s range, ¬HourCandle float m s range) → (handle float cfg vol m).1 = vol) ∧
    ∀ range range' : ℚ, range ≤ range' →
      bandModifier range' volatilityBands ≤ bandModifier range volatilityBands := by
  refine ⟨fun ms m ms' range hm hms' => ?_, fun ms hms => ?_, fun ms m ms' hm => ?_,
    fun vol m h => handle_other h, fun _ _ h => bandModifier_antitone h ?_ ?_⟩
  · have hvol : volatilityAfter float cfg (ms ++ m :: ms') (cfg.upper symbol) = some range := by
      rw [volatilityAfter_append, List.foldl_cons, foldl_symbol hms', handle_isFor hm]
    rw [getModifier, hvol]
    rfl
  · have hvol : volatilityAfter float cfg ms (cfg.upper symbol) = none := foldl_symbol hms
    rw [getModifier, hvol]
    norm_num [bandModifier, volatilityBands]
  · rw [getModifier, getModifier, volatilityAfter_append, volatilityAfter_append, List.foldl_cons,
      foldl_congr (handle_not_isFor hm)]
  · norm_num [volatilityBands]
  · norm_num [volatilityBands]

end KlineStream

/-! ## A candle and messages behind it -/

namespace Sample

open KlineStream

/-- `float` of an integer. -/
def floatOf : ToFloat
  | .int n => some n
  | _ => none

/-- A 1h candle of BTCUSDT with an open of 100. -/
def hourCandle (high low volume : Json) (isClosed : Bool) : Message where
  value := some (.obj
    [("stream", .str "btcusdt@kline_1h"),
     ("data", .obj
      [("e", .str "kline"), ("s", .str "BTCUSDT"),
       ("k", .obj
        [("t", .int 0), ("T", .int 3599999), ("s", .str "BTCUSDT"), ("i", .str "1h"),
         ("o", .int 100), ("c", .int 100), ("h", high), ("l", low), ("v", volume),
         ("x", .bool isClosed)])])])

theorem hourCandle_isFor (cfg : Config) :
    IsFor floatOf cfg "BTCUSDT" (hourCandle (.int 108) (.int 93) (.int 7) true) 15 := by
  refine ⟨"BTCUSDT", ⟨_, _, _, ⟨.str "BTCUSDT", .str "1h", .int 0, 100, 108, 93, 100, 7,
    .int 3599999, .bool true⟩, ⟨rfl, rfl, rfl, rfl, rfl, rfl, rfl, rfl, rfl, rfl, rfl, rfl, rfl,
    rfl⟩, rfl, rfl, rfl, ?_, ?_⟩, rfl⟩
  · norm_num
  · norm_num

/-- A volume that is no number. -/
theorem malformed_not (cfg : Config) (s : String) (range : ℚ) :
    ¬IsFor floatOf cfg s (hourCandle (.int 101) (.int 99) .null true) range := by
  rintro ⟨s', ⟨msg, data, k, c, hc, -⟩, -⟩
  have hread := hc.read
  have : readMessage floatOf (hourCandle (.int 101) (.int 99) .null true) = none := rfl
  rw [this] at hread
  cases hread

end Sample

open Sample KlineStream in
/-- The result for a candle with a range of 15 % and a malformed message behind it. -/
theorem modifier_follows_sample :
    getModifier config (volatilityAfter floatOf config
      [hourCandle (.int 108) (.int 93) (.int 7) true,
        hourCandle (.int 101) (.int 99) .null true]) "BTCUSDT" = 1 / 2 := by
  have h := (modifier_follows floatOf config "BTCUSDT").1 [] _
    [hourCandle (.int 101) (.int 99) .null true] 15 (hourCandle_isFor config)
    fun m hm range => by
      rw [List.mem_singleton.mp hm]
      exact malformed_not _ _ _
  rw [List.nil_append] at h
  rw [h]
  decide +kernel

end CryptoExchange
