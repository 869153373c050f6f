import CryptoExchange.Lib.JsonOrder

/-!
# Reading JSON texts

* `Json.compact`: the text with separators that have no blanks and with no character escaped that
  need not be (`json.dumps(value, ensure_ascii=False, separators=(",", ":"))`).
* `Json.loads`: `json.loads`. It is a parser with fuel; twice the length of the text is enough.
* `Json.Plain`: values of strings, integers, nulls, lists and dicts.
* `loads_compact`: a plain value is read back from its compact text.
-/

namespace Lib

/-! ## Strings -/

/-- What a character of a string prints without `ensure_ascii`. -/
def escapeRaw (c : Char) : List Char :=
  if c = '"' then ['\\', '"']
  else if c = '\\' then ['\\', '\\']
  else if c = '\n' then ['\\', 'n']
  else if c = '\r' then ['\\', 'r']
  else if c = '\t' then ['\\', 't']
  else if c = '\x0c' then ['\\', 'f']
  else if c = '\x08' then ['\\', 'b']
  else if c.toNat < 0x20 then unicodeEscape c.toNat
  else [c]

def quoteRaw (s : String) : List Char := '"' :: (s.toList.flatMap escapeRaw ++ ['"'])

/-- The character behind a backslash, `\u` apart. -/
def backslash : Char → Option Char
  | '"' => some '"'
  | '\\' => some '\\'
  | '/' => some '/'
  | 'b' => some '\x08'
  | 'f' => some '\x0c'
  | 'n' => some '\n'
  | 'r' => some '\r'
  | 't' => some '\t'
  | _ => none

def isHex (c : Char) : Bool :=
  c.isDigit || ('a' ≤ c && c ≤ 'f') || ('A' ≤ c && c ≤ 'F')

/-- The value of four hexadecimal digits at the front. -/
def scanHex : List Char → Option (ℕ × List Char)
  | a :: b :: c :: d :: r =>
    if isHex a && isHex b && isHex c && isHex d then
      some (hexValue a.toLower b.toLower c.toLower d.toLower, r)
    else none
  | _ => none

/-- One character of a string. A surrogate by itself is no character. -/
def scanChar : List Char → Option (Char × List Char)
  | '\\' :: 'u' :: r =>
    match scanHex r with
    | none => none
    | some (hi, r) =>
      if 0xd800 ≤ hi ∧ hi < 0xdc00 then
        match r with
        | '\\' :: 'u' :: r =>
          match scanHex r with
          | none => none
          | some (lo, r) =>
            if 0xdc00 ≤ lo ∧ lo < 0xe000 then
              some (.ofNat (0x10000 + (hi - 0xd800) * 0x400 + (lo - 0xdc00)), r)
            else none
        | _ => none
      else if 0xdc00 ≤ hi ∧ hi < 0xe000 then none
      else some (.ofNat hi, r)
  | '\\' :: c :: r => (backslash c).map fun c => (c, r)
  | c :: r => if c.toNat < 0x20 then none else some (c, r)
  | [] => none

/-- A string behind its opening quote. -/
def scanString : ℕ → List Char → Option (List Char × List Char)
  | 0, _ => none
  | fuel + 1, cs =>
    match cs with
    | '"' :: r => some ([], r)
    | cs =>
      match scanChar cs with
      | none => none
      | some (c, r) => (scanString fuel r).map fun (s, r) => (c :: s, r)

theorem scanHex_hex4 {n : ℕ} (h : n < 0x10000) (r : List Char) :
    scanHex (hex4 n ++ r) = some (n, r) := by
  have hdigit : ∀ d : Fin 16, isHex (Nat.digitChar d) ∧ (Nat.digitChar d).toLower =
      Nat.digitChar d := by decide
  have hd : ∀ n : ℕ, isHex (Nat.digitChar (n % 16)) ∧ (Nat.digitChar (n % 16)).toLower =
      Nat.digitChar (n % 16) := fun n => hdigit ⟨n % 16, Nat.mod_lt _ (by decide)⟩
  simp only [hex4, List.cons_append, List.nil_append, scanHex, (hd _).1, (hd _).2, Bool.and_self,
    if_true, hexValue_hex4 h]

theorem scanChar_escapeRaw (c : Char) (r : List Char) :
    scanChar (escapeRaw c ++ r) = some (c, r) := by
  by_cases hq : c = '"'
  · subst hq; rfl
  by_cases hb : c = '\\'
  · subst hb; rfl
  by_cases hn : c = '\n'
  · subst hn; rfl
  by_cases hr : c = '\r'
  · subst hr; rfl
  by_cases ht : c = '\t'
  · subst ht; rfl
  by_cases hf : c = '\x0c'
  · subst hf; rfl
  by_cases h8 : c = '\x08'
  · subst h8; rfl
  rw [escapeRaw, if_neg hq, if_neg hb, if_neg hn, if_neg hr, if_neg ht, if_neg hf, if_neg h8]
  by_cases hc : c.toNat < 0x20
  · rw [if_pos hc]
    have h16 : c.toNat < 0x10000 := by omega
    simp only [unicodeEscape, List.cons_append, scanChar, scanHex_hex4 h16]
    rw [if_neg (by omega), if_neg (by omega), Char.ofNat_toNat]
  · rw [if_neg hc, List.singleton_append]
    unfold scanChar
    split
    · rename_i h; exact absurd (List.cons.inj h).1 hb
    · rename_i h; exact absurd (List.cons.inj h).1 hb
    · rename_i h; cases h; rw [if_neg hc]
    · rename_i h; cases h

/-- An escaped character starts with no quote. -/
theorem escapeRaw_cons (c : Char) : ∃ d ds, escapeRaw c = d :: ds ∧ d ≠ '"' := by
  have hscan := scanChar_escapeRaw c []
  rw [List.append_nil] at hscan
  cases he : escapeRaw c with
  | nil => rw [he] at hscan; cases hscan
  | cons d ds =>
    refine ⟨d, ds, rfl, ?_⟩
    rintro rfl
    rw [he] at hscan
    cases hscan
    cases he

theorem scanString_escapeRaw (cs r : List Char) (fuel : ℕ) (h : cs.length < fuel) :
    scanString fuel (cs.flatMap escapeRaw ++ '"' :: r) = some (cs, r) := by
  induction cs generalizing fuel with
  | nil =>
    obtain ⟨fuel, rfl⟩ := Nat.exists_eq_succ_of_ne_zero (Nat.ne_of_gt h)
    rfl
  | cons c cs ih =>
    obtain ⟨fuel, rfl⟩ := Nat.exists_eq_succ_of_ne_zero (Nat.ne_of_gt (Nat.zero_lt_of_lt h))
    obtain ⟨d, ds, he, hd⟩ := escapeRaw_cons c
    have hscan := scanChar_escapeRaw c (cs.flatMap escapeRaw ++ '"' :: r)
    rw [List.flatMap_cons, List.append_assoc]
    rw [he, List.cons_append] at hscan ⊢
    unfold scanString
    split
    · rename_i hq
      exact absurd (List.cons.inj hq).1 hd
    · rw [hscan]
      simp only [ih fuel (Nat.lt_of_succ_lt_succ h), Option.map_some]

theorem length_le_flatMap_escapeRaw (cs : List Char) :
    cs.length ≤ (cs.flatMap escapeRaw).length := by
  induction cs with
  | nil => exact Nat.le_refl _
  | cons c cs ih =>
    obtain ⟨d, ds, he, -⟩ := escapeRaw_cons c
    rw [List.flatMap_cons, he, List.length_append, List.length_cons, List.length_cons]
    omega

/-- A quoted string is read off the front of a text. -/
theorem scanString_quoteRaw (s : String) (r : List Char) :
    ∃ cs, quoteRaw s ++ r = '"' :: cs ∧
      (scanString cs.length cs).map (Prod.map String.ofList id) = some (s, r) := by
  refine ⟨s.toList.flatMap escapeRaw ++ '"' :: r, by simp [quoteRaw], ?_⟩
  have hlen := length_le_flatMap_escapeRaw s.toList
  rw [scanString_escapeRaw _ _ _ (by simp only [List.length_append, List.length_cons]; omega)]
  simp [String.ofList_toList]

/-! ## Numbers -/

def scanSign : List Char → Bool × List Char
  | '-' :: r => (true, r)
  | r => (false, r)

/-- The digits at the front; behind a zero there are none. -/
def scanWhole : List Char → List Char × List Char
  | '0' :: r => (['0'], r)
  | cs => (cs.takeWhile Char.isDigit, cs.dropWhile Char.isDigit)

/-- A point with digits behind it. -/
def scanFraction (cs : List Char) : List Char × List Char :=
  match cs with
  | '.' :: r =>
    if r.takeWhile Char.isDigit = [] then ([], cs)
    else (r.takeWhile Char.isDigit, r.dropWhile Char.isDigit)
  | _ => ([], cs)

/-- An exponent with digits behind its sign. -/
def scanExponent (cs : List Char) : Option ℤ × List Char :=
  match cs with
  | [] => (none, [])
  | e :: r =>
    let (neg, ds) := match r with
      | '+' :: ds => (false, ds)
      | ds => scanSign ds
    let n : ℕ := Nat.ofDigitChars 10 (ds.takeWhile Char.isDigit) 0
    if (e = 'e' ∨ e = 'E') ∧ ds.takeWhile Char.isDigit ≠ [] then
      (some (if neg then -n else n), ds.dropWhile Char.isDigit)
    else (none, cs)

/-- A number at the front of a text, as long as it gets. -/
def scanNumber (cs : List Char) : Option (Numeral × List Char) :=
  let (neg, r) := scanSign cs
  let (whole, r) := scanWhole r
  let (fraction, r) := scanFraction r
  let (exp, r) := scanExponent r
  if whole = [] then none
  else some (⟨neg, Nat.ofDigitChars 10 (whole ++ fraction) 0, fraction.length, exp⟩, r)

theorem toDigits_head {n : ℕ} (h : n ≠ 0) : (Nat.toDigits 10 n).head? ≠ some '0' := by
  induction n using Nat.strongRecOn with
  | _ n ih =>
    by_cases hn : n < 10
    · rw [Nat.toDigits_of_lt_base hn]
      have : ∀ d : Fin 10, d ≠ 0 → [Nat.digitChar d].head? ≠ some '0' := by decide
      exact this ⟨n, hn⟩ (by simpa [Fin.ext_iff] using h)
    · rw [Nat.toDigits_of_base_le (by decide) (by omega)]
      have hpos : n / 10 ≠ 0 := by omega
      rw [List.head?_append_of_ne_nil _ Nat.toDigits_ne_nil]
      exact ih (n / 10) (by omega) hpos

/-- The digits of a number are read off the front of a text whose rest is no part of it. -/
theorem scanWhole_toDigits (n : ℕ) {r : List Char} (hr : ∀ c ∈ r.head?, c.isDigit = false) :
    scanWhole (Nat.toDigits 10 n ++ r) = (Nat.toDigits 10 n, r) := by
  by_cases hn : n = 0
  · subst hn
    rfl
  · have hspan := span_append (p := Char.isDigit) (l := Nat.toDigits 10 n)
      (fun c hc => Nat.isDigit_of_mem_toDigits (by decide) (by decide) hc) hr
    unfold scanWhole
    split
    · rename_i r' h
      have hhead := congrArg List.head? h
      rw [List.head?_append_of_ne_nil _ Nat.toDigits_ne_nil] at hhead
      exact absurd hhead (toDigits_head hn)
    · rw [hspan.1, hspan.2]

theorem chars_ofInt (n : ℤ) : (Numeral.ofInt n).chars =
    (if n < 0 then ['-'] else []) ++ Nat.toDigits 10 n.natAbs := by
  have hpad : padLeft 1 (Nat.toDigits 10 n.natAbs) = Nat.toDigits 10 n.natAbs := by
    have : 1 - (Nat.toDigits 10 n.natAbs).length = 0 := by
      have := Nat.length_toDigits_pos (b := 10) (n := n.natAbs)
      omega
    rw [padLeft, this, List.replicate_zero, List.nil_append]
  simp [Numeral.chars, Numeral.ofInt, Numeral.digits, Numeral.expChars, hpad]

/-- An integer is read off the front of a text. -/
theorem scanNumber_ofInt (n : ℤ) {r : List Char} (hr : Ends r) :
    scanNumber ((Numeral.ofInt n).chars ++ r) = some (Numeral.ofInt n, r) := by
  have hdigit : ∀ c ∈ r.head?, c.isDigit = false := by
    intro c hc
    rcases hr c hc with rfl | rfl | rfl <;> decide
  have hfraction : scanFraction r = ([], r) := by
    unfold scanFraction
    split
    · exact absurd (hr '.' rfl) (by decide)
    · rfl
  have hexponent : scanExponent r = (none, r) := by
    unfold scanExponent
    split
    · rfl
    · rename_i e r'
      have he : ¬(e = 'e' ∨ e = 'E') := by
        rcases hr e rfl with rfl | rfl | rfl <;> decide
      simp only [he, false_and, if_false]
  have hsign : scanSign ((Numeral.ofInt n).chars ++ r) =
      (decide (n < 0), Nat.toDigits 10 n.natAbs ++ r) := by
    rw [chars_ofInt]
    by_cases hn : n < 0
    · rw [if_pos hn, decide_eq_true hn]
      rfl
    · rw [if_neg hn, decide_eq_false hn, List.nil_append]
      unfold scanSign
      split
      · rename_i r' h
        have hhead := congrArg List.head? h
        rw [List.head?_append_of_ne_nil _ Nat.toDigits_ne_nil] at hhead
        have := Nat.isDigit_of_mem_toDigits (by decide) (by decide) (List.mem_of_head? hhead)
        exact absurd this (by decide)
      · rfl
  rw [scanNumber, hsign]
  simp only [scanWhole_toDigits _ hdigit, hfraction, hexponent, Nat.toDigits_ne_nil, if_false,
    List.append_nil, Nat.ofDigitChars_ten_toDigits, List.length_nil]
  rfl

/-! ## Values -/

/-- The items of a list or a dict, with no blanks between them. -/
def commas : List (List Char) → List Char
  | [] => []
  | [t] => t
  | t :: u :: ts => t ++ ',' :: commas (u :: ts)

def isBlank (c : Char) : Bool := c = ' ' || c = '\t' || c = '\n' || c = '\r'

def skipBlanks (cs : List Char) : List Char := cs.dropWhile isBlank

namespace Json

mutual

/-- `json.dumps(value, ensure_ascii=False, separators=(",", ":"))`. -/
def compact : Json → List Char
  | .null => "null".toList
  | .bool true => "true".toList
  | .bool false => "false".toList
  | .int n => (Numeral.ofInt n).chars
  | .float x => x.repr.chars
  | .str s => quoteRaw s
  | .arr xs => '[' :: (commas (compactItems xs) ++ [']'])
  | .obj kvs => '{' :: (commas (compactMembers kvs) ++ ['}'])

def compactItems : List Json → List (List Char)
  | [] => []
  | x :: xs => compact x :: compactItems xs

def compactMembers : List (String × Json) → List (List Char)
  | [] => []
  | (k, x) :: kvs => (quoteRaw k ++ ':' :: compact x) :: compactMembers kvs

end

theorem compactItems_eq (xs : List Json) : compactItems xs = xs.map compact := by
  induction xs with
  | nil => rfl
  | cons x xs ih => rw [compactItems, ih, List.map_cons]

def compactMember (kv : String × Json) : List Char := quoteRaw kv.1 ++ ':' :: compact kv.2

theorem compactMembers_eq (kvs : Dict) : compactMembers kvs = kvs.map compactMember := by
  induction kvs with
  | nil => rfl
  | cons kv kvs ih => rw [compactMembers, ih, List.map_cons, compactMember]

/-- `d[k] = x`. -/
def setKey (d : Dict) (k : String) (x : Json) : Dict :=
  if k ∈ d.map Prod.fst then d.map fun kv => if kv.1 = k then (k, x) else kv else d ++ [(k, x)]

/-- `dict(pairs)`: the last value of a key stands where the key came first. -/
def dict (pairs : List (String × Json)) : Dict := pairs.foldl (fun d kv => setKey d kv.1 kv.2) []

mutual

/-- The value at the front of a text, and the rest. The floats `NaN` and `Infinity` are no
values. -/
def scanValue : ℕ → List Char → Option (Json × List Char)
  | 0, _ => none
  | fuel + 1, cs =>
    match skipBlanks cs with
    | '"' :: r => (scanString r.length r).map fun (s, r) => (.str (.ofList s), r)
    | '[' :: r =>
      match skipBlanks r with
      | ']' :: r => some (.arr [], r)
      | r => (scanItems fuel r).map fun (xs, r) => (.arr xs, r)
    | '{' :: r =>
      match skipBlanks r with
      | '}' :: r => some (.obj [], r)
      | r => (scanMembers fuel r).map fun (kvs, r) => (.obj (dict kvs), r)
    | 'n' :: 'u' :: 'l' :: 'l' :: r => some (.null, r)
    | 't' :: 'r' :: 'u' :: 'e' :: r => some (.bool true, r)
    | 'f' :: 'a' :: 'l' :: 's' :: 'e' :: r => some (.bool false, r)
    | cs => (scanNumber cs).bind fun (n, r) => (ofNumeral n).map fun x => (x, r)

/-- The items up to the end of the list. -/
def scanItems : ℕ → List Char → Option (List Json × List Char)
  | 0, _ => none
  | fuel + 1, cs =>
    (scanValue fuel cs).bind fun (x, r) =>
      match skipBlanks r with
      | ',' :: r => (scanItems fuel r).map fun (xs, r) => (x :: xs, r)
      | ']' :: r => some ([x], r)
      | _ => none

/-- The members up to the end of the dict. -/
def scanMembers : ℕ → List Char → Option (List (String × Json) × List Char)
  | 0, _ => none
  | fuel + 1, cs =>
    match skipBlanks cs with
    | '"' :: r =>
      (scanString r.length r).bind fun (k, r) =>
        match skipBlanks r with
        | ':' :: r =>
          (scanValue fuel r).bind fun (x, r) =>
            match skipBlanks r with
            | ',' :: r => (scanMembers fuel r).map fun (kvs, r) => ((.ofList k, x) :: kvs, r)
            | '}' :: r => some ([(.ofList k, x)], r)
            | _ => none
        | _ => none
    | _ => none

end

/-- `json.loads`. -/
def loads (cs : List Char) : Option Json :=
  (scanValue (2 * cs.length) cs).bind fun (x, r) => if skipBlanks r = [] then some x else none

/-! ## Plain values -/

/-- A value of strings, integers, nulls, lists and dicts. -/
inductive Plain : Json → Prop
  | null : Plain .null
  | int (n : ℤ) : Plain (.int n)
  | str (s : String) : Plain (.str s)
  | arr {xs : List Json} : (∀ x ∈ xs, Plain x) → Plain (.arr xs)
  | obj {kvs : Dict} : Keyed Prod.fst kvs → (∀ kv ∈ kvs, Plain kv.2) → Plain (.obj kvs)

theorem Plain.distinct {j : Json} (h : Plain j) : Distinct j := by
  induction h with
  | null | int | str => trivial
  | arr _ ih => exact distinct_arr.mpr ih
  | obj hk _ ih => exact distinct_obj.mpr ⟨hk, ih⟩

theorem plain_arr {xs : List Json} : Plain (.arr xs) ↔ ∀ x ∈ xs, Plain x :=
  ⟨fun h => by cases h; assumption, .arr⟩

theorem plain_obj {kvs : Dict} :
    Plain (.obj kvs) ↔ Keyed Prod.fst kvs ∧ ∀ kv ∈ kvs, Plain kv.2 :=
  ⟨fun h => by cases h with | obj hk h => exact ⟨hk, h⟩, fun h => .obj h.1 h.2⟩

theorem Reordered.plain {a b : Json} (h : Reordered a b) (ha : Plain a) : Plain b := by
  induction h with
  | refl => exact ha
  | trans _ _ ih ih' => exact ih' (ih ha)
  | perm h =>
    rw [plain_obj] at ha ⊢
    exact ⟨(h.map Prod.fst).nodup_iff.mp ha.1, fun kv hkv => ha.2 kv (h.mem_iff.mpr hkv)⟩
  | item xs ys _ ih =>
    simp only [plain_arr, List.forall_mem_append, List.forall_mem_cons] at ha ⊢
    exact ⟨ha.1, ih ha.2.1, ha.2.2⟩
  | member k kvs kvs' _ ih =>
    simp only [plain_obj, List.forall_mem_append, List.forall_mem_cons] at ha ⊢
    exact ⟨by simpa [Keyed] using ha.1, ha.2.1, ih ha.2.2.1, ha.2.2.2⟩

/-! ## Reading a compact text -/

theorem skipBlanks_cons {c : Char} (h : isBlank c = false) (r : List Char) :
    skipBlanks (c :: r) = c :: r := by
  simp [skipBlanks, h]

theorem dict_keyed {kvs : Dict} (h : Keyed Prod.fst kvs) : dict kvs = kvs := by
  have key : ∀ pre : Dict, Keyed Prod.fst (pre ++ kvs) →
      kvs.foldl (fun d kv => setKey d kv.1 kv.2) pre = pre ++ kvs := by
    clear h
    induction kvs with
    | nil => simp
    | cons kv kvs ih =>
      intro pre hk
      have hnew : kv.1 ∉ pre.map Prod.fst := by
        rw [Keyed, List.map_append, List.nodup_append] at hk
        exact fun hm => hk.2.2 _ hm _ List.mem_cons_self rfl
      rw [List.foldl_cons, setKey, if_neg hnew, ih (pre ++ [(kv.1, kv.2)]) (by simpa using hk)]
      simp
  exact key [] h

theorem ofNumeral_int (n : ℤ) : ofNumeral (Numeral.ofInt n) = some (.int n) := by
  rw [ofNumeral, if_pos ⟨rfl, rfl⟩]
  simp only [Numeral.ofInt, decide_eq_true_eq]
  congr 2
  split <;> omega

/-- The value is read off the front of a text. -/
def Scans (j : Json) : Prop :=
  ∀ fuel r, Ends r → 2 * (compact j ++ r).length ≤ fuel →
    scanValue fuel (compact j ++ r) = some (j, r)

theorem isBlank_of_isChar {c : Char} (h : Numeral.IsChar c) : isBlank c = false := by
  by_contra hb
  simp only [Bool.not_eq_false, isBlank, Bool.or_eq_true, decide_eq_true_eq] at hb
  rcases hb with ((rfl | rfl) | rfl) | rfl <;> revert h <;> decide

theorem scans_int (n : ℤ) : Scans (.int n) := by
  intro fuel r hr hfuel
  obtain ⟨c, cs, hc⟩ := List.exists_cons_of_ne_nil (Numeral.ofInt n).chars_ne_nil
  have hchar : Numeral.IsChar c := (Numeral.ofInt n).isChar_chars c (by rw [hc]; simp)
  have hscan := scanNumber_ofInt n hr
  rw [compact] at hfuel ⊢
  rw [hc, List.cons_append] at hfuel hscan ⊢
  obtain ⟨fuel, rfl⟩ := Nat.exists_eq_succ_of_ne_zero (n := fuel) (by
    rw [List.length_cons] at hfuel
    omega)
  -- no other value starts like a number
  have hne : ∀ d, Numeral.IsChar d = false → ∀ r', c :: (cs ++ r) ≠ d :: r' := by
    intro d hd r' h
    rw [(List.cons.inj h).1, hd] at hchar
    cases hchar
  unfold scanValue
  rw [skipBlanks_cons (isBlank_of_isChar hchar)]
  split
  · exact absurd ‹_› (hne '"' rfl _)
  · exact absurd ‹_› (hne '[' rfl _)
  · exact absurd ‹_› (hne '{' rfl _)
  · exact absurd ‹_› (hne 'n' rfl _)
  · exact absurd ‹_› (hne 't' rfl _)
  · exact absurd ‹_› (hne 'f' rfl _)
  · rw [hscan]
    simp only [Option.bind_some, ofNumeral_int, Option.map_some]

theorem scans_str (s : String) : Scans (.str s) := by
  intro fuel r hr hfuel
  obtain ⟨cs, htext, hscan⟩ := scanString_quoteRaw s r
  rw [compact, htext] at hfuel ⊢
  obtain ⟨fuel, rfl⟩ := Nat.exists_eq_succ_of_ne_zero (n := fuel) (by
    rw [List.length_cons] at hfuel
    omega)
  obtain ⟨⟨cs', r'⟩, hcs, he⟩ := Option.map_eq_some_iff.mp hscan
  obtain ⟨rfl, rfl⟩ := Prod.mk.inj he
  show (scanString cs.length cs).map (fun (s, r) => (Json.str (.ofList s), r)) = _
  rw [hcs]
  rfl

/-- The first character of a plain value. -/
theorem Plain.head {j : Json} (h : Plain j) :
    ∃ c cs, compact j = c :: cs ∧ isBlank c = false ∧ c ≠ ']' := by
  cases h with
  | null => exact ⟨'n', _, rfl, rfl, by decide⟩
  | int n =>
    obtain ⟨c, cs, hc⟩ := List.exists_cons_of_ne_nil (Numeral.ofInt n).chars_ne_nil
    have hchar : Numeral.IsChar c := (Numeral.ofInt n).isChar_chars c (by rw [hc]; simp)
    refine ⟨c, cs, hc, isBlank_of_isChar hchar, ?_⟩
    rintro rfl
    exact absurd hchar (by decide)
  | str s => exact ⟨'"', _, rfl, rfl, by decide⟩
  | arr => exact ⟨'[', _, rfl, rfl, by decide⟩
  | obj => exact ⟨'{', _, rfl, rfl, by decide⟩

theorem scanItems_compact {x : Json} {xs : List Json} (h : ∀ y ∈ x :: xs, Scans y) (fuel : ℕ)
    {r : List Char}
    (hfuel : 2 * (commas ((x :: xs).map compact) ++ ']' :: r).length + 1 ≤ fuel) :
    scanItems fuel (commas ((x :: xs).map compact) ++ ']' :: r) = some (x :: xs, r) := by
  induction xs generalizing x fuel with
  | nil =>
    obtain ⟨fuel, rfl⟩ := Nat.exists_eq_succ_of_ne_zero (n := fuel) (by omega)
    have hx := h x List.mem_cons_self fuel (']' :: r) (ends_cons (.inr (.inl rfl)) r)
      (Nat.le_of_lt_succ hfuel)
    simp only [List.map_cons, List.map_nil, commas, scanItems, hx]
    rfl
  | cons y ys ih =>
    obtain ⟨fuel, rfl⟩ := Nat.exists_eq_succ_of_ne_zero (n := fuel) (by omega)
    simp only [List.map_cons, commas, List.append_assoc, List.cons_append] at hfuel ih ⊢
    have hx := h x List.mem_cons_self fuel _ (ends_cons (.inl rfl) _) (Nat.le_of_lt_succ hfuel)
    rw [List.length_append, List.length_cons] at hfuel
    have hrest := ih (fun z hz => h z (List.mem_cons_of_mem _ hz)) fuel (by omega)
    simp only [scanItems, hx, Option.bind_some, skipBlanks_cons (show isBlank ',' = false from rfl),
      hrest, Option.map_some]

/-- A key is read, and the value behind it is what is read next. -/
theorem scanMembers_key (fuel : ℕ) (k : String) (t : List Char) :
    scanMembers (fuel + 1) (quoteRaw k ++ ':' :: t) =
      (scanValue fuel t).bind fun (x, r) =>
        match skipBlanks r with
        | ',' :: r => (scanMembers fuel r).map fun (kvs, r) => ((k, x) :: kvs, r)
        | '}' :: r => some ([(k, x)], r)
        | _ => none := by
  obtain ⟨cs, htext, hscan⟩ := scanString_quoteRaw k (':' :: t)
  obtain ⟨⟨cs', r'⟩, hcs, he⟩ := Option.map_eq_some_iff.mp hscan
  obtain ⟨rfl, rfl⟩ := Prod.mk.inj he
  simp only [htext, scanMembers, skipBlanks_cons (show isBlank '"' = false from rfl), hcs,
    Option.bind_some, skipBlanks_cons (show isBlank ':' = false from rfl)]

theorem scanMembers_compact {kv : String × Json} {kvs : Dict} (h : ∀ y ∈ kv :: kvs, Scans y.2)
    (fuel : ℕ) {r : List Char}
    (hfuel : 2 * (commas ((kv :: kvs).map compactMember) ++ '}' :: r).length + 1 ≤ fuel) :
    scanMembers fuel (commas ((kv :: kvs).map compactMember) ++ '}' :: r) =
      some (kv :: kvs, r) := by
  induction kvs generalizing kv fuel with
  | nil =>
    obtain ⟨fuel, rfl⟩ := Nat.exists_eq_succ_of_ne_zero (n := fuel) (by omega)
    simp only [List.map_cons, List.map_nil, commas, compactMember, List.append_assoc,
      List.cons_append] at hfuel ⊢
    rw [List.length_append, List.length_cons] at hfuel
    have hx := h kv List.mem_cons_self fuel ('}' :: r) (ends_cons (.inr (.inr rfl)) r) (by omega)
    rw [scanMembers_key, hx]
    rfl
  | cons kv' kvs ih =>
    obtain ⟨fuel, rfl⟩ := Nat.exists_eq_succ_of_ne_zero (n := fuel) (by omega)
    rw [List.map_cons, List.map_cons, commas, ← List.map_cons, compactMember] at hfuel ⊢
    simp only [List.append_assoc, List.cons_append] at hfuel ⊢
    rw [List.length_append, List.length_cons] at hfuel
    have hx := h kv List.mem_cons_self fuel
      (',' :: (commas ((kv' :: kvs).map compactMember) ++ '}' :: r)) (ends_cons (.inl rfl) _)
      (by omega)
    rw [List.length_append, List.length_cons] at hfuel
    have hrest := ih (fun z hz => h z (List.mem_cons_of_mem _ hz)) fuel (by omega)
    simp only [scanMembers_key, hx, Option.bind_some,
      skipBlanks_cons (show isBlank ',' = false from rfl), hrest, Option.map_some]

theorem commas_cons (t : List Char) (ts : List (List Char)) : ∃ u, commas (t :: ts) = t ++ u := by
  cases ts with
  | nil => exact ⟨[], by rw [commas, List.append_nil]⟩
  | cons u ts => exact ⟨_, rfl⟩

theorem scans_arr {xs : List Json} (hp : ∀ x ∈ xs, Plain x) (h : ∀ x ∈ xs, Scans x) :
    Scans (.arr xs) := by
  intro fuel r hr hfuel
  rw [compact, compactItems_eq, List.cons_append, List.append_assoc, List.singleton_append]
    at hfuel ⊢
  rw [List.length_cons] at hfuel
  obtain ⟨fuel, rfl⟩ := Nat.exists_eq_succ_of_ne_zero (n := fuel) (by omega)
  cases xs with
  | nil => rfl
  | cons x xs =>
    have hitems := scanItems_compact h fuel (r := r) (by omega)
    -- the first item is not the closing bracket
    obtain ⟨c, cs, hc, hblank, hne⟩ := (hp x List.mem_cons_self).head
    obtain ⟨u, hu⟩ := commas_cons (compact x) (xs.map compact)
    rw [List.map_cons, hu, hc, List.cons_append, List.cons_append] at hitems ⊢
    rw [scanValue, skipBlanks_cons (show isBlank '[' = false from rfl)]
    simp only [skipBlanks_cons hblank]
    split
    · rename_i h
      exact absurd (List.cons.inj h).1 hne
    · rw [hitems]
      rfl

theorem scans_obj {kvs : Dict} (hk : Keyed Prod.fst kvs) (h : ∀ kv ∈ kvs, Scans kv.2) :
    Scans (.obj kvs) := by
  intro fuel r hr hfuel
  rw [compact, compactMembers_eq, List.cons_append, List.append_assoc, List.singleton_append]
    at hfuel ⊢
  rw [List.length_cons] at hfuel
  obtain ⟨fuel, rfl⟩ := Nat.exists_eq_succ_of_ne_zero (n := fuel) (by omega)
  cases kvs with
  | nil => rfl
  | cons kv kvs =>
    have hmembers := scanMembers_compact h fuel (r := r) (by omega)
    obtain ⟨u, hu⟩ := commas_cons (compactMember kv) (kvs.map compactMember)
    have hquote : compactMember kv ++ u = '"' :: (compactMember kv ++ u).tail := rfl
    rw [List.map_cons, hu, hquote, List.cons_append] at hmembers ⊢
    rw [scanValue, skipBlanks_cons (show isBlank '{' = false from rfl)]
    simp only [skipBlanks_cons (show isBlank '"' = false from rfl)]
    split
    · rename_i h
      exact absurd (List.cons.inj h).1 (by decide)
    · rw [hmembers]
      simp only [Option.map_some, dict_keyed hk]

theorem Plain.scans {j : Json} (h : Plain j) : Scans j := by
  induction h with
  | null =>
    intro fuel r hr hfuel
    obtain ⟨fuel, rfl⟩ := Nat.exists_eq_succ_of_ne_zero (n := fuel) (by
      simp only [compact, List.length_append] at hfuel
      simp at hfuel
      omega)
    rfl
  | int n => exact scans_int n
  | str s => exact scans_str s
  | arr hp ih => exact scans_arr hp ih
  | obj hk _ ih => exact scans_obj hk ih

/-- **A plain value is read back** from its compact text. -/
theorem loads_compact {j : Json} (h : Plain j) : loads (compact j) = some j := by
  have hscan := h.scans (2 * (compact j).length) [] ends_nil (by rw [List.append_nil])
  rw [List.append_nil] at hscan
  rw [loads, hscan]
  rfl

end Json

end Lib
