import CryptoExchange.Lib.Json
import CryptoExchange.Lib.Rows
import Mathlib.Data.List.Sort
import Mathlib.Data.String.Basic

/-!
# JSON texts

`Json.dumps` is what `json.dumps(value, sort_keys=True)` prints, with its default separators and
`ensure_ascii`.

* `unescape_escape`: an escape sequence is read off the front of a text.
* `text_append`: a text that is followed by a delimiter determines the value and the rest.
* `dumps_inj`: two values print the same text exactly when they are equal up to the order of the
  keys in their dicts.
-/

namespace Lib

/-! ## Strings -/

def hex4 (n : ℕ) : List Char :=
  [Nat.digitChar (n / 4096 % 16), Nat.digitChar (n / 256 % 16), Nat.digitChar (n / 16 % 16),
    Nat.digitChar (n % 16)]

def hexDigit (c : Char) : ℕ := if c.isDigit then c.toNat - 48 else c.toNat - 87

def hexValue (a b c d : Char) : ℕ :=
  hexDigit a * 4096 + hexDigit b * 256 + hexDigit c * 16 + hexDigit d

def unicodeEscape (n : ℕ) : List Char := '\\' :: 'u' :: hex4 n

/-- What a character of a string prints; one outside the BMP prints two surrogates. -/
def escape (c : Char) : List Char :=
  if c = '"' then ['\\', '"']
  else if c = '\\' then ['\\', '\\']
  else if c = '\n' then ['\\', 'n']
  else if c = '\r' then ['\\', 'r']
  else if c = '\t' then ['\\', 't']
  else if c = '\x0c' then ['\\', 'f']
  else if c = '\x08' then ['\\', 'b']
  else if 0x20 ≤ c.toNat ∧ c.toNat ≤ 0x7e then [c]
  else if c.toNat < 0x10000 then unicodeEscape c.toNat
  else unicodeEscape (0xd800 + (c.toNat - 0x10000) / 0x400) ++
    unicodeEscape (0xdc00 + (c.toNat - 0x10000) % 0x400)

/-- The character that a text starts with, and the rest. -/
def unescape : List Char → Option (Char × List Char)
  | '\\' :: 'u' :: a :: b :: c :: d :: r =>
    let hi := hexValue a b c d
    if 0xd800 ≤ hi ∧ hi < 0xdc00 then
      match r with
      | '\\' :: 'u' :: a :: b :: c :: d :: r =>
        some (.ofNat (0x10000 + (hi - 0xd800) * 0x400 + (hexValue a b c d - 0xdc00)), r)
      | _ => none
    else some (.ofNat hi, r)
  | '\\' :: c :: r =>
    some (if c = 'n' then '\n' else if c = 'r' then '\r' else if c = 't' then '\t'
      else if c = 'f' then '\x0c' else if c = 'b' then '\x08' else c, r)
  | c :: r => some (c, r)
  | [] => none

theorem hexDigit_digitChar {d : ℕ} (h : d < 16) : hexDigit (Nat.digitChar d) = d := by
  have : ∀ d : Fin 16, hexDigit (Nat.digitChar d) = d := by decide
  exact this ⟨d, h⟩

theorem hexValue_hex4 {n : ℕ} (h : n < 0x10000) :
    hexValue (Nat.digitChar (n / 4096 % 16)) (Nat.digitChar (n / 256 % 16))
      (Nat.digitChar (n / 16 % 16)) (Nat.digitChar (n % 16)) = n := by
  unfold hexValue
  rw [hexDigit_digitChar (Nat.mod_lt _ (by decide)), hexDigit_digitChar (Nat.mod_lt _ (by decide)),
    hexDigit_digitChar (Nat.mod_lt _ (by decide)), hexDigit_digitChar (Nat.mod_lt _ (by decide))]
  omega

/-- A character is no surrogate, and below `0x110000`. -/
theorem toNat_range (c : Char) : (c.toNat < 0xd800 ∨ 0xdfff < c.toNat) ∧ c.toNat < 0x110000 := by
  have h : c.toNat < 0xd800 ∨ 0xdfff < c.toNat ∧ c.toNat < 0x110000 := c.valid
  omega

theorem unescape_escape (c : Char) (r : List Char) : unescape (escape c ++ r) = some (c, r) := by
  obtain ⟨hs, hmax⟩ := toNat_range c
  by_cases hq : c = '"'
  · subst hq; rfl
  by_cases hb : c = '\\'
  · subst hb; rfl
  by_cases hn : c = '\n'
  · subst hn; rfl
  by_cases hr : c = '\r'
  · subst hr; rfl
  by_cases ht : c = '\t'
  · subst ht; rfl
  by_cases hf : c = '\x0c'
  · subst hf; rfl
  by_cases h8 : c = '\x08'
  · subst h8; rfl
  rw [escape, if_neg hq, if_neg hb, if_neg hn, if_neg hr, if_neg ht, if_neg hf, if_neg h8]
  by_cases hp : 0x20 ≤ c.toNat ∧ c.toNat ≤ 0x7e
  · rw [if_pos hp]
    show unescape (c :: r) = _
    unfold unescape
    split
    · rename_i h; exact absurd (List.cons.inj h).1 hb
    · rename_i h; exact absurd (List.cons.inj h).1 hb
    · rename_i h; cases h; rfl
    · rename_i h; cases h
  rw [if_neg hp]
  by_cases h : c.toNat < 0x10000
  · rw [if_pos h]
    show unescape ('\\' :: 'u' :: _ :: _ :: _ :: _ :: r) = _
    simp only [unescape, hexValue_hex4 h]
    rw [if_neg (by omega), Char.ofNat_toNat]
  · rw [if_neg h]
    show unescape ('\\' :: 'u' :: _ :: _ :: _ :: _ :: '\\' :: 'u' :: _ :: _ :: _ :: _ :: r) = _
    have h1 : 0xd800 + (c.toNat - 0x10000) / 0x400 < 0x10000 := by omega
    have h2 : 0xdc00 + (c.toNat - 0x10000) % 0x400 < 0x10000 := by omega
    simp only [unescape, hexValue_hex4 h1, hexValue_hex4 h2]
    rw [if_pos (by omega)]
    have : 0x10000 + (0xd800 + (c.toNat - 0x10000) / 0x400 - 0xd800) * 0x400 +
        (0xdc00 + (c.toNat - 0x10000) % 0x400 - 0xdc00) = c.toNat := by omega
    rw [this, Char.ofNat_toNat]

/-- No escape sequence starts with the closing quote. -/
theorem escape_ne_quote (c : Char) (r s : List Char) : escape c ++ r ≠ '"' :: s := by
  intro h
  have hu := unescape_escape c r
  rw [h] at hu
  cases hu
  cases h

/-- `encoder(s)`: a string in double quotes. -/
def quote (s : String) : List Char := '"' :: (s.toList.flatMap escape ++ ['"'])

theorem quote_append {s t : String} {r r' : List Char} (h : quote s ++ r = quote t ++ r') :
    s = t ∧ r = r' := by
  have key : ∀ l l' : List Char, l.flatMap escape ++ '"' :: r = l'.flatMap escape ++ '"' :: r' →
      l = l' ∧ r = r' := by
    intro l
    induction l with
    | nil =>
      intro l' h
      cases l' with
      | nil => exact ⟨rfl, (List.cons.inj h).2⟩
      | cons c l' =>
        rw [List.flatMap_cons, List.append_assoc] at h
        exact absurd h.symm (escape_ne_quote c _ _)
    | cons c l ih =>
      intro l' h
      rw [List.flatMap_cons, List.append_assoc] at h
      cases l' with
      | nil => exact absurd h (escape_ne_quote c _ _)
      | cons c' l' =>
        rw [List.flatMap_cons, List.append_assoc] at h
        have hu := unescape_escape c (l.flatMap escape ++ '"' :: r)
        rw [h, unescape_escape] at hu
        obtain ⟨hc, hrest⟩ := Prod.mk.inj (Option.some.inj hu)
        obtain ⟨hl, hr⟩ := ih l' hrest.symm
        exact ⟨by rw [hc, hl], hr⟩
  simp only [quote, List.cons_append, List.append_assoc, List.nil_append] at h
  obtain ⟨hl, hr⟩ := key _ _ (List.cons.inj h).2
  exact ⟨String.toList_injective hl, hr⟩

/-! ## Lists of texts -/

/-- The rest of a text after a value that is part of it. -/
def Ends (r : List Char) : Prop := ∀ c ∈ r.head?, c = ',' ∨ c = ']' ∨ c = '}'

theorem ends_nil : Ends [] := by simp [Ends]

theorem ends_cons {c : Char} (h : c = ',' ∨ c = ']' ∨ c = '}') (r : List Char) : Ends (c :: r) := by
  simpa [Ends] using h

/-- `enc x` is read off the front of a text. -/
def Reads {α : Type} (enc : α → List Char) (x : α) : Prop :=
  ∀ y r r', Ends r → Ends r' → enc x ++ r = enc y ++ r' → x = y ∧ r = r'

/-- The items of a list or a dict. -/
def commaSeparated : List (List Char) → List Char
  | [] => []
  | t :: ts => t ++ ts.flatMap fun u => ',' :: ' ' :: u

section

variable {α : Type} {enc : α → List Char} {close : Char}

theorem commas_append (hclose : close = ']' ∨ close = '}') {xs ys : List α} {r r' : List Char}
    (hx : ∀ x ∈ xs, Reads enc x)
    (h : (xs.map enc).flatMap (fun u => ',' :: ' ' :: u) ++ close :: r =
      (ys.map enc).flatMap (fun u => ',' :: ' ' :: u) ++ close :: r') : xs = ys ∧ r = r' := by
  have hcomma : close ≠ ',' := by rcases hclose with rfl | rfl <;> decide
  have hends : ∀ (zs : List α) s,
      Ends ((zs.map enc).flatMap (fun u => ',' :: ' ' :: u) ++ close :: s) := by
    intro zs s
    cases zs with
    | nil => exact ends_cons (.inr hclose) s
    | cons z zs => exact ends_cons (.inl rfl) _
  induction xs generalizing ys with
  | nil =>
    cases ys with
    | nil => exact ⟨rfl, (List.cons.inj h).2⟩
    | cons y ys => exact absurd (List.cons.inj h).1 hcomma
  | cons x xs ih =>
    cases ys with
    | nil => exact absurd (List.cons.inj h).1.symm hcomma
    | cons y ys =>
      simp only [List.map_cons, List.flatMap_cons, List.cons_append, List.append_assoc,
        List.cons.injEq, true_and] at h
      obtain ⟨rfl, hrest⟩ := hx x List.mem_cons_self y _ _ (hends xs r) (hends ys r') h
      obtain ⟨rfl, hr⟩ := ih (fun z hz => hx z (List.mem_cons_of_mem _ hz)) hrest
      exact ⟨rfl, hr⟩

/-- Items that are read off one by one are read off together. -/
theorem commaSeparated_append (hclose : close = ']' ∨ close = '}')
    (hne : ∀ y r r', enc y ++ r ≠ close :: r') {xs ys : List α} {r r' : List Char}
    (hx : ∀ x ∈ xs, Reads enc x)
    (h : commaSeparated (xs.map enc) ++ close :: r = commaSeparated (ys.map enc) ++ close :: r') :
    xs = ys ∧ r = r' := by
  cases xs with
  | nil =>
    cases ys with
    | nil => exact ⟨rfl, (List.cons.inj h).2⟩
    | cons y ys =>
      simp only [List.map_cons, commaSeparated, List.append_assoc] at h
      exact absurd h.symm (hne y _ _)
  | cons x xs =>
    cases ys with
    | nil =>
      simp only [List.map_cons, commaSeparated, List.append_assoc] at h
      exact absurd h (hne x _ _)
    | cons y ys =>
      have h' := congrArg (fun s => ',' :: ' ' :: s) h
      simp only [List.map_cons, commaSeparated, List.append_assoc] at h'
      exact commas_append hclose hx (by simpa using h')

end

/-! ## Values -/

namespace Json

mutual

/-- `json.dumps(value)`. -/
def text : Json → List Char
  | .null => "null".toList
  | .bool true => "true".toList
  | .bool false => "false".toList
  | .int n => (Numeral.ofInt n).chars
  | .float x => x.repr.chars
  | .str s => quote s
  | .arr xs => '[' :: (commaSeparated (itemTexts xs) ++ [']'])
  | .obj kvs => '{' :: (commaSeparated (memberTexts kvs) ++ ['}'])

def itemTexts : List Json → List (List Char)
  | [] => []
  | x :: xs => text x :: itemTexts xs

def memberTexts : List (String × Json) → List (List Char)
  | [] => []
  | (k, x) :: kvs => (quote k ++ ':' :: ' ' :: text x) :: memberTexts kvs

end

def memberText (kv : String × Json) : List Char := quote kv.1 ++ ':' :: ' ' :: text kv.2

theorem itemTexts_eq (xs : List Json) : itemTexts xs = xs.map text := by
  induction xs with
  | nil => rfl
  | cons x xs ih => rw [itemTexts, ih, List.map_cons]

theorem memberTexts_eq (kvs : List (String × Json)) : memberTexts kvs = kvs.map memberText := by
  induction kvs with
  | nil => rfl
  | cons kv kvs ih => rw [memberTexts, ih, List.map_cons, memberText]

/-- The character that a text starts with; `'0'` for the ones that a number may start with. -/
def lead : Json → Char
  | .null => 'n'
  | .bool true => 't'
  | .bool false => 'f'
  | .int _ | .float _ => '0'
  | .str _ => '"'
  | .arr _ => '['
  | .obj _ => '{'

theorem text_lead (j : Json) :
    ∃ c cs, text j = c :: cs ∧ (if Numeral.IsChar c then '0' else c) = j.lead := by
  have num : ∀ n : Numeral, ∃ c cs, n.chars = c :: cs ∧
      (if Numeral.IsChar c then '0' else c) = '0' := by
    intro n
    obtain ⟨c, cs, h⟩ := List.exists_cons_of_ne_nil n.chars_ne_nil
    refine ⟨c, cs, h, if_pos (n.isChar_chars c ?_)⟩
    rw [h]
    exact List.mem_cons_self
  cases j with
  | null => exact ⟨'n', _, rfl, rfl⟩
  | bool b => cases b <;> exact ⟨_, _, rfl, rfl⟩
  | int n => exact num _
  | float x => exact num _
  | str s => exact ⟨'"', _, rfl, rfl⟩
  | arr xs => exact ⟨'[', _, rfl, rfl⟩
  | obj kvs => exact ⟨'{', _, rfl, rfl⟩

theorem lead_eq {a b : Json} {r r' : List Char} (h : text a ++ r = text b ++ r') :
    a.lead = b.lead := by
  obtain ⟨c, cs, ha, hc⟩ := text_lead a
  obtain ⟨d, ds, hb, hd⟩ := text_lead b
  rw [ha, hb] at h
  rw [← hc, ← hd, (List.cons.inj h).1]

/-- No text starts with a closing bracket. -/
theorem text_ne_close (j : Json) (r r' : List Char) : text j ++ r ≠ ']' :: r' := by
  obtain ⟨c, cs, ht, hc⟩ := text_lead j
  rw [ht]
  intro h
  rw [(List.cons.inj h).1, if_neg (by decide)] at hc
  cases j with
  | bool b => cases b <;> cases hc
  | _ => cases hc

theorem ends_isChar {r : List Char} (h : Ends r) : ∀ c ∈ r.head?, Numeral.IsChar c = false := by
  intro c hc
  rcases h c hc with rfl | rfl | rfl <;> decide

theorem memberText_ne_close (kv : String × Json) (r r' : List Char) :
    memberText kv ++ r ≠ '}' :: r' :=
  fun h => absurd (List.cons.inj h).1 (by decide)

/-- A member is read off the front of a text when its value is. -/
theorem reads_member {kv : String × Json} (h : Reads text kv.2) : Reads memberText kv := by
  intro kv' r r' hr hr' e
  simp only [memberText, List.append_assoc, List.cons_append] at e
  obtain ⟨hk, e⟩ := quote_append e
  obtain ⟨hv, hrest⟩ := h kv'.2 r r' hr hr' (List.cons.inj (List.cons.inj e).2).2
  exact ⟨Prod.ext hk hv, hrest⟩

/-- **A text is read off** the front of a longer one: it determines the value and the rest. -/
theorem text_append (a : Json) : Reads text a := by
  induction a using Json.induct with
  | null =>
    intro b r r' _ _ h
    cases b with
    | null => exact ⟨rfl, List.append_cancel_left h⟩
    | bool b => cases b <;> cases lead_eq h
    | _ => cases lead_eq h
  | bool a =>
    intro b r r' _ _ h
    have hl := lead_eq h
    cases b with
    | bool b =>
      have hab : a = b := by cases a <;> cases b <;> first | rfl | cases hl
      subst hab
      exact ⟨rfl, List.append_cancel_left h⟩
    | _ => cases a <;> cases hl
  | int n =>
    intro b r r' hr hr' h
    cases b with
    | int m =>
      obtain ⟨hn, hrest⟩ := Numeral.chars_append (ends_isChar hr) (ends_isChar hr') h
      exact ⟨by rw [Numeral.ofInt_injective hn], hrest⟩
    | float y =>
      obtain ⟨hn, -⟩ := Numeral.chars_append (ends_isChar hr) (ends_isChar hr') h
      exact absurd hn.symm (y.repr_ne_ofInt n)
    | bool b => cases b <;> cases lead_eq h
    | _ => cases lead_eq h
  | float x =>
    intro b r r' hr hr' h
    cases b with
    | int m =>
      obtain ⟨hn, -⟩ := Numeral.chars_append (ends_isChar hr) (ends_isChar hr') h
      exact absurd hn (x.repr_ne_ofInt m)
    | float y =>
      obtain ⟨hn, hrest⟩ := Numeral.chars_append (ends_isChar hr) (ends_isChar hr') h
      exact ⟨by rw [PyFloat.repr_injective hn], hrest⟩
    | bool b => cases b <;> cases lead_eq h
    | _ => cases lead_eq h
  | str s =>
    intro b r r' _ _ h
    cases b with
    | str t =>
      obtain ⟨rfl, hrest⟩ := quote_append h
      exact ⟨rfl, hrest⟩
    | bool b => cases b <;> cases lead_eq h
    | _ => cases lead_eq h
  | arr xs ih =>
    intro b r r' _ _ h
    cases b with
    | arr ys =>
      simp only [text, itemTexts_eq, List.cons_append, List.append_assoc, List.nil_append,
        List.cons.injEq, true_and] at h
      obtain ⟨rfl, hrest⟩ := commaSeparated_append (.inl rfl) text_ne_close ih h
      exact ⟨rfl, hrest⟩
    | bool b => cases b <;> cases lead_eq h
    | _ => cases lead_eq h
  | obj kvs ih =>
    intro b r r' _ _ h
    cases b with
    | obj kvs' =>
      simp only [text, memberTexts_eq, List.cons_append, List.append_assoc, List.nil_append,
        List.cons.injEq, true_and] at h
      obtain ⟨rfl, hrest⟩ := commaSeparated_append (.inr rfl) memberText_ne_close
        (fun kv hkv => reads_member (ih kv hkv)) h
      exact ⟨rfl, hrest⟩
    | bool b => cases b <;> cases lead_eq h
    | _ => cases lead_eq h

theorem text_injective : Function.Injective text := by
  intro a b h
  exact (text_append a b [] [] ends_nil ends_nil (by rw [h])).1

/-! ## Sorted keys -/

def keyLe (a b : String × Json) : Prop := a.1 ≤ b.1

instance : DecidableRel keyLe := fun a b => inferInstanceAs (Decidable (a.1 ≤ b.1))

mutual

/-- The value with the keys of every dict in order. -/
def sortKeys : Json → Json
  | .arr xs => .arr (sortItems xs)
  | .obj kvs => .obj ((sortMembers kvs).insertionSort keyLe)
  | j => j

def sortItems : List Json → List Json
  | [] => []
  | x :: xs => sortKeys x :: sortItems xs

def sortMembers : List (String × Json) → List (String × Json)
  | [] => []
  | (k, x) :: kvs => (k, sortKeys x) :: sortMembers kvs

end

@[simp] theorem sortKeys_str (s : String) : sortKeys (.str s) = .str s := rfl

theorem sortItems_eq (xs : List Json) : sortItems xs = xs.map sortKeys := by
  induction xs with
  | nil => rfl
  | cons x xs ih => rw [sortItems, ih, List.map_cons]

theorem sortMembers_eq (kvs : List (String × Json)) :
    sortMembers kvs = kvs.map (Prod.map id sortKeys) := by
  induction kvs with
  | nil => rfl
  | cons kv kvs ih => rw [sortMembers, ih, List.map_cons, Prod.map, id]

/-- `json.dumps(value, sort_keys=True)`. -/
def dumps (j : Json) : List Char := (sortKeys j).text

theorem dumps_inj {a b : Json} : dumps a = dumps b ↔ sortKeys a = sortKeys b :=
  text_injective.eq_iff

instance : Std.Total keyLe := ⟨fun a b => le_total a.1 b.1⟩

instance : IsTrans (String × Json) keyLe := ⟨fun _ _ _ h h' => le_trans (α := String) h h'⟩

/-- Dicts with the same members in another order are sorted into one. -/
theorem insertionSort_perm {l l' : List (String × Json)} (hk : Keyed Prod.fst l)
    (h : l.Perm l') : l.insertionSort keyLe = l'.insertionSort keyLe := by
  refine List.Perm.eq_of_pairwise (fun a b ha hb hab hba => ?_)
    (List.pairwise_insertionSort _ _) (List.pairwise_insertionSort _ _)
    ((List.perm_insertionSort _ _).trans (h.trans (List.perm_insertionSort _ _).symm))
  refine hk.eq_of_key ?_ ?_ (le_antisymm hab hba)
  · exact (List.mem_insertionSort _).mp ha
  · exact h.mem_iff.mpr ((List.mem_insertionSort _).mp hb)

/-- Sorting looks at the keys only. -/
theorem insertionSort_map (f : Json → Json) (l : List (String × Json)) :
    (l.map (Prod.map id f)).insertionSort keyLe = (l.insertionSort keyLe).map (Prod.map id f) :=
  (List.map_insertionSort keyLe keyLe (Prod.map id f) l fun _ _ _ _ => Iff.rfl).symm

theorem sortKeys_obj (l : List (String × Json)) :
    sortKeys (.obj l) = .obj ((l.map (Prod.map id sortKeys)).insertionSort keyLe) := by
  rw [sortKeys, sortMembers_eq]

/-- Objects that are equal up to the order of keys have the same members. -/
theorem mem_of_sortKeys_obj {l l' : List (String × Json)}
    (h : sortKeys (.obj l) = sortKeys (.obj l')) {kv : String × Json} (hkv : kv ∈ l) :
    ∃ kv' ∈ l', kv'.1 = kv.1 ∧ sortKeys kv'.2 = sortKeys kv.2 := by
  rw [sortKeys_obj, sortKeys_obj, obj.injEq] at h
  have hm : Prod.map id sortKeys kv ∈ (l.map (Prod.map id sortKeys)).insertionSort keyLe :=
    (List.mem_insertionSort _).mpr (List.mem_map_of_mem hkv)
  rw [h, List.mem_insertionSort] at hm
  obtain ⟨kv', hkv', e⟩ := List.mem_map.mp hm
  obtain ⟨hk, hv⟩ := Prod.ext_iff.mp e
  exact ⟨kv', hkv', hk, hv⟩

/-- Objects with the same distinct keys are equal up to the order of keys when their members are. -/
theorem sortKeys_obj_inj {l l' : List (String × Json)} (hk : Keyed Prod.fst l')
    (hkeys : l.map Prod.fst = l'.map Prod.fst) :
    sortKeys (.obj l) = sortKeys (.obj l') ↔
      l.map (Prod.map id sortKeys) = l'.map (Prod.map id sortKeys) := by
  refine ⟨fun h => ?_, fun h => by rw [sortKeys_obj, sortKeys_obj, h]⟩
  have hlen : l.length = l'.length := by simpa using congrArg List.length hkeys
  refine List.ext_getElem (by simpa using hlen) fun i hi hi' => ?_
  rw [List.length_map] at hi hi'
  have hkey : l[i].1 = l'[i].1 := by
    simpa [List.getElem?_map, hi, hi'] using congrArg (fun ks => ks[i]?) hkeys
  obtain ⟨kv, hkv, hkey', hval⟩ := mem_of_sortKeys_obj h (List.getElem_mem hi)
  rw [hk.eq_of_key hkv (List.getElem_mem hi') (hkey'.trans hkey)] at hval
  rw [List.getElem_map, List.getElem_map]
  exact Prod.ext hkey hval.symm

/-! ## Distinct keys -/

mutual

/-- The keys of every dict in the value are distinct. -/
def Distinct : Json → Prop
  | .arr xs => DistinctItems xs
  | .obj kvs => Keyed Prod.fst kvs ∧ DistinctMembers kvs
  | _ => True

def DistinctItems : List Json → Prop
  | [] => True
  | x :: xs => Distinct x ∧ DistinctItems xs

def DistinctMembers : List (String × Json) → Prop
  | [] => True
  | (_, x) :: kvs => Distinct x ∧ DistinctMembers kvs

end

theorem distinct_arr {xs : List Json} : Distinct (.arr xs) ↔ ∀ x ∈ xs, Distinct x := by
  rw [Distinct]
  induction xs with
  | nil => simp [DistinctItems]
  | cons x xs ih => simp [DistinctItems, ih]

theorem distinct_obj {kvs : List (String × Json)} :
    Distinct (.obj kvs) ↔ Keyed Prod.fst kvs ∧ ∀ kv ∈ kvs, Distinct kv.2 := by
  have h : DistinctMembers kvs ↔ ∀ kv ∈ kvs, Distinct kv.2 := by
    induction kvs with
    | nil => simp [DistinctMembers]
    | cons kv kvs ih => simp [DistinctMembers, ih]
  rw [Distinct, h]

mutual

def decideDistinct : (j : Json) → Decidable (Distinct j)
  | .arr xs => decideDistinctItems xs
  | .obj kvs => @instDecidableAnd _ _ inferInstance (decideDistinctMembers kvs)
  | .null | .bool _ | .int _ | .float _ | .str _ => inferInstanceAs (Decidable True)

def decideDistinctItems : (xs : List Json) → Decidable (DistinctItems xs)
  | [] => inferInstanceAs (Decidable True)
  | x :: xs => @instDecidableAnd _ _ (decideDistinct x) (decideDistinctItems xs)

def decideDistinctMembers : (kvs : List (String × Json)) → Decidable (DistinctMembers kvs)
  | [] => inferInstanceAs (Decidable True)
  | (_, x) :: kvs => @instDecidableAnd _ _ (decideDistinct x) (decideDistinctMembers kvs)

end

instance (j : Json) : Decidable (Distinct j) := decideDistinct j

end Json

end Lib
