/-
# Compact JSON text

A document without white space: members in the order in which the value lists them,
the shortest escapes, integers in decimal. The text determines the value, because it
can be read back; the reader below takes such texts and nothing else.

A float is not spelled here. How many of its digits are written is a matter of the
serializer, and the results are about documents whose numbers are integers.
-/

import MbxCache.Foundation.Encoding
import MbxCache.Foundation.Json

namespace MbxCache.Foundation

namespace JsonText

/-! ## Strings -/

/-- The characters with an escape of two characters, each with its code. -/
def shortEscapes : List (Char × Char) :=
  [('\x22', '\x22'), ('\\', '\\'), ('\x08', 'b'), ('\x09', 't'), ('\x0a', 'n'), ('\x0c', 'f'),
    ('\x0d', 'r')]

def escape (c : Char) : List Char :=
  match shortEscapes.lookup c with
  | some code => ['\\', code]
  | none =>
      if c.toNat < 32 then
        ['\\', 'u', '0', '0', hexDigit (c.toNat / 16), hexDigit (c.toNat % 16)]
      else [c]

def spellString (text : String) : List Char :=
  '\x22' :: (text.toList.flatMap escape ++ ['\x22'])

/-- The character behind a code of one character. -/
def unescape (code : Char) : Option Char :=
  (shortEscapes.find? fun entry => entry.2 == code).map (·.1)

/-- The rest of a string, up to the quotation mark that ends it. -/
def readText : List Char → Option (List Char × List Char)
  | [] => none
  | c :: rest =>
      if c = '\x22' then some ([], rest)
      else if c = '\\' then
        match rest with
        | 'u' :: '0' :: '0' :: high :: low :: rest => do
            let high ← hexValue high
            let low ← hexValue low
            let (text, rest) ← readText rest
            return (Char.ofNat (16 * high + low) :: text, rest)
        | code :: rest => do
            let found ← unescape code
            let (text, rest) ← readText rest
            return (found :: text, rest)
        | [] => none
      else do
        let (text, rest) ← readText rest
        return (c :: text, rest)

theorem lookup_shortEscapes {c : Char} {code : Char} (h : shortEscapes.lookup c = some code) :
    (c, code) ∈ shortEscapes := by
  obtain ⟨before, after, hentries, _⟩ := List.lookup_eq_some_iff.mp h
  rw [hentries]
  exact List.mem_append_right _ List.mem_cons_self

/-- A code is not the one of the long form, and stands for one character. -/
theorem unescape_of_mem {c code : Char} (h : (c, code) ∈ shortEscapes) :
    code ≠ 'u' ∧ unescape code = some c := by
  have hall : ∀ entry ∈ shortEscapes, entry.2 ≠ 'u' ∧ unescape entry.2 = some entry.1 := by
    decide
  exact hall _ h

theorem readText_long {c : Char} (h : c.toNat < 32) (rest : List Char) :
    readText ('\\' :: 'u' :: '0' :: '0' :: hexDigit (c.toNat / 16) ::
        hexDigit (c.toNat % 16) :: rest) =
      (readText rest).map fun read => (c :: read.1, read.2) := by
  have hchar : Char.ofNat (16 * (c.toNat / 16) + c.toNat % 16) = c := by
    rw [Nat.div_add_mod, Char.ofNat_toNat]
  rw [readText, if_neg (by decide), if_pos rfl]
  simp only [hexValue_hexDigit (show c.toNat / 16 < 16 by omega),
    hexValue_hexDigit (show c.toNat % 16 < 16 by omega), Option.bind_eq_bind, Option.bind_some,
    hchar]
  rw [Option.map_eq_bind]
  rfl

theorem readText_short {c code : Char} (h : (c, code) ∈ shortEscapes) (rest : List Char) :
    readText ('\\' :: code :: rest) =
      (readText rest).map fun read => (c :: read.1, read.2) := by
  obtain ⟨hcode, hfound⟩ := unescape_of_mem h
  rw [readText.eq_def]
  simp only [show ¬ '\\' = '\x22' by decide, if_false, if_true]
  split
  next heq =>
    injection heq with heq
    exact absurd heq hcode
  next heq =>
    injection heq with heq hrest
    subst heq hrest
    rw [hfound, Option.map_eq_bind]
    rfl
  next heq => cases heq

theorem readText_literal {c : Char} (hquote : c ≠ '\x22') (hslash : c ≠ '\\')
    (rest : List Char) :
    readText (c :: rest) = (readText rest).map fun read => (c :: read.1, read.2) := by
  rw [readText.eq_def]
  dsimp only
  rw [if_neg hquote, if_neg hslash, Option.map_eq_bind]
  rfl

/-- Reading an escaped character gives the character and goes on behind it. -/
theorem readText_escape (c : Char) (rest : List Char) :
    readText (escape c ++ rest) = (readText rest).map fun read => (c :: read.1, read.2) := by
  rw [escape]
  split
  next code hcode => exact readText_short (lookup_shortEscapes hcode) rest
  next hnone =>
    split
    next hcontrol => exact readText_long hcontrol rest
    next =>
      have hother := List.lookup_eq_none_iff.mp hnone
      apply readText_literal
      · rintro rfl
        exact absurd (hother ('\x22', '\x22') (by decide)) (by decide)
      · rintro rfl
        exact absurd (hother ('\\', '\\') (by decide)) (by decide)

theorem readText_spelled (text rest : List Char) :
    readText (text.flatMap escape ++ '\x22' :: rest) = some (text, rest) := by
  induction text with
  | nil =>
      rw [List.flatMap_nil, List.nil_append, readText.eq_def]
      exact if_pos rfl
  | cons c text ih =>
      rw [List.flatMap_cons, List.append_assoc, readText_escape, ih]
      rfl

/-! ## Numbers -/

/-- A decimal number ends where the next character is no digit. -/
def Ends (rest : List Char) : Prop := ∀ c ∈ rest.head?, c.isDigit = false

/-- The numbers spelled here: the integers, each in its one form. -/
def Integral : JsonNumber → Prop
  | .posInt _ => True
  | .negInt value => value < 0
  | .float _ => False

def spellNumber : JsonNumber → List Char
  | .posInt value => Nat.toDigits 10 value.toNat
  | .negInt value => '-' :: Nat.toDigits 10 value.natAbs
  | .float _ => []

def readDigits (text : List Char) : Option (ℕ × List Char) :=
  match text.takeWhile Char.isDigit with
  | [] => none
  | digits => some (Nat.ofDigitChars 10 digits 0, text.dropWhile Char.isDigit)

def readNumber : List Char → Option (JsonNumber × List Char)
  | '-' :: text => (readDigits text).map fun read => (.negInt (-read.1), read.2)
  | text => (readDigits text).map fun read => (.posInt (UInt64.ofNat read.1), read.2)

theorem readDigits_toDigits (n : ℕ) {rest : List Char} (hends : Ends rest) :
    readDigits (Nat.toDigits 10 n ++ rest) = some (n, rest) := by
  have hdigits : ∀ c ∈ Nat.toDigits 10 n, c.isDigit = true := fun c hc =>
    Nat.isDigit_of_mem_toDigits (by decide) (by decide) hc
  have htake : rest.takeWhile Char.isDigit = [] := by
    cases rest with
    | nil => rfl
    | cons c rest => rw [List.takeWhile_cons, hends c rfl, if_neg Bool.false_ne_true]
  have hdrop : rest.dropWhile Char.isDigit = rest := by
    cases rest with
    | nil => rfl
    | cons c rest => rw [List.dropWhile_cons, hends c rfl, if_neg Bool.false_ne_true]
  rw [readDigits, List.takeWhile_append_of_pos hdigits, List.dropWhile_append_of_pos hdigits,
    htake, hdrop, List.append_nil]
  split
  next hnil => exact absurd hnil Nat.toDigits_ne_nil
  next => rw [Nat.ofDigitChars_ten_toDigits]

theorem exists_toDigits (n : ℕ) :
    ∃ d digits, Nat.toDigits 10 n = d :: digits ∧ d.isDigit = true := by
  obtain ⟨d, digits, hdigits⟩ := List.exists_cons_of_ne_nil (Nat.toDigits_ne_nil (n := n) (b := 10))
  refine ⟨d, digits, hdigits, ?_⟩
  exact Nat.isDigit_of_mem_toDigits (by decide) (by decide) (hdigits ▸ List.mem_cons_self)

/-- The first character of a number. -/
theorem exists_spellNumber {n : JsonNumber} (h : Integral n) :
    ∃ c text, spellNumber n = c :: text ∧ (c.isDigit = true ∨ c = '-') := by
  cases n with
  | posInt value =>
      obtain ⟨d, digits, hdigits, hd⟩ := exists_toDigits value.toNat
      exact ⟨d, digits, hdigits, .inl hd⟩
  | negInt value => exact ⟨'-', _, rfl, .inr rfl⟩
  | float bits => cases h

theorem readNumber_spelled {n : JsonNumber} (h : Integral n) {rest : List Char}
    (hends : Ends rest) : readNumber (spellNumber n ++ rest) = some (n, rest) := by
  cases n with
  | posInt value =>
      obtain ⟨d, digits, hdigits, hd⟩ := exists_toDigits value.toNat
      rw [spellNumber, readNumber.eq_def]
      split
      next text heq =>
        rw [hdigits] at heq
        injection heq with hsign
        subst hsign
        exact absurd hd (by decide)
      next => rw [readDigits_toDigits _ hends, Option.map_some, UInt64.ofNat_toNat]
  | negInt value =>
      have hnegative : value < 0 := h
      have habs : -(value.natAbs : ℤ) = value := by omega
      rw [spellNumber, List.cons_append, readNumber, readDigits_toDigits _ hends,
        Option.map_some, habs]
  | float bits => cases h

/-! ## Values -/

mutual

def spell : Json → List Char
  | .null => ['n', 'u', 'l', 'l']
  | .bool true => ['t', 'r', 'u', 'e']
  | .bool false => ['f', 'a', 'l', 's', 'e']
  | .number n => spellNumber n
  | .string text => spellString text
  | .array [] => ['[', ']']
  | .array (item :: items) => '[' :: (spell item ++ spellItems items)
  | .object [] => ['{', '\x7d']
  | .object ((name, value) :: members) =>
      '{' :: (spellString name ++ ':' :: (spell value ++ spellMembers members))

/-- What follows an item of an array. -/
def spellItems : List Json → List Char
  | [] => [']']
  | item :: items => ',' :: (spell item ++ spellItems items)

/-- What follows a member of an object. -/
def spellMembers : List (String × Json) → List Char
  | [] => ['\x7d']
  | (name, value) :: members =>
      ',' :: (spellString name ++ ':' :: (spell value ++ spellMembers members))

end

def readString : List Char → Option (String × List Char)
  | '\x22' :: rest => (readText rest).map fun read => (String.ofList read.1, read.2)
  | _ => none

mutual

/-- Every call for a part of a value has less fuel; the length of the text is enough. -/
def readValue : ℕ → List Char → Option (Json × List Char)
  | 0, _ => none
  | _, 'n' :: 'u' :: 'l' :: 'l' :: rest => some (.null, rest)
  | _, 't' :: 'r' :: 'u' :: 'e' :: rest => some (.bool true, rest)
  | _, 'f' :: 'a' :: 'l' :: 's' :: 'e' :: rest => some (.bool false, rest)
  | _, '[' :: ']' :: rest => some (.array [], rest)
  | fuel + 1, '[' :: rest => do
      let (item, rest) ← readValue fuel rest
      let (items, rest) ← readItems fuel rest
      return (.array (item :: items), rest)
  | _, '{' :: '\x7d' :: rest => some (.object [], rest)
  | fuel + 1, '{' :: rest => do
      let (member, rest) ← readMember fuel rest
      let (members, rest) ← readMembers fuel rest
      return (.object (member :: members), rest)
  | _, text => ((readString text).map fun read => (Json.string read.1, read.2)).or
      ((readNumber text).map fun read => (Json.number read.1, read.2))

def readItems : ℕ → List Char → Option (List Json × List Char)
  | _, ']' :: rest => some ([], rest)
  | fuel + 1, ',' :: rest => do
      let (item, rest) ← readValue fuel rest
      let (items, rest) ← readItems fuel rest
      return (item :: items, rest)
  | _, _ => none

def readMember : ℕ → List Char → Option ((String × Json) × List Char)
  | fuel + 1, text => do
      let (name, rest) ← readString text
      match rest with
      | ':' :: rest => do
          let (value, rest) ← readValue fuel rest
          return ((name, value), rest)
      | _ => none
  | _, _ => none

def readMembers : ℕ → List Char → Option (List (String × Json) × List Char)
  | _, '\x7d' :: rest => some ([], rest)
  | fuel + 1, ',' :: rest => do
      let (member, rest) ← readMember fuel rest
      let (members, rest) ← readMembers fuel rest
      return (member :: members, rest)
  | _, _ => none

end

/-! ### Reading back -/

theorem readString_spelled (text : String) (rest : List Char) :
    readString (spellString text ++ rest) = some (text, rest) := by
  rw [spellString, List.cons_append, List.append_assoc]
  show (readText (text.toList.flatMap escape ++ '\x22' :: rest)).map _ = _
  rw [readText_spelled, Option.map_some, String.ofList_toList]

/-- A text that begins with none of the other forms is a string or a number. -/
theorem readValue_scalar {fuel : ℕ} {c : Char} {text : List Char}
    (hc : c ∉ ['n', 't', 'f', '[', '{']) :
    readValue (fuel + 1) (c :: text) =
      ((readString (c :: text)).map fun read => (Json.string read.1, read.2)).or
        ((readNumber (c :: text)).map fun read => (Json.number read.1, read.2)) := by
  simp only [List.mem_cons, List.not_mem_nil, or_false, not_or] at hc
  obtain ⟨hn, ht, hf, hbracket, hbrace⟩ := hc
  rw [readValue.eq_def]
  split
  next heq => cases heq
  next heq _ => exact absurd (List.cons.inj heq).1 hn
  next heq _ => exact absurd (List.cons.inj heq).1 ht
  next heq _ => exact absurd (List.cons.inj heq).1 hf
  next heq _ => exact absurd (List.cons.inj heq).1 hbracket
  next heq => exact absurd (List.cons.inj heq).1 hbracket
  next heq _ => exact absurd (List.cons.inj heq).1 hbrace
  next heq => exact absurd (List.cons.inj heq).1 hbrace
  next => rfl

/-- The numbers of a value are integers. -/
def Numbers (value : Json) : Prop := ∀ n, value = .number n → Integral n

theorem exists_spell {value : Json} (h : Numbers value) :
    ∃ c text, spell value = c :: text ∧ c ≠ ']' := by
  cases value with
  | null => exact ⟨'n', _, rfl, by decide⟩
  | bool value => cases value with
    | false => exact ⟨'f', _, rfl, by decide⟩
    | true => exact ⟨'t', _, rfl, by decide⟩
  | number n =>
      obtain ⟨c, text, hspell, hc⟩ := exists_spellNumber (h n rfl)
      refine ⟨c, text, hspell, ?_⟩
      rintro rfl
      rcases hc with hc | hc <;> exact absurd hc (by decide)
  | string text => exact ⟨'\x22', _, rfl, by decide⟩
  | array items => cases items with
    | nil => exact ⟨'[', _, rfl, by decide⟩
    | cons item items => exact ⟨'[', _, rfl, by decide⟩
  | object members => cases members with
    | nil => exact ⟨'{', _, rfl, by decide⟩
    | cons member members => exact ⟨'{', _, rfl, by decide⟩

/-- A value of this kind is read back, from enough fuel and whatever follows it. -/
def ReadBack (value : Json) : Prop :=
  ∀ fuel rest, (spell value).length ≤ fuel → Ends rest →
    readValue fuel (spell value ++ rest) = some (value, rest)

theorem ends_spellItems (items : List Json) (rest : List Char) :
    Ends (spellItems items ++ rest) := by
  intro c hc
  cases items with
  | nil =>
      cases hc
      decide
  | cons item items =>
      cases hc
      decide

theorem ends_spellMembers (members : List (String × Json)) (rest : List Char) :
    Ends (spellMembers members ++ rest) := by
  intro c hc
  cases members with
  | nil =>
      cases hc
      decide
  | cons member members =>
      cases hc
      decide

theorem readItems_spelled {items : List Json} (h : ∀ item ∈ items, ReadBack item) :
    ∀ fuel rest, (spellItems items).length ≤ fuel →
      readItems fuel (spellItems items ++ rest) = some (items, rest) := by
  induction items with
  | nil =>
      intro fuel rest _
      cases fuel <;> rfl
  | cons item items ih =>
      intro fuel rest hfuel
      simp only [spellItems, List.length_cons, List.length_append] at hfuel
      obtain ⟨fuel, rfl⟩ : ∃ n, fuel = n + 1 := ⟨fuel - 1, by omega⟩
      have hitem := h item List.mem_cons_self fuel (spellItems items ++ rest) (by omega)
        (ends_spellItems items rest)
      have hitems := ih (fun other hmem => h other (List.mem_cons_of_mem item hmem)) fuel rest
        (by omega)
      rw [spellItems, List.cons_append, List.append_assoc, readItems, hitem]
      simp only [Option.bind_eq_bind, Option.bind_some, hitems]
      rfl

theorem readMember_spelled {name : String} {value : Json} (h : ReadBack value) (fuel : ℕ)
    {rest : List Char} (hfuel : (spell value).length ≤ fuel) (hends : Ends rest) :
    readMember (fuel + 1) (spellString name ++ ':' :: (spell value ++ rest)) =
      some ((name, value), rest) := by
  rw [readMember, readString_spelled]
  simp only [Option.bind_eq_bind, Option.bind_some, h fuel rest hfuel hends]
  rfl

theorem readMembers_spelled {members : List (String × Json)}
    (h : ∀ member ∈ members, ReadBack member.2) :
    ∀ fuel rest, (spellMembers members).length ≤ fuel →
      readMembers fuel (spellMembers members ++ rest) = some (members, rest) := by
  induction members with
  | nil =>
      intro fuel rest _
      cases fuel <;> rfl
  | cons member members ih =>
      obtain ⟨name, value⟩ := member
      intro fuel rest hfuel
      simp only [spellMembers, List.length_cons, List.length_append] at hfuel
      obtain ⟨fuel, rfl⟩ : ∃ n, fuel = n + 2 := ⟨fuel - 2, by omega⟩
      have hvalue : ReadBack value := h (name, value) List.mem_cons_self
      have hmember := @readMember_spelled name value hvalue fuel _ (by omega)
        (ends_spellMembers members rest)
      have hmembers := ih (fun other hmem => h other (List.mem_cons_of_mem _ hmem)) (fuel + 1)
        rest (by omega)
      rw [spellMembers, List.cons_append, List.append_assoc, List.cons_append,
        List.append_assoc, readMembers, hmember]
      simp only [Option.bind_eq_bind, Option.bind_some, hmembers]
      rfl

theorem readValue_number {n : JsonNumber} (h : Integral n) (fuel : ℕ) {rest : List Char}
    (hends : Ends rest) :
    readValue (fuel + 1) (spell (.number n) ++ rest) = some (.number n, rest) := by
  have hread := readNumber_spelled h hends
  obtain ⟨c, text, hspell, hc⟩ := exists_spellNumber h
  have hfirst : c ∉ ['n', 't', 'f', '[', '{'] ∧ c ≠ '\x22' := by
    rcases hc with hc | rfl
    · constructor
      · intro hmem
        have hall : ['n', 't', 'f', '[', '{'].all (fun c => !c.isDigit) = true := by decide
        have hother := List.all_eq_true.mp hall c hmem
        rw [hc] at hother
        cases hother
      · rintro rfl
        exact absurd hc (by decide)
    · decide
  have hstring : readString (c :: (text ++ rest)) = none := by
    rw [readString.eq_def]
    split
    next heq => exact absurd (List.cons.inj heq).1 hfirst.2
    next => rfl
  rw [spell]
  rw [hspell, List.cons_append] at hread ⊢
  rw [readValue_scalar hfirst.1, hstring, hread]
  rfl

theorem readValue_string (text : String) (fuel : ℕ) (rest : List Char) :
    readValue (fuel + 1) (spell (.string text) ++ rest) = some (.string text, rest) := by
  have hread := readString_spelled text rest
  rw [spell]
  rw [spellString, List.cons_append] at hread ⊢
  rw [readValue_scalar (by decide), hread]
  rfl

theorem readValue_array {item : Json} {items : List Json} (hitem : Numbers item) {fuel : ℕ}
    {rest : List Char}
    (hfirst : readValue fuel (spell item ++ (spellItems items ++ rest)) =
      some (item, spellItems items ++ rest))
    (hrest : readItems fuel (spellItems items ++ rest) = some (items, rest)) :
    readValue (fuel + 1) ('[' :: (spell item ++ spellItems items) ++ rest) =
      some (.array (item :: items), rest) := by
  obtain ⟨c, text, hspell, hc⟩ := exists_spell hitem
  rw [List.cons_append, List.append_assoc, readValue, hfirst]
  · simp only [Option.bind_eq_bind, Option.bind_some, hrest]
    rfl
  · intro later heq
    rw [hspell] at heq
    exact hc (List.cons.inj heq).1

theorem readValue_object {name : String} {value : Json} {members : List (String × Json)}
    {fuel : ℕ} {rest : List Char}
    (hfirst : readMember fuel
        (spellString name ++ ':' :: (spell value ++ (spellMembers members ++ rest))) =
      some ((name, value), spellMembers members ++ rest))
    (hrest : readMembers fuel (spellMembers members ++ rest) = some (members, rest)) :
    readValue (fuel + 1)
        ('{' :: (spellString name ++ ':' :: (spell value ++ spellMembers members)) ++ rest) =
      some (.object ((name, value) :: members), rest) := by
  rw [List.cons_append, List.append_assoc, List.cons_append, List.append_assoc, readValue, hfirst]
  · simp only [Option.bind_eq_bind, Option.bind_some, hrest]
    rfl
  · intro later heq
    rw [spellString, List.cons_append] at heq
    exact absurd (List.cons.inj heq).1 (by decide)

/-- Every value whose numbers are integers is read back. -/
theorem readBack (value : Json) : value.Everywhere Numbers → ReadBack value := by
  induction value using Json.children_induction with
  | step value ih =>
      intro hnumbers fuel rest hfuel hends
      have hchild : ∀ child ∈ value.children, ReadBack child := fun child hmem =>
        ih child hmem (hnumbers.child hmem)
      obtain ⟨first, text, hspell, _⟩ := exists_spell hnumbers.self
      obtain ⟨fuel, rfl⟩ : ∃ n, fuel = n + 1 := ⟨fuel - 1, by
        rw [hspell, List.length_cons] at hfuel
        omega⟩
      cases value with
      | null => rfl
      | bool value => cases value <;> rfl
      | number n => exact readValue_number (hnumbers.self n rfl) fuel hends
      | string text => exact readValue_string text fuel rest
      | array items =>
          cases items with
          | nil => rfl
          | cons item items =>
              rw [spell] at hfuel ⊢
              simp only [List.length_cons, List.length_append] at hfuel
              apply readValue_array (hnumbers.child List.mem_cons_self).self
              · exact hchild item List.mem_cons_self fuel _ (by omega)
                  (ends_spellItems items rest)
              · apply readItems_spelled _ fuel rest (by omega)
                exact fun other hmem => hchild other (List.mem_cons_of_mem item hmem)
      | object members =>
          cases members with
          | nil => rfl
          | cons member members =>
              obtain ⟨name, value⟩ := member
              rw [spell] at hfuel ⊢
              simp only [List.length_cons, List.length_append] at hfuel
              obtain ⟨fuel, rfl⟩ : ∃ n, fuel = n + 1 := ⟨fuel - 1, by omega⟩
              have hvalue : ReadBack value := hchild value List.mem_cons_self
              have hrest : ∀ member ∈ members, ReadBack member.2 := fun member hmem =>
                hchild member.2 (List.mem_cons_of_mem value (List.mem_map_of_mem hmem))
              apply readValue_object
              · exact readMember_spelled hvalue fuel (by omega) (ends_spellMembers members rest)
              · exact readMembers_spelled hrest (fuel + 1) rest (by omega)

theorem ends_nil : Ends [] := fun _ hc => by cases hc

/-- The text of a value determines it. -/
theorem spell_injective {first second : Json} (hfirst : first.Everywhere Numbers)
    (hsecond : second.Everywhere Numbers) (h : spell first = spell second) : first = second := by
  have hread := readBack first hfirst (spell first).length [] le_rfl ends_nil
  have hread' := readBack second hsecond (spell first).length [] (h ▸ le_rfl) ends_nil
  rw [← h, hread] at hread'
  exact (Prod.mk.inj (Option.some.inj hread')).1

end JsonText

end MbxCache.Foundation
