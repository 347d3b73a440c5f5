import Mathlib.Tactic.IntervalCases
import ViewHolder.Decimal.Binary64
import ViewHolder.Json.Line
import ViewHolder.Proofs.AccessorNames
import ViewHolder.Proofs.SettingsLayers

/-!
# Reading JSON texts

A JSON text is one value with blanks around its parts: a literal, a number, a string, an array or an
object.  Between quotes a backslash writes a character that cannot stand for itself, and a character
beyond the sixteen-bit ones may be written as two surrogates.  The lines that events are reported as
are such texts, and reading one of them gives back the members that it was made of.

## Main definitions

* `Json.Data` : what a JSON text says.
* `Json.read?` : the reading of a JSON text.
* `Json.Value.data` : what a value of a member says.

## Main results

* `Json.readBody_escaped` : the characters of a string are read back.
* `Json.readValue_render` : the value of a member is read back.
* `Json.read?_line` : an object on one line is read back.
* `Json.line_printable` : a line has no control characters.
-/

namespace ViewHolder.Json

/-! ### What JSON texts say -/

/-- What a JSON text says. -/
inductive Data where
  /-- The literal `null`. -/
  | null
  /-- One of the literals `true` and `false`. -/
  | boolean (b : Bool)
  /-- A number: whether it has a minus sign, and its size. -/
  | number (negative : Bool) (size : Decimal)
  /-- A string. -/
  | text (s : String)
  /-- An array. -/
  | array (items : List Data)
  /-- An object, with its members in the order in which they stand. -/
  | object (members : List (String × Data))

/-! ### Blanks and strings -/

/-- Whether a character may stand between the parts of a text. -/
def isBlank (c : Char) : Bool := c == ' ' || c == '\t' || c == '\n' || c == '\r'

/-- A text from its first part on. -/
def skipBlanks (cs : List Char) : List Char := cs.dropWhile isBlank

/-- The character that a letter after a backslash writes. -/
def escaped? : Char → Option Char
  | '"' => some '"'
  | '\\' => some '\\'
  | '/' => some '/'
  | 'b' => some '\x08'
  | 'f' => some '\x0c'
  | 'n' => some '\n'
  | 'r' => some '\r'
  | 't' => some '\t'
  | _ => none

/-- The sixteen bits that four hexadecimal digits write, and the rest. -/
def readUnit : List Char → Option (Nat × List Char)
  | a :: b :: c :: d :: rest => (Text.ofDigits? 16 [a, b, c, d]).map (·, rest)
  | _ => none

/-- The character that is written by `\u` and its digits, and the rest.  The first of two
surrogates is followed by the second one. -/
def readNumbered (cs : List Char) : Option (Char × List Char) :=
  match readUnit cs with
  | none => none
  | some (unit, rest) =>
    if 0xD800 ≤ unit && unit ≤ 0xDBFF then
      match rest with
      | '\\' :: 'u' :: rest =>
        match readUnit rest with
        | none => none
        | some (second, rest) =>
          if 0xDC00 ≤ second && second ≤ 0xDFFF then
            some (Char.ofNat (0x10000 + (unit - 0xD800) * 0x400 + (second - 0xDC00)), rest)
          else none
      | _ => none
    else if unit.isValidChar then some (Char.ofNat unit, rest)
    else none

/-- The character that is written by what follows a backslash, and the rest. -/
def readEscape : List Char → Option (Char × List Char)
  | [] => none
  | 'u' :: rest => readNumbered rest
  | c :: rest => (escaped? c).map (·, rest)

/-- The next character of a string, and the rest.  Control characters do not stand for
themselves. -/
def readChar : List Char → Option (Char × List Char)
  | [] => none
  | '\\' :: rest => readEscape rest
  | c :: rest => if c.toNat < 32 then none else some (c, rest)

theorem length_lt_of_readUnit {cs rest : List Char} {n : Nat} (h : readUnit cs = some (n, rest)) :
    rest.length < cs.length := by
  unfold readUnit at h
  split at h
  · obtain ⟨_, -, heq⟩ := Option.map_eq_some_iff.1 h
    obtain ⟨-, rfl⟩ := Prod.mk.inj heq
    simp only [List.length_cons]
    omega
  · cases h

theorem length_lt_of_readNumbered {cs rest : List Char} {c : Char}
    (h : readNumbered cs = some (c, rest)) : rest.length < cs.length := by
  unfold readNumbered at h
  split at h
  · cases h
  · rename_i unit rest₁ hunit
    have hfirst := length_lt_of_readUnit hunit
    split at h
    · split at h
      · rename_i rest₂
        split at h
        · cases h
        · rename_i second rest₃ hsecond
          have hlater := length_lt_of_readUnit hsecond
          split at h
          · obtain ⟨-, rfl⟩ := Prod.mk.inj (Option.some.inj h)
            simp only [List.length_cons] at hfirst
            omega
          · cases h
      · cases h
    · split at h
      · obtain ⟨-, rfl⟩ := Prod.mk.inj (Option.some.inj h)
        exact hfirst
      · cases h

theorem length_lt_of_readEscape {cs rest : List Char} {c : Char}
    (h : readEscape cs = some (c, rest)) : rest.length < cs.length := by
  unfold readEscape at h
  split at h
  · cases h
  · exact Nat.lt_succ_of_lt (length_lt_of_readNumbered h)
  · obtain ⟨_, -, heq⟩ := Option.map_eq_some_iff.1 h
    obtain ⟨-, rfl⟩ := Prod.mk.inj heq
    exact Nat.lt_succ_self _

/-- Reading a character takes something of the text. -/
theorem length_lt_of_readChar {cs rest : List Char} {c : Char}
    (h : readChar cs = some (c, rest)) : rest.length < cs.length := by
  unfold readChar at h
  split at h
  · cases h
  · exact Nat.lt_succ_of_lt (length_lt_of_readEscape h)
  · split at h
    · cases h
    · obtain ⟨-, rfl⟩ := Prod.mk.inj (Option.some.inj h)
      exact Nat.lt_succ_self _

/-- The characters of a string after its opening quote, and what follows the closing one. -/
def readBody (cs : List Char) : Option (List Char × List Char) :=
  if cs.head? = some '"' then some ([], cs.tail)
  else
    match h : readChar cs with
    | none => none
    | some (c, rest) =>
      have := length_lt_of_readChar h
      (readBody rest).map fun r => (c :: r.1, r.2)
termination_by cs.length

/-! ### Numbers -/

/-- The digits in front of a text, at least one, and the rest. -/
def readDigits (cs : List Char) : Option (List Char × List Char) :=
  let digits := cs.takeWhile Char.isDigit
  if digits.isEmpty then none else some (digits, cs.dropWhile Char.isDigit)

/-- The whole part of a number, and the rest.  A zero begins no other number. -/
def readWhole (cs : List Char) : Option (List Char × List Char) :=
  match readDigits cs with
  | some ('0' :: _ :: _, _) => none
  | r => r

/-- The digits after the point of a number, if it has one, and the rest. -/
def readFraction : List Char → Option (List Char × List Char)
  | '.' :: rest => readDigits rest
  | cs => some ([], cs)

/-- Whether a minus sign stands in front of a text, and the text after its sign. -/
def splitSign : List Char → Bool × List Char
  | '-' :: rest => (true, rest)
  | '+' :: rest => (false, rest)
  | cs => (false, cs)

/-- The exponent of a number, zero if it has none, and the rest. -/
def readExponent : List Char → Option (Int × List Char)
  | [] => some (0, [])
  | c :: rest =>
    if c = 'e' ∨ c = 'E' then
      let (negative, rest) := splitSign rest
      (readDigits rest).bind fun (digits, rest) =>
        (Text.ofDigits? 10 digits).map fun n => (if negative then -(n : Int) else n, rest)
    else some (0, c :: rest)

/-- A number without its sign, and the rest. -/
def readSize (cs : List Char) : Option (Decimal × List Char) :=
  (readWhole cs).bind fun (whole, rest) =>
  (readFraction rest).bind fun (fraction, rest) =>
  (readExponent rest).bind fun (exponent, rest) =>
  (Text.ofDigits? 10 (whole ++ fraction)).map fun n => (⟨n, exponent - fraction.length⟩, rest)

/-- A number, and the rest. -/
def readNumber : List Char → Option (Data × List Char)
  | '-' :: rest => (readSize rest).map fun r => (.number true r.1, r.2)
  | cs => (readSize cs).map fun r => (.number false r.1, r.2)

/-! ### Values -/

/-- Some items with commas between them up to a closing character, and what follows it. -/
def readSeries {α : Type} (item : List Char → Option (α × List Char)) (close : Char)
    (cs : List Char) : Option (List α × List Char) :=
  match item cs with
  | none => none
  | some (a, rest) =>
    match skipBlanks rest with
    | [] => none
    | c :: rest =>
      if c = close then some ([a], rest)
      -- a reader of items takes something of the text, so that the second condition holds
      else if _h : c = ',' ∧ rest.length < cs.length then
        (readSeries item close rest).map fun r => (a :: r.1, r.2)
      else none
termination_by cs.length

/-- The items between an opening and a closing character, if any, and what follows. -/
def readItems {α : Type} (item : List Char → Option (α × List Char)) (close : Char)
    (cs : List Char) : Option (List α × List Char) :=
  if (skipBlanks cs).head? = some close then some ([], (skipBlanks cs).tail)
  else readSeries item close cs

/-- A member of an object, and the rest. -/
def readMember (value : List Char → Option (Data × List Char)) (cs : List Char) :
    Option ((String × Data) × List Char) :=
  match skipBlanks cs with
  | '"' :: rest =>
    match readBody rest with
    | none => none
    | some (name, rest) =>
      match skipBlanks rest with
      | ':' :: rest => (value rest).map fun r => ((String.ofList name, r.1), r.2)
      | _ => none
  | _ => none

/-- What follows a word in front of a text. -/
def dropWord? (word : String) (cs : List Char) : Option (List Char) :=
  cs.dropPrefix? word.toList

/-- A literal, and the rest. -/
def readLiteral (cs : List Char) : Option (Data × List Char) :=
  ((dropWord? "null" cs).map (Data.null, ·)).or <|
    ((dropWord? "true" cs).map (Data.boolean true, ·)).or <|
      (dropWord? "false" cs).map (Data.boolean false, ·)

/-- A value that is nested at most `depth` deep, and the rest. -/
def readValue : Nat → List Char → Option (Data × List Char)
  | 0, _ => none
  | depth + 1, cs =>
    match skipBlanks cs with
    | '"' :: rest => (readBody rest).map fun r => (.text (String.ofList r.1), r.2)
    | '[' :: rest => (readItems (readValue depth) ']' rest).map fun r => (.array r.1, r.2)
    | '\x7b' :: rest =>
      (readItems (readMember (readValue depth)) '\x7d' rest).map fun r => (.object r.1, r.2)
    | rest => (readLiteral rest).or (readNumber rest)

/-- What a JSON text says, if it is one.  No value is nested deeper than its text is long. -/
def read? (text : String) : Option Data :=
  match readValue (text.length + 1) text.toList with
  | some (d, rest) => if (skipBlanks rest).isEmpty then some d else none
  | none => none

/-! ### Strings are read back -/

/-- A character in a string stands for itself, behind a backslash, or as its number. -/
theorem escapeChar_cases (c : Char) :
    (escapeChar c = [c] ∧ c ≠ '"' ∧ c ≠ '\\' ∧ 32 ≤ c.toNat) ∨
      (∃ e, escapeChar c = ['\\', e] ∧ 32 ≤ e.toNat ∧ e ≠ 'u' ∧ escaped? e = some c) ∨
      (escapeChar c = ['\\', 'u', '0', '0', Text.hexDigit (c.toNat / 16),
        Text.hexDigit (c.toNat % 16)] ∧ c.toNat < 32) := by
  unfold escapeChar
  split_ifs with hquote hslash hline hreturn htab hback hpage hcontrol
  · exact .inr (.inl ⟨'"', rfl, by decide, by decide, by rw [hquote]; rfl⟩)
  · exact .inr (.inl ⟨'\\', rfl, by decide, by decide, by rw [hslash]; rfl⟩)
  · exact .inr (.inl ⟨'n', rfl, by decide, by decide, by rw [hline]; rfl⟩)
  · exact .inr (.inl ⟨'r', rfl, by decide, by decide, by rw [hreturn]; rfl⟩)
  · exact .inr (.inl ⟨'t', rfl, by decide, by decide, by rw [htab]; rfl⟩)
  · exact .inr (.inl ⟨'b', rfl, by decide, by decide, by rw [hback]; rfl⟩)
  · exact .inr (.inl ⟨'f', rfl, by decide, by decide, by rw [hpage]; rfl⟩)
  · exact .inr (.inr ⟨rfl, hcontrol⟩)
  · exact .inl ⟨rfl, hquote, hslash, Nat.le_of_not_lt hcontrol⟩

/-- What the hexadecimal digits of a control character are. -/
theorem hexDigit_spec : ∀ n < 32,
    Text.ofDigits? 16 ['0', '0', Text.hexDigit (n / 16), Text.hexDigit (n % 16)] = some n ∧
      32 ≤ (Text.hexDigit (n / 16)).toNat ∧ 32 ≤ (Text.hexDigit (n % 16)).toNat := by
  decide +kernel

theorem readChar_escapeChar (c : Char) (rest : List Char) :
    readChar (escapeChar c ++ rest) = some (c, rest) := by
  rcases escapeChar_cases c with ⟨hself, -, hslash, hplain⟩ | ⟨e, hself, -, hu, he⟩ |
    ⟨hself, hcontrol⟩
  · rw [hself, List.singleton_append, readChar.eq_def]
    split
    · rename_i heq
      cases heq
    · rename_i heq
      exact absurd (List.cons.inj heq).1 hslash
    · rename_i heq
      obtain ⟨rfl, rfl⟩ := List.cons.inj heq
      exact if_neg (Nat.not_lt.2 hplain)
  · have hescape : readEscape (e :: rest) = some (c, rest) := by
      rw [readEscape.eq_def]
      split
      · rename_i heq
        cases heq
      · rename_i heq
        exact absurd (List.cons.inj heq).1 hu
      · rename_i heq
        obtain ⟨rfl, rfl⟩ := List.cons.inj heq
        rw [he]
        rfl
    rw [hself]
    exact hescape
  · have hdigits := (hexDigit_spec _ hcontrol).1
    have hsmall : ¬ (decide (0xD800 ≤ c.toNat) && decide (c.toNat ≤ 0xDBFF)) = true := by
      simp only [Bool.and_eq_true, decide_eq_true_eq]
      omega
    have hvalid : c.toNat.isValidChar := Or.inl (by omega)
    have hnumbered : readNumbered (['0', '0', Text.hexDigit (c.toNat / 16),
        Text.hexDigit (c.toNat % 16)] ++ rest) = some (c, rest) := by
      rw [readNumbered, List.cons_append, List.cons_append, List.cons_append, List.cons_append,
        List.nil_append, readUnit, hdigits]
      dsimp only [Option.map_some]
      rw [if_neg hsmall, if_pos hvalid, Char.ofNat_toNat]
    rw [hself]
    exact hnumbered

/-- No character is written as a quote that stands alone. -/
theorem head?_escapeChar_append (c : Char) (rest : List Char) :
    (escapeChar c ++ rest).head? ≠ some '"' := by
  rcases escapeChar_cases c with ⟨hself, hquote, -⟩ | ⟨e, hself, -⟩ | ⟨hself, -⟩
  · rw [hself]
    exact fun h => hquote (Option.some.inj h)
  · rw [hself]
    exact fun h => absurd (Option.some.inj h) (by decide)
  · rw [hself]
    exact fun h => absurd (Option.some.inj h) (by decide)

/-- **The characters of a string are read back.** -/
theorem readBody_escaped (cs rest : List Char) :
    readBody (cs.flatMap escapeChar ++ '"' :: rest) = some (cs, rest) := by
  induction cs with
  | nil =>
    rw [readBody]
    exact if_pos rfl
  | cons c cs ih =>
    rw [List.flatMap_cons, List.append_assoc, readBody, if_neg (head?_escapeChar_append c _)]
    split
    · rename_i h
      rw [readChar_escapeChar] at h
      cases h
    · rename_i d more h
      rw [readChar_escapeChar] at h
      obtain ⟨rfl, rfl⟩ := Prod.mk.inj (Option.some.inj h)
      rw [ih]
      rfl

/-! ### Numbers are read back -/

/-- The digits of a number end where the text goes on like this. -/
def EndsNumber (rest : List Char) : Prop := rest.head? = some ',' ∨ rest.head? = some '\x7d'

theorem not_isDigit_of_endsNumber {rest : List Char} (h : EndsNumber rest) :
    ∀ c ∈ rest.head?, c.isDigit = false := by
  intro c hc
  rcases h with h | h
  · obtain rfl : ',' = c := Option.some.inj (h.symm.trans hc)
    rfl
  · obtain rfl : '\x7d' = c := Option.some.inj (h.symm.trans hc)
    rfl

theorem appendDigits?_eq_ofDigitChars {cs : List Char} (h : ∀ c ∈ cs, c.isDigit = true)
    (value : Nat) : Text.appendDigits? 10 value cs = some (Nat.ofDigitChars 10 cs value) := by
  induction cs generalizing value with
  | nil => rfl
  | cons c cs ih =>
    obtain ⟨hc, hcs⟩ := List.forall_mem_cons.1 h
    rw [Text.appendDigits?, digitValue?_eq_some_iff.2 ⟨hc, rfl⟩, Nat.ofDigitChars_cons]
    dsimp only
    rw [ih hcs, Nat.mul_comm]

theorem ofDigits?_toDigits (n : Nat) : Text.ofDigits? 10 (Nat.toDigits 10 n) = some n := by
  have hdigits : ∀ c ∈ Nat.toDigits 10 n, c.isDigit = true := fun c hc =>
    Nat.isDigit_of_mem_toDigits (by decide) (by decide) hc
  rw [Text.ofDigits?, if_neg (by simp),
    appendDigits?_eq_ofDigitChars hdigits, Nat.ofDigitChars_toDigits (by decide) (by decide)]

/-- A number other than zero is not written with a zero in front. -/
theorem head?_toDigits_ne {n : Nat} (hn : n ≠ 0) : (Nat.toDigits 10 n).head? ≠ some '0' := by
  induction n using Nat.strong_induction_on with
  | _ n ih =>
    by_cases hsmall : n < 10
    · rw [Nat.toDigits_of_lt_base hsmall]
      interval_cases n <;> simp_all [Nat.digitChar]
    · rw [Nat.toDigits_of_base_le (by decide) (Nat.le_of_not_lt hsmall),
        List.head?_append_of_ne_nil _ Nat.toDigits_ne_nil]
      exact ih (n / 10) (by omega) (by omega)

theorem readWhole_toDigits (n : Nat) {rest : List Char} (hrest : EndsNumber rest) :
    readWhole (Nat.toDigits 10 n ++ rest) = some (Nat.toDigits 10 n, rest) := by
  have hdigits : ∀ c ∈ Nat.toDigits 10 n, c.isDigit = true := fun c hc =>
    Nat.isDigit_of_mem_toDigits (by decide) (by decide) hc
  have htake : rest.takeWhile Char.isDigit = [] := by
    cases rest with
    | nil => rfl
    | cons c rest =>
      exact List.takeWhile_cons_of_neg (by simp [not_isDigit_of_endsNumber hrest c rfl])
  have hread : readDigits (Nat.toDigits 10 n ++ rest) = some (Nat.toDigits 10 n, rest) := by
    rw [readDigits, List.takeWhile_append_of_pos hdigits, htake, List.append_nil,
      List.dropWhile_append_of_pos hdigits,
      Text.dropWhile_eq_self (not_isDigit_of_endsNumber hrest)]
    exact if_neg (by simp)
  rw [readWhole, hread]
  split
  · rename_i d ds more heq
    have hdigits : Nat.toDigits 10 n = '0' :: d :: ds := (Prod.mk.inj (Option.some.inj heq)).1
    by_cases hn : n = 0
    · subst hn
      cases hdigits
    · exact absurd (congrArg List.head? hdigits) (head?_toDigits_ne hn)
  · rfl

/-- **A natural number is read back.** -/
theorem readNumber_toString (n : Nat) {rest : List Char} (hrest : EndsNumber rest) :
    readNumber ((toString n).toList ++ rest) = some (.number false ⟨n, 0⟩, rest) := by
  have hfraction : readFraction rest = some ([], rest) := by
    unfold readFraction
    split
    · simp [EndsNumber] at hrest
    · rfl
  have hexponent : readExponent rest = some (0, rest) := by
    cases rest with
    | nil => rfl
    | cons c rest =>
      refine if_neg ?_
      rintro (rfl | rfl) <;> simp [EndsNumber] at hrest
  have hsize : readSize (Nat.toDigits 10 n ++ rest) = some (⟨n, 0⟩, rest) := by
    simp only [readSize, readWhole_toDigits n hrest, hfraction, hexponent, Option.bind_some,
      List.append_nil, ofDigits?_toDigits, Option.map_some]
    rfl
  rw [Nat.toString_eq_repr, Nat.toList_repr]
  unfold readNumber
  split
  · rename_i more heq
    have hhead : (Nat.toDigits 10 n).head? = some '-' := by
      rw [← List.head?_append_of_ne_nil _ Nat.toDigits_ne_nil, heq]
      rfl
    exact absurd (Nat.isDigit_of_mem_toDigits (by decide) (by decide) (List.mem_of_head? hhead))
      (by decide)
  · rw [hsize]
    rfl

/-! ### Values are read back -/

theorem skipBlanks_cons {c : Char} (hc : isBlank c = false) (cs : List Char) :
    skipBlanks (c :: cs) = c :: cs := List.dropWhile_cons_of_neg (by simp [hc])

theorem separated_cons (piece next : List Char) (pieces : List (List Char)) :
    separated (piece :: next :: pieces) = piece ++ ',' :: separated (next :: pieces) := by
  rw [separated, separated, List.intercalate_cons_cons, List.append_assoc, List.singleton_append]

section

variable {α β : Type} {item : List Char → Option (β × List Char)} {close : Char}
  {render : α → List Char} {value : α → β} {as : List α}

/-- **A series is read back** if its items are, whatever follows them. -/
theorem readSeries_separated (hclose : isBlank close = false) (hcomma : close ≠ ',')
    (hitem : ∀ a ∈ as, ∀ rest, rest.head? = some ',' ∨ rest.head? = some close →
      item (render a ++ rest) = some (value a, rest)) (hne : as ≠ []) (rest : List Char) :
    readSeries item close (separated (as.map render) ++ close :: rest) =
      some (as.map value, rest) := by
  induction as with
  | nil => exact absurd rfl hne
  | cons a as ih =>
    obtain ⟨hfirst, hothers⟩ := List.forall_mem_cons.1 hitem
    cases as with
    | nil =>
      have hlast := hfirst (close :: rest) (.inr rfl)
      rw [List.map_singleton, separated, List.intercalate_singleton, readSeries, hlast]
      dsimp only
      rw [skipBlanks_cons hclose]
      exact if_pos rfl
    | cons b as =>
      have hnext := ih hothers (List.cons_ne_nil b as)
      rw [List.map_cons, List.map_cons, separated_cons, ← List.map_cons, List.append_assoc,
        List.cons_append, readSeries, hfirst _ (.inl rfl)]
      dsimp only
      rw [skipBlanks_cons (by decide)]
      dsimp only
      rw [if_neg (Ne.symm hcomma), dif_pos ⟨rfl, by simp; omega⟩, hnext]
      rfl

/-- Items between brackets are read back. -/
theorem readItems_separated (hclose : isBlank close = false) (hcomma : close ≠ ',')
    (hitem : ∀ a ∈ as, ∀ rest, rest.head? = some ',' ∨ rest.head? = some close →
      item (render a ++ rest) = some (value a, rest))
    (hhead : ∀ a ∈ as, (render a).head? = some '"') (hquote : close ≠ '"') (rest : List Char) :
    readItems item close (separated (as.map render) ++ close :: rest) =
      some (as.map value, rest) := by
  cases as with
  | nil =>
    rw [List.map_nil, separated, List.intercalate_nil, List.nil_append, readItems,
      skipBlanks_cons hclose]
    exact if_pos rfl
  | cons a as =>
    obtain ⟨more, hmore⟩ : ∃ more,
        separated ((a :: as).map render) ++ close :: rest = '"' :: more := by
      obtain ⟨tail, htail⟩ := List.head?_eq_some_iff.1 (hhead a List.mem_cons_self)
      cases as with
      | nil =>
        rw [List.map_singleton, separated, List.intercalate_singleton, htail]
        exact ⟨_, rfl⟩
      | cons b as =>
        rw [List.map_cons, List.map_cons, separated_cons, htail]
        exact ⟨_, rfl⟩
    have hopen : ¬ (skipBlanks ('"' :: more)).head? = some close := by
      rw [skipBlanks_cons (by decide)]
      exact fun h => hquote (Option.some.inj h).symm
    rw [readItems, hmore, if_neg hopen, ← hmore,
      readSeries_separated hclose hcomma hitem (List.cons_ne_nil a as)]

end

/-! The first character of a value says of which kind it is. -/

theorem readValue_string (depth : Nat) (rest : List Char) : readValue (depth + 1) ('"' :: rest) =
    (readBody rest).map fun r => (.text (String.ofList r.1), r.2) := rfl

theorem readValue_array (depth : Nat) (rest : List Char) : readValue (depth + 1) ('[' :: rest) =
    (readItems (readValue depth) ']' rest).map fun r => (.array r.1, r.2) := rfl

theorem readValue_object (depth : Nat) (rest : List Char) :
    readValue (depth + 1) ('\x7b' :: rest) =
      (readItems (readMember (readValue depth)) '\x7d' rest).map fun r => (.object r.1, r.2) := rfl

theorem digit_ne {d c : Char} (hd : d.isDigit = true) (hc : c.isDigit = false) : d ≠ c := by
  rintro rfl
  rw [hd] at hc
  cases hc

/-- A word that begins with a letter is not in front of a digit. -/
theorem dropWord?_digit {word : String} {c d : Char} (hword : word.toList.head? = some c)
    (hc : c.isDigit = false) (hd : d.isDigit = true) (cs : List Char) :
    dropWord? word (d :: cs) = none := by
  refine Option.eq_none_iff_forall_ne_some.2 fun rest hrest => ?_
  obtain ⟨front, heq, hfront⟩ := List.dropPrefix?_eq_some_iff.1 hrest
  obtain ⟨tail, htail⟩ := List.head?_eq_some_iff.1 hword
  rw [eq_of_beq hfront, htail, List.cons_append] at heq
  exact digit_ne hd hc (List.cons.inj heq).1

theorem readValue_digit (depth : Nat) {d : Char} (hd : d.isDigit = true) (cs : List Char) :
    readValue (depth + 1) (d :: cs) = readNumber (d :: cs) := by
  have hliteral : readLiteral (d :: cs) = none := by
    have hnull : dropWord? "null" (d :: cs) = none :=
      dropWord?_digit (c := 'n') (by simp) (by decide) hd cs
    have htrue : dropWord? "true" (d :: cs) = none :=
      dropWord?_digit (c := 't') (by simp) (by decide) hd cs
    have hfalse : dropWord? "false" (d :: cs) = none :=
      dropWord?_digit (c := 'f') (by simp) (by decide) hd cs
    rw [readLiteral, hnull, htrue, hfalse]
    rfl
  have hother {c : Char} (hc : c.isDigit = false) : d ≠ c := digit_ne hd hc
  have hblank : isBlank d = false := by
    simp only [isBlank, Bool.or_eq_false_iff, beq_eq_false_iff_ne]
    exact ⟨⟨⟨hother rfl, hother rfl⟩, hother rfl⟩, hother rfl⟩
  rw [readValue, skipBlanks_cons hblank]
  split
  · rename_i heq
    exact absurd (List.cons.inj heq).1 (hother rfl)
  · rename_i heq
    exact absurd (List.cons.inj heq).1 (hother rfl)
  · rename_i heq
    exact absurd (List.cons.inj heq).1 (hother rfl)
  · rw [hliteral, Option.none_or]

theorem readMember_named {value : List Char → Option (Data × List Char)} {name : String}
    {cs rest : List Char} (h : readBody cs = some (name.toList, ':' :: rest)) :
    readMember value ('"' :: cs) = (value rest).map fun r => ((name, r.1), r.2) := by
  have hopen : readMember value ('"' :: cs) =
      match readBody cs with
      | none => none
      | some (name, rest) =>
        match skipBlanks rest with
        | ':' :: rest => (value rest).map fun r => ((String.ofList name, r.1), r.2)
        | _ => none := rfl
  rw [hopen, h]
  change (value rest).map _ = _
  rw [String.ofList_toList]

theorem head?_quote (s : String) : (quote s).head? = some '"' := rfl

theorem quote_append (s : String) (rest : List Char) :
    quote s ++ rest = '"' :: (s.toList.flatMap escapeChar ++ '"' :: rest) := by
  rw [quote, List.cons_append, List.cons_append, List.append_assoc, List.singleton_append]

/-- A string is read back. -/
theorem readValue_quote (depth : Nat) (s : String) (rest : List Char) :
    readValue (depth + 1) (quote s ++ rest) = some (.text s, rest) := by
  rw [quote_append, readValue_string, readBody_escaped, Option.map_some, String.ofList_toList]

/-- What a value of a member says. -/
def Value.data : Value → Data
  | text s => .text s
  | number n => .number false ⟨n, 0⟩
  | texts l => .array (l.map .text)

/-- **The value of a member is read back.** -/
theorem readValue_render (depth : Nat) (v : Value) {rest : List Char} (hrest : EndsNumber rest) :
    readValue (depth + 2) (v.render ++ rest) = some (v.data, rest) := by
  cases v with
  | text s => exact readValue_quote _ s rest
  | number n =>
    obtain ⟨d, ds, hds⟩ := List.exists_cons_of_ne_nil (Nat.toDigits_ne_nil (b := 10) (n := n))
    have hd : d.isDigit = true := Nat.isDigit_of_mem_toDigits (b := 10) (n := n) (by decide)
      (by decide) (hds ▸ List.mem_cons_self)
    have htext : (toString n).toList ++ rest = d :: (ds ++ rest) := by
      rw [Nat.toString_eq_repr, Nat.toList_repr, hds, List.cons_append]
    rw [Value.render, htext, readValue_digit _ hd, ← htext, readNumber_toString n hrest]
    rfl
  | texts l =>
    have hitems : readItems (readValue (depth + 1)) ']' (separated (l.map quote) ++ ']' :: rest) =
        some (l.map Data.text, rest) :=
      readItems_separated (by decide) (by decide) (fun s _ rest _ => readValue_quote depth s rest)
        (fun s _ => head?_quote s) (by decide) rest
    have htext : (Value.texts l).render ++ rest =
        '[' :: (separated (l.map quote) ++ ']' :: rest) := by
      simp [Value.render]
    rw [htext, readValue_array, hitems]
    rfl

/-- A member is read back. -/
theorem readMember_render (depth : Nat) (m : Member) {rest : List Char} (hrest : EndsNumber rest) :
    readMember (readValue (depth + 2)) (renderMember m ++ rest) =
      some ((m.1, m.2.data), rest) := by
  rw [renderMember, List.append_assoc, quote_append, List.cons_append,
    readMember_named (readBody_escaped _ _), readValue_render depth _ hrest, Option.map_some]

/-- What an object of some members says. -/
def objectOf (members : List Member) : Data := .object (members.map fun m => (m.1, m.2.data))

/-- **An object on one line is read back.** -/
theorem read?_line (members : List Member) : read? (line members) = some (objectOf members) := by
  have hchars : (line members).toList =
      '\x7b' :: (separated (members.map renderMember) ++ ['\x7d']) := by
    rw [line, String.toList_ofList, List.cons_append]
  obtain ⟨depth, hdepth⟩ : ∃ depth, (line members).length + 1 = depth + 2 + 1 := by
    refine ⟨(separated (members.map renderMember)).length, ?_⟩
    rw [← String.length_toList, hchars]
    simp
  have hitems : readItems (readMember (readValue (depth + 2))) '\x7d'
      (separated (members.map renderMember) ++ '\x7d' :: []) =
        some (members.map fun m => (m.1, m.2.data), []) :=
    readItems_separated (by decide) (by decide)
      (fun m _ rest hrest => readMember_render depth m hrest) (fun _ _ => rfl) (by decide) []
  rw [read?, hdepth, hchars, readValue_object, hitems]
  rfl

/-- The reader knows more of the notation than lines make use of. -/
example : read? " [-2.5e1, \"\\u00e9\\ud83d\\ude00\\/\" ,null, \x7b\"a\" : true\x7d]" =
    some (.array [.number true ⟨25, 0⟩, .text "é😀/", .null, .object [("a", .boolean true)]]) := by
  cbv

/-! ### Lines are printable -/

theorem printable_separated {pieces : List (List Char)}
    (h : ∀ piece ∈ pieces, ∀ c ∈ piece, 32 ≤ c.toNat) : ∀ c ∈ separated pieces, 32 ≤ c.toNat := by
  induction pieces with
  | nil => simp [separated]
  | cons piece pieces ih =>
    obtain ⟨hpiece, hothers⟩ := List.forall_mem_cons.1 h
    cases pieces with
    | nil => rwa [separated, List.intercalate_singleton]
    | cons next pieces =>
      rw [separated_cons]
      intro c hc
      rcases List.mem_append.1 hc with hc | hc
      · exact hpiece c hc
      · rcases List.mem_cons.1 hc with rfl | hc
        · decide
        · exact ih hothers c hc

theorem printable_quote (s : String) : ∀ c ∈ quote s, 32 ≤ c.toNat := by
  have hescaped (d : Char) : ∀ c ∈ escapeChar d, 32 ≤ c.toNat := by
    rcases escapeChar_cases d with ⟨hself, -, -, hplain⟩ | ⟨e, hself, he, -⟩ | ⟨hself, hcontrol⟩
    · simpa [hself] using hplain
    · simpa [hself] using he
    · obtain ⟨-, hfirst, hsecond⟩ := hexDigit_spec _ hcontrol
      simpa [hself] using And.intro hfirst hsecond
  intro c hc
  rw [quote, List.mem_append, List.mem_cons, List.mem_flatMap, List.mem_singleton] at hc
  rcases hc with (rfl | ⟨d, -, hc⟩) | rfl
  · decide
  · exact hescaped d c hc
  · decide

theorem printable_render (v : Value) : ∀ c ∈ v.render, 32 ≤ c.toNat := by
  cases v with
  | text s => exact printable_quote s
  | number n =>
    intro c hc
    have hdigit := Char.isDigit_iff_toNat.1 (Holder.isDigit_of_mem_toString hc)
    exact le_trans (by decide) hdigit.1
  | texts l =>
    intro c hc
    rw [Value.render, List.mem_append, List.mem_cons, List.mem_singleton] at hc
    rcases hc with (rfl | hc) | rfl
    · decide
    · exact printable_separated (List.forall_mem_map.2 fun s _ => printable_quote s) c hc
    · decide

/-- **A line has no control characters**, in particular no line ends. -/
theorem line_printable (members : List Member) : ∀ c ∈ (line members).toList, 32 ≤ c.toNat := by
  have hmember (m : Member) : ∀ c ∈ renderMember m, 32 ≤ c.toNat := by
    intro c hc
    rw [renderMember, List.mem_append, List.mem_cons] at hc
    rcases hc with hc | rfl | hc
    · exact printable_quote _ c hc
    · decide
    · exact printable_render _ c hc
  intro c hc
  rw [line, String.toList_ofList, List.mem_append, List.mem_cons, List.mem_singleton] at hc
  rcases hc with (rfl | hc) | rfl
  · decide
  · exact printable_separated (List.forall_mem_map.2 fun m _ => hmember m) c hc
  · decide

end ViewHolder.Json
