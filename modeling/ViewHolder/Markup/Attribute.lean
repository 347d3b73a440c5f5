import ViewHolder.Markup.Reference

/-!
# Attributes

The attributes of a tag are keys with quoted values.  A key ends before a `=` or a space, spaces
may surround the `=`, and no space is needed after a value.

## Main definitions

* `Markup.Attribute` : a key and the value as it was written.
* `Markup.readAttributes` : the attributes of a tag up to the first fault, and that fault.
-/

namespace ViewHolder.Markup

/-- Whether a character is a space between the parts of a tag. -/
def isSpace (c : Char) : Bool := c == ' ' || c == '\t' || c == '\n' || c == '\r'

/-- A key and its value as it was written. -/
structure Attribute where
  /-- The key. -/
  key : List Char
  /-- The text between the quotes. -/
  value : List Char
  deriving DecidableEq, Inhabited, Repr

/-- Whether a character continues a key. -/
def isKeyChar (c : Char) : Bool := c != '=' && !isSpace c

/-- Whether a character opens a quoted value. -/
def isQuote (c : Char) : Bool := c == '"' || c == '\''

/-- What stands at the start of the rest of an attribute list. -/
inductive AttributeStep where
  /-- Nothing but spaces. -/
  | finished
  /-- Something that is no attribute. -/
  | fault (cause : AttributeFault)
  /-- An attribute with the offset of its key, and the rest of the list with its offset. -/
  | found (item : Attribute) (keyPos : Nat) (restPos : Nat) (rest : List Char)

/-- Read a value and its quotes. -/
def readValue (pos : Nat) (cs : List Char) : Except AttributeFault (List Char × List Char) :=
  match cs with
  | [] => .error (.missingValue pos)
  | quote :: quoted =>
    if isQuote quote then
      let value := quoted.takeWhile (· != quote)
      match quoted.dropWhile (· != quote) with
      | [] => .error (.unclosedValue (pos + 1 + Text.byteSize value) quote)
      | _ :: rest => .ok (value, rest)
    else .error (.unquotedValue pos)

/-- Read an attribute at the offset `pos`.  When `seen` holds the keys so far with their offsets,
a key that is given again is a fault; it is found before the value is looked at. -/
def readAttribute (seen : Option (List (List Char × Nat))) (pos : Nat) (cs : List Char) :
    AttributeStep :=
  match cs.dropWhile isSpace with
  | [] => .finished
  | first :: tail =>
    let keyPos := pos + Text.byteSize (cs.takeWhile isSpace)
    let key := first :: tail.takeWhile isKeyChar
    let afterKey := tail.dropWhile isKeyChar
    let equalsPos := keyPos + Text.byteSize key + Text.byteSize (afterKey.takeWhile isSpace)
    match afterKey.dropWhile isSpace with
    | '=' :: afterEquals =>
      match seen.bind (·.lookup key) with
      | some previous => .fault (.duplicateKey keyPos previous)
      | none =>
        let valuePos := equalsPos + 1 + Text.byteSize (afterEquals.takeWhile isSpace)
        match readValue valuePos (afterEquals.dropWhile isSpace) with
        | .error f => .fault f
        | .ok (value, rest) =>
          .found ⟨key, value⟩ keyPos (valuePos + 1 + Text.byteSize value + 1) rest
    | _ => .fault (.expectedEquals equalsPos)

theorem length_dropWhile_le (p : Char → Bool) (cs : List Char) :
    (cs.dropWhile p).length ≤ cs.length :=
  (List.dropWhile_suffix p).length_le

theorem readValue_shorter {pos : Nat} {cs value rest : List Char}
    (h : readValue pos cs = .ok (value, rest)) : rest.length < cs.length := by
  unfold readValue at h
  split at h
  · cases h
  · rename_i quote quoted
    split at h
    · dsimp only at h
      split at h
      · cases h
      · rename_i heq
        cases h
        have := length_dropWhile_le (· != quote) quoted
        rw [heq] at this
        simp only [List.length_cons] at this ⊢
        omega
    · cases h

/-- The rest of the list after an attribute is shorter than the list. -/
theorem readAttribute_shorter {seen : Option (List (List Char × Nat))} {pos keyPos restPos : Nat}
    {cs rest : List Char} {a : Attribute}
    (h : readAttribute seen pos cs = .found a keyPos restPos rest) : rest.length < cs.length := by
  unfold readAttribute at h
  split at h
  · cases h
  · rename_i first tail heq
    have h₁ := length_dropWhile_le isSpace cs
    dsimp only at h
    split at h
    · rename_i afterEquals heq₂
      have h₂ := length_dropWhile_le isSpace (tail.dropWhile isKeyChar)
      have h₃ := length_dropWhile_le isKeyChar tail
      have h₄ := length_dropWhile_le isSpace afterEquals
      split at h
      · cases h
      · split at h
        · cases h
        · rename_i value rest' hv
          cases h
          have h₅ := readValue_shorter hv
          rw [heq] at h₁
          rw [heq₂] at h₂
          simp only [List.length_cons] at *
          omega
    · cases h

/-- The attributes from the offset `pos` on, up to the first fault. -/
def attributesFrom (seen : Option (List (List Char × Nat))) (pos : Nat) (cs : List Char) :
    List Attribute × Option AttributeFault :=
  match h : readAttribute seen pos cs with
  | .finished => ([], none)
  | .fault f => ([], some f)
  | .found a keyPos restPos rest =>
    have := readAttribute_shorter h
    let later := attributesFrom (seen.map ((a.key, keyPos) :: ·)) restPos rest
    (a :: later.1, later.2)
termination_by cs.length

/-- The attributes of a tag up to the first fault, and that fault; a repeated key is a fault if
`distinct` is set.  The attributes start at the offset `pos` of the tag. -/
def readAttributes (distinct : Bool) (pos : Nat) (cs : List Char) :
    List Attribute × Option AttributeFault :=
  attributesFrom (if distinct then some [] else none) pos cs

end ViewHolder.Markup
