import ViewHolder.Markup.Attribute

/-!
# Tags of a text

A text is cut into tags.  Text between tags, comments, character data, instructions and the
document type are passed over; they are only checked for their ends.

## Main definitions

* `Markup.Token` : a start tag or an end tag.
* `Markup.Opening` : the kinds of markup, told apart by what follows the `<`.
* `Markup.Scan`, `Markup.scan` : the tags of a text up to the first fault, and that fault.
-/

namespace ViewHolder.Markup

/-- A start tag or an end tag. -/
inductive Token where
  /-- A start tag with its content, and whether it also ends its element. -/
  | startTag (content : List Char) (closed : Bool)
  /-- An end tag with its name. -/
  | endTag (name : List Char)
  deriving DecidableEq, Inhabited, Repr

/-- The kinds of markup. -/
inductive Opening where
  | tag
  | endTag
  | instruction
  | comment
  | characterData
  | doctype
  deriving DecidableEq, Inhabited, Repr

/-! ### Where markup ends -/

/-- The characters before the first `>` at which `closes` accepts the characters so far, last one
first, and the characters after it. -/
def cutWhere (closes : List Char → Bool) (seen : List Char) :
    List Char → Option (List Char × List Char)
  | [] => none
  | c :: cs =>
    if c == '>' && closes seen then some (seen.reverse, cs)
    else cutWhere closes (c :: seen) cs

/-- The characters before the first `>` outside quotes and the characters after it.  The quote
that is open, if any, is `quote`. -/
def cutTag (quote : Option Char) (seen : List Char) : List Char → Option (List Char × List Char)
  | [] => none
  | c :: cs =>
    match quote with
    | none =>
      if c == '>' then some (seen.reverse, cs)
      else cutTag (if isQuote c then some c else none) (c :: seen) cs
    | some q => cutTag (if c == q then none else some q) (c :: seen) cs

theorem cutWhere_eq {closes : List Char → Bool} {seen cs content rest : List Char}
    (h : cutWhere closes seen cs = some (content, rest)) :
    content ++ '>' :: rest = seen.reverse ++ cs := by
  induction cs generalizing seen with
  | nil => cases h
  | cons c cs ih =>
    rw [cutWhere] at h
    split at h
    · rename_i hc
      simp only [Bool.and_eq_true, beq_iff_eq] at hc
      cases h
      rw [hc.1]
    · simpa using ih h

theorem cutTag_eq {quote : Option Char} {seen cs content rest : List Char}
    (h : cutTag quote seen cs = some (content, rest)) :
    content ++ '>' :: rest = seen.reverse ++ cs := by
  induction cs generalizing quote seen with
  | nil => cases h
  | cons c cs ih =>
    unfold cutTag at h
    split at h
    · split at h
      · rename_i hc
        rw [beq_iff_eq] at hc
        cases h
        rw [hc]
      · simpa using ih h
    · simpa using ih h

namespace Opening

/-- The kind of markup that the characters after a `<` open; nothing else may follow `<!`. -/
def ofChars? : List Char → Option Opening
  | '!' :: '[' :: _ => some characterData
  | '!' :: '-' :: _ => some comment
  | '!' :: 'D' :: _ => some doctype
  | '!' :: 'd' :: _ => some doctype
  | '!' :: _ => none
  | '?' :: _ => some instruction
  | '/' :: _ => some endTag
  | _ => some tag

/-- Cut markup at its end. -/
def cut : Opening → List Char → Option (List Char × List Char)
  | tag, cs => cutTag none [] cs
  | endTag, cs => cutTag none [] cs
  | instruction, cs => cutWhere (['?'].isPrefixOf ·) [] cs
  | comment, cs => cutWhere (fun seen => ['-', '-'].isPrefixOf seen && 5 ≤ seen.length) [] cs
  | characterData, cs => cutWhere ([']', ']'].isPrefixOf ·) [] cs
  | doctype, cs => cutWhere (fun seen => seen.count '<' == seen.count '>') [] cs

/-- What is wrong with markup that does not end. -/
def unclosed : Opening → SyntaxFault
  | tag => .unclosedTag
  | endTag => .unclosedTag
  | instruction => .unclosedInstruction
  | comment => .unclosedComment
  | characterData => .unclosedCharacterData
  | doctype => .unclosedDoctype

theorem cut_eq {o : Opening} {cs content rest : List Char}
    (h : o.cut cs = some (content, rest)) : content ++ '>' :: rest = cs := by
  cases o <;> first | exact cutTag_eq h | exact cutWhere_eq h

end Opening

/-! ### What markup means -/

/-- The tag that a start tag with the given content is. -/
def startToken (content : List Char) : Token :=
  if content.getLast? = some '/' then .startTag content.dropLast true
  else .startTag content false

/-- The tag that an end tag with the given content after the `/` is.  Spaces at the end do not
belong to the name, unless there is nothing else. -/
def endToken (content : List Char) : Token :=
  .endTag (if content.all isSpace then content else Text.dropEndWhile isSpace content)

/-- Whether some characters start with a word, whatever the case of its letters. -/
def startsWithWord (word cs : List Char) : Bool :=
  word.map Char.toLower |>.isPrefixOf (cs.map Char.toLower)

/-- The tag that markup with the given content is, if it is one. -/
def Opening.token? (o : Opening) (content : List Char) : Except Fault (Option Token) :=
  match o with
  | tag => .ok (some (startToken content))
  | endTag => .ok (some (endToken (content.drop 1)))
  | instruction =>
    if content.length < 2 then .error (.badSyntax o.unclosed) else .ok none
  | comment =>
    if "!--".toList.isPrefixOf content then .ok none else .error (.badSyntax o.unclosed)
  | characterData =>
    if "![CDATA[".toList.isPrefixOf content then .ok none else .error (.badSyntax o.unclosed)
  | doctype =>
    let word := "!DOCTYPE".toList
    if !startsWithWord word content then .error (.badSyntax o.unclosed)
    else if (content.drop word.length).all isSpace then .error (.badShape .namelessDoctype)
    else .ok none

/-! ### The tags of a text -/

/-- The tags of a text up to the first fault, and that fault, each with the offset at which the
reader stands when it has met it. -/
structure Scan where
  /-- The tags. -/
  tokens : List (Token × Nat)
  /-- The fault that ends them, if any. -/
  fault : Option (Fault × Nat)
  deriving DecidableEq, Inhabited, Repr

/-- A scan with a tag in front. -/
def Scan.cons? (token : Option Token) (stop : Nat) (s : Scan) : Scan :=
  match token with
  | some t => { s with tokens := (t, stop) :: s.tokens }
  | none => s

/-- The tags of a text from the offset `pos` on. -/
def scanFrom (pos : Nat) (cs : List Char) : Scan :=
  match h₁ : cs.dropWhile (· != '<') with
  | [] => ⟨[], none⟩
  | _ :: after =>
    let start := pos + Text.byteSize (cs.takeWhile (· != '<')) + 1
    match Opening.ofChars? after with
    | none => ⟨[], some (.badSyntax .unknownMarkup, start)⟩
    | some o =>
      match h₂ : o.cut after with
      | none => ⟨[], some (.badSyntax o.unclosed, start + Text.byteSize after)⟩
      | some (content, rest) =>
        let stop := start + Text.byteSize content + 1
        match o.token? content with
        | .error f => ⟨[], some (f, stop)⟩
        | .ok token =>
          have : rest.length < cs.length := by
            have e₁ := length_dropWhile_le (· != '<') cs
            have e₂ := congrArg List.length (Opening.cut_eq h₂)
            rw [h₁] at e₁
            simp only [List.length_cons, List.length_append] at e₁ e₂
            omega
          (scanFrom stop rest).cons? token stop
termination_by cs.length

/-- The tags of a text. -/
def scan (cs : List Char) : Scan := scanFrom 0 cs

end ViewHolder.Markup
