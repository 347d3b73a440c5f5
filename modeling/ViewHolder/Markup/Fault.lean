import ViewHolder.Text.Basic
import ViewHolder.Text.Digits

/-!
# Faults of markup

Why a text is no well-formed markup.  A fault has a text and the texts of what lies behind it.

## Main definitions

* `Markup.SyntaxFault`, `Markup.ShapeFault` : markup that does not end, tags that do not match.
* `Markup.ReferenceFault` : a character reference or an entity that stands for nothing.
* `Markup.BindingFault` : a namespace declaration that is not allowed.
* `Markup.AttributeFault` : an attribute list that cannot be read.
* `Markup.Fault` : any fault but those of attribute lists.
-/

namespace ViewHolder.Markup

open Text (ticked)

/-! ### Markup that does not end -/

/-- A piece of markup that does not end, or that is of no known kind. -/
inductive SyntaxFault where
  | unclosedTag
  | unclosedInstruction
  | unclosedComment
  | unclosedCharacterData
  | unclosedDoctype
  | unknownMarkup
  deriving DecidableEq, Inhabited, Repr

/-- The text of a syntax fault. -/
def SyntaxFault.message : SyntaxFault → String
  | unclosedTag => "tag not closed: " ++ ticked ">" ++ " not found before end of input"
  | unclosedInstruction =>
    "processing instruction or xml declaration not closed: " ++ ticked "?>"
      ++ " not found before end of input"
  | unclosedComment => "comment not closed: " ++ ticked "-->" ++ " not found before end of input"
  | unclosedCharacterData =>
    "CDATA not closed: " ++ ticked "]]>" ++ " not found before end of input"
  | unclosedDoctype => "DOCTYPE not closed: " ++ ticked ">" ++ " not found before end of input"
  | unknownMarkup => "unknown or missed symbol in markup"

/-! ### Tags that do not match -/

/-- A document type without a name, or an end tag that closes no open element. -/
inductive ShapeFault where
  /-- The document type declaration names no type. -/
  | namelessDoctype
  /-- An end tag, and no element is open. -/
  | strayEnd (name : String)
  /-- An end tag for another element than the one opened last. -/
  | mismatchedEnd (opened found : String)
  deriving DecidableEq, Inhabited, Repr

/-- The text of a shape fault. -/
def ShapeFault.message : ShapeFault → String
  | namelessDoctype =>
    ticked "<!DOCTYPE>" ++ " declaration does not contain a name of a document type"
  | strayEnd name => "close tag " ++ ticked ("</" ++ name ++ ">") ++ " does not match any open tag"
  | mismatchedEnd opened found =>
    "expected " ++ ticked ("</" ++ opened ++ ">") ++ ", but " ++ ticked ("</" ++ found ++ ">")
      ++ " was found"

/-! ### References -/

/-- A character reference whose number stands for no character. -/
inductive NumberFault where
  /-- The number has a sign. -/
  | signed
  /-- There are no digits. -/
  | empty
  /-- Some character is no digit. -/
  | notADigit
  /-- The number does not fit into 32 bits. -/
  | tooLarge
  /-- The number is zero. -/
  | zero
  /-- The number is no code point of a character. -/
  | noCodePoint (n : Nat)
  deriving DecidableEq, Inhabited, Repr

namespace NumberFault

/-- The text of a number fault. -/
def message : NumberFault → String
  | signed => "unexpected number sign"
  | empty => "cannot parse integer from empty string"
  | notADigit => "invalid digit found in string"
  | tooLarge => "number too large to fit in target type"
  | zero => "0x0 character is not permitted in XML"
  | noCodePoint n => ticked (toString n) ++ " is not a valid codepoint"

/-- Whether the digits could not be read as a number at all. -/
def isUnreadable : NumberFault → Bool
  | empty | notADigit | tooLarge => true
  | signed | zero | noCodePoint _ => false

/-- The texts of what lies behind a number fault. -/
def causes (f : NumberFault) : List String := if f.isUnreadable then [f.message] else []

end NumberFault

/-- A reference in an attribute value that stands for nothing.  Offsets count bytes of the
value. -/
inductive ReferenceFault where
  /-- No `;` ends the reference that starts at `start`. -/
  | unterminated (start size : Nat)
  /-- The name from `start` to `stop` is no entity. -/
  | unknownEntity (start stop : Nat) (name : String)
  /-- The number stands for no character. -/
  | badNumber (cause : NumberFault)
  deriving DecidableEq, Inhabited, Repr

namespace ReferenceFault

/-- The text of a reference fault. -/
def message : ReferenceFault → String
  | unterminated start size =>
    "Error while escaping character at range " ++ toString start ++ ".." ++ toString size
      ++ ": Cannot find ';' after '&'"
  | unknownEntity start stop name =>
    "at " ++ toString start ++ ".." ++ toString stop ++ ": unrecognized entity " ++ ticked name
  | badNumber cause => "invalid character reference: " ++ cause.message

/-- The texts of what lies behind a reference fault. -/
def causes : ReferenceFault → List String
  | badNumber cause => cause.message :: cause.causes
  | _ => []

end ReferenceFault

/-! ### Namespace declarations -/

/-- A declaration that binds a reserved qualifier or a reserved namespace. -/
structure BindingFault where
  /-- The declared qualifier. -/
  qualifier : String
  /-- The namespace that it may not be bound to. -/
  namespaceName : String
  deriving DecidableEq, Inhabited, Repr

/-- A digit of a hexadecimal number in upper case. -/
def hexDigit (n : Nat) : Char := (Text.hexDigit n).toUpper

/-- A byte as printable text: printable characters other than the quote stand for themselves, a
quote is escaped, and any other byte is written as a hexadecimal number without padding. -/
def showByte (b : UInt8) : List Char :=
  let n := b.toNat
  if n = 34 then ['\\', '"']
  else if 32 ≤ n && n ≤ 126 then [Char.ofNat n]
  else ['0', 'x'] ++ (if n < 16 then [] else [hexDigit (n / 16)]) ++ [hexDigit (n % 16)]

/-- The bytes of a text between quotes. -/
def showBytes (s : String) : String :=
  String.ofList ('"' :: (s.toList.flatMap String.utf8EncodeChar).flatMap showByte ++ ['"'])

/-- The text of a binding fault. -/
def BindingFault.message (f : BindingFault) : String :=
  "The namespace prefix '" ++ showBytes f.qualifier ++ "' cannot be bound to '"
    ++ showBytes f.namespaceName ++ "'"

/-! ### Attribute lists -/

/-- An attribute list that cannot be read.  Offsets count bytes from the start of the tag. -/
inductive AttributeFault where
  /-- There is no `=` after a key. -/
  | expectedEquals (offset : Nat)
  /-- There is nothing after a `=`. -/
  | missingValue (offset : Nat)
  /-- A value does not start with a quote. -/
  | unquotedValue (offset : Nat)
  /-- A value does not end with the quote that it starts with. -/
  | unclosedValue (offset : Nat) (quote : Char)
  /-- A key was given before. -/
  | duplicateKey (offset previous : Nat)
  deriving DecidableEq, Inhabited, Repr

/-- The text of an attribute fault. -/
def AttributeFault.message : AttributeFault → String
  | expectedEquals n =>
    "position " ++ toString n ++ ": attribute key must be directly followed by " ++ ticked "="
      ++ " or space"
  | missingValue n =>
    "position " ++ toString n ++ ": " ++ ticked "=" ++ " must be followed by an attribute value"
  | unquotedValue n =>
    "position " ++ toString n ++ ": attribute value must be enclosed in " ++ ticked "\"" ++ " or "
      ++ ticked "'"
  | unclosedValue n quote =>
    "position " ++ toString n ++ ": missing closing quote " ++ ticked (String.ofList [quote])
      ++ " in attribute value"
  | duplicateKey n previous =>
    "position " ++ toString n ++ ": duplicated attribute, previous declaration at position "
      ++ toString previous

/-! ### All together -/

/-- Why a text is no well-formed markup. -/
inductive Fault where
  | badSyntax (cause : SyntaxFault)
  | badShape (cause : ShapeFault)
  | badReference (cause : ReferenceFault)
  | badBinding (cause : BindingFault)
  deriving DecidableEq, Inhabited, Repr

namespace Fault

/-- The text of a fault. -/
def message : Fault → String
  | badSyntax cause => "syntax error: " ++ cause.message
  | badShape cause => "ill-formed document: " ++ cause.message
  | badReference cause => cause.message
  | badBinding cause => cause.message

/-- The texts of what lies behind a fault. -/
def causes : Fault → List String
  | badSyntax cause => [cause.message]
  | badShape cause => [cause.message]
  | badReference cause => cause.message :: cause.causes
  | badBinding _ => []

end Fault

end ViewHolder.Markup
