import TypeLedger.Specifier

/-!
# What can be wrong with a source text

* `LexFault`: a byte sequence that is no token. `ParseFault`: a token that no declaration has at
  its place. Each constructor is one cause; `message` words it.
* A `SourceError` is a fault at a location.
-/

namespace TypeLedger

/-- The character that shows a byte: the one with the byte's value as its code point. -/
def byteChar (b : UInt8) : Char :=
  Char.ofNat b.toNat

/-- Why a byte sequence is no token. -/
inductive LexFault
  | unterminatedComment
  | invalidByte (byte : UInt8)
  | invalidNumber (word : String)
  | unterminatedString
  | unterminatedChar
  | emptyChar
  /-- The byte behind the backslash begins no escape. -/
  | invalidEscape (byte : UInt8)
deriving DecidableEq, Repr

def LexFault.message : LexFault → String
  | .unterminatedComment => "unterminated block comment"
  | .invalidByte b => "invalid character: " ++ Text.quoteChar (byteChar b)
  | .invalidNumber w => "invalid number: " ++ w
  | .unterminatedString => "unterminated string literal"
  | .unterminatedChar => "unterminated character literal"
  | .emptyChar => "empty character literal"
  | .invalidEscape b => "invalid escape sequence: \\" ++ String.singleton (byteChar b)

/-- What the grammar asks for at a place. -/
inductive Expected
  | mark (mark : Mark)
  | identifier
  | bitWidth
deriving DecidableEq, Repr

def Expected.label : Expected → String
  | .mark m => m.label
  | .identifier => "identifier"
  | .bitWidth => "bit field width"

/-- Why tokens form no declaration. -/
inductive ParseFault
  | unexpected (expected : Expected) (found : TokenKind)
  | endOfFile
  | missingType
  /-- These builtin words form no type. -/
  | noSuchBuiltin (words : List BuiltinWord)
  | twoTypeNames
  | nameAndBuiltin
  | unknownBase (name : String)
  | nameless
  | redefinition (name : String)
  | baseOutsideClass
  | labelOutsideClass
  | wideBitField (width : UInt64)
deriving DecidableEq, Repr

def ParseFault.message : ParseFault → String
  | .unexpected e k => "expected " ++ e.label ++ ", found " ++ k.label
  | .endOfFile => "unexpected end of file"
  | .missingType => "missing type specifier"
  | .noSuchBuiltin ws => "invalid type specifier: " ++ BuiltinWord.report ws
  | .twoTypeNames => "invalid type specifier: more than one type name"
  | .nameAndBuiltin => "invalid type specifier: type name combined with builtin specifiers"
  | .unknownBase n => "unknown base class: " ++ n
  | .nameless => "invalid declaration: declarator without a name"
  | .redefinition n => "invalid declaration: redefinition of '" ++ n ++ "'"
  | .baseOutsideClass => "invalid declaration: base clause is only supported on class"
  | .labelOutsideClass => "invalid declaration: access label outside of class"
  | .wideBitField n => "invalid declaration: bit field width " ++ toString n ++ " too large"

/-- A fault of either kind. -/
inductive SourceFault
  | lex (fault : LexFault)
  | parse (fault : ParseFault)
deriving DecidableEq, Repr

/-- A fault and its place. -/
structure SourceError where
  location : Location
  fault : SourceFault
deriving DecidableEq, Repr

def SourceError.message (e : SourceError) : String :=
  match e.fault with
  | .lex f => e.location.text ++ ": lexer error: " ++ f.message
  | .parse f => e.location.text ++ ": parse error: " ++ f.message

end TypeLedger
