import TypeLedger.Location
import TypeLedger.Modifier
import TypeLedger.Text.Quoted

/-!
# Tokens

* A `Keyword` says what the word does in a declaration, so that two spellings of one word are the
  same keyword.
* A `TokenKind` is a keyword, a mark the grammar uses, an operator it only skips over, a literal or
  an identifier. A `Token` is a kind at a location.
* `TokenKind.label` is the form that messages show.
-/

namespace TypeLedger

/-! ## 1. Keywords -/

/-- The words a builtin type is spelt with. -/
inductive BuiltinWord
  | void
  | char
  | short
  | int
  | long
  | float
  | double
  | signed
  | unsigned
  | bool
  | wchar
  | char16
  | char32
  | int128
deriving DecidableEq, Repr

/-- What a reserved word does in a declaration. -/
inductive Keyword
  | storage (storageClass : StorageClass)
  | inlineFunction
  | qualifier (word : Qualifier)
  | builtin (word : BuiltinWord)
  | complex
  | record (key : RecordKey)
  | enumeration
  | access (access : Access)
  | virtualBase
deriving DecidableEq, Repr

/-- The spellings of the reserved words. -/
def Keyword.spellings : List (String × Keyword) :=
  [("typedef", .storage .typeSynonym), ("extern", .storage .external), ("static", .storage .static),
   ("auto", .storage .auto), ("register", .storage .register),
   ("inline", .inlineFunction), ("__inline", .inlineFunction), ("__inline__", .inlineFunction),
   ("const", .qualifier .constant), ("__const", .qualifier .constant),
   ("__const__", .qualifier .constant),
   ("volatile", .qualifier .volatile), ("__volatile", .qualifier .volatile),
   ("__volatile__", .qualifier .volatile),
   ("restrict", .qualifier .restrict), ("__restrict", .qualifier .restrict),
   ("__restrict__", .qualifier .restrict),
   ("void", .builtin .void), ("char", .builtin .char), ("short", .builtin .short),
   ("int", .builtin .int), ("long", .builtin .long), ("float", .builtin .float),
   ("double", .builtin .double), ("signed", .builtin .signed),
   ("__signed__", .builtin .signed), ("unsigned", .builtin .unsigned),
   ("bool", .builtin .bool), ("_Bool", .builtin .bool),
   ("_Complex", .complex), ("__complex__", .complex),
   ("wchar_t", .builtin .wchar), ("char16_t", .builtin .char16), ("char32_t", .builtin .char32),
   ("__int128", .builtin .int128),
   ("struct", .record .structKey), ("union", .record .unionKey), ("class", .record .classKey),
   ("enum", .enumeration),
   ("public", .access .pub), ("private", .access .priv), ("protected", .access .prot),
   ("virtual", .virtualBase)]

/-- The keyword a word spells, if it is reserved. -/
def Keyword.ofWord? (word : String) : Option Keyword :=
  Keyword.spellings.lookup word

/-- The form of a builtin word that messages show. -/
def BuiltinWord.label : BuiltinWord → String
  | .void => "KwVoid"
  | .char => "KwChar"
  | .short => "KwShort"
  | .int => "KwInt"
  | .long => "KwLong"
  | .float => "KwFloat"
  | .double => "KwDouble"
  | .signed => "KwSigned"
  | .unsigned => "KwUnsigned"
  | .bool => "KwBool"
  | .wchar => "KwWcharT"
  | .char16 => "KwChar16T"
  | .char32 => "KwChar32T"
  | .int128 => "KwInt128"

/-- The form of a keyword that messages show. -/
def Keyword.label : Keyword → String
  | .storage c => "Kw" ++ c.label
  | .inlineFunction => "KwInline"
  | .qualifier .constant => "KwConst"
  | .qualifier .volatile => "KwVolatile"
  | .qualifier .restrict => "KwRestrict"
  | .builtin w => w.label
  | .complex => "KwComplex"
  | .record .structKey => "KwStruct"
  | .record .unionKey => "KwUnion"
  | .record .classKey => "KwClass"
  | .enumeration => "KwEnum"
  | .access .pub => "KwPublic"
  | .access .priv => "KwPrivate"
  | .access .prot => "KwProtected"
  | .virtualBase => "KwVirtual"

/-! ## 2. Marks -/

/-- The marks that the grammar of declarations gives a meaning. -/
inductive Mark
  | parenOpen
  | parenClose
  | bracketOpen
  | bracketClose
  | braceOpen
  | braceClose
  | star
  | amp
  | ampAmp
  | caret
  | comma
  | semicolon
  | colon
  | equals
  | ellipsis
deriving DecidableEq, Repr

namespace Mark

/-- The form of a mark that messages show. -/
def label : Mark → String
  | .parenOpen => "LParen"
  | .parenClose => "RParen"
  | .bracketOpen => "LBracket"
  | .bracketClose => "RBracket"
  | .braceOpen => "LBrace"
  | .braceClose => "RBrace"
  | .star => "Star"
  | .amp => "Amp"
  | .ampAmp => "AmpAmp"
  | .caret => "Caret"
  | .comma => "Comma"
  | .semicolon => "Semi"
  | .colon => "Colon"
  | .equals => "Eq"
  | .ellipsis => "Ellipsis"

/-- A mark that opens a group. -/
def opens : Mark → Bool
  | .parenOpen | .bracketOpen | .braceOpen => true
  | _ => false

/-- A mark that closes a group. -/
def closes : Mark → Bool
  | .parenClose | .bracketClose | .braceClose => true
  | _ => false

/-- The way of pointing that a mark in front of a name declares. -/
def pointerKind? : Mark → Option PointerKind
  | .star => some .pointer
  | .amp => some .lvalueReference
  | .ampAmp => some .rvalueReference
  | .caret => some .block
  | _ => none

end Mark

/-! ## 3. Tokens -/

/-- What a token is. -/
inductive TokenKind
  | keyword (word : Keyword)
  | mark (mark : Mark)
  /-- An operator that occurs only in text that is skipped. -/
  | operator (symbol : Char)
  | intLit (value : UInt64)
  | charLit (value : UInt8)
  | stringLit (value : List UInt8)
  | ident (name : String)
deriving DecidableEq, Repr

/-- The form of a token that messages show. -/
def TokenKind.label : TokenKind → String
  | .keyword k => k.label
  | .mark m => m.label
  | .operator c => "Punct(" ++ Text.quoteChar c ++ ")"
  | .intLit n => "IntLit(" ++ toString n ++ ")"
  | .charLit b => "CharLit(" ++ toString b ++ ")"
  | .stringLit bs => "StringLit([" ++ ", ".intercalate (bs.map toString) ++ "])"
  | .ident name => "Ident(" ++ Text.quoteString name ++ ")"

/-- A token and the place of its first byte. -/
structure Token where
  kind : TokenKind
  location : Location
deriving DecidableEq, Repr

end TypeLedger
