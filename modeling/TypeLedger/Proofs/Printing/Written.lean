import TypeLedger.CType.Context
import TypeLedger.Environment.Declare
import TypeLedger.Proofs.Lexing.Spelled
import TypeLedger.Specifier
import TypeLedger.Text.Blank
import Mathlib.Data.List.Forall2

/-!
# Declarations as texts and as tokens

* `CType.Writable`: the types whose declaration can be written and read back.
* `CType.Legible`: the types whose declaration lexes to what has been written.
* `CType.written` is the text of a declaration, `CType.kinds` are its tokens: those of the innermost
  type, then the declarator, which is put together from the name outwards.
* `CType.spelled_written`: the text of a legible type lexes to its tokens.
-/

namespace TypeLedger

/-! ## 1. Writable types -/

/-- How records and enumerations are called. -/
structure Labels where
  record : RecordId → RecordKey × String
  enumeration : EnumId → String

/-- A kind of pointing that is a reference. -/
def PointerKind.isReference : PointerKind → Bool
  | .lvalueReference | .rvalueReference => true
  | _ => false

namespace CType

/-- The type is a reference. -/
def isReference : CType → Bool
  | pointer _ k _ => k.isReference
  | _ => false

/-- A declarator of the type binds tighter than a pointer's. -/
def isTight : CType → Bool
  | array .. | function .. => true
  | _ => false

/-- The types whose declaration can be written and read back, over the records `r` and the
enumerations `e`. No qualifier stands at an array or a function, which could not carry it; no
reference refers to a reference; and the only parameter of a function is not `void`, which would
stand for none. -/
inductive Writable (r : RecordId → Prop) (e : EnumId → Prop) : CType → Prop
  | builtin {q : Qualifiers} {s : String} (hs : ∃ ws, BuiltinWord.canonical? ws = some s) :
    Writable r e (.builtin q s)
  | record {q : Qualifiers} {id : RecordId} (hr : r id) : Writable r e (.record q id)
  | enumeration {q : Qualifiers} {id : EnumId} (he : e id) : Writable r e (.enumeration q id)
  | pointer {q : Qualifiers} {k : PointerKind} {t : CType} (hk : k ≠ .member)
    (href : k.isReference = true → t.isReference = false) (ht : Writable r e t) :
    Writable r e (.pointer q k t)
  | array {n : ArraySize} {t : CType} (ht : Writable r e t) : Writable r e (.array .none n t)
  | function {t : CType} {ps : List CType} {v : Bool} (ht : Writable r e t)
    (hps : ∀ p ∈ ps, Writable r e p) (hv : v = true ∨ ps ≠ [.builtin .none "void"]) :
    Writable r e (.function .none t ps v)

theorem Writable.mono {r r' : RecordId → Prop} {e e' : EnumId → Prop} {t : CType}
    (h : t.Writable r e) (hr : ∀ id, r id → r' id) (he : ∀ id, e id → e' id) :
    t.Writable r' e' := by
  induction h with
  | builtin hs => exact .builtin hs
  | record h => exact .record (hr _ h)
  | enumeration h => exact .enumeration (he _ h)
  | pointer hk href _ ih => exact .pointer hk href ih
  | array _ ih => exact .array ih
  | function _ _ hv ih ihs => exact .function ih ihs hv

/-- The type is an `&` without qualifiers, which would run into an ampersand behind it. -/
def isAmpersand : CType → Bool
  | pointer q .lvalueReference _ => q.isEmpty
  | _ => false

/-- The types whose declaration lexes to what has been written, over the records `r` and the
enumerations `e`: no qualifier stands at an array or a function, and no `&` without qualifiers is
referred to. -/
inductive Legible (r : RecordId → Prop) (e : EnumId → Prop) : CType → Prop
  | builtin {q : Qualifiers} {s : String} (hs : ∃ ws, BuiltinWord.canonical? ws = some s) :
    Legible r e (.builtin q s)
  | record {q : Qualifiers} {id : RecordId} (hr : r id) : Legible r e (.record q id)
  | enumeration {q : Qualifiers} {id : EnumId} (he : e id) : Legible r e (.enumeration q id)
  | pointer {q : Qualifiers} {k : PointerKind} {t : CType} (hk : k ≠ .member)
    (href : k.isReference = true → t.isAmpersand = false) (ht : Legible r e t) :
    Legible r e (.pointer q k t)
  | array {n : ArraySize} {t : CType} (ht : Legible r e t) : Legible r e (.array .none n t)
  | function {t : CType} {ps : List CType} {v : Bool} (ht : Legible r e t)
    (hps : ∀ p ∈ ps, Legible r e p) : Legible r e (.function .none t ps v)

theorem isReference_of_isAmpersand {t : CType} (h : t.isAmpersand = true) :
    t.isReference = true := by
  cases t with
  | pointer q k t => cases k <;> first | rfl | cases h
  | _ => cases h

theorem Writable.legible {r : RecordId → Prop} {e : EnumId → Prop} {t : CType}
    (h : t.Writable r e) : t.Legible r e := by
  induction h with
  | builtin hs => exact .builtin hs
  | record hr => exact .record hr
  | enumeration he => exact .enumeration he
  | pointer hk href _ ih =>
    refine .pointer hk (fun hr => ?_) ih
    rw [Bool.eq_false_iff]
    exact fun ha => Bool.eq_false_iff.1 (href hr) (isReference_of_isAmpersand ha)
  | array _ ih => exact .array ih
  | function _ _ _ ih ihs => exact .function ih ihs

/-! ## 2. Texts -/

end CType

/-- The declarator of a pointer, in parentheses if the type pointed at binds tighter. -/
def pointerText (tight : Bool) (kind : PointerKind) (quals : Qualifiers) (name : String) :
    String :=
  let inner :=
    if quals.isEmpty then kind.sigil ++ name
    else Fragment.beside (kind.sigil ++ quals.spelling) name
  if tight then "(" ++ inner ++ ")" else inner

namespace CType

mutual

/-- The declaration of a name with the type. -/
def written (l : Labels) : CType → String → String
  | builtin q s, name => Fragment.ofWords [q.spelling, s, name]
  | record q id, name =>
    Fragment.ofWords [q.spelling, (l.record id).1.word, (l.record id).2, name]
  | enumeration q id, name => Fragment.ofWords [q.spelling, "enum", l.enumeration id, name]
  | pointer q k t, name => written l t (pointerText t.isTight k q name)
  | array _ n t, name => written l t (Environment.arrayDeclarator n name)
  | function _ t ps v, name =>
    written l t (Environment.functionDeclarator (writtenAll l ps) v name)
  | _, name => Fragment.incomplete name

/-- The declarations of parameters. -/
def writtenAll (l : Labels) : List CType → List String
  | [] => []
  | t :: ts => written l t "" :: writtenAll l ts

end

end CType

/-! ## 3. Tokens -/

/-- The qualifiers that are present, in the order in which they are written. -/
def Qualifiers.members (q : Qualifiers) : List Qualifier :=
  (if q.isConst then [.constant] else []) ++ (if q.isVolatile then [.volatile] else [])
    ++ (if q.isRestrict then [.restrict] else [])

/-- The tokens of qualifiers. -/
def Qualifiers.kinds (q : Qualifiers) : List TokenKind :=
  q.members.map fun w => .keyword (.qualifier w)

/-- The mark of a kind of pointing. -/
def PointerKind.mark : PointerKind → Mark
  | .pointer | .member => .star
  | .lvalueReference => .amp
  | .rvalueReference => .ampAmp
  | .block => .caret

/-- The builtin words that a spelling consists of. -/
def spellingWords (s : String) : List BuiltinWord :=
  (Text.words s).filterMap fun w =>
    match Keyword.ofWord? w with
    | some (.builtin b) => some b
    | _ => none

/-- The tokens of a pointer's declarator. -/
def pointerKinds (tight : Bool) (kind : PointerKind) (quals : Qualifiers)
    (name : List TokenKind) : List TokenKind :=
  let inner := .mark kind.mark :: (quals.kinds ++ name)
  if tight then .mark .parenOpen :: (inner ++ [.mark .parenClose]) else inner

def sizeKinds : ArraySize → List TokenKind
  | .fixed n => [.intLit n]
  | .unknown => []

/-- The tokens of an array's suffix. -/
def arrayKinds (size : ArraySize) : List TokenKind :=
  .mark .bracketOpen :: (sizeKinds size ++ [.mark .bracketClose])

/-- Tokens with commas between. -/
def commaKinds : List (List TokenKind) → List TokenKind
  | [] => []
  | [ks] => ks
  | ks :: rest => ks ++ .mark .comma :: commaKinds rest

/-- The tokens of parameters and of the ellipsis behind them. -/
def parameterKinds (params : List (List TokenKind)) (variadic : Bool) : List TokenKind :=
  commaKinds (params ++ if variadic then [[.mark .ellipsis]] else [])

/-- The tokens of a function's suffix. -/
def functionKinds (params : List (List TokenKind)) (variadic : Bool) : List TokenKind :=
  .mark .parenOpen :: (parameterKinds params variadic ++ [.mark .parenClose])

namespace CType

/-- The type at the innermost place, which the specifiers of a declaration name. -/
def leaf : CType → CType
  | pointer _ _ t | array _ _ t | function _ t _ _ => t.leaf
  | t => t

/-- The tokens of the specifiers that name a type. -/
def specifierKinds (l : Labels) : CType → List TokenKind
  | builtin q s => q.kinds ++ (spellingWords s).map fun w => .keyword (.builtin w)
  | record q id =>
    q.kinds ++ [.keyword (.record (l.record id).1), .ident (l.record id).2]
  | enumeration q id => q.kinds ++ [.keyword .enumeration, .ident (l.enumeration id)]
  | _ => []

mutual

/-- The tokens of the declarator around the tokens `name`. -/
def declaratorKinds (l : Labels) : CType → List TokenKind → List TokenKind
  | pointer q k t, name => declaratorKinds l t (pointerKinds t.isTight k q name)
  | array _ n t, name => declaratorKinds l t (name ++ arrayKinds n)
  | function _ t ps v, name => declaratorKinds l t (name ++ functionKinds (kindsAll l ps) v)
  | _, name => name

/-- The tokens of the declarations of parameters. -/
def kindsAll (l : Labels) : List CType → List (List TokenKind)
  | [] => []
  | t :: ts => (specifierKinds l t.leaf ++ declaratorKinds l t []) :: kindsAll l ts

end

/-- The tokens of the declaration of a name with the type. -/
def kinds (l : Labels) (t : CType) (name : List TokenKind) : List TokenKind :=
  specifierKinds l t.leaf ++ declaratorKinds l t name

theorem kindsAll_eq_map (l : Labels) (ts : List CType) :
    kindsAll l ts = ts.map fun t => kinds l t [] := by
  induction ts with
  | nil => rfl
  | cons t ts ih => rw [kindsAll, ih]; rfl

theorem writtenAll_eq_map (l : Labels) (ts : List CType) :
    writtenAll l ts = ts.map fun t => written l t "" := by
  induction ts with
  | nil => rfl
  | cons t ts ih => rw [writtenAll, ih]; rfl

end CType

/-! ## 4. Spellings of builtin types -/

namespace BuiltinWord

def word : BuiltinWord → String
  | .void => "void"
  | .char => "char"
  | .short => "short"
  | .int => "int"
  | .long => "long"
  | .float => "float"
  | .double => "double"
  | .signed => "signed"
  | .unsigned => "unsigned"
  | .bool => "bool"
  | .wchar => "wchar_t"
  | .char16 => "char16_t"
  | .char32 => "char32_t"
  | .int128 => "__int128"

/-- The spellings of builtin types. -/
def spellings : List String :=
  ["void", "bool", "wchar_t", "char16_t", "char32_t", "float", "double", "long double",
   "signed char", "unsigned char", "char", "unsigned __int128", "__int128", "unsigned short",
   "short", "unsigned long", "long", "unsigned long long", "long long", "unsigned int", "int"]

theorem mem_spellings_ite {c : Prop} [Decidable c] {a b : Option String}
    (ha : ∀ s, a = some s → s ∈ spellings) (hb : ∀ s, b = some s → s ∈ spellings) :
    ∀ s, (if c then a else b) = some s → s ∈ spellings := by
  intro s h
  split at h
  · exact ha s h
  · exact hb s h

theorem mem_spellings_some {s : String} (hs : s ∈ spellings) :
    ∀ t, some s = some t → t ∈ spellings :=
  fun _ h => Option.some.inj h ▸ hs

/-- However the words are counted, what they form is one of the spellings. -/
theorem mem_spellings_of_formed? {n : BuiltinWord → Nat} {signs plain : Nat} :
    ∀ s, formed? n signs plain = some s → s ∈ spellings := by
  unfold formed?
  dsimp only
  repeat' apply mem_spellings_ite
  all_goals first
    | exact mem_spellings_some (by decide)
    | (intro _ h; cases h)

theorem mem_spellings {ws : List BuiltinWord} (s : String) (h : canonical? ws = some s) :
    s ∈ spellings :=
  mem_spellings_of_formed? s h

/-- A spelling is read as the words it consists of, which spell it. -/
theorem spelling_spec {s : String} (h : s ∈ spellings) :
    canonical? (spellingWords s) = some s ∧
      s = Fragment.ofWords ((spellingWords s).map word) ∧ spellingWords s ≠ [] := by
  have hall : ∀ s ∈ spellings, canonical? (spellingWords s) = some s ∧
      s = Fragment.ofWords ((spellingWords s).map word) ∧ spellingWords s ≠ [] := by
    decide
  exact hall s h

end BuiltinWord

/-! ## 5. Texts lex to tokens -/

open Text (bytes)

theorem spelled_foldl {texts : List String} {kss : List (List TokenKind)}
    (h : List.Forall₂ Spelled texts kss) {s : String} {ks : List TokenKind} (hs : Spelled s ks) :
    Spelled (texts.foldl Fragment.beside s) (ks ++ kss.flatten) := by
  induction h generalizing s ks with
  | nil => simpa using hs
  | cons ht _ ih =>
    have := ih (hs.beside ht)
    simpa [List.append_assoc] using this

theorem spelled_ofWords {texts : List String} {kss : List (List TokenKind)}
    (h : List.Forall₂ Spelled texts kss) : Spelled (Fragment.ofWords texts) kss.flatten :=
  spelled_foldl h spelled_empty

theorem spelled_join {texts : List String} {kss : List (List TokenKind)}
    (h : List.Forall₂ Spelled texts kss) : Spelled (Fragment.join ", " texts) (commaKinds kss) := by
  induction h with
  | nil => exact spelled_empty
  | @cons s ks texts kss hs hrest ih =>
    cases hrest with
    | nil =>
      rw [Fragment.join, String.intercalate_singleton]
      exact hs
    | @cons t kt texts kss ht hrest =>
      have hcomma : (", " : String) = Mark.comma.spelling ++ " " := by decide
      rw [Fragment.join, String.intercalate_cons_cons, hcomma, String.append_assoc,
        String.append_assoc]
      refine hs.append ?_ (clean_mark_append (by decide) _)
      rw [← hcomma]
      exact Spelled.mark .comma (fun h => by cases h) (spelled_space ih)

theorem Qualifiers.spelled_spelling (q : Qualifiers) : Spelled q.spelling q.kinds := by
  have hc : Spelled "const" [.keyword (.qualifier .constant)] :=
    spelled_keyword (by decide) (by decide)
  have hv : Spelled "volatile" [.keyword (.qualifier .volatile)] :=
    spelled_keyword (by decide) (by decide)
  have hr : Spelled "restrict" [.keyword (.qualifier .restrict)] :=
    spelled_keyword (by decide) (by decide)
  have hw : ∀ q : Qualifiers, q.spelling = Fragment.ofWords q.words := by
    rintro ⟨_ | _, _ | _, _ | _⟩ <;> decide
  rw [hw q]
  rcases q with ⟨_ | _, _ | _, _ | _⟩
  · exact spelled_ofWords .nil
  · exact spelled_ofWords (.cons hr .nil)
  · exact spelled_ofWords (.cons hv .nil)
  · exact spelled_ofWords (.cons hv (.cons hr .nil))
  · exact spelled_ofWords (.cons hc .nil)
  · exact spelled_ofWords (.cons hc (.cons hr .nil))
  · exact spelled_ofWords (.cons hc (.cons hv .nil))
  · exact spelled_ofWords (.cons hc (.cons hv (.cons hr .nil)))

theorem BuiltinWord.spelled_word (w : BuiltinWord) : Spelled w.word [.keyword (.builtin w)] := by
  cases w <;> exact spelled_keyword (by decide) (by decide)

theorem RecordKey.spelled_word (k : RecordKey) : Spelled k.word [.keyword (.record k)] := by
  cases k <;> exact spelled_keyword (by decide) (by decide)

theorem spelled_enum : Spelled "enum" [.keyword .enumeration] :=
  spelled_keyword (by decide) (by decide)

theorem PointerKind.sigil_eq (k : PointerKind) : k.sigil = k.mark.spelling := by
  cases k <;> rfl

/-- A builtin spelling lexes to the words it consists of. -/
theorem spelled_builtin {s : String} (h : ∃ ws, BuiltinWord.canonical? ws = some s) :
    Spelled s ((spellingWords s).map fun w => .keyword (.builtin w)) := by
  obtain ⟨ws, hws⟩ := h
  obtain ⟨-, hs, -⟩ := BuiltinWord.spelling_spec (BuiltinWord.mem_spellings s hws)
  have hw : List.Forall₂ Spelled ((spellingWords s).map BuiltinWord.word)
      ((spellingWords s).map fun w => [.keyword (.builtin w)]) := by
    rw [List.forall₂_map_left_iff, List.forall₂_map_right_iff, List.forall₂_same]
    exact fun w _ => w.spelled_word
  have := spelled_ofWords hw
  rw [← hs] at this
  have hf : ((spellingWords s).map fun w => [TokenKind.keyword (.builtin w)]).flatten =
      (spellingWords s).map fun w => .keyword (.builtin w) := by
    induction spellingWords s with
    | nil => rfl
    | cons w ws ih => rw [List.map_cons, List.flatten_cons, ih]; rfl
  rwa [hf] at this

/-- The text does not begin with an ampersand. -/
def NoAmp (s : String) : Prop := (bytes s).head? ≠ some (asciiByte '&')

theorem noAmp_empty : NoAmp "" := by
  rw [NoAmp, bytes_empty]
  simp

theorem noAmp_append {s t : String} (hs : NoAmp s) (ht : NoAmp t) : NoAmp (s ++ t) := by
  unfold NoAmp at *
  rw [Text.bytes_append]
  cases h : bytes s with
  | nil => exact ht
  | cons b bs => rw [h] at hs; exact hs

/-- No mark but the ampersands begins with one. -/
theorem noAmp_mark_append {m : Mark} (h : m ≠ .amp ∧ m ≠ .ampAmp) (s : String) :
    NoAmp (m.spelling ++ s) := by
  have hm : (bytes m.spelling).head? ≠ some (asciiByte '&') := by
    rw [bytes_mark]
    revert h
    cases m <;> decide
  unfold NoAmp
  rw [Text.bytes_append]
  cases hb : bytes m.spelling with
  | nil => exact absurd hb (bytes_mark_ne_nil m)
  | cons b bs => rw [hb] at hm; exact hm

theorem noAmp_identifier {s : String} (h : isIdentifier s = true) : NoAmp s := by
  intro hm
  have hw := isWordByte_of_isWord (Bool.and_eq_true_iff.1 h).1 _ (List.mem_of_mem_head? hm)
  revert hw
  decide

theorem noAmp_spelling {q : Qualifiers} : NoAmp q.spelling := by
  unfold NoAmp
  rcases q with ⟨_ | _, _ | _, _ | _⟩ <;> rw [Text.bytes_of_isAscii (by decide)] <;> decide

/-! ### Pointers -/

variable {tight : Bool} {k : PointerKind} {q : Qualifiers} {name : String}
  {ks : List TokenKind}

/-- Only a single ampersand without qualifiers could run into the name. -/
theorem spelled_pointerText (hn : Spelled name ks)
    (ha : k = .lvalueReference → q = .none → NoAmp name) :
    Spelled (pointerText tight k q name) (pointerKinds tight k q ks) := by
  have hinner : Spelled
      (if q.isEmpty then k.sigil ++ name else Fragment.beside (k.sigil ++ q.spelling) name)
      (.mark k.mark :: (q.kinds ++ ks)) := by
    rw [k.sigil_eq]
    split
    · rename_i hq
      have hnone := (Qualifiers.isEmpty_iff q).1 hq
      rw [hnone]
      refine Spelled.mark k.mark (fun hk => ha ?_ hnone) hn
      cases k <;> first | rfl | cases hk
    · exact (Spelled.mark k.mark (fun _ => noAmp_spelling) q.spelled_spelling).beside hn
  unfold pointerText pointerKinds
  cases tight with
  | false => exact hinner
  | true =>
    have hclose := (spelled_mark .parenClose)
    have := Spelled.mark .parenOpen (fun h => by cases h)
      (hinner.append hclose (clean_mark (by decide)))
    rwa [← String.append_assoc] at this

theorem noAmp_pointerText (h : tight = true ∨ k.isReference = false) :
    NoAmp (pointerText tight k q name) := by
  unfold pointerText
  cases tight with
  | true =>
    rw [if_pos rfl, String.append_assoc]
    exact noAmp_mark_append (m := .parenOpen) (by decide) _
  | false =>
    have hk : k.mark ≠ .amp ∧ k.mark ≠ .ampAmp := by
      revert h
      cases k <;> decide
    rw [if_neg (by decide), k.sigil_eq]
    split
    · exact noAmp_mark_append hk _
    · unfold Fragment.beside
      split
      · exact noAmp_mark_append hk _
      · split
        · rename_i he
          have := congrArg String.toList (String.isEmpty_iff.1 he)
          rw [String.toList_append] at this
          have hs : k.mark.spelling = "" :=
            String.toList_injective (List.append_eq_nil_iff.1 this).1
          exact absurd (by rw [hs, bytes_empty]) (bytes_mark_ne_nil k.mark)
        · rw [String.append_assoc, String.append_assoc]
          exact noAmp_mark_append hk _

/-! ### Arrays and functions -/

theorem spelled_arrayDeclarator (n : ArraySize) (hn : Spelled name ks) :
    Spelled (Environment.arrayDeclarator n name) (ks ++ arrayKinds n) := by
  have hclose := spelled_mark .bracketClose
  cases n with
  | fixed n =>
    have hsize := (spelled_numeral n).append hclose (clean_mark (by decide))
    have := hn.append (Spelled.mark .bracketOpen (fun h => by cases h) hsize)
      (clean_mark_append (by decide) _)
    rwa [← String.append_assoc, ← String.append_assoc] at this
  | unknown =>
    have := hn.append (Spelled.mark .bracketOpen (fun h => by cases h) hclose)
      (clean_mark_append (by decide) _)
    exact this

theorem noAmp_arrayDeclarator (n : ArraySize) (hn : NoAmp name) :
    NoAmp (Environment.arrayDeclarator n name) := by
  cases n with
  | fixed n =>
    rw [Environment.arrayDeclarator, String.append_assoc, String.append_assoc]
    exact noAmp_append hn (noAmp_mark_append (m := .bracketOpen) (by decide) _)
  | unknown =>
    exact noAmp_append hn (noAmp_mark_append (m := .bracketOpen) (by decide) "]")

theorem spelled_functionDeclarator {params : List String} {kss : List (List TokenKind)} (v : Bool)
    (hn : Spelled name ks) (hp : List.Forall₂ Spelled params kss) :
    Spelled (Environment.functionDeclarator params v name) (ks ++ functionKinds kss v) := by
  have hall : List.Forall₂ Spelled (params ++ if v then ["..."] else [])
      (kss ++ if v then [[.mark .ellipsis]] else []) := by
    refine List.rel_append hp ?_
    cases v with
    | false => exact .nil
    | true => exact .cons (spelled_mark .ellipsis) .nil
  have hinner := (spelled_join hall).append (spelled_mark .parenClose) (clean_mark (by decide))
  have := hn.append (Spelled.mark .parenOpen (fun h => by cases h) hinner)
    (clean_mark_append (by decide) _)
  rwa [← String.append_assoc, ← String.append_assoc] at this

theorem noAmp_functionDeclarator {params : List String} (v : Bool) (hn : NoAmp name) :
    NoAmp (Environment.functionDeclarator params v name) := by
  rw [Environment.functionDeclarator, String.append_assoc, String.append_assoc]
  exact noAmp_append hn (noAmp_mark_append (m := .parenOpen) (by decide) _)

/-! ### Declarations -/

theorem spelled_words {a b : String} {ka kb : List TokenKind} (ha : Spelled a ka)
    (hb : Spelled b kb) (hn : Spelled name ks) :
    Spelled (Fragment.ofWords [a, b, name]) ((ka ++ kb) ++ ks) := by
  have := spelled_ofWords (.cons ha (.cons hb (.cons hn .nil)))
  simpa [List.append_assoc] using this

/-- **The text of a legible type lexes to its tokens,** around whatever name lexes to tokens. A
name that begins with an ampersand stands behind no `&` without qualifiers. -/
theorem CType.spelled_written {l : Labels} {r : RecordId → Prop} {e : EnumId → Prop}
    (hr : ∀ id, r id → isIdentifier (l.record id).2 = true)
    (he : ∀ id, e id → isIdentifier (l.enumeration id) = true) {t : CType} (ht : t.Legible r e) :
    ∀ {name : String} {ks : List TokenKind}, Spelled name ks →
      (t.isAmpersand = true ∨ t.isTight = true → NoAmp name) →
      Spelled (written l t name) (kinds l t ks) := by
  induction ht with
  | @builtin q s hs =>
    intro name ks hn _
    exact spelled_words q.spelled_spelling (spelled_builtin hs) hn
  | @record q id hid =>
    intro name ks hn _
    have := spelled_ofWords (.cons q.spelled_spelling (.cons (l.record id).1.spelled_word
      (.cons (spelled_identifier (hr id hid)) (.cons hn .nil))))
    simpa [written, kinds, specifierKinds, declaratorKinds, leaf, List.append_assoc] using this
  | @enumeration q id hid =>
    intro name ks hn _
    have := spelled_ofWords (.cons q.spelled_spelling (.cons spelled_enum
      (.cons (spelled_identifier (he id hid)) (.cons hn .nil))))
    simpa [written, kinds, specifierKinds, declaratorKinds, leaf, List.append_assoc] using this
  | @pointer q k t hk href ht ih =>
    intro name ks hn hamp
    have hamp' : k = .lvalueReference → q = .none → NoAmp name := fun hk hq =>
      hamp (.inl (by rw [hk, hq]; rfl))
    refine ih (spelled_pointerText hn hamp') fun h => noAmp_pointerText ?_
    rcases h with h | h
    · refine .inr ?_
      rw [Bool.eq_false_iff]
      exact fun hkr => Bool.eq_false_iff.1 (href hkr) h
    · exact .inl h
  | @array n t ht ih =>
    intro name ks hn hamp
    exact ih (spelled_arrayDeclarator n hn) fun _ => noAmp_arrayDeclarator n (hamp (.inr rfl))
  | @function t ps v ht hps ih ihs =>
    intro name ks hn hamp
    have hall : List.Forall₂ Spelled (writtenAll l ps) (kindsAll l ps) := by
      rw [writtenAll_eq_map, kindsAll_eq_map, List.forall₂_map_left_iff,
        List.forall₂_map_right_iff, List.forall₂_same]
      intro p hp
      exact ihs p hp spelled_empty fun _ => noAmp_empty
    exact ih (spelled_functionDeclarator v hn hall)
      fun _ => noAmp_functionDeclarator v (hamp (.inr rfl))

end TypeLedger
