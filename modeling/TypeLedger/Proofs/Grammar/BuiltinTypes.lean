import Mathlib
import TypeLedger.Proofs.Grammar.Gives

/-!
# The builtin words of a declaration

* `builtinTypes`: the word lists that are builtin types, up to their order, with their spellings.
* `BuiltinType.Covers`: words that are those of a builtin type, with words beside them that its rule
  passes over.
* `canonical?_eq_some_iff`: just these words form a type.
* `resolves_plain`: builtin words, qualifiers, `inline` and storage classes in any order name the
  type that the builtin words cover, with all the qualifiers.
* `int_beside_void`: a word that no type has beside it is passed over.
-/

namespace TypeLedger

/-! ## 1. Builtin types -/

/-- A builtin type: the word that decides which rule applies, its words in one order, and its
spelling. -/
structure BuiltinType where
  lead : BuiltinWord
  words : List BuiltinWord
  spelling : String
deriving DecidableEq, Repr

namespace BuiltinType

/-- The types of some words with at most one sign. -/
def withSign (lead : BuiltinWord) (words : List BuiltinWord) (plain signed unsigned : String) :
    List BuiltinType :=
  [⟨lead, words, plain⟩, ⟨lead, .signed :: words, signed⟩, ⟨lead, .unsigned :: words, unsigned⟩]

/-- The types of some words with at most one sign and perhaps the word `int`. -/
def withInt (lead : BuiltinWord) (words : List BuiltinWord) (plain unsigned : String) :
    List BuiltinType :=
  withSign lead words plain plain unsigned ++ withSign lead (.int :: words) plain plain unsigned

end BuiltinType

/-- The builtin types. -/
def builtinTypes : List BuiltinType :=
  [⟨.void, [.void], "void"⟩, ⟨.bool, [.bool], "bool"⟩, ⟨.wchar, [.wchar], "wchar_t"⟩,
   ⟨.char16, [.char16], "char16_t"⟩, ⟨.char32, [.char32], "char32_t"⟩,
   ⟨.float, [.float], "float"⟩, ⟨.double, [.double], "double"⟩,
   ⟨.double, [.long, .double], "long double"⟩]
  ++ BuiltinType.withSign .char [.char] "char" "signed char" "unsigned char"
  ++ BuiltinType.withSign .int128 [.int128] "__int128" "__int128" "unsigned __int128"
  ++ BuiltinType.withInt .short [.short] "short" "unsigned short"
  ++ BuiltinType.withInt .long [.long] "long" "unsigned long"
  ++ BuiltinType.withInt .long [.long, .long] "long long" "unsigned long long"
  ++ BuiltinType.withSign .int [.int] "int" "int" "unsigned int"
  ++ [⟨.int, [.signed], "int"⟩, ⟨.int, [.unsigned], "unsigned int"⟩]

/-- The words that the rule of a word passes over: those whose rules come later, but for the signs,
and but for `long` beside `double`. -/
def BuiltinWord.overlooked : BuiltinWord → List BuiltinWord
  | .void => [.bool, .wchar, .char16, .char32, .float, .double, .char, .int128, .short, .long, .int]
  | .bool => [.wchar, .char16, .char32, .float, .double, .char, .int128, .short, .long, .int]
  | .wchar => [.char16, .char32, .float, .double, .char, .int128, .short, .long, .int]
  | .char16 => [.char32, .float, .double, .char, .int128, .short, .long, .int]
  | .char32 => [.float, .double, .char, .int128, .short, .long, .int]
  | .float => [.double, .char, .int128, .short, .long, .int]
  | .double => [.char, .int128, .short, .int]
  | .char => [.int128, .short, .long, .int]
  | .int128 => [.short, .long, .int]
  | .short => [.long, .int]
  | .long => [.int]
  | .int | .signed | .unsigned => []

namespace BuiltinType

/-- The words are those of the type, with words beside them that its rule passes over. -/
def Covers (b : BuiltinType) (ws : List BuiltinWord) : Prop :=
  ∃ extra, ws.Perm (b.words ++ extra) ∧ ∀ w ∈ extra, w ∈ b.lead.overlooked

/-- Whether the words are those of the type, by how often each occurs. -/
theorem covers_iff_count {b : BuiltinType} {ws : List BuiltinWord} :
    b.Covers ws ↔ ∀ w, b.words.count w ≤ ws.count w ∧
      (w ∈ b.lead.overlooked ∨ ws.count w = b.words.count w) := by
  constructor
  · rintro ⟨extra, hp, he⟩ w
    rw [hp.count_eq, List.count_append]
    refine ⟨Nat.le_add_right _ _, ?_⟩
    by_cases hw : w ∈ extra
    · exact .inl (he w hw)
    · exact .inr (by rw [List.count_eq_zero_of_not_mem hw, Nat.add_zero])
  · intro h
    have hp := List.subperm_append_diff_self_of_count_le fun w (_ : w ∈ b.words) => (h w).1
    refine ⟨ws.diff b.words, hp.symm, fun w hw => ?_⟩
    rcases (h w).2 with ho | hc
    · exact ho
    · have := List.count_pos_iff.2 hw
      have := hp.count_eq w
      rw [List.count_append] at this
      omega

end BuiltinType

/-! ## 2. The words that form a type -/

namespace BuiltinWord

variable {ws vs : List BuiltinWord} {s : String}

theorem forall_iff {p : BuiltinWord → Prop} :
    (∀ w, p w) ↔ p .void ∧ p .char ∧ p .short ∧ p .int ∧ p .long ∧ p .float ∧ p .double ∧
      p .signed ∧ p .unsigned ∧ p .bool ∧ p .wchar ∧ p .char16 ∧ p .char32 ∧ p .int128 := by
  refine ⟨fun h => by simp only [h, and_self], fun h w => ?_⟩
  cases w <;> simp only [h]

/-- **The rule of a word looks at no word that it passes over** (`overlooked`). -/
theorem canonical?_congr {lead : BuiltinWord} (hlead : 0 < vs.count lead)
    (hdouble : lead ∈ overlooked .double → vs.count .double = 0)
    (h : ∀ w ∉ lead.overlooked, ws.count w = vs.count w) : canonical? ws = canonical? vs := by
  rw [forall_iff] at h
  cases lead <;> simp [overlooked] at h hdouble <;>
    simp only [canonical?, formed?, h, hdouble, hlead, Nat.lt_irrefl, ↓reduceIte]

/-- The types of the table are spelt as it says, each by the rule of its first word. -/
theorem canonical?_words : ∀ b ∈ builtinTypes,
    canonical? b.words = some b.spelling ∧
      (0 < b.words.count b.lead ∨ b.lead.overlooked = []) ∧
      (b.lead ∈ overlooked .double → b.words.count .double = 0) := by
  decide +kernel

/-- Words that cover a type form it. -/
theorem canonical?_of_covers {b : BuiltinType} (hb : b ∈ builtinTypes) (h : b.Covers ws) :
    canonical? ws = some b.spelling := by
  obtain ⟨hs, hlead, hdouble⟩ := canonical?_words b hb
  rw [← hs]
  rcases hlead with hlead | hnone
  · refine canonical?_congr hlead hdouble fun w hw => ?_
    exact (BuiltinType.covers_iff_count.1 h w).2.resolve_left hw
  · obtain ⟨extra, hp, he⟩ := h
    have hextra : extra = [] := List.eq_nil_iff_forall_not_mem.2 fun w hw => by
      have := he w hw
      rw [hnone] at this
      cases this
    rw [hextra, List.append_nil] at hp
    exact canonical?_perm hp

/-- Some type of the table is covered, with the spelling `s`. -/
def FormSome (s : String) (ws : List BuiltinWord) : Prop :=
  ∃ b ∈ builtinTypes, b.spelling = s ∧ b.Covers ws

theorem mem_all (w : BuiltinWord) : w ∈ all := by cases w <;> decide

/-- The words do not occur. -/
def Absent (ws ahead : List BuiltinWord) : Prop := ∀ w ∈ ahead, ws.count w = 0

theorem Absent.cons {ahead : List BuiltinWord} {w : BuiltinWord} (h : Absent ws ahead)
    (hw : ws.count w = 0) : Absent ws (w :: ahead) :=
  List.forall_mem_cons.2 ⟨hw, h⟩

section Rules

variable {ahead own : List BuiltinWord} {lead : BuiltinWord} {spelling : String}

/-- The words of a type have been counted. Beside them stand no words whose rules come first
(`ahead`), and the rule of the type passes over all others. -/
theorem formSome_of_counted (hahead : Absent ws ahead) (b : BuiltinType) (hb : b ∈ builtinTypes)
    (counted : List BuiltinWord) (hown : ∀ w ∈ b.words, w ∈ counted)
    (hrest : ∀ w ∈ all, w ∈ counted ∨ w ∈ ahead ∨ w ∈ b.lead.overlooked)
    (hcounted : ∀ w ∈ counted, ws.count w = b.words.count w) : FormSome b.spelling ws := by
  refine ⟨_, hb, rfl, BuiltinType.covers_iff_count.2 fun w => ?_⟩
  by_cases hw : w ∈ counted
  · exact ⟨Nat.le_of_eq (hcounted w hw).symm, .inr (hcounted w hw)⟩
  · have hzero : b.words.count w = 0 := List.count_eq_zero_of_not_mem fun h => hw (hown w h)
    rw [hzero]
    refine ⟨Nat.zero_le _, ?_⟩
    obtain h | h := (hrest w (mem_all w)).resolve_left hw
    · exact .inr (hahead w h)
    · exact .inl h

/-- A word that stands for a type by itself. -/
theorem formSome_of_alone (lead : BuiltinWord) (hahead : Absent ws ahead)
    (hb : ⟨lead, [lead], spelling⟩ ∈ builtinTypes) (hlead : lead ≠ .signed ∧ lead ≠ .unsigned)
    (hrest : ∀ w ∈ all, w ∈ [lead, .signed, .unsigned] ∨ w ∈ ahead ∨ w ∈ lead.overlooked)
    (h : ws.count lead = 1 ∧ ws.count .signed + ws.count .unsigned = 0) : FormSome spelling ws := by
  obtain ⟨hone, hsigns⟩ := h
  refine formSome_of_counted hahead _ hb _ (fun w hw => ?_) hrest fun w hw => ?_
  · exact List.mem_singleton.1 hw ▸ List.mem_cons_self
  · simp only [List.mem_cons, List.not_mem_nil, or_false] at hw
    rcases hw with rfl | rfl | rfl
    · rw [hone, List.count_singleton_self]
    · rw [List.count_singleton, beq_eq_false_iff_ne.2 hlead.1]
      exact Nat.eq_zero_of_add_eq_zero_right hsigns
    · rw [List.count_singleton, beq_eq_false_iff_ne.2 hlead.2]
      exact Nat.eq_zero_of_add_eq_zero_left hsigns

/-- Words with at most one sign, which decides between three types. -/
theorem formSome_of_sign {plain signed unsigned : String} (hahead : Absent ws ahead)
    (hmem : BuiltinType.withSign lead own plain signed unsigned ⊆ builtinTypes)
    (hlead : lead ≠ .signed ∧ lead ≠ .unsigned) (hown : ∀ w ∈ own, w = lead)
    (hrest : ∀ w ∈ all, w ∈ [lead, .signed, .unsigned] ∨ w ∈ ahead ∨ w ∈ lead.overlooked)
    (hcount : ws.count lead = own.count lead)
    (hsigns : ws.count .signed + ws.count .unsigned ≤ 1)
    (h : (ws.count .signed = 1 → signed = s) ∧ (ws.count .unsigned = 1 → unsigned = s) ∧
      (ws.count .signed ≠ 1 → ws.count .unsigned ≠ 1 → plain = s)) : FormSome s ws := by
  have hnone {v : BuiltinWord} (hv : lead ≠ v) : own.count v = 0 :=
    List.count_eq_zero_of_not_mem fun h => hv (hown v h).symm
  have hform (signs : List BuiltinWord) {spelling : String}
      (hb : ⟨lead, signs ++ own, spelling⟩ ∈ BuiltinType.withSign lead own plain signed unsigned)
      (hs : ∀ w ∈ signs, w = .signed ∨ w = .unsigned)
      (hsigned : ws.count .signed = signs.count .signed)
      (hunsigned : ws.count .unsigned = signs.count .unsigned) : FormSome spelling ws := by
    refine formSome_of_counted hahead _ (hmem hb) _ (fun w hw => ?_) hrest fun w hw => ?_
    · obtain hw | hw := List.mem_append.1 hw
      · obtain rfl | rfl := hs w hw <;> simp
      · exact hown w hw ▸ List.mem_cons_self
    · simp only [List.mem_cons, List.not_mem_nil, or_false] at hw
      rw [List.count_append]
      rcases hw with rfl | rfl | rfl
      · rw [List.count_eq_zero_of_not_mem fun h => (hs w h).elim hlead.1 hlead.2, hcount,
          Nat.zero_add]
      · rw [hnone hlead.1, hsigned, Nat.add_zero]
      · rw [hnone hlead.2, hunsigned, Nat.add_zero]
  obtain ⟨hsigned, hunsigned, hplain⟩ := h
  by_cases h1 : ws.count .signed = 1
  · rw [← hsigned h1]
    exact hform [.signed] (.tail _ (.head _)) (by simp) h1 (by simp; omega)
  by_cases h2 : ws.count .unsigned = 1
  · rw [← hunsigned h2]
    exact hform [.unsigned] (.tail _ (.tail _ (.head _))) (by simp) (by simp; omega) h2
  · rw [← hplain h1 h2]
    exact hform [] (.head _) (by simp) (by simp; omega) (by simp; omega)

end Rules

/-- Words that form a type are those of one in the table. -/
theorem formSome_of_canonical? (h : canonical? ws = some s) : FormSome s ws := by
  -- the rules in their order: each leaves behind that its own word does not occur
  simp only [canonical?, formed?, ite_eq_iff, Option.some.injEq, reduceCtorEq, and_false, false_or,
    or_false, Nat.not_lt, Nat.le_zero] at h
  have hahead : Absent ws [] := List.forall_mem_nil _
  obtain ⟨-, h, rfl⟩ | ⟨hvoid, h⟩ := h
  · exact formSome_of_alone .void hahead (by decide) (by decide) (by decide) h
  have hahead := hahead.cons hvoid
  obtain ⟨-, h, rfl⟩ | ⟨hbool, h⟩ := h
  · exact formSome_of_alone .bool hahead (by decide) (by decide) (by decide) h
  have hahead := hahead.cons hbool
  obtain ⟨-, h, rfl⟩ | ⟨hwchar, h⟩ := h
  · exact formSome_of_alone .wchar hahead (by decide) (by decide) (by decide) h
  have hahead := hahead.cons hwchar
  obtain ⟨-, h, rfl⟩ | ⟨hchar16, h⟩ := h
  · exact formSome_of_alone .char16 hahead (by decide) (by decide) (by decide) h
  have hahead := hahead.cons hchar16
  obtain ⟨-, h, rfl⟩ | ⟨hchar32, h⟩ := h
  · exact formSome_of_alone .char32 hahead (by decide) (by decide) (by decide) h
  have hahead := hahead.cons hchar32
  obtain ⟨-, h, rfl⟩ | ⟨hfloat, h⟩ := h
  · exact formSome_of_alone .float hahead (by decide) (by decide) (by decide) h
  have hahead := hahead.cons hfloat
  obtain ⟨-, ⟨hlong, h, rfl⟩ | ⟨-, hlong, h, rfl⟩⟩ | ⟨hdouble, hsigns, h⟩ := h
  · exact formSome_of_alone .double (hahead.cons hlong) (by decide) (by decide) (by decide) h
  · refine formSome_of_counted hahead ⟨.double, [.long, .double], _⟩ (by decide)
      [.double, .long, .signed, .unsigned] (by decide) (by decide) ?_
    simp
    omega
  have hahead := hahead.cons hdouble
  -- From here on a sign may stand beside the words.
  obtain ⟨h0, h1, h⟩ | ⟨hchar, h⟩ := h
  · exact formSome_of_sign hahead
      (show BuiltinType.withSign .char [.char] "char" "signed char" "unsigned char" ⊆ _ by decide)
      (by decide) (by decide) (by decide) (Nat.le_antisymm h1 h0) hsigns (by grind)
  have hahead := hahead.cons hchar
  obtain ⟨h0, h1, h⟩ | ⟨hint128, h⟩ := h
  · exact formSome_of_sign hahead
      (show BuiltinType.withSign .int128 [.int128] "__int128" "__int128" "unsigned __int128" ⊆ _
        by decide)
      (by decide) (by decide) (by decide) (Nat.le_antisymm h1 h0) hsigns (by grind)
  have hahead := hahead.cons hint128
  obtain ⟨h0, h1, h⟩ | ⟨hshort, h⟩ := h
  · exact formSome_of_sign hahead
      (show BuiltinType.withSign .short [.short] "short" "short" "unsigned short" ⊆ _ by decide)
      (by decide) (by decide) (by decide) (Nat.le_antisymm h1 h0) hsigns (by grind)
  have hahead := hahead.cons hshort
  obtain ⟨h1, h⟩ | ⟨-, h⟩ := h
  · exact formSome_of_sign hahead
      (show BuiltinType.withSign .long [.long] "long" "long" "unsigned long" ⊆ _ by decide)
      (by decide) (by decide) (by decide) h1 hsigns (by grind)
  obtain ⟨h1, h⟩ | ⟨-, hlong, hsome, h1, h⟩ := h
  · exact formSome_of_sign hahead
      (show BuiltinType.withSign .long [.long, .long] "long long" "long long"
        "unsigned long long" ⊆ _ by decide)
      (by decide) (by decide) (by decide) h1 hsigns (by grind)
  have hahead := hahead.cons hlong
  by_cases hint : ws.count .int = 1
  · exact formSome_of_sign hahead
      (show BuiltinType.withSign .int [.int] "int" "int" "unsigned int" ⊆ _ by decide)
      (by decide) (by decide) (by decide) hint hsigns (by grind)
  -- Without `int`, the sign is the type.
  have hahead := hahead.cons (Nat.lt_one_iff.1 (Nat.lt_of_le_of_ne h1 hint))
  obtain ⟨hsign, rfl⟩ | ⟨hsign, rfl⟩ := h
  · refine formSome_of_counted hahead ⟨.int, [.unsigned], _⟩ (by decide)
      [.signed, .unsigned] (by decide) (by decide) ?_
    simp
    omega
  · refine formSome_of_counted hahead ⟨.int, [.signed], _⟩ (by decide)
      [.signed, .unsigned] (by decide) (by decide) ?_
    simp
    omega

/-- **Builtin words form a type if they are those of a type in `builtinTypes`, with words beside
them that its rule passes over.** -/
theorem canonical?_eq_some_iff :
    canonical? ws = some s ↔ ∃ b ∈ builtinTypes, b.spelling = s ∧ b.Covers ws := by
  refine ⟨formSome_of_canonical?, fun ⟨b, hb, hs, hc⟩ => ?_⟩
  rw [canonical?_of_covers hb hc, hs]

end BuiltinWord

/-! ## 3. Reading them -/

variable {stop : Location} {sc : Scope} {ks ks' : List Keyword} {W rest : List Token}

namespace Keyword

/-- A word that names no record, no enumeration and no class part: a storage class, `inline`, a
qualifier or a builtin word. -/
def isPlain : Keyword → Bool
  | .storage _ | .inlineFunction | .qualifier _ | .builtin _ => true
  | _ => false

/-- The builtin words among the keywords. -/
def builtins (ks : List Keyword) : List BuiltinWord :=
  ks.filterMap fun
    | .builtin w => some w
    | _ => none

/-- The qualifiers among the keywords. -/
def qualifiers (ks : List Keyword) : Qualifiers where
  isConst := .qualifier .constant ∈ ks
  isVolatile := .qualifier .volatile ∈ ks
  isRestrict := .qualifier .restrict ∈ ks

theorem builtins_append (ks ks' : List Keyword) :
    builtins (ks ++ ks') = builtins ks ++ builtins ks' := List.filterMap_append

theorem qualifiers_append (ks ks' : List Keyword) :
    qualifiers (ks ++ ks') = (qualifiers ks).union (qualifiers ks') := by
  simp only [qualifiers, Qualifiers.union, List.mem_append, Bool.decide_or]

theorem builtins_perm (h : ks.Perm ks') : (builtins ks).Perm (builtins ks') := h.filterMap _

theorem qualifiers_perm (h : ks.Perm ks') : qualifiers ks = qualifiers ks' := by
  simp only [qualifiers, h.mem_iff]

end Keyword

/-- A token that is no specifier, and behind a builtin word ends the specifiers. -/
def TokenKind.EndsWords : TokenKind → Prop
  | .keyword k => (∃ a, k = .access a) ∨ k = .virtualBase
  | _ => True

/-- The words read so far, and plain ones behind them. -/
def Specifiers.withPlain (acc : Specifiers) (storage : Option StorageClass) (ks : List Keyword) :
    Specifiers :=
  { acc with
    storage
    words := (Keyword.builtins ks).reverse ++ acc.words
    quals := acc.quals.union (Keyword.qualifiers ks) }

namespace Specifiers

variable {acc : Specifiers} {storage : Option StorageClass}

theorem withPlain_nil (acc : Specifiers) : acc.withPlain acc.storage [] = acc := by
  cases acc
  exact congrArg (Specifiers.mk _ · _ _ _) (Qualifiers.union_none _)

theorem withPlain_cons (acc : Specifiers) (storage storage' : Option StorageClass) (k : Keyword)
    (ks : List Keyword) :
    (acc.withPlain storage [k]).withPlain storage' ks = acc.withPlain storage' (k :: ks) := by
  have hb := Keyword.builtins_append [k] ks
  have hq := Keyword.qualifiers_append [k] ks
  rw [List.singleton_append] at hb hq
  simp only [withPlain, hb, hq, List.reverse_append, List.append_assoc, Qualifiers.union_assoc]

/-- A plain word is a specifier by itself. -/
theorem add?_plain {k : Keyword} (hk : k.isPlain = true) (acc : Specifiers) (sc : Scope) :
    ∃ storage, acc.add? sc (.keyword k) = some (acc.withPlain storage [k]) := by
  cases k with
  | storage c =>
    refine ⟨some c, ?_⟩
    rw [withPlain, show Keyword.qualifiers [.storage c] = .none from rfl, Qualifiers.union_none]
    rfl
  | inlineFunction =>
    refine ⟨acc.storage, ?_⟩
    rw [withPlain, show Keyword.qualifiers [.inlineFunction] = .none from rfl,
      Qualifiers.union_none]
    rfl
  | qualifier q => exact ⟨acc.storage, by cases q <;> rfl⟩
  | builtin w =>
    refine ⟨acc.storage, ?_⟩
    rw [withPlain, show Keyword.qualifiers [.builtin w] = .none from rfl, Qualifiers.union_none]
    rfl
  | _ => cases hk

end Specifiers

/-- Plain words are read to their end. -/
theorem gives_specifiers_plain (stop : Location) (sc : Scope) (acc : Specifiers)
    (hks : ∀ k ∈ ks, k.isPlain = true) (hW : W.map Token.kind = ks.map .keyword)
    (hsome : Keyword.builtins ks ≠ [] ∨ acc.words ≠ []) (hrest : Heads TokenKind.EndsWords rest) :
    ∃ storage, Gives (specifiers stop acc sc (W ++ rest)) (acc.withPlain storage ks, sc) rest := by
  induction ks generalizing W acc with
  | nil =>
    rw [List.map_nil, List.map_eq_nil_iff] at hW
    subst hW
    have hwords : acc.words ≠ [] := hsome.resolve_left fun h => h rfl
    refine ⟨acc.storage, ?_⟩
    rw [acc.withPlain_nil]
    cases rest with
    | nil => exact gives_specifiers_end fun _ h => nomatch h
    | cons t r =>
      obtain ⟨k, l⟩ := t
      have hk := heads_cons.1 hrest
      have hadd : acc.add? sc k = none := by
        cases k with
        | keyword w => rcases hk with ⟨a, rfl⟩ | rfl <;> rfl
        | ident name => simp [Specifiers.add?, hwords]
        | _ => rfl
      refine gives_specifiers_stop r hadd ?_ ?_
      · rintro key rfl
        simp [TokenKind.EndsWords] at hk
      · rintro rfl
        simp [TokenKind.EndsWords] at hk
  | cons k ks ih =>
    rw [List.map_cons, List.map_eq_cons_iff] at hW
    obtain ⟨t, W, rfl, ht, hW⟩ := hW
    obtain ⟨first, hadd⟩ := Specifiers.add?_plain (hks k List.mem_cons_self) acc sc
    have hsome' : Keyword.builtins ks ≠ [] ∨ (acc.withPlain first [k]).words ≠ [] := by
      by_cases hks : Keyword.builtins ks = []
      · rw [← List.singleton_append, Keyword.builtins_append, hks, List.append_nil] at hsome
        refine .inr fun hnil => ?_
        obtain ⟨hk, hacc⟩ := List.append_eq_nil_iff.1 hnil
        rw [List.reverse_eq_nil_iff] at hk
        exact hsome.elim (· hk) (· hacc)
      · exact .inl hks
    obtain ⟨storage, h⟩ := ih _ (fun k' hk' => hks k' (List.mem_cons_of_mem _ hk')) hW hsome'
    rw [acc.withPlain_cons] at h
    exact ⟨storage, gives_specifiers_add _ (by rw [ht, hadd]) h⟩

/-- The type that plain words name, or the fault that their builtin words form none. -/
theorem resolve_withPlain (storage : Option StorageClass) (hsome : Keyword.builtins ks ≠ [])
    (l : Location) :
    ((Specifiers.mk none .none [] false none).withPlain storage ks).resolve l =
      match BuiltinWord.canonical? (Keyword.builtins ks) with
      | some spelling => .ok (.builtin (Keyword.qualifiers ks) spelling)
      | none =>
        .error (faultAt l (.noSuchBuiltin (BuiltinWord.inOrder (Keyword.builtins ks).count))) := by
  have hp := BuiltinWord.canonical?_perm (Keyword.builtins ks).reverse_perm
  simp only [Specifiers.resolve, Specifiers.base, Specifiers.withPlain, Counting.isEmpty_exact,
    Counting.spelling?_exact, Counting.shown_exact, List.append_nil, List.isEmpty_reverse, hp,
    Qualifiers.none_union]
  cases BuiltinWord.canonical? (Keyword.builtins ks) with
  | some spelling => simp [CType.qualified, CType.quals, CType.withQuals, hsome]
  | none => simp [hsome]

/-- **Plain words name the type that their builtin words cover, with all their qualifiers, and no
type if they cover none; their order plays no part.** The words are `Keyword.isPlain`, and a type of
`builtinTypes` is covered in the sense of `BuiltinType.Covers`. -/
theorem resolves_plain (stop : Location) (sc : Scope) (hks : ∀ k ∈ ks, k.isPlain = true)
    (hsome : Keyword.builtins ks ≠ []) (hW : W.map Token.kind = ks.map .keyword)
    (hrest : Heads TokenKind.EndsWords rest) :
    ∃ specs, Gives (specifiers stop {} sc (W ++ rest)) (specs, sc) rest ∧
      (∀ l, (∃ t, specs.resolve l = .ok t) ↔
        ∃ b ∈ builtinTypes, b.Covers (Keyword.builtins ks)) ∧
      (∀ l, ∀ b ∈ builtinTypes, b.Covers (Keyword.builtins ks) →
        specs.resolve l = .ok (.builtin (Keyword.qualifiers ks) b.spelling)) ∧
      ∀ (ks' : List Keyword) (W' : List Token), ks'.Perm ks →
        W'.map Token.kind = ks'.map .keyword →
        ∃ specs', Gives (specifiers stop {} sc (W' ++ rest)) (specs', sc) rest ∧
          ∀ l, (specs'.resolve l).toOption = (specs.resolve l).toOption := by
  obtain ⟨storage, h⟩ := gives_specifiers_plain stop sc {} hks hW (.inl hsome) hrest
  have hresolve := resolve_withPlain storage hsome
  refine ⟨_, h, fun l => ⟨?_, ?_⟩, fun l b hb hc => ?_, fun ks' W' hp hW' => ?_⟩
  · rintro ⟨t, ht⟩
    rw [hresolve] at ht
    cases hs : BuiltinWord.canonical? (Keyword.builtins ks) with
    | none => rw [hs] at ht; cases ht
    | some s =>
      obtain ⟨b, hb, -, hc⟩ := BuiltinWord.canonical?_eq_some_iff.1 hs
      exact ⟨b, hb, hc⟩
  · rintro ⟨b, hb, hc⟩
    rw [hresolve, BuiltinWord.canonical?_of_covers hb hc]
    exact ⟨_, rfl⟩
  · rw [hresolve, BuiltinWord.canonical?_of_covers hb hc]
  · have hsome' : Keyword.builtins ks' ≠ [] := fun hn =>
      hsome (hn ▸ Keyword.builtins_perm hp).symm.eq_nil
    obtain ⟨storage', h'⟩ := gives_specifiers_plain stop sc {}
      (fun k hk => hks k (hp.mem_iff.1 hk)) hW' (.inl hsome') hrest
    refine ⟨_, h', fun l => ?_⟩
    rw [hresolve, resolve_withPlain storage' hsome', Keyword.qualifiers_perm hp,
      BuiltinWord.canonical?_perm (Keyword.builtins_perm hp)]
    cases BuiltinWord.canonical? (Keyword.builtins ks) <;> rfl

/-- The words of `const long static unsigned inline long x;`. -/
def scatteredWords : List Keyword :=
  [.qualifier .constant, .builtin .long, .storage .static, .builtin .unsigned, .inlineFunction,
   .builtin .long]

theorem resolves_plain_scattered :
    (∀ k ∈ scatteredWords, k.isPlain = true) ∧ Keyword.builtins scatteredWords ≠ [] ∧
      Heads TokenKind.EndsWords [⟨.ident "x", ⟨1, 40⟩⟩, ⟨.mark .semicolon, ⟨1, 41⟩⟩] ∧
      ∃ specs, Gives (specifiers ⟨1, 42⟩ {} {} [⟨.keyword (.qualifier .constant), ⟨1, 1⟩⟩,
          ⟨.keyword (.builtin .long), ⟨1, 7⟩⟩, ⟨.keyword (.storage .static), ⟨1, 12⟩⟩,
          ⟨.keyword (.builtin .unsigned), ⟨1, 19⟩⟩, ⟨.keyword .inlineFunction, ⟨1, 28⟩⟩,
          ⟨.keyword (.builtin .long), ⟨1, 35⟩⟩, ⟨.ident "x", ⟨1, 40⟩⟩,
          ⟨.mark .semicolon, ⟨1, 41⟩⟩]) (specs, {})
          [⟨.ident "x", ⟨1, 40⟩⟩, ⟨.mark .semicolon, ⟨1, 41⟩⟩] ∧
        specs.resolve ⟨1, 1⟩ = .ok (.builtin { isConst := true } "unsigned long long") := by
  have hks : ∀ k ∈ scatteredWords, k.isPlain = true := by decide
  have hsome : Keyword.builtins scatteredWords ≠ [] := by decide
  have hrest : Heads TokenKind.EndsWords [⟨.ident "x", ⟨1, 40⟩⟩, ⟨.mark .semicolon, ⟨1, 41⟩⟩] :=
    heads_cons.2 trivial
  obtain ⟨specs, h, -, hresolve, -⟩ := resolves_plain (W := [
      ⟨.keyword (.qualifier .constant), ⟨1, 1⟩⟩, ⟨.keyword (.builtin .long), ⟨1, 7⟩⟩,
      ⟨.keyword (.storage .static), ⟨1, 12⟩⟩,
      ⟨.keyword (.builtin .unsigned), ⟨1, 19⟩⟩, ⟨.keyword .inlineFunction, ⟨1, 28⟩⟩,
      ⟨.keyword (.builtin .long), ⟨1, 35⟩⟩]) ⟨1, 42⟩ {} hks hsome rfl hrest
  let unsignedLongLong : BuiltinType := ⟨.long, [.unsigned, .long, .long], "unsigned long long"⟩
  have hcovers : unsignedLongLong.Covers (Keyword.builtins scatteredWords) :=
    ⟨[], by decide, nofun⟩
  exact ⟨hks, hsome, hrest, specs, h, hresolve _ unsignedLongLong (by decide) hcovers⟩

/-- **A word that no type has beside it is passed over**: `void int` is no type of the table in any
order, and is read as `void`. -/
theorem int_beside_void :
    (¬∃ b ∈ builtinTypes, b.words.Perm [.void, .int]) ∧
      parseSource "void int x;" =
        .ok ([⟨some "x", .builtin .none "void", none, ⟨1, 10⟩⟩], {}) := by
  have htokens : tokenize "void int x;".toUTF8.toList = .ok
      ([⟨.keyword (.builtin .void), ⟨1, 1⟩⟩, ⟨.keyword (.builtin .int), ⟨1, 6⟩⟩,
        ⟨.ident "x", ⟨1, 10⟩⟩, ⟨.mark .semicolon, ⟨1, 11⟩⟩], ⟨1, 12⟩) := by
    decide +kernel
  refine ⟨by decide, ?_⟩
  rw [parseSource, parseBytes, htokens]
  cbv

end TypeLedger
