import TypeLedger.Proofs.Grammar.Declarations
import TypeLedger.Proofs.Lexing.Printed
import TypeLedger.Proofs.Synonyms.Lockstep

/-!
# A name for a builtin type may be replaced

* `TokenKind.synonymOf`: the tokens of `typedef B T;`. `TokenKind.respell` puts the words `B` in the
  place of `T`.
* `AlikeReadings`: two sources declare the same names with the same canonical types, so that the
  same identifiers belong to their declarations.
* `readings_respelled`: a source that begins with `typedef B T;`, and that takes `T` for a name
  nowhere else, may be written without `T`. If `B` is `void`, no parameter list may consist of `T`
  alone: `void_synonym_list` says what is read otherwise.
-/

namespace TypeLedger

open Text (bytes)

variable {stop stop' : Location} {sc sc₁ : Scope} {ts ts' r : List Token}

/-! ## 1. The tokens of the two sources -/

namespace TokenKind

/-- The tokens of `typedef B T;`. -/
def synonymOf (words : List BuiltinWord) (name : String) : List TokenKind :=
  .keyword (.storage .typeSynonym) :: (builtinWords words ++ [.ident name, .mark .semicolon])

/-- The tokens with the words in the place of each use of the name. -/
def respell (words : List BuiltinWord) (name : String) (ks : List TokenKind) : List TokenKind :=
  ks.flatMap fun k => if k = .ident name then builtinWords words else [k]

/-- The words are printable, and so is every token that was. -/
theorem printable_respell {words : List BuiltinWord} {name : String} {ks : List TokenKind}
    (h : ∀ k ∈ ks, k.Printable) : ∀ k ∈ respell words name ks, k.Printable := by
  intro k hk
  obtain ⟨k₀, hk₀, hk⟩ := List.mem_flatMap.1 hk
  split at hk
  · obtain ⟨w, -, rfl⟩ := List.mem_map.1 hk
    trivial
  · rw [List.mem_singleton.1 hk]
    exact h k₀ hk₀

end TokenKind

open TokenKind (builtinWords synonymOf respell)

namespace BuiltinSynonym

variable {S : BuiltinSynonym}

theorem respells_of_kinds {ts ts' : List Token}
    (h : ts'.map Token.kind = respell S.words S.name (ts.map Token.kind)) : S.Respells ts ts' := by
  induction ts generalizing ts' with
  | nil =>
    rw [List.map_eq_nil_iff.1 h]
    exact .nil
  | cons t ts ih =>
    rw [List.map_cons, respell, List.flatMap_cons] at h
    obtain ⟨front, rest, rfl, hfront, hrest⟩ := List.map_eq_append_iff.1 h
    split at hfront
    · exact .use ‹_› hfront (ih hrest)
    · rename_i hn
      obtain ⟨t', us, rfl, hk, hus⟩ := List.map_eq_cons_iff.1 hfront
      rw [List.map_eq_nil_iff.1 hus]
      exact .keep hk hn (ih hrest)

/-! ## 2. The declaration of the name -/

/-- The tokens of a text that begins with `typedef B T;`. -/
theorem split_synonymOf {words : List BuiltinWord} {name : String} {ks : List TokenKind}
    (h : ts.map Token.kind = synonymOf words name ++ ks) :
    ∃ k ws t u r, ts = k :: (ws ++ t :: u :: r) ∧ k.kind = .keyword (.storage .typeSynonym) ∧
      ws.map Token.kind = builtinWords words ∧ t.kind = .ident name ∧
      u.kind = .mark .semicolon ∧ r.map Token.kind = ks := by
  rw [synonymOf, List.cons_append, List.append_assoc] at h
  obtain ⟨k, ts₁, rfl, hk, h⟩ := List.map_eq_cons_iff.1 h
  obtain ⟨ws, ts₂, rfl, hws, h⟩ := List.map_eq_append_iff.1 h
  obtain ⟨t, ts₃, rfl, ht, h⟩ := List.map_eq_cons_iff.1 h
  obtain ⟨u, r, rfl, hu, hr⟩ := List.map_eq_cons_iff.1 h
  exact ⟨k, ws, t, u, r, rfl, hk, hws, ht, hu, hr⟩

section Opening

variable {k t u : Token} {ws : List Token} {words : List BuiltinWord} {name : String}

/-- The specifiers end in front of the name, which means nothing yet. -/
theorem gives_specifiers_synonymOf (stop : Location) (r : List Token)
    (hk : k.kind = .keyword (.storage .typeSynonym))
    (hws : ws.map Token.kind = builtinWords words) (ht : t.kind = .ident name)
    (hname : sc.typeName? name = none) :
    Gives (specifiers stop {} sc (k :: (ws ++ t :: r)))
      ({ storage := some .typeSynonym, words := words.reverse }, sc) (t :: r) := by
  have hadd : Specifiers.add? {} sc k.kind = some { storage := some .typeSynonym } := by
    rw [hk]
    rfl
  have hstop : Specifiers.add?
      { storage := some .typeSynonym, words := words.reverse } sc t.kind = none := by
    rw [ht, Specifiers.add?, hname]
    exact ite_self none
  refine gives_specifiers_add _ hadd (gives_specifiers_words hws ?_)
  rw [List.append_nil]
  exact gives_specifiers_stop r hstop (by rw [ht]; simp) (by rw [ht]; simp)

theorem gives_declarator_name (stop : Location) (sc : Scope) (r : List Token)
    (ht : t.kind = .ident name) (hu : u.kind = .mark .semicolon) :
    Gives (declarator stop sc (t :: u :: r)) (⟨some name, []⟩, sc) (u :: r) := by
  obtain ⟨hv, hrest⟩ := pointerRun_of_heads
    (heads_cons.2 (by rw [ht]; rfl) : Heads (isPointerKind · = false) (t :: u :: r))
  have hcore : Gives (declaratorCore stop sc (pointerRun (t :: u :: r)).rest)
      (⟨some name, []⟩, sc) (u :: r) := by
    rw [hrest]
    exact gives_declaratorCore_name ht
  have hsuffix : Gives (suffixRun stop sc (u :: r)) ([], sc) (u :: r) :=
    gives_suffixRun_nil (heads_cons.2 (by rw [hu]; decide))
  have := gives_declarator hcore hsuffix
  rwa [hv] at this

theorem resolve_words (S : BuiltinSynonym) (storage : Option StorageClass) (l : Location) :
    Specifiers.resolve { storage, words := S.words.reverse } l = .ok S.meaning := by
  have hformed : BuiltinWord.canonical? S.words.reverse = some S.spelling :=
    (BuiltinWord.canonical?_perm (List.reverse_perm _)).trans S.formed
  have hne : S.words.reverse.isEmpty = false := by simp [S.words_ne_nil]
  simp only [Specifiers.resolve, Specifiers.base, Counting.isEmpty_exact, Counting.spelling?_exact,
    hne, hformed]
  rfl

/-- Words that a declaration accepts form a type. -/
theorem formed_of_resolve {storage : Option StorageClass} {l : Location} {t : CType}
    (h : Specifiers.resolve { storage, words := words.reverse } l = .ok t) :
    ∃ spelling, BuiltinWord.canonical? words = some spelling := by
  rw [← BuiltinWord.canonical?_perm (List.reverse_perm words)]
  simp only [Specifiers.resolve, Specifiers.base, Counting.isEmpty_exact,
    Counting.spelling?_exact] at h
  cases hc : BuiltinWord.canonical? words.reverse with
  | some spelling => exact ⟨spelling, rfl⟩
  | none =>
    rw [hc] at h
    cases hw : words.reverse.isEmpty with
    | true => rw [hw] at h; cases h
    | false => rw [hw] at h; cases h

theorem take?_typeSynonym (hk : k.kind = .keyword (.storage .typeSynonym)) (r : List Token) :
    take? .semicolon (k :: r) = none := take?_of_ne (by rw [hk]; simp)

/-- **The declaration of the name** (`synonymOf`) gives it the type that the words form. -/
theorem gives_synonymOf (stop : Location) (sc : Scope) (r : List Token)
    (hk : k.kind = .keyword (.storage .typeSynonym))
    (hws : ws.map Token.kind = S.kinds) (ht : t.kind = .ident S.name)
    (hu : u.kind = .mark .semicolon) (hname : sc.typeName? S.name = none) :
    ∃ l, Gives (externalDeclaration stop sc (k :: (ws ++ t :: u :: r)))
      ([⟨some S.name, S.meaning, some .typeSynonym, l⟩], sc.nameType S.name S.type) r := by
  have hdeclarator := gives_declarator_name stop sc r ht hu
  have hlist := gives_declaratorList_single S.meaning (some .typeSynonym) hdeclarator rfl hu
  refine ⟨place stop (t :: u :: r), ?_⟩
  unfold externalDeclaration
  rw [take?_typeSynonym hk]
  refine gives_bind (gives_specifiers_synonymOf stop _ hk hws ht hname) fun _ => ?_
  simp only [S.resolve_words, no_semicolon_of_named hdeclarator rfl]
  exact gives_bind hlist fun _ => ⟨_, rfl, rfl, rfl⟩

/-- A text that begins with the declaration of a name for some words declares a name for a type. -/
theorem formed_of_external {s : Takes (k :: (ws ++ t :: u :: r)) (List Declaration × Scope)}
    (hk : k.kind = .keyword (.storage .typeSynonym)) (hws : ws.map Token.kind = builtinWords words)
    (ht : t.kind = .ident name) (hname : sc.typeName? name = none)
    (hs : externalDeclaration stop sc (k :: (ws ++ t :: u :: r)) = .ok s) :
    ∃ spelling, BuiltinWord.canonical? words = some spelling := by
  unfold externalDeclaration at hs
  rw [take?_typeSynonym hk] at hs
  obtain ⟨v, r₁, hlt, hspecs, hs⟩ := ok_of_bind hs
  obtain ⟨base, hbase, -⟩ := ok_of_check hs
  have hgives := gives_specifiers_synonymOf stop (u :: r) hk hws ht hname
  obtain ⟨rfl, -⟩ := hgives.unique ⟨_, hspecs, rfl, rfl⟩
  exact formed_of_resolve hbase

/-- The declaration of the name takes it for a name. -/
theorem mem_externalRoles (stop : Location) (sc : Scope) (u : Token) (r : List Token)
    (hk : k.kind = .keyword (.storage .typeSynonym))
    (hws : ws.map Token.kind = S.kinds) (ht : t.kind = .ident S.name)
    (hname : sc.typeName? S.name = none) :
    .name S.name ∈ externalRoles stop sc (k :: (ws ++ t :: u :: r)) := by
  obtain ⟨⟨_, _, _⟩, hspecs, rfl, rfl⟩ :=
    gives_specifiers_synonymOf stop (u :: r) hk hws ht hname
  unfold externalRoles
  rw [take?_typeSynonym hk, hspecs]
  refine List.mem_append_right _ ?_
  have hsemicolon : t.kind ≠ .mark .semicolon := by rw [ht]; simp
  simp only [Role.behind, S.resolve_words, take?_of_ne hsemicolon]
  unfold declaratorListRoles
  exact List.mem_append_left _ (mem_declaratorRoles ht stop sc (u :: r))

end Opening

/-- Behind its declaration, the name is known in both texts. -/
theorem scopes_opening (S : BuiltinSynonym) (ctx : Context) :
    S.Scopes (Scope.nameType { context := ctx } S.name S.type)
      (Scope.nameType { context := ctx } S.name S.type) where
  own := Keyed.lookup_set_self ..
  others x hx := by
    unfold Scope.typeName? Scope.nameType
    rw [Keyed.lookup_set_of_ne hx]
    rfl
  context := rfl

end BuiltinSynonym

/-- The roles in a text are those in its first declaration, and those in the rest. -/
theorem declarationsRoles_of_gives {own : List Declaration}
    (h : Gives (externalDeclaration stop sc ts) (own, sc₁) r) :
    declarationsRoles stop sc ts = externalRoles stop sc ts ++ declarationsRoles stop sc₁ r := by
  obtain ⟨s, hs, hv, rfl⟩ := h
  have hne : ts.isEmpty = false := by
    have := s.short
    cases ts with
    | nil => simp at this
    | cons t ts => rfl
  conv => lhs; unfold declarationsRoles
  rw [hne, hs]
  simp only [Bool.false_eq_true, ↓reduceIte, Role.behind, hv]

/-! ## 3. Sources -/

/-- The source has tokens of these kinds (`tokenize`). -/
def HasTokens (source : String) (ks : List TokenKind) : Prop :=
  ∃ ts stop, tokenize source.toUTF8.toList = .ok (ts, stop) ∧ ts.map Token.kind = ks

instance (source : String) (ks : List TokenKind) : Decidable (HasTokens source ks) :=
  match h : tokenize source.toUTF8.toList with
  | .ok (ts, stop) =>
    decidable_of_iff (ts.map Token.kind = ks)
      ⟨fun hk => ⟨ts, stop, h, hk⟩, fun ⟨_, _, h', hk⟩ => by rw [h] at h'; cases h'; exact hk⟩
  | .error _ => isFalse fun ⟨_, _, h', _⟩ => by rw [h] at h'; cases h'

/-- What a declaration declares: its name, the canonical form of its type and its storage class. -/
def Declaration.canonical (d : Declaration) : Option String × CType × Option StorageClass :=
  (d.name, d.type.desugar, d.storage)

/-- A registry is asked to register the types of the declarations at some places, and for the names
of these types. -/
def Declaration.asked (ds : List Declaration) (places : List Nat) : List Registry.Call :=
  places.flatMap fun i => ds[i]?.toList.flatMap fun d => [.register d.type, .typeName d.type]

/-- Two readings declare the same up to synonyms (`Declaration.canonical`), so a registry answers
the same identifiers to what it is asked of their declarations. -/
structure AlikeReadings (v v' : List Declaration × Scope) : Prop where
  declarations : v'.1.map Declaration.canonical = v.1.map Declaration.canonical
  members : v'.2.context.desugared = v.2.context.desugared
  answers : ∀ renames detail places,
    ({ context := v'.2.context, renames, detail } : Registry).answers
        (Declaration.asked v'.1 places) =
      ({ context := v.2.context, renames, detail } : Registry).answers
        (Declaration.asked v.1 places)

theorem asked_desugared (ds : List Declaration) (places : List Nat) :
    (Declaration.asked ds places).map Registry.Call.desugared =
      places.flatMap fun i => (ds.map Declaration.canonical)[i]?.toList.flatMap fun d =>
        [.register d.2.1, .typeName d.2.1] := by
  rw [Declaration.asked, List.map_flatMap]
  congr 1
  funext i
  rw [List.getElem?_map]
  cases ds[i]? <;> rfl

theorem AlikeReadings.of_canonical {v v' : List Declaration × Scope}
    (hds : v'.1.map Declaration.canonical = v.1.map Declaration.canonical)
    (hctx : v'.2.context.desugared = v.2.context.desugared) : AlikeReadings v v' := by
  refine ⟨hds, hctx, fun renames detail places => ?_⟩
  have hfresh : ∀ context, ({ context, renames, detail } : Registry).Fresh :=
    fun _ => ⟨rfl, rfl, rfl, rfl, rfl⟩
  refine Registry.answers_congr (hfresh v.2.context) (hfresh v'.2.context) hctx rfl rfl ?_
  rw [asked_desugared, asked_desugared, hds]

namespace BuiltinSynonym

variable {S : BuiltinSynonym}

theorem Follows.canonical {d d' : Declaration} (h : S.Follows d d') :
    d'.canonical = d.canonical := by
  rw [Declaration.canonical, h.name, h.type, h.storage, desugar_inType]
  rfl

theorem canonical_of_follows {ds ds' : List Declaration} (h : List.Forall₂ S.Follows ds ds') :
    ds'.map Declaration.canonical = ds.map Declaration.canonical := by
  induction h with
  | nil => rfl
  | cons h _ ih => rw [List.map_cons, List.map_cons, h.canonical, ih]

/-- **Two texts that begin with the declaration of the name,** one with the name and one with the
words (`respell`), declare alike. -/
theorem declarations_alike (stop' : Location) {ctx : Context} {ks : List TokenKind}
    {v : List Declaration × Scope}
    (hts : ts.map Token.kind = synonymOf S.words S.name ++ ks)
    (hts' : ts'.map Token.kind = synonymOf S.words S.name ++ respell S.words S.name ks)
    (hname : (declarationsRoles stop { context := ctx } ts).count (.name S.name) = 1)
    (hvoid : S.words = [.void] → .alone S.name ∉ declarationsRoles stop { context := ctx } ts)
    (hv : declarations stop { context := ctx } ts = .ok v) :
    ∃ v', declarations stop' { context := ctx } ts' = .ok v' ∧ AlikeReadings v v' := by
  obtain ⟨k, ws, t, u, r, rfl, hk, hws, ht, hu, hr⟩ := split_synonymOf hts
  obtain ⟨k', ws', t', u', r', rfl, hk', hws', ht', hu', hr'⟩ := split_synonymOf hts'
  obtain ⟨l, hgives⟩ := gives_synonymOf stop { context := ctx } r hk hws ht hu rfl
  obtain ⟨l', hgives'⟩ := gives_synonymOf stop' { context := ctx } r' hk' hws' ht' hu' rfl
  have hmem := mem_externalRoles stop { context := ctx } u r hk hws ht rfl
  rw [declarationsRoles_of_gives hgives] at hname hvoid
  have hpermits : S.Permits (declarationsRoles stop
      (Scope.nameType { context := ctx } S.name S.type) r) := by
    refine ⟨?_, fun hw h => hvoid hw (List.mem_append_right _ h)⟩
    rw [List.count_append] at hname
    have := List.count_pos_iff.2 hmem
    exact List.count_eq_zero.1 (by omega)
  rw [declarations_of_gives hgives] at hv
  cases hrest : declarations stop (Scope.nameType { context := ctx } S.name S.type) r with
  | error e =>
    rw [hrest] at hv
    cases hv
  | ok rest =>
    rw [hrest] at hv
    cases hv
    obtain ⟨rest', hrest', hfollows, hsc⟩ :=
      declarations_respelled (scopes_opening S ctx) (respells_of_kinds (hr ▸ hr')) hpermits hrest
    refine ⟨_, declarations_cons hgives' hrest', .of_canonical ?_ hsc.context⟩
    simp only [List.map_append, canonical_of_follows hfollows]
    rfl

end BuiltinSynonym

open BuiltinSynonym

/-- **A name for a builtin type may be replaced by the words for it.** Let a source that is read
begin with `typedef B T;` (`synonymOf`), and let it take `T` for a name nowhere else
(`sourceRoles`). There are sources with the words `B` in the place of every later `T` (`respell`),
and each of them is read and declares the same up to synonyms (`AlikeReadings`). If `B` is `void`,
no parameter list may consist of `T` alone. -/
theorem readings_respelled {source : String} {ctx : Context} {words : List BuiltinWord}
    {name : String} {ks : List TokenKind} {v : List Declaration × Scope}
    (htokens : HasTokens source (synonymOf words name ++ ks)) (hv : parseSource source ctx = .ok v)
    (hname : (sourceRoles source ctx).count (.name name) = 1)
    (hvoid : words = [.void] → .alone name ∉ sourceRoles source ctx) :
    (∃ source', HasTokens source' (synonymOf words name ++ respell words name ks)) ∧
      ∀ source', HasTokens source' (synonymOf words name ++ respell words name ks) →
        ∃ v', parseSource source' ctx = .ok v' ∧ AlikeReadings v v' := by
  obtain ⟨ts, stop, htok, hts⟩ := htokens
  have hdeclarations : parseSource source ctx = declarations stop { context := ctx } ts := by
    rw [parseSource, parseBytes, htok]
    rfl
  have hroles : sourceRoles source ctx = declarationsRoles stop { context := ctx } ts := by
    rw [sourceRoles, htok]
  rw [hdeclarations] at hv
  rw [hroles] at hname hvoid
  constructor
  · have hprintable : ∀ k ∈ synonymOf words name ++ ks, k.Printable := by
      intro k hk
      rw [← hts] at hk
      obtain ⟨t, ht, rfl⟩ := List.mem_map.1 hk
      exact (scans_tokenize htok t ht).printable
    obtain ⟨hopening, hks⟩ := List.forall_mem_append.1 hprintable
    obtain ⟨ts', stop', htok', hts'⟩ := kinds_of_lexes (lexes_printed
      (List.forall_mem_append.2 ⟨hopening, TokenKind.printable_respell hks⟩))
    exact ⟨_, ts', stop', htok', hts'⟩
  · rintro source' ⟨ts', stop', htok', hts'⟩
    obtain ⟨spelling, hspelling⟩ :
        ∃ spelling, BuiltinWord.canonical? words = some spelling := by
      obtain ⟨k, ws, t, u, r, rfl, hk, hws, ht, hu, -⟩ := split_synonymOf hts
      unfold declarations at hv
      obtain ⟨_, _, _, hs, -⟩ := ok_of_bind hv
      exact formed_of_external hk hws ht rfl hs
    obtain ⟨v', hv', halike⟩ := declarations_alike (S := ⟨name, words, spelling, hspelling⟩) stop'
      hts hts' hname hvoid hv
    refine ⟨v', ?_, halike⟩
    rw [parseSource, parseBytes, htok']
    exact hv'

/-- A name in a member, and alone in a parameter list. -/
def uintSource : String := "typedef unsigned int uint; struct S \x7b uint *p; \x7d; int f(uint);"

/-- The source with the words in the place of their name. -/
def unsignedSource : String :=
  "typedef unsigned int uint; struct S \x7b unsigned int *p; \x7d; int f(unsigned int);"

theorem tokenize_uint : tokenize uintSource.toUTF8.toList = .ok
    ([⟨.keyword (.storage .typeSynonym), ⟨1, 1⟩⟩, ⟨.keyword (.builtin .unsigned), ⟨1, 9⟩⟩,
      ⟨.keyword (.builtin .int), ⟨1, 18⟩⟩, ⟨.ident "uint", ⟨1, 22⟩⟩, ⟨.mark .semicolon, ⟨1, 26⟩⟩,
      ⟨.keyword (.record .structKey), ⟨1, 28⟩⟩, ⟨.ident "S", ⟨1, 35⟩⟩, ⟨.mark .braceOpen, ⟨1, 37⟩⟩,
      ⟨.ident "uint", ⟨1, 39⟩⟩, ⟨.mark .star, ⟨1, 44⟩⟩, ⟨.ident "p", ⟨1, 45⟩⟩,
      ⟨.mark .semicolon, ⟨1, 46⟩⟩, ⟨.mark .braceClose, ⟨1, 48⟩⟩, ⟨.mark .semicolon, ⟨1, 49⟩⟩,
      ⟨.keyword (.builtin .int), ⟨1, 51⟩⟩, ⟨.ident "f", ⟨1, 55⟩⟩, ⟨.mark .parenOpen, ⟨1, 56⟩⟩,
      ⟨.ident "uint", ⟨1, 57⟩⟩, ⟨.mark .parenClose, ⟨1, 61⟩⟩, ⟨.mark .semicolon, ⟨1, 62⟩⟩],
      ⟨1, 63⟩) := by
  decide +kernel

theorem readings_respelled_uint :
    ∃ ks v v', HasTokens uintSource (synonymOf [.unsigned, .int] "uint" ++ ks) ∧
      parseSource uintSource = .ok v ∧ (sourceRoles uintSource).count (.name "uint") = 1 ∧
      HasTokens unsignedSource
        (synonymOf [.unsigned, .int] "uint" ++ respell [.unsigned, .int] "uint" ks) ∧
      parseSource unsignedSource = .ok v' ∧ AlikeReadings v v' ∧
      v.2.context.records.length = 1 ∧ v.1.length = 3 := by
  let ks : List TokenKind :=
    [.keyword (.record .structKey), .ident "S", .mark .braceOpen, .ident "uint", .mark .star,
      .ident "p", .mark .semicolon, .mark .braceClose, .mark .semicolon, .keyword (.builtin .int),
      .ident "f", .mark .parenOpen, .ident "uint", .mark .parenClose, .mark .semicolon]
  let uint : CType := .synonym .none "uint" (.builtin .none "unsigned int")
  have hks : HasTokens uintSource (synonymOf [.unsigned, .int] "uint" ++ ks) := by
    decide +kernel
  have hks' : HasTokens unsignedSource
      (synonymOf [.unsigned, .int] "uint" ++ respell [.unsigned, .int] "uint" ks) := by
    decide +kernel
  have hv : parseSource uintSource = .ok
      ([⟨some "uint", .builtin .none "unsigned int", some .typeSynonym, ⟨1, 22⟩⟩,
        ⟨none, .record .none ⟨0⟩, none, ⟨1, 28⟩⟩,
        ⟨some "f", .function .none (.builtin .none "int") [uint] false, none, ⟨1, 55⟩⟩],
        ⟨[("uint", uint)],
          ⟨[⟨.structKey, some "S", some [⟨some "p", .pointer .none .pointer uint, none, none⟩],
            []⟩], []⟩⟩) := by
    rw [parseSource, parseBytes, tokenize_uint]
    cbv
  have hroles : sourceRoles uintSource =
      [.name "uint", .name "S", .name "p", .name "f", .alone "uint"] := by
    rw [sourceRoles, tokenize_uint]
    cbv
  have hname : (sourceRoles uintSource).count (.name "uint") = 1 := by
    rw [hroles]
    decide
  obtain ⟨-, hread⟩ := readings_respelled hks hv hname fun h => by cases h
  obtain ⟨v', hv', halike⟩ := hread unsignedSource hks'
  exact ⟨ks, _, v', hks, hv, hname, hks', hv', halike, rfl, rfl⟩

/-- A parameter list that consists of a name for `void`. -/
def voidNameSource : String := "typedef void T; int f(T);"

def voidWordSource : String := "typedef void T; int f(void);"

/-- **The word `void` alone is an empty parameter list, a name for it is one parameter.** -/
theorem void_synonym_list :
    ∃ ks v v', HasTokens voidNameSource (synonymOf [.void] "T" ++ ks) ∧
      (sourceRoles voidNameSource).count (.name "T") = 1 ∧
      parseSource voidNameSource = .ok v ∧
      HasTokens voidWordSource (synonymOf [.void] "T" ++ respell [.void] "T" ks) ∧
      parseSource voidWordSource = .ok v' ∧
      v.1.map Declaration.canonical =
        [(some "T", .builtin .none "void", some .typeSynonym),
          (some "f", .function .none (.builtin .none "int") [.builtin .none "void"] false, none)] ∧
      v'.1.map Declaration.canonical =
        [(some "T", .builtin .none "void", some .typeSynonym),
          (some "f", .function .none (.builtin .none "int") [] false, none)] := by
  have htokens : tokenize voidNameSource.toUTF8.toList = .ok
      ([⟨.keyword (.storage .typeSynonym), ⟨1, 1⟩⟩, ⟨.keyword (.builtin .void), ⟨1, 9⟩⟩,
        ⟨.ident "T", ⟨1, 14⟩⟩, ⟨.mark .semicolon, ⟨1, 15⟩⟩, ⟨.keyword (.builtin .int), ⟨1, 17⟩⟩,
        ⟨.ident "f", ⟨1, 21⟩⟩, ⟨.mark .parenOpen, ⟨1, 22⟩⟩, ⟨.ident "T", ⟨1, 23⟩⟩,
        ⟨.mark .parenClose, ⟨1, 24⟩⟩, ⟨.mark .semicolon, ⟨1, 25⟩⟩], ⟨1, 26⟩) := by
    decide +kernel
  have htokens' : tokenize voidWordSource.toUTF8.toList = .ok
      ([⟨.keyword (.storage .typeSynonym), ⟨1, 1⟩⟩, ⟨.keyword (.builtin .void), ⟨1, 9⟩⟩,
        ⟨.ident "T", ⟨1, 14⟩⟩, ⟨.mark .semicolon, ⟨1, 15⟩⟩, ⟨.keyword (.builtin .int), ⟨1, 17⟩⟩,
        ⟨.ident "f", ⟨1, 21⟩⟩, ⟨.mark .parenOpen, ⟨1, 22⟩⟩, ⟨.keyword (.builtin .void), ⟨1, 23⟩⟩,
        ⟨.mark .parenClose, ⟨1, 27⟩⟩, ⟨.mark .semicolon, ⟨1, 28⟩⟩], ⟨1, 29⟩) := by
    decide +kernel
  let T : CType := .synonym .none "T" (.builtin .none "void")
  have hroles : sourceRoles voidNameSource = [.name "T", .name "f", .alone "T"] := by
    rw [sourceRoles, htokens]
    cbv
  refine ⟨[.keyword (.builtin .int), .ident "f", .mark .parenOpen, .ident "T", .mark .parenClose,
      .mark .semicolon],
    ([⟨some "T", .builtin .none "void", some .typeSynonym, ⟨1, 14⟩⟩,
      ⟨some "f", .function .none (.builtin .none "int") [T] false, none, ⟨1, 21⟩⟩],
      ⟨[("T", T)], {}⟩),
    ([⟨some "T", .builtin .none "void", some .typeSynonym, ⟨1, 14⟩⟩,
      ⟨some "f", .function .none (.builtin .none "int") [] false, none, ⟨1, 21⟩⟩],
      ⟨[("T", T)], {}⟩),
    ⟨_, _, htokens, rfl⟩, by rw [hroles]; decide, ?_, ⟨_, _, htokens', rfl⟩, ?_, rfl, rfl⟩
  · rw [parseSource, parseBytes, htokens]
    cbv
  · rw [parseSource, parseBytes, htokens']
    cbv

end TypeLedger
