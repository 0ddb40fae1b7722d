import TypeLedger.Proofs.Synonyms.Respelled

/-!
# Scopes and specifiers of two texts

* `BuiltinSynonym.Scopes`: the scope that a text leaves, and the one that it leaves with the builtin
  words in the place of their name.
* `Specs`: what the specifiers of the two texts have said so far. Where the first has met the name,
  the second has met the words.
* `Specs.resolve`: the specifiers name one type, which has the builtin type where the name stands.
-/

namespace TypeLedger

variable {stop : Location} {sc sc' : Scope} {ts ts' : List Token}

namespace BuiltinSynonym

variable {S : BuiltinSynonym}

/-! ## 1. Scopes -/

/-- The first scope knows the name, every other type name stands for what its meaning becomes, and
the types of members and bases have the same canonical forms. -/
structure Scopes (S : BuiltinSynonym) (sc sc' : Scope) : Prop where
  own : sc.typeName? S.name = some S.type
  others : ∀ x, x ≠ S.name → sc'.typeName? x = (sc.typeName? x).map S.inType
  context : sc'.context.desugared = sc.context.desugared

namespace Scopes

theorem nameType (h : S.Scopes sc sc') {x : String} (hx : x ≠ S.name) (t : CType) :
    S.Scopes (sc.nameType x t) (sc'.nameType x (S.inType t)) := by
  refine ⟨?_, fun y hy => ?_, h.context⟩
  · exact (Keyed.lookup_set_of_ne hx.symm _ _).trans h.own
  · by_cases hxy : y = x
    · subst hxy
      unfold Scope.typeName? Scope.nameType
      rw [Keyed.lookup_set_self, Keyed.lookup_set_self]
      rfl
    · unfold Scope.typeName? Scope.nameType
      rw [Keyed.lookup_set_of_ne hxy, Keyed.lookup_set_of_ne hxy]
      exact h.others y hy

theorem withContext (h : S.Scopes sc sc') {ctx ctx' : Context}
    (hctx : ctx'.desugared = ctx.desugared) :
    S.Scopes { sc with context := ctx } { sc' with context := ctx' } :=
  ⟨h.own, h.others, hctx⟩

theorem findRecord? (h : S.Scopes sc sc') (x : String) :
    sc'.context.findRecord? x = sc.context.findRecord? x := by
  rw [← Context.findRecord?_desugared, h.context, Context.findRecord?_desugared]

theorem isComplete (h : S.Scopes sc sc') (id : RecordId) :
    (sc'.context.record? id).any RecordDecl.isComplete =
      (sc.context.record? id).any RecordDecl.isComplete := by
  rw [← Context.isComplete_desugared, h.context, Context.isComplete_desugared]

/-- A record gets the same number in both `Scopes`. -/
theorem declareRecord (h : S.Scopes sc sc') (key : RecordKey) (x : Option String) :
    (sc'.context.declareRecord key x).1 = (sc.context.declareRecord key x).1 ∧
      (sc'.context.declareRecord key x).2.desugared =
        (sc.context.declareRecord key x).2.desugared := by
  have hboth := Context.declareRecord_desugared sc'.context key x
  rw [h.context, Context.declareRecord_desugared] at hboth
  exact ⟨(congrArg Prod.fst hboth).symm, (congrArg Prod.snd hboth).symm⟩

theorem completeRecord (h : S.Scopes sc sc') (id : RecordId) (ms : List MemberDecl)
    (bs : List BaseDecl) :
    (sc'.context.completeRecord id (ms.map S.inMember) bs).desugared =
      (sc.context.completeRecord id ms bs).desugared := by
  rw [← Context.completeRecord_desugared, ← Context.completeRecord_desugared,
    desugared_map_inMember, h.context]

/-- Enumerations are the same in both `Scopes`. -/
theorem enums (h : S.Scopes sc sc') : sc'.context.enums = sc.context.enums := by
  have hboth := congrArg Context.enums h.context
  exact hboth

/-- An enumeration that is declared in the one scope is declared in the other. -/
theorem declareEnum (h : S.Scopes sc sc') (x : Option String) :
    (sc'.context.declareEnum x).1 = (sc.context.declareEnum x).1 ∧
      (sc'.context.declareEnum x).2.desugared = (sc.context.declareEnum x).2.desugared := by
  have hrecords := congrArg Context.records h.context
  have henums := h.enums
  constructor
  · simp only [Context.declareEnum, henums]
  · simp only [Context.declareEnum, Context.desugared, Context.mk.injEq, henums, and_true]
    exact hrecords

theorem nameClass (h : S.Scopes sc sc') {x : Option String} (hx : x ≠ some S.name) (key : RecordKey)
    (id : RecordId) :
    S.Scopes (TypeLedger.nameClass sc key x id) (TypeLedger.nameClass sc' key x id) := by
  unfold TypeLedger.nameClass
  split
  · rename_i y
    have hy : y ≠ S.name := fun hy => hx (congrArg some hy)
    exact h.nameType hy (.record .none id)
  · exact h

theorem recordType? (h : S.Scopes sc sc') {x : String} (hx : x ≠ S.name) :
    sc'.recordType? x = sc.recordType? x := by
  have hdesugar : (sc'.typeName? x).map CType.desugar = (sc.typeName? x).map CType.desugar := by
    rw [h.others x hx, Option.map_map]
    congr 1
    funext t
    exact S.desugar_inType t
  unfold Scope.recordType?
  rw [hdesugar, h.findRecord?]

/-- A record that is declared or found in the one scope is declared or found in the other. -/
theorem tagged (h : S.Scopes sc sc') {key : RecordKey} {x : Option String} {hasBody : Bool}
    {id : RecordId} {sc₁ : Scope} (ht : TypeLedger.tagged sc key x hasBody = .ok (id, sc₁)) :
    ∃ sc₁', TypeLedger.tagged sc' key x hasBody = .ok (id, sc₁') ∧ S.Scopes sc₁ sc₁' := by
  unfold TypeLedger.tagged at ht ⊢
  split at ht
  · obtain ⟨hid, hctx⟩ := h.declareRecord key none
    cases ht
    exact ⟨_, congrArg (fun i => Except.ok (i, _)) hid, h.withContext hctx⟩
  · rename_i y
    obtain ⟨hid, hctx⟩ := h.declareRecord key (some y)
    dsimp only
    rw [h.findRecord?]
    split at ht
    · rename_i i hi
      rw [h.isComplete]
      split at ht
      · cases ht
      · rename_i hb
        cases ht
        exact ⟨sc', if_neg hb, h⟩
    · cases ht
      exact ⟨_, congrArg (fun i => Except.ok (i, _)) hid, h.withContext hctx⟩

/-- A parenthesis opens a declarator in both texts or in none. -/
theorem takeNested? (hsc : S.Scopes sc sc') (h : S.Respells ts ts') :
    (TypeLedger.takeNested? sc ts = none ∧ TypeLedger.takeNested? sc' ts' = none) ∨
      ∃ r r' hlt hlt', TypeLedger.takeNested? sc ts = some ⟨(), r, hlt⟩ ∧
        TypeLedger.takeNested? sc' ts' = some ⟨(), r', hlt'⟩ ∧ S.Respells r r' := by
  unfold TypeLedger.takeNested?
  rcases h.take? .parenOpen with ⟨hn, hn'⟩ | ⟨r, r', hlt, hlt', hs, hs', hr⟩
  · rw [hn, hn']
    exact .inl ⟨rfl, rfl⟩
  · rw [hs, hs']
    have hbegins : (r'.head?.any fun t => beginsDeclarator sc' t.kind) =
        r.head?.any fun t => beginsDeclarator sc t.kind := by
      rcases hr.cases_head with ⟨rfl, rfl⟩ | ⟨t, t', r, r', rfl, rfl, hk, hname, -⟩ |
        ⟨t, t', r, r', w, rfl, rfl, ht, hk⟩
      · rfl
      · simp only [List.head?_cons, Option.any_some, hk]
        unfold beginsDeclarator
        split
        · rfl
        · rename_i x hx
          rw [hsc.others x fun he => hname (hx.trans (congrArg _ he)), Option.isNone_map]
        · rfl
      · simp only [List.head?_cons, Option.any_some, ht, hk, beginsDeclarator, hsc.own,
          Option.isNone_some]
    dsimp only
    rw [hbegins]
    split
    · exact .inr ⟨r, r', hlt, hlt', rfl, rfl, hr⟩
    · exact .inl ⟨rfl, rfl⟩

end Scopes

/-! ## 2. Specifiers -/

/-- What has been said of the type: the same in both texts, or the name in the one and the words in
the other. Behind the name, the first text may still have builtin words. -/
inductive Said (S : BuiltinSynonym) (acc acc' : Specifiers) : Prop
  | same (words : acc'.words = acc.words) (named : acc'.named = acc.named.map S.inType)
  | name (named : acc.named = some S.type) (named' : acc'.named = none)
    (words : acc'.words = acc.words ++ S.words.reverse)

/-- The specifiers of the two texts belong together. -/
structure Specs (S : BuiltinSynonym) (acc acc' : Specifiers) : Prop where
  storage : acc'.storage = acc.storage
  quals : acc'.quals = acc.quals
  complex : acc'.complex = acc.complex
  said : S.Said acc acc'

theorem specs_empty : S.Specs {} {} := ⟨rfl, rfl, rfl, .same rfl rfl⟩

namespace Specs

variable {acc acc' : Specifiers}

/-- A type name may come next in both texts or in none. -/
theorem open_iff (h : S.Specs acc acc') :
    (acc'.named.isNone = true ∧ acc'.words.isEmpty = true) ↔
      (acc.named.isNone = true ∧ acc.words.isEmpty = true) := by
  cases h.said with
  | same words named => rw [words, named, Option.isNone_map]
  | name named named' words =>
    have hw : acc'.words.isEmpty = false := by
      rw [words]
      simp [S.words_ne_nil]
    rw [hw, named]
    simp

theorem withNamed (h : S.Specs acc acc') (hn : acc.named = none) (t : CType) :
    S.Specs { acc with named := some t } { acc' with named := some (S.inType t) } := by
  cases h.said with
  | same words named => exact ⟨h.storage, h.quals, h.complex, .same words rfl⟩
  | name named named' words =>
    rw [hn] at named
    cases named

theorem named_eq_none (h : S.Specs acc acc') (hn : acc.named = none) : acc'.named = none := by
  cases h.said with
  | same words named => rw [named, hn]; rfl
  | name named named' words => exact named'

/-- A token other than the name is a specifier in both texts or in none. -/
theorem add? (h : S.Specs acc acc') (hsc : S.Scopes sc sc') {k : TokenKind}
    (hk : k ≠ .ident S.name) :
    (acc.add? sc k = none ∧ acc'.add? sc' k = none) ∨
      ∃ a a', acc.add? sc k = some a ∧ acc'.add? sc' k = some a' ∧ S.Specs a a' := by
  obtain ⟨hstorage, hquals, hcomplex, hsaid⟩ := h
  cases k with
  | ident x =>
    have hx : x ≠ S.name := fun he => hk (congrArg _ he)
    have hopen := open_iff ⟨hstorage, hquals, hcomplex, hsaid⟩
    dsimp only [Specifiers.add?, Counting.isEmpty_exact]
    by_cases ho : acc.named.isNone = true ∧ acc.words.isEmpty = true
    · rw [if_pos ho, if_pos (hopen.2 ho), hsc.others x hx]
      cases sc.typeName? x with
      | none => exact .inl ⟨rfl, rfl⟩
      | some t =>
        refine .inr ⟨_, _, rfl, rfl, ?_⟩
        exact withNamed ⟨hstorage, hquals, hcomplex, hsaid⟩ (Option.isNone_iff_eq_none.1 ho.1) t
    · rw [if_neg ho, if_neg (mt hopen.1 ho)]
      exact .inl ⟨rfl, rfl⟩
  | keyword w =>
    cases w with
    | storage c =>
      refine .inr ⟨_, _, rfl, rfl, rfl, hquals, hcomplex, ?_⟩
      cases hsaid with
      | same words named => exact .same words named
      | name named named' words => exact .name named named' words
    | inlineFunction => exact .inr ⟨_, _, rfl, rfl, hstorage, hquals, hcomplex, hsaid⟩
    | qualifier q =>
      refine .inr ⟨_, _, rfl, rfl, hstorage, by rw [hquals], hcomplex, ?_⟩
      cases hsaid with
      | same words named => exact .same words named
      | name named named' words => exact .name named named' words
    | builtin w =>
      refine .inr ⟨_, _, rfl, rfl, hstorage, hquals, hcomplex, ?_⟩
      cases hsaid with
      | same words named => exact .same (by rw [words]) named
      | name named named' words => exact .name named named' (by rw [words]; rfl)
    | complex =>
      refine .inr ⟨_, _, rfl, rfl, hstorage, hquals, rfl, ?_⟩
      cases hsaid with
      | same words named => exact .same words named
      | name named named' words => exact .name named named' words
    | _ => exact .inl ⟨rfl, rfl⟩
  | _ => exact .inl ⟨rfl, rfl⟩

/-- The name is a specifier where no type has been said. -/
theorem add?_name (h : S.Specs acc acc') (hsc : S.Scopes sc sc') {a : Specifiers}
    (ha : acc.add? sc (.ident S.name) = some a) :
    S.Specs a { acc' with words := S.words.reverse ++ acc'.words } := by
  simp only [Specifiers.add?, hsc.own] at ha
  split at ha
  · rename_i ho
    cases ha
    have hopen := h.open_iff.2 ho
    refine ⟨h.storage, h.quals, h.complex, .name rfl (Option.isNone_iff_eq_none.1 hopen.1) ?_⟩
    rw [List.isEmpty_iff.1 hopen.2, List.isEmpty_iff.1 ho.2, List.append_nil, List.nil_append]
  · cases ha

/-- The specifiers have one type without their qualifiers, which has the builtin type where the name
stands. -/
theorem base (h : S.Specs acc acc') {t : CType} (ht : acc.base = .ok t) :
    acc'.base = .ok (S.inType t) := by
  simp only [Specifiers.base, Counting.isEmpty_exact, Counting.spelling?_exact] at ht ⊢
  cases h.said with
  | same words named =>
    rw [words, named, h.complex]
    cases hn : acc.named with
    | some u =>
      rw [hn] at ht
      dsimp only [Option.map_some] at ht ⊢
      split at ht
      · rename_i hempty
        cases ht
        exact if_pos hempty
      · cases ht
    | none =>
      rw [hn] at ht
      dsimp only [Option.map_none] at ht ⊢
      split at ht
      · rename_i hempty
        rw [if_pos hempty]
        split at ht
        · rename_i hcomplex
          cases ht
          exact if_pos hcomplex
        · cases ht
      · rename_i hempty
        rw [if_neg hempty]
        cases hc : BuiltinWord.canonical? acc.words with
        | none => rw [hc] at ht; cases ht
        | some spelling => rw [hc] at ht; cases ht; rfl
  | name named named' words =>
    rw [named] at ht
    dsimp only at ht
    split at ht
    · rename_i hempty
      cases ht
      have hformed : BuiltinWord.canonical? S.words.reverse = some S.spelling :=
        (BuiltinWord.canonical?_perm (List.reverse_perm _)).trans S.formed
      have hne : S.words.reverse.isEmpty = false := by simp [S.words_ne_nil]
      rw [named', words, List.isEmpty_iff.1 hempty, List.nil_append, inType_type]
      simp only [hne, hformed, Bool.false_eq_true, ↓reduceIte]
      rfl
    · cases ht

/-- **The specifiers name one type** (`resolve`), which has the builtin type where the name
stands. -/
theorem resolve (h : S.Specs acc acc') {l : Location} {t : CType} (ht : acc.resolve l = .ok t)
    (l' : Location) : acc'.resolve l' = .ok (S.inType t) := by
  unfold Specifiers.resolve at ht ⊢
  cases hb : acc.base with
  | error f => rw [hb] at ht; cases ht
  | ok b =>
    rw [hb] at ht
    cases ht
    rw [h.base hb, h.complex, h.quals, inType_qualified]
    cases acc.complex <;> rfl

end Specs

end BuiltinSynonym

end TypeLedger
