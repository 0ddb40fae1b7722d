import TypeLedger.Proofs.Grammar.Gives
import TypeLedger.Proofs.Printing.Written

/-!
# Reading the parts of declarations back

* `CType.Matches`: a type is another one with the records and enumerations that a context has under
  their labels.
* `CType.emptied`: a type without the `void` that stands for no parameters.
* `reads_specifiers`: the tokens of specifiers are read as the type that they name.
* `Direct` and `Declares` say what the tokens of a declarator are read as, with and without suffixes
  still to come.
-/

namespace TypeLedger

/-! ## 1. Types under labels -/

namespace CType

mutual

/-- The second type is the first one, with the records and enumerations that the context has under
their labels. -/
def Matches (l : Labels) (ctx : Context) : CType → CType → Prop
  | builtin q s, u => u = builtin q s
  | record q id, u =>
    ∃ id', ctx.findRecord? (l.record id).2 = some id' ∧ u = record q id'
  | enumeration q id, u =>
    ∃ id', ctx.findEnum? (l.enumeration id) = some id' ∧ u = enumeration q id'
  | pointer q k t, u => ∃ t', Matches l ctx t t' ∧ u = pointer q k t'
  | array q n t, u => ∃ t', Matches l ctx t t' ∧ u = array q n t'
  | function q t ps v, u =>
    ∃ t' ps', Matches l ctx t t' ∧ MatchesAll l ctx ps ps' ∧ u = function q t' ps' v
  | _, _ => False

/-- The types of the second list are those of the first one, in order, under labels. -/
def MatchesAll (l : Labels) (ctx : Context) : List CType → List CType → Prop
  | [], us => us = []
  | t :: ts, us => ∃ u us', Matches l ctx t u ∧ MatchesAll l ctx ts us' ∧ us = u :: us'

end

end CType

/-- Whatever the first context has under a name, the second has too. -/
structure Context.Grows (ctx ctx' : Context) : Prop where
  record : ∀ n id, ctx.findRecord? n = some id → ctx'.findRecord? n = some id
  enumeration : ∀ n id, ctx.findEnum? n = some id → ctx'.findEnum? n = some id

theorem Context.Grows.refl (ctx : Context) : ctx.Grows ctx := ⟨fun _ _ h => h, fun _ _ h => h⟩

theorem Context.Grows.trans {c₁ c₂ c₃ : Context} (h : c₁.Grows c₂) (h' : c₂.Grows c₃) :
    c₁.Grows c₃ :=
  ⟨fun n id hn => h'.record n id (h.record n id hn),
    fun n id hn => h'.enumeration n id (h.enumeration n id hn)⟩

mutual

theorem CType.Matches.mono {l : Labels} {ctx ctx' : Context} (h : ctx.Grows ctx') :
    ∀ {t u : CType}, t.Matches l ctx u → t.Matches l ctx' u
  | .builtin _ _, _, hm => hm
  | .record _ _, _, hm => by
    obtain ⟨id', hid, rfl⟩ := hm
    exact ⟨id', h.record _ _ hid, rfl⟩
  | .enumeration _ _, _, hm => by
    obtain ⟨id', hid, rfl⟩ := hm
    exact ⟨id', h.enumeration _ _ hid, rfl⟩
  | .pointer _ _ _, _, hm | .array _ _ _, _, hm => by
    obtain ⟨t', ht, rfl⟩ := hm
    exact ⟨t', ht.mono h, rfl⟩
  | .function _ _ _ _, _, hm => by
    obtain ⟨t', ps', ht, hps, rfl⟩ := hm
    exact ⟨t', ps', ht.mono h, hps.mono h, rfl⟩

theorem CType.MatchesAll.mono {l : Labels} {ctx ctx' : Context} (h : ctx.Grows ctx') :
    ∀ {ts us : List CType}, MatchesAll l ctx ts us → MatchesAll l ctx' ts us
  | [], _, hm => hm
  | _ :: _, _, hm => by
    obtain ⟨u, us', hu, hus, rfl⟩ := hm
    exact ⟨u, us', hu.mono h, hus.mono h, rfl⟩

end

mutual

/-- What a type is under labels is canonical. -/
theorem CType.Matches.desugar_eq {l : Labels} {ctx : Context} :
    ∀ {t u : CType}, t.Matches l ctx u → u.desugar = u
  | .builtin _ _, _, hm => by rw [hm, desugar]
  | .record _ _, _, hm | .enumeration _ _, _, hm => by
    obtain ⟨id', -, rfl⟩ := hm
    rw [desugar]
  | .pointer _ _ _, _, hm | .array _ _ _, _, hm => by
    obtain ⟨t', ht, rfl⟩ := hm
    rw [desugar, ht.desugar_eq]
  | .function _ _ _ _, _, hm => by
    obtain ⟨t', ps', ht, hps, rfl⟩ := hm
    rw [desugar, ht.desugar_eq, hps.desugarAll_eq]

theorem CType.MatchesAll.desugarAll_eq {l : Labels} {ctx : Context} :
    ∀ {ts us : List CType}, MatchesAll l ctx ts us → desugarAll us = us
  | [], _, hm => by rw [hm, desugarAll]
  | _ :: _, _, hm => by
    obtain ⟨u, us', hu, hus, rfl⟩ := hm
    rw [desugarAll, hu.desugar_eq, hus.desugarAll_eq]

end

namespace CType

mutual

/-- The type as its declaration is read: `void` alone between the parentheses of a function stands
for no parameters. -/
def emptied : CType → CType
  | pointer q k t => pointer q k t.emptied
  | array q n t => array q n t.emptied
  | function q t ps v =>
    function q t.emptied (if !v && ps = [.builtin .none "void"] then [] else emptiedAll ps) v
  | t => t

def emptiedAll : List CType → List CType
  | [] => []
  | t :: ts => t.emptied :: emptiedAll ts

end

theorem emptiedAll_eq_map (ts : List CType) : emptiedAll ts = ts.map emptied := by
  induction ts with
  | nil => rfl
  | cons t ts ih => rw [emptiedAll, ih]; rfl

theorem emptiedAll_eq_self {ts : List CType} (h : ∀ t ∈ ts, t.emptied = t) :
    emptiedAll ts = ts := by
  rw [emptiedAll_eq_map]
  exact (List.map_congr_left h).trans (List.map_id ts)

/-- The declaration of a writable type is read as the type. -/
theorem Writable.emptied_eq {r : RecordId → Prop} {e : EnumId → Prop} {t : CType}
    (h : t.Writable r e) : t.emptied = t := by
  induction h with
  | builtin _ | record _ | enumeration _ => rfl
  | pointer _ _ _ ih | array _ ih => rw [emptied, ih]
  | @function t ps v _ _ hv ih ihs =>
    have hnot : (!v && decide (ps = [.builtin .none "void"])) = false := by
      rcases hv with rfl | hv
      · rfl
      · rw [decide_eq_false hv, Bool.and_false]
    rw [emptied, ih, emptiedAll_eq_self ihs, hnot]
    rfl

/-- No synonym comes in where `void` goes. -/
theorem Legible.desugar_emptied {r : RecordId → Prop} {e : EnumId → Prop} {t : CType}
    (h : t.Legible r e) : t.emptied.desugar = t.emptied := by
  induction h with
  | builtin _ | record _ | enumeration _ => rfl
  | pointer _ _ _ ih | array _ ih => rw [emptied, desugar, ih]
  | @function t ps v _ _ ih ihs =>
    rw [emptied, desugar, ih]
    split
    · rfl
    · rw [emptiedAll_eq_map, desugarAll_eq_map, List.map_map]
      exact congrArg (CType.function _ _ · v) (List.map_congr_left ihs)

end CType

theorem CType.Matches.canonical {l : Labels} {ctx : Context} {t u : CType}
    (h : t.Matches l ctx u) : t.Matches l ctx u.desugar := by rwa [h.desugar_eq]

/-! ## 2. Scopes -/

namespace Scope

/-- Between the scopes only mentions have been read: no record has been added. -/
structure Widens (sc sc' : Scope) : Prop where
  records : sc'.context.records = sc.context.records
  enumeration : ∀ n id, sc.context.findEnum? n = some id → sc'.context.findEnum? n = some id

theorem Widens.refl (sc : Scope) : sc.Widens sc := ⟨rfl, fun _ _ h => h⟩

theorem Widens.trans {sc₁ sc₂ sc₃ : Scope} (h : sc₁.Widens sc₂) (h' : sc₂.Widens sc₃) :
    sc₁.Widens sc₃ :=
  ⟨h'.records.trans h.records, fun n id hn => h'.enumeration n id (h.enumeration n id hn)⟩

theorem Widens.findRecord? {sc sc' : Scope} (h : sc.Widens sc') (n : String) :
    sc'.context.findRecord? n = sc.context.findRecord? n := by
  rw [Context.findRecord?, Context.findRecord?, h.records]

theorem Widens.record? {sc sc' : Scope} (h : sc.Widens sc') (id : RecordId) :
    sc'.context.record? id = sc.context.record? id := by
  rw [Context.record?, Context.record?, h.records]

theorem Widens.grows {sc sc' : Scope} (h : sc.Widens sc') : sc.context.Grows sc'.context :=
  ⟨fun n id hn => by rw [h.findRecord?, hn], h.enumeration⟩

/-- The scope has the records `r` under their labels, and its type names are the names of
classes. -/
structure Ready (l : Labels) (r : RecordId → Prop) (sc : Scope) : Prop where
  found : ∀ id, r id → ∃ id', sc.context.findRecord? (l.record id).2 = some id'
  classes : ∀ n t, sc.typeName? n = some t →
    ∃ id', t = .record .none id' ∧ sc.context.findRecord? n = some id'

variable {l : Labels} {r : RecordId → Prop} {sc : Scope}

theorem Ready.nameClass (h : sc.Ready l r) (key : RecordKey) {n : String} {id : RecordId}
    (hid : sc.context.findRecord? n = some id) :
    sc.Widens (nameClass sc key (some n) id) ∧ (nameClass sc key (some n) id).Ready l r := by
  cases key with
  | classKey =>
    refine ⟨⟨rfl, fun _ _ h => h⟩, h.found, fun m t hm => ?_⟩
    by_cases hmn : m = n
    · subst hmn
      rw [TypeLedger.nameClass, nameType, typeName?, Keyed.lookup_set_self] at hm
      exact ⟨id, (Option.some.inj hm).symm, hid⟩
    · rw [TypeLedger.nameClass, nameType, typeName?, Keyed.lookup_set_of_ne hmn] at hm
      exact h.classes m t hm
  | structKey => exact ⟨.refl sc, h⟩
  | unionKey => exact ⟨.refl sc, h⟩

end Scope

/-- The last position in a list that a new element is put behind. -/
theorem lastPosition?_append {α : Type} (p : α → Bool) (as : List α) (a : α) :
    lastPosition? p (as ++ [a]) = if p a then some as.length else lastPosition? p as := by
  induction as with
  | nil => simp [lastPosition?]
  | cons b as ih =>
    rw [List.cons_append, lastPosition?, ih]
    by_cases ha : p a = true
    · simp [ha]
    · simp [ha, lastPosition?]

namespace Context

theorem findEnum?_declareEnum (ctx : Context) (n m : String) :
    (ctx.declareEnum (some n)).2.findEnum? m =
      if n = m then some ⟨ctx.enums.length⟩ else ctx.findEnum? m := by
  simp only [findEnum?, declareEnum, lastPosition?_append, Option.some.injEq, decide_eq_true_eq]
  split <;> rfl

end Context

/-! ## 3. Specifiers -/

variable {stop : Location} {sc sc₁ sc₂ : Scope} {l : Labels} {r : RecordId → Prop}
  {e : EnumId → Prop}

theorem foldl_members (p q : Qualifiers) :
    q.members.foldl (fun q w => q.union w.alone) p = p.union q := by
  rcases p with ⟨_ | _, _ | _, _ | _⟩ <;> rcases q with ⟨_ | _, _ | _, _ | _⟩ <;> rfl

theorem gives_specifiers_qualifiers {ws : List Qualifier} {Q ts rest : List Token}
    {acc : Specifiers} {v : Specifiers × Scope}
    (hQ : Q.map Token.kind = ws.map fun w => .keyword (.qualifier w))
    (h : Gives (specifiers stop
      { acc with quals := ws.foldl (fun q w => q.union w.alone) acc.quals } sc ts) v rest) :
    Gives (specifiers stop acc sc (Q ++ ts)) v rest := by
  induction ws generalizing Q acc with
  | nil =>
    rw [List.map_nil, List.map_eq_nil_iff] at hQ
    subst hQ
    exact h
  | cons w ws ih =>
    rw [List.map_cons, List.map_eq_cons_iff] at hQ
    obtain ⟨t, Q, rfl, ht, hQ⟩ := hQ
    exact gives_specifiers_add { acc with quals := acc.quals.union w.alone }
      (by rw [ht]; rfl) (ih hQ h)

/-- What may stand behind the specifiers of a type. A colon or a brace behind the tag of a record
would open the record's body, and a brace behind the tag of an enumeration its values. -/
def FollowsType : CType → TokenKind → Prop
  | _, .ident _ => True
  | .record .., .mark m => m ≠ .braceOpen ∧ m ≠ .colon
  | _, .mark m => m ≠ .braceOpen
  | _, _ => False

theorem FollowsType.endsSpecifiers {t : CType} {k : TokenKind} {acc : Specifiers}
    (h : FollowsType t k) (ha : acc.named.isSome = true ∨ acc.words.isEmpty = false) :
    EndsSpecifiers acc k := by
  cases k with
  | mark m => trivial
  | ident n => exact ha
  | _ => cases t <;> cases h

theorem FollowsType.ne_brace {t : CType} {k : TokenKind} (h : FollowsType t k) :
    k ≠ .mark .braceOpen := by
  rintro rfl
  cases t <;> first | exact h rfl | exact h.1 rfl

/-- An enumeration that is mentioned is the one the scope has, or a new one. -/
theorem reads_enumeration (n : String) (hsc : sc.Ready l r) :
    ∃ id sc', sc.Widens sc' ∧ sc'.Ready l r ∧ sc'.context.findEnum? n = some id ∧
      ∀ stop (t : Token) R, t.kind = .ident n → Heads (· ≠ .mark .braceOpen) R →
        Gives (enumSpecifier stop sc (t :: R)) (.enumeration .none id, sc') R := by
  cases hf : sc.context.findEnum? n with
  | some id =>
    refine ⟨id, sc, .refl sc, hsc, hf, fun stop t R ht hR => ?_⟩
    have := gives_enumSpecifier_named stop sc ht hR
    rwa [hf] at this
  | none =>
    refine ⟨⟨sc.context.enums.length⟩,
      { sc with context := (sc.context.declareEnum (some n)).2 }, ⟨rfl, fun m id hm => ?_⟩,
      ⟨hsc.found, hsc.classes⟩, ?_, fun stop t R ht hR => ?_⟩
    · rw [Context.findEnum?_declareEnum, if_neg, hm]
      rintro rfl
      rw [hf] at hm
      cases hm
    · rw [Context.findEnum?_declareEnum, if_pos rfl]
    · have := gives_enumSpecifier_named stop sc ht hR
      rwa [hf] at this

/-- Qualifiers and the spelling of a builtin type are read as `specifiers` of it. -/
theorem gives_specifiers_builtin {q : Qualifiers} {s : String} (hs : s ∈ BuiltinWord.spellings)
    {T R : List Token}
    (hT : T.map Token.kind = q.kinds ++ (spellingWords s).map fun w => .keyword (.builtin w))
    (hR : Heads (FollowsType (.builtin q s)) R) :
    Gives (specifiers stop {} sc (T ++ R))
      ({ quals := q, words := (spellingWords s).reverse }, sc) R := by
  obtain ⟨Q, W, rfl, hQ, hW⟩ := List.map_eq_append_iff.1 hT
  obtain ⟨-, -, hne⟩ := BuiltinWord.spelling_spec hs
  have hrev : (spellingWords s).reverse.isEmpty = false := by simpa using hne
  rw [List.append_assoc]
  refine gives_specifiers_qualifiers hQ (gives_specifiers_words hW ?_)
  rw [foldl_members, Qualifiers.none_union, List.append_nil]
  exact gives_specifiers_end (hR.imp fun k hk => hk.endsSpecifiers (.inr hrev))

/-- The words of a spelling, in the order in which they have been read, name its builtin type. -/
theorem resolve_builtin {s : String} (hs : s ∈ BuiltinWord.spellings) (q : Qualifiers)
    (place : Location) :
    Specifiers.resolve { quals := q, words := (spellingWords s).reverse } place =
      .ok (.builtin q s) := by
  obtain ⟨hc, -, hne⟩ := BuiltinWord.spelling_spec hs
  have hcan : BuiltinWord.canonical? (spellingWords s).reverse = some s := by
    rw [← hc]
    exact BuiltinWord.canonical?_perm (List.reverse_perm _)
  have hemp : (spellingWords s).reverse.isEmpty = false := by simpa using hne
  simp only [Specifiers.resolve, Specifiers.base, Counting.isEmpty_exact, Counting.spelling?_exact,
    hemp, hcan]
  simp [CType.qualified, CType.withQuals, CType.quals]

/-- Qualifiers, a key and a tag are read as `specifiers` that name what the key and the tag name. -/
theorem gives_specifiers_tagged {q : Qualifiers} {k : TokenKind} {n : String} {t type : CType}
    {T R : List Token} (hT : T.map Token.kind = q.kinds ++ [k, .ident n])
    (hR : Heads (FollowsType t) R)
    (hread : ∀ key name v, key.kind = k → name.kind = .ident n →
      Gives (specifiers stop { quals := q, named := some type } sc₁ R) v R →
      Gives (specifiers stop { quals := q } sc (key :: name :: R)) v R) :
    Gives (specifiers stop {} sc (T ++ R)) ({ quals := q, named := some type }, sc₁) R := by
  obtain ⟨Q, W, rfl, hQ, hW⟩ := List.map_eq_append_iff.1 hT
  obtain ⟨key, W, rfl, hkey, hW⟩ := List.map_eq_cons_iff.1 hW
  obtain ⟨name, W, rfl, hname, hW⟩ := List.map_eq_cons_iff.1 hW
  obtain rfl := List.map_eq_nil_iff.1 hW
  rw [List.append_assoc]
  refine gives_specifiers_qualifiers hQ ?_
  rw [foldl_members, Qualifiers.none_union]
  exact hread key name _ hkey hname
    (gives_specifiers_end (hR.imp fun k hk => hk.endsSpecifiers (.inl rfl)))

/-- **The tokens of specifiers are read as the type that they name** by `specifiers`, if it is
`Legible`. -/
theorem reads_specifiers {t : CType} (ht : t.Legible r e) (hsc : sc.Ready l r) :
    ∃ t' sc', sc.Widens sc' ∧ sc'.Ready l r ∧ t.leaf.Matches l sc'.context t' ∧
      ∀ stop T R, T.map Token.kind = t.leaf.specifierKinds l → Heads (FollowsType t.leaf) R →
        ∃ specs, Gives (specifiers stop {} sc (T ++ R)) (specs, sc') R ∧
          (∀ place, specs.resolve place = .ok t') ∧ specs.storage = none := by
  induction ht with
  | @builtin q s hs =>
    obtain ⟨ws, hws⟩ := hs
    have hmem := BuiltinWord.mem_spellings s hws
    exact ⟨.builtin q s, sc, .refl sc, hsc, rfl, fun stop T R hT hR =>
      ⟨_, gives_specifiers_builtin hmem hT hR, resolve_builtin hmem q, rfl⟩⟩
  | @record q id hid =>
    obtain ⟨id', hfound⟩ := hsc.found id hid
    obtain ⟨hw, hready⟩ := hsc.nameClass ((l.record id).1) hfound
    refine ⟨.record q id', _, hw, hready, ⟨id', by rw [hw.findRecord?, hfound], rfl⟩,
      fun stop T R hT hR => ⟨{ quals := q, named := some (.record .none id') },
        gives_specifiers_tagged hT hR fun key name v hkey hname h => ?_, fun place => ?_, rfl⟩⟩
    · have hbody : Heads (fun k => k ≠ .mark .braceOpen ∧ k ≠ .mark .colon) R := by
        refine hR.imp fun k hk => ⟨hk.ne_brace, ?_⟩
        rintro rfl
        exact hk.2 rfl
      exact gives_specifiers_record hkey rfl (gives_recordSpecifier_named hname hbody hfound) h
    · simp [Specifiers.resolve, Specifiers.base, CType.qualified, CType.withQuals, CType.quals]
  | @enumeration q id hid =>
    obtain ⟨id', sc', hw, hready, hfound, hgives⟩ := reads_enumeration (l.enumeration id) hsc
    refine ⟨.enumeration q id', sc', hw, hready, ⟨id', hfound, rfl⟩,
      fun stop T R hT hR => ⟨{ quals := q, named := some (.enumeration .none id') },
        gives_specifiers_tagged hT hR fun key name v hkey hname h => ?_, fun place => ?_, rfl⟩⟩
    · exact gives_specifiers_enum hkey rfl
        (hgives stop _ R hname (hR.imp fun k hk => hk.ne_brace)) h
    · simp [Specifiers.resolve, Specifiers.base, CType.qualified, CType.withQuals, CType.quals]
  | pointer _ _ _ ih => exact ih
  | array _ ih => exact ih
  | function _ _ ih _ => exact ih

/-! ## 4. Declarators -/

/-- The tokens begin with no name, and with no declarator in parentheses. -/
def Harmless (ts : List Token) : Prop := (∀ sc, takeNested? sc ts = none) ∧ takeIdent? ts = none

theorem harmless_of_ends {ts : List Token} (h : Heads EndsDeclarator ts) : Harmless ts := by
  refine ⟨fun sc => ?_, takeIdent?_eq_none (h.imp fun k hends => ?_)⟩
  · rw [takeNested?, take?_eq_none (h.imp fun k hends => ?_)]
    obtain ⟨m, hk, _, hm, _⟩ := hends
    rw [hk]
    simpa using hm
  · obtain ⟨m, hk, _⟩ := hends
    rw [hk]
    simp

theorem harmless_bracket {t : Token} {ts : List Token} (h : t.kind = .mark .bracketOpen) :
    Harmless (t :: ts) := by
  refine ⟨fun sc => ?_, takeIdent?_eq_none (heads_cons.2 (by rw [h]; simp))⟩
  rw [takeNested?, take?_of_ne (by rw [h]; decide)]

/-- A parenthesis behind which parameters stand, and no declarator. -/
theorem harmless_paren {t : Token} {ts : List Token} (h : t.kind = .mark .parenOpen)
    (hb : Heads (fun k => ∀ sc, beginsDeclarator sc k = false) ts) : Harmless (t :: ts) := by
  refine ⟨fun sc => ?_, takeIdent?_eq_none (heads_cons.2 (by rw [h]; simp))⟩
  have hany : (ts.head?.any fun t => beginsDeclarator sc t.kind) = false := by
    cases ts with
    | nil => rfl
    | cons u us => exact heads_cons.1 hb sc
  simp only [takeNested?, take?_of_kind h, hany, Bool.false_eq_true, ↓reduceIte]

/-- The tokens `X` are read as a declarator. -/
structure Declares (sc : Scope) (X : List TokenKind) (name : Option String)
    (D : List Derivation) (sc' : Scope) : Prop where
  gives : ∀ stop T R, T.map Token.kind = X → Heads EndsDeclarator R →
    Gives (declarator stop sc (T ++ R)) (⟨name, D⟩, sc') R
  noQualifier : ∀ k ∈ X.head?, isQualifierKind k = false

/-- The tokens `X` are read as a declarator that suffixes may follow. -/
structure Direct (sc : Scope) (X : List TokenKind) (name : Option String)
    (D : List Derivation) (sc' : Scope) : Prop where
  gives : ∀ stop T R ds sc₂ rest, T.map Token.kind = X → Harmless R →
    Gives (suffixRun stop sc' R) (ds, sc₂) rest →
    ∃ inner sc₁ r₁ ds', Gives (declaratorCore stop sc (T ++ R)) (inner, sc₁) r₁ ∧
      Gives (suffixRun stop sc₁ r₁) (ds', sc₂) rest ∧ inner.name = name ∧
      inner.derivations ++ ds' = D ++ ds
  noPointer : ∀ k ∈ X.head?, isPointerKind k = false
  noQualifier : ∀ k ∈ X.head?, isQualifierKind k = false

variable {X : List TokenKind} {name : Option String} {D : List Derivation} {sc' : Scope}

theorem heads_append {p : TokenKind → Prop} {T R : List Token}
    (hT : ∀ k ∈ (T.map Token.kind).head?, p k) (hR : T = [] → Heads p R) : Heads p (T ++ R) := by
  cases T with
  | nil => exact hR rfl
  | cons t T => exact heads_cons.2 (hT t.kind (by simp))

/-- A declarator is complete if no suffix follows. -/
theorem Direct.declares (h : Direct sc X name D sc') : Declares sc X name D sc' := by
  refine ⟨fun stop T R hT hR => ?_, h.noQualifier⟩
  have hnil : Gives (suffixRun stop sc' R) ([], sc') R :=
    gives_suffixRun_nil (hR.imp fun k ⟨m, hk, _, hp, hb⟩ => by rw [hk]; simpa using ⟨hb, hp⟩)
  obtain ⟨inner, sc₁, r₁, ds', hcore, hds, hname, hD⟩ :=
    h.gives stop T R [] sc' R hT (harmless_of_ends hR) hnil
  have hp : Heads (fun k => isPointerKind k = false) (T ++ R) :=
    heads_append (by rw [hT]; exact h.noPointer) fun _ => hR.imp fun k ⟨m, hk, hm, _⟩ => by
      rw [hk]; simp [isPointerKind, hm]
  obtain ⟨hv, hr⟩ := pointerRun_of_heads hp
  rw [← hr] at hcore
  have := gives_declarator hcore hds
  rw [hv, hname, hD] at this
  simpa using this

theorem direct_name (x : String) : Direct sc [.ident x] (some x) [] sc := by
  refine ⟨fun stop T R ds sc₂ rest hT _ hds => ?_, by simp [isPointerKind],
    by simp [isQualifierKind]⟩
  rw [List.map_eq_cons_iff] at hT
  obtain ⟨t, T, rfl, ht, hT⟩ := hT
  rw [List.map_eq_nil_iff] at hT
  subst hT
  exact ⟨_, _, _, ds, gives_declaratorCore_name ht, hds, rfl, rfl⟩

theorem direct_nil : Direct sc [] none [] sc := by
  refine ⟨fun stop T R ds sc₂ rest hT hR hds => ?_, by simp, by simp⟩
  rw [List.map_eq_nil_iff] at hT
  subst hT
  exact ⟨_, _, _, ds, gives_declaratorCore_none (hR.1 sc) hR.2, hds, rfl, rfl⟩

/-- A suffix of which it is known what it is read as. -/
theorem Direct.suffix {S : List TokenKind} {d : Derivation} {sc₁ : Scope}
    (h : Direct sc X name D sc')
    (hp : ∀ k ∈ S.head?, isPointerKind k = false ∧ isQualifierKind k = false)
    (hh : ∀ A R, A.map Token.kind = S → Harmless (A ++ R))
    (hs : ∀ stop A R ds sc₂ rest, A.map Token.kind = S →
      Gives (suffixRun stop sc₁ R) (ds, sc₂) rest →
      Gives (suffixRun stop sc' (A ++ R)) (d :: ds, sc₂) rest) :
    Direct sc (X ++ S) name (D ++ [d]) sc₁ := by
  refine ⟨fun stop T R ds sc₂ rest hT _ hds => ?_, fun k hk => ?_, fun k hk => ?_⟩
  · obtain ⟨T₀, A, rfl, hT₀, hA⟩ := List.map_eq_append_iff.1 hT
    obtain ⟨inner, s₁, r₁, ds', hcore, hds', hname, hD⟩ :=
      h.gives stop T₀ (A ++ R) (d :: ds) sc₂ rest hT₀ (hh A R hA) (hs stop A R ds sc₂ rest hA hds)
    rw [List.append_assoc]
    exact ⟨inner, s₁, r₁, ds', hcore, hds', hname, by rw [hD]; simp⟩
  · cases X with
    | nil => exact (hp k hk).1
    | cons x X => exact h.noPointer k hk
  · cases X with
    | nil => exact (hp k hk).2
    | cons x X => exact h.noQualifier k hk

theorem Direct.array (h : Direct sc X name D sc') (n : ArraySize) :
    Direct sc (X ++ arrayKinds n) name (D ++ [.array n]) sc' := by
  refine h.suffix (by simp [arrayKinds, isPointerKind, isQualifierKind,
    Mark.pointerKind?]) (fun A R hA => ?_) fun stop A R ds sc₂ rest hA hds => ?_
  · rw [arrayKinds, List.map_eq_cons_iff] at hA
    obtain ⟨t, A, rfl, ht, -⟩ := hA
    exact harmless_bracket ht
  · rw [arrayKinds, List.map_eq_cons_iff] at hA
    obtain ⟨t, A, rfl, ht, hA⟩ := hA
    refine gives_suffixRun_array ht ?_ hds
    cases n with
    | fixed n =>
      simp only [sizeKinds, List.singleton_append, List.map_eq_cons_iff, List.map_eq_nil_iff] at hA
      obtain ⟨size, _, rfl, hsize, close, _, rfl, hclose, rfl⟩ := hA
      exact gives_arraySuffix_fixed hsize hclose
    | unknown =>
      simp only [sizeKinds, List.nil_append, List.map_eq_cons_iff, List.map_eq_nil_iff] at hA
      obtain ⟨close, _, rfl, hclose, rfl⟩ := hA
      exact gives_arraySuffix_unknown hclose

theorem Direct.function {kss : List (List TokenKind)} {ps : List CType} {v : Bool} {sc₁ : Scope}
    (h : Direct sc X name D sc')
    (hb : ∀ k ∈ (parameterKinds kss v).head?, ∀ sc, beginsDeclarator sc k = false)
    (hp : ∀ stop P R close, P.map Token.kind = parameterKinds kss v →
      close.kind = .mark .parenClose →
      Gives (functionSuffix stop sc' (P ++ close :: R)) (ps, v, sc₁) R) :
    Direct sc (X ++ functionKinds kss v) name (D ++ [.function ps v]) sc₁ := by
  have split : ∀ A : List Token, A.map Token.kind = functionKinds kss v →
      ∃ t P close, A = t :: (P ++ [close]) ∧ t.kind = .mark .parenOpen ∧
        P.map Token.kind = parameterKinds kss v ∧ close.kind = .mark .parenClose := by
    intro A hA
    rw [functionKinds, List.map_eq_cons_iff] at hA
    obtain ⟨t, A, rfl, ht, hA⟩ := hA
    obtain ⟨P, C, rfl, hP, hC⟩ := List.map_eq_append_iff.1 hA
    simp only [List.map_eq_cons_iff, List.map_eq_nil_iff] at hC
    obtain ⟨close, _, rfl, hclose, rfl⟩ := hC
    exact ⟨t, P, close, rfl, ht, hP, hclose⟩
  refine h.suffix (by simp [functionKinds, isPointerKind,
    isQualifierKind, Mark.pointerKind?]) (fun A R hA => ?_) fun stop A R ds sc₂ rest hA hds => ?_
  · obtain ⟨t, P, close, rfl, ht, hP, hclose⟩ := split A hA
    rw [List.cons_append, List.append_assoc]
    refine harmless_paren ht (heads_append (by rw [hP]; exact hb) fun _ => ?_)
    exact heads_cons.2 fun sc => by rw [hclose]; rfl
  · obtain ⟨t, P, close, rfl, ht, hP, hclose⟩ := split A hA
    rw [List.cons_append, List.append_assoc]
    exact gives_suffixRun_function ht (hp stop P R close hP hclose) hds

/-- A declarator in parentheses, which begins with a pointer. -/
theorem Declares.nested (h : Declares sc X name D sc')
    (hX : ∃ k ∈ X.head?, isPointerKind k = true) :
    Direct sc (.mark .parenOpen :: (X ++ [.mark .parenClose])) name D sc' := by
  refine ⟨fun stop T R ds sc₂ rest hT _ hds => ?_, by simp [isPointerKind, Mark.pointerKind?],
    by simp [isQualifierKind]⟩
  rw [List.map_eq_cons_iff] at hT
  obtain ⟨t, T, rfl, ht, hT⟩ := hT
  obtain ⟨T₀, C, rfl, hT₀, hC⟩ := List.map_eq_append_iff.1 hT
  simp only [List.map_eq_cons_iff, List.map_eq_nil_iff] at hC
  obtain ⟨close, _, rfl, hclose, rfl⟩ := hC
  have hends : Heads EndsDeclarator (close :: R) := heads_cons.2 ⟨_, hclose, by decide⟩
  have hd := h.gives stop T₀ (close :: R) hT₀ hends
  have hbegins : ∃ u ∈ (T₀ ++ close :: R).head?, beginsDeclarator sc u.kind = true := by
    obtain ⟨k, hk, hp⟩ := hX
    rw [← hT₀] at hk
    cases T₀ with
    | nil => cases hk
    | cons u T₀ =>
      obtain rfl : u.kind = k := by simpa using hk
      refine ⟨u, rfl, ?_⟩
      cases hu : u.kind with
      | mark m =>
        rw [hu, isPointerKind] at hp
        simp [beginsDeclarator, hp]
      | _ => rw [hu] at hp; cases hp
  have hcore := gives_declaratorCore_nested ht hbegins hd hclose
  rw [List.cons_append, List.append_assoc]
  exact ⟨_, _, _, ds, hcore, hds, rfl, rfl⟩

theorem pointerKind?_mark {k : PointerKind} (h : k ≠ .member) : k.mark.pointerKind? = some k := by
  cases k <;> first | rfl | exact absurd rfl h

theorem qualifierRun_members {ws : List Qualifier} {Q R : List Token}
    (hQ : Q.map Token.kind = ws.map fun w => .keyword (.qualifier w))
    (hR : Heads (fun k => isQualifierKind k = false) R) :
    (qualifierRun (Q ++ R)).value = ws.foldr (fun w q => w.alone.union q) .none ∧
      (qualifierRun (Q ++ R)).rest = R := by
  induction ws generalizing Q with
  | nil =>
    rw [List.map_nil, List.map_eq_nil_iff] at hQ
    subst hQ
    exact qualifierRun_of_heads hR
  | cons w ws ih =>
    rw [List.map_cons, List.map_eq_cons_iff] at hQ
    obtain ⟨t, Q, rfl, ht, hQ⟩ := hQ
    obtain ⟨hv, hr⟩ := ih hQ
    obtain ⟨hv', hr'⟩ := qualifierRun_cons (Q ++ R) ht
    exact ⟨by rw [List.cons_append, hv', hv]; rfl, by rw [List.cons_append, hr', hr]⟩

theorem foldr_members (q : Qualifiers) :
    q.members.foldr (fun w q => w.alone.union q) .none = q := by
  rcases q with ⟨_ | _, _ | _, _ | _⟩ <;> rfl

/-- A pointer in front of a declarator. -/
theorem Declares.pointer (h : Declares sc X name D sc') {k : PointerKind} (hk : k ≠ .member)
    (q : Qualifiers) :
    Declares sc (.mark k.mark :: (q.kinds ++ X)) name (D ++ [.pointer k q]) sc' := by
  refine ⟨fun stop T R hT hR => ?_, by simp [isQualifierKind]⟩
  rw [List.map_eq_cons_iff] at hT
  obtain ⟨t, T, rfl, ht, hT⟩ := hT
  obtain ⟨Q, T₀, rfl, hQ, hT₀⟩ := List.map_eq_append_iff.1 hT
  have hnq : Heads (fun k => isQualifierKind k = false) (T₀ ++ R) :=
    heads_append (by rw [hT₀]; exact h.noQualifier) fun _ => hR.imp fun k ⟨m, hk, _⟩ => by
      rw [hk]; rfl
  obtain ⟨hqv, hqr⟩ := qualifierRun_members hQ hnq
  rw [foldr_members] at hqv
  obtain ⟨hpv, hpr⟩ := pointerRun_cons (Q ++ (T₀ ++ R)) ht (pointerKind?_mark hk)
  rw [hqv, hqr] at hpv
  rw [hqr] at hpr
  obtain ⟨inner, sc₁, r₁, ds, hcore, hds, hd⟩ := of_gives_declarator (h.gives stop T₀ R hT₀ hR)
  obtain ⟨rfl, rfl⟩ := Declarator.mk.inj hd
  rw [List.cons_append, List.append_assoc]
  rw [← hpr] at hcore
  have := gives_declarator hcore hds
  rw [hpv, List.reverse_cons] at this
  simpa [List.append_assoc] using this

/-! ## 5. The first tokens of a declaration -/

/-- The token begins a declarator that has no name in front. -/
def OpensDeclarator (k : TokenKind) : Prop :=
  ∃ m, k = .mark m ∧ (m.pointerKind?.isSome = true ∨ m = .parenOpen ∨ m = .bracketOpen)

theorem OpensDeclarator.followsType {k : TokenKind} (h : OpensDeclarator k) (t : CType) :
    FollowsType t k := by
  obtain ⟨m, rfl, hm⟩ := h
  have hne : m ≠ .braceOpen ∧ m ≠ .colon := by
    revert hm
    cases m <;> simp [Mark.pointerKind?]
  cases t <;> first | exact hne | exact hne.1

theorem opensDeclarator_pointerKinds {tight : Bool} {k : PointerKind} (hk : k ≠ .member)
    (q : Qualifiers) : ∀ x ∈ (pointerKinds tight k q X).head?, OpensDeclarator x := by
  intro x hx
  cases tight with
  | true =>
    obtain rfl : .mark .parenOpen = x := by simpa [pointerKinds] using hx
    exact ⟨_, rfl, .inr (.inl rfl)⟩
  | false =>
    obtain rfl : .mark k.mark = x := by simpa [pointerKinds] using hx
    exact ⟨_, rfl, .inl (by rw [pointerKind?_mark hk]; rfl)⟩

theorem head?_append_cases {as bs : List TokenKind} {k : TokenKind} (h : k ∈ (as ++ bs).head?) :
    k ∈ as.head? ∨ k ∈ bs.head? := by
  cases as with
  | nil => exact .inr h
  | cons a as => exact .inl h

/-- A declaration of the type has a declarator even without a name. -/
def CType.hasDeclarator : CType → Bool
  | pointer .. | array .. | function .. => true
  | _ => false

theorem leaf_of_hasDeclarator_eq_false {t : CType} (h : t.hasDeclarator = false) : t.leaf = t := by
  cases t <;> first | rfl | cases h

/-- Qualifiers and a keyword begin with a keyword, which is `void` only if that is the keyword and
there are no qualifiers, and an access only if that is the keyword. -/
theorem kinds_append_keyword (q : Qualifiers) (k : Keyword) (ks : List TokenKind) :
    ∃ w rest, q.kinds ++ .keyword k :: ks = .keyword w :: rest ∧
      (w = .builtin .void → q = .none ∧ k = .builtin .void ∧ rest = ks) ∧
      ∀ a, w = .access a → k = .access a := by
  cases hm : q.members with
  | nil =>
    have hq : q = .none := by
      revert hm
      rcases q with ⟨_ | _, _ | _, _ | _⟩ <;> decide
    exact ⟨k, ks, by rw [Qualifiers.kinds, hm]; rfl, fun hk => ⟨hq, hk, rfl⟩, fun _ h => h⟩
  | cons w ws =>
    refine ⟨.qualifier w, (ws.map fun w => .keyword (.qualifier w)) ++ .keyword k :: ks, ?_,
      fun hv => (nomatch hv), fun _ h => nomatch h⟩
    rw [Qualifiers.kinds, hm]
    rfl

/-- Specifiers begin with a keyword. It is `void` only for the unqualified type, and no access. -/
theorem specifierKinds_eq_cons {t : CType} (ht : t.Legible r e) :
    ∃ w rest, t.leaf.specifierKinds l = .keyword w :: rest ∧
      (w = .builtin .void → t.leaf = .builtin .none "void" ∧ rest = []) ∧ ∀ a, w ≠ .access a := by
  induction ht with
  | @builtin q s hs =>
    obtain ⟨ws, hws⟩ := hs
    have hmem := BuiltinWord.mem_spellings s hws
    obtain ⟨-, -, hne⟩ := BuiltinWord.spelling_spec hmem
    cases hw : spellingWords s with
    | nil => exact absurd hw hne
    | cons b bs =>
      obtain ⟨w, rest, hks, hvoid, haccess⟩ :=
        kinds_append_keyword q (.builtin b) (bs.map fun w => .keyword (.builtin w))
      refine ⟨w, rest, by rw [← hks]; simp [CType.leaf, CType.specifierKinds, hw], fun hv => ?_,
        fun a ha => by cases haccess a ha⟩
      obtain ⟨rfl, hb, rfl⟩ := hvoid hv
      obtain rfl : b = .void := by simpa using hb
      have hall : ∀ s ∈ BuiltinWord.spellings, (spellingWords s).head? = some .void →
          s = "void" ∧ spellingWords s = [.void] := by decide
      obtain ⟨rfl, hv'⟩ := hall s hmem (by rw [hw]; rfl)
      rw [hw] at hv'
      obtain rfl : bs = [] := by simpa using hv'
      exact ⟨rfl, rfl⟩
  | @record q id _ =>
    obtain ⟨w, rest, hks, hvoid, haccess⟩ :=
      kinds_append_keyword q (.record (l.record id).1) [.ident (l.record id).2]
    refine ⟨w, rest, hks, fun hv => ?_, fun a ha => by cases haccess a ha⟩
    obtain ⟨-, hb, -⟩ := hvoid hv
    cases hb
  | @enumeration q id _ =>
    obtain ⟨w, rest, hks, hvoid, haccess⟩ :=
      kinds_append_keyword q .enumeration [.ident (l.enumeration id)]
    refine ⟨w, rest, hks, fun hv => ?_, fun a ha => by cases haccess a ha⟩
    obtain ⟨-, hb, -⟩ := hvoid hv
    cases hb
  | pointer _ _ _ ih => exact ih
  | array _ ih => exact ih
  | function _ _ ih _ => exact ih

end TypeLedger
