import TypeLedger.Proofs.Grammar.Tidy

/-!
# What the grammar keeps

* `Ensures`: a step that succeeds has such a value, and the vocabulary covers the tokens that it
  leaves. One lemma for each part of the grammar says what it ensures: the scope stays tidy, and
  what has been read is spelt over it.
* Those of the recursive part are proved together, along its recursion.
* `tidy_parseBytes_of_covers`: reading a source text keeps the context tidy.
-/

namespace TypeLedger

/-! ## 1. Scopes -/

namespace Scope

/-- The context is tidy, and names stand for types that are spelt over it. -/
structure Tidy (V : Vocabulary) (sc : Scope) : Prop where
  context : sc.context.Tidy V
  names : ∀ n t, sc.typeName? n = some t → t.Spelt V sc.context

/-- The second scope may come behind the first: it is tidy and has no less. -/
structure Leads (V : Vocabulary) (sc sc' : Scope) : Prop where
  tidy : sc'.Tidy V
  below : sc.context.Below sc'.context

/-- The value satisfies `P` over the scope that a step hands on. -/
def Keeps (V : Vocabulary) {α : Type} (sc : Scope) (P : Context → α → Prop) (v : α × Scope) :
    Prop :=
  sc.Leads V v.2 ∧ P v.2.context v.1

variable {V : Vocabulary}

theorem Tidy.refl {sc : Scope} (h : sc.Tidy V) : sc.Leads V sc := ⟨h, .refl _⟩

theorem Leads.trans {sc₁ sc₂ sc₃ : Scope} (h : sc₁.Leads V sc₂) (h' : sc₂.Leads V sc₃) :
    sc₁.Leads V sc₃ :=
  ⟨h'.tidy, h.below.trans h'.below⟩

variable {sc : Scope}

theorem Tidy.withContext (h : sc.Tidy V) {ctx : Context} (hc : ctx.Tidy V)
    (hb : sc.context.Below ctx) : sc.Leads V { sc with context := ctx } :=
  ⟨⟨hc, fun n t ht => (h.names n t ht).mono hb⟩, hb⟩

theorem Tidy.nameType (h : sc.Tidy V) {name : String} {t : CType} (ht : t.Spelt V sc.context) :
    sc.Leads V (sc.nameType name t) := by
  refine ⟨⟨h.context, fun n u hu => ?_⟩, .refl _⟩
  by_cases hn : n = name
  · subst hn
    rw [typeName?, Scope.nameType, Keyed.lookup_set_self] at hu
    exact Option.some.inj hu ▸ ht
  · rw [typeName?, Scope.nameType, Keyed.lookup_set_of_ne hn] at hu
    exact h.names n u hu

theorem Tidy.nameClass (h : sc.Tidy V) (key : RecordKey) (name : Option String) {id : RecordId}
    (hid : id.index < sc.context.records.length) : sc.Leads V (nameClass sc key name id) := by
  unfold TypeLedger.nameClass
  split
  · exact h.nameType (.record hid)
  · exact h.refl

end Scope

/-! ## 2. Steps -/

variable {V : Vocabulary} {α β γ : Type} {m n : Nat}

/-- If the step succeeds, its value satisfies `P` and the vocabulary covers the tokens left. -/
def Ensures (V : Vocabulary) (e : Except SourceError (Step n α)) (P : α → Prop) : Prop :=
  ∀ s, e = .ok s → P s.value ∧ V.Covers s.rest

theorem ensures_ok {s : Step n α} {P : α → Prop} (hv : P s.value) (hr : V.Covers s.rest) :
    Ensures V (.ok s) P := by
  intro s' hs
  cases hs
  exact ⟨hv, hr⟩

theorem ensures_error {x : SourceError} {P : α → Prop} :
    Ensures V (.error x : Except SourceError (Step n α)) P := by
  intro s hs
  cases hs

theorem ensures_bind {e : Except SourceError (Step m α)}
    {f : Step m α → Except SourceError (Step n β)} {P : α → Prop} {Q : β → Prop}
    (he : Ensures V e P) (hf : ∀ v r hlt, P v → V.Covers r → Ensures V (f ⟨v, r, hlt⟩) Q) :
    Ensures V (e >>= f) Q := by
  intro s hs
  cases e with
  | error x => cases hs
  | ok s₁ =>
    obtain ⟨hv, hr⟩ := he s₁ rfl
    exact hf s₁.value s₁.rest s₁.short hv hr s hs

/-- A check that takes no token. -/
theorem ensures_check {e : Except SourceError γ} {f : γ → Except SourceError (Step n β)}
    {Q : β → Prop} (hf : ∀ c, e = .ok c → Ensures V (f c) Q) : Ensures V (e >>= f) Q := by
  intro s hs
  cases e with
  | error x => cases hs
  | ok c => exact hf c rfl s hs

theorem Ensures.imp {e : Except SourceError (Step n α)} {P Q : α → Prop} (h : Ensures V e P)
    (hpq : ∀ v, P v → Q v) : Ensures V e Q :=
  fun s hs => ⟨hpq _ (h s hs).1, (h s hs).2⟩

/-! ## 3. Tokens -/

variable {stop : Location} {sc : Scope} {ts : List Token}

theorem rest_take? {k : Mark} {s : Takes ts Unit} (h : take? k ts = some s) (hw : V.Covers ts) :
    V.Covers s.rest := by
  unfold take? at h
  split at h
  · split at h
    · cases h
      exact hw.tail
    · cases h
  · cases h

theorem ensures_expect (k : Mark) (hw : V.Covers ts) :
    Ensures V (expect stop k ts) fun _ => True := by
  unfold expect
  split
  · rename_i s hs
    exact ensures_ok trivial (rest_take? hs hw)
  · exact ensures_error

theorem takeIdent?_spec {s : Takes ts String} (h : takeIdent? ts = some s) (hw : V.Covers ts) :
    V.ident s.value ∧ V.Covers s.rest := by
  unfold takeIdent? at h
  split at h
  · split at h
    · rename_i hk
      cases h
      exact ⟨hw.ident _ List.mem_cons_self _ hk, hw.tail⟩
    · cases h
  · cases h

theorem ensures_expectIdent (hw : V.Covers ts) :
    Ensures V (expectIdent stop ts) V.ident := by
  unfold expectIdent
  split
  · rename_i s hs
    exact ensures_ok (takeIdent?_spec hs hw).1 (takeIdent?_spec hs hw).2
  · exact ensures_error

theorem optionalName_spec (hw : V.Covers ts) :
    (∀ n, (optionalName ts).value = some n → V.ident n) ∧
      V.Covers (optionalName ts).rest := by
  unfold optionalName
  split
  · rename_i name rest h hs
    obtain ⟨hi, hr⟩ := takeIdent?_spec hs hw
    exact ⟨fun n hn => Option.some.inj hn ▸ hi, hr⟩
  · exact ⟨fun n hn => (nomatch hn), hw⟩

/-- A name stands behind the token in front of it. -/
theorem infix_optionalName {t : Token} {k : TokenKind} (hk : t.kind = k) {n : String}
    (h : (optionalName ts).value = some n) : [k, .ident n] <:+: (t :: ts).map Token.kind := by
  unfold optionalName takeIdent? at h
  cases ts with
  | nil => cases h
  | cons u rest =>
    refine List.IsPrefix.isInfix ⟨rest.map Token.kind, ?_⟩
    cases hu : u.kind with
    | ident m =>
      simp only [hu] at h
      obtain rfl := Option.some.inj h
      simp [hk, hu]
    | _ => simp [hu] at h

theorem ensures_bitWidth (hw : V.Covers ts) : Ensures V (bitWidth stop ts) fun _ => True := by
  unfold bitWidth
  split
  · split
    · split
      · exact ensures_ok trivial hw.tail
      · exact ensures_error
    · exact ensures_error
  · exact ensures_error

theorem skipUntil?_suffix {ends : TokenKind → Bool} {depth : Nat} {rest : List Token}
    (h : skipUntil? ends depth ts = some rest) : rest <:+ ts := by
  induction ts generalizing depth with
  | nil => cases h
  | cons t ts ih =>
    unfold skipUntil? at h
    split at h
    · cases h
      exact List.suffix_rfl
    · exact (ih h).trans (List.suffix_cons t ts)

theorem ensures_skipTo (ends : TokenKind → Bool) (hw : V.Covers ts) :
    Ensures V (skipTo stop ends ts) fun _ => True := by
  unfold skipTo
  split
  · rename_i rest hr
    exact ensures_ok trivial (hw.of_suffix (skipUntil?_suffix hr))
  · exact ensures_error

theorem ensures_skipBody (hw : V.Covers ts) : Ensures V (skipBody stop ts) fun _ => True := by
  unfold skipBody
  refine ensures_bind (ensures_expect _ hw) fun _ r₁ _ _ hw₁ => ?_
  refine ensures_bind (ensures_skipTo _ hw₁) fun _ r₂ _ _ hw₂ => ?_
  refine ensures_bind (ensures_expect _ hw₂) fun _ r₃ _ _ hw₃ => ?_
  exact ensures_ok trivial hw₃

theorem ensures_skipInitializer (hw : V.Covers ts) :
    Ensures V (skipInitializer stop ts) fun _ => True := by
  unfold skipInitializer
  split
  · rename_i r₁ h₁ hs
    exact ensures_bind (ensures_skipTo _ (rest_take? hs hw)) fun _ _ _ _ hw₂ =>
      ensures_ok trivial hw₂
  · exact ensures_ok trivial hw

/-! ## 4. Parts without a scope -/

/-- What a derivation holds is spelt; no declarator points at a member. -/
def Derivation.Spelt (V : Vocabulary) (ctx : Context) : Derivation → Prop
  | .pointer k _ => k ≠ .member
  | .array _ => True
  | .function ps _ => ∀ p ∈ ps, p.Spelt V ctx

/-- The name is an identifier, and the derivations are spelt. -/
structure Declarator.Spelt (V : Vocabulary) (ctx : Context) (d : Declarator) : Prop where
  name : ∀ n, d.name = some n → V.ident n
  derivations : ∀ x ∈ d.derivations, x.Spelt V ctx

theorem Derivation.Spelt.mono {ctx ctx' : Context} {d : Derivation} (h : d.Spelt V ctx)
    (hc : ctx.Below ctx') : d.Spelt V ctx' := by
  cases d with
  | pointer k q => exact h
  | array n => exact h
  | function ps v => exact fun p hp => (h p hp).mono hc

theorem spelt_applyAll {ctx : Context} {t : CType} (ht : t.Spelt V ctx) {ds : List Derivation}
    (hd : ∀ d ∈ ds, d.Spelt V ctx) : (Derivation.applyAll t ds).Spelt V ctx := by
  induction ds with
  | nil => exact ht
  | cons d ds ih =>
    have ih' := ih fun x hx => hd x (List.mem_cons_of_mem _ hx)
    have hd' := hd d List.mem_cons_self
    cases d with
    | pointer k q => exact .pointer hd' ih'
    | array n => exact .array ih'
    | function ps v => exact .function ih' hd'

theorem Declarator.Spelt.apply {ctx : Context} {d : Declarator} (h : d.Spelt V ctx) {t : CType}
    (ht : t.Spelt V ctx) : (d.apply t).Spelt V ctx :=
  spelt_applyAll ht h.derivations

theorem qualifierRun_suffix (ts : List Token) : (qualifierRun ts).rest <:+ ts := by
  induction ts with
  | nil => exact List.suffix_rfl
  | cons t ts ih =>
    rw [qualifierRun]
    split
    · exact ih.trans (List.suffix_cons t ts)
    · exact List.suffix_rfl

theorem takePointer?_spec {s : Takes ts PointerKind} (h : takePointer? ts = some s) :
    s.value ≠ .member ∧ s.rest <:+ ts := by
  unfold takePointer? at h
  split at h
  · split at h
    · rename_i t rest m hm
      obtain ⟨k, hk, rfl⟩ := Option.map_eq_some_iff.1 h
      refine ⟨?_, List.suffix_cons _ _⟩
      rintro rfl
      cases m <;> cases hk
    · cases h
  · cases h

theorem pointerRun_spec (ctx : Context) (ts : List Token) :
    (∀ d ∈ (pointerRun ts).value, d.Spelt V ctx) ∧ (pointerRun ts).rest <:+ ts := by
  fun_induction pointerRun ts with
  | case1 ts h => exact ⟨fun d hd => (nomatch hd), List.suffix_rfl⟩
  | case2 ts kind r₁ h₁ hk quals r₂ h₂ hq derived r₃ h₃ hp ih =>
    obtain ⟨hkind, hr₁⟩ := takePointer?_spec hk
    have hr₂ : r₂ <:+ r₁ := by
      have := qualifierRun_suffix r₁
      rwa [hq] at this
    rw [hp] at ih
    refine ⟨fun d hd => ?_, ih.2.trans (hr₂.trans hr₁)⟩
    rcases List.mem_cons.1 hd with rfl | hd
    · exact hkind
    · exact ih.1 d hd

theorem ensures_sizeBefore (hw : V.Covers ts) : Ensures V (sizeBefore stop ts) fun _ => True := by
  unfold sizeBefore
  split
  · rename_i s hs
    refine ensures_ok trivial ?_
    unfold closedSize? at hs
    split at hs
    · cases hs
      exact hw.tail.tail
    · cases hs
      exact hw.tail.tail
    · cases hs
  · refine ensures_bind (ensures_skipTo _ hw) fun _ r₁ _ _ hw₁ => ?_
    refine ensures_bind (ensures_expect _ hw₁) fun _ r₂ _ _ hw₂ => ?_
    exact ensures_ok trivial hw₂

theorem ensures_arraySuffix (hw : V.Covers ts) : Ensures V (arraySuffix stop ts) fun _ => True := by
  unfold arraySuffix
  refine ensures_bind (ensures_sizeBefore (hw.of_suffix (List.dropWhile_suffix _)))
    fun _ r _ _ hw₁ => ?_
  exact ensures_ok trivial hw₁

theorem baseWords_suffix (ts : List Token) : (baseWords ts).rest <:+ ts := by
  induction ts with
  | nil => exact List.suffix_rfl
  | cons t ts ih =>
    rw [baseWords]
    split
    · exact ih.trans (List.suffix_cons t ts)
    · exact ih.trans (List.suffix_cons t ts)
    · exact List.suffix_rfl

theorem recordType?_spec (hsc : sc.Tidy V) {name : String} {t : CType}
    (h : sc.recordType? name = some t) :
    ∃ id, t = .record .none id ∧ id.index < sc.context.records.length := by
  unfold Scope.recordType? at h
  split at h
  · rename_i q id hd
    obtain ⟨u, hu, hud⟩ := Option.map_eq_some_iff.1 hd
    have hs := (hsc.names name u hu).desugar
    rw [hud] at hs
    cases hs with
    | record hid => exact ⟨id, (Option.some.inj h).symm, hid⟩
  · obtain ⟨id, hid, rfl⟩ := Option.map_eq_some_iff.1 h
    obtain ⟨d, hd, -⟩ := Context.findRecord?_spec hid
    exact ⟨id, rfl, Context.index_lt_of_record? hd⟩

theorem ensures_baseClause (hsc : sc.Tidy V) (ts : List Token) (hw : V.Covers ts) :
    Ensures V (baseClause stop sc ts) fun bs => ∀ b ∈ bs, b.Tidy sc.context := by
  unfold baseClause
  have h₁ := (baseWords ts).short
  have hw₁ := hw.of_suffix (baseWords_suffix ts)
  refine ensures_bind (ensures_expectIdent hw₁) fun name r₂ h₂ _ hw₂ => ?_
  dsimp only
  split
  · exact ensures_error
  · rename_i type ht
    have htidy : ∀ access isVirtual, BaseDecl.Tidy sc.context ⟨type, access, isVirtual⟩ :=
      fun _ _ => recordType?_spec hsc ht
    split
    · refine ensures_ok (fun b hm => ?_) hw₂
      rw [List.mem_singleton] at hm
      exact hm ▸ htidy _ _
    · rename_i r₃ h₃ hc
      refine ensures_bind (ensures_baseClause hsc r₃ (rest_take? hc hw₂)) fun bs r₄ _ hbs hw₄ => ?_
      refine ensures_ok (fun b hm => ?_) hw₄
      rcases List.mem_cons.1 hm with rfl | hm
      · exact htidy _ _
      · exact hbs b hm
termination_by ts.length

theorem ensures_optionalBases (key : RecordKey) (hsc : sc.Tidy V) (hw : V.Covers ts) :
    Ensures V (optionalBases stop key sc ts) fun bs =>
      (∀ b ∈ bs, b.Tidy sc.context) ∧ (key ≠ .classKey → bs = []) := by
  unfold optionalBases
  split
  · exact ensures_ok ⟨fun b hb => absurd hb List.not_mem_nil, fun _ => rfl⟩ hw
  · rename_i r₁ h₁ hc
    split
    · rename_i hkey
      refine ensures_bind (ensures_baseClause hsc r₁ (rest_take? hc hw)) fun bs r₂ _ hbs hw₂ => ?_
      exact ensures_ok ⟨hbs, fun hn => absurd hkey hn⟩ hw₂
    · exact ensures_error

theorem ensures_optionalWidth (hw : V.Covers ts) :
    Ensures V (optionalWidth stop ts) fun _ => True := by
  unfold optionalWidth
  split
  · exact ensures_ok trivial hw
  · rename_i r₁ h₁ hc
    refine ensures_bind (ensures_bitWidth (rest_take? hc hw)) fun _ r₂ _ _ hw₂ => ?_
    exact ensures_ok trivial hw₂

theorem ensures_labelColon (key : RecordKey) (l : Location) (hw : V.Covers ts) :
    Ensures V (labelColon stop key l ts) fun _ => key = .classKey := by
  unfold labelColon
  split
  · rename_i hkey
    exact (ensures_expect _ hw).imp fun _ _ => hkey
  · exact ensures_error

/-! ## 5. Records and enumerations -/

theorem ensures_enumSpecifier (hsc : sc.Tidy V) (hw : V.Covers ts) :
    Ensures V (enumSpecifier stop sc ts) (sc.Keeps V (CType.Spelt V)) := by
  obtain ⟨hname, hw₁⟩ := optionalName_spec hw
  have hknown : ∀ (name : Option String) (id : EnumId), name.bind sc.context.findEnum? = some id →
      sc.Keeps V (CType.Spelt V) (.enumeration .none id, { sc with context := sc.context }) := by
    intro name id hid
    obtain ⟨n, -, hid⟩ := Option.bind_eq_some_iff.1 hid
    obtain ⟨d, hd, -⟩ := Context.findEnum?_spec hid
    exact ⟨hsc.refl, .enumeration (List.getElem?_eq_some_iff.1 hd).1⟩
  have hnew : ∀ name : Option String, (∀ n, name = some n → V.ident n) →
      name.bind sc.context.findEnum? = none →
      sc.Keeps V (CType.Spelt V) (.enumeration .none (sc.context.declareEnum name).1,
        { sc with context := (sc.context.declareEnum name).2 }) := by
    intro name hn hid
    refine ⟨hsc.withContext (hsc.context.declareEnum fun n hm => ⟨?_, hn n hm⟩)
      (Context.below_declareEnum name), .enumeration (by simp [Context.declareEnum])⟩
    subst hm
    exact hid
  unfold enumSpecifier
  generalize optionalName ts = o at hname hw₁ ⊢
  obtain ⟨name, r₁, h₁⟩ := o
  dsimp only at hname hw₁ ⊢
  cases hid : name.bind sc.context.findEnum? with
  | none =>
    simp only
    split
    · refine ensures_bind (ensures_skipBody hw₁) fun _ r₂ _ _ hw₂ => ?_
      exact ensures_ok (hnew name hname hid) hw₂
    · exact ensures_ok (hnew name hname hid) hw₁
  | some id =>
    simp only
    split
    · refine ensures_bind (ensures_skipBody hw₁) fun _ r₂ _ _ hw₂ => ?_
      exact ensures_ok (hknown name id hid) hw₂
    · exact ensures_ok (hknown name id hid) hw₁

/-- The record that a keyword and a name mean is called by the name; without a name it is a new one
with the keyword. -/
theorem tagged_spec (hsc : sc.Tidy V) {key : RecordKey} {name : Option String} {hasBody : Bool}
    (hn : ∀ n, name = some n → V.ident n ∧ V.tagged key n) {id : RecordId} {sc₁ : Scope}
    (h : tagged sc key name hasBody = .ok (id, sc₁)) :
    sc.Leads V sc₁ ∧ ∃ d, sc₁.context.record? id = some d ∧ d.name = name ∧
      (name = none → d.key = key) := by
  have hnew : ∀ name, (∀ n, name = some n → sc.context.findRecord? n = none ∧
      V.ident n ∧ V.tagged key n) →
      sc.Leads V { sc with context := (sc.context.declareRecord key name).2 } ∧
        ∃ d, (sc.context.declareRecord key name).2.record?
          (sc.context.declareRecord key name).1 = some d ∧ d.name = name ∧
            (name = none → d.key = key) := fun name hn =>
    ⟨hsc.withContext (hsc.context.declareRecord key hn) (Context.below_declareRecord key name),
      ⟨key, name, none, []⟩, (Context.record?_declareRecord key name _).trans (if_pos rfl), rfl,
      fun _ => rfl⟩
  unfold tagged at h
  split at h
  · cases h
    refine hnew none fun n hn => ?_
    cases hn
  · rename_i n
    split at h
    · rename_i id' hid
      split at h
      · cases h
      · cases h
        obtain ⟨d, hd, hdn⟩ := Context.findRecord?_spec hid
        refine ⟨hsc.refl, d, hd, hdn, fun hnone => ?_⟩
        cases hnone
    · rename_i hid
      cases h
      refine hnew (some n) fun m hm => ?_
      obtain rfl := Option.some.inj hm
      exact ⟨hid, hn n rfl⟩

/-- The type that specifiers name is spelt. -/
structure Specifiers.Spelt (V : Vocabulary) (ctx : Context) (s : Specifiers) : Prop where
  named : ∀ t, s.named = some t → t.Spelt V ctx
  complex : s.complex = true → V.complex

theorem spelt_no_specifiers (ctx : Context) : ({} : Specifiers).Spelt V ctx :=
  ⟨fun _ h => (nomatch h), fun h => (nomatch h)⟩

/-- One more type among the specifiers. -/
theorem Specifiers.Spelt.name {ctx ctx' : Context} {s : Specifiers} (h : s.Spelt V ctx)
    {t : CType} (ht : t.Spelt V ctx') : { s with named := some t }.Spelt V ctx' :=
  ⟨fun _ hu => Option.some.inj hu ▸ ht, h.complex⟩

theorem spelt_add? (hsc : sc.Tidy V) {acc acc' : Specifiers} (h : acc.Spelt V sc.context)
    {k : TokenKind} (hc : k = .keyword .complex → V.complex) (hk : acc.add? sc k = some acc') :
    acc'.Spelt V sc.context := by
  unfold Specifiers.add? at hk
  split at hk
  · cases hk; exact ⟨h.named, h.complex⟩
  · cases hk; exact h
  · cases hk; exact ⟨h.named, h.complex⟩
  · cases hk; exact ⟨h.named, h.complex⟩
  · cases hk; exact ⟨h.named, fun _ => hc rfl⟩
  · split at hk
    · obtain ⟨t, ht, rfl⟩ := Option.map_eq_some_iff.1 hk
      exact h.name (hsc.names _ _ ht)
    · cases hk
  · cases hk

theorem spelt_resolve {ctx : Context} {s : Specifiers} (h : s.Spelt V ctx) {l : Location}
    {t : CType} (ht : s.resolve l = .ok t) : t.Spelt V ctx := by
  have hbase : ∀ u, s.base = .ok u → u.Spelt V ctx := by
    intro u hu
    unfold Specifiers.base at hu
    split at hu
    · rename_i v hv
      split at hu
      · cases hu
        exact h.named _ hv
      · cases hu
    · split at hu
      · split at hu
        · cases hu
          exact .builtin ⟨[.double], by decide⟩
        · cases hu
      · split at hu
        · rename_i spelling hs
          cases hu
          exact .builtin ⟨_, hs⟩
        · cases hu
  unfold Specifiers.resolve at ht
  split at ht
  · rename_i u hu
    cases ht
    refine CType.Spelt.qualified ?_ _
    split
    · rename_i hc
      exact .complex (h.complex hc) (hbase u hu)
    · exact hbase u hu
  · cases ht

/-! ## 6. The recursive part -/

/-- The members of a class have an access each, those of other records have none. -/
def RecordKey.Gives (key : RecordKey) (access : Option Access) : Prop :=
  access.isSome = true ↔ key = .classKey

theorem RecordKey.gives_access (key : RecordKey) : key.Gives key.access := by
  unfold Gives
  cases key <;> decide

/-- All members are tidy and have such an access as behind the keyword. -/
def MembersTidy (V : Vocabulary) (key : RecordKey) (ctx : Context) (ms : List MemberDecl) : Prop :=
  ∀ m ∈ ms, m.Tidy V ctx ∧ key.Gives m.access

/-- All derivations are spelt. -/
def DerivationsSpelt (V : Vocabulary) (ctx : Context) (ds : List Derivation) : Prop :=
  ∀ d ∈ ds, d.Spelt V ctx

/-- All parameters are spelt, over the scope that comes with them. -/
def ParamsKept (V : Vocabulary) (sc : Scope) (v : List CType × Bool × Scope) : Prop :=
  sc.Leads V v.2.2 ∧ ∀ t ∈ v.1, t.Spelt V v.2.2.context

theorem membersTidy_append {key : RecordKey} {ctx : Context} {ms ms' : List MemberDecl}
    (h : MembersTidy V key ctx ms) (h' : MembersTidy V key ctx ms') :
    MembersTidy V key ctx (ms ++ ms') := by
  intro m hm
  rcases List.mem_append.1 hm with hm | hm
  · exact h m hm
  · exact h' m hm

theorem MembersTidy.mono {key : RecordKey} {ctx ctx' : Context} {ms : List MemberDecl}
    (h : MembersTidy V key ctx ms) (hc : ctx.Below ctx') : MembersTidy V key ctx' ms :=
  fun m hm => ⟨(h m hm).1.mono hc, (h m hm).2⟩

theorem takeNested?_spec {s : Takes ts Unit} (h : takeNested? sc ts = some s) (hw : V.Covers ts) :
    V.Covers s.rest := by
  unfold takeNested? at h
  split at h
  · rename_i s' hs
    split at h
    · cases h
      exact rest_take? hs hw
    · cases h
  · cases h

theorem takeNoParameters?_spec {s : Takes ts Unit} (h : takeNoParameters? ts = some s)
    (hw : V.Covers ts) : V.Covers s.rest := by
  unfold takeNoParameters? at h
  split at h
  · cases h
    exact hw.tail
  · cases h
    exact hw.tail.tail
  · cases h

/-- A declarator that is missing. -/
theorem keeps_missing (hsc : sc.Tidy V) :
    sc.Keeps V (Declarator.Spelt V) ((⟨none, []⟩ : Declarator), sc) :=
  ⟨hsc.refl, ⟨fun _ h => (nomatch h), fun _ h => (nomatch h)⟩⟩

mutual

theorem ensures_specifiers (stop : Location) {acc : Specifiers} {sc : Scope} (hsc : sc.Tidy V)
    (ha : acc.Spelt V sc.context) {ts : List Token} (hw : V.Covers ts) :
    Ensures V (specifiers stop acc sc ts) (sc.Keeps V (Specifiers.Spelt V)) := by
  cases ts with
  | nil =>
    unfold specifiers
    exact ensures_ok ⟨hsc.refl, ha⟩ hw
  | cons t r =>
    unfold specifiers
    split
    · rename_i acc' hadd
      refine ensures_bind (ensures_specifiers stop hsc
        (spelt_add? hsc ha (hw.complex t List.mem_cons_self) hadd) hw.tail)
        fun v r₁ _ hv hw₁ => ?_
      exact ensures_ok hv hw₁
    · split
      · rename_i key hkey
        have hm : ∀ n, (optionalName r).value = some n → V.tagged key n := fun n hn =>
          hw.tagged key n (infix_optionalName hkey hn)
        refine ensures_bind (ensures_recordSpecifier stop key t.location hsc hm hw.tail)
          fun (type, sc₁) r₁ _ ⟨hl, ht⟩ hw₁ => ?_
        refine ensures_check fun _ _ => ?_
        refine ensures_bind (ensures_specifiers stop hl.tidy (ha.name ht) hw₁)
          fun v r₂ _ hv hw₂ => ?_
        exact ensures_ok ⟨hl.trans hv.1, hv.2⟩ hw₂
      · refine ensures_bind (ensures_enumSpecifier hsc hw.tail)
          fun (type, sc₁) r₁ _ ⟨hl, ht⟩ hw₁ => ?_
        refine ensures_check fun _ _ => ?_
        refine ensures_bind (ensures_specifiers stop hl.tidy (ha.name ht) hw₁)
          fun v r₂ _ hv hw₂ => ?_
        exact ensures_ok ⟨hl.trans hv.1, hv.2⟩ hw₂
      · exact ensures_ok ⟨hsc.refl, ha⟩ hw
termination_by (ts.length, 0)

theorem ensures_recordSpecifier (stop : Location) (key : RecordKey) (l : Location) {sc : Scope}
    (hsc : sc.Tidy V) {ts : List Token}
    (hm : ∀ n, (optionalName ts).value = some n → V.tagged key n) (hw : V.Covers ts) :
    Ensures V (recordSpecifier stop key l sc ts) (sc.Keeps V (CType.Spelt V)) := by
  obtain ⟨hname, hw₁⟩ := optionalName_spec hw
  have h₁ := (optionalName ts).short
  unfold recordSpecifier
  dsimp only
  split
  · exact ensures_error
  · rename_i id sc₁ htag
    obtain ⟨hl₁, d, hd, hdn, hdk⟩ := tagged_spec hsc (fun n hn => ⟨hname n hn, hm n hn⟩) htag
    have hid := Context.index_lt_of_record? hd
    have hl₂ := hl₁.trans (hl₁.tidy.nameClass key (optionalName ts).value hid)
    split
    · refine ensures_bind (ensures_optionalBases key hl₂.tidy hw₁) fun bs r₂ h₂ ⟨hbs, hnb⟩ hw₂ => ?_
      refine ensures_bind (ensures_expect _ hw₂) fun _ r₃ h₃ _ hw₃ => ?_
      have hlt : r₃.length < r₂.length := h₃
      refine ensures_bind (ensures_members stop key key.gives_access hl₂.tidy hw₃)
        fun (ms, sc₃) r₄ _ ⟨hl₃, hms⟩ hw₄ => ?_
      refine ensures_bind (ensures_expect _ hw₄) fun _ r₅ _ _ hw₅ => ?_
      have hl := hl₂.trans hl₃
      have hb := Context.below_completeRecord sc₃.context id ms bs
      have hbody : ∀ e, sc₃.context.record? id = some e → e.Bodied V ms bs := by
        -- the record is still called as it was when the keyword was read
        intro e he
        obtain ⟨d₂, hd₂, hk₂, hn₂⟩ := ((hl₁.tidy.nameClass key (optionalName ts).value hid).trans
          hl₃).below.heads id d hd
        rw [he] at hd₂
        obtain rfl := Option.some.inj hd₂
        refine ⟨key, ⟨fun m hm => (hms m hm).2, hnb⟩, fun hnone => ?_, fun n hn => ?_⟩
        · rw [hk₂]
          exact (hdk (hdn.symm.trans (hn₂.symm.trans hnone))).symm
        · exact hm n (hdn.symm.trans (hn₂.symm.trans hn))
      have hc := hl₃.tidy.withContext (hl₃.tidy.context.completeRecord id (fun m hm => (hms m hm).1)
        (fun b hm => (hbs b hm).mono hl₃.below) hbody) hb
      refine ensures_ok ⟨hl.trans hc, .record ?_⟩ hw₅
      exact Nat.lt_of_lt_of_le hid
        (((hl₁.tidy.nameClass key (optionalName ts).value hid).trans
          (hl₃.trans hc)).below.records)
    · refine ensures_ok ⟨hl₂, .record ?_⟩ hw₁
      exact Nat.lt_of_lt_of_le hid
        (hl₁.tidy.nameClass key (optionalName ts).value hid).below.records
termination_by (ts.length, 0)

theorem ensures_members (stop : Location) (key : RecordKey) {access : Option Access}
    (ha : key.Gives access) {sc : Scope} (hsc : sc.Tidy V) {ts : List Token} (hw : V.Covers ts) :
    Ensures V (members stop key access sc ts) (sc.Keeps V (MembersTidy V key)) := by
  cases ts with
  | nil =>
    unfold members
    exact ensures_error
  | cons t r =>
    unfold members
    split
    · exact ensures_ok ⟨hsc.refl, fun m hm => (nomatch hm)⟩ hw
    · refine ensures_bind (ensures_labelColon key t.location hw.tail) fun _ r₁ _ hkey hw₁ => ?_
      have ha₁ : ∀ a, key.Gives (some a) := fun a => iff_of_true rfl hkey
      refine ensures_bind (ensures_members stop key (ha₁ _) hsc hw₁) fun v r₂ _ hv hw₂ => ?_
      exact ensures_ok hv hw₂
    · refine ensures_bind (ensures_members stop key ha hsc hw.tail) fun v r₁ _ hv hw₁ => ?_
      exact ensures_ok hv hw₁
    · refine ensures_bind (ensures_specifiers stop hsc (spelt_no_specifiers _) hw)
        fun (specs, sc₁) r₁ _ ⟨hl₁, hs⟩ hw₁ => ?_
      refine ensures_check fun base hb => ?_
      refine ensures_bind (ensures_memberGroup stop ha hl₁.tidy (spelt_resolve hs hb) hw₁)
        fun (own, sc₂) r₂ _ ⟨hl₂, hown⟩ hw₂ => ?_
      refine ensures_bind (ensures_expect _ hw₂) fun _ r₃ _ _ hw₃ => ?_
      refine ensures_bind (ensures_members stop key ha hl₂.tidy hw₃)
        fun (list, sc₃) r₄ _ ⟨hl₃, hlist⟩ hw₄ => ?_
      exact ensures_ok ⟨hl₁.trans (hl₂.trans hl₃),
        membersTidy_append (hown.mono hl₃.below) hlist⟩ hw₄
termination_by (ts.length, 5)
decreasing_by
  all_goals
    subst_vars
    simp only [Prod.lex_def, List.length_cons, true_and] at *
    omega

theorem ensures_memberGroup (stop : Location) {base : CType} {key : RecordKey}
    {access : Option Access} (ha : key.Gives access) {sc : Scope} (hsc : sc.Tidy V)
    (hbase : base.Spelt V sc.context) {ts : List Token} (hw : V.Covers ts) :
    Ensures V (memberGroup stop base access sc ts) (sc.Keeps V (MembersTidy V key)) := by
  unfold memberGroup
  split
  · refine ensures_ok ⟨hsc.refl, fun m hm => ?_⟩ hw
    dsimp only at hm
    split at hm
    · rw [List.mem_singleton] at hm
      subst hm
      exact ⟨⟨fun _ h => (nomatch h), hbase⟩, ha⟩
    · cases hm
  · exact ensures_memberList stop ha hsc hbase hw
termination_by (ts.length, 4)

theorem ensures_memberList (stop : Location) {base : CType} {key : RecordKey}
    {access : Option Access} (ha : key.Gives access) {sc : Scope} (hsc : sc.Tidy V)
    (hbase : base.Spelt V sc.context) {ts : List Token} (hw : V.Covers ts) :
    Ensures V (memberList stop base access sc ts) (sc.Keeps V (MembersTidy V key)) := by
  unfold memberList
  refine ensures_bind (ensures_memberDeclarator stop hsc hw)
    fun (d, sc₁) r₁ h₁ ⟨hl₁, hd⟩ hw₁ => ?_
  refine ensures_bind (ensures_optionalWidth hw₁) fun width r₂ h₂ _ hw₂ => ?_
  have hown : MemberDecl.Tidy V sc₁.context ⟨d.name, d.apply base, access, width⟩ :=
    ⟨hd.name, hd.apply (hbase.mono hl₁.below)⟩
  dsimp only
  split
  · refine ensures_ok ⟨hl₁, fun m hm => ?_⟩ hw₂
    rw [List.mem_singleton] at hm
    subst hm
    exact ⟨hown, ha⟩
  · rename_i r₃ h₃ hc
    refine ensures_bind (ensures_memberList stop ha hl₁.tidy (hbase.mono hl₁.below)
      (rest_take? hc hw₂)) fun (list, sc₂) r₄ _ ⟨hl₂, hlist⟩ hw₄ => ?_
    refine ensures_ok ⟨hl₁.trans hl₂, fun m hm => ?_⟩ hw₄
    rcases List.mem_cons.1 hm with rfl | hm
    · exact ⟨hown.mono hl₂.below, ha⟩
    · exact hlist m hm
termination_by (ts.length, 3)

theorem ensures_memberDeclarator (stop : Location) {sc : Scope} (hsc : sc.Tidy V)
    {ts : List Token} (hw : V.Covers ts) :
    Ensures V (memberDeclarator stop sc ts) (sc.Keeps V (Declarator.Spelt V)) := by
  unfold memberDeclarator
  split
  · exact ensures_ok (keeps_missing hsc) hw
  · exact ensures_declarator stop hsc hw
termination_by (ts.length, 2)

theorem ensures_declarator (stop : Location) {sc : Scope} (hsc : sc.Tidy V) {ts : List Token}
    (hw : V.Covers ts) : Ensures V (declarator stop sc ts) (sc.Keeps V (Declarator.Spelt V)) := by
  have h₁ := (pointerRun ts).short
  have hw₁ := hw.of_suffix (pointerRun_spec (V := V) sc.context ts).2
  unfold declarator
  refine ensures_bind (ensures_declaratorCore stop hsc hw₁)
    fun (inner, sc₁) r₂ h₂ ⟨hl₁, hi⟩ hw₂ => ?_
  refine ensures_bind (ensures_suffixRun stop hl₁.tidy hw₂)
    fun (suffixes, sc₂) r₃ _ ⟨hl₂, hs⟩ hw₃ => ?_
  refine ensures_ok ⟨hl₁.trans hl₂, ⟨hi.name, fun d hd => ?_⟩⟩ hw₃
  rcases List.mem_append.1 hd with hd | hd
  · rcases List.mem_append.1 hd with hd | hd
    · exact (hi.derivations d hd).mono hl₂.below
    · exact hs d hd
  · exact (pointerRun_spec _ ts).1 d (List.mem_reverse.1 hd)
termination_by (ts.length, 1)
decreasing_by all_goals simp only [Prod.lex_def]; omega

theorem ensures_declaratorCore (stop : Location) {sc : Scope} (hsc : sc.Tidy V) {ts : List Token}
    (hw : V.Covers ts) :
    Ensures V (declaratorCore stop sc ts) (sc.Keeps V (Declarator.Spelt V)) := by
  unfold declaratorCore
  split
  · rename_i r₁ h₁ hn
    refine ensures_bind (ensures_declarator stop hsc (takeNested?_spec hn hw))
      fun v r₂ _ hv hw₂ => ?_
    refine ensures_bind (ensures_expect _ hw₂) fun _ r₃ _ _ hw₃ => ?_
    exact ensures_ok hv hw₃
  · obtain ⟨hname, hw₁⟩ := optionalName_spec hw
    exact ensures_ok ⟨hsc.refl, ⟨hname, fun d hd => (nomatch hd)⟩⟩ hw₁
termination_by (ts.length, 0)

theorem ensures_suffixRun (stop : Location) {sc : Scope} (hsc : sc.Tidy V) {ts : List Token}
    (hw : V.Covers ts) : Ensures V (suffixRun stop sc ts) (sc.Keeps V (DerivationsSpelt V)) := by
  unfold suffixRun
  split
  · rename_i r₁ h₁ hb
    refine ensures_bind (ensures_arraySuffix (rest_take? hb hw)) fun size r₂ h₂ _ hw₂ => ?_
    refine ensures_bind (ensures_suffixRun stop hsc hw₂)
      fun (derived, sc₁) r₃ _ ⟨hl, hd⟩ hw₃ => ?_
    refine ensures_ok ⟨hl, fun d hm => ?_⟩ hw₃
    rcases List.mem_cons.1 hm with rfl | hm
    · trivial
    · exact hd d hm
  · split
    · rename_i r₁ h₁ hp
      refine ensures_bind (ensures_functionSuffix stop hsc (rest_take? hp hw))
        fun (params, variadic, sc₁) r₂ h₂ ⟨hl₁, hps⟩ hw₂ => ?_
      refine ensures_bind (ensures_suffixRun stop hl₁.tidy hw₂)
        fun (derived, sc₂) r₃ _ ⟨hl₂, hd⟩ hw₃ => ?_
      refine ensures_ok ⟨hl₁.trans hl₂, fun d hm => ?_⟩ hw₃
      rcases List.mem_cons.1 hm with rfl | hm
      · exact fun p hp => (hps p hp).mono hl₂.below
      · exact hd d hm
    · exact ensures_ok ⟨hsc.refl, fun d hd => (nomatch hd)⟩ hw
termination_by (ts.length, 0)

theorem ensures_functionSuffix (stop : Location) {sc : Scope} (hsc : sc.Tidy V) {ts : List Token}
    (hw : V.Covers ts) : Ensures V (functionSuffix stop sc ts) (ParamsKept V sc) := by
  unfold functionSuffix
  split
  · rename_i r₁ h₁ hn
    exact ensures_ok ⟨hsc.refl, fun t ht => (nomatch ht)⟩ (takeNoParameters?_spec hn hw)
  · refine ensures_bind (ensures_parameters stop hsc hw) fun v r₁ _ hv hw₁ => ?_
    refine ensures_bind (ensures_expect _ hw₁) fun _ r₂ _ _ hw₂ => ?_
    exact ensures_ok hv hw₂
termination_by (ts.length, 4)

theorem ensures_parameters (stop : Location) {sc : Scope} (hsc : sc.Tidy V) {ts : List Token}
    (hw : V.Covers ts) : Ensures V (parameters stop sc ts) (ParamsKept V sc) := by
  unfold parameters
  split
  · rename_i r₁ h₁ he
    exact ensures_ok ⟨hsc.refl, fun t ht => (nomatch ht)⟩ (rest_take? he hw)
  · refine ensures_bind (ensures_specifiers stop hsc (spelt_no_specifiers _) hw)
      fun v r₁ h₁ hkeeps hw₁ => ?_
    obtain ⟨specs, sc₁⟩ := v
    obtain ⟨hl₁, hs⟩ := hkeeps
    refine ensures_check fun base hb => ?_
    refine ensures_bind (ensures_parameterDeclarator stop hl₁.tidy hw₁)
      fun (d, sc₂) r₂ h₂ ⟨hl₂, hd⟩ hw₂ => ?_
    have htype := hd.apply ((spelt_resolve hs hb).mono hl₂.below)
    dsimp only
    split
    · refine ensures_ok ⟨hl₁.trans hl₂, fun t ht => ?_⟩ hw₂
      rw [List.mem_singleton] at ht
      exact ht ▸ htype
    · rename_i r₃ h₃ hc
      refine ensures_bind (ensures_parameters stop hl₂.tidy (rest_take? hc hw₂))
        fun (types, variadic, sc₃) r₄ _ ⟨hl₃, hts⟩ hw₄ => ?_
      refine ensures_ok ⟨hl₁.trans (hl₂.trans hl₃), fun t ht => ?_⟩ hw₄
      rcases List.mem_cons.1 ht with rfl | ht
      · exact htype.mono hl₃.below
      · exact hts t ht
termination_by (ts.length, 3)
decreasing_by all_goals simp only [Prod.lex_def, true_and]; omega

theorem ensures_parameterDeclarator (stop : Location) {sc : Scope} (hsc : sc.Tidy V)
    {ts : List Token} (hw : V.Covers ts) :
    Ensures V (parameterDeclarator stop sc ts) (sc.Keeps V (Declarator.Spelt V)) := by
  unfold parameterDeclarator
  split
  · exact ensures_ok (keeps_missing hsc) hw
  · exact ensures_declarator stop hsc hw
termination_by (ts.length, 2)

end

/-! ## 7. Source texts -/

/-- A declared name is an identifier, and its type is spelt. -/
structure Declaration.Tidy (V : Vocabulary) (ctx : Context) (d : Declaration) : Prop where
  name : ∀ n, d.name = some n → V.ident n
  type : d.type.Spelt V ctx

/-- All declarations are tidy. -/
def DeclarationsTidy (V : Vocabulary) (ctx : Context) (ds : List Declaration) : Prop :=
  ∀ d ∈ ds, d.Tidy V ctx

theorem DeclarationsTidy.mono {ctx ctx' : Context} {ds : List Declaration}
    (h : DeclarationsTidy V ctx ds) (hc : ctx.Below ctx') : DeclarationsTidy V ctx' ds :=
  fun d hd => ⟨(h d hd).name, (h d hd).type.mono hc⟩

theorem declarationsTidy_singleton {ctx : Context} {d : Declaration} (h : d.Tidy V ctx) :
    DeclarationsTidy V ctx [d] := by
  intro d' hd
  rw [List.mem_singleton] at hd
  exact hd ▸ h

theorem declarationsTidy_append {ctx : Context} {ds ds' : List Declaration}
    (h : DeclarationsTidy V ctx ds) (h' : DeclarationsTidy V ctx ds') :
    DeclarationsTidy V ctx (ds ++ ds') := by
  intro d hd
  rcases List.mem_append.1 hd with hd | hd
  · exact h d hd
  · exact h' d hd

theorem ensures_declaratorList {base : CType} (storage : Option StorageClass) {sc : Scope}
    (hsc : sc.Tidy V) (hbase : base.Spelt V sc.context) {ts : List Token} (hw : V.Covers ts) :
    Ensures V (declaratorList stop base storage sc ts) (sc.Keeps V (DeclarationsTidy V)) := by
  unfold declaratorList
  refine ensures_bind (ensures_declarator stop hsc hw) fun v r₁ h₁ hkeeps hw₁ => ?_
  obtain ⟨d, sc₁⟩ := v
  obtain ⟨hl₁, hd⟩ := hkeeps
  have htype := hd.apply (hbase.mono hl₁.below)
  dsimp only
  split
  · exact ensures_error
  · rename_i name hname
    have hown : Declaration.Tidy V sc₁.context ⟨some name, d.apply base, storage, place stop ts⟩ :=
      ⟨fun n hn => hd.name n (hname.trans hn), htype⟩
    have hl₂ : sc₁.Leads V (if storage = some .typeSynonym then
        sc₁.nameType name (.synonym .none name (d.apply base)) else sc₁) := by
      split
      · exact hl₁.tidy.nameType (.synonym htype)
      · exact hl₁.tidy.refl
    split
    · refine ensures_bind (ensures_skipBody hw₁) fun _ r₂ _ _ hw₂ => ?_
      exact ensures_ok ⟨hl₁.trans hl₂, (declarationsTidy_singleton hown).mono hl₂.below⟩ hw₂
    · refine ensures_bind (ensures_skipInitializer hw₁) fun _ r₂ h₂ _ hw₂ => ?_
      dsimp only
      split
      · rename_i r₃ h₃ hc
        refine ensures_bind (ensures_declaratorList storage hl₂.tidy
          (hbase.mono (hl₁.trans hl₂).below) (rest_take? hc hw₂))
          fun v r₄ _ hrest hw₄ => ?_
        obtain ⟨list, sc₃⟩ := v
        obtain ⟨hl₃, hlist⟩ := hrest
        exact ensures_ok ⟨hl₁.trans (hl₂.trans hl₃), declarationsTidy_append
          ((declarationsTidy_singleton hown).mono (hl₂.trans hl₃).below) hlist⟩ hw₄
      · refine ensures_bind (ensures_expect _ hw₂) fun _ r₃ _ _ hw₃ => ?_
        exact ensures_ok ⟨hl₁.trans hl₂, (declarationsTidy_singleton hown).mono hl₂.below⟩ hw₃
termination_by ts.length

theorem ensures_externalDeclaration {sc : Scope} (hsc : sc.Tidy V) {ts : List Token}
    (hw : V.Covers ts) :
    Ensures V (externalDeclaration stop sc ts) (sc.Keeps V (DeclarationsTidy V)) := by
  unfold externalDeclaration
  split
  · rename_i r h hs
    exact ensures_ok ⟨hsc.refl, fun d hd => absurd hd List.not_mem_nil⟩ (rest_take? hs hw)
  · refine ensures_bind (ensures_specifiers stop hsc (spelt_no_specifiers _) hw)
      fun v r₁ h₁ hkeeps hw₁ => ?_
    obtain ⟨specs, sc₁⟩ := v
    obtain ⟨hl₁, hs⟩ := hkeeps
    refine ensures_check fun base hb => ?_
    have hbase := spelt_resolve hs hb
    dsimp only
    split
    · rename_i r₂ h₂ hc
      have hown : Declaration.Tidy V sc₁.context ⟨none, base, specs.storage, place stop ts⟩ :=
        ⟨fun n hn => absurd hn (by simp), hbase⟩
      refine ensures_ok ⟨hl₁, declarationsTidy_singleton hown⟩ ?_
      exact rest_take? hc hw₁
    · refine ensures_bind (ensures_declaratorList specs.storage hl₁.tidy hbase hw₁)
        fun v r₂ _ hrest hw₂ => ?_
      obtain ⟨hl₂, hds⟩ := hrest
      exact ensures_ok ⟨hl₁.trans hl₂, hds⟩ hw₂

theorem tidy_declarations {sc : Scope} (hsc : sc.Tidy V) {ts : List Token} (hw : V.Covers ts)
    {ds : List Declaration} {sc' : Scope} (h : declarations stop sc ts = .ok (ds, sc')) :
    sc.Leads V sc' ∧ DeclarationsTidy V sc'.context ds := by
  unfold declarations at h
  split at h
  · cases h
    exact ⟨hsc.refl, fun d hd => (nomatch hd)⟩
  · cases he : externalDeclaration stop sc ts with
    | error x => rw [he] at h; cases h
    | ok s =>
      obtain ⟨⟨hl₁, hown⟩, hw₁⟩ := ensures_externalDeclaration hsc hw s he
      have hlt := s.short
      cases hr : declarations stop s.value.2 s.rest with
      | error x =>
        rw [he] at h
        simp only [bind, Except.bind, hr] at h
        cases h
      | ok v =>
        obtain ⟨hl₂, hlist⟩ := tidy_declarations hl₁.tidy hw₁ hr
        rw [he] at h
        simp only [bind, Except.bind, hr] at h
        cases h
        exact ⟨hl₁.trans hl₂, declarationsTidy_append (hown.mono hl₂.below) hlist⟩
termination_by ts.length

/-- **Reading a source text keeps the context `Tidy`,** and what it declares is tidy, with any
vocabulary that `Covers` the text. -/
theorem tidy_parseBytes_of_covers {ctx : Context} (hc : ctx.Tidy V) {bytes : List UInt8}
    (hV : ∀ ts stop, tokenize bytes = .ok (ts, stop) → V.Covers ts)
    {ds : List Declaration} {sc : Scope} (h : parseBytes bytes ctx = .ok (ds, sc)) :
    sc.context.Tidy V ∧ ctx.Below sc.context ∧ DeclarationsTidy V sc.context ds := by
  unfold parseBytes at h
  cases ht : tokenize bytes with
  | error x => rw [ht] at h; cases h
  | ok v =>
    rw [ht] at h
    have hsc : Scope.Tidy V { context := ctx } := ⟨hc, fun n t hn => (nomatch hn)⟩
    obtain ⟨hl, hds⟩ := tidy_declarations hsc (hV v.1 v.2 ht) h
    exact ⟨hl.tidy.context, hl.below, hds⟩

/-- The same with all identifiers. -/
theorem tidy_parseBytes {ctx : Context} (hc : ctx.Tidy .all) {bytes : List UInt8}
    {ds : List Declaration} {sc : Scope} (h : parseBytes bytes ctx = .ok (ds, sc)) :
    sc.context.Tidy .all ∧ ctx.Below sc.context ∧ DeclarationsTidy .all sc.context ds :=
  tidy_parseBytes_of_covers hc (fun _ _ ht => Vocabulary.covers_all (worded_tokenize ht)) h

/-- The same with what stands in the tokens of the source. -/
theorem tidy_parseSource {source : String} {ds : List Declaration} {sc : Scope} {ts : List Token}
    {stop : Location} (h : parseSource source = .ok (ds, sc))
    (hts : tokenize source.toUTF8.toList = .ok (ts, stop)) :
    ∃ hw : Worded ts, sc.context.Tidy (.ofTokens ts hw) ∧
      DeclarationsTidy (.ofTokens ts hw) sc.context ds := by
  have hw := worded_tokenize hts
  have hcovers : ∀ ts' stop', tokenize source.toUTF8.toList = .ok (ts', stop') →
      (Vocabulary.ofTokens ts hw).Covers ts' := by
    intro ts' stop' hts'
    rw [hts] at hts'
    cases hts'
    exact Vocabulary.covers_ofTokens hw
  obtain ⟨hctx, -, hds⟩ := tidy_parseBytes_of_covers Context.tidy_empty hcovers h
  exact ⟨hw, hctx, hds⟩

end TypeLedger
