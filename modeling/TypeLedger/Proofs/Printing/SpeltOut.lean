import TypeLedger.Proofs.Grammar.NamedParameters
import TypeLedger.Proofs.Printing.Declared
import TypeLedger.Proofs.Printing.Parentheses

/-!
# Declarations over the records of an environment

* `Environment.StandsFor`: an identifier stands for a type. The structs, unions, classes and
  enumerations in it are numbered by their places in two lists.
* `Resolved.exists_standsFor`: what is resolved does, over lists that have what it comes to.
* `Environment.WellNamed`: the types of the lists have names, by which `Environment.labels` calls
  them.
* `Environment.Legible`: what is said of parameters and of parentheses on the way of a declaration
  can be read.
* `StandsFor.spelled`: the declaration of a name with an identifier lexes to the tokens of the type
  that it stands for. The induction is on how the identifier stands for the type, with one lemma for
  each kind of record.
-/

namespace TypeLedger.Environment

/-! ## 1. The type that an identifier stands for -/

/-- The identifier stands for the type, with the qualifiers `quals` on top. Structs, unions and
classes are numbered by their places in `rs`, enumerations by those in `es`. -/
inductive StandsFor (env : Environment) (rs es : List TypeId) : Qualifiers → TypeId → CType → Prop
  | reserved {quals : Qualifiers} {i : TypeId} {record : TypeRecord} {s : String}
    (hr : env.lookup? i = some record) (hb : record.body = .reserved s) :
    StandsFor env rs es quals i (.builtin (quals.union record.quals) s)
  | qualified {quals : Qualifiers} {i j : TypeId} {record : TypeRecord} {t : CType}
    (hr : env.lookup? i = some record) (hb : record.body = .qualified j)
    (h : StandsFor env rs es (quals.union record.quals) j t) : StandsFor env rs es quals i t
  | pointer {quals : Qualifiers} {i j : TypeId} {record : TypeRecord} {kind : PointerKind}
    {t : CType} (hr : env.lookup? i = some record) (hb : record.body = .pointer kind j)
    (h : StandsFor env rs es .none j t) :
    StandsFor env rs es quals i (.pointer (quals.union record.quals) kind t)
  | array {quals : Qualifiers} {i j : TypeId} {record : TypeRecord} {n : ArraySize} {t : CType}
    (hr : env.lookup? i = some record) (hb : record.body = .array n j)
    (h : StandsFor env rs es .none j t) :
    StandsFor env rs es quals i (.array (quals.union record.quals) n t)
  | function {quals : Qualifiers} {i j : TypeId} {record : TypeRecord} {v : Bool} {t : CType}
    {args : List (Param × CType)} (hr : env.lookup? i = some record)
    (hb : record.body = .function j (args.map Prod.fst) v) (h : StandsFor env rs es .none j t)
    (hargs : ∀ a ∈ args, StandsFor env rs es .none a.1.type a.2) :
    StandsFor env rs es quals i
      (.function (quals.union record.quals) t (args.map Prod.snd) v)
  | record {quals : Qualifiers} {i : TypeId} {record : TypeRecord} {key : RecordKey} {tag : Tag}
    {complete : Bool} {ms : List Member} {bs : List BaseEdge} {n : Nat}
    (hr : env.lookup? i = some record) (hb : record.body = .aggregate key tag complete ms bs)
    (hn : rs[n]? = some i) : StandsFor env rs es quals i (.record (quals.union record.quals) ⟨n⟩)
  | enumeration {quals : Qualifiers} {i : TypeId} {record : TypeRecord} {tag : Tag} {n : Nat}
    (hr : env.lookup? i = some record) (hb : record.body = .enumeration tag)
    (hn : es[n]? = some i) :
    StandsFor env rs es quals i (.enumeration (quals.union record.quals) ⟨n⟩)

variable {env : Environment} {rs es : List TypeId} {quals : Qualifiers} {i j : TypeId} {t : CType}
  {k : Naming}

/-- What stands for a type is resolved. -/
theorem StandsFor.resolved (h : env.StandsFor rs es quals i t) : env.Resolved i := by
  induction h with
  | reserved hr hb => exact .reserved (by rw [body?_of_lookup hr, hb])
  | qualified hr hb _ ih => exact .qualified (by rw [body?_of_lookup hr, hb]) ih
  | pointer hr hb _ ih => exact .pointer (by rw [body?_of_lookup hr, hb]) ih
  | array hr hb _ ih => exact .array (by rw [body?_of_lookup hr, hb]) ih
  | function hr hb _ _ ih ihs =>
    refine .function (by rw [body?_of_lookup hr, hb]) ih fun p hp => ?_
    obtain ⟨a, ha, rfl⟩ := List.mem_map.1 hp
    exact ihs a ha
  | record hr hb _ => exact .aggregate (by rw [body?_of_lookup hr, hb])
  | enumeration hr hb _ => exact .enumeration (by rw [body?_of_lookup hr, hb])

/-- The structs, unions and classes that a declaration comes to (`Onward`) are in the first list,
the enumerations in the second. -/
structure Over (env : Environment) (rs es : List TypeId) (i : TypeId) : Prop where
  records : ∀ j key tag complete ms bs, Relation.ReflTransGen env.Onward i j →
    env.body? j = some (.aggregate key tag complete ms bs) → j ∈ rs
  enumerations : ∀ j tag, Relation.ReflTransGen env.Onward i j →
    env.body? j = some (.enumeration tag) → j ∈ es

theorem Over.onward (h : env.Over rs es i) {body : TypeBody} (hb : env.body? i = some body)
    (hj : j ∈ body.onward) : env.Over rs es j :=
  ⟨fun f key tag complete ms bs hf => h.records f key tag complete ms bs (.head ⟨body, hb, hj⟩ hf),
    fun f tag hf => h.enumerations f tag (.head ⟨body, hb, hj⟩ hf)⟩

/-- What is resolved stands for a type, `Over` lists that have what it comes to. -/
theorem Resolved.exists_standsFor (h : env.Resolved i) (hover : env.Over rs es i) :
    ∃ t, env.StandsFor rs es quals i t := by
  refine h.along (P := fun i => ∀ quals, env.Over rs es i → ∃ t, env.StandsFor rs es quals i t)
    (fun i body hb hwords _ ih quals hover => ?_) quals hover
  have hnext : ∀ j ∈ body.onward, ∀ quals, ∃ t, env.StandsFor rs es quals j t :=
    fun j hj quals => ih j hj quals (hover.onward hb hj)
  obtain ⟨record, hr, hbody⟩ := Option.map_eq_some_iff.1 hb
  cases body with
  | reserved s => exact ⟨_, .reserved hr hbody⟩
  | aggregate key tag complete ms bs =>
    obtain ⟨n, hn⟩ := List.getElem?_of_mem (hover.records i key tag complete ms bs .refl hb)
    exact ⟨_, .record hr hbody hn⟩
  | enumeration tag =>
    obtain ⟨n, hn⟩ := List.getElem?_of_mem (hover.enumerations i tag .refl hb)
    exact ⟨_, .enumeration hr hbody hn⟩
  | qualified j =>
    obtain ⟨t, ht⟩ := hnext j (List.mem_singleton_self _) (quals.union record.quals)
    exact ⟨t, .qualified hr hbody ht⟩
  | pointer kind j =>
    obtain ⟨t, ht⟩ := hnext j (List.mem_singleton_self _) .none
    exact ⟨_, .pointer hr hbody ht⟩
  | array n j =>
    obtain ⟨t, ht⟩ := hnext j (List.mem_singleton_self _) .none
    exact ⟨_, .array hr hbody ht⟩
  | function j ps v =>
    obtain ⟨t, ht⟩ := hnext j List.mem_cons_self .none
    have hparam : ∀ p ∈ ps, ∃ t, env.StandsFor rs es .none p.type t := fun p hp =>
      hnext p.type (List.mem_cons_of_mem _ (List.mem_map_of_mem hp)) .none
    have : Nonempty CType := ⟨t⟩
    choose! f hf using hparam
    have hfst : (ps.map fun p => (p, f p)).map Prod.fst = ps := by
      rw [List.map_map]
      exact List.map_id _
    refine ⟨_, .function hr (by rw [hbody, hfst]) ht fun a ha => ?_⟩
    obtain ⟨p, hp, rfl⟩ := List.mem_map.1 ha
    exact hf p hp
  | other words => exact absurd rfl (hwords words)

/-- The records and enumerations of the type have places in the lists. -/
theorem StandsFor.writable (h : env.StandsFor rs es quals i t)
    (ht : t.Writable (fun _ => True) fun _ => True) :
    t.Writable (·.index < rs.length) (·.index < es.length) := by
  induction h with
  | reserved _ _ => cases ht with | builtin hs => exact .builtin hs
  | qualified _ _ _ ih => exact ih ht
  | pointer _ _ _ ih => cases ht with | pointer hk href ht => exact .pointer hk href (ih ht)
  | array _ _ _ ih =>
    generalize Qualifiers.union _ _ = q at ht ⊢
    cases ht with | array ht => exact .array (ih ht)
  | function _ _ _ _ ih ihs =>
    generalize Qualifiers.union _ _ = q at ht ⊢
    cases ht with
    | function ht hps hv =>
      refine .function (ih ht) (fun p hp => ?_) hv
      obtain ⟨a, ha, rfl⟩ := List.mem_map.1 hp
      exact ihs a ha (hps _ hp)
  | record _ _ hn => exact .record (List.getElem?_eq_some_iff.1 hn).1
  | enumeration _ _ hn => exact .enumeration (List.getElem?_eq_some_iff.1 hn).1

/-! ## 2. Names -/

/-- What the types of the lists are called. -/
def labels (env : Environment) (k : Naming) (rs es : List TypeId) : Labels where
  record id := (rs[id.index]?.map (env.recordLabel k)).getD (.structKey, "")
  enumeration id := (es[id.index]?.map (env.enumLabel k)).getD ""

/-- The lists are of structs, unions and classes, and of enumerations, which have identifiers for
names (`isIdentifier`). No two of the former share a name. -/
structure WellNamed (env : Environment) (k : Naming) (rs es : List TypeId) : Prop where
  records : ∀ i ∈ rs, isIdentifier (env.recordLabel k i).2 = true
  enumerations : ∀ i ∈ es, isIdentifier (env.enumLabel k i) = true
  distinct : (rs.map fun i => (env.recordLabel k i).2).Nodup

instance (env : Environment) (k : Naming) (rs es : List TypeId) :
    Decidable (env.WellNamed k rs es) :=
  decidable_of_iff ((∀ i ∈ rs, isIdentifier (env.recordLabel k i).2 = true) ∧
      (∀ i ∈ es, isIdentifier (env.enumLabel k i) = true) ∧
      (rs.map fun i => (env.recordLabel k i).2).Nodup)
    ⟨fun ⟨hr, he, hd⟩ => ⟨hr, he, hd⟩, fun h => ⟨h.records, h.enumerations, h.distinct⟩⟩

theorem labels_record {n : Nat} (hn : rs[n]? = some i) :
    (env.labels k rs es).record ⟨n⟩ = env.recordLabel k i := by
  simp only [labels, hn, Option.map_some, Option.getD_some]

theorem labels_enumeration {n : Nat} (hn : es[n]? = some i) :
    (env.labels k rs es).enumeration ⟨n⟩ = env.enumLabel k i := by
  simp only [labels, hn, Option.map_some, Option.getD_some]

/-- What is called by an identifier is a struct, union or class that has this name. -/
theorem exists_of_recordLabel (h : isIdentifier (env.recordLabel k i).2 = true) :
    ∃ key tag complete ms bs, env.body? i = some (.aggregate key tag complete ms bs) ∧
      k.current? tag = some (env.recordLabel k i).2 ∧ (env.recordLabel k i).1 = key := by
  cases hb : env.body? i with
  | none =>
    rw [recordLabel, hb] at h
    cases h
  | some body =>
    cases body with
    | aggregate key tag complete ms bs =>
      have hlabel : env.recordLabel k i = (key, (k.current? tag).getD "") := by
        rw [recordLabel, hb]
      rw [hlabel] at h ⊢
      cases hc : k.current? tag with
      | none =>
        rw [hc] at h
        cases h
      | some n => exact ⟨key, tag, complete, ms, bs, rfl, hc, rfl⟩
    | _ =>
      rw [recordLabel, hb] at h
      cases h

/-- An enumeration that is called by an identifier has this name. -/
theorem current?_of_enumLabel {tag : Tag} (hb : env.body? i = some (.enumeration tag))
    (h : isIdentifier (env.enumLabel k i) = true) : k.current? tag = some (env.enumLabel k i) := by
  simp only [enumLabel, hb] at h ⊢
  cases hc : k.current? tag with
  | none =>
    rw [hc] at h
    cases h
  | some n => rfl

/-! ## 3. Parameters and parentheses -/

/-- What a declaration of the identifier comes to (`Onward`) can be read: parameters have
identifiers for names, if they have any; and where a pointer leads to a function or an array through
qualified types, these are fewer than the records that are looked at for parentheses
(`parenthesisDepth`). -/
structure Legible (env : Environment) (i : TypeId) : Prop where
  parameters : ∀ j t ps v, Relation.ReflTransGen env.Onward i j →
    env.body? j = some (.function t ps v) → ∀ p ∈ ps, ∀ n, p.name = some n → isIdentifier n = true
  pointers : ∀ p kind j f qs, Relation.ReflTransGen env.Onward i p →
    env.body? p = some (.pointer kind j) → env.QualifiedOf f qs j → env.IsTight f →
    qs.length < parenthesisDepth

theorem Legible.onward (h : env.Legible i) {body : TypeBody} (hb : env.body? i = some body)
    (hj : j ∈ body.onward) : env.Legible j :=
  ⟨fun f t ps v hf => h.parameters f t ps v (.head ⟨body, hb, hj⟩ hf),
    fun p kind j f qs hp => h.pointers p kind j f qs (.head ⟨body, hb, hj⟩ hp)⟩

/-- The two conditions where a declaration begins, and what it goes on to. -/
theorem legible_of_onward {body : TypeBody} (hb : env.body? i = some body)
    (hps : ∀ t ps v, body = .function t ps v → ∀ p ∈ ps, ∀ n, p.name = some n →
      isIdentifier n = true)
    (hpointer : ∀ kind j f qs, body = .pointer kind j → env.QualifiedOf f qs j → env.IsTight f →
      qs.length < parenthesisDepth)
    (h : ∀ j ∈ body.onward, env.Legible j) : env.Legible i := by
  have hnext : ∀ {j}, env.Onward i j → env.Legible j := by
    rintro j ⟨body', hb', hj⟩
    obtain rfl := Option.some.inj (hb.symm.trans hb')
    exact h j hj
  refine ⟨fun j t ps v hj hf => ?_, fun p kind j f qs hp hbody => ?_⟩
  · rcases Relation.ReflTransGen.cases_head hj with rfl | ⟨m, hm, hj⟩
    · exact hps t ps v (Option.some.inj (hb.symm.trans hf))
    · exact (hnext hm).parameters j t ps v hj hf
  · rcases Relation.ReflTransGen.cases_head hp with rfl | ⟨m, hm, hp⟩
    · exact hpointer kind j f qs (Option.some.inj (hb.symm.trans hbody))
    · exact (hnext hm).pointers p kind j f qs hp hbody

/-- A qualified type leads on; everything else leads to itself only. -/
theorem QualifiedOf.eq_nil {f : TypeId} {qs : List Qualifiers} (h : env.QualifiedOf f qs i)
    (hi : ∀ j, env.body? i ≠ some (.qualified j)) : qs = [] := by
  cases h with
  | here => rfl
  | qualified hr hb _ => exact absurd (by rw [body?_of_lookup hr, hb]) (hi _)

/-- A type binds tight if and only if its identifier leads to a function or an array through
qualified types. -/
theorem StandsFor.tight_cases (h : env.StandsFor rs es quals i t) :
    (t.isTight = true ∧ ∃ f qs, env.QualifiedOf f qs i ∧ env.IsTight f) ∨
      (t.isTight = false ∧ ∀ depth, env.bindsTighter depth i = false) := by
  have hloose : ∀ {i record}, env.lookup? i = some record →
      (∀ j, record.body ≠ .qualified j) → (∀ t ps v, record.body ≠ .function t ps v) →
      (∀ n t, record.body ≠ .array n t) → ∀ depth, env.bindsTighter depth i = false := by
    intro i record hr hq hf ha depth
    cases depth with
    | zero => rfl
    | succ depth =>
      rw [bindsTighter, body?_of_lookup hr]
      cases hb : record.body with
      | qualified j => exact absurd hb (hq j)
      | function t ps v => exact absurd hb (hf t ps v)
      | array n t => exact absurd hb (ha n t)
      | _ => rfl
  induction h with
  | reserved hr hb => exact .inr ⟨rfl, hloose hr (by simp [hb]) (by simp [hb]) (by simp [hb])⟩
  | pointer hr hb _ _ => exact .inr ⟨rfl, hloose hr (by simp [hb]) (by simp [hb]) (by simp [hb])⟩
  | record hr hb _ => exact .inr ⟨rfl, hloose hr (by simp [hb]) (by simp [hb]) (by simp [hb])⟩
  | enumeration hr hb _ =>
    exact .inr ⟨rfl, hloose hr (by simp [hb]) (by simp [hb]) (by simp [hb])⟩
  | array hr hb _ _ =>
    exact .inl ⟨rfl, _, _, .here, .inr ⟨_, _, by rw [body?_of_lookup hr, hb]⟩⟩
  | function hr hb _ _ _ _ =>
    exact .inl ⟨rfl, _, _, .here, .inl ⟨_, _, _, by rw [body?_of_lookup hr, hb]⟩⟩
  | qualified hr hb _ ih =>
    rcases ih with ⟨ht, f, qs, hq, hf⟩ | ⟨ht, hdepth⟩
    · exact .inl ⟨ht, f, _, .qualified hr hb hq, hf⟩
    · refine .inr ⟨ht, fun depth => ?_⟩
      cases depth with
      | zero => rfl
      | succ depth =>
        rw [bindsTighter, body?_of_lookup hr, hb]
        exact hdepth depth

/-- A pointer gets its parentheses. -/
theorem StandsFor.bindsTighter_eq (h : env.StandsFor rs es quals j t)
    (hseen : ∀ f qs, env.QualifiedOf f qs j → env.IsTight f → qs.length < parenthesisDepth) :
    env.bindsTighter parenthesisDepth j = t.isTight := by
  rcases h.tight_cases with ⟨ht, f, qs, hq, hf⟩ | ⟨ht, hdepth⟩
  · rw [ht, hq.bindsTighter hf, decide_eq_true (hseen f qs hq hf)]
  · rw [ht, hdepth]

/-! ## 4. Declarations -/

/-- A function is declared as its result is, around its parameters. -/
theorem declareWith_signature {record : TypeRecord} {v : Bool} {ps : List Param} {name : String}
    (hi : env.Resolved i) (hr : env.lookup? i = some record)
    (hb : record.body = .function j ps v) :
    env.declareWith [] quals i name = (do
      env.declareWith [] .none j (functionDeclarator (← env.declareParams [] ps) v name)) := by
  have hbody : env.body? i = some (.function j ps v) := by rw [body?_of_lookup hr, hb]
  have honward := hi.onward hbody
  have hresult : env.Resolved j := honward j List.mem_cons_self
  have hparam : ∀ p ∈ ps, p.type ∈ (TypeBody.function j ps v).onward := fun p hp =>
    List.mem_cons_of_mem _ (List.mem_map_of_mem hp)
  have hknown : env.signatureKnown j ps = true := by
    rw [signatureKnown, Bool.and_eq_true, List.all_eq_true]
    exact ⟨(hresult.resolves [] (List.forall_mem_nil _)).contains, fun p hp =>
      ((honward _ (hparam p hp)).resolves [] (List.forall_mem_nil _)).contains⟩
  have hparams : env.declareParams [i] ps = env.declareParams [] ps :=
    declareParams_congr fun p hp name =>
      declareWith_onward hi hbody (hparam p hp) (honward _ (hparam p hp))
  have hbehind : ∀ name, env.declareWith [i] .none j name = env.declareWith [] .none j name :=
    fun name => declareWith_onward hi hbody List.mem_cons_self hresult
  rw [declareWith_eq hr List.not_mem_nil, hb]
  simp only [hknown, ↓reduceIte, hparams, hbehind]

/-- The declaration of a name with the identifier, where nothing is left to be named, lexes to the
specifiers of the type and a declarator. A name that begins with an ampersand is given to no `&`
without qualifiers. -/
def SpellsOut (env : Environment) (k : Naming) (l : Labels) (quals : Qualifiers) (i : TypeId)
    (t : CType) : Prop :=
  ∀ (name : String) (X : List TokenKind), Spelled name X →
    (t.isAmpersand = true ∨ t.isTight = true → NoAmp name) →
    ∃ text D, env.declareWith [] quals i name k = (text, k) ∧ t.Words l X D ∧
      Spelled text (t.leaf.specifierKinds l ++ D)

theorem spelled_declareParams {l : Labels} {args : List (Param × CType)}
    (h : ∀ a ∈ args, env.SpellsOut k l .none a.1.type a.2)
    (hnames : ∀ a ∈ args, ∀ n, a.1.name = some n → isIdentifier n = true) :
    ∃ texts kss, env.declareParams [] (args.map Prod.fst) k = (texts, k) ∧
      CType.ParameterWords l (args.map Prod.snd) kss ∧ List.Forall₂ Spelled texts kss := by
  induction args with
  | nil => exact ⟨[], [], by rw [List.map_nil, declareParams]; rfl, rfl, .nil⟩
  | cons a args ih =>
    obtain ⟨ha, hrest⟩ := List.forall_mem_cons.1 h
    obtain ⟨hna, hnrest⟩ := List.forall_mem_cons.1 hnames
    obtain ⟨text, D, htext, hD, hspelled⟩ := ha _ _ (spelled_nameKinds hna) fun _ => noAmp_name hna
    obtain ⟨texts, kss, htexts, hkss, hall⟩ := ih hrest hnrest
    refine ⟨text :: texts, _, ?_, ⟨a.1.name, D, kss, hD, hkss, rfl⟩, .cons hspelled hall⟩
    rw [List.map_cons, declareParams]
    simp only [bind, StateT.bind, htext, htexts]
    rfl

/-- A tagged type that has its name is declared by its keyword and its name. -/
theorem spelled_taggedDeclaration {tag : Tag} {n keyword name : String}
    {word : TokenKind} {X : List TokenKind} (hcurrent : k.current? tag = some n)
    (hn : isIdentifier n = true) (hkeyword : Spelled keyword [word]) (hname : Spelled name X)
    (quals : Qualifiers) :
    ∃ text, taggedDeclaration quals keyword tag name k = (text, k) ∧
      Spelled text (quals.kinds ++ [word, .ident n] ++ X) := by
  have hspelled := spelled_ofWords (.cons quals.spelled_spelling
    (.cons hkeyword (.cons (spelled_identifier hn) (.cons hname .nil))))
  refine ⟨_, ?_, by simpa using hspelled⟩
  simp only [taggedDeclaration, bind, StateT.bind, Naming.name_of_current? hcurrent]
  rfl

/-! ## 5. One lemma for each kind of record -/

section

variable {l : Labels} {record : TypeRecord} (hr : env.lookup? i = some record)
include hr

theorem spellsOut_reserved {s : String} (hb : record.body = .reserved s)
    (hs : ∃ ws, BuiltinWord.canonical? ws = some s) :
    env.SpellsOut k l quals i (.builtin (quals.union record.quals) s) := by
  intro name X hname _
  refine ⟨_, X, ?_, rfl,
    spelled_words (Qualifiers.spelled_spelling _) (spelled_builtin hs) hname⟩
  rw [declareWith_eq hr List.not_mem_nil, hb]
  rfl

/-- A struct, union or class is declared by its label. -/
theorem spellsOut_record (hnamed : env.WellNamed k rs es) {key : RecordKey} {tag : Tag}
    {complete : Bool} {ms : List Member} {bs : List BaseEdge} {n : Nat}
    (hb : record.body = .aggregate key tag complete ms bs) (hn : rs[n]? = some i) :
    env.SpellsOut k (env.labels k rs es) quals i (.record (quals.union record.quals) ⟨n⟩) := by
  intro name X hname _
  have hident := hnamed.records i (List.mem_of_getElem? hn)
  obtain ⟨key', tag', complete', ms', bs', hbody, hcurrent, hkey⟩ := exists_of_recordLabel hident
  rw [body?_of_lookup hr, hb] at hbody
  cases hbody
  obtain ⟨text, htext, hspelled⟩ := spelled_taggedDeclaration hcurrent hident key.spelled_word hname
    (quals.union record.quals)
  refine ⟨text, X, ?_, rfl, ?_⟩
  · rw [declareWith_eq hr List.not_mem_nil, hb]
    exact htext
  · simpa only [CType.leaf, CType.specifierKinds, labels_record hn, hkey] using hspelled

/-- An enumeration is declared by its label. -/
theorem spellsOut_enumeration (hnamed : env.WellNamed k rs es) {tag : Tag} {n : Nat}
    (hb : record.body = .enumeration tag) (hn : es[n]? = some i) :
    env.SpellsOut k (env.labels k rs es) quals i
      (.enumeration (quals.union record.quals) ⟨n⟩) := by
  intro name X hname _
  have hident := hnamed.enumerations i (List.mem_of_getElem? hn)
  have hcurrent := current?_of_enumLabel (by rw [body?_of_lookup hr, hb]) hident
  obtain ⟨text, htext, hspelled⟩ := spelled_taggedDeclaration hcurrent hident spelled_enum hname
    (quals.union record.quals)
  refine ⟨text, X, ?_, rfl, ?_⟩
  · rw [declareWith_eq hr List.not_mem_nil, hb]
    exact htext
  · simpa only [CType.leaf, CType.specifierKinds, labels_enumeration hn] using hspelled

theorem SpellsOut.qualified (hb : record.body = .qualified j) (hj : env.Resolved j)
    (h : env.SpellsOut k l (quals.union record.quals) j t) : env.SpellsOut k l quals i t := by
  intro name X hname hamp
  rw [declareWith_qualified hr hj hb]
  exact h name X hname hamp

/-- A pointer puts its declarator around the name, with the parentheses that it needs. -/
theorem SpellsOut.pointer {kind : PointerKind} (hb : record.body = .pointer kind j)
    (hj : env.Resolved j) (htight : env.bindsTighter parenthesisDepth j = t.isTight)
    (href : kind.isReference = true → t.isReference = false) (h : env.SpellsOut k l .none j t) :
    env.SpellsOut k l quals i (.pointer (quals.union record.quals) kind t) := by
  intro name X hname hamp
  have htext : env.pointerDeclarator kind (quals.union record.quals) j name =
      pointerText t.isTight kind (quals.union record.quals) name := by
    rw [← htight]
    rfl
  have hamp' : kind = .lvalueReference → quals.union record.quals = .none → NoAmp name :=
    fun hk hq => hamp (.inl (by rw [hk, hq]; rfl))
  rw [declareWith_pointer hr hj hb, htext]
  refine h _ _ (spelled_pointerText hname hamp') fun ht => noAmp_pointerText ?_
  rcases ht with ht | ht
  · refine .inr (Bool.eq_false_iff.2 fun hkind => ?_)
    exact Bool.eq_false_iff.1 (href hkind) (CType.isReference_of_isAmpersand ht)
  · exact .inl ht

/-- An array hands its qualifiers on, so it may have none. -/
theorem SpellsOut.array {n : ArraySize} (hb : record.body = .array n j) (hj : env.Resolved j)
    (hnone : quals.union record.quals = .none) (h : env.SpellsOut k l .none j t) :
    env.SpellsOut k l quals i (.array .none n t) := by
  intro name X hname hamp
  rw [declareWith_array hr hj hb, hnone]
  exact h _ _ (spelled_arrayDeclarator n hname) fun _ => noAmp_arrayDeclarator n (hamp (.inr rfl))

/-- A function puts its parameters behind the name. -/
theorem SpellsOut.function {v : Bool} {args : List (Param × CType)}
    (hb : record.body = .function j (args.map Prod.fst) v) (hi : env.Resolved i)
    (h : env.SpellsOut k l .none j t)
    (hargs : ∀ a ∈ args, env.SpellsOut k l .none a.1.type a.2)
    (hnames : ∀ a ∈ args, ∀ n, a.1.name = some n → isIdentifier n = true)
    (hv : v = true ∨ args.map Prod.snd ≠ [.builtin .none "void"]) :
    env.SpellsOut k l quals i (.function .none t (args.map Prod.snd) v) := by
  intro name X hname hamp
  obtain ⟨texts, kss, htexts, hkss, hall⟩ := spelled_declareParams hargs hnames
  obtain ⟨text, D, htext, hD, hspelled⟩ := h _ _ (spelled_functionDeclarator v hname hall)
    fun _ => noAmp_functionDeclarator v (hamp (.inr rfl))
  refine ⟨text, D, ?_, ⟨kss, hkss, fun hnot hvoid => ?_, hD⟩, hspelled⟩
  · rw [declareWith_signature hi hr hb]
    simp only [bind, StateT.bind, htexts]
    exact htext
  · rcases hv with rfl | hv
    · cases hnot
    · exact absurd hvoid hv

end

/-- **A declaration lexes to the type that the identifier stands for** (`StandsFor`). -/
theorem StandsFor.spelled (hnamed : env.WellNamed k rs es) (h : env.StandsFor rs es quals i t)
    (ht : t.Writable (fun _ => True) fun _ => True) (hi : env.Legible i) :
    env.SpellsOut k (env.labels k rs es) quals i t := by
  induction h with
  | reserved hr hb => cases ht with | builtin hs => exact spellsOut_reserved hr hb hs
  | record hr hb hn => exact spellsOut_record hr hnamed hb hn
  | enumeration hr hb hn => exact spellsOut_enumeration hr hnamed hb hn
  | qualified hr hb h ih =>
    have hbody := (body?_of_lookup hr).trans (congrArg some hb)
    exact .qualified hr hb h.resolved (ih ht (hi.onward hbody (List.mem_singleton_self _)))
  | @pointer quals i j record kind t hr hb h ih =>
    have hbody := (body?_of_lookup hr).trans (congrArg some hb)
    have htight := h.bindsTighter_eq fun f qs => hi.pointers i kind j f qs .refl hbody
    cases ht with
    | pointer hk href ht =>
      exact .pointer hr hb h.resolved htight href
        (ih ht (hi.onward hbody (List.mem_singleton_self _)))
  | array hr hb h ih =>
    have hbody := (body?_of_lookup hr).trans (congrArg some hb)
    generalize hq : Qualifiers.union _ _ = q at ht ⊢
    cases ht with
    | array ht =>
      exact .array hr hb h.resolved hq (ih ht (hi.onward hbody (List.mem_singleton_self _)))
  | @function quals i j record v t args hr hb h hargs ih ihs =>
    have hbody := (body?_of_lookup hr).trans (congrArg some hb)
    have hstands : env.StandsFor rs es quals i
        (.function (quals.union record.quals) t (args.map Prod.snd) v) := .function hr hb h hargs
    have hparam : ∀ a ∈ args, env.Legible a.1.type := fun a ha =>
      hi.onward hbody (List.mem_cons_of_mem _ (List.mem_map_of_mem (List.mem_map_of_mem ha)))
    have hnames : ∀ a ∈ args, ∀ n, a.1.name = some n → isIdentifier n = true := fun a ha =>
      hi.parameters i j _ v .refl hbody a.1 (List.mem_map_of_mem ha)
    generalize quals.union record.quals = q at ht ⊢
    cases ht with
    | function ht hps hv =>
      exact .function hr hb hstands.resolved (ih ht (hi.onward hbody List.mem_cons_self))
        (fun a ha => ihs a ha (hps _ (List.mem_map_of_mem ha)) (hparam a ha)) hnames hv

end TypeLedger.Environment
