import TypeLedger.Proofs.Printing.Asking
import TypeLedger.Proofs.Printing.Placeholder

/-!
# Identifiers that resolve

* `Environment.Resolves`: a declaration that has come to an identifier knows all that it meets from
  there on, and never meets an identifier that it has come through.
* `Environment.Closed`: what the definitions of an environment refer to resolves.
* `answers_declareWith`: the declaration of what resolves has no placeholder.
* `answers_lines`: the lines of a closed environment have no placeholder.
-/

namespace TypeLedger

namespace TypeBody

/-- What a declaration writes of it is `Free`: the spelling, the tag and the names of parameters. -/
def FreeWords : TypeBody → Prop
  | reserved s => TypeLedger.Free s
  | function _ ps _ => ∀ p ∈ ps, TypeLedger.Free (p.name.getD "")
  | aggregate _ tag _ _ _ => tag.Free
  | enumeration tag => tag.Free
  | qualified _ | pointer .. | array .. | other _ => True

instance (b : TypeBody) : Decidable b.FreeWords :=
  match b with
  | reserved s => inferInstanceAs (Decidable (TypeLedger.Free s))
  | function _ ps _ => inferInstanceAs (Decidable (∀ p ∈ ps, TypeLedger.Free (p.name.getD "")))
  | aggregate _ tag _ _ _ | enumeration tag => inferInstanceAs (Decidable tag.Free)
  | qualified _ | pointer .. | array .. | other _ => isTrue trivial

/-- The names and the spelling that stand in it are `Free`. -/
def Free : TypeBody → Prop
  | reserved s => TypeLedger.Free s
  | function _ ps _ => ∀ p ∈ ps, TypeLedger.Free (p.name.getD "")
  | aggregate _ tag _ ms _ => tag.Free ∧ ∀ m ∈ ms, TypeLedger.Free (m.name.getD "")
  | enumeration tag => tag.Free
  | qualified _ | pointer .. | array .. | other _ => True

theorem Free.words {b : TypeBody} (h : b.Free) : b.FreeWords := by
  cases b with
  | aggregate => exact h.1
  | reserved | function | enumeration => exact h
  | qualified | pointer | array | other => trivial

/-- It is that of a struct, a union or a class. -/
def IsAggregate (b : TypeBody) : Prop :=
  ∃ key tag complete ms bs, b = .aggregate key tag complete ms bs

end TypeBody

namespace Environment

/-- A declaration that has come to the identifier by the way `path` knows all that it meets from
there on: every identifier has a record, none has been met on the way to it, and none stands for a
type that is known by some words only. -/
inductive Resolves (env : Environment) : List TypeId → TypeId → Prop
  | step {path : List TypeId} {i : TypeId} {record : TypeRecord} (hr : env.lookup? i = some record)
    (hp : i ∉ path) (hw : ∀ words, record.body ≠ .other words)
    (h : ∀ j ∈ record.body.onward, Resolves env (i :: path) j) : Resolves env path i

/-- The names and the spellings of all records are `Free`. -/
def Free (env : Environment) : Prop := ∀ i record, env.lookup? i = some record → record.body.Free

/-- What declarations write of the records is free (`TypeBody.FreeWords`). -/
def FreeWords (env : Environment) : Prop :=
  ∀ i record, env.lookup? i = some record → record.body.FreeWords

theorem Free.words {env : Environment} (h : env.Free) : env.FreeWords :=
  fun i record hr => (h i record hr).words

/-- What definitions refer to resolves (`Resolves`): the types of members, and the bases, which are
structs, unions or classes themselves. -/
structure Closed (env : Environment) : Prop where
  members : ∀ i key tag complete ms bs,
    env.body? i = some (.aggregate key tag complete ms bs) → ∀ m ∈ ms, env.Resolves [] m.type
  bases : ∀ i body, env.body? i = some body → body.IsAggregate →
    ∀ e ∈ env.baseEdges i, ∃ body, env.body? e.base = some body ∧ body.IsAggregate

variable {env : Environment} {path : List TypeId} {i : TypeId}

theorem Resolves.contains (h : env.Resolves path i) : env.contains i = true := by
  cases h with
  | step hr _ _ _ =>
    rw [Environment.contains, hr]
    rfl

theorem Free.body? (h : env.Free) {body : TypeBody} (hb : env.body? i = some body) :
    body.Free := by
  obtain ⟨record, hr, rfl⟩ := Option.map_eq_some_iff.1 hb
  exact h i record hr

/-! ## 1. Declarations -/

theorem answers_taggedDeclaration (quals : Qualifiers) {keyword : String} {tag : Tag}
    {name : String} (hk : TypeLedger.Free keyword) (ht : tag.Free) (hn : TypeLedger.Free name) :
    Answers (taggedDeclaration quals keyword tag name) TypeLedger.Free := by
  refine answers_bind (answers_name ht) fun aggregate ha => answers_pure (free_ofWords ?_)
  intro w hw
  simp only [List.mem_cons, List.not_mem_nil, or_false] at hw
  rcases hw with rfl | rfl | rfl | rfl
  · exact free_spelling quals
  · exact hk
  · exact ha
  · exact hn

theorem answers_declareParams {ps : List Param}
    (h : ∀ p ∈ ps, ∀ name, TypeLedger.Free name →
      Answers (env.declareWith path .none p.type name) TypeLedger.Free)
    (hn : ∀ p ∈ ps, TypeLedger.Free (p.name.getD "")) :
    Answers (env.declareParams path ps) fun texts => ∀ t ∈ texts, TypeLedger.Free t := by
  induction ps with
  | nil =>
    rw [declareParams]
    exact answers_pure (List.forall_mem_nil _)
  | cons p ps ih =>
    obtain ⟨hp, hps⟩ := List.forall_mem_cons.1 h
    obtain ⟨hnp, hnps⟩ := List.forall_mem_cons.1 hn
    rw [declareParams]
    exact answers_bind (hp _ hnp) fun text ht => answers_bind (ih hps hnps) fun texts hts =>
      answers_pure (List.forall_mem_cons.2 ⟨ht, hts⟩)

/-- **The declaration of what `Resolves` has no placeholder.** The induction is on the way of the
declaration. -/
theorem answers_declareWith (he : env.FreeWords) (hi : env.Resolves path i) (quals : Qualifiers)
    {name : String} (hn : TypeLedger.Free name) :
    Answers (env.declareWith path quals i name) TypeLedger.Free := by
  induction hi generalizing quals name with
  | @step path i record hr hp hw h ih =>
    have hfree := he i record hr
    have hcontains : ∀ j ∈ record.body.onward, env.contains j = true := fun j hj =>
      (h j hj).contains
    rw [declareWith_eq hr hp]
    obtain ⟨id, q, body⟩ := record
    cases body with
    | reserved s =>
      refine answers_pure (free_ofWords fun w hw => ?_)
      simp only [List.mem_cons, List.not_mem_nil, or_false] at hw
      rcases hw with rfl | rfl | rfl
      · exact free_spelling _
      · exact hfree
      · exact hn
    | qualified base =>
      simp only [hcontains base (List.mem_singleton_self _), ↓reduceIte]
      exact ih base (List.mem_singleton_self _) _ hn
    | pointer kind pointee =>
      simp only [hcontains pointee (List.mem_singleton_self _), ↓reduceIte]
      exact ih pointee (List.mem_singleton_self _) _ (free_pointerDeclarator env kind _ pointee hn)
    | array size element =>
      simp only [hcontains element (List.mem_singleton_self _), ↓reduceIte]
      exact ih element (List.mem_singleton_self _) _ (free_arrayDeclarator size hn)
    | function result params variadic =>
      have hparam : ∀ p ∈ params, p.type ∈
          (TypeBody.function result params variadic).onward :=
        fun p hm => List.mem_cons_of_mem _ (List.mem_map_of_mem hm)
      have hknown : env.signatureKnown result params = true := by
        rw [signatureKnown, hcontains result List.mem_cons_self, Bool.true_and, List.all_eq_true]
        exact fun p hm => hcontains p.type (hparam p hm)
      simp only [hknown, ↓reduceIte]
      refine answers_bind (answers_declareParams (fun p hm text ht => ?_) hfree) fun texts ht => ?_
      · exact ih p.type (hparam p hm) .none ht
      · exact ih result List.mem_cons_self .none (free_functionDeclarator ht variadic hn)
    | aggregate key tag complete ms bs =>
      exact answers_taggedDeclaration _ (free_word key) hfree hn
    | enumeration tag => exact answers_taggedDeclaration _ (by decide +kernel) hfree hn
    | other words => exact absurd rfl (hw words)

theorem answers_declare (he : env.FreeWords) (hi : env.Resolves [] i) {name : String}
    (hn : TypeLedger.Free name) : Answers (env.declare i name) TypeLedger.Free :=
  answers_declareWith he hi .none hn

/-! ## 2. Definitions -/

theorem answers_memberText (he : env.Free) {m : Member} (hm : env.Resolves [] m.type)
    (hn : TypeLedger.Free (m.name.getD "")) : Answers (env.memberText m) TypeLedger.Free := by
  refine answers_bind (answers_declare he.words hm hn) fun text ht => answers_pure ?_
  refine (free_beside ht ?_).append_apart (by decide +kernel)
  cases m.bitWidth with
  | none => exact free_empty
  | some w =>
    have hw : Apart (toString w) := apart_toString w.toNat
    have hcolon : Apart ": " := by decide +kernel
    exact hw.free.apart_append hcolon

/-- The members of an aggregate resolve, and their names are free. -/
def Sayable (env : Environment) (ms : List Member) : Prop :=
  ∀ m ∈ ms, env.Resolves [] m.type ∧ TypeLedger.Free (m.name.getD "")

theorem answers_classMembers (he : env.Free) {ms : List Member} (hms : env.Sayable ms)
    (current : Option Access) :
    Answers (env.classMembers current ms) fun texts => ∀ t ∈ texts, TypeLedger.Free t := by
  induction ms generalizing current with
  | nil => exact answers_pure (List.forall_mem_nil _)
  | cons m ms ih =>
    obtain ⟨⟨hm, hn⟩, hrest⟩ := List.forall_mem_cons.1 hms
    rw [classMembers]
    split
    · refine answers_bind (ih hrest current) fun texts hts =>
        answers_pure (List.forall_mem_cons.2 ⟨?_, hts⟩)
      decide +kernel
    · rename_i access _
      refine answers_bind (answers_memberText he hm hn) fun text ht =>
        answers_bind (ih hrest (some access)) fun texts hts => answers_pure fun t hmem => ?_
      rcases List.mem_append.1 hmem with hlabel | hmem
      · split at hlabel
        · cases hlabel
        · rw [List.mem_singleton.1 hlabel]
          exact (free_accessWord access).append_apart (by decide +kernel)
      · exact List.forall_mem_cons.2 ⟨ht, hts⟩ t hmem

theorem answers_bodyTexts (he : env.Free) {ms : List Member} (hms : env.Sayable ms)
    (key : RecordKey) :
    Answers (env.bodyTexts key ms) fun texts => ∀ t ∈ texts, TypeLedger.Free t := by
  have hplain : Answers (ms.mapM env.memberText) fun texts => ∀ t ∈ texts, TypeLedger.Free t :=
    answers_mapM fun m hm => answers_memberText he (hms m hm).1 (hms m hm).2
  cases key with
  | classKey => exact answers_classMembers he hms none
  | structKey => exact hplain
  | unionKey => exact hplain

theorem answers_edgeText (he : env.Free) {e : BaseEdge} {body : TypeBody}
    (hb : env.body? e.base = some body) (ha : body.IsAggregate) :
    Answers (env.edgeText e) TypeLedger.Free := by
  obtain ⟨key, tag, complete, ms, bs, rfl⟩ := ha
  have hname : Answers (env.baseName e.base) TypeLedger.Free := by
    rw [baseName, hb]
    exact answers_name (he.body? hb).1
  refine answers_bind hname fun name hn => answers_pure (free_ofWords fun w hw => ?_)
  simp only [List.mem_cons, List.not_mem_nil, or_false] at hw
  rcases hw with rfl | rfl | rfl
  · exact free_accessWord e.access
  · split <;> decide +kernel
  · exact hn

theorem answers_baseClauseText (he : env.Free)
    (hb : ∀ e ∈ env.baseEdges i, ∃ body, env.body? e.base = some body ∧ body.IsAggregate)
    (key : RecordKey) :
    Answers (env.baseClauseText key i) fun texts => ∀ t ∈ texts, TypeLedger.Free t := by
  have hbases : Answers (env.basesText i) TypeLedger.Free :=
    answers_bind (answers_mapM fun e hm => by
      obtain ⟨body, hbody, ha⟩ := hb e hm
      exact answers_edgeText he hbody ha) fun texts hts => answers_pure (free_join hts)
  have hnone : Answers (pure []) fun texts => ∀ t ∈ texts, TypeLedger.Free t :=
    answers_pure (List.forall_mem_nil _)
  cases key with
  | classKey =>
    refine answers_bind hbases fun text ht => answers_pure fun t hmem => ?_
    split at hmem
    · cases hmem
    · simp only [List.mem_cons, List.not_mem_nil, or_false] at hmem
      rcases hmem with rfl | rfl
      · decide +kernel
      · exact ht
  | structKey => exact hnone
  | unionKey => exact hnone

/-- What an optional text says is free. -/
def FreeOption (text : Option String) : Prop := ∀ t, text = some t → TypeLedger.Free t

theorem freeOption_none : FreeOption none := by
  intro t h
  cases h

theorem freeOption_some {t : String} (h : TypeLedger.Free t) : FreeOption (some t) := by
  intro u hu
  obtain rfl := Option.some.inj hu
  exact h

/-- **A definition has no placeholder** in a `Closed` environment. -/
theorem answers_define? (he : env.Free) (hc : env.Closed) (i : TypeId) :
    Answers (env.define? i) FreeOption := by
  unfold define?
  split
  · rename_i key tag complete ms bs hb
    have hfree := he.body? hb
    have hms : env.Sayable ms := fun m hm =>
      ⟨hc.members i key tag complete ms bs hb m hm, hfree.2 m hm⟩
    refine answers_bind (answers_name hfree.1) fun name hn =>
      answers_bind (answers_baseClauseText he (hc.bases i _ hb ⟨_, _, _, _, _, rfl⟩) key)
        fun bases hbases => answers_bind (answers_bodyTexts he hms key)
          fun texts hts => answers_pure (freeOption_some (free_ofWords fun w hw => ?_))
    simp only [List.mem_append, List.mem_cons, List.not_mem_nil, or_false] at hw
    rcases hw with ((((rfl | rfl) | hw) | rfl) | hw) | rfl
    · exact free_word key
    · exact hn
    · exact hbases w hw
    · decide +kernel
    · exact hts w hw
    · decide +kernel
  · rename_i tag hb
    exact answers_bind (answers_name (he.body? hb)) fun _ _ => answers_pure freeOption_none
  · exact answers_pure freeOption_none

theorem answers_forward? (he : env.Free) (i : TypeId) : Answers (env.forward? i) FreeOption := by
  unfold forward?
  split
  · rename_i key tag complete ms bs hb
    refine answers_bind (answers_name (he.body? hb).1) fun name hn =>
      answers_pure (freeOption_some ?_)
    exact free_beside (free_word key) (hn.append_apart (by decide +kernel))
  · exact answers_pure freeOption_none

/-! ## 3. Lines -/

theorem answers_textsOf {f : TypeId → StateM Naming (Option String)}
    (hf : ∀ i, Answers (f i) FreeOption) (ids : List TypeId) :
    Answers (textsOf f ids) fun texts => ∀ p ∈ texts, TypeLedger.Free p.2 := by
  induction ids with
  | nil => exact answers_pure (List.forall_mem_nil _)
  | cons i ids ih =>
    refine answers_bind (hf i) fun text ht => answers_bind ih fun texts hts =>
      answers_pure fun p hp => ?_
    rcases List.mem_append.1 hp with hp | hp
    · rw [Option.toList_map] at hp
      obtain ⟨t, hmem, rfl⟩ := List.mem_map.1 hp
      exact ht t (Option.mem_toList.1 hmem)
    · exact hts p hp

theorem answers_declareSymbols (he : env.Free) {symbols : List Symbol}
    (h : ∀ s ∈ symbols, env.Resolves [] s.type ∧ TypeLedger.Free (s.name.getD "")) :
    Answers (env.declareSymbols symbols) fun texts => ∀ t ∈ texts, TypeLedger.Free t := by
  refine answers_mapM fun s hs => answers_bind (answers_declare he.words (h s hs).1 (h s hs).2)
    fun text ht => answers_pure ?_
  exact ht.append_apart (by decide +kernel)

/-- **The lines of a `Closed` environment have no placeholder,** if its symbols resolve. -/
theorem answers_lines (he : env.Free) (hc : env.Closed) {symbols : List Symbol}
    (h : ∀ s ∈ symbols, env.Resolves [] s.type ∧ TypeLedger.Free (s.name.getD "")) :
    Answers (renderEnvironment env symbols) fun r => ∀ l ∈ r.lines, TypeLedger.Free l := by
  refine answers_bind (answers_textsOf (answers_forward? he) _) fun forwards hf =>
    answers_bind (answers_textsOf (answers_define? he hc) _) fun definitions hd =>
      answers_bind (answers_declareSymbols he h) fun texts ht => answers_pure fun l hl => ?_
  rcases List.mem_append.1 hl with hl | hl
  · rcases List.mem_append.1 hl with hl | hl
    · obtain ⟨p, hp, rfl⟩ := List.mem_map.1 hl
      exact hf p hp
    · obtain ⟨p, hp, rfl⟩ := List.mem_map.1 hl
      exact hd p hp
  · exact ht l hl

end Environment

end TypeLedger
