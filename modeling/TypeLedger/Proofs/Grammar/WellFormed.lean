import Mathlib
import TypeLedger.CType.Reach
import TypeLedger.CType.Parts
import TypeLedger.Proofs.Grammar.Keeps

/-!
# The context that a source leaves

* `CType.Over`: every record and every enumeration that occurs in a type is declared in a context.
* `Context.WellFormed`: what records say is over their context, their bases are records without
  qualifiers, and no tag is given twice.
* `Context.WellFormed.classify_ne`: nothing that types over a well-formed context lead to is
  classified as an unknown record.
* `wellFormed_parseSource`: the context that a source leaves is well-formed, and the types that the
  source declares or names are over it.
-/

namespace TypeLedger

variable {V : Vocabulary} {ctx : Context}

/-! ## 1. Types over a context -/

/-- The context has declared a record or an enumeration. -/
def Context.Declared (ctx : Context) : Tagged → Prop
  | .record id => ∃ d, ctx.record? id = some d
  | .enumeration id => ∃ e, ctx.enum? id = some e

/-- Every record and every enumeration that occurs in the type (`mentions`) is `Declared`. -/
def CType.Over (ctx : Context) (t : CType) : Prop :=
  ∀ x ∈ t.mentions, ctx.Declared x

/-- What the records of a context say is over the context (`CType.Over`). The bases are records, and
a tag belongs to one record and to one enumeration at most. -/
structure Context.WellFormed (ctx : Context) : Prop where
  members : ∀ id d, ctx.record? id = some d → ∀ m ∈ d.members.getD [], m.type.Over ctx
  bases : ∀ id d, ctx.record? id = some d →
    ∀ b ∈ d.bases, ∃ id', b.type = .record .none id' ∧ ctx.Declared (.record id')
  recordTags : ∀ id id' d d' n, ctx.record? id = some d → ctx.record? id' = some d' →
    d.name = some n → d'.name = some n → id = id'
  enumTags : ∀ id id' e e' n, ctx.enum? id = some e → ctx.enum? id' = some e' →
    e.name = some n → e'.name = some n → id = id'

namespace CType

theorem mem_mentionsAll {ts : List CType} {x : Tagged} :
    x ∈ mentionsAll ts ↔ ∃ t ∈ ts, x ∈ t.mentions := by
  induction ts with
  | nil => simp [mentionsAll]
  | cons t ts ih => simp [mentionsAll, ih]

/-- What is spelt over a context is over it. -/
theorem Spelt.over {t : CType} (h : t.Spelt V ctx) : t.Over ctx := by
  induction h with
  | builtin => exact fun x hx => (nomatch hx)
  | record hid =>
    intro x hx
    obtain rfl := List.mem_singleton.1 hx
    exact ⟨_, List.getElem?_eq_getElem hid⟩
  | enumeration hid =>
    intro x hx
    obtain rfl := List.mem_singleton.1 hx
    exact ⟨_, List.getElem?_eq_getElem hid⟩
  | pointer _ _ ih | array _ ih | synonym _ ih | complex _ _ ih => exact ih
  | function _ _ ih ihs =>
    intro x hx
    rcases List.mem_append.1 hx with hx | hx
    · exact ih x hx
    · obtain ⟨p, hp, hx⟩ := mem_mentionsAll.1 hx
      exact ihs p hp x hx

@[simp] theorem mentions_withQuals (q : Qualifiers) (t : CType) :
    (t.withQuals q).mentions = t.mentions := by
  cases t <;> rfl

mutual

/-- The canonical form `mentions` what the type mentions. -/
theorem mentions_desugar : ∀ t : CType, t.desugar.mentions = t.mentions
  | null _ | builtin _ _ | record _ _ | enumeration _ _ | dependent _ _ => rfl
  | synonym _ _ t => by
    rw [desugar, qualified, mentions_withQuals, mentions_desugar t, mentions]
  | pointer _ _ t | array _ _ t | complex _ t | vector _ _ t => mentions_desugar t
  | function _ r ps _ => by
    rw [desugar, mentions, mentions, mentions_desugar r, mentionsAll_desugarAll ps]

theorem mentionsAll_desugarAll : ∀ ts : List CType, mentionsAll (desugarAll ts) = mentionsAll ts
  | [] => rfl
  | t :: ts => by
    rw [desugarAll, mentionsAll, mentionsAll, mentions_desugar t, mentionsAll_desugarAll ts]

end

mutual

/-- A part of a type `mentions` no more than the type. -/
theorem mentions_of_mem_parts : ∀ {t u : CType}, u ∈ t.parts → u.mentions ⊆ t.mentions
  | null _, u, h | builtin _ _, u, h | record _ _, u, h | enumeration _ _, u, h
  | dependent _ _, u, h => by
    simp only [parts, List.mem_cons, List.not_mem_nil, or_false] at h
    rcases h with rfl | rfl <;> exact List.Subset.refl _
  | pointer _ _ t, u, h | array _ _ t, u, h | synonym _ _ t, u, h | complex _ t, u, h
  | vector _ _ t, u, h => by
    simp only [parts, List.mem_cons] at h
    rcases h with rfl | rfl | h
    · exact List.Subset.refl _
    · exact List.Subset.refl _
    · have hsub : u.mentions ⊆ t.mentions := mentions_of_mem_parts h
      exact hsub
  | function _ r ps _, u, h => by
    simp only [parts, List.mem_cons, List.mem_append] at h
    rcases h with rfl | rfl | h | h
    · exact List.Subset.refl _
    · exact List.Subset.refl _
    · exact List.subset_append_of_subset_left _ (mentions_of_mem_parts h)
    · exact List.subset_append_of_subset_right _ (mentions_of_mem_partsAll h)

theorem mentions_of_mem_partsAll :
    ∀ {ts : List CType} {u : CType}, u ∈ partsAll ts → u.mentions ⊆ mentionsAll ts
  | [], _, h => by cases h
  | t :: ts, u, h => by
    rcases List.mem_append.1 h with h | h
    · exact List.subset_append_of_subset_left _ (mentions_of_mem_parts h)
    · exact List.subset_append_of_subset_right _ (mentions_of_mem_partsAll h)

end

/-- A type `Over` a context is never classified as a record that the context does not know. -/
theorem Over.classify_ne {t : CType} (h : t.Over ctx) (words : String) :
    ctx.classify t ≠ .other "unknownRecordType" words := by
  cases t with
  | record q id =>
    obtain ⟨d, hd⟩ := h (.record id) (List.mem_singleton_self _)
    rw [Context.classify, hd]
    intro he
    cases he
  | null | dependent | synonym | complex | vector =>
    intro he
    have htag : _ = "unknownRecordType" := (Shape.other.inj he).1
    exact absurd htag (by decide)
  | builtin | pointer | array | function | enumeration =>
    intro he
    cases he

end CType

/-! ## 2. Well-formed contexts -/

namespace Context

/-- A record and an enumeration are found under their tags, so the tags are told apart. -/
theorem Tidy.wellFormed (h : ctx.Tidy V) : ctx.WellFormed where
  members id d hd m hm := ((h.records id d hd).member hm).type.over
  bases id d hd b hb := by
    obtain ⟨id', hb', hid⟩ := (h.records id d hd).bases b hb
    exact ⟨id', hb', _, List.getElem?_eq_getElem hid⟩
  recordTags id id' d d' n hd hd' hn hn' := by
    have hf := (h.tags id d n hd hn).1
    rw [(h.tags id' d' n hd' hn').1] at hf
    exact (Option.some.inj hf).symm
  enumTags id id' e e' n he he' hn hn' := by
    have hf := (h.enumTags id e n he hn).1
    rw [(h.enumTags id' e' n he' hn').1] at hf
    exact (Option.some.inj hf).symm

theorem WellFormed.over_memberTypes (h : ctx.WellFormed) : ∀ t ∈ ctx.memberTypes, t.Over ctx := by
  intro t ht
  obtain ⟨d, hd, ht⟩ := List.mem_flatMap.1 ht
  obtain ⟨i, hi⟩ := List.mem_iff_getElem?.1 hd
  have hrec : ctx.record? ⟨i⟩ = some d := hi
  rcases List.mem_append.1 ht with ht | ht
  · obtain ⟨m, hm, rfl⟩ := List.mem_map.1 ht
    exact h.members ⟨i⟩ d hrec m hm
  · obtain ⟨b, hb, rfl⟩ := List.mem_map.1 ht
    obtain ⟨id', hb', hid'⟩ := h.bases ⟨i⟩ d hrec b hb
    intro x hx
    rw [hb'] at hx
    obtain rfl := List.mem_singleton.1 hx
    exact hid'

/-- **`Context.classify` knows every record** that types over a well-formed context lead to. -/
theorem WellFormed.classify_ne (h : ctx.WellFormed) {ts : List CType} (hts : ∀ t ∈ ts, t.Over ctx) :
    ∀ u ∈ ctx.closure ts, ∀ words, ctx.classify u ≠ .other "unknownRecordType" words := by
  intro u hu
  obtain ⟨t, ht, hp⟩ := List.mem_flatMap.1 hu
  have hover : t.Over ctx := by
    rcases List.mem_append.1 ht with ht | ht
    · exact hts t ht
    · exact h.over_memberTypes t ht
  refine CType.Over.classify_ne fun x hx => hover x ?_
  rw [← CType.mentions_desugar]
  exact CType.mentions_of_mem_parts hp hx

end Context

/-! ## 3. Source texts -/

/-- What reading a source text leaves is `Tidy`, the names that stand for types included. -/
theorem tidy_scope_parseBytes {ctx : Context} (hc : ctx.Tidy .all) {bytes : List UInt8}
    {ds : List Declaration} {sc : Scope} (h : parseBytes bytes ctx = .ok (ds, sc)) :
    sc.Tidy .all ∧ DeclarationsTidy .all sc.context ds := by
  unfold parseBytes at h
  cases ht : tokenize bytes with
  | error x => rw [ht] at h; cases h
  | ok v =>
    rw [ht] at h
    have hsc : Scope.Tidy .all { context := ctx } := ⟨hc, fun n t hn => (nomatch hn)⟩
    obtain ⟨hl, hds⟩ := tidy_declarations hsc (Vocabulary.covers_all (worded_tokenize ht)) h
    exact ⟨hl.tidy, hds⟩

variable {source : String} {ds : List Declaration} {sc : Scope}

/-- **The context that a source leaves is `Context.WellFormed`.** The declared types and the types
that names stand for are over it (`CType.Over`), and `Context.classify` takes nothing that they lead
to for an unknown record. -/
theorem wellFormed_parseSource (h : parseSource source = .ok (ds, sc)) :
    sc.context.WellFormed ∧
      ∀ t, (∃ d ∈ ds, d.type = t) ∨ (∃ n, sc.typeName? n = some t) →
        t.Over sc.context ∧
          ∀ u ∈ sc.context.closure [t], ∀ words,
            sc.context.classify u ≠ .other "unknownRecordType" words := by
  obtain ⟨htidy, hds⟩ := tidy_scope_parseBytes Context.tidy_empty h
  have hwf := htidy.context.wellFormed
  refine ⟨hwf, fun t ht => ?_⟩
  have hover : t.Over sc.context := by
    rcases ht with ⟨d, hd, rfl⟩ | ⟨n, hn⟩
    · exact (hds d hd).type.over
    · exact (htidy.names n t hn).over
  exact ⟨hover, hwf.classify_ne (List.forall_mem_singleton.2 hover)⟩

/-- A base named by a typedef, and tags that are first mentioned in the body of their own record, in
a parameter list and in a member. -/
def tangledSource : String :=
  "class B \x7b\x7d; typedef const class B T; class D : T \x7b D *d; int f(struct S *p); " ++
    "enum E e; \x7d;"

/-- The scope that it leaves: the base is the record itself, and the tag of the parameter is
declared for the whole source. -/
def tangledScope : Scope where
  names := [("B", .record .none ⟨0⟩), ("T", .synonym .none "T" (.record { isConst := true } ⟨0⟩)),
    ("D", .record .none ⟨1⟩)]
  context :=
    { records :=
        [⟨.classKey, some "B", some [], []⟩,
          ⟨.classKey, some "D", some
            [⟨some "d", .pointer .none .pointer (.record .none ⟨1⟩), some .priv, none⟩,
              ⟨some "f", .function .none (.builtin .none "int")
                [.pointer .none .pointer (.record .none ⟨2⟩)] false, some .priv, none⟩,
              ⟨some "e", .enumeration .none ⟨0⟩, some .priv, none⟩],
            [⟨.record .none ⟨0⟩, .priv, false⟩]⟩,
          ⟨.structKey, some "S", none, []⟩]
      enums := [⟨some "E"⟩] }

theorem wellFormed_tangled :
    ∃ ds, parseSource tangledSource = .ok (ds, tangledScope) ∧ tangledScope.context.WellFormed ∧
      ∀ t, (∃ d ∈ ds, d.type = t) ∨ (∃ n, tangledScope.typeName? n = some t) →
        t.Over tangledScope.context ∧
          ∀ u ∈ tangledScope.context.closure [t], ∀ words,
            tangledScope.context.classify u ≠ .other "unknownRecordType" words := by
  have htokens : tokenize tangledSource.toUTF8.toList = .ok
      ([⟨.keyword (.record .classKey), ⟨1, 1⟩⟩, ⟨.ident "B", ⟨1, 7⟩⟩, ⟨.mark .braceOpen, ⟨1, 9⟩⟩,
        ⟨.mark .braceClose, ⟨1, 10⟩⟩, ⟨.mark .semicolon, ⟨1, 11⟩⟩,
        ⟨.keyword (.storage .typeSynonym), ⟨1, 13⟩⟩, ⟨.keyword (.qualifier .constant), ⟨1, 21⟩⟩,
        ⟨.keyword (.record .classKey), ⟨1, 27⟩⟩, ⟨.ident "B", ⟨1, 33⟩⟩, ⟨.ident "T", ⟨1, 35⟩⟩,
        ⟨.mark .semicolon, ⟨1, 36⟩⟩, ⟨.keyword (.record .classKey), ⟨1, 38⟩⟩,
        ⟨.ident "D", ⟨1, 44⟩⟩, ⟨.mark .colon, ⟨1, 46⟩⟩, ⟨.ident "T", ⟨1, 48⟩⟩,
        ⟨.mark .braceOpen, ⟨1, 50⟩⟩, ⟨.ident "D", ⟨1, 52⟩⟩, ⟨.mark .star, ⟨1, 54⟩⟩,
        ⟨.ident "d", ⟨1, 55⟩⟩, ⟨.mark .semicolon, ⟨1, 56⟩⟩, ⟨.keyword (.builtin .int), ⟨1, 58⟩⟩,
        ⟨.ident "f", ⟨1, 62⟩⟩, ⟨.mark .parenOpen, ⟨1, 63⟩⟩,
        ⟨.keyword (.record .structKey), ⟨1, 64⟩⟩, ⟨.ident "S", ⟨1, 71⟩⟩, ⟨.mark .star, ⟨1, 73⟩⟩,
        ⟨.ident "p", ⟨1, 74⟩⟩, ⟨.mark .parenClose, ⟨1, 75⟩⟩, ⟨.mark .semicolon, ⟨1, 76⟩⟩,
        ⟨.keyword .enumeration, ⟨1, 78⟩⟩, ⟨.ident "E", ⟨1, 83⟩⟩, ⟨.ident "e", ⟨1, 85⟩⟩,
        ⟨.mark .semicolon, ⟨1, 86⟩⟩, ⟨.mark .braceClose, ⟨1, 88⟩⟩,
        ⟨.mark .semicolon, ⟨1, 89⟩⟩], ⟨1, 90⟩) := by
    decide +kernel
  let ds : List Declaration :=
    [⟨none, .record .none ⟨0⟩, none, ⟨1, 1⟩⟩,
      ⟨some "T", .record { isConst := true } ⟨0⟩, some .typeSynonym, ⟨1, 35⟩⟩,
      ⟨none, .record .none ⟨1⟩, none, ⟨1, 38⟩⟩]
  have hparse : parseSource tangledSource = .ok (ds, tangledScope) := by
    rw [parseSource, parseBytes, htokens]
    cbv
  exact ⟨ds, hparse, wellFormed_parseSource hparse⟩

end TypeLedger
