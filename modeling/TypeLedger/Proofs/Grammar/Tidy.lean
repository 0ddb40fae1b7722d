import TypeLedger.Proofs.Grammar.ReadBack
import TypeLedger.Proofs.Lexing.Words

/-!
# Tidy contexts

* `CType.Spelt`: the types that declarations can spell over a context with a vocabulary.
* `Context.Tidy`: every record and every enumeration with a tag is found under its tag, and all that
  records say is spelt. Declaring and completing keep a context tidy.
* `RecordKey.Fits`: members and bases are such as stand behind a keyword. The body of a record fits
  a keyword that its tag stands behind.
-/

namespace TypeLedger

/-! ## 1. Types that declarations can spell -/

/-- The second context has at least as many records and enumerations; those that there were are
called as before. -/
structure Context.Below (ctx ctx' : Context) : Prop where
  records : ctx.records.length ≤ ctx'.records.length
  enums : ctx.enums.length ≤ ctx'.enums.length
  heads : ∀ id d, ctx.record? id = some d →
    ∃ d', ctx'.record? id = some d' ∧ d'.key = d.key ∧ d'.name = d.name

theorem Context.Below.refl (ctx : Context) : ctx.Below ctx :=
  ⟨Nat.le_refl _, Nat.le_refl _, fun _ d hd => ⟨d, hd, rfl, rfl⟩⟩

theorem Context.Below.trans {c₁ c₂ c₃ : Context} (h : c₁.Below c₂) (h' : c₂.Below c₃) :
    c₁.Below c₃ := by
  refine ⟨Nat.le_trans h.records h'.records, Nat.le_trans h.enums h'.enums, fun id d hd => ?_⟩
  obtain ⟨d', hd', hk, hn⟩ := h.heads id d hd
  obtain ⟨d'', hd'', hk', hn'⟩ := h'.heads id d' hd'
  exact ⟨d'', hd'', hk'.trans hk, hn'.trans hn⟩

namespace CType

/-- The types that declarations can spell over a context. -/
inductive Spelt (V : Vocabulary) (ctx : Context) : CType → Prop
  | builtin {q : Qualifiers} {s : String} (hs : ∃ ws, BuiltinWord.canonical? ws = some s) :
    Spelt V ctx (.builtin q s)
  | record {q : Qualifiers} {id : RecordId} (h : id.index < ctx.records.length) :
    Spelt V ctx (.record q id)
  | enumeration {q : Qualifiers} {id : EnumId} (h : id.index < ctx.enums.length) :
    Spelt V ctx (.enumeration q id)
  | pointer {q : Qualifiers} {k : PointerKind} {t : CType} (hk : k ≠ .member) (ht : Spelt V ctx t) :
    Spelt V ctx (.pointer q k t)
  | array {q : Qualifiers} {n : ArraySize} {t : CType} (ht : Spelt V ctx t) :
    Spelt V ctx (.array q n t)
  | function {q : Qualifiers} {t : CType} {ps : List CType} {v : Bool} (ht : Spelt V ctx t)
    (hps : ∀ p ∈ ps, Spelt V ctx p) : Spelt V ctx (.function q t ps v)
  | synonym {q : Qualifiers} {name : String} {t : CType} (ht : Spelt V ctx t) :
    Spelt V ctx (.synonym q name t)
  | complex {q : Qualifiers} {t : CType} (hV : V.complex) (ht : Spelt V ctx t) :
    Spelt V ctx (.complex q t)

variable {V : Vocabulary} {ctx ctx' : Context}

theorem Spelt.mono {t : CType} (h : t.Spelt V ctx) (hc : ctx.Below ctx') : t.Spelt V ctx' := by
  induction h with
  | builtin hs => exact .builtin hs
  | record h => exact .record (Nat.lt_of_lt_of_le h hc.records)
  | enumeration h => exact .enumeration (Nat.lt_of_lt_of_le h hc.enums)
  | pointer hk _ ih => exact .pointer hk ih
  | array _ ih => exact .array ih
  | function _ _ ih ihs => exact .function ih ihs
  | synonym _ ih => exact .synonym ih
  | complex hV _ ih => exact .complex hV ih

theorem Spelt.withQuals {t : CType} (h : t.Spelt V ctx) (q : Qualifiers) :
    (t.withQuals q).Spelt V ctx := by
  cases h with
  | builtin hs => exact .builtin hs
  | record h => exact .record h
  | enumeration h => exact .enumeration h
  | pointer hk ht => exact .pointer hk ht
  | array ht => exact .array ht
  | function ht hps => exact .function ht hps
  | synonym ht => exact .synonym ht
  | complex hV ht => exact .complex hV ht

theorem Spelt.qualified {t : CType} (h : t.Spelt V ctx) (q : Qualifiers) :
    (t.qualified q).Spelt V ctx := h.withQuals _

theorem Spelt.unqualified {t : CType} (h : t.Spelt V ctx) : t.unqualified.Spelt V ctx :=
  h.withQuals _

theorem Spelt.desugar {t : CType} (h : t.Spelt V ctx) : t.desugar.Spelt V ctx := by
  induction h with
  | builtin hs => exact .builtin hs
  | record h => exact .record h
  | enumeration h => exact .enumeration h
  | pointer hk _ ih => exact .pointer hk ih
  | array _ ih => exact .array ih
  | function _ _ ih ihs =>
    refine .function ih fun p hp => ?_
    rw [desugarAll_eq_map] at hp
    obtain ⟨p', hp', rfl⟩ := List.mem_map.1 hp
    exact ihs p' hp'
  | synonym _ ih => exact ih.qualified _
  | complex hV _ ih => exact .complex hV ih

end CType

/-! ## 2. Tidy contexts -/

/-- A member with a name has an identifier for a name, and its type is spelt. -/
structure MemberDecl.Tidy (V : Vocabulary) (ctx : Context) (m : MemberDecl) : Prop where
  name : ∀ n, m.name = some n → V.ident n
  type : m.type.Spelt V ctx

/-- The base is a record. -/
def BaseDecl.Tidy (ctx : Context) (b : BaseDecl) : Prop :=
  ∃ id, b.type = .record .none id ∧ id.index < ctx.records.length

/-- Members and bases are such as stand behind a keyword: the members of a class have an access
each, and only a class has bases. -/
structure RecordKey.Fits (key : RecordKey) (ms : List MemberDecl) (bs : List BaseDecl) : Prop where
  access : ∀ m ∈ ms, (m.access.isSome = true ↔ key = .classKey)
  bases : key ≠ .classKey → bs = []

/-- A body may stand behind some keyword and the tag of the record; without a tag, behind the
keyword of the record. -/
def RecordDecl.Bodied (V : Vocabulary) (d : RecordDecl) (ms : List MemberDecl)
    (bs : List BaseDecl) : Prop :=
  ∃ key : RecordKey, key.Fits ms bs ∧ (d.name = none → key = d.key) ∧
    ∀ n, d.name = some n → V.tagged key n

/-- What a record says is tidy; it says nothing before its body has been read. -/
structure RecordDecl.Tidy (V : Vocabulary) (ctx : Context) (d : RecordDecl) : Prop where
  members : ∀ ms, d.members = some ms → ∀ m ∈ ms, m.Tidy V ctx
  bases : ∀ b ∈ d.bases, b.Tidy ctx
  incomplete : d.members = none → d.bases = []
  tagged : ∀ n, d.name = some n → V.tagged d.key n
  body : ∀ ms, d.members = some ms → d.Bodied V ms d.bases

theorem RecordDecl.Tidy.member {V : Vocabulary} {ctx : Context} {d : RecordDecl}
    (h : d.Tidy V ctx) {m : MemberDecl} (hm : m ∈ d.members.getD []) : m.Tidy V ctx := by
  cases hms : d.members with
  | none =>
    rw [hms] at hm
    cases hm
  | some ms =>
    rw [hms] at hm
    exact h.members ms hms m hm

namespace Context

/-- Tags are identifiers and lead to what they are the tags of; what records say is tidy. -/
structure Tidy (V : Vocabulary) (ctx : Context) : Prop where
  records : ∀ id d, ctx.record? id = some d → d.Tidy V ctx
  tags : ∀ id d n, ctx.record? id = some d → d.name = some n →
    ctx.findRecord? n = some id ∧ V.ident n
  enumTags : ∀ id d n, ctx.enum? id = some d → d.name = some n →
    ctx.findEnum? n = some id ∧ V.ident n

theorem tidy_empty {V : Vocabulary} : ({} : Context).Tidy V :=
  ⟨fun _ _ h => by simp [record?] at h, fun _ _ _ h => by simp [record?] at h,
    fun _ _ _ h => by simp [enum?] at h⟩

end Context

variable {V : Vocabulary} {ctx ctx' : Context}

theorem MemberDecl.Tidy.mono {m : MemberDecl} (h : m.Tidy V ctx) (hc : ctx.Below ctx') :
    m.Tidy V ctx' :=
  ⟨h.name, h.type.mono hc⟩

theorem BaseDecl.Tidy.mono {b : BaseDecl} (h : b.Tidy ctx) (hc : ctx.Below ctx') :
    b.Tidy ctx' := by
  obtain ⟨id, hb, hid⟩ := h
  exact ⟨id, hb, Nat.lt_of_lt_of_le hid hc.records⟩

theorem RecordDecl.Tidy.mono {d : RecordDecl} (h : d.Tidy V ctx) (hc : ctx.Below ctx') :
    d.Tidy V ctx' :=
  ⟨fun ms hms m hm => (h.members ms hms m hm).mono hc, fun b hb => (h.bases b hb).mono hc,
    h.incomplete, h.tagged, h.body⟩

/-- The last position in a list is one of its positions. -/
theorem lastPosition?_spec {α : Type} {p : α → Bool} {as : List α} {i : Nat}
    (h : lastPosition? p as = some i) : ∃ a, as[i]? = some a ∧ p a = true := by
  induction as generalizing i with
  | nil => cases h
  | cons a as ih =>
    rw [lastPosition?] at h
    split at h
    · rename_i j hj
      obtain ⟨b, hb, hp⟩ := ih hj
      obtain rfl := Option.some.inj h
      exact ⟨b, by simpa using hb, hp⟩
    · split at h
      · rename_i hp
        obtain rfl := Option.some.inj h
        exact ⟨a, rfl, hp⟩
      · cases h

theorem lastPosition?_congr {α : Type} {p : α → Bool} {as bs : List α}
    (h : as.map p = bs.map p) : lastPosition? p as = lastPosition? p bs := by
  induction as generalizing bs with
  | nil =>
    obtain rfl : bs = [] := by simpa [eq_comm] using h
    rfl
  | cons a as ih =>
    rw [List.map_cons, eq_comm, List.map_eq_cons_iff] at h
    obtain ⟨b, bs, rfl, hab, h⟩ := h
    rw [lastPosition?, lastPosition?, ih h.symm, hab]

namespace Context

theorem index_lt_of_record? {id : RecordId} {d : RecordDecl} (h : ctx.record? id = some d) :
    id.index < ctx.records.length :=
  (List.getElem?_eq_some_iff.1 h).1

theorem findRecord?_spec {n : String} {id : RecordId} (h : ctx.findRecord? n = some id) :
    ∃ d, ctx.record? id = some d ∧ d.name = some n := by
  obtain ⟨i, hi, rfl⟩ := Option.map_eq_some_iff.1 h
  obtain ⟨d, hd, hp⟩ := lastPosition?_spec hi
  exact ⟨d, hd, by simpa using hp⟩

theorem findEnum?_spec {n : String} {id : EnumId} (h : ctx.findEnum? n = some id) :
    ∃ d, ctx.enum? id = some d ∧ d.name = some n := by
  obtain ⟨i, hi, rfl⟩ := Option.map_eq_some_iff.1 h
  obtain ⟨d, hd, hp⟩ := lastPosition?_spec hi
  exact ⟨d, hd, by simpa using hp⟩

theorem findRecord?_declareRecord (key : RecordKey) (name : Option String) (m : String) :
    (ctx.declareRecord key name).2.findRecord? m =
      if name = some m then some ⟨ctx.records.length⟩ else ctx.findRecord? m := by
  simp only [findRecord?, declareRecord, lastPosition?_append, decide_eq_true_eq]
  split <;> rfl

theorem record?_declareRecord (key : RecordKey) (name : Option String) (id : RecordId) :
    (ctx.declareRecord key name).2.record? id =
      if id.index = ctx.records.length then some ⟨key, name, none, []⟩ else ctx.record? id := by
  simp only [record?, declareRecord, List.getElem?_append]
  rcases Nat.lt_trichotomy id.index ctx.records.length with h | h | h
  · rw [if_pos h, if_neg (Nat.ne_of_lt h)]
  · simp [h]
  · rw [if_neg (Nat.lt_asymm h), if_neg (Nat.ne_of_gt h), List.getElem?_eq_none (by simp; omega),
      List.getElem?_eq_none (by omega)]

theorem enum?_declareEnum (name : Option String) (id : EnumId) :
    (ctx.declareEnum name).2.enum? id =
      if id.index = ctx.enums.length then some ⟨name⟩ else ctx.enum? id := by
  simp only [enum?, declareEnum, List.getElem?_append]
  rcases Nat.lt_trichotomy id.index ctx.enums.length with h | h | h
  · rw [if_pos h, if_neg (Nat.ne_of_lt h)]
  · simp [h]
  · rw [if_neg (Nat.lt_asymm h), if_neg (Nat.ne_of_gt h), List.getElem?_eq_none (by simp; omega),
      List.getElem?_eq_none (by omega)]

theorem record?_completeRecord (id : RecordId) (ms : List MemberDecl) (bs : List BaseDecl)
    (id' : RecordId) :
    (ctx.completeRecord id ms bs).record? id' =
      (ctx.record? id').map fun d =>
        if id = id' then { d with members := some ms, bases := bs } else d := by
  simp only [record?, completeRecord, List.getElem?_modify]
  rcases id with ⟨i⟩
  rcases id' with ⟨j⟩
  simp only [RecordId.mk.injEq]
  split <;> rfl

theorem below_declareRecord (key : RecordKey) (name : Option String) :
    ctx.Below (ctx.declareRecord key name).2 := by
  refine ⟨by simp [declareRecord], Nat.le_refl _, fun id d hd => ⟨d, ?_, rfl, rfl⟩⟩
  rw [record?_declareRecord, if_neg (Nat.ne_of_lt (index_lt_of_record? hd)), hd]

theorem below_declareEnum (name : Option String) : ctx.Below (ctx.declareEnum name).2 :=
  ⟨Nat.le_refl _, by simp [declareEnum], fun _ d hd => ⟨d, hd, rfl, rfl⟩⟩

theorem below_completeRecord (ctx : Context) (id : RecordId) (ms : List MemberDecl)
    (bs : List BaseDecl) : ctx.Below (ctx.completeRecord id ms bs) := by
  refine ⟨by simp [completeRecord], Nat.le_refl _, fun id' d hd => ?_⟩
  rw [record?_completeRecord, hd, Option.map_some]
  refine ⟨_, rfl, ?_⟩
  split <;> exact ⟨rfl, rfl⟩

/-- A new record keeps a context `Tidy` if no record has its tag. -/
theorem Tidy.declareRecord (h : ctx.Tidy V) (key : RecordKey) {name : Option String}
    (hn : ∀ n, name = some n → ctx.findRecord? n = none ∧ V.ident n ∧ V.tagged key n) :
    (ctx.declareRecord key name).2.Tidy V := by
  refine ⟨fun id d hd => ?_, fun id d n hd hdn => ?_, h.enumTags⟩
  · rw [record?_declareRecord] at hd
    split at hd
    · obtain rfl := Option.some.inj hd
      exact ⟨fun _ hms => (nomatch hms), fun _ hb => (nomatch hb), fun _ => rfl,
        fun n hname => (hn n hname).2.2, fun _ hms => (nomatch hms)⟩
    · exact (h.records id d hd).mono (below_declareRecord key name)
  · rw [record?_declareRecord] at hd
    rw [findRecord?_declareRecord]
    split at hd
    · rename_i hid
      obtain rfl := Option.some.inj hd
      rw [if_pos hdn]
      exact ⟨congrArg some (by rw [← hid]), (hn n hdn).2.1⟩
    · obtain ⟨hf, hi⟩ := h.tags id d n hd hdn
      rw [if_neg, hf]
      · exact ⟨rfl, hi⟩
      · intro hname
        rw [(hn n hname).1] at hf
        cases hf

/-- A new enumeration keeps a context `Tidy` if no enumeration has its tag. -/
theorem Tidy.declareEnum (h : ctx.Tidy V) {name : Option String}
    (hn : ∀ n, name = some n → ctx.findEnum? n = none ∧ V.ident n) :
    (ctx.declareEnum name).2.Tidy V := by
  refine ⟨fun id d hd => (h.records id d hd).mono (below_declareEnum name), h.tags,
    fun id d n hd hdn => ?_⟩
  rw [enum?_declareEnum] at hd
  split at hd
  · rename_i hid
    obtain rfl := Option.some.inj hd
    obtain rfl : name = some n := hdn
    rw [findEnum?_declareEnum, if_pos rfl]
    exact ⟨congrArg some (by rw [← hid]), (hn n rfl).2⟩
  · obtain ⟨hf, hi⟩ := h.enumTags id d n hd hdn
    cases name with
    | none =>
      refine ⟨?_, hi⟩
      rw [← hf]
      simp only [findEnum?, Context.declareEnum, lastPosition?_append]
      rfl
    | some m =>
      rw [findEnum?_declareEnum, if_neg, hf]
      · exact ⟨rfl, hi⟩
      · rintro rfl
        rw [(hn m rfl).1] at hf
        cases hf

theorem findRecord?_completeRecord (id : RecordId) (ms : List MemberDecl) (bs : List BaseDecl)
    (n : String) : (ctx.completeRecord id ms bs).findRecord? n = ctx.findRecord? n := by
  unfold findRecord?
  refine congrArg _ (lastPosition?_congr (List.ext_getElem? fun i => ?_))
  simp only [completeRecord, List.getElem?_map, List.getElem?_modify]
  cases ctx.records[i]? with
  | none => rfl
  | some d =>
    simp only [Option.map_some]
    split <;> rfl

/-- A body keeps a context `Tidy` if what it says is tidy. -/
theorem Tidy.completeRecord (h : ctx.Tidy V) (id : RecordId) {ms : List MemberDecl}
    {bs : List BaseDecl} (hms : ∀ m ∈ ms, m.Tidy V ctx) (hbs : ∀ b ∈ bs, b.Tidy ctx)
    (hbody : ∀ d, ctx.record? id = some d → d.Bodied V ms bs) :
    (ctx.completeRecord id ms bs).Tidy V := by
  have hb := below_completeRecord ctx id ms bs
  refine ⟨fun id' d hd => ?_, fun id' d n hd hdn => ?_, h.enumTags⟩
  · rw [record?_completeRecord] at hd
    obtain ⟨d', hd', rfl⟩ := Option.map_eq_some_iff.1 hd
    split
    · rename_i hid
      subst hid
      refine ⟨fun ms' hms' m hm => ?_, fun b hm => (hbs b hm).mono hb, fun hn => (nomatch hn),
        (h.records id d' hd').tagged, fun ms' hms' => ?_⟩
      · obtain rfl := Option.some.inj hms'
        exact (hms m hm).mono hb
      · obtain rfl := Option.some.inj hms'
        exact hbody d' hd'
    · exact (h.records id' d' hd').mono hb
  · rw [record?_completeRecord] at hd
    obtain ⟨d', hd', rfl⟩ := Option.map_eq_some_iff.1 hd
    rw [findRecord?_completeRecord]
    refine h.tags id' d' n hd' ?_
    split at hdn <;> exact hdn

end Context

end TypeLedger
