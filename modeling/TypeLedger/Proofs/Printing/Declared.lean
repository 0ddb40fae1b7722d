import TypeLedger.Proofs.Printing.Asking
import TypeLedger.Proofs.Printing.Settled
import TypeLedger.Proofs.Printing.Written

/-!
# What a declaration calls records and enumerations

* `Registry.labels`: how the environment of a registry's table calls records and enumerations.
* `settled_of_writable`: a writable type that the registry knows is settled, with its qualifiers and
  without.
* `Environment.declareParams_tells`, `Environment.taggedDeclaration_tells`: the steps of a
  declaration that ask for names.
-/

namespace TypeLedger

/-! ## 1. Labels -/

namespace Environment

/-- What a struct, union or class is called: its keyword and the name it has been given. -/
def recordLabel (env : Environment) (k : Naming) (id : TypeId) : RecordKey × String :=
  match env.body? id with
  | some (.aggregate key tag _ _ _) => (key, (k.current? tag).getD "")
  | _ => (.structKey, "")

/-- What an enumeration is called. -/
def enumLabel (env : Environment) (k : Naming) (id : TypeId) : String :=
  match env.body? id with
  | some (.enumeration tag) => (k.current? tag).getD ""
  | _ => ""

end Environment

namespace Registry

/-- What the records and enumerations of a registry are called in an environment. -/
def labels (r : Registry) (env : Environment) (k : Naming) : Labels where
  record id := env.recordLabel k (r.ledger.idOf (.record .none id))
  enumeration id := env.enumLabel k (r.ledger.idOf (.enumeration .none id))

end Registry

/-! ## 2. Writable types -/

namespace CType

variable {rp : RecordId → Prop} {ep : EnumId → Prop} {t : CType}

theorem listed_of_canonical {s : String} (h : ∃ ws, BuiltinWord.canonical? ws = some s) :
    Fundamental.Listed s := by
  obtain ⟨ws, hws⟩ := h
  have hall : ∀ s ∈ BuiltinWord.spellings, Fundamental.Listed s := by decide
  exact hall s (BuiltinWord.mem_spellings s hws)

theorem Writable.proper (h : t.Writable rp ep) : t.Proper := by
  rintro s rfl -
  cases h with
  | builtin hs => exact listed_of_canonical hs

theorem Writable.canonical (h : t.Writable rp ep) : t.hasSugar = false := by
  induction h with
  | builtin _ => rfl
  | record _ => rfl
  | enumeration _ => rfl
  | pointer _ _ _ ih => exact ih
  | array _ ih => exact ih
  | function _ _ _ ih ihs =>
    rw [hasSugar, ih, anySugar_eq_any, Bool.false_or, List.any_eq_false]
    intro p hp
    rw [ihs p hp]
    decide

theorem Writable.not_null (h : t.Writable rp ep) : t.isNull = false := by
  cases h <;> rfl

theorem Writable.unqualified (h : t.Writable rp ep) : t.unqualified.Writable rp ep := by
  cases h with
  | builtin hs => exact .builtin hs
  | record h => exact .record h
  | enumeration h => exact .enumeration h
  | pointer hk href ht => exact .pointer hk href ht
  | array ht => exact .array ht
  | function ht hps hv => exact .function ht hps hv

end CType

namespace Registry

variable {r : Registry} {env : Environment} {tagOf : TypeId → Tag}
  {rp : RecordId → Prop} {ep : EnumId → Prop}

theorem settled_of_writable {t : CType} (ht : t.Writable rp ep) (hk : r.ledger.Known t) :
    r.Settled t :=
  ⟨hk, ht.canonical, ht.not_null, ht.proper⟩

end Registry

/-! ## 3. One step of a declaration -/

namespace Environment

variable {env : Environment} {path : List TypeId} {quals q : Qualifiers} {i j : TypeId}
  {name : String}

/-- Parameters without names are declared one after the other. -/
theorem declareParams_tells {g : CType → TypeId} {f : CType → Naming → String} {ts : List CType}
    (h : ∀ t ∈ ts, Tells (env.declareWith path .none (g t) "") (f t)) :
    Tells (env.declareParams path (ts.map fun t => ⟨g t, none⟩))
      fun K => ts.map fun t => f t K := by
  induction ts with
  | nil =>
    rw [List.map_nil, declareParams]
    exact tells_pure []
  | cons t ts ih =>
    rw [List.map_cons, declareParams]
    have ih' := ih fun u hu => h u (List.mem_cons_of_mem _ hu)
    exact tells_bind (h t List.mem_cons_self) fun text =>
      tells_bind ih' fun texts => tells_pure (text :: texts)

theorem taggedDeclaration_tells (keyword : String) (tag : Tag) :
    Tells (taggedDeclaration quals keyword tag name) fun K =>
      Fragment.ofWords [quals.spelling, keyword, (K.current? tag).getD "", name] :=
  tells_bind (tells_name tag) fun _ => tells_pure _

theorem recordLabel_of_lookup {record : TypeRecord} {key : RecordKey} {tag : Tag}
    {complete : Bool} {ms : List Member} {bs : List BaseEdge} (h : env.lookup? i = some record)
    (hb : record.body = .aggregate key tag complete ms bs) (K : Naming) :
    env.recordLabel K i = (key, (K.current? tag).getD "") := by
  rw [recordLabel, body?_of_lookup h, hb]

theorem enumLabel_of_lookup {record : TypeRecord} {tag : Tag} (h : env.lookup? i = some record)
    (hb : record.body = .enumeration tag) (K : Naming) :
    env.enumLabel K i = (K.current? tag).getD "" := by
  rw [enumLabel, body?_of_lookup h, hb]

end Environment

namespace Registry

variable {r : Registry} {env : Environment} {tagOf : TypeId → Tag}
  {rp : RecordId → Prop} {ep : EnumId → Prop}

theorem labels_record (K : Naming) (id : RecordId) :
    (r.labels env K).record id = env.recordLabel K (r.ledger.idOf (.record .none id)) := rfl

theorem labels_enumeration (K : Naming) (id : EnumId) :
    (r.labels env K).enumeration id = env.enumLabel K (r.ledger.idOf (.enumeration .none id)) := rfl

section

variable (hp : r.Kept) (hl : r.Shows env tagOf)

include hp hl

theorem settled_unqualified {t : CType} (hw : t.Writable rp ep) (ht : r.Settled t) :
    r.Settled t.unqualified :=
  settled_of_writable hw.unqualified (known_unqualified hp hl ht)

end

end Registry

end TypeLedger
