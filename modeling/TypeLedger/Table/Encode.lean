import TypeLedger.Table

/-!
# Writing records as entries

* `Entry.ofRecord` spreads a type record over an entry: references and flags become attributes,
  members become symbols, parameters and bases have lists of their own. What is not stated is off,
  unknown or absent.
-/

namespace TypeLedger

namespace TypeRecord

/-- The attributes of a record, with identifiers put through `rename` and the tags named as far as
they have names. -/
def attributes (rename : TypeId → TypeId) (k : Naming) (r : TypeRecord) : Attributes :=
  let marked := Attributes.empty.markQualifiers r.quals
  match r.body with
  | .reserved _ | .other _ => marked
  | .qualified base => marked.set "name" (rename base).text
  | .pointer kind pointee =>
    (marked.set "ref" (rename pointee).text).setSome "pointer_kind" kind.attrText
  | .function result _ variadic =>
    (marked.set "return_type" (rename result).text).mark "is_variadic" variadic
  | .array size element =>
    let marked := marked.set "element_type" (rename element).text
    match size with
    | .fixed n => marked.set "array_size" (toString n)
    | .unknown => marked
  | .aggregate _ tag complete _ _ =>
    (marked.setSome "tag" (k.current? tag)).mark "is_complete" complete
  | .enumeration tag => marked.setSome "tag" (k.current? tag)

end TypeRecord

/-- The symbol that states a member. -/
def Member.symbol (rename : TypeId → TypeId) (m : Member) : Symbol :=
  ⟨m.name, rename m.type, m.access.map Access.word, m.bitWidth.map toString⟩

namespace Entry

/-- The entry of kind `kind` that states a record and the bases `bases`. -/
def ofRecord (rename : TypeId → TypeId) (k : Naming) (kind : String) (bases : List BaseEdge)
    (r : TypeRecord) : Entry where
  kind
  type := rename r.id
  attributes := r.attributes rename k
  params :=
    match r.body with
    | .function _ params _ => params.map fun p => { p with type := rename p.type }
    | _ => []
  symbols :=
    match r.body with
    | .aggregate _ _ _ members _ => members.map (Member.symbol rename)
    | _ => []
  bases := bases.map fun e => .ofEdge { e with base := rename e.base }

end Entry

end TypeLedger
