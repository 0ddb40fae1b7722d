import TypeLedger.Table

/-!
# Reading entries as records

* `Entry.readRecord` gathers a type record and its bases from an entry. The first fault counts:
  qualifiers, then bases, then completeness, then what the kind of the entry asks for.
* An aggregate with members or bases is complete, stated or not.
-/

namespace TypeLedger

/-- The member that a symbol states. -/
def Symbol.readMember (s : Symbol) : Except TableFault Member := do
  let access ← s.readAccess
  let bitWidth ← s.readBitWidth
  return ⟨s.name, s.type, access, bitWidth⟩

namespace Entry

/-- The tag that an entry states. -/
def tag? (e : Entry) : Option String := e.attributes.get? "tag"

/-- What an entry says apart from its qualifiers; its aggregate is called `tag`. -/
def readBody (e : Entry) (tag : Tag) (complete : Bool) (edges : List BaseEdge) :
    Except TableFault TypeBody :=
  match EntryKind.key? e.kind with
  | some key => do
    let members ← e.symbols.mapM Symbol.readMember
    return .aggregate key tag complete members (if key = .classKey then edges else [])
  | none =>
    if e.kind = EntryKind.basic then .ok (.qualified (e.typeRef "name"))
    else if e.kind = EntryKind.pointer then
      .ok (.pointer (.ofAttrText (e.attributes.get? "pointer_kind")) (e.typeRef "ref"))
    else if e.kind = EntryKind.function then do
      let variadic ← e.flag "is_variadic"
      return .function (e.typeRef "return_type") e.params variadic
    else if e.kind = EntryKind.array then do
      let size ← e.readArraySize
      return .array size (e.typeRef "element_type")
    else if e.kind = EntryKind.enumeration then .ok (.enumeration tag)
    else .ok (.other e.kind)

/-- The record and the bases that an entry states; its aggregate is called `tag`. -/
def readRecord (e : Entry) (tag : Tag) : Except TableFault (TypeRecord × List BaseEdge) := do
  let quals ← e.readQualifiers
  let edges ← e.bases.mapM BaseEntry.readEdge
  let stated ← e.flag "is_complete"
  let complete := stated || !e.symbols.isEmpty || !e.bases.isEmpty
  let body ← e.readBody tag complete edges
  return (⟨e.type, quals, body⟩, edges)

end Entry

end TypeLedger
