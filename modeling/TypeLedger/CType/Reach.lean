import TypeLedger.CType.Context

/-!
# Which records and enumerations a type reaches

* `CType.mentions` lists the records and enumerations that occur in a type, synonyms included, from
  the outside in; the result of a function comes before its parameters.
* `Context.reached` adds the records that the members and bases of records lead to.
-/

namespace TypeLedger

/-- A record or an enumeration, by its number. -/
inductive Tagged
  | record (id : RecordId)
  | enumeration (id : EnumId)
deriving DecidableEq, Repr

def Tagged.record? : Tagged → Option RecordId
  | .record id => some id
  | .enumeration _ => none

namespace CType

mutual

/-- The records and enumerations that occur in a type, with repetitions. -/
def mentions : CType → List Tagged
  | null _ | builtin _ _ | dependent _ _ => []
  | record _ id => [.record id]
  | enumeration _ id => [.enumeration id]
  | pointer _ _ t | array _ _ t | synonym _ _ t | complex _ t | vector _ _ t => t.mentions
  | function _ r ps _ => r.mentions ++ mentionsAll ps

/-- The records and enumerations that occur in some types. -/
def mentionsAll : List CType → List Tagged
  | [] => []
  | t :: ts => t.mentions ++ mentionsAll ts

end

end CType

namespace Context

/-- The records that occur in the members and bases of a record. -/
def recordsWithin (ctx : Context) (id : RecordId) : List RecordId :=
  match ctx.record? id with
  | some r => (CType.mentionsAll r.types).filterMap Tagged.record?
  | none => []

/-- The records that up to `n` steps through members and bases lead to, without repetition. -/
def reachedIn (ctx : Context) : Nat → List RecordId → List RecordId
  | 0, ids => ids
  | n + 1, ids =>
    let wider := (ids ++ ids.flatMap ctx.recordsWithin).eraseDups
    if wider.length = ids.length then ids else reachedIn ctx n wider

/-- The records that some types lead to, by ascending number. As many steps as there are records
lead everywhere. -/
def reached (ctx : Context) (types : List CType) : List RecordId :=
  let named := ((CType.mentionsAll types).filterMap Tagged.record?).eraseDups
  let ids := reachedIn ctx ctx.records.length named
  ((List.range ctx.records.length).map RecordId.mk).filter (· ∈ ids)

end Context

end TypeLedger
