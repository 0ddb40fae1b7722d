import TypeLedger.Environment

/-!
# The order of definitions

* A definition needs those of the aggregates that it holds by value: members, arrays of them, and
  the bases of a class. `definitionOrder` lists the aggregates with a definition so that each comes
  behind those it needs, unless they hold each other.
* The search keeps an agenda: an aggregate is entered, then those it needs, and it is listed when
  it is left. One that has been entered before is passed over.
-/

namespace TypeLedger.Environment

/-- The aggregate that a value of an identifier holds, under qualifiers and in arrays. -/
def aggregateByValue? (env : Environment) (seen : List TypeId) (id : TypeId) : Option TypeId :=
  if hs : id ∈ seen then none
  else
    match hr : env.lookup? id with
    | none => none
    | some r =>
      have := unseen_cons_lt hr hs
      match r.body with
      | .qualified base => aggregateByValue? env (id :: seen) base
      | .array _ element => aggregateByValue? env (id :: seen) element
      | .aggregate .. => some id
      | _ => none
termination_by env.unseen seen

/-- The aggregates that a definition needs. -/
def needs (env : Environment) : TypeBody → List TypeId
  | .aggregate _ _ _ members bases =>
    (members.map Member.type ++ bases.map BaseEdge.base).filterMap (env.aggregateByValue? [])
  | _ => []

/-- What the search for an order has still to do. -/
inductive OrderTask
  | enter (id : TypeId)
  | leave (id : TypeId)

/-- Works off an agenda, with `entered` the aggregates entered so far. -/
def orderFrom (env : Environment) (entered : List TypeId) (tasks : List OrderTask) :
    List TypeId :=
  match tasks with
  | [] => []
  | .leave id :: rest => id :: orderFrom env entered rest
  | .enter id :: rest =>
    if he : id ∈ entered then orderFrom env entered rest
    else
      match hr : env.lookup? id with
      | none => orderFrom env entered rest
      | some r =>
        have := unseen_cons_lt hr he
        if r.body.isDefined then
          orderFrom env (id :: entered) ((env.needs r.body).map .enter ++ .leave id :: rest)
        else orderFrom env entered rest
termination_by (env.unseen entered, tasks.length)

/-- The aggregates with a definition, each behind those it needs. -/
def definitionOrder (env : Environment) : List TypeId :=
  env.orderFrom [] (env.ids.map .enter)

end TypeLedger.Environment
