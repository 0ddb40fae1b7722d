import TypeLedger.Finite
import TypeLedger.Table.Decode

/-!
# Environments

* An `Environment` finds the records of identifiers. It is a stack of layers: an identifier is
  looked up in the topmost layer first, and the lowest layer begins with the fundamental types.
* `add` puts the entries of a table into the topmost layer, up to the first that has no meaning;
  `extend` puts them into a layer of its own on top.
* `ids` lists the identifiers that entries have stated, the lowest layer first.
-/

namespace TypeLedger

/-- The records of some entries, the identifiers in the order of their first entry, and the
bases. -/
structure Layer where
  records : List (TypeId × TypeRecord) := []
  order : List TypeId := []
  inheritance : Inheritance := {}
deriving Inhabited

/-- Puts a record and its bases into a layer, in place of those there were. -/
def Layer.accept (l : Layer) (r : TypeRecord) (edges : List BaseEdge) : Layer where
  records := Keyed.set r.id r l.records
  order := if r.id ∈ l.order then l.order else l.order ++ [r.id]
  inheritance := l.inheritance.replace r.id edges

/-- The records of the fundamental types. -/
def Layer.fundamental : Layer where
  records := Fundamental.table.map fun p => (p.1, ⟨p.1, .none, .reserved p.2⟩)

/-- A stack of layers. -/
structure Environment where
  top : Layer
  /-- The layers below, the next one first. -/
  below : List Layer := []
deriving Inhabited

namespace Environment

/-- The environment with the fundamental types only. -/
def initial : Environment := ⟨.fundamental, []⟩

def layers (env : Environment) : List Layer := env.top :: env.below

/-! ## 1. Entries -/

/-- Puts entries into the topmost layer. Those in front of one with a fault stay. Tags are never
made up as names, that of the faulty entry included. -/
def add (env : Environment) : List Entry → StateM Naming (Environment × Option TableFault)
  | [] => pure (env, none)
  | e :: rest => fun k =>
    let k := e.tag?.elim k k.reserve
    let (tag, k) := k.tag e.tag?
    match e.readRecord tag with
    | .ok (r, edges) => add { env with top := env.top.accept r edges } rest k
    | .error f => ((env, some f), k)

/-- The environment of some entries, unless one of them has a fault. -/
def checked (env : Environment) (entries : List Entry) :
    StateM Naming (Except TableFault Environment) := do
  let (env, fault) ← env.add entries
  return fault.elim (.ok env) .error

/-- The environment with entries in a layer on top. -/
def extend (env : Environment) (entries : List Entry) :
    StateM Naming (Except TableFault Environment) :=
  checked ⟨{}, env.layers⟩ entries

/-- The environment of some entries over the fundamental types. -/
def ofEntries (entries : List Entry) : StateM Naming (Except TableFault Environment) :=
  checked initial entries

/-! ## 2. Questions -/

/-- The record of an identifier in the first of some layers that has one. -/
def lookupIn (id : TypeId) : List Layer → Option TypeRecord
  | [] => none
  | l :: ls =>
    match l.records.lookup id with
    | some r => some r
    | none => lookupIn id ls

/-- The record of an identifier. -/
def lookup? (env : Environment) (id : TypeId) : Option TypeRecord := lookupIn id env.layers

def contains (env : Environment) (id : TypeId) : Bool := (env.lookup? id).isSome

/-- What is known of an identifier apart from the qualifiers. -/
def body? (env : Environment) (id : TypeId) : Option TypeBody :=
  (env.lookup? id).map TypeRecord.body

/-- The bases of an identifier in the first of some layers that has its record. -/
def basesIn (id : TypeId) : List Layer → List BaseEdge
  | [] => []
  | l :: ls => if Keyed.has id l.records then l.inheritance.bases id else basesIn id ls

/-- The bases of an identifier. -/
def baseEdges (env : Environment) (id : TypeId) : List BaseEdge := basesIn id env.layers

/-- The result type of a function. -/
def resultType? (env : Environment) (id : TypeId) : Option TypeId :=
  match env.body? id with
  | some (.function result _ _) => some result
  | _ => none

/-- The identifiers that the entries of some layers have stated. -/
def idsIn : List Layer → List TypeId
  | [] => []
  | l :: ls => ((idsIn ls).filter fun id => !Keyed.has id l.records) ++ l.order

/-- The identifiers that entries have stated, those of a lower layer first. -/
def ids (env : Environment) : List TypeId := idsIn env.layers

def size (env : Environment) : Nat := env.ids.length

/-! ## 3. What a search has still to see -/

/-- The identifiers that have a record, with repetitions. -/
def keys (env : Environment) : List TypeId := env.layers.flatMap fun l => l.records.map Prod.fst

/-- How many identifiers with a record are not among `seen`. -/
def unseen (env : Environment) (seen : List TypeId) : Nat :=
  (env.keys.filter fun id => id ∉ seen).length

theorem mem_keys_of_lookupIn {id : TypeId} {r : TypeRecord} {ls : List Layer}
    (h : lookupIn id ls = some r) : id ∈ ls.flatMap fun l => l.records.map Prod.fst := by
  induction ls with
  | nil => simp [lookupIn] at h
  | cons l ls ih =>
    unfold lookupIn at h
    split at h
    · rename_i hl
      exact List.mem_flatMap.2 ⟨l, List.mem_cons_self, Keyed.mem_keys_of_lookup hl⟩
    · obtain ⟨l', hl', hm⟩ := List.mem_flatMap.1 (ih h)
      exact List.mem_flatMap.2 ⟨l', List.mem_cons_of_mem _ hl', hm⟩

/-- **To see one more identifier leaves fewer `unseen`,** if it has a record and was not seen
before. -/
theorem unseen_cons_lt {env : Environment} {id : TypeId} {r : TypeRecord} {seen : List TypeId}
    (h : env.lookup? id = some r) (hn : id ∉ seen) :
    env.unseen (id :: seen) < env.unseen seen := by
  refine Finite.length_filter_lt (fun j _ hj => ?_) (mem_keys_of_lookupIn h) (by simpa using hn)
    (by simp)
  simp only [List.mem_cons, not_or, decide_eq_true_eq] at hj ⊢
  exact hj.2

end Environment

end TypeLedger
