import TypeLedger.Proofs.Registration.Identity

/-!
# Reserving and storing

* A type is registered in two moves: its identifier is reserved before the types that its record
  refers to are registered, and its record is stored when all of them have answered with their
  identifiers. A `Store` is what has been reserved and stored so far; `Stored` is a record with the
  category and the kind of entry that it is stored under.
* A `Draft` is a type between the two moves. `Draft.stored` makes its record from the answers.
* A `Desk` is a registration under way: what comes next, what waits for the answer, ledger and
  store. `Desk.step` is one move; `Step` says all that a move can do.
* `Desk.run` makes moves until nothing waits any more: a type gets an identifier, or the desk gets
  lighter (`Step.lighter`).
-/

namespace TypeLedger

/-! ## 1. Components -/

namespace Context

variable {ctx : Context} {t : CType}

/-- The record that a canonical type without qualifiers is. -/
def recordOf? (ctx : Context) (t : CType) : Option RecordDecl :=
  if t.quals.isEmpty then
    match ctx.classify t with
    | .record d => some d
    | _ => none
  else none

/-- The bases that a canonical type declares. -/
def basesOf (ctx : Context) (t : CType) : List BaseDecl :=
  (ctx.recordOf? t).elim [] RecordDecl.bases

/-- The components of a canonical type that are not bases of it. -/
def partsOf (ctx : Context) (t : CType) : List CType :=
  (ctx.recordOf? t).elim (ctx.components t) fun d => (d.members.getD []).map MemberDecl.type

theorem recordOf?_eq_some {d : RecordDecl} :
    ctx.recordOf? t = some d ↔ t.quals.isEmpty = true ∧ ctx.classify t = .record d := by
  unfold recordOf?
  split
  · rename_i hq
    cases ctx.classify t <;> simp [hq]
  · rename_i hq
    simp [hq]

/-- Bases come after all other `components`. -/
theorem components_eq (ctx : Context) (t : CType) :
    ctx.components t = ctx.partsOf t ++ (ctx.basesOf t).map BaseDecl.type := by
  unfold partsOf basesOf
  cases hrec : ctx.recordOf? t with
  | none => simp
  | some d =>
    obtain ⟨hq, hd⟩ := recordOf?_eq_some.1 hrec
    rw [components, if_pos hq, hd]
    rfl

end Context

/-- What the record of a type refers to: a part of the type, or a base that the type declares. -/
inductive Component
  | part (type : CType)
  | base (decl : BaseDecl)

namespace Component

def type : Component → CType
  | part t => t
  | base d => d.type

def base? : Component → Option BaseDecl
  | part _ => none
  | base d => some d

end Component

namespace Context

/-- The components of a canonical type in the order in which they are registered. -/
def componentList (ctx : Context) (t : CType) : List Component :=
  (ctx.partsOf t).map .part ++ (ctx.basesOf t).map .base

theorem type_componentList (ctx : Context) (t : CType) :
    (ctx.componentList t).map Component.type = ctx.components t := by
  rw [componentList, components_eq, List.map_append, List.map_map, List.map_map]
  congr 1
  exact List.map_id _

theorem base?_componentList (ctx : Context) (t : CType) :
    (ctx.componentList t).filterMap Component.base? = ctx.basesOf t := by
  have hparts : ((ctx.partsOf t).map Component.part).filterMap Component.base? = [] :=
    List.filterMap_eq_nil_iff.2 fun c hc => by
      obtain ⟨t, -, rfl⟩ := List.mem_map.1 hc
      rfl
  rw [componentList, List.filterMap_append, hparts, List.filterMap_map]
  exact List.filterMap_some

end Context

/-! ## 2. What is stored -/

/-- Puts bases behind those in the record of a class; no other record holds any. -/
def TypeBody.addBases (bs : List BaseEdge) : TypeBody → TypeBody
  | .aggregate .classKey tag complete members bases =>
    .aggregate .classKey tag complete members (bases ++ bs)
  | body => body

@[simp] theorem TypeBody.addBases_nil (body : TypeBody) : body.addBases [] = body := by
  unfold addBases
  split
  · rw [List.append_nil]
  · rfl

theorem TypeBody.addBases_append (body : TypeBody) (bs cs : List BaseEdge) :
    body.addBases (bs ++ cs) = (body.addBases bs).addBases cs := by
  cases body with
  | aggregate key => cases key <;> simp [addBases]
  | _ => rfl

/-- A record, and how it is stored: the category that its entry is grouped under, which a
fundamental type does not have, the kind of the entry and the type in words. -/
structure Stored where
  record : TypeRecord
  category : Option Category
  kind : String
  words : String
deriving DecidableEq

namespace Stored

/-- The record of a fundamental type. -/
def fundamental (ctx : Context) (spelling : String) : Stored where
  record := ⟨Fundamental.idOfSpelling spelling, .none, .reserved spelling⟩
  category := none
  kind := EntryKind.basic
  words := ctx.describe (.builtin .none spelling)

/-- Puts bases behind those of a class. -/
def addBases (bs : List BaseEdge) (e : Stored) : Stored :=
  { e with record := { e.record with body := e.record.body.addBases bs } }

@[simp] theorem addBases_nil (e : Stored) : e.addBases [] = e := by
  rw [addBases, TypeBody.addBases_nil]

theorem addBases_append (e : Stored) (bs cs : List BaseEdge) :
    e.addBases (bs ++ cs) = (e.addBases bs).addBases cs := by
  simp only [addBases, TypeBody.addBases_append]

end Stored

/-- What a registry has reserved, stored, and stated of bases beside the records. -/
structure Store where
  /-- The reserved identifiers in their order. -/
  order : List TypeId := []
  entries : List (TypeId × Stored) := []
  beside : Inheritance := {}

namespace Store

def record? (s : Store) (id : TypeId) : Option TypeRecord :=
  (s.entries.lookup id).map Stored.record

def reserve (s : Store) (id : TypeId) : Store := { s with order := s.order ++ [id] }

/-- Stores a record under its identifier. -/
def put (s : Store) (e : Stored) : Store :=
  { s with entries := Keyed.set e.record.id e s.entries }

/-- Stores a record, unless there is one under its identifier. -/
def putNew (s : Store) (e : Stored) : Store :=
  if Keyed.has e.record.id s.entries then s else s.put e

/-- States a component that has been answered with an identifier: only a base is written down before
the record is stored. -/
def state (s : Store) (derived : TypeId) : Component → TypeId → Store
  | .part _, _ => s
  | .base d, id => { s with beside := s.beside.add derived ⟨d.access, id, d.isVirtual⟩ }

/-- States a base on top of those declared, beside the records and in the record of a class. -/
def addBase (s : Store) (derived : TypeId) (edge : BaseEdge) : Store :=
  match s.entries.lookup derived with
  | some e =>
    ⟨s.order, Keyed.set derived (e.addBases [edge]) s.entries, s.beside.add derived edge⟩
  | none => { s with beside := s.beside.add derived edge }

@[simp] theorem order_putNew (s : Store) (e : Stored) : (s.putNew e).order = s.order := by
  unfold putNew
  split <;> rfl

@[simp] theorem beside_putNew (s : Store) (e : Stored) : (s.putNew e).beside = s.beside := by
  unfold putNew
  split <;> rfl

theorem nodup_putNew {s : Store} (h : (s.entries.map Prod.fst).Nodup) (e : Stored) :
    ((s.putNew e).entries.map Prod.fst).Nodup := by
  unfold putNew
  split
  · exact h
  · exact Keyed.nodup_keys_set h _ _

theorem lookup_putNew_self (s : Store) (e : Stored) :
    (s.putNew e).entries.lookup e.record.id = some ((s.entries.lookup e.record.id).getD e) := by
  unfold putNew Keyed.has
  cases h : s.entries.lookup e.record.id with
  | some e' => simpa using h
  | none => exact Keyed.lookup_set_self _ _ _

theorem lookup_putNew_of_ne (s : Store) (e : Stored) {id : TypeId} (h : id ≠ e.record.id) :
    (s.putNew e).entries.lookup id = s.entries.lookup id := by
  unfold putNew
  split
  · rfl
  · exact Keyed.lookup_set_of_ne h _ _

@[simp] theorem order_state (s : Store) (i : TypeId) (c : Component) (id : TypeId) :
    (s.state i c id).order = s.order := by
  cases c <;> rfl

@[simp] theorem entries_state (s : Store) (i : TypeId) (c : Component) (id : TypeId) :
    (s.state i c id).entries = s.entries := by
  cases c <;> rfl

theorem bases_state_self (s : Store) (i : TypeId) (c : Component) (id : TypeId) :
    (s.state i c id).beside.bases i =
      s.beside.bases i ++ c.base?.toList.map fun d => ⟨d.access, id, d.isVirtual⟩ := by
  cases c with
  | part t => exact (List.append_nil _).symm
  | base d => exact Inheritance.bases_add_self _ _ _

theorem bases_state_of_ne (s : Store) {i j : TypeId} (hj : j ≠ i) (c : Component) (id : TypeId) :
    (s.state i c id).beside.bases j = s.beside.bases j := by
  cases c with
  | part t => rfl
  | base d => exact Inheritance.bases_add_of_ne _ hj _

@[simp] theorem order_addBase (s : Store) (i : TypeId) (e : BaseEdge) :
    (s.addBase i e).order = s.order := by
  unfold addBase
  split <;> rfl

@[simp] theorem beside_addBase (s : Store) (i : TypeId) (e : BaseEdge) :
    (s.addBase i e).beside = s.beside.add i e := by
  unfold addBase
  split <;> rfl

theorem lookup_addBase_self (s : Store) (i : TypeId) (e : BaseEdge) :
    (s.addBase i e).entries.lookup i = (s.entries.lookup i).map (Stored.addBases [e]) := by
  unfold addBase
  split
  · rename_i stored hi
    rw [hi]
    exact Keyed.lookup_set_self _ _ _
  · rename_i hi
    exact hi.trans (by rw [hi]; rfl)

theorem lookup_addBase_of_ne (s : Store) {i j : TypeId} (hj : j ≠ i) (e : BaseEdge) :
    (s.addBase i e).entries.lookup j = s.entries.lookup j := by
  unfold addBase
  split
  · exact Keyed.lookup_set_of_ne hj _ _
  · rfl

theorem nodup_addBase {s : Store} (h : (s.entries.map Prod.fst).Nodup) (i : TypeId) (e : BaseEdge) :
    ((s.addBase i e).entries.map Prod.fst).Nodup := by
  unfold addBase
  split
  · exact Keyed.nodup_keys_set h _ _
  · exact h

end Store

/-- A type whose identifier is reserved and whose record is not stored yet, and the identifiers that
its components have answered so far. -/
structure Draft where
  row : Row
  ids : List TypeId := []

namespace Draft

/-- The members of a record, by the identifiers of their types. -/
def members (ds : List MemberDecl) (ids : List TypeId) : List Member :=
  List.zipWith (fun d id => ⟨d.name, id, d.access, d.bitWidth⟩) ds ids

/-- The bases of a record, by the identifiers of their types. -/
def edges (ds : List BaseDecl) (ids : List TypeId) : List BaseEdge :=
  List.zipWith (fun d id => ⟨d.access, id, d.isVirtual⟩) ds ids

/-- The record of a `Draft` whose components have all answered, and how it is `Stored`. -/
def stored (ctx : Context) (d : Draft) : Stored :=
  let t := d.row.type
  let tag := d.row.tag.getD (.anonymous 0)
  let first := d.ids.headD .null
  let store (body : TypeBody) (c : Category) (kind : String) : Stored :=
    ⟨⟨d.row.id, t.quals, body⟩, some c, kind, ctx.describe t⟩
  if t.quals.isEmpty then
    match ctx.classify t with
    | .builtin s => store (.other s) .other EntryKind.other
    | .pointer k _ => store (.pointer k first) .pointer EntryKind.pointer
    | .array n _ => store (.array n first) .array EntryKind.array
    | .function _ _ v =>
      store (.function first (d.ids.tail.map fun id => ⟨id, none⟩) v) .function EntryKind.function
    | .record r =>
      let ms := r.members.getD []
      let body (bases : List BaseEdge) : TypeBody :=
        .aggregate r.key tag r.isComplete (members ms d.ids) bases
      match r.key with
      | .structKey => store (body []) .structType (EntryKind.ofKey r.key)
      | .unionKey => store (body []) .unionType (EntryKind.ofKey r.key)
      | .classKey =>
        store (body (edges r.bases (d.ids.drop ms.length))) .classType (EntryKind.ofKey r.key)
    | .enumeration _ => store (.enumeration tag) .enumType EntryKind.enumeration
    | .other kind words => store (.other words) .other kind
  else store (.qualified first) .basic EntryKind.basic

/-- A record is stored under the identifier that was reserved. -/
@[simp] theorem id_stored (ctx : Context) (d : Draft) : (d.stored ctx).record.id = d.row.id := by
  unfold stored
  dsimp only
  split
  · split <;> try rfl
    split <;> rfl
  · rfl

end Draft

/-! ## 3. Moves -/

namespace Ledger

/-- Gives a type with synonyms the identifier that its canonical form has answered. -/
def enterAs (ctx : Context) (detail : Detail) (t : CType) (id : TypeId) (l : Ledger) : Ledger :=
  let l := l.note detail (.synonym id (ctx.describe t))
  { l with memo := Keyed.set t id l.memo }

end Ledger

/-- What comes next in a registration. -/
inductive Phase
  /-- A type is to be given its identifier. -/
  | visit (type : CType)
  /-- The components `todo` of a draft are to be registered, then its record is stored. -/
  | fill (draft : Draft) (todo : List Component)
  /-- The innermost registration has answered. -/
  | answer (id : TypeId)

/-- What waits for the answer of the registration inside it. -/
inductive Return
  /-- A type with synonyms waits for its canonical form. -/
  | synonym (type : CType)
  /-- A draft waits for one of its components; `todo` come after it. -/
  | component (draft : Draft) (component : Component) (todo : List Component)

/-- A registration under way. The innermost return comes first. -/
structure Desk where
  phase : Phase
  returns : List Return
  ledger : Ledger
  store : Store

/-- What the innermost registration has answered. -/
def Desk.answer (k : Desk) : TypeId :=
  match k.phase with
  | .answer id => id
  | _ => .null

theorem Desk.answer_of_phase {k : Desk} {id : TypeId} (h : k.phase = .answer id) :
    k.answer = id := by
  rw [answer, h]

namespace Desk

variable {ctx : Context} {detail : Detail} {k k' : Desk}

/-- Gives a canonical type its identifier. If the type has a category the identifier is reserved,
and the components come next; a fundamental type is stored at once. -/
def enter (ctx : Context) (detail : Detail) (t : CType) (k : Desk) : Desk :=
  match ctx.category? t with
  | some c =>
    let row := Ledger.newRow ctx c t k.ledger
    ⟨.fill { row } (ctx.componentList t), k.returns, k.ledger.enterRow ctx detail c t,
      k.store.reserve row.id⟩
  | none =>
    ⟨.answer (Fundamental.idOfSpelling t.builtinSpelling), k.returns, k.ledger.enterFundamental t,
      k.store.putNew (.fundamental ctx t.builtinSpelling)⟩

/-- One move; none is left when the outermost registration has answered. -/
def step (ctx : Context) (detail : Detail) : Desk → Option Desk
  | ⟨.visit t, rs, l, s⟩ =>
    if t.isNull then some ⟨.answer .null, rs, l, s⟩
    else
      match l.memo.lookup t with
      | some id => some ⟨.answer id, rs, l.note detail (.hit id (ctx.describe t)), s⟩
      | none =>
        if t.hasSugar then some ⟨.visit t.desugar, .synonym t :: rs, l, s⟩
        else some (enter ctx detail t ⟨.visit t, rs, l, s⟩)
  | ⟨.fill d (c :: todo), rs, l, s⟩ => some ⟨.visit c.type, .component d c todo :: rs, l, s⟩
  | ⟨.fill d [], rs, l, s⟩ => some ⟨.answer d.row.id, rs, l, s.put (d.stored ctx)⟩
  | ⟨.answer id, .synonym t :: rs, l, s⟩ => some ⟨.answer id, rs, l.enterAs ctx detail t id, s⟩
  | ⟨.answer id, .component d c todo :: rs, l, s⟩ =>
    some ⟨.fill { d with ids := d.ids ++ [id] } todo, rs, l, s.state d.row.id c id⟩
  | ⟨.answer _, [], _, _⟩ => none

/-- All that a move (`Desk.step`) can do. -/
inductive Step (ctx : Context) (detail : Detail) : Desk → Desk → Prop
  | null {t rs l s} (hn : t.isNull = true) :
    Step ctx detail ⟨.visit t, rs, l, s⟩ ⟨.answer .null, rs, l, s⟩
  | hit {t rs l s id} (hl : l.memo.lookup t = some id) : Step ctx detail ⟨.visit t, rs, l, s⟩
      ⟨.answer id, rs, l.note detail (.hit id (ctx.describe t)), s⟩
  | desugar {t rs l s} (hn : t.isNull = false) (hl : l.memo.lookup t = none)
    (hs : t.hasSugar = true) :
    Step ctx detail ⟨.visit t, rs, l, s⟩ ⟨.visit t.desugar, .synonym t :: rs, l, s⟩
  | reserve {t rs l s c} (hn : t.isNull = false) (hl : l.memo.lookup t = none)
    (hs : t.hasSugar = false) (hc : ctx.category? t = some c) :
    Step ctx detail ⟨.visit t, rs, l, s⟩
      ⟨.fill ⟨Ledger.newRow ctx c t l, []⟩ (ctx.componentList t), rs, l.enter ctx detail t,
        s.reserve (Ledger.newRow ctx c t l).id⟩
  | fundamental {spelling rs l s} (hl : l.memo.lookup (.builtin .none spelling) = none)
    (hf : Fundamental.isFundamental (Fundamental.idOfSpelling spelling) = true) :
    Step ctx detail ⟨.visit (.builtin .none spelling), rs, l, s⟩
      ⟨.answer (Fundamental.idOfSpelling spelling), rs,
        l.enter ctx detail (.builtin .none spelling), s.putNew (.fundamental ctx spelling)⟩
  | descend {d c todo rs l s} : Step ctx detail ⟨.fill d (c :: todo), rs, l, s⟩
      ⟨.visit c.type, .component d c todo :: rs, l, s⟩
  | put {d rs l s} : Step ctx detail ⟨.fill d [], rs, l, s⟩
      ⟨.answer d.row.id, rs, l, s.put (d.stored ctx)⟩
  | synonym {id t rs l s} : Step ctx detail ⟨.answer id, .synonym t :: rs, l, s⟩
      ⟨.answer id, rs, l.enterAs ctx detail t id, s⟩
  | component {id d c todo rs l s} : Step ctx detail ⟨.answer id, .component d c todo :: rs, l, s⟩
      ⟨.fill { d with ids := d.ids ++ [id] } todo, rs, l, s.state d.row.id c id⟩

theorem step_enter {t : CType} {rs : List Return} {l : Ledger} {s : Store} (hn : t.isNull = false)
    (hl : l.memo.lookup t = none) (hs : t.hasSugar = false) :
    Step ctx detail ⟨.visit t, rs, l, s⟩ (enter ctx detail t ⟨.visit t, rs, l, s⟩) := by
  unfold enter
  split
  · rename_i c hc
    have henter : l.enter ctx detail t = l.enterRow ctx detail c t := by
      rw [Ledger.enter, hc]
    exact henter ▸ Step.reserve hn hl hs hc
  · rename_i hc
    have henter : l.enter ctx detail t = l.enterFundamental t := by
      rw [Ledger.enter, hc]
    obtain ⟨spelling, rfl, hf⟩ := Ledger.builtin_of_category?_eq_none hc
    exact henter ▸ Step.fundamental hl hf

theorem step_of_step? (h : k.step ctx detail = some k') : Step ctx detail k k' := by
  unfold step at h
  split at h
  · rename_i t rs l s
    split at h
    · rename_i hn
      cases h
      exact .null hn
    · rename_i hn
      have hn : t.isNull = false := by simpa using hn
      split at h
      · rename_i id hl
        cases h
        exact .hit hl
      · rename_i hl
        split at h
        · rename_i hs
          cases h
          exact .desugar hn hl hs
        · rename_i hs
          cases h
          exact step_enter hn hl (by simpa using hs)
  · cases h; exact .descend
  · cases h; exact .put
  · cases h; exact .synonym
  · cases h; exact .component
  · cases h

/-- No move is left exactly if the outermost registration has answered. -/
theorem step_eq_none_iff :
    k.step ctx detail = none ↔ ∃ id, k.phase = .answer id ∧ k.returns = [] := by
  unfold step
  split
  · split
    · simp
    · split
      · simp
      · split <;> simp
  all_goals simp

end Desk

/-! ## 4. Tasks -/

namespace Phase

/-- What is still to be done in a phase, as tasks of a ledger. -/
def tasks : Phase → List Ledger.Task
  | .visit t => [.visit t]
  | .fill _ todo => todo.map fun c => .visit c.type
  | .answer _ => []

/-- Registering a component adds two moves. -/
def weight : Phase → Nat
  | .visit t => if t.hasSugar then 3 else 1
  | .fill _ todo => 6 * todo.length + 1
  | .answer _ => 0

end Phase

namespace Return

/-- What is still to be done behind a return, as tasks of a ledger. -/
def tasks : Return → List Ledger.Task
  | .synonym t => [.conclude t]
  | .component _ _ todo => todo.map fun c => .visit c.type

def weight : Return → Nat
  | .synonym _ => 1
  | .component _ _ todo => 6 * todo.length + 2

end Return

namespace Desk

variable {ctx : Context} {detail : Detail} {k k' : Desk} {ts : List CType}

/-- What is still to be done, as tasks of the ledger. -/
def tasks (k : Desk) : List Ledger.Task := k.phase.tasks ++ k.returns.flatMap Return.tasks

/-- The moves that are still to come without a new identifier, at most. -/
def weight (k : Desk) : Nat :=
  k.phase.weight + k.returns.foldr (fun r n => r.weight + n) 0

theorem visits_componentList (ctx : Context) (t : CType) :
    (ctx.componentList t).map (fun c => Ledger.Task.visit c.type) =
      (ctx.components t).map .visit := by
  rw [← ctx.type_componentList t, List.map_map]
  rfl

/-- The types that a desk is about stay within the closure of `ts`. -/
theorem Step.covered (h : Step ctx detail k k')
    (hc : Ledger.Covered (ctx.closure ts) k.tasks) : Ledger.Covered (ctx.closure ts) k'.tasks := by
  cases h with
  | null => exact hc.tail
  | hit => exact hc.tail
  | desugar => exact hc.desugar
  | reserve _ _ hs _ =>
    rw [tasks, Phase.tasks, visits_componentList]
    exact hc.components hs
  | fundamental => exact hc.tail
  | descend => exact hc
  | put => exact hc
  | synonym => exact hc.tail
  | component => exact hc

theorem memo_enterAs (ctx : Context) (detail : Detail) (t : CType) (id : TypeId) (l : Ledger) :
    (l.enterAs ctx detail t id).memo = Keyed.set t id l.memo := by
  simp [Ledger.enterAs]

/-- **A move gives a type of the closure an identifier, or makes the desk lighter** (`weight`). -/
theorem Step.lighter (h : Step ctx detail k k') (hc : Ledger.Covered (ctx.closure ts) k.tasks) :
    Prod.Lex (· < ·) (· < ·) (k'.ledger.unsettled (ctx.closure ts), k'.weight)
      (k.ledger.unsettled (ctx.closure ts), k.weight) := by
  have hnew : ∀ {t : CType} {l : Ledger} {rs : List Return}, t.hasSugar = false →
      l.memo.lookup t = none →
      Ledger.Covered (ctx.closure ts) (.visit t :: rs.flatMap Return.tasks) →
      (l.enter ctx detail t).unsettled (ctx.closure ts) < l.unsettled (ctx.closure ts) := by
    intro t l rs hs hl hc
    obtain ⟨id, hid⟩ := Ledger.memo_enter ctx detail t l
    have ht := hc t List.mem_cons_self
    rw [CType.desugar_of_not_hasSugar t hs] at ht
    exact Ledger.unsettled_lt ht hl hid
  cases h with
  | reserve _ hl hs _ => exact .left _ _ (hnew hs hl hc)
  | fundamental hl _ => exact .left _ _ (hnew rfl hl hc)
  | @synonym id t rs l s =>
    have := Ledger.unsettled_le (u := ctx.closure ts) (memo_enterAs ctx detail t id l)
    simp only [Prod.lex_def, weight, Phase.weight, List.foldr_cons, Return.weight]
    omega
  | hit =>
    simp only [Prod.lex_def, true_and, Ledger.unsettled, Ledger.memo_note, weight, Phase.weight]
    split <;> omega
  | null =>
    simp only [Prod.lex_def, true_and, weight, Phase.weight]
    split <;> omega
  | desugar _ _ hs =>
    simp only [Prod.lex_def, true_and, weight, Phase.weight, hs, CType.hasSugar_desugar,
      List.foldr_cons, Return.weight, if_true, Bool.false_eq_true, if_false]
    omega
  | descend =>
    simp only [Prod.lex_def, true_and, weight, Phase.weight, List.foldr_cons,
      Return.weight, List.length_cons]
    split <;> omega
  | put =>
    simp only [Prod.lex_def, true_and, weight, Phase.weight]
    omega
  | component =>
    simp only [Prod.lex_def, true_and, weight, Phase.weight, List.foldr_cons,
      Return.weight]
    omega

/-! ## 5. Runs -/

/-- Makes moves until the outermost registration has answered. All types that the desk is about have
their canonical forms in the closure of `ts`. -/
def run (ctx : Context) (detail : Detail) (ts : List CType) (k : Desk)
    (covered : Ledger.Covered (ctx.closure ts) k.tasks) : Desk :=
  match h : k.step ctx detail with
  | none => k
  | some k' => run ctx detail ts k' ((step_of_step? h).covered covered)
termination_by (k.ledger.unsettled (ctx.closure ts), k.weight)
decreasing_by exact (step_of_step? h).lighter covered

/-- A property that every move keeps holds at the end of a run. -/
theorem run_induction {P : Desk → Prop} (hstep : ∀ k k', Step ctx detail k k' → P k → P k')
    (covered : Ledger.Covered (ctx.closure ts) k.tasks) (h : P k) :
    P (run ctx detail ts k covered) := by
  fun_induction run ctx detail ts k covered with
  | case1 k _ _ => exact h
  | case2 k _ k' hk ih => exact ih (hstep k k' (step_of_step? hk) h)

/-- At the end of a run the outermost registration has answered. -/
theorem run_answers (detail : Detail) (k : Desk)
    (covered : Ledger.Covered (ctx.closure ts) k.tasks) :
    ∃ id, (run ctx detail ts k covered).phase = .answer id ∧
      (run ctx detail ts k covered).returns = [] := by
  fun_induction run ctx detail ts k covered with
  | case1 k _ hk => exact step_eq_none_iff.1 hk
  | case2 k _ k' _ ih => exact ih

/-- At most `n` moves; nothing if they are not enough. -/
def runFor (ctx : Context) (detail : Detail) : Nat → Desk → Option Desk
  | 0, k =>
    match k.step ctx detail with
    | none => some k
    | some _ => none
  | n + 1, k =>
    match k.step ctx detail with
    | none => some k
    | some k' => runFor ctx detail n k'

/-- **A run ends:** a number of moves (`runFor`) is enough for it. -/
theorem runFor_of_run (detail : Detail) (k : Desk)
    (covered : Ledger.Covered (ctx.closure ts) k.tasks) :
    ∃ n, runFor ctx detail n k = some (run ctx detail ts k covered) := by
  fun_induction run ctx detail ts k covered with
  | case1 k _ hk => exact ⟨0, by simp only [runFor, hk]⟩
  | case2 k _ k' hk ih =>
    obtain ⟨n, hn⟩ := ih
    exact ⟨n + 1, by simp only [runFor, hk, hn]⟩

/-- A run whose moves have been counted is the run. -/
theorem run_eq_of_runFor (covered : Ledger.Covered (ctx.closure ts) k.tasks) {n : Nat} {last : Desk}
    (h : runFor ctx detail n k = some last) : run ctx detail ts k covered = last := by
  fun_induction run ctx detail ts k covered generalizing n with
  | case1 k _ hk =>
    cases n <;> simpa only [runFor, hk, Option.some.injEq] using h
  | case2 k _ k' hk ih =>
    cases n with
    | zero => simp only [runFor, hk, reduceCtorEq] at h
    | succ n =>
      simp only [runFor, hk] at h
      exact ih h

end Desk

end TypeLedger
