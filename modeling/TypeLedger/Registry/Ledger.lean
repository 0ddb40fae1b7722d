import TypeLedger.CType.Parts
import TypeLedger.Finite
import TypeLedger.Keyed
import TypeLedger.Namer
import TypeLedger.TypeId

/-!
# Giving types their identifiers

* A `Ledger` is the record of a registration: which types have which identifiers (`memo`), the
  identifiers in the order in which they were given (`rows`), and the fundamental types met.
* `settle` works off an agenda. A type that has no identifier is entered before the types it refers
  to, which are put in front of the agenda; so a type that leads back to itself is met a second time
  with its identifier already given. A type with synonyms in it takes the identifier of its
  canonical form as soon as all that the form leads to is entered.
* Every step either enters a type of the finite `Context.closure` or makes the agenda lighter.
-/

namespace TypeLedger

/-! ## 1. Rows and notices -/

/-- A canonical type that has been given a numbered identifier. The tag is that of a struct, union,
class or enumeration. -/
structure Row where
  id : TypeId
  category : Category
  type : CType
  tag : Option Tag

/-- How much a registration reports. -/
inductive Detail
  | quiet
  | entries
  | full
deriving DecidableEq, Repr

/-- What a registration reports. -/
inductive Notice
  /-- A type was met that has its identifier already. -/
  | hit (id : TypeId) (words : String)
  /-- A type with synonyms took the identifier of its canonical form. -/
  | synonym (id : TypeId) (words : String)
  /-- A type was given a new identifier. -/
  | entered (id : TypeId) (words : String)
deriving DecidableEq, Repr

def Notice.text : Notice → String
  | .hit id words => "[trace] hit " ++ id.text ++ " = " ++ words
  | .synonym id words => "[trace] alias " ++ id.text ++ " = " ++ words
  | .entered id words => "[trace] register " ++ id.text ++ " = " ++ words

/-- A notice is made at its detail and above. -/
def Detail.shows : Detail → Notice → Bool
  | .quiet, _ => false
  | .entries, .entered .. => true
  | .entries, _ => false
  | .full, _ => true

/-- The record of a registration. -/
structure Ledger where
  memo : List (CType × TypeId) := []
  rows : List Row := []
  /-- The identifiers of the fundamental types met, with the first spelling of each. -/
  fundamentals : List (TypeId × String) := []
  counters : Counters := {}
  naming : Naming := {}
  notices : Array Notice := #[]

namespace Context

/-- The category of a canonical type; a fundamental type has none. -/
def category? (ctx : Context) (t : CType) : Option Category :=
  if t.quals.isEmpty then
    match ctx.classify t with
    | .builtin s =>
      if Fundamental.isFundamental (Fundamental.idOfSpelling s) then none else some .other
    | .pointer .. => some .pointer
    | .array .. => some .array
    | .function .. => some .function
    | .record d =>
      match d.key with
      | .structKey => some .structType
      | .unionKey => some .unionType
      | .classKey => some .classType
    | .enumeration _ => some .enumType
    | .other .. => some .other
  else some .basic

/-- The name, which may be missing, of a type that is told apart by a tag. -/
def tagName? (ctx : Context) (t : CType) : Option (Option String) :=
  if t.quals.isEmpty then
    match ctx.classify t with
    | .record d => some d.name
    | .enumeration name => some name
    | _ => none
  else none

end Context

/-- The spelling of a builtin type. -/
def CType.builtinSpelling : CType → String
  | .builtin _ s => s
  | _ => ""

namespace Ledger

/-! ## 2. Steps -/

/-- The identifier of a type that has been registered, and the null identifier for the others. -/
def idOf (l : Ledger) (t : CType) : TypeId := (l.memo.lookup t).getD .null

def note (l : Ledger) (detail : Detail) (n : Notice) : Ledger :=
  if detail.shows n then { l with notices := l.notices.push n } else l

/-- The tag of a type that is entered now. Its name, if it has one, is never made up. -/
def tagFor (k : Naming) : Option (Option String) → Option Tag × Naming
  | none => (none, k)
  | some name =>
    let k := name.elim k k.reserve
    let (tag, k) := k.tag name
    (some tag, k)

/-- Gives a canonical type a new identifier of a category. -/
def enterRow (ctx : Context) (detail : Detail) (c : Category) (t : CType) (l : Ledger) : Ledger :=
  let (id, counters) := l.counters.next c
  let (tag, naming) := tagFor l.naming (ctx.tagName? t)
  { l with
    memo := Keyed.set t id l.memo
    rows := l.rows ++ [({ id, category := c, type := t, tag } : Row)]
    counters
    naming }.note detail (.entered id (ctx.describe t))

/-- Gives a fundamental type the identifier of its spelling. -/
def enterFundamental (t : CType) (l : Ledger) : Ledger :=
  let spelling := t.builtinSpelling
  let id := Fundamental.idOfSpelling spelling
  { l with
    memo := Keyed.set t id l.memo
    fundamentals :=
      if Keyed.has id l.fundamentals then l.fundamentals else l.fundamentals ++ [(id, spelling)] }

/-- Gives a canonical type its identifier. -/
def enter (ctx : Context) (detail : Detail) (t : CType) (l : Ledger) : Ledger :=
  match ctx.category? t with
  | some c => l.enterRow ctx detail c t
  | none => l.enterFundamental t

/-- Gives a type with synonyms the identifier of its canonical form. -/
def enterSynonym (ctx : Context) (detail : Detail) (t : CType) (l : Ledger) : Ledger :=
  let id := l.idOf t.desugar
  let l := l.note detail (.synonym id (ctx.describe t))
  { l with memo := Keyed.set t id l.memo }

@[simp] theorem memo_note (l : Ledger) (detail : Detail) (n : Notice) :
    (l.note detail n).memo = l.memo := by
  unfold note; split <;> rfl

theorem memo_enter (ctx : Context) (detail : Detail) (t : CType) (l : Ledger) :
    ∃ id, (l.enter ctx detail t).memo = Keyed.set t id l.memo := by
  unfold enter
  split
  · exact ⟨_, memo_note _ _ _⟩
  · exact ⟨_, rfl⟩

theorem memo_enterSynonym (ctx : Context) (detail : Detail) (t : CType) (l : Ledger) :
    (l.enterSynonym ctx detail t).memo = Keyed.set t (l.idOf t.desugar) l.memo := by
  simp [enterSynonym]

/-! ## 3. The agenda -/

/-- What is still to be done. -/
inductive Task
  /-- Give a type its identifier. -/
  | visit (type : CType)
  /-- Give a type the identifier of its canonical form, which has been visited. -/
  | conclude (type : CType)

/-- Visiting a type with synonyms adds two tasks. -/
def Task.weight : Task → Nat
  | .visit t => if t.hasSugar then 3 else 1
  | .conclude _ => 1

def weight (tasks : List Task) : Nat := tasks.foldr (fun task n => task.weight + n) 0

/-- The types of `u` without an identifier. -/
def unsettled (u : List CType) (l : Ledger) : Nat :=
  (u.filter fun t => (l.memo.lookup t).isNone).length

theorem unsettled_lt {u : List CType} {l l' : Ledger} {t : CType} {id : TypeId} (ht : t ∈ u)
    (hl : l.memo.lookup t = none) (hm : l'.memo = Keyed.set t id l.memo) :
    l'.unsettled u < l.unsettled u := by
  refine Finite.length_filter_lt (fun s _ hs => ?_) ht (by simp [hl]) (by simp [hm])
  by_cases h : s = t
  · subst h; simp [hl]
  · rwa [hm, Keyed.lookup_set_of_ne h] at hs

theorem unsettled_le {u : List CType} {l l' : Ledger} {t : CType} {id : TypeId}
    (hm : l'.memo = Keyed.set t id l.memo) : l'.unsettled u ≤ l.unsettled u := by
  refine Finite.length_filter_le fun s _ hs => ?_
  by_cases h : s = t
  · subst h; simp [hm] at hs
  · rwa [hm, Keyed.lookup_set_of_ne h] at hs

/-- The types that the tasks of an agenda visit have their canonical forms in the closure `u`. -/
def Covered (u : List CType) (tasks : List Task) : Prop :=
  ∀ t, Task.visit t ∈ tasks → t.desugar ∈ u

theorem Covered.tail {u : List CType} {task : Task} {tasks : List Task}
    (h : Covered u (task :: tasks)) : Covered u tasks :=
  fun t ht => h t (List.mem_cons_of_mem _ ht)

theorem Covered.desugar {u : List CType} {t : CType} {tasks : List Task}
    (h : Covered u (.visit t :: tasks)) :
    Covered u (.visit t.desugar :: .conclude t :: tasks) := by
  intro s hs
  simp only [List.mem_cons, Task.visit.injEq, reduceCtorEq, false_or] at hs
  rcases hs with rfl | hs
  · rw [CType.desugar_of_not_hasSugar _ (CType.hasSugar_desugar t)]
    exact h t List.mem_cons_self
  · exact h s (List.mem_cons_of_mem _ hs)

theorem Covered.components {ctx : Context} {ts : List CType} {t : CType} {tasks : List Task}
    (hs : t.hasSugar = false) (h : Covered (ctx.closure ts) (.visit t :: tasks)) :
    Covered (ctx.closure ts) ((ctx.components t).map Task.visit ++ tasks) := by
  intro s hm
  rcases List.mem_append.1 hm with hm | hm
  · obtain ⟨c, hc, he⟩ := List.mem_map.1 hm
    cases he
    have ht := h t List.mem_cons_self
    rw [CType.desugar_of_not_hasSugar t hs] at ht
    exact Context.desugar_mem_closure_of_component ht hc
  · exact h s (List.mem_cons_of_mem _ hm)

theorem Covered.single (ctx : Context) (t : CType) : Covered (ctx.closure [t]) [.visit t] := by
  intro s hs
  simp only [List.mem_singleton, Task.visit.injEq] at hs
  subst hs
  exact Context.desugar_mem_closure (List.mem_singleton_self _)

/-- Works off an agenda, all of whose types have their canonical forms in the closure of `ts`. -/
def settle (ctx : Context) (detail : Detail) (ts : List CType) (tasks : List Task)
    (covered : Covered (ctx.closure ts) tasks) (l : Ledger) : Ledger :=
  match tasks, covered with
  | [], _ => l
  | .conclude t :: tasks, covered =>
    settle ctx detail ts tasks covered.tail (l.enterSynonym ctx detail t)
  | .visit t :: tasks, covered =>
    if t.isNull then settle ctx detail ts tasks covered.tail l
    else
      match hl : l.memo.lookup t with
      | some id =>
        settle ctx detail ts tasks covered.tail (l.note detail (.hit id (ctx.describe t)))
      | none =>
        if hs : t.hasSugar then
          settle ctx detail ts (.visit t.desugar :: .conclude t :: tasks) covered.desugar l
        else
          settle ctx detail ts ((ctx.components t).map .visit ++ tasks)
            (covered.components (by simpa using hs)) (l.enter ctx detail t)
termination_by (l.unsettled (ctx.closure ts), weight tasks)
decreasing_by
  · have := unsettled_le (u := ctx.closure ts) (memo_enterSynonym ctx detail t l)
    simp only [Prod.lex_def, weight, List.foldr_cons, Task.weight]
    omega
  · simp only [Prod.lex_def, true_and, weight, List.foldr_cons, Task.weight]
    split <;> omega
  · simp only [Prod.lex_def, true_and, unsettled, memo_note, weight, List.foldr_cons,
      Task.weight]
    split <;> omega
  · simp only [Prod.lex_def, weight, List.foldr_cons, Task.weight, hs,
      CType.hasSugar_desugar]
    simp; omega
  · obtain ⟨id, hid⟩ := memo_enter ctx detail t l
    have ht := covered t List.mem_cons_self
    rw [CType.desugar_of_not_hasSugar t (by simpa using hs)] at ht
    have := unsettled_lt ht hl hid
    simp only [Prod.lex_def]
    omega

/-- Gives a type, and all types that it leads to, their identifiers. -/
def register (ctx : Context) (detail : Detail) (t : CType) (l : Ledger) : Ledger :=
  l.settle ctx detail [t] [.visit t] (Covered.single ctx t)

end Ledger

end TypeLedger
