import TypeLedger.Proofs.Printing.Rendered

/-!
# Tables made and rendered

* `Run.Yields`: a run has an outcome, whatever has been reported before.
* `registerAll_spec`: registering declarations makes their types known; the symbols of the table are
  the global ones.
* `generateFrom_yields` and `render_yields`: what generating a table and rendering it yield.
-/

namespace TypeLedger

/-! ## 1. Runs -/

namespace Run

variable {α β ε : Type}

/-- The run has this outcome, whatever has been reported before. -/
def Yields (m : Run α) (a : α) : Prop := ∀ log, (m log).1 = .ok a

theorem yields_pure (a : α) : Yields (pure a) a := fun _ => rfl

theorem yields_sayIf (condition : Bool) (lines : List String) :
    Yields (sayIf condition lines) () := fun _ => rfl

theorem yields_lift {f : ε → Failure} {e : Except ε α} {a : α} (h : e = .ok a) :
    Yields (lift f e) a := by
  intro log
  rw [h]
  rfl

theorem yields_bind {m : Run α} {f : α → Run β} {a : α} {b : β} (hm : m.Yields a)
    (hf : (f a).Yields b) : Yields (m >>= f) b := by
  intro log
  obtain ⟨log', hlog⟩ : ∃ log', m log = (.ok a, log') := ⟨_, Prod.ext (hm log) rfl⟩
  show (ExceptT.bindCont f (m log).1 (m log).2).1 = .ok b
  rw [hlog]
  exact hf log'

theorem Yields.result {m : Run α} {a : α} (h : m.Yields a) : m.result.1 = .ok a := h #[]

end Run

/-! ## 2. Registering declarations -/

/-- The global symbol that a declaration states, with its type. -/
def Declaration.global? (d : Declaration) : Option (String × CType) :=
  if d.isTypeSynonym then none else d.name.map (·, d.type)

/-- The global symbols of declarations. -/
def globalsOf (ds : List Declaration) : List (String × CType) := ds.filterMap Declaration.global?

/-- A global symbol is stated by a declaration. -/
theorem exists_of_mem_globalsOf {ds : List Declaration} {g : String × CType}
    (hg : g ∈ globalsOf ds) : ∃ d ∈ ds, d.name = some g.1 ∧ d.type = g.2 := by
  obtain ⟨d, hd, hdg⟩ := List.mem_filterMap.1 hg
  rw [Declaration.global?] at hdg
  split at hdg
  · cases hdg
  · obtain ⟨n, hn, rfl⟩ := Option.map_eq_some_iff.1 hdg
    exact ⟨d, hd, hn, rfl⟩

namespace Registry

theorem symbol?_eq (r : Registry) (d : Declaration) :
    (d.symbol? (r.ledger.idOf d.type)).toList = r.symbols d.global?.toList := by
  rw [Declaration.symbol?, Declaration.global?]
  cases d.isTypeSynonym with
  | true => rfl
  | false => cases d.name <;> rfl

theorem Unrenamed.register {r : Registry} (h : r.Unrenamed) (t : CType) :
    (r.register t).2.Unrenamed :=
  ⟨(register_kept h.kept t).1, h.renames⟩

/-- **Registering declarations** makes their types known; the symbols are the global ones
(`globalsOf`). -/
theorem registerAll_spec {r : Registry} (h : r.Unrenamed) (ds : List Declaration) :
    (registerAll r ds).2.Unrenamed ∧ r.Later (registerAll r ds).2 ∧
      (∀ d ∈ ds, (registerAll r ds).2.ledger.Known d.type) ∧
      (registerAll r ds).1 = (registerAll r ds).2.symbols (globalsOf ds) := by
  induction ds generalizing r with
  | nil => exact ⟨h, .refl r, fun _ h => (nomatch h), rfl⟩
  | cons d ds ih =>
    obtain ⟨-, hlater, hknown, hid⟩ := register_kept h.kept d.type
    have hp₁ := h.register d.type
    obtain ⟨hp₂, hlater₂, hknown₂, hsymbols⟩ := ih hp₁
    have hidOf := hlater₂.idOf_eq hp₁.kept hp₂.kept hknown
    refine ⟨hp₂, hlater.trans hlater₂, fun d' hd' => ?_, ?_⟩
    · rcases List.mem_cons.1 hd' with rfl | hd'
      · exact hknown.mono hlater₂.ledger
      · exact hknown₂ d' hd'
    · have hshown : (r.typeName d.type).1 =
          (registerAll (r.register d.type).2 ds).2.ledger.idOf d.type := by
        show (r.register d.type).2.shown (r.register d.type).1 = _
        rw [hp₁.shown, hidOf, hid]
        rfl
      show (d.symbol? (r.typeName d.type).1).toList ++ (registerAll (r.register d.type).2 ds).1 =
        (registerAll (r.register d.type).2 ds).2.symbols (globalsOf (d :: ds))
      have hglobals : globalsOf (d :: ds) = d.global?.toList ++ globalsOf ds := by
        rw [globalsOf, List.filterMap_cons]
        cases d.global? <;> rfl
      rw [hsymbols, hshown, symbol?_eq, hglobals, symbols, symbols, symbols, List.map_append]

theorem added_registerAll (r : Registry) (ds : List Declaration) :
    (registerAll r ds).2.added = r.added := by
  induction ds generalizing r with
  | nil => rfl
  | cons d ds ih => exact ih _

theorem given_registerAll (r : Registry) (ds : List Declaration) :
    (registerAll r ds).2.ledger.naming.given = r.ledger.naming.given := by
  induction ds generalizing r with
  | nil => rfl
  | cons d ds ih => exact (ih _).trans (Ledger.given_register _ _)

theorem Plain.registerAll {r : Registry} (h : r.Plain) (ds : List Declaration) :
    (TypeLedger.registerAll r ds).2.Plain := by
  induction ds generalizing r with
  | nil => exact h
  | cons d ds ih => exact ih (h.register d.type)

end Registry

/-! ## 3. Tables -/

/-- The registry over a source, before anything is registered. -/
def startOf (s : Settings) (sc : Scope) : Registry :=
  { context := sc.context, hasLabel := s.label, detail := s.detail }

/-- The registry that the declarations of a source leave (`registerAll`). -/
def registered (s : Settings) (ds : List Declaration) (sc : Scope) : Registry :=
  (registerAll (startOf s sc) ds).2

theorem fresh_startOf (s : Settings) (sc : Scope) : (startOf s sc).Fresh :=
  ⟨rfl, rfl, rfl, rfl, rfl⟩

/-- The registry of a source renames nothing and knows the types of the declarations; the symbols
are the global ones. -/
theorem registered_unrenamed (s : Settings) (ds : List Declaration) (sc : Scope) :
    (registered s ds sc).Unrenamed ∧ (registered s ds sc).context = sc.context ∧
      (∀ d ∈ ds, (registered s ds sc).ledger.Known d.type) ∧
      (registerAll (startOf s sc) ds).1 = (registered s ds sc).symbols (globalsOf ds) := by
  obtain ⟨hu, hlater, hknown, hsymbols⟩ := Registry.registerAll_spec
    ⟨(fresh_startOf s sc).kept, rfl⟩ ds
  exact ⟨hu, hlater.context, hknown, hsymbols⟩

theorem registered_spec {s : Settings} (hs : s.label = false) (ds : List Declaration)
    (sc : Scope) :
    (registered s ds sc).Plain ∧ (registered s ds sc).context = sc.context ∧
      (∀ d ∈ ds, (registered s ds sc).ledger.Known d.type) ∧
      (registerAll (startOf s sc) ds).1 = (registered s ds sc).symbols (globalsOf ds) :=
  ⟨Registry.Plain.registerAll ⟨(fresh_startOf s sc).kept, rfl, rfl, hs, rfl⟩ ds,
    (registered_unrenamed s ds sc).2⟩

/-- What is generated from the declarations of a source, whether there is a renaming or not. -/
theorem generateFrom_made (files : Files) {s : Settings} {renames : Option Renaming}
    (h : (loadRenames files s).Yields renames) {source : String} {ds : List Declaration}
    {sc : Scope} (hp : parseSource source = .ok (ds, sc)) :
    (generateFrom files s source).Yields
      (let made := registerAll { startOf s sc with renames } ds
      ⟨⟨if s.noTable then [] else made.2.table.types, made.1⟩, made.2.stats⟩) := by
  refine Run.yields_bind (Run.yields_lift hp) (Run.yields_bind (Run.yields_sayIf _ _)
    (Run.yields_bind h ?_))
  refine Run.yields_bind (Run.yields_sayIf _ _) (Run.yields_bind (Run.yields_sayIf _ _)
    (Run.yields_bind (Run.yields_sayIf _ _) ?_))
  exact Run.yields_pure _

theorem loadRenames_none (files : Files) {s : Settings} (hr : s.renames = none) :
    (loadRenames files s).Yields none := by
  rw [loadRenames, hr]
  exact Run.yields_pure none

/-- **The table of a source** has the entries of its registry and its global symbols; generation
`Yields` it. -/
theorem generateFrom_yields (files : Files) {s : Settings} (hr : s.renames = none)
    (ht : s.noTable = false) {source : String} {ds : List Declaration}
    {sc : Scope} (hp : parseSource source = .ok (ds, sc)) :
    (generateFrom files s source).Yields
      ⟨⟨(registered s ds sc).table.types, (registered s ds sc).symbols (globalsOf ds)⟩,
        (registered s ds sc).stats⟩ := by
  obtain ⟨-, -, -, hsymbols⟩ := registered_unrenamed s ds sc
  have hmade := generateFrom_made files (loadRenames_none files hr) hp
  rw [ht] at hmade
  rw [← hsymbols]
  exact hmade

/-- **The text of a table** has the lines of its environment; rendering `Yields` it. -/
theorem render_yields (s : Settings) {t : Table} {env : Environment} {k : Naming}
    (h : Environment.ofEntries t.types {} = (.ok env, k)) :
    (render s t).Yields (linesText (renderEnvironment env t.globals k).1.lines) := by
  unfold render
  rw [h]
  exact Run.yields_bind (Run.yields_lift rfl) (Run.yields_bind (Run.yields_sayIf _ _)
    (Run.yields_bind (Run.yields_sayIf _ _) (Run.yields_bind (Run.yields_sayIf _ _)
      (Run.yields_pure _))))

end TypeLedger
