import TypeLedger.Proofs.Renaming.Environments
import TypeLedger.Proofs.RoundTrip.Generation
import TypeLedger.Proofs.Registration.SelfReference
import Mathlib.Data.Set.Function

/-!
# Tables under other identifiers

* `render_renamed`: a renamed table is rendered to the same text.
* `Registry.table_renamed`: the table that a registry writes with a renaming is the one that it
  writes without it, renamed.
* `Registry.Mentions`: the identifiers that may stand in the table of a registry.
* `generateFrom_renamed`: to generate a table with a renaming is to rename the table that is
  generated without it; both have the same text.
-/

namespace TypeLedger

variable {f : TypeId → TypeId} {D : TypeId → Prop}

/-! ## 1. Rendering -/

/-- The texts of new identifiers are those of the identifiers they stand for. -/
theorem textsOf_renamed (m m' : TypeId → StateM Naming (Option String)) {ids : List TypeId}
    (h : ∀ i ∈ ids, m' (f i) = m i) (k : Naming) :
    textsOf m' (ids.map f) k =
      ((textsOf m ids k).1.map fun p => (f p.1, p.2), (textsOf m ids k).2) := by
  induction ids generalizing k with
  | nil => rfl
  | cons i ids ih =>
    obtain ⟨hi, hids⟩ := List.forall_mem_cons.1 h
    have hcons : ∀ (m : TypeId → StateM Naming (Option String)) (i : TypeId) (ids : List TypeId),
        textsOf m (i :: ids) k =
          (((m i k).1.map fun t => (i, t)).toList ++ (textsOf m ids (m i k).2).1,
            (textsOf m ids (m i k).2).2) := fun _ _ _ => rfl
    rw [List.map_cons, hcons, hcons, hi, ih hids]
    cases (m i k).1 <;> rfl

theorem renderEnvironment_eq (env : Environment) (symbols : List Symbol) (k : Naming) :
    (renderEnvironment env symbols k).1.lines =
      let forwards := textsOf env.forward? env.ids k
      let definitions := textsOf env.define? env.definitionOrder forwards.2
      forwards.1.map Prod.snd ++ definitions.1.map Prod.snd ++
        (env.declareSymbols symbols definitions.2).1 := rfl

/-- **An environment that is `Renamed` has the same lines.** -/
theorem lines_renamed {env env' : Environment} (h : env.Renamed f D env') {symbols : List Symbol}
    (hs : ∀ s ∈ symbols, D s.type) (k : Naming) :
    (renderEnvironment env' (symbols.map (Symbol.renamed f)) k).1.lines =
      (renderEnvironment env symbols k).1.lines := by
  have hsnd : ∀ ps : List (TypeId × String),
      (ps.map fun p => (f p.1, p.2)).map Prod.snd = ps.map Prod.snd := by
    intro ps
    rw [List.map_map]
    rfl
  have hforwards := textsOf_renamed env.forward? env'.forward? fun i hi =>
    h.forward? (h.listed i hi)
  have hdefinitions := textsOf_renamed env.define? env'.define? fun i hi =>
    h.define? (h.definitionOrder_mem i hi)
  rw [renderEnvironment_eq, renderEnvironment_eq, h.ids, h.definitionOrder]
  simp only [hforwards, hdefinitions, hsnd, h.declareSymbols hs]

/-- What rendering a table comes to. -/
theorem render_result (s : Settings) (t : Table) :
    (render s t).result.1 =
      match Environment.ofEntries t.types {} with
      | (.ok env, k) => .ok (linesText (renderEnvironment env t.globals k).1.lines)
      | (.error fault, _) => .error (.table fault) := by
  cases h : Environment.ofEntries t.types {} with
  | mk checked k =>
    cases checked with
    | ok env => exact (render_yields s h).result
    | error fault =>
      unfold render
      rw [h]
      rfl

/-- **A table that is `renamed` is rendered to the same text,** or fails with the same fault. -/
theorem render_renamed (hf : Renames f D) {t : Table} (ht : ∀ e ∈ t.types, ∀ i ∈ e.ids, D i)
    (hs : ∀ s ∈ t.globals, D s.type) (s : Settings) :
    (render s (t.renamed f)).result.1 = (render s t).result.1 := by
  rw [render_result, render_result]
  unfold Table.renamed
  rcases Environment.renamed_ofEntries hf ht {} with ⟨fault, k, h, h'⟩ | ⟨env, env', k, h, h', hr⟩
  · rw [h, h']
  · simp only [h, h', lines_renamed hr hs]

/-! ## 2. Registries -/

namespace Registry

/-- The registry with another renaming, or with none. -/
def withRenames (r : Registry) (renames : Option Renaming) : Registry := { r with renames }

variable (r : Registry) (m : Renaming)

theorem entry_renamed (row : Row) : (r.withRenames (some m)).entry row =
    ((r.withRenames none).entry row).renamed m.apply :=
  Entry.ofRecord_renamed m.apply (r.withRenames none).shown r.ledger.naming (r.kind row)
    (r.bases row.id) (r.rowRecord row)

theorem labelEntry_renamed (hvoid : m.apply ⟨"void"⟩ = ⟨"void"⟩) :
    (r.withRenames (some m)).labelEntry = (r.withRenames none).labelEntry.renamed m.apply := by
  have hattributes : (Attributes.empty.set "ref" "void").renamed m.apply =
      Attributes.empty.set "ref" "void" := by
    rw [Attributes.renamed_set_reference m.apply _ (k := "ref") (by decide) ⟨"void"⟩, hvoid]
    rfl
  unfold labelEntry Entry.renamed
  rw [hattributes]
  rfl

/-- **The table that is written with a renaming is the `renamed` table.** -/
theorem table_renamed (hvoid : m.apply ⟨"void"⟩ = ⟨"void"⟩) :
    (r.withRenames (some m)).table = (r.withRenames none).table.renamed m.apply := by
  have hentries : ∀ c, (r.withRenames (some m)).entriesOf c =
      ((r.withRenames none).entriesOf c).map (Entry.renamed m.apply) := by
    intro c
    have hrows : ∀ rows : List Row, rows.map (r.withRenames (some m)).entry =
        (rows.map (r.withRenames none).entry).map (Entry.renamed m.apply) := by
      intro rows
      rw [List.map_map]
      exact List.map_congr_left fun row _ => entry_renamed r m row
    have hlabel :
        (if c = .pointer ∧ r.hasLabel then [(r.withRenames (some m)).labelEntry] else []) =
        (if c = .pointer ∧ r.hasLabel then [(r.withRenames none).labelEntry] else []).map
          (Entry.renamed m.apply) := by
      rw [labelEntry_renamed r m hvoid]
      split <;> rfl
    have hentriesOf : ∀ o, (r.withRenames o).entriesOf c =
        (r.ledger.rows.filter fun row => row.category == c).map (r.withRenames o).entry ++
          if c = .pointer ∧ r.hasLabel then [(r.withRenames o).labelEntry] else [] := fun _ => rfl
    rw [hentriesOf, hentriesOf, List.map_append, hlabel, hrows]
  unfold table Table.renamed
  rw [List.map_flatMap, funext hentries]
  rfl

/-- **To register declarations with a renaming** renames their symbols. -/
theorem registerAll_renamed (ds : List Declaration) :
    registerAll (r.withRenames (some m)) ds =
      ((registerAll (r.withRenames none) ds).1.map (Symbol.renamed m.apply),
        (registerAll (r.withRenames none) ds).2.withRenames (some m)) := by
  induction ds generalizing r with
  | nil => rfl
  | cons d ds ih =>
    have hcons : ∀ o, registerAll (r.withRenames o) (d :: ds) =
        ((d.symbol? ((r.withRenames o).shown (r.register d.type).1)).toList ++
            (registerAll ((r.register d.type).2.withRenames o) ds).1,
          (registerAll ((r.register d.type).2.withRenames o) ds).2) := fun _ => rfl
    have hsymbol : (d.symbol? (m.apply (r.register d.type).1)).toList =
        (d.symbol? (r.register d.type).1).toList.map (Symbol.renamed m.apply) := by
      unfold Declaration.symbol?
      split
      · rfl
      · cases d.name <;> rfl
    rw [hcons, hcons, ih, List.map_append]
    show ((d.symbol? (m.apply (r.register d.type).1)).toList ++ _, _) = _
    rw [hsymbol]
    rfl

/-! ## 3. The identifiers of a table -/

/-- The identifiers that may stand in the table of the registry: those of no type, of the
fundamental types, of its own types, and of labels if it is asked for. -/
def Mentions (i : TypeId) : Prop :=
  i = .null ∨ Fundamental.isFundamental i = true ∨ i ∈ r.ids ∨ (r.hasLabel = true ∧ i = .label)

variable {r}

theorem Unrenamed.withRenames_none (h : r.Unrenamed) : r.withRenames none = r := by
  unfold withRenames
  rw [← h.renames]

theorem Kept.mentions_idOf (h : r.Kept) {t : CType} (hk : r.ledger.Known t) :
    r.Mentions (r.ledger.idOf t) := by
  obtain ⟨hid, hkd⟩ := h.sound.idOf_desugar hk
  rw [hid]
  cases h.sound.standing (CType.hasSugar_desugar t) hkd with
  | null _ hnull => exact .inl hnull
  | row row hm _ hrid => exact .inr (.inr (.inl (List.mem_map.2 ⟨row, hm, hrid⟩)))
  | fundamental s _ _ hfund => exact .inr (.inl hfund)

/-- **What the table says about a type** mentions no other identifiers than `Mentions` says. -/
theorem mentions_entry (h : r.Unrenamed) (ha : r.added = {}) {row : Row}
    (hm : row ∈ r.ledger.rows) : ∀ i ∈ (r.entry row).ids, r.Mentions i := by
  have hrefs : ∀ j, j ∈ (r.body row).refs ∨ j ∈ (r.bases row.id).map BaseEdge.base →
      r.Mentions j := by
    intro j hj
    obtain ⟨c, hc, rfl⟩ := mem_refs_body row (h.kept.bases_eq ha hm) hj
    exact h.kept.mentions_idOf (h.kept.closed row hm c hc)
  intro i hi
  rw [entry, h.shown] at hi
  rcases Entry.ids_ofRecord hi with hi | ⟨j, hj, hi⟩ | ⟨e, he, hi⟩ <;> rw [hi]
  · exact .inr (.inr (.inl (List.mem_map_of_mem hm)))
  · exact hrefs j (.inl hj)
  · exact hrefs e.base (.inr (List.mem_map_of_mem he))

theorem mentions_table (h : r.Unrenamed) (ha : r.added = {}) :
    ∀ e ∈ r.table.types, ∀ i ∈ e.ids, r.Mentions i := by
  intro e he
  rcases mem_types he with ⟨row, hm, rfl⟩ | ⟨hlabel, rfl⟩
  · exact mentions_entry h ha hm
  · have hids : r.labelEntry.ids = [.label, ⟨"void"⟩] := by
      rw [labelEntry, h.shown]
      rfl
    rw [hids]
    refine List.forall_mem_cons.2 ⟨.inr (.inr (.inr ⟨hlabel, rfl⟩)), ?_⟩
    exact List.forall_mem_singleton.2 (.inr (.inl rfl))

end Registry

/-! ## 4. Generation -/

/-- The table of a source without a renaming. -/
def plainTable (s : Settings) (ds : List Declaration) (sc : Scope) : Table :=
  ⟨if s.noTable then [] else (registered s ds sc).table.types, (registerAll (startOf s sc) ds).1⟩

/-- The table of a source `Mentions` no other identifiers. -/
theorem mentions_plainTable (s : Settings) (ds : List Declaration) (sc : Scope) :
    (∀ e ∈ (plainTable s ds sc).types, ∀ i ∈ e.ids, (registered s ds sc).Mentions i) ∧
      ∀ symbol ∈ (plainTable s ds sc).globals, (registered s ds sc).Mentions symbol.type := by
  obtain ⟨h, -, hknown, hsymbols⟩ := registered_unrenamed s ds sc
  have hadded : (registered s ds sc).added = {} := Registry.added_registerAll _ ds
  constructor
  · unfold plainTable
    split
    · exact List.forall_mem_nil _
    · exact Registry.mentions_table h hadded
  · intro symbol hm
    rw [plainTable, hsymbols] at hm
    obtain ⟨g, hg, rfl⟩ := List.mem_map.1 hm
    obtain ⟨d, hd, -, hdt⟩ := exists_of_mem_globalsOf hg
    exact h.kept.mentions_idOf (hdt ▸ hknown d hd)

/-- The table of a source is rendered without a fault. -/
theorem exists_render_plainTable (s : Settings) (ds : List Declaration) (sc : Scope)
    (s' : Settings) : ∃ text, (render s' (plainTable s ds sc)).result.1 = .ok text := by
  have hopened : ∃ env k, Environment.ofEntries (plainTable s ds sc).types {} = (.ok env, k) := by
    unfold plainTable
    split
    · exact ⟨_, _, rfl⟩
    · obtain ⟨env, k, -, hof, -⟩ := Registry.opened_ofEntries (registered_unrenamed s ds sc).1 {}
      exact ⟨env, k, hof⟩
  obtain ⟨env, k, hof⟩ := hopened
  exact ⟨_, (render_yields s' hof).result⟩

/-- A source that is refused is refused with and without a renaming. -/
theorem generateFrom_error (files : Files) (s : Settings) {source : String} {e : SourceError}
    (hp : parseSource source = .error e) :
    (generateFrom files s source).result.1 = .error (.source s.input e) := by
  unfold generateFrom
  rw [hp]
  rfl

theorem generateFrom_without (files : Files) {s : Settings} (hs : s.renames = none)
    {source : String} {ds : List Declaration} {sc : Scope}
    (hp : parseSource source = .ok (ds, sc)) :
    (generateFrom files s source).result.1 =
      .ok ⟨plainTable s ds sc, (registered s ds sc).stats⟩ :=
  (generateFrom_made files (loadRenames_none files hs) hp).result

theorem loadRenames_some {files : Files} {s : Settings} {path text : String} {m : Renaming}
    (hs : s.renames = some path) (hfile : files path = .ok text) (hm : Renaming.read text = .ok m) :
    (loadRenames files s).Yields (some m) := by
  rw [loadRenames, hs]
  exact Run.yields_bind (Run.yields_sayIf _ _) (Run.yields_bind (Run.yields_lift hfile)
    (Run.yields_bind (Run.yields_lift hm) (Run.yields_pure _)))

/-- With a renaming the table is the `renamed` one. -/
theorem generateFrom_with {files : Files} {s : Settings} {m : Renaming}
    (hload : (loadRenames files s).Yields (some m)) (hvoid : m.apply ⟨"void"⟩ = ⟨"void"⟩)
    {source : String} {ds : List Declaration} {sc : Scope}
    (hp : parseSource source = .ok (ds, sc)) :
    (generateFrom files s source).result.1 =
      .ok ⟨(plainTable s ds sc).renamed m.apply, (registered s ds sc).stats⟩ := by
  have hwith : registerAll { startOf s sc with renames := some m } ds =
      ((registerAll (startOf s sc) ds).1.map (Symbol.renamed m.apply),
        (registered s ds sc).withRenames (some m)) :=
    Registry.registerAll_renamed (startOf s sc) m ds
  have htable := Registry.table_renamed (registered s ds sc) m hvoid
  rw [(registered_unrenamed s ds sc).1.withRenames_none] at htable
  have htypes : (if s.noTable then [] else ((registered s ds sc).table.renamed m.apply).types) =
      (if s.noTable then [] else (registered s ds sc).table.types).map (Entry.renamed m.apply) := by
    split <;> rfl
  rw [(generateFrom_made files hload hp).result]
  simp only [hwith, htable, htypes]
  rfl

/-- **A typename map only renames.** Let the map keep the identifiers of the fundamental types and
of no type, and tell these apart from all that the registry of the source `Mentions`, that of labels
included if it is asked for. Then the source is read, or refused, as without the map; what
`generateFrom` gives is the table that is generated without it, with the map put on every identifier
(`Table.renamed`); and `render` writes the same text for both. -/
theorem generateFrom_renamed (files : Files) {s : Settings} {path text : String} {m : Renaming}
    (hs : s.renames = some path) (hfile : files path = .ok text) (hm : Renaming.read text = .ok m)
    {source : String}
    (hfix : ∀ i, i = .null ∨ Fundamental.isFundamental i = true → m.apply i = i)
    (hinj : ∀ ds sc, parseSource source = .ok (ds, sc) →
      Set.InjOn m.apply {i | (registered s ds sc).Mentions i}) :
    (generateFrom files s source).result.1 =
        (generateFrom files { s with renames := none } source).result.1.map
          (fun g => ⟨g.table.renamed m.apply, g.stats⟩) ∧
      ∀ g, (generateFrom files { s with renames := none } source).result.1 = .ok g → ∀ s',
        ∃ text, (render s' g.table).result.1 = .ok text ∧
          (render s' (g.table.renamed m.apply)).result.1 = .ok text := by
  cases hp : parseSource source with
  | error e =>
    rw [generateFrom_error files s hp, generateFrom_error files { s with renames := none } hp]
    exact ⟨rfl, nofun⟩
  | ok v =>
    obtain ⟨ds, sc⟩ := v
    have hf : Renames m.apply (registered s ds sc).Mentions :=
      ⟨fun i j hi hj => hinj ds sc hp hi hj, ⟨.inl rfl, hfix _ (.inl rfl)⟩,
        fun i hi => ⟨.inr (.inl hi), hfix i (.inr hi)⟩⟩
    have hwith := generateFrom_with (loadRenames_some hs hfile hm) (hfix ⟨"void"⟩ (.inr rfl)) hp
    have hwithout := generateFrom_without files (s := { s with renames := none }) rfl hp
    rw [hwith, hwithout]
    refine ⟨rfl, fun g hg s' => ?_⟩
    obtain rfl := Except.ok.inj hg
    obtain ⟨htypes, hglobals⟩ := mentions_plainTable s ds sc
    obtain ⟨text, htext⟩ := exists_render_plainTable s ds sc s'
    exact ⟨text, htext, (render_renamed hf htypes hglobals s').trans htext⟩

/-- A typename map in its written form. -/
def nodeMapText : String := "Struct0 Node\n"

/-- What `nodeMapText` is read as. -/
def nodeMap : Renaming := ⟨[("Struct0", "Node")]⟩

theorem nodeMap_apply (i : TypeId) : nodeMap.apply i = if i = ⟨"Struct0"⟩ then ⟨"Node"⟩ else i := by
  obtain ⟨text⟩ := i
  by_cases h : text = "Struct0"
  · subst h
    rfl
  · rw [if_neg fun he => h (congrArg TypeId.text he)]
    unfold Renaming.apply Renaming.get? nodeMap
    rw [List.lookup_cons, beq_eq_false_iff_ne.2 h]
    rfl

/-- On identifiers without the new one, the map is injective. -/
theorem injOn_nodeMap {ids : Set TypeId} (h : ⟨"Node"⟩ ∉ ids) : Set.InjOn nodeMap.apply ids := by
  intro i hi j hj he
  rw [nodeMap_apply, nodeMap_apply] at he
  split at he <;> split at he
  · simp_all
  · exact absurd (he ▸ hj) h
  · exact absurd (he ▸ hi) h
  · exact he

/-- A struct with a pointer to its kind, under a map that names the struct `Node`, which is no other
identifier of the source: the struct's entry and the pointer's reference change, the text does
not. -/
theorem generateFrom_renamed_node :
    (∀ i, i = .null ∨ Fundamental.isFundamental i = true → nodeMap.apply i = i) ∧
      (∀ ds sc, parseSource listSource = .ok (ds, sc) → Set.InjOn nodeMap.apply
        {i | (registered { input := "input.h", renames := some "names.map" } ds sc).Mentions i}) ∧
      ∃ g text,
        (generateFrom (fun _ => .ok nodeMapText) { input := "input.h" } listSource).result.1 =
          .ok g ∧
        (generateFrom (fun _ => .ok nodeMapText) { input := "input.h", renames := some "names.map" }
          listSource).result.1 = .ok ⟨g.table.renamed nodeMap.apply, g.stats⟩ ∧
        (g.table.renamed nodeMap.apply).types.map Entry.ids =
          [[⟨"Pointer0"⟩, ⟨"Node"⟩], [⟨"Node"⟩, ⟨"Pointer0"⟩]] ∧
        (render { input := "input.h" } g.table).result.1 = .ok text ∧
        (render { input := "input.h" } (g.table.renamed nodeMap.apply)).result.1 = .ok text := by
  let s : Settings := { input := "input.h", renames := some "names.map" }
  let sc := selfScope "next" (.pointer .none .pointer (.record .none ⟨0⟩))
  have hfix : ∀ i, i = .null ∨ Fundamental.isFundamental i = true → nodeMap.apply i = i := by
    intro i hi
    rw [nodeMap_apply, if_neg]
    rintro rfl
    revert hi
    decide
  have hids : (registered s selfDeclarations sc).ids = [⟨"Struct0"⟩, ⟨"Pointer0"⟩] := by
    simp only [registered, registerAll, selfDeclarations, startOf, Registry.typeName,
      Registry.register]
    rw [Ledger.register_eq_of_settleFor 4 rfl]
    decide
  have hinj : ∀ ds sc, parseSource listSource = .ok (ds, sc) →
      Set.InjOn nodeMap.apply {i | (registered s ds sc).Mentions i} := by
    intro ds sc hp
    obtain ⟨rfl, rfl⟩ := Prod.mk.inj (Except.ok.inj (parse_list.symm.trans hp))
    refine injOn_nodeMap fun hm => ?_
    rw [Set.mem_ofPred_eq, Registry.Mentions, hids] at hm
    revert hm
    decide
  have hplain := generateFrom_without (fun _ => .ok nodeMapText) (s := { input := "input.h" }) rfl
    parse_list
  have hread : Renaming.read nodeMapText = .ok nodeMap := by cbv
  have hpath : s.renames = some "names.map" := rfl
  obtain ⟨hrenamed, htexts⟩ :=
    generateFrom_renamed (fun _ => .ok nodeMapText) hpath rfl hread hfix hinj
  obtain ⟨text, htext⟩ := htexts _ hplain s
  refine ⟨hfix, hinj, _, text, hplain, hrenamed.trans (by rw [hplain]; rfl), ?_, htext⟩
  simp only [plainTable, registered, registerAll, selfDeclarations, startOf, Registry.typeName,
    Registry.register]
  rw [Ledger.register_eq_of_settleFor 4 rfl]
  decide

end TypeLedger
