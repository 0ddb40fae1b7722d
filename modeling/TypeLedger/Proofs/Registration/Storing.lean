import TypeLedger.Proofs.Registration.Agenda
import TypeLedger.Proofs.Registration.Desk

/-!
# What is stored while types are registered

* `Awaits`: what waits on a desk waits for the right answers.
* `Storing`: what a store says of the types that have a row. A `Drafting` row has no record yet, and
  the answers of the components that are done; a `Finished` row has its record. `Storing.reserve`,
  `Storing.fundamental`, `Storing.take`, `Storing.put` and `Storing.addBase` are the steps.
* `Desk.Fit` is what holds between two moves: `Step.fit` is the step, `run_spec` is the run. The
  ledger is the one that `Ledger.settle` gives.
-/

namespace TypeLedger

/-! ## 1. Answers -/

/-- The phase gives the type its identifier. -/
def Phase.Gives (l : Ledger) : Phase → CType → Prop
  | .visit u, t => u = t
  | .fill d _, t => d.row.type = t
  | .answer id, t => l.Known t ∧ l.idOf t = id

/-- The returns wait for the answer of a type, and the outermost registration is that of `root`. -/
def Awaits (root : CType) : CType → List Return → Prop
  | t, [] => t = root
  | t, .synonym u :: rs => u.hasSugar = true ∧ t = u.desugar ∧ Awaits root u rs
  | t, .component d c _ :: rs => t = c.type ∧ Awaits root d.row.type rs

/-- A draft, and the components that have not answered yet. -/
structure Frame where
  draft : Draft
  todo : List Component

def Phase.frame? : Phase → Option Frame
  | .fill d todo => some ⟨d, todo⟩
  | _ => none

def Return.frame? : Return → Option Frame
  | .synonym _ => none
  | .component d c todo => some ⟨d, c :: todo⟩

/-- The drafts on a desk, the innermost first. -/
def Desk.frames (k : Desk) : List Frame :=
  k.phase.frame?.toList ++ k.returns.filterMap Return.frame?

namespace Ledger

/-! ## 2. What a store says -/

variable {ctx : Context} {detail : Detail} {l l' : Ledger} {s : Store} {added : Inheritance}

/-- A declared base, by the identifier that its type has. -/
def edge (l : Ledger) (d : BaseDecl) : BaseEdge := ⟨d.access, l.idOf d.type, d.isVirtual⟩

/-- The record of a row, by the identifiers that its components have, and how it is stored
(`Draft.stored`). -/
def stored (ctx : Context) (l : Ledger) (row : Row) : Stored :=
  (⟨row, (ctx.components row.type).map l.idOf⟩ : Draft).stored ctx

/-- The components of the draft in front of `todo` have answered, and the bases among them are
written down beside the records. There is no record yet. -/
structure Drafting (ctx : Context) (added : Inheritance) (l : Ledger) (s : Store) (f : Frame) :
    Prop where
  row : f.draft.row ∈ l.rows
  split : ∃ done, ctx.componentList f.draft.row.type = done ++ f.todo ∧
    (∀ c ∈ done, l.Known c.type) ∧ f.draft.ids = done.map (fun c => l.idOf c.type) ∧
    s.beside.bases f.draft.row.id = (done.filterMap Component.base?).map l.edge
  added : added.bases f.draft.row.id = []
  entry : s.entries.lookup f.draft.row.id = none

/-- All bases of the row's type are written down, those it declares first, and its record is stored,
by the identifiers of its components. -/
structure Finished (ctx : Context) (added : Inheritance) (l : Ledger) (s : Store) (row : Row) :
    Prop where
  known : ∀ c ∈ ctx.components row.type, l.Known c
  beside : s.beside.bases row.id = (ctx.basesOf row.type).map l.edge ++ added.bases row.id
  entry : s.entries.lookup row.id = some ((stored ctx l row).addBases (added.bases row.id))

/-- What a store says between two moves, if `added` are the bases stated on top of those declared:
identifiers are reserved in the order of the rows; a row is in draft or finished; what has no row is
a fundamental type that has been met, or nothing is stored of it. -/
structure Storing (ctx : Context) (added : Inheritance) (l : Ledger) (s : Store) (fs : List Frame) :
    Prop where
  order : s.order = l.rows.map Row.id
  keys : (s.entries.map Prod.fst).Nodup
  nodup : (fs.map fun f => f.draft.row.id).Nodup
  drafting : ∀ f ∈ fs, Drafting ctx added l s f
  finished : ∀ row ∈ l.rows, (∀ f ∈ fs, f.draft.row.id ≠ row.id) → Finished ctx added l s row
  others : ∀ id, (∀ row ∈ l.rows, row.id ≠ id) → s.beside.bases id = added.bases id ∧
    s.entries.lookup id = (l.fundamentals.lookup id).map (Stored.fundamental ctx)
  /-- Nothing is stated of an identifier that has not been given yet. -/
  fresh : ∀ c n, (∀ row ∈ l.rows, row.id ≠ Category.id c n) → added.bases (c.id n) = []

theorem Storing.all_finished (h : Storing ctx added l s []) {row : Row} (hm : row ∈ l.rows) :
    Finished ctx added l s row :=
  h.finished row hm fun _ hf => absurd hf List.not_mem_nil

/-- No two drafts are for one row. -/
theorem Storing.ne_of_mem {f g : Frame} {fs : List Frame} (h : Storing ctx added l s (g :: fs))
    (hf : f ∈ fs) : f.draft.row.id ≠ g.draft.row.id :=
  fun he => (List.nodup_cons.1 h.nodup).1 (List.mem_map.2 ⟨f, hf, he⟩)

theorem storing_empty (ctx : Context) (l : Ledger) (hr : l.rows = []) (hf : l.fundamentals = []) :
    Storing ctx {} l {} [] where
  order := by rw [hr]; rfl
  keys := List.nodup_nil
  nodup := List.nodup_nil
  drafting := fun _ h => nomatch h
  finished := fun row h => by rw [hr] at h; cases h
  others := fun _ _ => ⟨rfl, by rw [hf]; rfl⟩
  fresh := fun _ _ _ => rfl

/-! ## 3. Steps -/

/-- Known components keep their identifiers. -/
theorem Sound.map_idOf (h : l.Sound ctx) (h' : l'.Sound ctx) (he : l.Extends l') {cs : List CType}
    (hk : ∀ c ∈ cs, l.Known c) : cs.map l'.idOf = cs.map l.idOf :=
  List.map_congr_left fun c hc => h.idOf_eq h' he (hk c hc)

theorem Sound.map_edge (h : l.Sound ctx) (h' : l'.Sound ctx) (he : l.Extends l')
    {ds : List BaseDecl} (hk : ∀ d ∈ ds, l.Known d.type) : ds.map l'.edge = ds.map l.edge :=
  List.map_congr_left fun d hd => by rw [edge, edge, h.idOf_eq h' he (hk d hd)]

theorem mem_components_of_base {t : CType} {d : BaseDecl} (hd : d ∈ ctx.basesOf t) :
    d.type ∈ ctx.components t := by
  rw [ctx.components_eq]
  exact List.mem_append_right _ (List.mem_map_of_mem hd)

theorem known_of_base? {cs : List Component} (hk : ∀ c ∈ cs, l.Known c.type) :
    ∀ d ∈ cs.filterMap Component.base?, l.Known d.type := by
  intro d hd
  obtain ⟨c, hc, hcd⟩ := List.mem_filterMap.1 hd
  cases c with
  | part t => cases hcd
  | base d' =>
    obtain rfl : d' = d := Option.some.inj hcd
    exact hk _ hc

section Steps

variable {f : Frame} {fs : List Frame} {row : Row} {t : CType}

theorem Drafting.mono (h : Drafting ctx added l s f) (hs : l.Sound ctx) (hs' : l'.Sound ctx)
    (he : l.Extends l') : Drafting ctx added l' s f := by
  obtain ⟨done, hsplit, hk, hids, hbeside⟩ := h.split
  refine ⟨he.rows.subset h.row, ⟨done, hsplit, fun c hc => (hk c hc).mono he, ?_, ?_⟩, h.added,
    h.entry⟩
  · rw [hids]
    exact List.map_congr_left fun c hc => (hs.idOf_eq hs' he (hk c hc)).symm
  · rw [hbeside, hs.map_edge hs' he (known_of_base? hk)]

theorem Finished.mono (h : Finished ctx added l s row) (hs : l.Sound ctx) (hs' : l'.Sound ctx)
    (he : l.Extends l') : Finished ctx added l' s row where
  known c hc := (h.known c hc).mono he
  beside := by rw [h.beside, hs.map_edge hs' he fun d hd => h.known _ (mem_components_of_base hd)]
  entry := by rw [h.entry, stored, stored, hs.map_idOf hs' he h.known]

/-- A ledger that knows more, with no more rows and fundamental types, has the same store. -/
theorem Storing.mono (h : Storing ctx added l s fs) (hs : l.Sound ctx) (hs' : l'.Sound ctx)
    (he : l.Extends l') (hr : l'.rows = l.rows) (hf : l'.fundamentals = l.fundamentals) :
    Storing ctx added l' s fs where
  order := by rw [hr, h.order]
  keys := h.keys
  nodup := h.nodup
  drafting f hf := (h.drafting f hf).mono hs hs' he
  finished row hm hn := (h.finished row (hr ▸ hm) hn).mono hs hs' he
  others id hid := by rw [hf]; exact h.others id (hr ▸ hid)
  fresh c n hid := h.fresh c n (hr ▸ hid)

/-- What is stored under the identifier of one row says nothing of the others. -/
theorem Drafting.congr {s' : Store} (h : Drafting ctx added l s f)
    (hb : s'.beside.bases f.draft.row.id = s.beside.bases f.draft.row.id)
    (hr : s'.entries.lookup f.draft.row.id = s.entries.lookup f.draft.row.id) :
    Drafting ctx added l s' f := by
  obtain ⟨done, hsplit, hk, hids, hbeside⟩ := h.split
  exact { h with split := ⟨done, hsplit, hk, hids, hb.trans hbeside⟩, entry := hr.trans h.entry }

theorem Finished.congr {s' : Store} (h : Finished ctx added l s row)
    (hb : s'.beside.bases row.id = s.beside.bases row.id)
    (hr : s'.entries.lookup row.id = s.entries.lookup row.id) : Finished ctx added l s' row :=
  ⟨h.known, hb.trans h.beside, hr.trans h.entry⟩

/-- No row has the identifier of a fundamental type. -/
theorem Sound.row_id_ne (h : l.Sound ctx) {id : TypeId} (hf : Fundamental.isFundamental id = true)
    (hm : row ∈ l.rows) : row.id ≠ id := by
  rintro rfl
  obtain ⟨n, hid⟩ := h.id_of_mem_rows hm
  rw [hid, Fundamental.not_isFundamental_id] at hf
  cases hf

/-- The identifier of a new row is that of no old one: its type is new. -/
theorem Sound.id_newRow_ne (hs : l.Sound ctx) (hs' : l'.Sound ctx) (he : l.Extends l')
    {c : Category} (hl : l.memo.lookup t = none) (hmem : newRow ctx c t l ∈ l'.rows) :
    ∀ row ∈ l.rows, row.id ≠ (newRow ctx c t l).id := by
  intro row hm hid
  have hrow := hs'.row_unique (he.rows.subset hm) hmem hid
  have hmemo := hs.row_memo row hm
  rw [hrow] at hmemo
  cases hl.symm.trans hmemo

/-- **A type that is reserved comes to be a `Draft`,** before all of its components. -/
theorem Storing.reserve {c : Category} (h : Storing ctx added l s fs) (hs : l.Sound ctx)
    (hn : t.isNull = false) (hl : l.memo.lookup t = none) (hsugar : t.hasSugar = false)
    (hc : ctx.category? t = some c) :
    Storing ctx added (l.enter ctx detail t) (s.reserve (newRow ctx c t l).id)
      (⟨⟨newRow ctx c t l, []⟩, ctx.componentList t⟩ :: fs) := by
  have he : l.Extends (l.enter ctx detail t) := extends_enter hl
  have hs' : (l.enter ctx detail t).Sound ctx := hs.enter hl hn hsugar
  have henter : l.enter ctx detail t = l.enterRow ctx detail c t := by rw [enter, hc]
  have hrows : (l.enter ctx detail t).rows = l.rows ++ [newRow ctx c t l] := by
    rw [henter, rows_enterRow]
  have hfund : (l.enter ctx detail t).fundamentals = l.fundamentals := by
    rw [henter, fundamentals_enterRow]
  have hmem : newRow ctx c t l ∈ (l.enter ctx detail t).rows := by
    rw [hrows]
    exact List.mem_append_right _ List.mem_cons_self
  have hnew := hs.id_newRow_ne hs' he hl hmem
  have hadded : added.bases (newRow ctx c t l).id = [] := by
    obtain ⟨n, hid⟩ := hs'.id_of_mem_rows hmem
    rw [hid] at hnew ⊢
    exact h.fresh _ n hnew
  have hothers := h.others _ hnew
  constructor
  · rw [hrows, List.map_append, ← h.order]
    rfl
  · exact h.keys
  · refine List.nodup_cons.2 ⟨fun hm => ?_, h.nodup⟩
    obtain ⟨f, hf, hid⟩ := List.mem_map.1 hm
    exact hnew _ (h.drafting f hf).row hid
  · intro f hf
    rcases List.mem_cons.1 hf with rfl | hf
    · refine ⟨hmem, ⟨[], rfl, fun c hc => absurd hc List.not_mem_nil, rfl, ?_⟩, hadded, ?_⟩
      · exact hothers.1.trans hadded
      · refine hothers.2.trans ?_
        cases hlook : l.fundamentals.lookup (newRow ctx c t l).id with
        | none => rfl
        | some sp =>
          have hf := (hs.spelt _ (Keyed.mem_of_lookup hlook)).2
          exact absurd rfl (hs'.row_id_ne hf hmem)
    · exact ((h.drafting f hf).mono hs hs' he).congr rfl rfl
  · intro row hm hframes
    rw [hrows] at hm
    rcases List.mem_append.1 hm with hm | hm
    · have hfin := h.finished row hm fun f hf => hframes f (List.mem_cons_of_mem _ hf)
      exact (hfin.mono hs hs' he).congr rfl rfl
    · exact absurd rfl (List.mem_singleton.1 hm ▸ hframes _ List.mem_cons_self)
  · intro id hid
    rw [hfund]
    exact h.others id fun row hm => hid row (he.rows.subset hm)
  · exact fun c n hid => h.fresh c n fun row hm => hid row (he.rows.subset hm)

theorem lookup_enterFundamental_self (spelling : String) :
    (l.enterFundamental (.builtin .none spelling)).fundamentals.lookup
        (Fundamental.idOfSpelling spelling) =
      some ((l.fundamentals.lookup (Fundamental.idOfSpelling spelling)).getD spelling) := by
  rw [fundamentals_enterFundamental, Keyed.has]
  cases h : l.fundamentals.lookup (Fundamental.idOfSpelling spelling) with
  | some sp => simpa using h
  | none => simp [List.lookup_append, h]

theorem lookup_enterFundamental_of_ne (spelling : String) {id : TypeId}
    (h : id ≠ Fundamental.idOfSpelling spelling) :
    (l.enterFundamental (.builtin .none spelling)).fundamentals.lookup id =
      l.fundamentals.lookup id := by
  have hb : (id == Fundamental.idOfSpelling spelling) = false := by simpa using h
  rw [fundamentals_enterFundamental]
  split
  · rfl
  · simp [List.lookup_append, List.lookup_cons, hb]

/-- **A fundamental type is stored when it is first met.** -/
theorem Storing.fundamental {spelling : String} (h : Storing ctx added l s fs) (hs : l.Sound ctx)
    (hl : l.memo.lookup (.builtin .none spelling) = none)
    (hf : Fundamental.isFundamental (Fundamental.idOfSpelling spelling) = true) :
    Storing ctx added (l.enter ctx detail (.builtin .none spelling))
      (s.putNew (.fundamental ctx spelling)) fs := by
  have henter : l.enter ctx detail (.builtin .none spelling) =
      l.enterFundamental (.builtin .none spelling) := by
    have hc : ctx.category? (.builtin .none spelling) = none := if_pos hf
    rw [enter, hc]
  have he : l.Extends (l.enter ctx detail (.builtin .none spelling)) := extends_enter hl
  have hs' : (l.enter ctx detail (.builtin .none spelling)).Sound ctx := hs.enter hl rfl rfl
  rw [henter] at he hs' ⊢
  have hrow : ∀ row ∈ l.rows, row.id ≠ Fundamental.idOfSpelling spelling :=
    fun row hm => hs.row_id_ne hf hm
  have hne : ∀ id, id ≠ Fundamental.idOfSpelling spelling →
      (s.putNew (.fundamental ctx spelling)).entries.lookup id = s.entries.lookup id :=
    fun id hid => s.lookup_putNew_of_ne _ hid
  constructor
  · exact (Store.order_putNew _ _).trans h.order
  · exact Store.nodup_putNew h.keys _
  · exact h.nodup
  · intro f hframe
    have hd := h.drafting f hframe
    exact (hd.mono hs hs' he).congr (by rw [Store.beside_putNew]) (hne _ (hrow _ hd.row))
  · intro row hm hframes
    have hfin := h.finished row hm hframes
    exact (hfin.mono hs hs' he).congr (by rw [Store.beside_putNew]) (hne _ (hrow _ hm))
  · intro id hid
    obtain ⟨hb, hr⟩ := h.others id hid
    refine ⟨by rw [Store.beside_putNew, hb], ?_⟩
    by_cases hown : id = Fundamental.idOfSpelling spelling
    · subst hown
      rw [lookup_enterFundamental_self]
      refine (s.lookup_putNew_self (.fundamental ctx spelling)).trans ?_
      show some ((s.entries.lookup (Fundamental.idOfSpelling spelling)).getD _) = _
      rw [hr]
      cases l.fundamentals.lookup (Fundamental.idOfSpelling spelling) <;> rfl
    · rw [hne id hown, hr, lookup_enterFundamental_of_ne _ hown]
  · exact h.fresh

/-- **A component that has answered is taken into the `Draft`,** and written down beside the records
if it is a base. -/
theorem Storing.take {d : Draft} {c : Component} {todo : List Component} {id : TypeId}
    (h : Storing ctx added l s (⟨d, c :: todo⟩ :: fs)) (hk : l.Known c.type)
    (hid : l.idOf c.type = id) :
    Storing ctx added l (s.state d.row.id c id)
      (⟨{ d with ids := d.ids ++ [id] }, todo⟩ :: fs) := by
  have hd := h.drafting _ List.mem_cons_self
  constructor
  · rw [Store.order_state, h.order]
  · rw [Store.entries_state]
    exact h.keys
  · exact h.nodup
  · intro f hf
    rcases List.mem_cons.1 hf with rfl | hf
    · obtain ⟨done, hsplit, hdone, hids, hbeside⟩ := hd.split
      refine ⟨hd.row, ⟨done ++ [c], by simp [hsplit], ?_, ?_, ?_⟩, hd.added, ?_⟩
      · intro c' hc'
        rcases List.mem_append.1 hc' with hc' | hc'
        · exact hdone c' hc'
        · exact List.mem_singleton.1 hc' ▸ hk
      · show d.ids ++ [id] = _
        rw [hids, List.map_append, List.map_singleton, hid]
      · show (s.state d.row.id c id).beside.bases d.row.id = _
        rw [Store.bases_state_self, hbeside, List.filterMap_append, List.map_append, ← hid]
        cases c <;> rfl
      · show (s.state d.row.id c id).entries.lookup d.row.id = none
        rw [Store.entries_state]
        exact hd.entry
    · have hne : f.draft.row.id ≠ d.row.id := h.ne_of_mem hf
      exact (h.drafting f (List.mem_cons_of_mem _ hf)).congr (Store.bases_state_of_ne s hne c id)
        (by rw [Store.entries_state])
  · intro row hm hframes
    obtain ⟨hne, hframes⟩ := List.forall_mem_cons.1 hframes
    have hfin := h.finished row hm (List.forall_mem_cons.2 ⟨hne, hframes⟩)
    exact hfin.congr (Store.bases_state_of_ne s (Ne.symm hne) c id) (by rw [Store.entries_state])
  · intro id' hnone
    have hne : id' ≠ d.row.id := Ne.symm (hnone _ hd.row)
    rw [Store.bases_state_of_ne s hne c id, Store.entries_state]
    exact h.others id' hnone
  · exact h.fresh

/-- A draft whose `components` have all answered has the record of its row. -/
theorem Drafting.stored_eq {d : Draft} (h : Drafting ctx added l s ⟨d, []⟩) :
    d.stored ctx = stored ctx l d.row ∧ (∀ c ∈ ctx.components d.row.type, l.Known c) ∧
      s.beside.bases d.row.id = (ctx.basesOf d.row.type).map l.edge := by
  obtain ⟨done, hsplit, hk, hids, hbeside⟩ := h.split
  obtain rfl : done = ctx.componentList d.row.type := by rw [hsplit, List.append_nil]
  refine ⟨?_, fun c hc => ?_, by rw [hbeside, ctx.base?_componentList]⟩
  · have hids' : d.ids = (ctx.components d.row.type).map l.idOf := by
      rw [← ctx.type_componentList, List.map_map]
      exact hids
    rw [stored, ← hids']
  · rw [← ctx.type_componentList] at hc
    obtain ⟨c, hm, rfl⟩ := List.mem_map.1 hc
    exact hk c hm

/-- **The record is stored when all components have answered** (`Draft.stored`). -/
theorem Storing.put {d : Draft} (h : Storing ctx added l s (⟨d, []⟩ :: fs)) (hs : l.Sound ctx) :
    Storing ctx added l (s.put (d.stored ctx)) fs := by
  have hd := h.drafting _ List.mem_cons_self
  obtain ⟨hstored, hknown, hbeside⟩ := hd.stored_eq
  have hself : (s.put (d.stored ctx)).entries.lookup d.row.id = some (d.stored ctx) := by
    rw [Store.put, d.id_stored]
    exact Keyed.lookup_set_self _ _ _
  have hother : ∀ id, id ≠ d.row.id →
      (s.put (d.stored ctx)).entries.lookup id = s.entries.lookup id := by
    intro id hid
    rw [Store.put, d.id_stored]
    exact Keyed.lookup_set_of_ne hid _ _
  constructor
  · exact h.order
  · exact Keyed.nodup_keys_set h.keys _ _
  · exact (List.nodup_cons.1 h.nodup).2
  · intro f hf
    have hne : f.draft.row.id ≠ d.row.id := h.ne_of_mem hf
    exact (h.drafting f (List.mem_cons_of_mem _ hf)).congr rfl (hother _ hne)
  · intro row hm hframes
    by_cases hrow : d.row.id = row.id
    · obtain rfl : d.row = row := hs.row_unique hd.row hm hrow
      have hadded : added.bases d.row.id = [] := hd.added
      refine ⟨hknown, ?_, ?_⟩
      · rw [hadded, List.append_nil]
        exact hbeside
      · rw [hself, hadded, Stored.addBases_nil, hstored]
    · have hfin := h.finished row hm (List.forall_mem_cons.2 ⟨hrow, hframes⟩)
      exact hfin.congr rfl (hother _ (Ne.symm hrow))
  · intro id hnone
    rw [hother id (Ne.symm (hnone _ hd.row))]
    exact h.others id hnone
  · exact h.fresh

/-- **A base that is stated late** is written beside the records and into the record of a class;
`hid`: an identifier that has a number has a row. -/
theorem Storing.addBase {id : TypeId} (h : Storing ctx added l s [])
    (hid : ∀ c n, id = Category.id c n → ∃ row ∈ l.rows, row.id = id) (edge : BaseEdge) :
    Storing ctx (added.add id edge) l (s.addBase id edge) [] := by
  constructor
  · rw [Store.order_addBase, h.order]
  · exact Store.nodup_addBase h.keys _ _
  · exact List.nodup_nil
  · exact fun _ hf => nomatch hf
  · intro row hm _
    have hfin := h.all_finished hm
    by_cases hrow : row.id = id
    · subst hrow
      refine ⟨hfin.known, ?_, ?_⟩
      · rw [Store.beside_addBase, Inheritance.bases_add_self, Inheritance.bases_add_self,
          hfin.beside, List.append_assoc]
      · rw [Store.lookup_addBase_self, hfin.entry, Inheritance.bases_add_self,
          Stored.addBases_append]
        rfl
    · refine ⟨hfin.known, ?_, ?_⟩
      · rw [Store.beside_addBase, Inheritance.bases_add_of_ne _ hrow,
          Inheritance.bases_add_of_ne _ hrow, hfin.beside]
      · rw [Store.lookup_addBase_of_ne _ hrow, hfin.entry, Inheritance.bases_add_of_ne _ hrow]
  · intro id' hnone
    obtain ⟨hb, hr⟩ := h.others id' hnone
    by_cases he : id' = id
    · subst he
      rw [Store.beside_addBase, Inheritance.bases_add_self, Inheritance.bases_add_self, hb,
        Store.lookup_addBase_self, hr]
      refine ⟨rfl, ?_⟩
      -- the record of a fundamental type has no bases in it
      cases l.fundamentals.lookup id' <;> rfl
    · rw [Store.beside_addBase, Inheritance.bases_add_of_ne _ he, Inheritance.bases_add_of_ne _ he,
        Store.lookup_addBase_of_ne _ he]
      exact ⟨hb, hr⟩
  · intro c n hnone
    have hne : c.id n ≠ id := by
      rintro rfl
      obtain ⟨row, hm, hrow⟩ := hid c n rfl
      exact hnone row hm hrow
    rw [Inheritance.bases_add_of_ne _ hne]
    exact h.fresh c n hnone

end Steps

/-! ## 4. Known types -/

/-- A type that has answered with the identifier that its canonical form has is entered as one with
synonyms. -/
theorem enterAs_eq {t : CType} {id : TypeId} (h : l.idOf t.desugar = id) :
    l.enterAs ctx detail t id = l.enterSynonym ctx detail t := by
  rw [enterAs, enterSynonym, h]

section Settle

variable {ts : List CType} {tasks : List Task} {t : CType}
  (covered : Covered (ctx.closure ts) (.visit t :: tasks)) (hn : t.isNull = false)
include hn

theorem settle_known {id : TypeId} (hl : l.memo.lookup t = some id) :
    l.settle ctx detail ts (.visit t :: tasks) covered =
      (l.note detail (.hit id (ctx.describe t))).settle ctx detail ts tasks covered.tail := by
  rw [settle, if_neg (by simp [hn])]
  split
  · rename_i hl'
    cases hl.symm.trans hl'
    rfl
  · rename_i hl'
    cases hl.symm.trans hl'

theorem settle_new (hl : l.memo.lookup t = none) :
    l.settle ctx detail ts (.visit t :: tasks) covered =
      if hs : t.hasSugar then
        l.settle ctx detail ts (.visit t.desugar :: .conclude t :: tasks) covered.desugar
      else
        (l.enter ctx detail t).settle ctx detail ts ((ctx.components t).map .visit ++ tasks)
          (covered.components (by simpa using hs)) := by
  rw [settle, if_neg (by simp [hn])]
  split
  · rename_i hl'
    cases hl.symm.trans hl'
  · rfl

end Settle

theorem settle_congr {ts : List CType} {tasks tasks' : List Task} (h : tasks = tasks')
    (covered : Covered (ctx.closure ts) tasks) (covered' : Covered (ctx.closure ts) tasks') :
    l.settle ctx detail ts tasks covered = l.settle ctx detail ts tasks' covered' := by
  subst h
  rfl

/-- The identifier of a `Known` type has a row, if it has a number. -/
theorem Sound.row_of_known (h : l.Sound ctx) {t : CType} (hk : l.Known t) {c : Category} {n : Nat}
    (hid : l.idOf t = c.id n) : ∃ row ∈ l.rows, row.id = l.idOf t := by
  obtain ⟨he, hk'⟩ := h.idOf_desugar hk
  have hst := h.standing (CType.hasSugar_desugar t) hk'
  rw [← he] at hst
  cases hst with
  | null _ hnull => exact absurd (hid.symm.trans hnull) (Category.id_ne_null _ _)
  | row row hm _ hrow => exact ⟨row, hm, hrow⟩
  | fundamental _ _ _ hf _ =>
    rw [hid, Fundamental.not_isFundamental_id] at hf
    cases hf

end Ledger

/-! ## 5. Moves and runs -/

namespace Desk

variable {ctx : Context} {detail : Detail} {k k' : Desk} {added : Inheritance} {root : CType}
  {ts : List CType}

/-- What holds between two moves, if the outermost registration is that of `root`. -/
structure Fit (ctx : Context) (added : Inheritance) (root : CType) (k : Desk) : Prop where
  agenda : Ledger.Agenda ctx k.ledger k.tasks
  awaited : ∃ t, k.phase.Gives k.ledger t ∧ Awaits root t k.returns
  storing : Ledger.Storing ctx added k.ledger k.store k.frames

theorem awaited_visit {t : CType} {rs : List Return} {l : Ledger} {s : Store}
    (h : Fit ctx added root ⟨.visit t, rs, l, s⟩) : Awaits root t rs := by
  obtain ⟨t', rfl, ha⟩ := h.awaited
  exact ha

/-- **A move keeps what holds on the desk** (`Fit`). There is a case for each kind of move. -/
theorem Step.fit (hstep : Step ctx detail k k') (h : Fit ctx added root k) :
    Fit ctx added root k' := by
  have hs : k.ledger.Sound ctx := h.agenda.sound
  cases hstep with
  | @null t rs l s hn =>
    have hp := Ledger.Progress.known h.agenda (.inl hn) hs (.refl l) rfl
    exact ⟨hp.agenda, ⟨t, ⟨.inl hn, Ledger.idOf_of_isNull hs.not_null hn⟩, awaited_visit h⟩,
      h.storing⟩
  | @hit t rs l s id hl =>
    have hk : l.Known t := Ledger.known_of_lookup hl
    have hs' := hs.note detail (.hit id (ctx.describe t))
    have he := l.extends_note detail (.hit id (ctx.describe t))
    have hp := Ledger.Progress.known h.agenda hk hs' he (Ledger.rows_note _ _ _)
    refine ⟨hp.agenda, ⟨t, ⟨hk.mono he, ?_⟩, awaited_visit h⟩, ?_⟩
    · rw [hs.idOf_eq hs' he hk, Ledger.idOf_of_lookup hl]
    · exact h.storing.mono hs hs' he (Ledger.rows_note _ _ _) (Ledger.fundamentals_note _ _ _)
  | @desugar t rs l s _ _ hsugar =>
    have hp := Ledger.Progress.desugar h.agenda hsugar
    exact ⟨hp.agenda, ⟨t.desugar, rfl, hsugar, rfl, awaited_visit h⟩, h.storing⟩
  | @reserve t rs l s c hn hl hsugar hc =>
    have hp : Ledger.Progress ctx l _ (l.enter ctx detail t) _ :=
      .enter h.agenda hn hl hsugar
    refine ⟨?_, ⟨t, rfl, awaited_visit h⟩, h.storing.reserve hs hn hl hsugar hc⟩
    rw [tasks, Phase.tasks, visits_componentList]
    exact hp.agenda
  | @fundamental spelling rs l s hl hf =>
    have hp : Ledger.Progress ctx l _ (l.enter ctx detail (.builtin .none spelling)) _ :=
      .enter h.agenda rfl hl rfl
    have hc : ctx.category? (.builtin .none spelling) = none := if_pos hf
    have hk : (l.enter ctx detail (.builtin .none spelling)).memo.lookup (.builtin .none spelling) =
        some _ := Ledger.lookup_enter_self
    have hid := (hp.agenda.sound.fundamental _ _ hk rfl hc).1
    exact ⟨hp.agenda, ⟨_, ⟨Ledger.known_of_lookup hk, hid⟩, awaited_visit h⟩,
      h.storing.fundamental hs hl hf⟩
  | @descend d c todo rs l s =>
    obtain ⟨t, rfl, ha⟩ := h.awaited
    exact ⟨h.agenda, ⟨c.type, rfl, rfl, ha⟩, h.storing⟩
  | @put d rs l s =>
    obtain ⟨t, rfl, ha⟩ := h.awaited
    have hrow : d.row ∈ l.rows := (h.storing.drafting _ List.mem_cons_self).row
    have hmemo := hs.row_memo _ hrow
    exact ⟨h.agenda, ⟨_, ⟨Ledger.known_of_lookup hmemo, Ledger.idOf_of_lookup hmemo⟩, ha⟩,
      h.storing.put hs⟩
  | @synonym id t rs l s =>
    obtain ⟨t', ⟨hk, hid⟩, hsugar, rfl, ha⟩ := h.awaited
    have hp : Ledger.Progress ctx l _ (l.enterSynonym ctx detail t) _ := .conclude h.agenda
    have hmemo : (l.enterSynonym ctx detail t).memo.lookup t = some id := by
      rw [Ledger.memo_enterSynonym, Keyed.lookup_set_self, hid]
    rw [Ledger.enterAs_eq hid]
    refine ⟨hp.agenda, ⟨t, ⟨Ledger.known_of_lookup hmemo, Ledger.idOf_of_lookup hmemo⟩, ha⟩, ?_⟩
    exact h.storing.mono hs hp.agenda.sound hp.extends_ (Ledger.rows_note _ _ _)
      (Ledger.fundamentals_note _ _ _)
  | @component id d c todo rs l s =>
    obtain ⟨t, ⟨hk, hid⟩, rfl, ha⟩ := h.awaited
    exact ⟨h.agenda, ⟨_, rfl, ha⟩, h.storing.take hk hid⟩

/-- **A move works off what it does of the ledger's agenda.** -/
theorem Step.settle_eq (hstep : Step ctx detail k k') (h : Fit ctx added root k)
    (covered : Ledger.Covered (ctx.closure ts) k.tasks) :
    k.ledger.settle ctx detail ts k.tasks covered =
      k'.ledger.settle ctx detail ts k'.tasks (hstep.covered covered) := by
  cases hstep with
  | null hn => exact (Ledger.settle.eq_3 ..).trans (if_pos hn)
  | hit hl => exact Ledger.settle_known covered (h.agenda.sound.not_null _ _ hl) hl
  | desugar hn hl hs => exact (Ledger.settle_new covered hn hl).trans (dif_pos hs)
  | reserve hn hl hs _ =>
    refine (Ledger.settle_new covered hn hl).trans ((dif_neg (by simp [hs])).trans ?_)
    refine Ledger.settle_congr ?_ _ _
    rw [tasks, Phase.tasks, visits_componentList]
    rfl
  | fundamental hl _ => exact Ledger.settle_new covered rfl hl
  | descend => rfl
  | put => rfl
  | synonym =>
    obtain ⟨t', ⟨-, hid⟩, -, rfl, -⟩ := h.awaited
    refine (Ledger.settle.eq_2 ..).trans ?_
    simp only [Ledger.enterAs_eq hid]
    rfl
  | component => rfl

/-- **A run stores the record of every type that it reserves,** gives the ledger that a registration
gives, and answers the identifier of its type. -/
theorem run_spec (detail : Detail) {l : Ledger} {s : Store} (t : CType) (hs : l.Sound ctx)
    (hc : l.Closed ctx) (h : Ledger.Storing ctx added l s []) :
    (run ctx detail [t] ⟨.visit t, [], l, s⟩ (Ledger.Covered.single ctx t)).ledger =
        l.register ctx detail t ∧
      (run ctx detail [t] ⟨.visit t, [], l, s⟩ (Ledger.Covered.single ctx t)).phase =
        .answer ((l.register ctx detail t).idOf t) ∧
      Ledger.Storing ctx added (l.register ctx detail t)
        (run ctx detail [t] ⟨.visit t, [], l, s⟩ (Ledger.Covered.single ctx t)).store [] := by
  have hfit : Fit ctx added t ⟨.visit t, [], l, s⟩ :=
    ⟨⟨hs, trivial, fun row hm c hcomp => .inl (hc row hm c hcomp)⟩, ⟨t, rfl, rfl⟩, h⟩
  have hkeeps : ∀ k k', Step ctx detail k k' →
      (Fit ctx added t k ∧ ∃ covered : Ledger.Covered (ctx.closure [t]) k.tasks,
        k.ledger.settle ctx detail [t] k.tasks covered = l.register ctx detail t) →
      Fit ctx added t k' ∧ ∃ covered : Ledger.Covered (ctx.closure [t]) k'.tasks,
        k'.ledger.settle ctx detail [t] k'.tasks covered = l.register ctx detail t := by
    rintro k k' hstep ⟨hk, covered, hsettle⟩
    exact ⟨hstep.fit hk, hstep.covered covered, (hstep.settle_eq hk covered).symm.trans hsettle⟩
  obtain ⟨hlast, covered, hledger⟩ :=
    run_induction hkeeps (Ledger.Covered.single ctx t) ⟨hfit, Ledger.Covered.single ctx t, rfl⟩
  obtain ⟨id, hphase, hreturns⟩ :=
    run_answers detail ⟨.visit t, [], l, s⟩ (Ledger.Covered.single ctx t)
  generalize run ctx detail [t] ⟨.visit t, [], l, s⟩ (Ledger.Covered.single ctx t) = last at *
  obtain ⟨phase, returns, ledger, store⟩ := last
  obtain rfl : phase = .answer id := hphase
  obtain rfl : returns = [] := hreturns
  obtain rfl : ledger = l.register ctx detail t := (Ledger.settle.eq_1 ..).symm.trans hledger
  obtain ⟨t', ⟨-, hid⟩, ht⟩ := hlast.awaited
  obtain rfl : t' = t := ht
  exact ⟨rfl, congrArg Phase.answer hid.symm, hlast.storing⟩

end Desk

end TypeLedger
