import Mathlib.Data.List.Basic
import TypeLedger.Proofs.Layers.DefinitionOrder
import TypeLedger.Proofs.Renaming.Entries

/-!
# Environments under other identifiers

* `Renames f D`: `f` tells the identifiers of `D` apart, and fixes those of the fundamental types
  and the null identifier.
* `Layer.Renamed`: a layer has the records of another under other identifiers. `Renamed.accept` is
  the step of one entry, `renamed_add` the run over a list of them.
* `Environment.Renamed`: the same for environments. `Renamed.declareWith`, `Renamed.define?` and the
  lemmas beside them: whatever is asked of the one under an identifier, the other answers the same
  under the new one.
* `Renamed.definitionOrder`: both define the same aggregates in the same order.
-/

namespace TypeLedger

/-- The renaming tells the identifiers of `D` apart. Those of the fundamental types and the null
identifier are among them, and are kept. -/
structure Renames (f : TypeId → TypeId) (D : TypeId → Prop) : Prop where
  injective : ∀ i j, D i → D j → f i = f j → i = j
  null : D .null ∧ f .null = .null
  fundamental : ∀ i, Fundamental.isFundamental i = true → D i ∧ f i = i

variable {f : TypeId → TypeId} {D : TypeId → Prop}

/-- An identifier of `D` has been seen if and only if its new one has been. -/
theorem Renames.mem_map (hf : Renames f D) {seen : List TypeId} (hs : ∀ j ∈ seen, D j) {i : TypeId}
    (hi : D i) : f i ∈ seen.map f ↔ i ∈ seen := by
  refine ⟨fun h => ?_, List.mem_map_of_mem⟩
  obtain ⟨j, hj, he⟩ := List.mem_map.1 h
  rwa [← hf.injective j i (hs j hj) hi he]

/-- What is done alike one by one is done alike in a row. -/
theorem mapM_map_congr {α β : Type} {g : α → α} {m m' : α → StateM Naming β} {as : List α}
    (h : ∀ a ∈ as, m' (g a) = m a) : (as.map g).mapM m' = as.mapM m := by
  induction as with
  | nil => rfl
  | cons a as ih =>
    obtain ⟨ha, has⟩ := List.forall_mem_cons.1 h
    rw [List.map_cons, List.mapM_cons, List.mapM_cons, ha, ih has]

/-! ## 1. Layers -/

/-- The second layer has the records of the first one under the identifiers that `f` gives them. All
identifiers of the first one are of `D`. -/
structure Layer.Renamed (f : TypeId → TypeId) (D : TypeId → Prop) (l l' : Layer) : Prop where
  records : ∀ i, D i → l'.records.lookup (f i) = (l.records.lookup i).map (TypeRecord.renamed f)
  closed : ∀ i r, l.records.lookup i = some r → ∀ j ∈ r.refs, D j
  bases : ∀ i, D i → l'.inheritance.bases (f i) =
    (l.inheritance.bases i).map (BaseEdge.renamed f)
  closedBases : ∀ i, ∀ e ∈ l.inheritance.bases i, D e.base
  order : l'.order = l.order.map f
  listed : ∀ i ∈ l.order, D i

/-- The fundamental types keep their identifiers. -/
theorem Layer.renamed_fundamental (hf : Renames f D) :
    Renamed f D Layer.fundamental Layer.fundamental := by
  have hlookup : ∀ i, Fundamental.isFundamental i = false →
      fundamental.records.lookup i = none := by
    intro i hi
    rw [fundamental, List.lookup_eq_none_iff]
    intro p hp
    obtain ⟨q, hq, rfl⟩ := List.mem_map.1 hp
    rw [bne_iff_ne]
    rintro rfl
    rw [Fundamental.isFundamental, Keyed.has, Option.isSome_eq_false_iff, Option.isNone_iff_eq_none,
      List.lookup_eq_none_iff] at hi
    simpa using hi q hq
  have hreserved : ∀ i r, fundamental.records.lookup i = some r →
      ∃ s, r = ⟨i, .none, .reserved s⟩ := by
    intro i r h
    obtain ⟨p, -, hp⟩ := List.mem_map.1 (Keyed.mem_of_lookup h)
    cases hp
    exact ⟨p.2, rfl⟩
  refine ⟨fun i hi => ?_, fun i r hr j hj => ?_, fun _ _ => rfl, fun _ => List.forall_mem_nil _,
    rfl, List.forall_mem_nil _⟩
  · cases hfund : Fundamental.isFundamental i with
    | true =>
      obtain ⟨-, hfix⟩ := hf.fundamental i hfund
      rw [hfix]
      cases hr : fundamental.records.lookup i with
      | none => rfl
      | some r =>
        obtain ⟨s, rfl⟩ := hreserved i r hr
        simp only [Option.map_some, TypeRecord.renamed, TypeBody.renamed, hfix]
    | false =>
      -- the new identifier is not fundamental either: it would have been fixed
      have hfund' : Fundamental.isFundamental (f i) = false := by
        cases h : Fundamental.isFundamental (f i) with
        | false => rfl
        | true =>
          obtain ⟨hD, hfix⟩ := hf.fundamental (f i) h
          rw [hf.injective _ _ hD hi hfix, hfund] at h
          cases h
      rw [hlookup i hfund, hlookup (f i) hfund']
      rfl
  · obtain ⟨s, rfl⟩ := hreserved i r hr
    cases hj

/-- **Layers of which one is the other `Renamed` stay so** when they accept a record and the renamed
record. -/
theorem Layer.Renamed.accept {l l' : Layer} (h : Renamed f D l l') (hf : Renames f D)
    {r : TypeRecord} {edges : List BaseEdge} (hr : D r.id) (hrefs : ∀ j ∈ r.refs, D j)
    (hedges : ∀ e ∈ edges, D e.base) :
    Renamed f D (l.accept r edges) (l'.accept (r.renamed f) (edges.map (BaseEdge.renamed f))) := by
  have hid : (r.renamed f).id = f r.id := rfl
  constructor
  · intro i hi
    rw [Layer.accept, Layer.accept, hid]
    by_cases he : i = r.id
    · subst he
      rw [Keyed.lookup_set_self, Keyed.lookup_set_self]
      rfl
    · rw [Keyed.lookup_set_of_ne he,
        Keyed.lookup_set_of_ne fun hf' => he (hf.injective _ _ hi hr hf'), h.records i hi]
  · intro i s hs
    rw [Layer.accept] at hs
    by_cases he : i = r.id
    · subst he
      rw [Keyed.lookup_set_self] at hs
      rwa [← Option.some.inj hs]
    · rw [Keyed.lookup_set_of_ne he] at hs
      exact h.closed i s hs
  · intro i hi
    rw [Layer.accept, Layer.accept, hid]
    by_cases he : i = r.id
    · subst he
      rw [Inheritance.bases_replace_self, Inheritance.bases_replace_self]
    · rw [Inheritance.bases_replace_of_ne _ he,
        Inheritance.bases_replace_of_ne _ fun hf' => he (hf.injective _ _ hi hr hf'), h.bases i hi]
  · intro i e he
    rw [Layer.accept] at he
    by_cases hi : i = r.id
    · subst hi
      rw [Inheritance.bases_replace_self] at he
      exact hedges e he
    · rw [Inheritance.bases_replace_of_ne _ hi] at he
      exact h.closedBases i e he
  · have hm := hf.mem_map h.listed hr
    simp only [Layer.accept, hid, h.order, hm]
    split
    · rfl
    · rw [List.map_append]
      rfl
  · intro i hi
    rcases Environment.mem_order_accept.1 hi with hi | rfl
    · exact h.listed i hi
    · exact hr

namespace Environment

/-- A task with `f` put on its identifier. -/
def OrderTask.renamed (f : TypeId → TypeId) : OrderTask → OrderTask
  | enter i => enter (f i)
  | leave i => leave (f i)

theorem aggregateByValue?_none {env : Environment} {seen : List TypeId} {i : TypeId}
    (h : i ∈ seen ∨ env.lookup? i = none) : env.aggregateByValue? seen i = none := by
  rw [aggregateByValue?]
  split
  · rfl
  · rename_i hm
    split
    · rfl
    · rename_i r hr
      rw [h.resolve_left hm] at hr
      cases hr

/-- **Renamed entries make a renamed environment** if the map `Renames` their identifiers; they stop
at the same fault, and name alike. -/
theorem renamed_add (hf : Renames f D) {es : List Entry} (hes : ∀ e ∈ es, ∀ i ∈ e.ids, D i)
    {env env' : Environment} (h : Layer.Renamed f D env.top env'.top) (k : Naming) :
    Layer.Renamed f D (env.add es k).1.1.top (env'.add (es.map (Entry.renamed f)) k).1.1.top ∧
      (env'.add (es.map (Entry.renamed f)) k).1.2 = (env.add es k).1.2 ∧
      (env'.add (es.map (Entry.renamed f)) k).2 = (env.add es k).2 := by
  induction es generalizing env env' k with
  | nil => exact ⟨h, rfl, rfl⟩
  | cons e es ih =>
    obtain ⟨he, hes⟩ := List.forall_mem_cons.1 hes
    have htag : k.tagEntry (e.renamed f) = k.tagEntry e := by
      rw [Naming.tagEntry, Entry.tag?_renamed, Naming.tagEntry]
    rw [List.map_cons, add_cons, add_cons, htag, Entry.readRecord_renamed hf.null.2]
    cases hr : e.readRecord (k.tagEntry e).1 with
    | error fault => exact ⟨h, rfl, rfl⟩
    | ok v =>
      obtain ⟨hid, hrefs, hedges⟩ := Entry.refs_of_readRecord hf.null.1 he hr
      exact ih hes (h.accept hf hid hrefs hedges) _

/-! ## 2. Environments -/

/-- The second environment has the records of the first one under the identifiers that `f` gives
them. All identifiers of the first one are of `D`. -/
structure Renamed (f : TypeId → TypeId) (D : TypeId → Prop) (env env' : Environment) : Prop where
  renames : Renames f D
  lookup : ∀ i, D i → env'.lookup? (f i) = (env.lookup? i).map (TypeRecord.renamed f)
  closed : ∀ i r, env.lookup? i = some r → ∀ j ∈ r.refs, D j
  bases : ∀ i, D i → env'.baseEdges (f i) = (env.baseEdges i).map (BaseEdge.renamed f)
  closedBases : ∀ i, ∀ e ∈ env.baseEdges i, D e.base
  ids : env'.ids = env.ids.map f
  listed : ∀ i ∈ env.ids, D i

theorem baseEdges_single (l : Layer) (i : TypeId) : baseEdges ⟨l, []⟩ i =
    if Keyed.has i l.records then l.inheritance.bases i else [] := rfl

/-- Environments of one layer. -/
theorem renamed_single (hf : Renames f D) {l l' : Layer} (h : Layer.Renamed f D l l') :
    Renamed f D ⟨l, []⟩ ⟨l', []⟩ := by
  constructor
  · exact hf
  · intro i hi
    rw [lookup?_single, lookup?_single, h.records i hi]
  · intro i r hr
    rw [lookup?_single] at hr
    exact h.closed i r hr
  · intro i hi
    have hhas : Keyed.has (f i) l'.records = Keyed.has i l.records := by
      rw [Keyed.has, h.records i hi, Option.isSome_map, Keyed.has]
    rw [baseEdges_single, baseEdges_single, hhas, h.bases i hi]
    split <;> rfl
  · intro i e he
    rw [baseEdges_single] at he
    split at he
    · exact h.closedBases i e he
    · cases he
  · exact h.order
  · exact h.listed

/-- **The environment of renamed entries** is that of the entries `Renamed`, or there is the same
fault. -/
theorem renamed_ofEntries (hf : Renames f D) {es : List Entry} (hes : ∀ e ∈ es, ∀ i ∈ e.ids, D i)
    (k : Naming) :
    (∃ fault k', ofEntries es k = (.error fault, k') ∧
      ofEntries (es.map (Entry.renamed f)) k = (.error fault, k')) ∨
    ∃ env env' k', ofEntries es k = (.ok env, k') ∧
      ofEntries (es.map (Entry.renamed f)) k = (.ok env', k') ∧ Renamed f D env env' := by
  have hinitial : Layer.Renamed f D initial.top initial.top := Layer.renamed_fundamental hf
  obtain ⟨hlayer, hfault, hnaming⟩ := renamed_add hf hes hinitial k
  rw [ofEntries, ofEntries, checked_eq, checked_eq, hfault, hnaming]
  cases hf' : (initial.add es k).1.2 with
  | some fault => exact .inl ⟨fault, _, rfl, rfl⟩
  | none =>
    refine .inr ⟨_, _, _, rfl, rfl, ?_⟩
    have hsingle : ∀ es, (initial.add es k).1.1 = ⟨(initial.add es k).1.1.top, []⟩ := by
      intro es
      have hbelow : (initial.add es k).1.1.below = [] :=
        add_keeps (P := fun a => a.below = []) (fun _ _ _ h _ _ => h) rfl k
      rw [← hbelow]
    rw [hsingle es, hsingle (es.map (Entry.renamed f))]
    exact renamed_single hf hlayer

/-! ## 3. Declarations -/

namespace Renamed

variable {env env' : Environment} {i : TypeId}

theorem body? (h : Renamed f D env env') (hi : D i) :
    env'.body? (f i) = (env.body? i).map (TypeBody.renamed f) := by
  rw [Environment.body?, Environment.body?, h.lookup i hi]
  cases env.lookup? i <;> rfl

theorem contains (h : Renamed f D env env') (hi : D i) : env'.contains (f i) = env.contains i := by
  rw [Environment.contains, Environment.contains, h.lookup i hi, Option.isSome_map]

/-- What a body refers to is of `D`. -/
theorem refs (h : Renamed f D env env') {b : TypeBody} (hb : env.body? i = some b) :
    ∀ j ∈ b.refs, D j := by
  obtain ⟨r, hr, rfl⟩ := Option.map_eq_some_iff.1 hb
  exact h.closed i r hr

theorem bindsTighter (h : Renamed f D env env') (n : Nat) (hi : D i) :
    env'.bindsTighter n (f i) = env.bindsTighter n i := by
  induction n generalizing i with
  | zero => rfl
  | succ n ih =>
    rw [Environment.bindsTighter, Environment.bindsTighter, h.body? hi]
    cases hb : env.body? i with
    | none => rfl
    | some b =>
      cases b with
      | qualified base => exact ih (h.refs hb base (List.mem_singleton_self _))
      | _ => rfl

theorem pointerDeclarator (h : Renamed f D env env') (hi : D i) (kind : PointerKind)
    (quals : Qualifiers) (name : String) :
    env'.pointerDeclarator kind quals (f i) name = env.pointerDeclarator kind quals i name := by
  rw [Environment.pointerDeclarator, Environment.pointerDeclarator, h.bindsTighter _ hi]

theorem signatureKnown (h : Renamed f D env env') (hi : D i) {ps : List Param}
    (hps : ∀ p ∈ ps, D p.type) :
    env'.signatureKnown (f i) (ps.map (Param.renamed f)) = env.signatureKnown i ps := by
  have hall : (ps.map (Param.renamed f)).all (fun p => env'.contains p.type) =
      ps.all fun p => env.contains p.type := by
    rw [Bool.eq_iff_iff, List.all_map, List.all_eq_true, List.all_eq_true]
    exact forall₂_congr fun p hp => by
      show env'.contains (f p.type) = true ↔ _
      rw [h.contains (hps p hp)]
  rw [Environment.signatureKnown, Environment.signatureKnown, h.contains hi, hall]

mutual

/-- **A new identifier is declared like the one it stands for.** The induction is on the records
that the declaration has not yet met. -/
theorem declareWith (h : Renamed f D env env') (path : List TypeId) (hpath : ∀ j ∈ path, D j)
    (quals : Qualifiers) (i : TypeId) (hi : D i) (name : String) :
    env'.declareWith (path.map f) quals (f i) name = env.declareWith path quals i name := by
  have hlookup := h.lookup i hi
  have hmem := h.renames.mem_map hpath hi
  cases hr : env.lookup? i with
  | none =>
    rw [hr] at hlookup
    rw [declareWith_incomplete (.inl hr), declareWith_incomplete (.inl hlookup)]
  | some record =>
    rw [hr] at hlookup
    by_cases hp : i ∈ path
    · rw [declareWith_incomplete (.inr hp), declareWith_incomplete (.inr (hmem.2 hp))]
    · have hlt := unseen_cons_lt hr hp
      have hrefs := h.closed i record hr
      have hpath' : ∀ j ∈ i :: path, D j := List.forall_mem_cons.2 ⟨hi, hpath⟩
      rw [declareWith_eq hr hp, declareWith_eq hlookup fun hm => hp (hmem.1 hm)]
      unfold TypeRecord.refs at hrefs
      simp only [TypeRecord.renamed, ← List.map_cons]
      cases hb : record.body with
      | qualified base =>
        have hj : D base := hrefs base (by simp [hb, TypeBody.refs])
        simp only [TypeBody.renamed, h.contains hj, h.declareWith (i :: path) hpath' _ base hj]
      | pointer kind pointee =>
        have hj : D pointee := hrefs pointee (by simp [hb, TypeBody.refs])
        simp only [TypeBody.renamed, h.contains hj, h.pointerDeclarator hj,
          h.declareWith (i :: path) hpath' _ pointee hj]
      | array size element =>
        have hj : D element := hrefs element (by simp [hb, TypeBody.refs])
        simp only [TypeBody.renamed, h.contains hj, h.declareWith (i :: path) hpath' _ element hj]
      | function result params variadic =>
        have hj : D result := hrefs result (by simp [hb, TypeBody.refs])
        have hps : ∀ p ∈ params, D p.type := fun p hm =>
          hrefs p.type <| by
            rw [hb, TypeBody.refs]
            exact List.mem_cons_of_mem _ (List.mem_map_of_mem hm)
        simp only [TypeBody.renamed, h.signatureKnown hj hps,
          h.declareParams (i :: path) hpath' params hps,
          h.declareWith (i :: path) hpath' _ result hj]
      | _ => rfl
termination_by (env.unseen path, 0)

theorem declareParams (h : Renamed f D env env') (path : List TypeId) (hpath : ∀ j ∈ path, D j)
    (ps : List Param) (hps : ∀ p ∈ ps, D p.type) :
    env'.declareParams (path.map f) (ps.map (Param.renamed f)) = env.declareParams path ps := by
  cases ps with
  | nil => rw [List.map_nil, Environment.declareParams, Environment.declareParams]
  | cons p ps =>
    obtain ⟨hp, hps⟩ := List.forall_mem_cons.1 hps
    rw [List.map_cons, Environment.declareParams, Environment.declareParams]
    have hhead : env'.declareWith (path.map f) .none (p.renamed f).type
          ((p.renamed f).name.getD "") =
        env.declareWith path .none p.type (p.name.getD "") := h.declareWith path hpath _ p.type hp _
    rw [hhead, h.declareParams path hpath ps hps]
termination_by (env.unseen path, ps.length + 1)

end

theorem declare (h : Renamed f D env env') (hi : D i) (name : String) :
    env'.declare (f i) name = env.declare i name :=
  h.declareWith [] (List.forall_mem_nil _) .none i hi name

/-! ## 4. Definitions -/

theorem forward? (h : Renamed f D env env') (hi : D i) : env'.forward? (f i) = env.forward? i := by
  rw [Environment.forward?, Environment.forward?, h.body? hi]
  cases env.body? i with
  | none => rfl
  | some b => cases b <;> rfl

theorem edgeText (h : Renamed f D env env') {e : BaseEdge} (he : D e.base) :
    env'.edgeText (e.renamed f) = env.edgeText e := by
  have hname : env'.baseName (f e.base) = env.baseName e.base := by
    rw [Environment.baseName, Environment.baseName, h.body? he]
    cases env.body? e.base with
    | none => rfl
    | some b => cases b <;> rfl
  rw [Environment.edgeText, Environment.edgeText]
  show (env'.baseName (f e.base) >>= _) = _
  rw [hname]
  rfl

theorem basesText (h : Renamed f D env env') (hi : D i) :
    env'.basesText (f i) = env.basesText i := by
  rw [Environment.basesText, Environment.basesText, h.bases i hi,
    mapM_map_congr fun e he => h.edgeText (h.closedBases i e he)]

theorem memberText (h : Renamed f D env env') {m : Member} (hm : D m.type) :
    env'.memberText (m.renamed f) = env.memberText m := by
  rw [Environment.memberText, Environment.memberText]
  show (env'.declare (f m.type) (m.name.getD "") >>= _) = _
  rw [h.declare hm]
  rfl

theorem classMembers (h : Renamed f D env env') (current : Option Access) {ms : List Member}
    (hms : ∀ m ∈ ms, D m.type) :
    env'.classMembers current (ms.map (Member.renamed f)) = env.classMembers current ms := by
  induction ms generalizing current with
  | nil => rfl
  | cons m ms ih =>
    obtain ⟨hm, hms⟩ := List.forall_mem_cons.1 hms
    have haccess : (m.renamed f).access = m.access := rfl
    rw [List.map_cons, Environment.classMembers, Environment.classMembers, haccess]
    simp only [h.memberText hm, fun current => ih current hms]

theorem bodyTexts (h : Renamed f D env env') (key : RecordKey) {ms : List Member}
    (hms : ∀ m ∈ ms, D m.type) :
    env'.bodyTexts key (ms.map (Member.renamed f)) = env.bodyTexts key ms := by
  cases key with
  | classKey => exact h.classMembers none hms
  | _ => exact mapM_map_congr fun m hm => h.memberText (hms m hm)

theorem baseClauseText (h : Renamed f D env env') (key : RecordKey) (hi : D i) :
    env'.baseClauseText key (f i) = env.baseClauseText key i := by
  cases key with
  | classKey => rw [Environment.baseClauseText, Environment.baseClauseText, h.basesText hi]
  | _ => rfl

/-- **A new identifier is defined like the one it stands for.** -/
theorem define? (h : Renamed f D env env') (hi : D i) : env'.define? (f i) = env.define? i := by
  rw [Environment.define?, Environment.define?, h.body? hi]
  cases hb : env.body? i with
  | none => rfl
  | some b =>
    cases b with
    | aggregate key tag complete ms bs =>
      have hms : ∀ m ∈ ms, D m.type := fun m hm =>
        h.refs hb m.type (List.mem_append_left _ (List.mem_map_of_mem hm))
      simp only [Option.map_some, TypeBody.renamed, h.baseClauseText key hi, h.bodyTexts key hms]
    | _ => rfl

theorem declareSymbols (h : Renamed f D env env') {symbols : List Symbol}
    (hs : ∀ s ∈ symbols, D s.type) :
    env'.declareSymbols (symbols.map (Symbol.renamed f)) = env.declareSymbols symbols := by
  refine mapM_map_congr fun s hm => ?_
  rw [symbolText, symbolText]
  show (env'.declare (f s.type) (s.name.getD "") >>= _) = _
  rw [h.declare (hs s hm)]

/-! ## 5. The order of definitions -/

/-- What is held by value is of `D`. -/
theorem holds (h : Renamed f D env env') (hi : D i) {j : TypeId} (hij : env.Holds i j) : D j := by
  induction hij with
  | aggregate => exact hi
  | @under i k a hu _ ih =>
    refine ih ?_
    rcases hu with hb | ⟨n, hb⟩ <;> exact h.refs hb k (List.mem_singleton_self _)

/-- **The search for the aggregate that a value holds** takes the same way. -/
theorem aggregateByValue? (h : Renamed f D env env') (seen : List TypeId) (hs : ∀ j ∈ seen, D j)
    (i : TypeId) (hi : D i) :
    env'.aggregateByValue? (seen.map f) (f i) = (env.aggregateByValue? seen i).map f := by
  have hlookup := h.lookup i hi
  have hmem := h.renames.mem_map hs hi
  by_cases hm : i ∈ seen
  · rw [aggregateByValue?_none (.inl hm), aggregateByValue?_none (.inl (hmem.2 hm))]
    rfl
  · cases hr : env.lookup? i with
    | none =>
      rw [hr] at hlookup
      rw [aggregateByValue?_none (.inr hr), aggregateByValue?_none (.inr hlookup)]
      rfl
    | some r =>
      rw [hr] at hlookup
      have hlt := unseen_cons_lt hr hm
      have hrefs := h.closed i r hr
      have hs' : ∀ j ∈ i :: seen, D j := List.forall_mem_cons.2 ⟨hi, hs⟩
      unfold TypeRecord.refs at hrefs
      rw [aggregateByValue?_eq hr hm, aggregateByValue?_eq hlookup fun hm' => hm (hmem.1 hm')]
      simp only [TypeRecord.renamed]
      cases hb : r.body with
      | qualified base =>
        have hj : D base := hrefs base (by simp [hb, TypeBody.refs])
        exact h.aggregateByValue? (i :: seen) hs' base hj
      | array size element =>
        have hj : D element := hrefs element (by simp [hb, TypeBody.refs])
        exact h.aggregateByValue? (i :: seen) hs' element hj
      | _ => rfl
termination_by env.unseen seen

theorem needs (h : Renamed f D env env') {b : TypeBody} (hb : ∀ j ∈ b.refs, D j) :
    env'.needs (b.renamed f) = (env.needs b).map f := by
  cases b with
  | aggregate key tag complete ms bs =>
    have hrefs : (ms.map (Member.renamed f)).map Member.type ++
          (bs.map (BaseEdge.renamed f)).map BaseEdge.base =
        (ms.map Member.type ++ bs.map BaseEdge.base).map f := by
      rw [List.map_append, List.map_map, List.map_map, List.map_map, List.map_map]
      rfl
    rw [TypeBody.renamed, Environment.needs, hrefs, List.filterMap_map, Environment.needs,
      List.map_filterMap]
    exact List.filterMap_congr fun j hj =>
      h.aggregateByValue? [] (List.forall_mem_nil _) j (hb j hj)
  | _ => rfl

theorem needs_mem (h : Renamed f D env env') {b : TypeBody} (hb : ∀ j ∈ b.refs, D j) :
    ∀ j ∈ env.needs b, D j := by
  cases b with
  | aggregate key tag complete ms bs =>
    intro j hj
    obtain ⟨i, hi, hij⟩ := List.mem_filterMap.1 hj
    exact h.holds (hb i hi) (aggregateByValue?_eq_some_iff.1 hij)
  | _ => exact List.forall_mem_nil _

theorem defined (h : Renamed f D env env') (hi : D i) : env'.Defined (f i) ↔ env.Defined i := by
  rw [Defined, Defined, h.lookup i hi]
  cases env.lookup? i with
  | none => simp
  | some r =>
    have hdefined : (r.renamed f).body.isDefined = r.body.isDefined := by
      unfold TypeRecord.renamed
      cases r.body <;> rfl
    simp [hdefined]

/-- The tasks behind the entering of an aggregate are about identifiers of `D`. -/
theorem tasks_mem (h : Renamed f D env env') {r : TypeRecord} (hr : env.lookup? i = some r)
    (hi : D i) {rest : List OrderTask} (hrest : ∀ task ∈ rest, D task.id) :
    ∀ task ∈ (env.needs r.body).map OrderTask.enter ++ .leave i :: rest, D task.id := by
  intro task hmem
  rcases List.mem_append.1 hmem with hmem | hmem
  · obtain ⟨j, hj, rfl⟩ := List.mem_map.1 hmem
    exact h.needs_mem (h.closed i r hr) j hj
  · rcases List.mem_cons.1 hmem with rfl | hmem
    · exact hi
    · exact hrest task hmem

/-- What is listed is of `D`. -/
theorem orderFrom_mem (h : Renamed f D env env') {entered : List TypeId} {tasks : List OrderTask}
    (ht : ∀ task ∈ tasks, D task.id) : ∀ j ∈ env.orderFrom entered tasks, D j := by
  induction entered, tasks using orderFrom_steps env with
  | finish entered =>
    rw [Environment.orderFrom]
    exact List.forall_mem_nil _
  | leave entered i rest ih =>
    obtain ⟨hi, hrest⟩ := List.forall_mem_cons.1 ht
    rw [Environment.orderFrom]
    exact List.forall_mem_cons.2 ⟨hi, ih hrest⟩
  | skip entered i rest hs ih =>
    rw [orderFrom_skip hs]
    exact ih (List.forall_mem_cons.1 ht).2
  | enter entered i rest r hm hr hd ih =>
    obtain ⟨hi, hrest⟩ := List.forall_mem_cons.1 ht
    rw [orderFrom_enter hm hr hd]
    exact ih (h.tasks_mem hr hi hrest)

/-- **The agenda of new identifiers comes to the order of those they stand for.** The induction is
on the steps of the search. -/
theorem orderFrom (h : Renamed f D env env') {entered : List TypeId} {tasks : List OrderTask}
    (he : ∀ j ∈ entered, D j) (ht : ∀ task ∈ tasks, D task.id) :
    env'.orderFrom (entered.map f) (tasks.map (OrderTask.renamed f)) =
      (env.orderFrom entered tasks).map f := by
  induction entered, tasks using orderFrom_steps env with
  | finish entered => rw [List.map_nil, Environment.orderFrom, Environment.orderFrom, List.map_nil]
  | leave entered i rest ih =>
    obtain ⟨-, hrest⟩ := List.forall_mem_cons.1 ht
    rw [List.map_cons, OrderTask.renamed, Environment.orderFrom, Environment.orderFrom,
      List.map_cons, ih he hrest]
  | skip entered i rest hs ih =>
    obtain ⟨hi, hrest⟩ := List.forall_mem_cons.1 ht
    have hs' : f i ∈ entered.map f ∨ ¬ env'.Defined (f i) :=
      hs.imp (h.renames.mem_map he hi).2 fun hd hd' => hd ((h.defined hi).1 hd')
    rw [List.map_cons, OrderTask.renamed, orderFrom_skip hs', orderFrom_skip hs, ih he hrest]
  | enter entered i rest r hm hr hd ih =>
    obtain ⟨htask, hrest⟩ := List.forall_mem_cons.1 ht
    have hi : D i := htask
    have hlookup := h.lookup i hi
    rw [hr] at hlookup
    have hm' : f i ∉ entered.map f := fun hm' => hm ((h.renames.mem_map he hi).1 hm')
    have hd' : (r.renamed f).body.isDefined = true :=
      (defined_iff hlookup).1 ((h.defined hi).2 ⟨r, hr, hd⟩)
    have hneeds : env'.needs (r.renamed f).body = (env.needs r.body).map f :=
      h.needs (h.closed i r hr)
    rw [List.map_cons, OrderTask.renamed, orderFrom_enter hm' hlookup hd',
      orderFrom_enter hm hr hd, ← ih (List.forall_mem_cons.2 ⟨hi, he⟩) (h.tasks_mem hr hi hrest),
      hneeds, List.map_append, List.map_map, List.map_map]
    rfl

theorem enter_ids_mem (h : Renamed f D env env') :
    ∀ task ∈ env.ids.map OrderTask.enter, D task.id := by
  intro task hm
  obtain ⟨i, hi, rfl⟩ := List.mem_map.1 hm
  exact h.listed i hi

theorem definitionOrder_mem (h : Renamed f D env env') : ∀ i ∈ env.definitionOrder, D i :=
  h.orderFrom_mem h.enter_ids_mem

/-- **The same aggregates are defined in the same order.** -/
theorem definitionOrder (h : Renamed f D env env') :
    env'.definitionOrder = env.definitionOrder.map f := by
  have horder := h.orderFrom (List.forall_mem_nil _) h.enter_ids_mem
  rw [List.map_map] at horder
  rw [Environment.definitionOrder, h.ids, List.map_map, Environment.definitionOrder]
  exact horder

end Renamed

end Environment

end TypeLedger
