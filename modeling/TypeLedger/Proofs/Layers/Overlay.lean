import TypeLedger.Proofs.Layers.Agreement

/-!
# Entries on top of others, and entries behind others

* `Environment.overlaid`: the environment of some entries, with others in a layer on top.
* `Environment.askAll`: the answers to a sequence of questions. A question may name an aggregate, so
  each is asked with the naming that the one before it has left.
* `Overlays.accept` is the step of one entry, `overlays_add` the run over a list of them: it is the
  same whether they go into a layer of their own or into the topmost one that there is.
* `overlaid_spec`: the layered environment cannot be told from that of all entries in one list.
-/

namespace TypeLedger.Environment

/-! ## 1. Questions -/

/-- A question to an environment. -/
inductive Query
  | lookup (id : TypeId)
  | contains (id : TypeId)
  | baseEdges (id : TypeId)
  | resultType (id : TypeId)
  | declare (id : TypeId) (name : String)
  | typeText (id : TypeId)
  | aggregateName (id : TypeId)
  | basesText (id : TypeId)
  | forward (id : TypeId)
  | define (id : TypeId)

/-- An answer. -/
inductive Answer
  /-- A record, with the name that its aggregate has so far. -/
  | record (r : Option (TypeRecord × Option String))
  | flag (b : Bool)
  | edges (es : List BaseEdge)
  | type (id : Option TypeId)
  | text (s : Option String)

/-- The answer to a `Query`. -/
def ask (env : Environment) : Query → StateM Naming Answer
  | .lookup i => fun k =>
    (.record ((env.lookup? i).map fun r => (r, r.body.tag?.bind k.current?)), k)
  | .contains i => pure (.flag (env.contains i))
  | .baseEdges i => pure (.edges (env.baseEdges i))
  | .resultType i => pure (.type (env.resultType? i))
  | .declare i name => do return .text (some (← env.declare i name))
  | .typeText i => do return .text (some (← env.typeText i))
  | .aggregateName i => do return .text (← env.aggregateName? i)
  | .basesText i => do return .text (some (← env.basesText i))
  | .forward i => do return .text (← env.forward? i)
  | .define i => do return .text (← env.define? i)

/-- The answers to a sequence of questions. -/
def askAll (env : Environment) (qs : List Query) : StateM Naming (List Answer) := qs.mapM env.ask

variable {env env' : Environment}

theorem Same.ask (h : Same env env') : env.ask = env'.ask := by
  funext q
  cases q with
  | lookup i => simp only [Environment.ask, h.lookup]
  | contains i => simp only [Environment.ask, h.contains]
  | baseEdges i => simp only [Environment.ask, h.bases]
  | resultType i => simp only [Environment.ask, h.resultType?]
  | declare i name => simp only [Environment.ask, h.declare]
  | typeText i => simp only [Environment.ask, h.typeText]
  | aggregateName i => simp only [Environment.ask, h.aggregateName?]
  | basesText i => simp only [Environment.ask, h.basesText]
  | forward i => simp only [Environment.ask, h.forward?]
  | define i => simp only [Environment.ask, h.define?]

/-- **Every sequence of questions is answered the same by what is the `Same`,** names made up on the
way included. -/
theorem Same.askAll (h : Same env env') (qs : List Query) : env.askAll qs = env'.askAll qs := by
  rw [Environment.askAll, h.ask, Environment.askAll]

/-! ## 2. One entry more -/

/-- Two environments made of entries have the same records and bases, and list the same
identifiers. -/
structure Overlays (env env' : Environment) : Prop where
  same : Same env env'
  built : env.Built
  flat : env'.Built
  mem_ids : ∀ i, i ∈ env.ids ↔ i ∈ env'.ids

theorem Overlays.accept (h : env.Overlays env') {r : TypeRecord} (hr : r.body.BasesFit)
    (edges : List BaseEdge) : (env.accept r edges).Overlays (env'.accept r edges) where
  same := h.same.accept r edges
  built := h.built.accept hr edges
  flat := h.flat.accept hr edges
  mem_ids := fun i => by rw [mem_ids_accept, mem_ids_accept, h.mem_ids]

/-- Two environments list the same identifiers in the same order; those of `S`, as far as they are
listed, in their topmost layers. -/
structure Aligned (S : TypeId → Prop) (env env' : Environment) : Prop where
  ids : env.ids = env'.ids
  top : ∀ i, S i → i ∈ env.ids → i ∈ env.top.order ∧ i ∈ env'.top.order

/-- **An entry for one of `S` has the same place in both.** It stands last in both, or has its place
in both topmost layers. -/
theorem Aligned.accept {S : TypeId → Prop} (h : Aligned S env env') (ho : env.Overlays env')
    {r : TypeRecord} (hr : S r.id) (edges : List BaseEdge) :
    Aligned S (env.accept r edges) (env'.accept r edges) := by
  have htop : ∀ i, S i → i ∈ env.ids ∨ i = r.id →
      i ∈ (env.accept r edges).top.order ∧ i ∈ (env'.accept r edges).top.order := by
    rintro i hi (hm | rfl)
    · exact (h.top i hi hm).imp (mem_order_accept.2 <| .inl ·) (mem_order_accept.2 <| .inl ·)
    · exact ⟨mem_order_accept.2 (.inr rfl), mem_order_accept.2 (.inr rfl)⟩
  refine ⟨?_, fun i hi hm => htop i hi (mem_ids_accept.1 hm)⟩
  by_cases hm : r.id ∈ env.ids
  · obtain ⟨ht, ht'⟩ := h.top r.id hr hm
    rw [ids_accept_of_mem ht ((ho.built _ List.mem_cons_self).has _ ht),
      ids_accept_of_mem ht' ((ho.flat _ List.mem_cons_self).has _ ht'), h.ids]
  · rw [ids_accept_of_not_mem hm, ids_accept_of_not_mem (h.ids ▸ hm), h.ids]

/-! ## 3. Lists of entries -/

theorem ids_raised (env : Environment) : env.raised.ids = env.ids := by
  simp [raised, ids, layers, idsIn, Keyed.has]

theorem overlays_raised (h : env.Built) : env.raised.Overlays env where
  same := ⟨fun _ => rfl, fun _ => rfl⟩
  built := h.raised
  flat := h
  mem_ids := fun i => by rw [ids_raised]

/-- **Entries make the same of an environment** in a layer of their own and in its topmost one
(`Overlays`). -/
theorem overlays_add (h : env.Built) (es : List Entry) (k : Naming) :
    (env.raised.add es k).1.1.Overlays (env.add es k).1.1 ∧
      (env.raised.add es k).1.2 = (env.add es k).1.2 ∧
      (env.raised.add es k).2 = (env.add es k).2 :=
  add_related (fun _ _ _ edges ho _ hr => ho.accept hr edges) (overlays_raised h) k

/-- Entries for new identifiers stand in the same order, in a layer of their own and in the topmost
one that there is. -/
theorem ids_add_raised (h : env.Built) {es : List Entry}
    (hes : ∀ e ∈ es, e.type ∉ env.ids) (k : Naming) :
    (env.raised.add es k).1.1.ids = (env.add es k).1.1.ids := by
  have hstart : Aligned (· ∈ es.map Entry.type) env.raised env := by
    refine ⟨ids_raised env, fun i hi hm => absurd (ids_raised env ▸ hm) ?_⟩
    obtain ⟨e, he, rfl⟩ := List.mem_map.1 hi
    exact hes e he
  have hstep : ∀ a b r edges, a.Overlays b ∧ Aligned (· ∈ es.map Entry.type) a b →
      r.id ∈ es.map Entry.type → r.body.BasesFit →
      (a.accept r edges).Overlays (b.accept r edges) ∧
        Aligned (· ∈ es.map Entry.type) (a.accept r edges) (b.accept r edges) :=
    fun a b r edges hab hm hr => ⟨hab.1.accept hr edges, hab.2.accept hab.1 hm edges⟩
  exact (add_related hstep ⟨overlays_raised h, hstart⟩ k).1.2.ids

/-- What is listed was listed before, or has an entry. -/
theorem mem_ids_add {es : List Entry} {k : Naming} {i : TypeId}
    (h : i ∈ (env.add es k).1.1.ids) : i ∈ env.ids ∨ i ∈ es.map Entry.type := by
  refine add_keeps (P := fun a => ∀ i ∈ a.ids, i ∈ env.ids ∨ i ∈ es.map Entry.type)
    (fun a r edges ha hm _ i hi => ?_) (fun i hi => .inl hi) k i h
  rcases mem_ids_accept.1 hi with hi | rfl
  · exact ha i hi
  · exact .inr hm

/-- A list of entries behind another is added to what that one makes, unless it has a fault. -/
theorem add_append (env : Environment) (es₁ es₂ : List Entry) (k : Naming) :
    env.add (es₁ ++ es₂) k =
      match env.add es₁ k with
      | ((base, none), k') => base.add es₂ k'
      | ((base, some f), k') => ((base, some f), k') := by
  induction es₁ generalizing env k with
  | nil => rfl
  | cons e es₁ ih =>
    rw [List.cons_append, add_cons, add_cons]
    cases e.readRecord (k.tagEntry e).1 with
    | error f => rfl
    | ok v => exact ih (env.accept v.1 v.2) (k.tagEntry e).2

/-! ## 4. The layered environment and the flat one -/

/-- The environment of some entries (`ofEntries`), with others in a layer on top (`extend`). -/
def overlaid (es₁ es₂ : List Entry) : StateM Naming (Except TableFault Environment) := do
  match ← ofEntries es₁ with
  | .ok base => base.extend es₂
  | .error f => return .error f

/-- The environments with the second entries on top of the first ones, and behind them: both come of
the environment of the first ones, or fail with it. -/
theorem overlaid_cases (es₁ es₂ : List Entry) (k : Naming) :
    (∃ f k', overlaid es₁ es₂ k = (.error f, k') ∧ ofEntries (es₁ ++ es₂) k = (.error f, k')) ∨
      ∃ base k', (ofEntries es₁ k).1 = .ok base ∧
        overlaid es₁ es₂ k = base.raised.checked es₂ k' ∧
        ofEntries (es₁ ++ es₂) k = base.checked es₂ k' := by
  have hoverlaid : overlaid es₁ es₂ k =
      match ofEntries es₁ k with
      | (.ok base, k') => base.extend es₂ k'
      | (.error f, k') => (.error f, k') := by
    simp only [overlaid, bind, StateT.bind]
    rcases ofEntries es₁ k with ⟨_ | _, k'⟩ <;> rfl
  rw [hoverlaid]
  simp only [ofEntries, checked_eq, add_append]
  rcases initial.add es₁ k with ⟨⟨base, _ | f⟩, k'⟩
  · exact .inr ⟨base, k', rfl, rfl, rfl⟩
  · exact .inl ⟨f, k', rfl, rfl⟩

/-- **Entries on top of others are entries behind others.** `overlaid` and `ofEntries` on both lists
fail with the same fault. Otherwise every sequence of questions (`askAll`) to the layered
environment has the answers of the flat one; they list the same identifiers, once each, and in the
same order if none of them has entries in both lists; then the order of definitions is the same. -/
theorem overlaid_spec (es₁ es₂ : List Entry) (k : Naming) :
    (∀ f, (overlaid es₁ es₂ k).1 = .error f ↔ (ofEntries (es₁ ++ es₂) k).1 = .error f) ∧
      ∀ layered flat, (overlaid es₁ es₂ k).1 = .ok layered →
        (ofEntries (es₁ ++ es₂) k).1 = .ok flat →
        (∀ qs, (layered.askAll qs (overlaid es₁ es₂ k).2).1 =
          (flat.askAll qs (ofEntries (es₁ ++ es₂) k).2).1) ∧
        layered.ids.Nodup ∧ layered.ids.Perm flat.ids ∧
        ((∀ e ∈ es₂, e.type ∉ es₁.map Entry.type) →
          layered.ids = flat.ids ∧ layered.definitionOrder = flat.definitionOrder) := by
  rcases overlaid_cases es₁ es₂ k with ⟨f, k', hover, hflat⟩ | ⟨base, k', hbase, hover, hflat⟩
  · rw [hover, hflat]
    exact ⟨fun _ => Iff.rfl, fun layered flat ho => nomatch ho⟩
  have hbuilt : base.Built := (Reached.ofEntries hbase).built
  obtain ⟨hoverlays, hfault, hnaming⟩ := overlays_add hbuilt es₂ k'
  rw [hover, hflat, checked_eq, checked_eq, hfault, hnaming]
  generalize (base.add es₂ k').1.2 = fault
  cases fault with
  | some f => exact ⟨fun _ => Iff.rfl, fun layered flat ho => nomatch ho⟩
  | none =>
    refine ⟨fun f => ⟨nofun, nofun⟩, fun layered flat ho hf => ?_⟩
    obtain rfl := Except.ok.inj ho
    obtain rfl := Except.ok.inj hf
    have hnodup := hoverlays.built.nodup_ids
    refine ⟨fun qs => by rw [hoverlays.same.askAll], hnodup,
      (List.perm_ext_iff_of_nodup hnodup hoverlays.flat.nodup_ids).2 hoverlays.mem_ids,
      fun hnew => ?_⟩
    have hbelow : ∀ e ∈ es₂, e.type ∉ base.ids := by
      intro e he hm
      rw [← add_of_checked hbase] at hm
      exact (mem_ids_add hm).elim nofun (hnew e he)
    have hids := ids_add_raised hbuilt hbelow k'
    exact ⟨hids, hoverlays.same.definitionOrder hids⟩

/-- A pointer to a struct of which nothing is stated. -/
def handleEntries : List Entry :=
  [{ kind := "pointerType", type := ⟨"Pointer0"⟩, attributes := .ofList [("ref", "Struct0")] }]

/-- The struct, which has no tag. -/
def untaggedEntries : List Entry :=
  [{ kind := "structType", type := ⟨"Struct0"⟩, attributes := .ofList [("is_complete", "1")] }]

/-- The name that is made up for the struct is the same, in a layer of its own and behind the
pointer. -/
theorem overlaid_untagged :
    ∃ layered flat, (overlaid handleEntries untaggedEntries {}).1 = .ok layered ∧
      (ofEntries (handleEntries ++ untaggedEntries) {}).1 = .ok flat ∧
      layered.layers.length = 2 ∧ flat.layers.length = 1 ∧
      (layered.askAll [.declare ⟨"Pointer0"⟩ "p", .lookup ⟨"Struct0"⟩, .define ⟨"Struct0"⟩]
          (overlaid handleEntries untaggedEntries {}).2).1 =
        (flat.askAll [.declare ⟨"Pointer0"⟩ "p", .lookup ⟨"Struct0"⟩, .define ⟨"Struct0"⟩]
          (ofEntries (handleEntries ++ untaggedEntries) {}).2).1 ∧
      layered.ids = flat.ids ∧ layered.definitionOrder = flat.definitionOrder := by
  let base := initial.add handleEntries {}
  let layered := (base.1.1.raised.add untaggedEntries base.2).1.1
  let flat := (initial.add (handleEntries ++ untaggedEntries) {}).1.1
  have hover : (overlaid handleEntries untaggedEntries {}).1 = .ok layered := rfl
  have hflat : (ofEntries (handleEntries ++ untaggedEntries) {}).1 = .ok flat := rfl
  have hnew : ∀ e ∈ untaggedEntries, e.type ∉ handleEntries.map Entry.type := by decide
  obtain ⟨-, hspec⟩ := overlaid_spec handleEntries untaggedEntries {}
  obtain ⟨hanswers, -, -, hids⟩ := hspec layered flat hover hflat
  exact ⟨layered, flat, hover, hflat, rfl, rfl, hanswers _, hids hnew⟩

end TypeLedger.Environment
