import TypeLedger.Proofs.Layers.Built
import TypeLedger.Proofs.Layers.ByValue

/-!
# Definitions behind those they need

* `Environment.Needs`: an aggregate needs the definition of another that a member or a base of it
  holds by value.
* `Environment.Agenda`: what holds of an agenda at every step of the search. Everything between an
  aggregate and its leaving is needed by it, and what it needs is left, or still to do before it.
* `respects_orderFrom`: if nothing needs itself, an aggregate is left behind those it needs.
* `definitionOrder_spec`: the order lists each defined aggregate once, and if nothing needs itself,
  those that it needs stand in front of it.
-/

namespace TypeLedger.Environment

open Relation

variable {env : Environment} {a b i : TypeId}

/-! ## 1. What a definition needs -/

/-- The second aggregate has a definition, and the first one holds it by value (`Holds`): in a
member, or, if that is a class, as a base. -/
def Needs (env : Environment) (a b : TypeId) : Prop :=
  env.Defined b ∧ ∃ key tag complete members bases,
    env.body? a = some (.aggregate key tag complete members bases) ∧
      ((∃ m ∈ members, env.Holds m.type b) ∨
        (key = .classKey ∧ ∃ e ∈ bases, env.Holds e.base b))

theorem mem_needs {key : RecordKey} {tag : Tag} {complete : Bool} {ms : List Member}
    {bs : List BaseEdge} : b ∈ env.needs (.aggregate key tag complete ms bs) ↔
      (∃ m ∈ ms, env.Holds m.type b) ∨ ∃ e ∈ bs, env.Holds e.base b := by
  simp only [needs, List.mem_filterMap, List.mem_append, List.mem_map,
    aggregateByValue?_eq_some_iff]
  constructor
  · rintro ⟨_, ⟨m, hm, rfl⟩ | ⟨e, he, rfl⟩, h⟩
    · exact .inl ⟨m, hm, h⟩
    · exact .inr ⟨e, he, h⟩
  · rintro (⟨m, hm, h⟩ | ⟨e, he, h⟩)
    · exact ⟨_, .inl ⟨m, hm, rfl⟩, h⟩
    · exact ⟨_, .inr ⟨e, he, rfl⟩, h⟩

/-- The search enters exactly those that are needed, and some without a definition. -/
theorem Built.needs_iff (h : env.Built) {r : TypeRecord} (hr : env.lookup? a = some r) :
    env.Needs a b ↔ env.Defined b ∧ b ∈ env.needs r.body := by
  refine and_congr_right fun _ => ⟨?_, fun hb => ?_⟩
  · rintro ⟨key, tag, complete, ms, bs, ha, hm⟩
    rw [Option.some.inj ((body?_of_lookup hr).symm.trans ha)]
    exact mem_needs.2 (hm.imp_right And.right)
  · have hfit := h.basesFit hr
    cases hbody : r.body with
    | aggregate key tag complete ms bs =>
      rw [hbody] at hb hfit
      refine ⟨key, tag, complete, ms, bs, by rw [body?_of_lookup hr, hbody], ?_⟩
      rcases mem_needs.1 hb with hm | ⟨e, he, hb⟩
      · exact .inl hm
      · refine .inr ⟨Decidable.byContradiction fun hkey => ?_, e, he, hb⟩
        rw [hfit hkey] at he
        cases he
    | _ =>
      rw [hbody] at hb
      cases hb

/-! ## 2. Orders -/

/-- Each aggregate stands behind those it needs, `done` taken to stand in front of all. -/
def Respects (env : Environment) : List TypeId → List TypeId → Prop
  | _, [] => True
  | done, a :: order => (∀ b, env.Needs a b → b ∈ done) ∧ Respects env (a :: done) order

theorem Respects.before {done order : List TypeId} (h : env.Respects done order)
    (ha : a ∈ order) (hab : env.Needs a b) : b ∈ done ∨ [b, a].Sublist order := by
  induction order generalizing done with
  | nil => cases ha
  | cons c order ih =>
    rcases List.mem_cons.1 ha with rfl | hm
    · exact .inl (h.1 b hab)
    · rcases ih h.2 hm with hb | hb
      · rcases List.mem_cons.1 hb with rfl | hb
        · exact .inr ((List.singleton_sublist.2 hm).cons_cons b)
        · exact .inl hb
      · exact .inr (hb.cons c)

/-! ## 3. Agendas -/

/-- What an aggregate needs is among `seen`, or is entered or left before the aggregate is left. -/
def Pending (env : Environment) : List TypeId → List OrderTask → Prop
  | _, [] => True
  | seen, .enter b :: tasks => Pending env (b :: seen) tasks
  | seen, .leave a :: tasks =>
    (∀ b, env.Needs a b → b ∈ seen) ∧ Pending env (a :: seen) tasks

theorem Pending.mono {seen seen' : List TypeId} {tasks : List OrderTask}
    (h : env.Pending seen tasks) (hs : ∀ b ∈ seen, env.Defined b → b ∈ seen') :
    env.Pending seen' tasks := by
  have hcons : ∀ {c : TypeId} {s s' : List TypeId}, (∀ b ∈ s, env.Defined b → b ∈ s') →
      ∀ b ∈ c :: s, env.Defined b → b ∈ c :: s' := by
    intro c s s' hs b hb hd
    rcases List.mem_cons.1 hb with rfl | hb
    · exact List.mem_cons_self
    · exact List.mem_cons_of_mem _ (hs b hb hd)
  induction tasks generalizing seen seen' with
  | nil => trivial
  | cons t tasks ih =>
    cases t with
    | enter c =>
      have htail : env.Pending (c :: seen) tasks := h
      exact ih htail (hcons hs)
    | leave c => exact ⟨fun b hb => hs b (h.1 b hb) hb.1, ih h.2 (hcons hs)⟩

theorem Pending.enter_append {ids seen : List TypeId} {tasks : List OrderTask}
    (h : env.Pending (ids ++ seen) tasks) : env.Pending seen (ids.map .enter ++ tasks) := by
  induction ids generalizing seen with
  | nil => exact h
  | cons c ids ih =>
    have hids : env.Pending (ids ++ c :: seen) tasks := by
      refine h.mono fun b hb _ => ?_
      simpa only [List.cons_append, List.mem_cons, List.mem_append, or_left_comm] using hb
    exact ih hids

theorem pending_enter (ids seen : List TypeId) : env.Pending seen (ids.map .enter) := by
  have h : env.Pending seen (ids.map .enter ++ []) := Pending.enter_append trivial
  rwa [List.append_nil] at h

/-- The aggregate of a task. -/
def OrderTask.id : OrderTask → TypeId
  | .enter i | .leave i => i

/-- A task stands in front of another: if that is the leaving of an aggregate, the aggregate of the
first one, as far as it has a definition, is one that this aggregate needs. -/
def Serves (env : Environment) (t u : OrderTask) : Prop :=
  ∀ a, u = .leave a → env.Defined t.id → TransGen env.Needs a t.id

/-- What holds of the aggregates listed, those entered and the agenda. -/
structure Agenda (env : Environment) (done entered : List TypeId) (tasks : List OrderTask) :
    Prop where
  /-- What has been entered is listed, or will be. -/
  open_or_done : ∀ i ∈ entered, i ∈ done ∨ i ∈ leaves tasks
  stacked : tasks.Pairwise env.Serves
  pending : env.Pending done tasks

theorem mem_leaves {tasks : List OrderTask} : i ∈ leaves tasks ↔ .leave i ∈ tasks := by
  induction tasks with
  | nil => simp [leaves]
  | cons t tasks ih => cases t <;> simp [leaves, ih]

theorem agenda_start (ids : List TypeId) : env.Agenda [] [] (ids.map .enter) where
  open_or_done := fun _ h => nomatch h
  stacked := List.pairwise_map.2 <| List.pairwise_of_forall fun _ _ _ he => nomatch he
  pending := pending_enter ids []

namespace Agenda

variable {done entered : List TypeId} {rest : List OrderTask}

/-- An aggregate is left and listed. -/
theorem leave (h : env.Agenda done entered (.leave a :: rest)) :
    env.Agenda (a :: done) entered rest := by
  refine ⟨fun i hi => ?_, (List.pairwise_cons.1 h.stacked).2, h.pending.2⟩
  rcases h.open_or_done i hi with hd | hl
  · exact .inl (List.mem_cons_of_mem _ hd)
  · rcases List.mem_cons.1 hl with rfl | hl
    · exact .inl List.mem_cons_self
    · exact .inr hl

/-- An aggregate is passed over that is listed or has no definition. -/
theorem skip (h : env.Agenda done entered (.enter b :: rest)) (hb : env.Defined b → b ∈ done) :
    env.Agenda done entered rest := by
  have hpending : env.Pending (b :: done) rest := h.pending
  refine ⟨h.open_or_done, (List.pairwise_cons.1 h.stacked).2, hpending.mono fun c hc hd => ?_⟩
  rcases List.mem_cons.1 hc with rfl | hc
  · exact hb hd
  · exact hc

/-- **If nothing needs itself,** an aggregate that has been entered is listed when it is met again:
what stands in front of its leaving is what it `Needs`. -/
theorem mem_done (h : env.Agenda done entered (.enter b :: rest))
    (hacyclic : ∀ c, ¬ TransGen env.Needs c c) (he : b ∈ entered) (hd : env.Defined b) :
    b ∈ done := by
  refine (h.open_or_done b he).resolve_right fun hl => ?_
  exact hacyclic b ((List.pairwise_cons.1 h.stacked).1 _ (mem_leaves.1 hl) b rfl hd)

/-- An aggregate is entered: first those that it needs are entered, then it is left. -/
theorem enter (h : env.Agenda done entered (.enter a :: rest)) {ids : List TypeId}
    (hd : env.Defined a) (hids : ∀ b, env.Needs a b ↔ env.Defined b ∧ b ∈ ids) :
    env.Agenda done (a :: entered) (ids.map .enter ++ .leave a :: rest) := by
  obtain ⟨hserves, hstacked⟩ := List.pairwise_cons.1 h.stacked
  have hpending : env.Pending (a :: done) rest := h.pending
  have hneeded : ∀ b ∈ ids, env.Defined b → env.Needs a b := fun b hb hd => (hids b).2 ⟨hd, hb⟩
  refine ⟨fun i hi => ?_, List.pairwise_append.2 ⟨?_, List.pairwise_cons.2 ⟨?_, hstacked⟩, ?_⟩,
    Pending.enter_append ⟨fun b hb => List.mem_append_left _ ((hids b).1 hb).2, ?_⟩⟩
  · rw [leaves_enter_append]
    rcases List.mem_cons.1 hi with rfl | hi
    · exact .inr List.mem_cons_self
    · exact (h.open_or_done i hi).imp_right (List.mem_cons_of_mem _)
  · exact List.pairwise_map.2 <| List.pairwise_of_forall fun _ _ _ he => nomatch he
  · exact fun u hu c hc _ => hserves u hu c hc hd
  · rintro _ ht u hu c rfl hdt
    obtain ⟨b, hb, rfl⟩ := List.mem_map.1 ht
    have hab : env.Needs a b := hneeded b hb hdt
    rcases List.mem_cons.1 hu with hu | hu
    · cases hu
      exact .single hab
    · exact (hserves _ hu c rfl hd).tail hab
  · refine hpending.mono fun b hb _ => ?_
    exact (List.mem_cons.1 hb).elim (fun he => he ▸ List.mem_cons_self) fun hb =>
      List.mem_cons_of_mem _ (List.mem_append_right _ hb)

end Agenda

/-- **The search `Respects` what is needed,** if nothing `Needs` itself. The induction is on the
steps of the search. -/
theorem respects_orderFrom (hbuilt : env.Built) (hacyclic : ∀ c, ¬ TransGen env.Needs c c)
    (done entered : List TypeId) (tasks : List OrderTask) (h : env.Agenda done entered tasks) :
    env.Respects done (env.orderFrom entered tasks) := by
  induction entered, tasks using orderFrom_steps env generalizing done with
  | finish entered =>
    rw [orderFrom]
    trivial
  | leave entered id rest ih =>
    rw [orderFrom]
    exact ⟨h.pending.1, ih (id :: done) h.leave⟩
  | skip entered id rest hskip ih =>
    rw [orderFrom_skip hskip]
    refine ih done (h.skip fun hd => ?_)
    exact h.mem_done hacyclic (hskip.resolve_right (not_not_intro hd)) hd
  | enter entered id rest r he hr hd ih =>
    rw [orderFrom_enter he hr hd]
    exact ih done (h.enter ⟨r, hr, hd⟩ fun b => hbuilt.needs_iff hr)

/-! ## 4. The order -/

theorem defined_of_body? {b : TypeBody} (hb : env.body? i = some b) (hd : b.isDefined = true) :
    env.Defined i := by
  obtain ⟨r, hr, rfl⟩ := Option.map_eq_some_iff.1 hb
  exact ⟨r, hr, hd⟩

/-- What has a definition is listed among the identifiers. -/
theorem Built.mem_ids_of_defined (h : env.Built) (hd : env.Defined i) : i ∈ env.ids := by
  obtain ⟨r, hr, hd⟩ := hd
  refine h.mem_ids hr fun s hs => ?_
  rw [hs] at hd
  cases hd

/-- **The order of definitions.** In every environment that entries make (`Reached`),
`definitionOrder` lists each struct, union and class with a definition once, and nothing else; and
if no aggregate needs itself, those that an aggregate `Needs` stand in front of it. -/
theorem definitionOrder_spec (h : env.Reached) :
    env.definitionOrder.Nodup ∧
      (∀ i, i ∈ env.definitionOrder ↔ i ∈ env.ids ∧ env.Defined i) ∧
      ((∀ c, ¬ TransGen env.Needs c c) → ∀ a ∈ env.definitionOrder, ∀ b, env.Needs a b →
        [b, a].Sublist env.definitionOrder) := by
  refine ⟨nodup_definitionOrder env, fun i => ⟨fun hi => ?_, fun hi => ?_⟩,
    fun hacyclic a ha b hab => ?_⟩
  · have hd := defined_of_mem_definitionOrder hi
    exact ⟨h.built.mem_ids_of_defined hd, hd⟩
  · exact (mem_definitionOrder hi.1).2 hi.2
  · have hrespects := respects_orderFrom h.built hacyclic [] [] _ (agenda_start env.ids)
    exact (hrespects.before ha hab).resolve_left fun hm => nomatch hm

/-! ## 5. An example -/

/-- A struct with an array of another struct, of which nothing is stated. -/
def outerEntries : List Entry :=
  [{ kind := "structType", type := ⟨"Struct0"⟩, attributes := .ofList [("tag", "A")],
     symbols := [{ name := some "x", type := ⟨"Array0"⟩ }] },
   { kind := "arrayType", type := ⟨"Array0"⟩,
     attributes := .ofList [("array_size", "2"), ("element_type", "Struct1")] }]

/-- The definition of the other struct. -/
def innerEntries : List Entry :=
  [{ kind := "structType", type := ⟨"Struct1"⟩,
     attributes := .ofList [("is_complete", "1"), ("tag", "B")] }]

/-- The environment of the first struct, and the definition of the other one over it. -/
def nested : Environment :=
  ((Environment.mk {} (initial.add outerEntries {}).1.1.layers).add innerEntries {}).1.1

theorem reached_nested : nested.Reached := by
  have hextend : ((initial.add outerEntries {}).1.1.extend innerEntries {}).1 = .ok nested := rfl
  exact (Reached.initial.add outerEntries {}).extend hextend

theorem body?_nested :
    nested.body? ⟨"Struct0"⟩ = some (.aggregate .structKey (.named "A") true
        [⟨some "x", ⟨"Array0"⟩, none, none⟩] []) ∧
      nested.body? ⟨"Array0"⟩ = some (.array (.fixed 2) ⟨"Struct1"⟩) ∧
      nested.body? ⟨"Struct1"⟩ = some (.aggregate .structKey (.named "B") true [] []) := by
  decide

theorem holds_nested : nested.Holds ⟨"Array0"⟩ ⟨"Struct1"⟩ :=
  .under (.inr ⟨_, body?_nested.2.1⟩) (.aggregate body?_nested.2.2 ⟨_, _, _, _, _, rfl⟩)

/-- Nothing is needed but what stands under the array. -/
theorem eq_of_needs_nested (h : nested.Needs a b) : a = ⟨"Struct0"⟩ ∧ b = ⟨"Struct1"⟩ := by
  obtain ⟨houter, harray, hinner⟩ := body?_nested
  obtain ⟨-, key, tag, complete, ms, bs, ha, hb⟩ := h
  have hmem : a ∈ nested.ids := by
    obtain ⟨r, hr, hbody⟩ := Option.map_eq_some_iff.1 ha
    exact reached_nested.built.mem_ids hr fun s hs => by cases hs.symm.trans hbody
  have hids : nested.ids = [⟨"Struct0"⟩, ⟨"Array0"⟩, ⟨"Struct1"⟩] := by decide
  simp only [hids, List.mem_cons, List.not_mem_nil, or_false] at hmem
  rcases hmem with rfl | rfl | rfl
  · cases houter.symm.trans ha
    obtain ⟨m, hm, hmb⟩ := hb.resolve_right fun hkey => by cases hkey.1
    obtain rfl := List.mem_singleton.1 hm
    rw [← aggregateByValue?_eq_some_iff, aggregateByValue?_eq_some_iff.2 holds_nested] at hmb
    exact ⟨rfl, (Option.some.inj hmb).symm⟩
  · cases harray.symm.trans ha
  · cases hinner.symm.trans ha
    rcases hb with ⟨m, hm, -⟩ | ⟨hkey, -⟩
    · cases hm
    · cases hkey

/-- The other struct stands behind in the table, and in front in the order. -/
theorem definitionOrder_nested : nested.Reached ∧ (∀ c, ¬ TransGen nested.Needs c c) ∧
    [⟨"Struct0"⟩, ⟨"Struct1"⟩].Sublist nested.ids ∧
    [⟨"Struct1"⟩, ⟨"Struct0"⟩].Sublist nested.definitionOrder := by
  have hacyclic : ∀ c, ¬ TransGen nested.Needs c c := by
    intro c hc
    obtain ⟨b, hcb, -⟩ := TransGen.head'_iff.1 hc
    obtain ⟨a, -, hac⟩ := TransGen.tail'_iff.1 hc
    have heq := (eq_of_needs_nested hcb).1.symm.trans (eq_of_needs_nested hac).2
    exact absurd heq (by decide)
  have houter : nested.Defined ⟨"Struct0"⟩ := defined_of_body? body?_nested.1 rfl
  have hneeds : nested.Needs ⟨"Struct0"⟩ ⟨"Struct1"⟩ :=
    ⟨defined_of_body? body?_nested.2.2 rfl, _, _, _, _, _, body?_nested.1,
      .inl ⟨_, List.mem_singleton_self _, holds_nested⟩⟩
  obtain ⟨-, hmem, hbefore⟩ := definitionOrder_spec reached_nested
  have hin := (hmem ⟨"Struct0"⟩).2 ⟨reached_nested.built.mem_ids_of_defined houter, houter⟩
  exact ⟨reached_nested, hacyclic, by decide, hbefore hacyclic _ hin _ hneeds⟩

end TypeLedger.Environment
