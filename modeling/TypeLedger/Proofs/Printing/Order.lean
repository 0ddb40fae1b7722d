import TypeLedger.Environment.Order

/-!
# The order of definitions

* `orderFrom_skip`, `orderFrom_enter`: one step of the search. `orderFrom_steps` is the induction on
  its steps: it leaves an aggregate, passes over one, or enters one.
* `orderFrom_spec`: the search lists each aggregate at most once, lists only what is defined, and
  forgets nothing that it was told to enter.
* `nodup_definitionOrder`, `mem_definitionOrder`: the order lists what is defined, once each.
-/

namespace TypeLedger.Environment

variable {env : Environment}

/-! ## 1. The steps of the search -/

/-- The identifier is that of an aggregate with a definition (`isDefined`). -/
def Defined (env : Environment) (id : TypeId) : Prop :=
  ∃ record, env.lookup? id = some record ∧ record.body.isDefined = true

theorem defined_iff {id : TypeId} {record : TypeRecord} (hr : env.lookup? id = some record) :
    env.Defined id ↔ record.body.isDefined = true := by
  simp [Defined, hr]

theorem not_defined {id : TypeId} (hr : env.lookup? id = none) : ¬ env.Defined id := by
  simp [Defined, hr]

/-- What has been entered before, or has no definition, is passed over. -/
theorem orderFrom_skip {entered : List TypeId} {id : TypeId} {rest : List OrderTask}
    (h : id ∈ entered ∨ ¬ env.Defined id) :
    env.orderFrom entered (.enter id :: rest) = env.orderFrom entered rest := by
  rw [orderFrom]
  split
  · rfl
  · rename_i he
    split
    · rfl
    · rename_i record hr
      exact if_neg fun hd => h.resolve_left he ⟨record, hr, hd⟩

/-- What is entered for the first time waits for those that it `needs`. -/
theorem orderFrom_enter {entered : List TypeId} {id : TypeId} {rest : List OrderTask}
    {record : TypeRecord} (he : id ∉ entered) (hr : env.lookup? id = some record)
    (hd : record.body.isDefined = true) :
    env.orderFrom entered (.enter id :: rest) =
      env.orderFrom (id :: entered) ((env.needs record.body).map .enter ++ .leave id :: rest) := by
  rw [orderFrom, dif_neg he]
  split
  · rename_i h
    rw [hr] at h
    cases h
  · rename_i record' h
    rw [hr] at h
    obtain rfl := Option.some.inj h
    exact if_pos hd

/-- The induction on the steps of the search. -/
@[elab_as_elim]
theorem orderFrom_steps (env : Environment) {motive : List TypeId → List OrderTask → Prop}
    (finish : ∀ entered, motive entered [])
    (leave : ∀ entered id rest, motive entered rest → motive entered (.leave id :: rest))
    (skip : ∀ entered id rest, id ∈ entered ∨ ¬ env.Defined id → motive entered rest →
      motive entered (.enter id :: rest))
    (enter : ∀ entered id rest record, id ∉ entered → env.lookup? id = some record →
      record.body.isDefined = true →
      motive (id :: entered) ((env.needs record.body).map .enter ++ .leave id :: rest) →
      motive entered (.enter id :: rest))
    (entered : List TypeId) (tasks : List OrderTask) : motive entered tasks := by
  induction entered, tasks using orderFrom.induct env with
  | case1 entered => exact finish entered
  | case2 entered id rest ih => exact leave entered id rest ih
  | case3 entered id rest he ih => exact skip entered id rest (.inl he) ih
  | case4 entered id rest _ hr ih => exact skip entered id rest (.inr (not_defined hr)) ih
  | case5 entered id rest he record hr _ hd ih => exact enter entered id rest record he hr hd ih
  | case6 entered id rest _ record hr _ hd ih =>
    exact skip entered id rest (.inr fun h => hd ((defined_iff hr).1 h)) ih

/-! ## 2. What the search lists -/

/-- The aggregates that an agenda will leave. -/
def leaves : List OrderTask → List TypeId
  | [] => []
  | .leave id :: tasks => id :: leaves tasks
  | .enter _ :: tasks => leaves tasks

theorem leaves_enter_append (ids : List TypeId) (tasks : List OrderTask) :
    leaves (ids.map .enter ++ tasks) = leaves tasks := by
  induction ids with
  | nil => rfl
  | cons id ids ih => exact ih

/-- What an agenda with the aggregates `entered` so far comes to. -/
structure Ordered (env : Environment) (entered : List TypeId) (tasks : List OrderTask)
    (order : List TypeId) : Prop where
  nodup : order.Nodup
  only : ∀ id ∈ order, id ∈ leaves tasks ∨ (id ∉ entered ∧ env.Defined id)
  left : ∀ id ∈ leaves tasks, id ∈ order
  complete : ∀ id, .enter id ∈ tasks → env.Defined id → id ∈ entered ∨ id ∈ order

/-- A task that changes nothing. -/
theorem Ordered.skip {entered : List TypeId} {id : TypeId} {tasks : List OrderTask}
    {order : List TypeId} (h : env.Ordered entered tasks order)
    (hid : env.Defined id → id ∈ entered) : env.Ordered entered (.enter id :: tasks) order := by
  refine ⟨h.nodup, h.only, h.left, fun x hx hd => ?_⟩
  rcases List.mem_cons.1 hx with he | hx
  · obtain rfl : x = id := by cases he; rfl
    exact .inl (hid hd)
  · exact h.complete x hx hd

/-- An aggregate is left: it stands in front of those that are left later. -/
theorem Ordered.leave {entered : List TypeId} {id : TypeId} {rest : List OrderTask}
    {order : List TypeId} (h : env.Ordered entered rest order) (he : id ∈ entered)
    (hid : id ∉ leaves rest) : env.Ordered entered (.leave id :: rest) (id :: order) := by
  refine ⟨List.nodup_cons.2 ⟨fun hm => ?_, h.nodup⟩, fun x hx => ?_, fun x hx => ?_,
    fun x hx hd => ?_⟩
  · rcases h.only id hm with hl | ⟨hnot, -⟩
    · exact hid hl
    · exact hnot he
  · rcases List.mem_cons.1 hx with rfl | hx
    · exact .inl List.mem_cons_self
    · exact (h.only x hx).imp_left (List.mem_cons_of_mem _)
  · rcases List.mem_cons.1 hx with rfl | hx
    · exact List.mem_cons_self
    · exact List.mem_cons_of_mem _ (h.left x hx)
  · rcases List.mem_cons.1 hx with he | hx
    · cases he
    · exact (h.complete x hx hd).imp_right (List.mem_cons_of_mem _)

/-- A defined aggregate is entered: what it needs is entered first, then it is left. -/
theorem Ordered.enter {entered : List TypeId} {id : TypeId} {ids : List TypeId}
    {rest : List OrderTask} {order : List TypeId}
    (h : env.Ordered (id :: entered) (ids.map .enter ++ .leave id :: rest) order)
    (he : id ∉ entered) (hd : env.Defined id) :
    env.Ordered entered (.enter id :: rest) order := by
  have hl : leaves (ids.map .enter ++ .leave id :: rest) = id :: leaves rest :=
    leaves_enter_append _ _
  have hleft : ∀ x ∈ id :: leaves rest, x ∈ order := fun x hx => h.left x (by rwa [hl])
  refine ⟨h.nodup, fun x hx => ?_, fun x hx => hleft x (List.mem_cons_of_mem _ hx),
    fun x hx hdx => ?_⟩
  · rcases h.only x hx with hm | ⟨hnot, hdx⟩
    · rw [hl] at hm
      rcases List.mem_cons.1 hm with rfl | hm
      · exact .inr ⟨he, hd⟩
      · exact .inl hm
    · exact .inr ⟨fun hm => hnot (List.mem_cons_of_mem _ hm), hdx⟩
  · rcases List.mem_cons.1 hx with hx | hx
    · obtain rfl : x = id := by cases hx; rfl
      exact .inr (hleft x List.mem_cons_self)
    · have hm : .enter x ∈ ids.map OrderTask.enter ++ .leave id :: rest :=
        List.mem_append_right _ (List.mem_cons_of_mem _ hx)
      rcases h.complete x hm hdx with hx | hx
      · rcases List.mem_cons.1 hx with rfl | hx
        · exact .inr (hleft x List.mem_cons_self)
        · exact .inl hx
      · exact .inr hx

/-- **The search for an order** keeps what is `Ordered`. What has been entered is never entered
again, so an aggregate is left once. -/
theorem orderFrom_spec (entered : List TypeId) (tasks : List OrderTask)
    (hn : (leaves tasks).Nodup) (hs : ∀ id ∈ leaves tasks, id ∈ entered) :
    env.Ordered entered tasks (env.orderFrom entered tasks) := by
  induction entered, tasks using orderFrom_steps env with
  | finish entered =>
    rw [orderFrom]
    exact ⟨List.nodup_nil, List.forall_mem_nil _, List.forall_mem_nil _,
      fun _ h => absurd h List.not_mem_nil⟩
  | leave entered id rest ih =>
    obtain ⟨hid, hrest⟩ := List.nodup_cons.1 hn
    rw [orderFrom]
    exact (ih hrest fun x hx => hs x (List.mem_cons_of_mem _ hx)).leave (hs id List.mem_cons_self)
      hid
  | skip entered id rest h ih =>
    rw [orderFrom_skip h]
    exact (ih hn hs).skip fun hd => h.resolve_right (not_not_intro hd)
  | enter entered id rest record he hr hd ih =>
    rw [orderFrom_enter he hr hd]
    rw [leaves_enter_append] at ih
    refine (ih (List.nodup_cons.2 ⟨fun hm => he (hs id hm), hn⟩) fun x hx => ?_).enter he
      ⟨record, hr, hd⟩
    rcases List.mem_cons.1 hx with rfl | hx
    · exact List.mem_cons_self
    · exact List.mem_cons_of_mem _ (hs x hx)

theorem leaves_enter (ids : List TypeId) : leaves (ids.map .enter) = [] := by
  have := leaves_enter_append ids []
  rwa [List.append_nil] at this

/-! ## 3. The order -/

theorem ordered_definitionOrder (env : Environment) :
    env.Ordered [] (env.ids.map .enter) env.definitionOrder :=
  orderFrom_spec [] _ (by rw [leaves_enter]; exact List.nodup_nil)
    fun id h => by rw [leaves_enter] at h; cases h

/-- **No aggregate is defined twice** in the `definitionOrder`. -/
theorem nodup_definitionOrder (env : Environment) : env.definitionOrder.Nodup :=
  (ordered_definitionOrder env).nodup

theorem defined_of_mem_definitionOrder {id : TypeId} (h : id ∈ env.definitionOrder) :
    env.Defined id := by
  rcases (ordered_definitionOrder env).only id h with hl | ⟨-, hd⟩
  · rw [leaves_enter] at hl
    cases hl
  · exact hd

/-- **What has a definition (`Defined`) is in the order,** and nothing else. -/
theorem mem_definitionOrder {id : TypeId} (hid : id ∈ env.ids) :
    id ∈ env.definitionOrder ↔ env.Defined id := by
  refine ⟨defined_of_mem_definitionOrder, fun h => ?_⟩
  rcases (ordered_definitionOrder env).complete id (List.mem_map_of_mem hid) h with he | hm
  · cases he
  · exact hm

end TypeLedger.Environment
