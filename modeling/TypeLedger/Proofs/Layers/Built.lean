import TypeLedger.Proofs.Tables.Load

/-!
# Layers that entries have built

* `Entry.readAs_of_readRecord`: what comes of an entry that can be read.
* `Environment.accept`: one record and its bases go into the topmost layer. `lookup?_accept_self`,
  `baseEdges_accept_self`, `mem_ids_accept` and the lemmas beside them say what is found afterwards.
* `Environment.add_related`: what each accepted entry keeps between two environments, a list of
  entries keeps, and both environments stop at the same fault.
* `Environment.Built`: what holds of the layers of every environment that is made of entries. Its
  identifiers are listed once each, and every aggregate is among them.
-/

namespace TypeLedger

/-! ## 1. What an entry is read as -/

/-- Only a class has bases of its own. -/
def TypeBody.BasesFit : TypeBody → Prop
  | .aggregate key _ _ _ bases => key ≠ .classKey → bases = []
  | _ => True

namespace Entry

variable {e : Entry} {tag : Tag}

theorem exists_ok_of_bind {α β ε : Type} {x : Except ε α} {f : α → Except ε β} {b : β}
    (h : x >>= f = .ok b) : ∃ a, x = .ok a ∧ f a = .ok b := by
  cases x with
  | error _ => cases h
  | ok a => exact ⟨a, rfl, h⟩

/-- What the body of an entry is read as, if its fields can be read: `complete` and `edges` are what
it says of completeness and bases, and `tag` is what its aggregate is called. -/
inductive ReadAs (e : Entry) (tag : Tag) (complete : Bool) (edges : List BaseEdge) : TypeBody → Prop
  | aggregate {key : RecordKey} {ms : List Member}
    (hms : e.symbols.mapM Symbol.readMember = .ok ms) :
    ReadAs e tag complete edges
      (.aggregate key tag complete ms (if key = .classKey then edges else []))
  | qualified : ReadAs e tag complete edges (.qualified (e.typeRef "name"))
  | pointer (kind : PointerKind) : ReadAs e tag complete edges (.pointer kind (e.typeRef "ref"))
  | function (variadic : Bool) :
    ReadAs e tag complete edges (.function (e.typeRef "return_type") e.params variadic)
  | array (size : ArraySize) :
    ReadAs e tag complete edges (.array size (e.typeRef "element_type"))
  | enumeration : ReadAs e tag complete edges (.enumeration tag)
  | other (words : String) : ReadAs e tag complete edges (.other words)

theorem readAs_of_readBody {complete : Bool} {edges : List BaseEdge} {body : TypeBody}
    (h : e.readBody tag complete edges = .ok body) : e.ReadAs tag complete edges body := by
  unfold readBody at h
  split at h
  · obtain ⟨ms, hms, h⟩ := exists_ok_of_bind h
    cases h
    exact .aggregate hms
  · split at h
    · cases h
      exact .qualified
    split at h
    · cases h
      exact .pointer _
    split at h
    · obtain ⟨variadic, -, h⟩ := exists_ok_of_bind h
      cases h
      exact .function variadic
    split at h
    · obtain ⟨size, -, h⟩ := exists_ok_of_bind h
      cases h
      exact .array size
    split at h
    · cases h
      exact .enumeration
    · cases h
      exact .other _

/-- **What comes of an entry that can be read:** a record of its own identifier, with a body and
bases that the entry states (`Entry.ReadAs`). -/
theorem readAs_of_readRecord {r : TypeRecord} {edges : List BaseEdge}
    (h : e.readRecord tag = .ok (r, edges)) :
    r.id = e.type ∧ e.bases.mapM BaseEntry.readEdge = .ok edges ∧
      ∃ complete, e.ReadAs tag complete edges r.body := by
  obtain ⟨quals, -, h⟩ := exists_ok_of_bind h
  obtain ⟨es, hes, h⟩ := exists_ok_of_bind h
  obtain ⟨stated, -, h⟩ := exists_ok_of_bind h
  obtain ⟨body, hbody, h⟩ := exists_ok_of_bind h
  cases h
  exact ⟨rfl, hes, _, readAs_of_readBody hbody⟩

/-- An entry is read as a record of its own identifier, and only a class has bases. -/
theorem readRecord_ok {r : TypeRecord} {edges : List BaseEdge}
    (h : e.readRecord tag = .ok (r, edges)) : r.id = e.type ∧ r.body.BasesFit := by
  obtain ⟨hid, -, complete, hbody⟩ := readAs_of_readRecord h
  refine ⟨hid, ?_⟩
  generalize r.body = body at hbody
  cases hbody with
  | aggregate => exact fun hkey => if_neg hkey
  | _ => trivial

end Entry

namespace Environment

/-! ## 2. One record more -/

/-- The environment with a record and its bases in the topmost layer. -/
def accept (env : Environment) (r : TypeRecord) (edges : List BaseEdge) : Environment :=
  { env with top := env.top.accept r edges }

variable {env : Environment} {r : TypeRecord} {edges : List BaseEdge} {i : TypeId}

theorem lookup?_accept_self : (env.accept r edges).lookup? r.id = some r := by
  simp [lookup?, layers, lookupIn, accept, Layer.accept]

theorem lookup?_accept_of_ne (h : i ≠ r.id) :
    (env.accept r edges).lookup? i = env.lookup? i := by
  simp [lookup?, layers, lookupIn, accept, Layer.accept, Keyed.lookup_set_of_ne h]

theorem baseEdges_accept_self : (env.accept r edges).baseEdges r.id = edges := by
  simp [baseEdges, layers, basesIn, accept, Layer.accept, Keyed.has_set]

theorem baseEdges_accept_of_ne (h : i ≠ r.id) :
    (env.accept r edges).baseEdges i = env.baseEdges i := by
  simp [baseEdges, layers, basesIn, accept, Layer.accept, Keyed.has_set, h,
    Inheritance.bases_replace_of_ne _ h]

theorem mem_order_accept {l : Layer} :
    i ∈ (l.accept r edges).order ↔ i ∈ l.order ∨ i = r.id := by
  simp only [Layer.accept]
  split
  · rename_i h
    exact ⟨.inl, fun hi => hi.elim id fun he => he ▸ h⟩
  · simp

/-- The identifiers of an environment are those that its layers below list and its topmost layer has
no record for, and then those that the topmost layer lists. -/
theorem mem_ids : i ∈ env.ids ↔
    (i ∈ idsIn env.below ∧ Keyed.has i env.top.records = false) ∨ i ∈ env.top.order := by
  simp [ids, layers, idsIn]

theorem mem_ids_accept : i ∈ (env.accept r edges).ids ↔ i ∈ env.ids ∨ i = r.id := by
  have hhas : Keyed.has i (env.accept r edges).top.records =
      (i == r.id || Keyed.has i env.top.records) := Keyed.has_set i r.id r env.top.records
  rw [mem_ids, mem_ids, hhas, show (env.accept r edges).top.order =
    (env.top.accept r edges).order from rfl, mem_order_accept]
  by_cases hi : i = r.id
  · simp [hi]
  · simp [hi]
    rfl

/-- An identifier that the topmost layer lists keeps its place. -/
theorem ids_accept_of_mem (h : r.id ∈ env.top.order) (hr : Keyed.has r.id env.top.records = true) :
    (env.accept r edges).ids = env.ids := by
  have hhas : ∀ i, Keyed.has i (Keyed.set r.id r env.top.records) =
      Keyed.has i env.top.records := by
    intro i
    by_cases hi : i = r.id
    · rw [Keyed.has_set, hi, hr, Bool.or_true]
    · simp [Keyed.has_set, hi]
  simp only [ids, layers, idsIn, accept, Layer.accept, hhas, if_pos h]

/-- An identifier that is not listed yet is listed last. -/
theorem ids_accept_of_not_mem (h : r.id ∉ env.ids) :
    (env.accept r edges).ids = env.ids ++ [r.id] := by
  rw [mem_ids, not_or, not_and] at h
  have hfilter : (idsIn env.below).filter (fun i =>
        !Keyed.has i (Keyed.set r.id r env.top.records)) =
      (idsIn env.below).filter fun i => !Keyed.has i env.top.records := by
    refine List.filter_congr fun i hi => ?_
    rw [Keyed.has_set]
    by_cases he : i = r.id
    · subst he
      simpa using h.1 hi
    · simp [he]
  simp only [ids, layers, idsIn, accept, Layer.accept, if_neg h.2, List.append_assoc]
  rw [hfilter]

/-! ## 3. Lists of entries -/

/-- One entry after the other is read and accepted, up to the first with a fault. -/
theorem add_cons (env : Environment) (e : Entry) (es : List Entry) (k : Naming) :
    env.add (e :: es) k =
      match e.readRecord (k.tagEntry e).1 with
      | .ok (r, edges) => (env.accept r edges).add es (k.tagEntry e).2
      | .error f => ((env, some f), (k.tagEntry e).2) := rfl

/-- **Two environments that accept the same entries** stop at the same fault, name alike, and stay
related as every `accept` keeps them. -/
theorem add_related {R : Environment → Environment → Prop} {es : List Entry}
    (step : ∀ env env' r edges, R env env' → r.id ∈ es.map Entry.type → r.body.BasesFit →
      R (env.accept r edges) (env'.accept r edges))
    {env env' : Environment} (h : R env env') (k : Naming) :
    R (env.add es k).1.1 (env'.add es k).1.1 ∧ (env.add es k).1.2 = (env'.add es k).1.2 ∧
      (env.add es k).2 = (env'.add es k).2 := by
  induction es generalizing env env' k with
  | nil => exact ⟨h, rfl, rfl⟩
  | cons e es ih =>
    rw [add_cons, add_cons]
    cases hr : e.readRecord (k.tagEntry e).1 with
    | error f => exact ⟨h, rfl, rfl⟩
    | ok v =>
      obtain ⟨r, edges⟩ := v
      obtain ⟨hid, hfit⟩ := Entry.readRecord_ok hr
      refine ih (fun a b r edges hab hm => step a b r edges hab (List.mem_cons_of_mem _ hm)) ?_ _
      exact step env env' r edges h (hid ▸ List.mem_cons_self) hfit

/-- What every accepted entry keeps, a list of entries keeps. -/
theorem add_keeps {P : Environment → Prop} {es : List Entry}
    (step : ∀ env r edges, P env → r.id ∈ es.map Entry.type → r.body.BasesFit →
      P (env.accept r edges))
    {env : Environment} (h : P env) (k : Naming) : P (env.add es k).1.1 := by
  refine (add_related (R := fun a b => P a ∧ P b) (fun a b r edges hab hm hr => ?_) ⟨h, h⟩ k).1.1
  exact ⟨step a r edges hab.1 hm hr, step b r edges hab.2 hm hr⟩

theorem checked_eq (env : Environment) (es : List Entry) (k : Naming) :
    env.checked es k =
      ((env.add es k).1.2.elim (.ok (env.add es k).1.1) .error, (env.add es k).2) := rfl

/-- A list of entries without a fault leaves the environment that it makes. -/
theorem add_of_checked {env env' : Environment} {es : List Entry} {k : Naming}
    (h : (env.checked es k).1 = .ok env') : (env.add es k).1.1 = env' := by
  rw [checked_eq] at h
  cases hf : (env.add es k).1.2 with
  | none =>
    rw [hf] at h
    exact Except.ok.inj h
  | some f =>
    rw [hf] at h
    cases h

end Environment

/-! ## 4. Layers -/

/-- What holds of a layer that entries have built: it lists the identifiers that it has records for,
once each, those of the fundamental types apart. -/
structure Layer.Built (l : Layer) : Prop where
  nodup : l.order.Nodup
  has : ∀ i ∈ l.order, Keyed.has i l.records = true
  listed : ∀ i r, l.records.lookup i = some r → i ∈ l.order ∨ ∃ s, r.body = .reserved s
  basesFit : ∀ i r, l.records.lookup i = some r → r.body.BasesFit

theorem Layer.built_empty : Layer.Built {} where
  nodup := List.nodup_nil
  has := fun _ h => nomatch h
  listed := fun _ _ h => nomatch h
  basesFit := fun _ _ h => nomatch h

theorem Layer.built_fundamental : Layer.fundamental.Built := by
  have hreserved : ∀ i r, Layer.fundamental.records.lookup i = some r →
      ∃ s, r.body = .reserved s := by
    intro i r h
    obtain ⟨p, -, hp⟩ := List.mem_map.1 (Keyed.mem_of_lookup h)
    cases hp
    exact ⟨p.2, rfl⟩
  refine ⟨List.nodup_nil, fun _ h => (nomatch h), fun i r h => .inr (hreserved i r h),
    fun i r h => ?_⟩
  obtain ⟨s, hs⟩ := hreserved i r h
  rw [hs]
  trivial

theorem Layer.Built.accept {l : Layer} (h : l.Built) {r : TypeRecord} (hr : r.body.BasesFit)
    (edges : List BaseEdge) : (l.accept r edges).Built := by
  have hlookup : ∀ i s, (l.accept r edges).records.lookup i = some s →
      (i = r.id ∧ s = r) ∨ (i ≠ r.id ∧ l.records.lookup i = some s) := by
    intro i s hs
    by_cases hi : i = r.id
    · subst hi
      rw [Layer.accept, Keyed.lookup_set_self] at hs
      exact .inl ⟨rfl, (Option.some.inj hs).symm⟩
    · rw [Layer.accept, Keyed.lookup_set_of_ne hi] at hs
      exact .inr ⟨hi, hs⟩
  constructor
  · simp only [Layer.accept]
    split
    · exact h.nodup
    · rename_i hm
      refine List.nodup_append.2 ⟨h.nodup, by simp, fun i hi j hj hij => hm ?_⟩
      rw [List.mem_singleton] at hj
      rwa [← hj, ← hij]
  · intro i hi
    rw [Layer.accept, Keyed.has_set]
    rcases Environment.mem_order_accept.1 hi with hi | hi
    · rw [h.has i hi, Bool.or_true]
    · rw [hi, beq_self_eq_true, Bool.true_or]
  · intro i s hs
    rcases hlookup i s hs with ⟨rfl, -⟩ | ⟨-, hs⟩
    · exact .inl (Environment.mem_order_accept.2 (.inr rfl))
    · exact (h.listed i s hs).imp_left fun hm => Environment.mem_order_accept.2 (.inl hm)
  · intro i s hs
    rcases hlookup i s hs with ⟨-, rfl⟩ | ⟨-, hs⟩
    · exact hr
    · exact h.basesFit i s hs

namespace Environment

/-- All layers are such as entries build. -/
def Built (env : Environment) : Prop := ∀ l ∈ env.layers, l.Built

/-- The environments that entries make: that of the fundamental types, one with entries added to its
topmost layer (`Environment.add`), as far as they have no fault, and one with entries in a layer on
top (`Environment.extend`). -/
inductive Reached : Environment → Prop
  | initial : Reached .initial
  | add {env : Environment} (h : Reached env) (es : List Entry) (k : Naming) :
    Reached (env.add es k).1.1
  | extend {env env' : Environment} (h : Reached env) {es : List Entry} {k : Naming}
    (he : (env.extend es k).1 = .ok env') : Reached env'

theorem Built.accept {env : Environment} (h : env.Built) {r : TypeRecord}
    (hr : r.body.BasesFit) (edges : List BaseEdge) : (env.accept r edges).Built := by
  intro l hl
  rcases List.mem_cons.1 hl with rfl | hl
  · exact (h env.top List.mem_cons_self).accept hr edges
  · exact h l (List.mem_cons_of_mem _ hl)

/-- The environment with an empty layer on top. -/
def raised (env : Environment) : Environment := ⟨{}, env.layers⟩

theorem Built.raised {env : Environment} (h : env.Built) : env.raised.Built := by
  intro l hl
  rcases List.mem_cons.1 hl with rfl | hl
  · exact Layer.built_empty
  · exact h l hl

theorem Built.add {env : Environment} (h : env.Built) (es : List Entry) (k : Naming) :
    (env.add es k).1.1.Built :=
  add_keeps (fun _ _ edges hb _ hr => hb.accept hr edges) h k

/-- **Entries build environments:** what is `Reached` is `Built`. -/
theorem Reached.built {env : Environment} (h : env.Reached) : env.Built := by
  induction h with
  | initial =>
    intro l hl
    obtain rfl := List.mem_singleton.1 hl
    exact Layer.built_fundamental
  | add _ es k ih => exact ih.add es k
  | @extend env env' _ es k he ih =>
    rw [← add_of_checked he]
    exact ih.raised.add es k

theorem Reached.ofEntries {es : List Entry} {k : Naming} {env : Environment}
    (h : (ofEntries es k).1 = .ok env) : env.Reached := by
  rw [← add_of_checked h]
  exact Reached.initial.add es k

/-! ## 5. Identifiers -/

theorem nodup_idsIn {ls : List Layer} (h : ∀ l ∈ ls, l.Built) : (idsIn ls).Nodup := by
  induction ls with
  | nil => exact List.nodup_nil
  | cons l ls ih =>
    have hl := h l List.mem_cons_self
    refine List.nodup_append.2 ⟨(ih fun l' hl' => h l' (List.mem_cons_of_mem _ hl')).filter _,
      hl.nodup, fun i hi j hj hij => ?_⟩
    -- what the layer lists has a record in it, and has been taken out of the list below
    subst hij
    have hhas := hl.has i hj
    rw [List.mem_filter, hhas] at hi
    exact absurd hi.2 (by decide)

/-- **No identifier is listed twice** among the `ids`. -/
theorem Built.nodup_ids {env : Environment} (h : env.Built) : env.ids.Nodup := nodup_idsIn h

theorem mem_idsIn {ls : List Layer} (h : ∀ l ∈ ls, l.Built) {i : TypeId} {r : TypeRecord}
    (hr : lookupIn i ls = some r) (hs : ∀ s, r.body ≠ .reserved s) : i ∈ idsIn ls := by
  induction ls with
  | nil => cases hr
  | cons l ls ih =>
    rw [idsIn, List.mem_append]
    cases hl : l.records.lookup i with
    | some r' =>
      rw [lookupIn, hl] at hr
      obtain rfl := Option.some.inj hr
      refine .inr (((h l List.mem_cons_self).listed i r' hl).resolve_right ?_)
      rintro ⟨s, hb⟩
      exact hs s hb
    | none =>
      rw [lookupIn, hl] at hr
      refine .inl (List.mem_filter.2 ⟨ih (fun l' hl' => h l' (List.mem_cons_of_mem _ hl')) hr, ?_⟩)
      simp [Keyed.has, hl]

/-- **Every identifier with a record is listed** among the `ids`, those of the fundamental types
apart. -/
theorem Built.mem_ids {env : Environment} (h : env.Built) {i : TypeId} {r : TypeRecord}
    (hr : env.lookup? i = some r) (hs : ∀ s, r.body ≠ .reserved s) : i ∈ env.ids :=
  mem_idsIn h hr hs

theorem basesFit_lookupIn {ls : List Layer} (h : ∀ l ∈ ls, l.Built) {i : TypeId} {r : TypeRecord}
    (hr : lookupIn i ls = some r) : r.body.BasesFit := by
  induction ls with
  | nil => cases hr
  | cons l ls ih =>
    cases hl : l.records.lookup i with
    | some r' =>
      rw [lookupIn, hl] at hr
      exact Option.some.inj hr ▸ (h l List.mem_cons_self).basesFit i r' hl
    | none =>
      rw [lookupIn, hl] at hr
      exact ih (fun l' hl' => h l' (List.mem_cons_of_mem _ hl')) hr

theorem Built.basesFit {env : Environment} (h : env.Built) {i : TypeId} {r : TypeRecord}
    (hr : env.lookup? i = some r) : r.body.BasesFit :=
  basesFit_lookupIn h hr

end Environment

end TypeLedger
