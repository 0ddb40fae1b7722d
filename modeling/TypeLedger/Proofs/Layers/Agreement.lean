import TypeLedger.Proofs.Layers.Built
import TypeLedger.Proofs.Layers.ByValue

/-!
# Environments that agree

* `Environment.Agree`: two environments have the same records for some identifiers, apart from
  functions that are on the way already, and a declaration of one of these meets no others.
  `Agree.declareWith`: both declare them alike.
* `Environment.Same`: two environments have the same records and the same bases for all identifiers.
  Whatever is asked of the one, the other answers the same.
* `Same.definitionOrder`: if they list the same identifiers, they define them in the same order.
-/

namespace TypeLedger.Environment

theorem body?_congr {env env' : Environment} {i : TypeId} (h : env.lookup? i = env'.lookup? i) :
    env.body? i = env'.body? i := by
  rw [body?, h, body?]

/-- The environments have the same records for the identifiers of `S`, and a declaration that has
come to one of these goes on to others of these. Those of `M` are left out: they are functions in
both, and on the way of the declaration already. -/
structure Agree (S M : TypeId → Prop) (env env' : Environment) : Prop where
  lookup : ∀ i, S i → ¬ M i → env.lookup? i = env'.lookup? i
  onward : ∀ i r, S i → ¬ M i → env.lookup? i = some r → ∀ j ∈ r.body.onward, S j
  met : ∀ i, M i → (∃ t ps v, env.body? i = some (.function t ps v)) ∧
    ∃ t ps v, env'.body? i = some (.function t ps v)

namespace Agree

variable {S M : TypeId → Prop} {env env' : Environment} {i : TypeId}

theorem contains (h : Agree S M env env') (hi : S i) : env.contains i = env'.contains i := by
  by_cases hm : M i
  · obtain ⟨⟨t, ps, v, hb⟩, t', ps', v', hb'⟩ := h.met i hm
    obtain ⟨r, hr, -⟩ := Option.map_eq_some_iff.1 hb
    obtain ⟨r', hr', -⟩ := Option.map_eq_some_iff.1 hb'
    rw [Environment.contains, hr, Environment.contains, hr']
    rfl
  · rw [Environment.contains, h.lookup i hi hm, Environment.contains]

theorem bindsTighter (h : Agree S M env env') (n : Nat) (hi : S i) :
    env.bindsTighter n i = env'.bindsTighter n i := by
  induction n generalizing i with
  | zero => rfl
  | succ n ih =>
    rw [Environment.bindsTighter, Environment.bindsTighter]
    by_cases hm : M i
    · obtain ⟨⟨t, ps, v, hb⟩, t', ps', v', hb'⟩ := h.met i hm
      rw [hb, hb']
    · rw [← body?_congr (h.lookup i hi hm)]
      split
      · rename_i base hb
        obtain ⟨r, hr, hbody⟩ := Option.map_eq_some_iff.1 hb
        exact ih (h.onward i r hi hm hr base (by simp [hbody, TypeBody.onward]))
      all_goals rfl

theorem pointerDeclarator (h : Agree S M env env') (hi : S i) (kind : PointerKind)
    (quals : Qualifiers) (name : String) :
    env.pointerDeclarator kind quals i name = env'.pointerDeclarator kind quals i name := by
  rw [Environment.pointerDeclarator, Environment.pointerDeclarator, h.bindsTighter _ hi]

theorem signatureKnown (h : Agree S M env env') (hi : S i) {ps : List Param}
    (hps : ∀ p ∈ ps, S p.type) : env.signatureKnown i ps = env'.signatureKnown i ps := by
  have hall : (ps.all fun p => env.contains p.type) = ps.all fun p => env'.contains p.type := by
    rw [Bool.eq_iff_iff, List.all_eq_true, List.all_eq_true]
    exact forall₂_congr fun p hp => by rw [h.contains (hps p hp)]
  rw [Environment.signatureKnown, Environment.signatureKnown, h.contains hi, hall]

mutual

/-- **Where environments `Agree`, they declare alike.** The induction is on the records that the
declaration has not yet met. -/
theorem declareWith (h : Agree S M env env') (path : List TypeId) (hpath : ∀ i, M i → i ∈ path)
    (quals : Qualifiers) (i : TypeId) (hi : S i) (name : String) :
    env.declareWith path quals i name = env'.declareWith path quals i name := by
  by_cases hp : i ∈ path
  · rw [declareWith_incomplete (.inr hp), declareWith_incomplete (.inr hp)]
  have hm : ¬ M i := fun hm => hp (hpath i hm)
  have hlookup := h.lookup i hi hm
  cases hr : env.lookup? i with
  | none => rw [declareWith_incomplete (.inl hr), declareWith_incomplete (.inl (hlookup ▸ hr))]
  | some record =>
    have hlt := unseen_cons_lt hr hp
    have honward := h.onward i record hi hm hr
    have hlonger : ∀ j, M j → j ∈ i :: path := fun j hj => List.mem_cons_of_mem _ (hpath j hj)
    rw [declareWith_eq hr hp, declareWith_eq (hlookup ▸ hr) hp]
    cases hb : record.body with
    | qualified base =>
      have hj : S base := honward base (by simp [hb, TypeBody.onward])
      simp only [h.contains hj, h.declareWith (i :: path) hlonger _ base hj]
    | pointer kind pointee =>
      have hj : S pointee := honward pointee (by simp [hb, TypeBody.onward])
      simp only [h.contains hj, h.pointerDeclarator hj,
        h.declareWith (i :: path) hlonger _ pointee hj]
    | array size element =>
      have hj : S element := honward element (by simp [hb, TypeBody.onward])
      simp only [h.contains hj, h.declareWith (i :: path) hlonger _ element hj]
    | function result params variadic =>
      have hj : S result := honward result (by simp [hb, TypeBody.onward])
      have hps : ∀ p ∈ params, S p.type := fun p hm =>
        honward p.type <| by
          rw [hb, TypeBody.onward]
          exact List.mem_cons_of_mem _ (List.mem_map_of_mem hm)
      simp only [h.signatureKnown hj hps, h.declareParams (i :: path) hlonger params hps,
        h.declareWith (i :: path) hlonger _ result hj]
    | _ => rfl
termination_by (env.unseen path, 0)

theorem declareParams (h : Agree S M env env') (path : List TypeId) (hpath : ∀ i, M i → i ∈ path)
    (ps : List Param) (hps : ∀ p ∈ ps, S p.type) :
    env.declareParams path ps = env'.declareParams path ps := by
  cases ps with
  | nil => rw [Environment.declareParams, Environment.declareParams]
  | cons p ps =>
    obtain ⟨hp, hps⟩ := List.forall_mem_cons.1 hps
    rw [Environment.declareParams, Environment.declareParams]
    simp only [h.declareWith path hpath _ p.type hp, h.declareParams path hpath ps hps]
termination_by (env.unseen path, ps.length + 1)

end

end Agree

/-- The environments have the same record and the same bases for every identifier. -/
structure Same (env env' : Environment) : Prop where
  lookup : ∀ i, env.lookup? i = env'.lookup? i
  bases : ∀ i, env.baseEdges i = env'.baseEdges i

namespace Same

variable {env env' : Environment}

theorem agree (h : Same env env') : Agree (fun _ => True) (fun _ => False) env env' :=
  ⟨fun i _ _ => h.lookup i, fun _ _ _ _ _ _ _ => trivial, nofun⟩

/-- **An accepted record leaves environments the `Same`.** -/
theorem accept (h : Same env env') (r : TypeRecord) (edges : List BaseEdge) :
    Same (env.accept r edges) (env'.accept r edges) := by
  refine ⟨fun i => ?_, fun i => ?_⟩
  · by_cases hi : i = r.id
    · rw [hi, lookup?_accept_self, lookup?_accept_self]
    · rw [lookup?_accept_of_ne hi, lookup?_accept_of_ne hi, h.lookup]
  · by_cases hi : i = r.id
    · rw [hi, baseEdges_accept_self, baseEdges_accept_self]
    · rw [baseEdges_accept_of_ne hi, baseEdges_accept_of_ne hi, h.bases]

/-! ## 1. Declarations and names -/

theorem body? (h : Same env env') (i : TypeId) : env.body? i = env'.body? i :=
  body?_congr (h.lookup i)

theorem contains (h : Same env env') (i : TypeId) : env.contains i = env'.contains i :=
  h.agree.contains trivial

theorem resultType? (h : Same env env') (i : TypeId) : env.resultType? i = env'.resultType? i := by
  rw [Environment.resultType?, h.body? i, Environment.resultType?]

theorem declare (h : Same env env') (i : TypeId) (name : String) :
    env.declare i name = env'.declare i name :=
  h.agree.declareWith [] nofun .none i trivial name

theorem typeText (h : Same env env') (i : TypeId) : env.typeText i = env'.typeText i :=
  h.declare i ""

theorem aggregateName? (h : Same env env') (i : TypeId) :
    env.aggregateName? i = env'.aggregateName? i := by
  rw [Environment.aggregateName?, h.body? i, Environment.aggregateName?]

/-! ## 2. Definitions -/

theorem edgeText (h : Same env env') : env.edgeText = env'.edgeText := by
  funext e
  rw [Environment.edgeText, Environment.baseName, h.body? e.base, Environment.edgeText,
    Environment.baseName]

theorem basesText (h : Same env env') (i : TypeId) : env.basesText i = env'.basesText i := by
  rw [Environment.basesText, h.bases i, h.edgeText, Environment.basesText]

theorem forward? (h : Same env env') (i : TypeId) : env.forward? i = env'.forward? i := by
  rw [Environment.forward?, h.body? i, Environment.forward?]

theorem memberText (h : Same env env') : env.memberText = env'.memberText := by
  funext m
  rw [Environment.memberText, h.declare, Environment.memberText]

theorem classMembers (h : Same env env') (current : Option Access) (ms : List Member) :
    env.classMembers current ms = env'.classMembers current ms := by
  induction ms generalizing current with
  | nil => rfl
  | cons m ms ih => simp only [Environment.classMembers, h.memberText, ih]

theorem bodyTexts (h : Same env env') (key : RecordKey) (ms : List Member) :
    env.bodyTexts key ms = env'.bodyTexts key ms := by
  cases key with
  | classKey => exact h.classMembers none ms
  | _ => simp only [Environment.bodyTexts, h.memberText]

theorem baseClauseText (h : Same env env') (key : RecordKey) (i : TypeId) :
    env.baseClauseText key i = env'.baseClauseText key i := by
  cases key with
  | classKey => simp only [Environment.baseClauseText, h.basesText]
  | _ => rfl

theorem define? (h : Same env env') (i : TypeId) : env.define? i = env'.define? i := by
  simp only [Environment.define?, h.body? i, h.baseClauseText, h.bodyTexts]

/-! ## 3. The order of definitions -/

theorem holds (h : Same env env') {i j : TypeId} (hij : env.Holds i j) : env'.Holds i j := by
  induction hij with
  | aggregate hb ha => exact .aggregate (h.body? _ ▸ hb) ha
  | @under i k _ hu _ ih =>
    refine .under (j := k) ?_ ih
    rwa [Under, ← h.body? i]

theorem symm (h : Same env env') : Same env' env :=
  ⟨fun i => (h.lookup i).symm, fun i => (h.bases i).symm⟩

theorem aggregateByValue? (h : Same env env') :
    env.aggregateByValue? [] = env'.aggregateByValue? [] := by
  funext i
  refine Option.ext fun j => ?_
  rw [aggregateByValue?_eq_some_iff, aggregateByValue?_eq_some_iff]
  exact ⟨h.holds, h.symm.holds⟩

theorem needs (h : Same env env') (b : TypeBody) : env.needs b = env'.needs b := by
  cases b with
  | aggregate => rw [Environment.needs, h.aggregateByValue?, Environment.needs]
  | _ => rfl

theorem defined (h : Same env env') (i : TypeId) : env.Defined i ↔ env'.Defined i := by
  rw [Defined, h.lookup i, Defined]

/-- The same agenda comes to the same order. -/
theorem orderFrom (h : Same env env') (entered : List TypeId) (tasks : List OrderTask) :
    env.orderFrom entered tasks = env'.orderFrom entered tasks := by
  induction entered, tasks using orderFrom_steps env with
  | finish entered => rw [Environment.orderFrom, Environment.orderFrom]
  | leave entered id rest ih => rw [Environment.orderFrom, ih, Environment.orderFrom]
  | skip entered id rest hs ih =>
    rw [orderFrom_skip hs, ih, orderFrom_skip (hs.imp_right (mt (h.defined id).2))]
  | enter entered id rest r he hr hd ih =>
    rw [orderFrom_enter he hr hd, ih, orderFrom_enter he (h.lookup id ▸ hr) hd, h.needs]

/-- **The same identifiers are defined in the same order** (`definitionOrder`). -/
theorem definitionOrder (h : Same env env') (hids : env.ids = env'.ids) :
    env.definitionOrder = env'.definitionOrder := by
  rw [Environment.definitionOrder, hids, h.orderFrom, Environment.definitionOrder]

end Same

end TypeLedger.Environment
