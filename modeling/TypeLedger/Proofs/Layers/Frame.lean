import TypeLedger.Proofs.Layers.Tree
import TypeLedger.Proofs.Printing.DeclaredNames

/-!
# What an extension does not touch

* `Environment.lookup?_add_of_not_mem`, `Environment.baseEdges_add_of_not_mem`: entries change
  nothing of the identifiers that they do not state.
* `Environment.agree_of_apart`: so an environment and its extension agree on what cannot come to a
  stated identifier.
* `Environment.extend_frame`: such identifiers are declared as before, and the environment below
  answers as before.
-/

namespace TypeLedger.Environment

variable {env child : Environment} {es : List Entry} {i : TypeId} {k k' : Naming}

/-! ## 1. Identifiers that are not stated -/

theorem lookup?_add_of_not_mem (env : Environment) (h : i ∉ es.map Entry.type) (k : Naming) :
    (env.add es k).1.1.lookup? i = env.lookup? i :=
  add_keeps (P := fun a => a.lookup? i = env.lookup? i) (fun _ _ _ ha hid _ =>
    (lookup?_accept_of_ne (ne_of_mem_of_not_mem hid h).symm).trans ha) rfl k

theorem baseEdges_add_of_not_mem (env : Environment) (h : i ∉ es.map Entry.type) (k : Naming) :
    (env.add es k).1.1.baseEdges i = env.baseEdges i :=
  add_keeps (P := fun a => a.baseEdges i = env.baseEdges i) (fun _ _ _ ha hid _ =>
    (baseEdges_accept_of_ne (ne_of_mem_of_not_mem hid h).symm).trans ha) rfl k

/-! ## 2. Identifiers that lead to none that is stated -/

/-- A declaration of the identifier comes to none (`Onward`) that is stated by an entry, the
identifier itself and those without a record included. -/
def ApartFrom (env : Environment) (es : List Entry) (i : TypeId) : Prop :=
  ∀ e ∈ es, ¬ Relation.ReflTransGen env.Onward i e.type

theorem ApartFrom.not_mem (h : env.ApartFrom es i) {j : TypeId}
    (hj : Relation.ReflTransGen env.Onward i j) : j ∉ es.map Entry.type := by
  intro hm
  obtain ⟨e, he, rfl⟩ := List.mem_map.1 hm
  exact h e he hj

/-- Whatever a closed set of identifiers has not in it is not come to from there. -/
theorem apartFrom_of_closed (ids : List TypeId) (hi : i ∈ ids)
    (hclosed : ∀ j ∈ ids, ∀ l ∈ (env.body? j).elim [] TypeBody.onward, l ∈ ids)
    (hes : ∀ e ∈ es, e.type ∉ ids) : env.ApartFrom es i := by
  intro e he hreach
  have hin : ∀ j, Relation.ReflTransGen env.Onward i j → j ∈ ids := by
    intro j hj
    induction hj with
    | refl => exact hi
    | @tail j l _ hjl ih =>
      obtain ⟨body, hb, hl⟩ := hjl
      refine hclosed j ih l ?_
      rw [hb]
      exact hl
  exact hes e he (hin _ hreach)

/-- **An extension agrees with the environment below** (`Agree`) on everything that a declaration
comes to which leads to no stated identifier (`ApartFrom`). -/
theorem agree_of_apart (h : env.ApartFrom es i) (k : Naming) :
    Agree (Relation.ReflTransGen env.Onward i) (fun _ => False) (env.raised.add es k).1.1 env := by
  have hlookup : ∀ j, Relation.ReflTransGen env.Onward i j →
      (env.raised.add es k).1.1.lookup? j = env.lookup? j :=
    fun j hj => lookup?_add_of_not_mem env.raised (h.not_mem hj) k
  refine ⟨fun j hj _ => hlookup j hj, fun j r hj _ hr l hl => ?_, nofun⟩
  rw [hlookup j hj] at hr
  exact hj.tail ⟨r.body, body?_of_lookup hr, hl⟩

/-! ## 3. The frame of an extension -/

/-- **An extension does not touch what leads to none of its entries.** If `extend` succeeds, and an
identifier leads to no stated one (`ApartFrom`) and only to aggregates that have names (`Named`),
then the new environment declares every name with it as the environment below does, behind all
namings (`Naming.Follows`) the same as before the extension, and has the same record, bases and
result for it. The environment below is not changed: its layers stand under the new one, and it
answers with the records, the names of aggregates, the bases and the identifiers that it had. -/
theorem extend_frame (h : env.extend es k = (.ok child, k')) :
    (∀ i, env.ApartFrom es i → env.Named k i →
      (∀ n K, k'.Follows K →
        child.declare i n K = ((env.declare i n k).1, K) ∧
        env.declare i n K = ((env.declare i n k).1, K)) ∧
      (child.ask (.lookup i) k').1 = (env.ask (.lookup i) k).1 ∧
      child.lookup? i = env.lookup? i ∧ child.baseEdges i = env.baseEdges i ∧
      child.resultType? i = env.resultType? i) ∧
    child.below = env.layers ∧ idsIn child.below = env.ids ∧
    ∀ i, (env.ask (.lookup i) k').1 = (env.ask (.lookup i) k).1 ∧
      (env.ask (.contains i) k').1 = (env.ask (.contains i) k).1 ∧
      (env.ask (.baseEdges i) k').1 = (env.ask (.baseEdges i) k).1 := by
  have hchild : (env.raised.add es k).1.1 = child := add_of_checked (congrArg Prod.fst h)
  obtain ⟨hbelow, -, hreserves, -⟩ := checked_ok Layer.not_hasSerial_empty h
  have hlayers : child.below = env.layers := hbelow
  have hrecord : ∀ i, (env.ask (.lookup i) k').1 = (env.ask (.lookup i) k).1 := by
    intro i
    have hnames : k'.current? = k.current? := funext hreserves.current?
    show Answer.record ((env.lookup? i).map fun r => (r, r.body.tag?.bind k'.current?)) = _
    rw [hnames]
    rfl
  refine ⟨fun i hapart hnamed => ?_, hlayers, by rw [hlayers, ids], fun i => ⟨hrecord i, rfl, rfl⟩⟩
  have hnot := hapart.not_mem .refl
  have hagree := agree_of_apart hapart k
  have hlookup : (env.raised.add es k).1.1.lookup? i = env.lookup? i :=
    lookup?_add_of_not_mem env.raised hnot k
  have hbases : (env.raised.add es k).1.1.baseEdges i = env.baseEdges i :=
    baseEdges_add_of_not_mem env.raised hnot k
  rw [hchild] at hagree hlookup hbases
  refine ⟨fun n K hK => ?_, ?_, hlookup, hbases, ?_⟩
  · have hsame : ∀ t, env.ReachesTag i t → K.current? t = k.current? t := by
      intro t ht
      obtain ⟨m, hm⟩ := hnamed t ht
      rw [hm, hK.current? ((hreserves.current? t).trans hm)]
    have hdeclare : env.declare i n K = ((env.declare i n k).1, K) :=
      (asking_declareWith_reach .none .refl n).settled hnamed hsame
    refine ⟨?_, hdeclare⟩
    rw [← hdeclare]
    exact congrFun (hagree.declareWith [] (fun _ => False.elim) .none i .refl n) K
  · rw [← hrecord i]
    show Answer.record ((child.lookup? i).map _) = _
    rw [hlookup]
    rfl
  · rw [resultType?, body?_congr hlookup, resultType?]

/-- A struct of its own, and a pointer to it. -/
def strangerEntries : List Entry :=
  [{ kind := "structType", type := ⟨"Struct1"⟩, attributes := .ofList [("tag", "S")] },
    { kind := "pointerType", type := ⟨"Pointer1"⟩, attributes := .ofList [("ref", "Struct1")] }]

/-- The function below has nothing to do with the new struct, and is declared as before. -/
theorem extend_frame_stranger :
    ∃ child k', calleeEnvironment.extend strangerEntries firstNaming = (.ok child, k') ∧
      child.contains ⟨"Struct1"⟩ = true ∧
      (child.declare ⟨"Function0"⟩ "f" k').1 = "int f(struct __anon_1 *p)" := by
  obtain ⟨child, k', hextend, hnew⟩ : ∃ child k',
      calleeEnvironment.extend strangerEntries firstNaming = (.ok child, k') ∧
        child.contains ⟨"Struct1"⟩ = true := ⟨_, _, rfl, rfl⟩
  refine ⟨child, k', hextend, hnew, ?_⟩
  have hapart : calleeEnvironment.ApartFrom strangerEntries ⟨"Function0"⟩ :=
    apartFrom_of_closed [⟨"Function0"⟩, ⟨"Pointer0"⟩, ⟨"Struct0"⟩, ⟨"int"⟩]
      (by decide) (by decide +kernel) (by decide)
  have hnamed : calleeEnvironment.Named firstNaming ⟨"Function0"⟩ :=
    named_of_layers (by decide +kernel) _
  obtain ⟨hdeclare, -⟩ := (extend_frame hextend).1 _ hapart hnamed
  rw [(hdeclare "f" k' .refl).1]
  exact declare_of_declareFor (by decide +kernel)

end TypeLedger.Environment
