import TypeLedger.Environment.Define
import TypeLedger.Proofs.Printing.Naming

/-!
# What a declaration asks

* `Environment.declareWith_eq`: one step of a declaration.
* `Environment.asking_declareWith_within`: a declaration asks for the names of aggregates that it
  comes to, and does nothing else to the naming.
-/

namespace TypeLedger

/-- The identifiers that a declaration goes on to. -/
def TypeBody.onward : TypeBody → List TypeId
  | qualified t | pointer _ t | array _ t => [t]
  | function t ps _ => t :: ps.map Param.type
  | reserved _ | aggregate .. | enumeration _ | other _ => []

namespace Environment

variable {env : Environment} {path : List TypeId} {quals : Qualifiers} {i : TypeId}
  {name : String}

theorem body?_of_lookup {record : TypeRecord} (h : env.lookup? i = some record) :
    env.body? i = some record.body := by
  rw [body?, h]
  rfl

/-- An identifier with a record that has not been met on the way is declared as its record says. -/
theorem declareWith_eq {record : TypeRecord} (hr : env.lookup? i = some record) (hp : i ∉ path) :
    env.declareWith path quals i name =
      match record.body with
      | .reserved s => pure (Fragment.ofWords [(quals.union record.quals).spelling, s, name])
      | .qualified base =>
        if env.contains base then
          env.declareWith (i :: path) (quals.union record.quals) base name
        else pure (Fragment.incomplete name)
      | .pointer kind pointee =>
        if env.contains pointee then
          env.declareWith (i :: path) .none pointee
            (env.pointerDeclarator kind (quals.union record.quals) pointee name)
        else pure (Fragment.incomplete name)
      | .function result params variadic =>
        if env.signatureKnown result params then do
          let texts ← env.declareParams (i :: path) params
          env.declareWith (i :: path) .none result (functionDeclarator texts variadic name)
        else pure (Fragment.incomplete name)
      | .array size element =>
        if env.contains element then
          env.declareWith (i :: path) (quals.union record.quals) element
            (arrayDeclarator size name)
        else pure (Fragment.incomplete name)
      | .aggregate key tag _ _ _ =>
        taggedDeclaration (quals.union record.quals) key.word tag name
      | .enumeration tag => taggedDeclaration (quals.union record.quals) "enum" tag name
      | .other _ => pure (Fragment.incomplete name) := by
  rw [declareWith]
  split
  · rename_i h
    rw [hr] at h
    cases h
  · rename_i record' h
    rw [hr] at h
    obtain rfl := Option.some.inj h
    exact (dif_neg hp).trans rfl

/-- An identifier without a record, or one that has been met on the way, is incomplete. -/
theorem declareWith_incomplete (h : env.lookup? i = none ∨ i ∈ path) :
    env.declareWith path quals i name = pure (Fragment.incomplete name) := by
  rw [declareWith]
  split
  · rfl
  · rename_i record hr
    rcases h with h | h
    · rw [hr] at h
      cases h
    · exact dif_pos h

/-- The tag is that of an aggregate of the environment. -/
def HasTag (env : Environment) (t : Tag) : Prop := ∃ i, (env.body? i).bind TypeBody.tag? = some t

theorem hasTag_of_body {record : TypeRecord} {t : Tag} (hr : env.lookup? i = some record)
    (ht : record.body.tag? = some t) : env.HasTag t :=
  ⟨i, by rw [body?_of_lookup hr, Option.bind_some, ht]⟩

theorem asking_taggedDeclaration {T : Tag → Prop} {tag : Tag} (ht : T tag) (quals : Qualifiers)
    (keyword name : String) : Asking T (taggedDeclaration quals keyword tag name) :=
  .bind (.name ht) fun _ => .pure _

section Within

variable {S : TypeId → Prop} {T : Tag → Prop}

mutual

/-- **A declaration asks for the names of the aggregates that it comes to.** If those of `S` have
tags of `T` and lead to others of `S`, then it asks for tags of `T` only. The induction is on the
records not yet met. -/
theorem asking_declareWith_within (env : Environment)
    (htag : ∀ i, S i → ∀ t, (env.body? i).bind TypeBody.tag? = some t → T t)
    (honward : ∀ i body, S i → env.body? i = some body → ∀ j ∈ body.onward, S j)
    (path : List TypeId) (quals : Qualifiers) (id : TypeId) (hid : S id) (name : String) :
    Asking T (env.declareWith path quals id name) := by
  cases hr : env.lookup? id with
  | none =>
    rw [declareWith_incomplete (.inl hr)]
    exact .pure _
  | some record =>
    by_cases hp : id ∈ path
    · rw [declareWith_incomplete (.inr hp)]
      exact .pure _
    · have hlt := unseen_cons_lt hr hp
      have hbody := body?_of_lookup hr
      have hnext : ∀ j ∈ record.body.onward, S j := honward id _ hid hbody
      rw [declareWith_eq hr hp]
      cases hb : record.body with
      | reserved => exact .pure _
      | qualified base | pointer _ base | array _ base =>
        have hj : S base := hnext base (by simp [hb, TypeBody.onward])
        dsimp only
        split
        · exact asking_declareWith_within env htag honward _ _ _ hj _
        · exact .pure _
      | function result params =>
        have hj : S result := hnext result (by simp [hb, TypeBody.onward])
        have hps : ∀ p ∈ params, S p.type := fun p hm => by
          refine hnext p.type ?_
          rw [hb, TypeBody.onward]
          exact List.mem_cons_of_mem _ (List.mem_map_of_mem hm)
        dsimp only
        split
        · exact .bind (asking_declareParams_within env htag honward _ _ hps) fun _ =>
            asking_declareWith_within env htag honward _ _ _ hj _
        · exact .pure _
      | aggregate | enumeration =>
        exact asking_taggedDeclaration (htag id hid _ (by rw [hbody, hb]; rfl)) _ _ _
      | other => exact .pure _
termination_by (env.unseen path, 0)

theorem asking_declareParams_within (env : Environment)
    (htag : ∀ i, S i → ∀ t, (env.body? i).bind TypeBody.tag? = some t → T t)
    (honward : ∀ i body, S i → env.body? i = some body → ∀ j ∈ body.onward, S j)
    (path : List TypeId) (ps : List Param) (hps : ∀ p ∈ ps, S p.type) :
    Asking T (env.declareParams path ps) := by
  cases ps with
  | nil =>
    rw [declareParams]
    exact .pure _
  | cons p ps =>
    obtain ⟨hp, hps⟩ := List.forall_mem_cons.1 hps
    rw [declareParams]
    exact .bind (asking_declareWith_within env htag honward path _ _ hp _) fun _ =>
      .bind (asking_declareParams_within env htag honward path ps hps) fun _ => .pure _
termination_by (env.unseen path, ps.length + 1)

end

end Within

/-- **A declaration asks for the names of aggregates of the environment only** (`Asking`,
`HasTag`). -/
theorem asking_declareWith (env : Environment) (path : List TypeId) (quals : Qualifiers)
    (id : TypeId) (name : String) : Asking env.HasTag (env.declareWith path quals id name) :=
  asking_declareWith_within (S := fun _ => True) env (fun i _ _ ht => ⟨i, ht⟩)
    (fun _ _ _ _ _ _ => trivial) path quals id trivial name

theorem asks_declareWith (env : Environment) (path : List TypeId) (quals : Qualifiers)
    (id : TypeId) (name : String) : Asks (env.declareWith path quals id name) :=
  (env.asking_declareWith path quals id name).asks

theorem asking_aggregateName? (env : Environment) (id : TypeId) :
    Asking env.HasTag (env.aggregateName? id) := by
  unfold aggregateName?
  split
  · rename_i t ht
    exact .bind (.name ⟨id, ht⟩) fun _ => .pure _
  · exact .pure _

theorem asks_aggregateName? (env : Environment) (id : TypeId) : Asks (env.aggregateName? id) :=
  (env.asking_aggregateName? id).asks

end Environment

end TypeLedger
