import Mathlib.Logic.Relation
import TypeLedger.Proofs.Printing.Hole
import TypeLedger.Proofs.Printing.Resolves

/-!
# The placeholder stands where a type is not known

* `Environment.Resolved`: the least set of identifiers that has those of spellings and tags, and
  with what a type is made of the type as well.
* `Resolved.resolves`: no way through what is resolved leads back, so its declaration never meets an
  identifier twice.
* `not_free_of_unresolved`: the declaration of what is not resolved has the placeholder, whatever
  the names are; what stands in a declarator is not lost.
* `declareFor`: a declaration with a bound on how deep it goes. `completes_declareFor` says that the
  number of records is deep enough, for every table.
* `placeholder_iff_unresolved`: both together.
-/

namespace TypeLedger

namespace Environment

variable {env : Environment} {path : List TypeId} {i : TypeId}

/-! ## 1. Resolved identifiers -/

/-- The least set of identifiers with these rules: fundamental types, structs, unions, classes and
enumerations are in it; a qualified type, a pointer and an array are in it if what they are made of
is; a function is in it if its result and all its parameters are. -/
inductive Resolved (env : Environment) : TypeId → Prop
  | reserved {i : TypeId} {s : String} (hb : env.body? i = some (.reserved s)) : Resolved env i
  | aggregate {i : TypeId} {key : RecordKey} {tag : Tag} {complete : Bool} {ms : List Member}
    {bs : List BaseEdge} (hb : env.body? i = some (.aggregate key tag complete ms bs)) :
    Resolved env i
  | enumeration {i : TypeId} {tag : Tag} (hb : env.body? i = some (.enumeration tag)) :
    Resolved env i
  | qualified {i t : TypeId} (hb : env.body? i = some (.qualified t)) (ht : Resolved env t) :
    Resolved env i
  | pointer {i t : TypeId} {k : PointerKind} (hb : env.body? i = some (.pointer k t))
    (ht : Resolved env t) : Resolved env i
  | array {i t : TypeId} {n : ArraySize} (hb : env.body? i = some (.array n t))
    (ht : Resolved env t) : Resolved env i
  | function {i t : TypeId} {ps : List Param} {v : Bool}
    (hb : env.body? i = some (.function t ps v)) (ht : Resolved env t)
    (hps : ∀ p ∈ ps, Resolved env p.type) : Resolved env i

/-- What is resolved goes on to what is resolved. -/
theorem Resolved.onward (h : env.Resolved i) {body : TypeBody} (hb : env.body? i = some body) :
    ∀ j ∈ body.onward, env.Resolved j := by
  cases h with
  | reserved hb' | aggregate hb' | enumeration hb' =>
    obtain rfl := Option.some.inj (hb.symm.trans hb')
    exact List.forall_mem_nil _
  | qualified hb' ht | pointer hb' ht | array hb' ht =>
    obtain rfl := Option.some.inj (hb.symm.trans hb')
    exact List.forall_mem_singleton.2 ht
  | function hb' ht hps =>
    obtain rfl := Option.some.inj (hb.symm.trans hb')
    refine List.forall_mem_cons.2 ⟨ht, fun j hj => ?_⟩
    obtain ⟨p, hp, rfl⟩ := List.mem_map.1 hj
    exact hps p hp

/-- Induction along the rules in one. -/
theorem Resolved.along {P : TypeId → Prop} (h : env.Resolved i)
    (step : ∀ i body, env.body? i = some body → (∀ words, body ≠ .other words) →
      env.Resolved i → (∀ j ∈ body.onward, P j) → P i) : P i := by
  induction h with
  | reserved hb => exact step _ _ hb (by simp) (.reserved hb) (by simp [TypeBody.onward])
  | aggregate hb => exact step _ _ hb (by simp) (.aggregate hb) (by simp [TypeBody.onward])
  | enumeration hb => exact step _ _ hb (by simp) (.enumeration hb) (by simp [TypeBody.onward])
  | qualified hb ht ih =>
    exact step _ _ hb (by simp) (.qualified hb ht) (by simpa [TypeBody.onward] using ih)
  | pointer hb ht ih =>
    exact step _ _ hb (by simp) (.pointer hb ht) (by simpa [TypeBody.onward] using ih)
  | array hb ht ih =>
    exact step _ _ hb (by simp) (.array hb ht) (by simpa [TypeBody.onward] using ih)
  | function hb ht hps ih ihs =>
    refine step _ _ hb (by simp) (.function hb ht hps) (List.forall_mem_cons.2 ⟨ih, fun j hj => ?_⟩)
    obtain ⟨p, hp, rfl⟩ := List.mem_map.1 hj
    exact ihs p hp

/-- A declaration of the first identifier goes on to the second. -/
def Onward (env : Environment) (i j : TypeId) : Prop :=
  ∃ body, env.body? i = some body ∧ j ∈ body.onward

/-- **No way (`Onward`) through what is `Resolved` leads back.** -/
theorem Resolved.not_cyclic (h : env.Resolved i) : ¬ Relation.TransGen env.Onward i i := by
  refine h.along (P := fun i => ¬ Relation.TransGen env.Onward i i)
    fun i body hb _ _ ih hcycle => ?_
  obtain ⟨j, ⟨body', hb', hj⟩, hback⟩ := Relation.TransGen.head'_iff.1 hcycle
  obtain rfl := Option.some.inj (hb.symm.trans hb')
  exact ih j hj (.tail' hback ⟨body, hb, hj⟩)

/-- **What is `Resolved` also `Resolves`** behind every way that it does not come back to. -/
theorem Resolved.resolves (h : env.Resolved i) : ∀ path : List TypeId,
    (∀ p ∈ path, ¬ Relation.ReflTransGen env.Onward i p) → env.Resolves path i := by
  refine h.along (P := fun i => ∀ path : List TypeId,
    (∀ p ∈ path, ¬ Relation.ReflTransGen env.Onward i p) → env.Resolves path i)
    fun i body hb hw hi ih path hpath => ?_
  obtain ⟨record, hr, rfl⟩ := Option.map_eq_some_iff.1 hb
  refine .step hr (fun hm => hpath i hm .refl) hw fun j hj => ih j hj _ ?_
  have hij : env.Onward i j := ⟨record.body, hb, hj⟩
  -- `i` is on the way now: to meet it again from `j` would be a cycle
  refine List.forall_mem_cons.2 ⟨fun hji => ?_, fun p hp hjp => ?_⟩
  · exact hi.not_cyclic (.head' hij hji)
  · exact hpath p hp (.head hij hjp)

/-! ## 2. What is not resolved -/

/-- A text with the placeholder in it has the placeholder. -/
theorem not_free_of_part {a b : String} (h : a.toList <:+: b.toList) (ha : ¬ TypeLedger.Free a) :
    ¬ TypeLedger.Free b :=
  fun hb => ha fun hp => hb (hp.trans h)

theorem part_of_join {pieces : List String} {p : String} (hp : p ∈ pieces) :
    p.toList <:+: (Fragment.join ", " pieces).toList := by
  induction pieces with
  | nil => cases hp
  | cons q ps ih =>
    cases ps with
    | nil =>
      obtain rfl := List.mem_singleton.1 hp
      have hone : Fragment.join ", " [p] = p := String.intercalate_singleton
      simp only [hone, List.infix_rfl]
    | cons r rs =>
      rw [Fragment.join, String.intercalate_cons_cons, String.toList_append, String.toList_append]
      rcases List.mem_cons.1 hp with rfl | hp
      · exact ((List.prefix_append _ _).trans (List.prefix_append _ _)).isInfix
      · exact (ih hp).trans (List.suffix_append _ _).isInfix

/-- What stands among the parameters stands in the declarator of the function. -/
theorem part_of_functionDeclarator {texts : List String} {t : String} (ht : t ∈ texts)
    (variadic : Bool) (name : String) :
    t.toList <:+: (functionDeclarator texts variadic name).toList := by
  refine (part_of_join (List.mem_append_left (if variadic then ["..."] else []) ht)).trans ?_
  rw [functionDeclarator, String.toList_append, String.toList_append]
  exact (List.suffix_append _ _).isInfix.trans (List.prefix_append _ _).isInfix

/-- If the declarations of what is not resolved have the placeholder, so has one of the parameters
of a function whose parameters are not all resolved. -/
theorem exists_not_free_param (path : List TypeId) {ps : List Param}
    (h : ∀ p ∈ ps, ¬ env.Resolved p.type → ∀ name k,
      ¬ TypeLedger.Free (env.declareWith path .none p.type name k).1)
    (hps : ∃ p ∈ ps, ¬ env.Resolved p.type) (k : Naming) :
    ∃ t ∈ (env.declareParams path ps k).1, ¬ TypeLedger.Free t := by
  induction ps generalizing k with
  | nil =>
    obtain ⟨p, hp, -⟩ := hps
    cases hp
  | cons q ps ih =>
    obtain ⟨hq, hrest⟩ := List.forall_mem_cons.1 h
    rw [declareParams]
    obtain ⟨p, hp, hun⟩ := hps
    rcases List.mem_cons.1 hp with rfl | hp
    · exact ⟨_, List.mem_cons_self, hq hun _ k⟩
    · obtain ⟨t, ht, hfree⟩ := ih hrest ⟨p, hp, hun⟩ _
      exact ⟨t, List.mem_cons_of_mem _ ht, hfree⟩

/-- **The declaration of what is not `Resolved` has the placeholder:** it is not `Free` of it. The
induction is on the records not yet met: the placeholder is written at once, or what the declaration
goes on to is not resolved, or the placeholder stands among the parameters and is kept by what is
put around them. -/
theorem not_free_of_unresolved (env : Environment) (path : List TypeId) (quals : Qualifiers)
    (i : TypeId) (name : String) (h : ¬ env.Resolved i) (k : Naming) :
    ¬ TypeLedger.Free (env.declareWith path quals i name k).1 := by
  cases hr : env.lookup? i with
  | none =>
    rw [declareWith_incomplete (.inl hr)]
    exact not_free_incomplete name
  | some record =>
    by_cases hp : i ∈ path
    · rw [declareWith_incomplete (.inr hp)]
      exact not_free_incomplete name
    · have hlt := unseen_cons_lt hr hp
      have hbody := body?_of_lookup hr
      rw [declareWith_eq hr hp]
      cases hb : record.body with
      | reserved => exact absurd (.reserved (hb ▸ hbody)) h
      | aggregate => exact absurd (.aggregate (hb ▸ hbody)) h
      | enumeration => exact absurd (.enumeration (hb ▸ hbody)) h
      | other => exact not_free_incomplete name
      | qualified base =>
        dsimp only
        split
        · exact not_free_of_unresolved env _ _ base _ (fun ht => h (.qualified (hb ▸ hbody) ht)) k
        · exact not_free_incomplete name
      | pointer kind pointee =>
        dsimp only
        split
        · exact not_free_of_unresolved env _ _ pointee _ (fun ht => h (.pointer (hb ▸ hbody) ht)) k
        · exact not_free_incomplete name
      | array size element =>
        dsimp only
        split
        · exact not_free_of_unresolved env _ _ element _ (fun ht => h (.array (hb ▸ hbody) ht)) k
        · exact not_free_incomplete name
      | function result params variadic =>
        dsimp only
        split
        · by_cases hps : ∀ p ∈ params, env.Resolved p.type
          · exact not_free_of_unresolved env _ _ result _
              (fun ht => h (.function (hb ▸ hbody) ht hps)) _
          · obtain ⟨p, hp⟩ := Classical.not_forall.1 hps
            obtain ⟨hm, hun⟩ := Classical.not_imp.1 hp
            obtain ⟨t, ht, hfree⟩ := exists_not_free_param (i :: path)
              (fun p _ hun text k => not_free_of_unresolved env _ _ p.type text hun k)
              ⟨p, hm, hun⟩ k
            -- what was written of the parameter is kept by the declaration of the result
            refine not_free_of_part ?_ hfree
            exact (part_of_functionDeclarator ht variadic name).trans
              ((framesIn_declareWith env _ _ result).keeps _ _)
        · exact not_free_incomplete name
termination_by env.unseen path

end Environment

/-! ## 3. How deep a declaration goes -/

/-- The bounded computation comes to its end, and does what the other one does. -/
def Completes {α : Type} (x : StateT Naming Option α) (m : StateM Naming α) : Prop :=
  ∀ k, x k = some (m k)

section

variable {α β : Type}

theorem completes_pure (a : α) : Completes (pure a) (pure a) := fun _ => rfl

theorem completes_bind {x : StateT Naming Option α} {m : StateM Naming α}
    {f : α → StateT Naming Option β} {g : α → StateM Naming β} (h : Completes x m)
    (hg : ∀ a, Completes (f a) (g a)) : Completes (x >>= f) (m >>= g) := by
  intro k
  show (x k).bind (fun p => f p.1 p.2) = _
  rw [h k, Option.bind_some, hg]
  rfl

theorem completes_ite {b : Bool} {x y : StateT Naming Option α} {m n : StateM Naming α}
    (h : Completes x m) (h' : Completes y n) :
    Completes (if b then x else y) (if b then m else n) := by
  cases b with
  | true => exact h
  | false => exact h'

end

namespace Environment

/-- `declareWith` with a bound on how deep it goes: with no answer if it would have to go deeper. -/
def declareFor (env : Environment) : Nat → List TypeId → Qualifiers → TypeId → String →
    StateT Naming Option String
  | 0, _, _, _, _ => fun _ => none
  | n + 1, path, quals, id, name =>
    match env.lookup? id with
    | none => pure (Fragment.incomplete name)
    | some r =>
      if id ∈ path then pure (Fragment.incomplete name)
      else
        let quals := quals.union r.quals
        match r.body with
        | .reserved spelling => pure (Fragment.ofWords [quals.spelling, spelling, name])
        | .qualified base =>
          if env.contains base then env.declareFor n (id :: path) quals base name
          else pure (Fragment.incomplete name)
        | .pointer kind pointee =>
          if env.contains pointee then
            env.declareFor n (id :: path) .none pointee
              (env.pointerDeclarator kind quals pointee name)
          else pure (Fragment.incomplete name)
        | .function result params variadic =>
          if env.signatureKnown result params then do
            let texts ← params.mapM fun p =>
              env.declareFor n (id :: path) .none p.type (p.name.getD "")
            env.declareFor n (id :: path) .none result (functionDeclarator texts variadic name)
          else pure (Fragment.incomplete name)
        | .array size element =>
          if env.contains element then
            env.declareFor n (id :: path) quals element (arrayDeclarator size name)
          else pure (Fragment.incomplete name)
        | .aggregate key tag _ _ _ => fun k => some (taggedDeclaration quals key.word tag name k)
        | .enumeration tag => fun k => some (taggedDeclaration quals "enum" tag name k)
        | .other _ => pure (Fragment.incomplete name)

variable {env : Environment} {path : List TypeId}

theorem completes_declareParams {n : Nat}
    (h : ∀ quals id name, Completes (env.declareFor n path quals id name)
      (env.declareWith path quals id name)) (ps : List Param) :
    Completes (ps.mapM fun p => env.declareFor n path .none p.type (p.name.getD ""))
      (env.declareParams path ps) := by
  induction ps with
  | nil =>
    rw [List.mapM_nil, declareParams]
    exact completes_pure _
  | cons p ps ih =>
    rw [List.mapM_cons, declareParams]
    exact completes_bind (h _ _ _) fun text => completes_bind ih fun texts => completes_pure _

/-- **A declaration goes no deeper than there are records not yet met** (`unseen`): `declareFor`
with more fuel than that `Completes`, and finds what `declareWith` finds. -/
theorem completes_declareFor {n : Nat} (hn : env.unseen path < n) (quals : Qualifiers) (id : TypeId)
    (name : String) :
    Completes (env.declareFor n path quals id name) (env.declareWith path quals id name) := by
  induction n generalizing path quals id name with
  | zero => exact absurd hn (Nat.not_lt_zero _)
  | succ n ih =>
    cases hr : env.lookup? id with
    | none =>
      rw [declareFor, hr, declareWith_incomplete (.inl hr)]
      exact completes_pure _
    | some record =>
      by_cases hp : id ∈ path
      · rw [declareWith_incomplete (.inr hp)]
        simp only [declareFor, hr, hp, ↓reduceIte]
        exact completes_pure _
      · have hdeeper : ∀ quals id' name, Completes (env.declareFor n (id :: path) quals id' name)
            (env.declareWith (id :: path) quals id' name) :=
          ih (Nat.lt_of_lt_of_le (unseen_cons_lt hr hp) (Nat.lt_succ_iff.1 hn))
        rw [declareWith_eq hr hp]
        simp only [declareFor, hr, hp, ↓reduceIte]
        cases record.body with
        | reserved | other => exact completes_pure _
        | aggregate | enumeration => exact fun _ => rfl
        | qualified | pointer | array =>
          exact completes_ite (hdeeper _ _ _) (completes_pure _)
        | function result params variadic =>
          exact completes_ite (completes_bind (completes_declareParams hdeeper params)
            fun texts => hdeeper _ _ _) (completes_pure _)

/-- A declaration is what it is with the number of records for a bound. -/
theorem declare_of_declareFor {i : TypeId} {name text : String} {k : Naming}
    (h : (env.declareFor (env.keys.length + 1) [] .none i name k).map Prod.fst = some text) :
    (env.declare i name k).1 = text := by
  rw [completes_declareFor (Nat.lt_succ_of_le (List.length_filter_le _ _))] at h
  exact Option.some.inj h

/-! ## 4. Placeholders -/

/-- **The placeholder stands exactly where a type is not known.** Whatever the table is, also if it
leads back to itself or to identifiers without a record: the declaration of every identifier with
every name comes to its end, and goes no deeper than there are records (`declareFor`). If the name,
the tags, the names of parameters and the spellings are `Free` of the `placeholder`, its text has it
if and only if the identifier is not `Resolved`. -/
theorem placeholder_iff_unresolved (env : Environment) (i : TypeId) (name : String) (k : Naming) :
    env.declareFor (env.keys.length + 1) [] .none i name k = some (env.declare i name k) ∧
      (env.FreeWords → k.Free → TypeLedger.Free name →
        (placeholder.toList <:+: (env.declare i name k).1.toList ↔ ¬ env.Resolved i)) := by
  have hdepth : env.unseen [] < env.keys.length + 1 :=
    Nat.lt_succ_of_le (List.length_filter_le _ _)
  refine ⟨completes_declareFor hdepth .none i name k, fun he hk hn => ?_⟩
  constructor
  · intro ht hi
    have hresolves := hi.resolves [] (List.forall_mem_nil _)
    exact (answers_declare he hresolves hn k hk).2 ht
  · intro hi
    exact Decidable.not_not.1 (not_free_of_unresolved env [] .none i name hi k)

/-- What holds of the records of all layers holds of every record that is found. -/
theorem holds_of_layers {P : TypeRecord → Prop} (h : ∀ l ∈ env.layers, ∀ p ∈ l.records, P p.2)
    {i : TypeId} {record : TypeRecord} (hr : env.lookup? i = some record) : P record := by
  have hlook : ∀ ls : List Layer, (∀ l ∈ ls, ∀ p ∈ l.records, P p.2) →
      lookupIn i ls = some record → P record := by
    intro ls hls hr
    induction ls with
    | nil => cases hr
    | cons l ls ih =>
      obtain ⟨hl, hrest⟩ := List.forall_mem_cons.1 hls
      unfold lookupIn at hr
      split at hr
      · rename_i r hlr
        obtain rfl := Option.some.inj hr
        exact hl _ (Keyed.mem_of_lookup hlr)
      · exact ih hrest hr
  exact hlook env.layers h hr

/-- What is written of the records of an environment is free if that of all layers is. -/
theorem freeWords_of_layers (h : ∀ l ∈ env.layers, ∀ p ∈ l.records, p.2.body.FreeWords) :
    env.FreeWords :=
  fun _ _ hr => holds_of_layers (P := fun r => r.body.FreeWords) h hr

/-- Two pointers that point at each other, and a function that takes one of them. -/
def ringEnvironment : Environment where
  top := { records :=
    [(⟨"Pointer0"⟩, ⟨⟨"Pointer0"⟩, .none, .pointer .pointer ⟨"Pointer1"⟩⟩),
      (⟨"Pointer1"⟩, ⟨⟨"Pointer1"⟩, .none, .pointer .pointer ⟨"Pointer0"⟩⟩),
      (⟨"Function0"⟩, ⟨⟨"Function0"⟩, .none,
        .function ⟨"int"⟩ [⟨⟨"Pointer0"⟩, some "p"⟩] false⟩)] }
  below := [.fundamental]

/-- The function is declared with the placeholder, where its parameter leads back to itself. -/
theorem placeholder_iff_unresolved_ring :
    (ringEnvironment.declare ⟨"Function0"⟩ "f" {}).1 = "int f(INCOMPLETE_TYPE ***p)" ∧
      ¬ ringEnvironment.Resolved ⟨"Function0"⟩ := by
  have hwords : ringEnvironment.FreeWords := freeWords_of_layers (by decide +kernel)
  obtain ⟨hrun, hiff⟩ := placeholder_iff_unresolved ringEnvironment ⟨"Function0"⟩ "f" {}
  have htext : (ringEnvironment.declareFor (ringEnvironment.keys.length + 1) [] .none
      ⟨"Function0"⟩ "f" {}).map Prod.fst = some "int f(INCOMPLETE_TYPE ***p)" := by
    decide +kernel
  rw [hrun, Option.map_some] at htext
  have hplaced := hiff hwords (Naming.free_of_given_nil rfl) (by decide +kernel)
  rw [Option.some.inj htext] at hplaced ⊢
  exact ⟨rfl, hplaced.1 (by decide +kernel)⟩

end Environment

end TypeLedger
