import TypeLedger.Proofs.Printing.Unresolved
import TypeLedger.Proofs.Printing.Written

/-!
# Parentheses under qualified types

* `declareWith_of_resolved`: the declaration of what is resolved does not depend on the way to it.
  `declareWith_qualified`, `declareWith_array`, `declareWith_pointer`: one step of it.
* `Environment.QualifiedOf`: an identifier leads to another through qualified types only.
* Two walks go along such a chain. The one that declares it goes to its end (`QualifiedOf.declare`);
  the one that looks for parentheses stops after some records (`QualifiedOf.bindsTighter`).
* `declare_pointer_qualified`: so a pointer to a function or an array under qualified types is
  declared like one to the function or the array itself if and only if both walks come to its end.
-/

namespace TypeLedger.Environment

variable {env : Environment} {path path' : List TypeId} {quals : Qualifiers} {i j f p p' : TypeId}
  {name : String}

/-! ## 1. The way to what is resolved -/

theorem declareParams_congr {ps : List Param}
    (h : ∀ p ∈ ps, ∀ name, env.declareWith path .none p.type name =
      env.declareWith path' .none p.type name) :
    env.declareParams path ps = env.declareParams path' ps := by
  induction ps with
  | nil => rw [declareParams, declareParams]
  | cons p ps ih =>
    obtain ⟨hp, hps⟩ := List.forall_mem_cons.1 h
    rw [declareParams, declareParams, hp, ih hps]

/-- A declaration does not depend on the way to its identifier, as long as it resolves. The
induction is on the way of the declaration. -/
theorem declareWith_congr (h : env.Resolves path i) (h' : env.Resolves path' i) :
    env.declareWith path quals i name = env.declareWith path' quals i name := by
  induction h generalizing path' quals name with
  | @step path i record hr hp _ hons ih =>
    cases h' with
    | @step _ _ record' hr' hp' _ hons' =>
      obtain rfl := Option.some.inj (hr.symm.trans hr')
      have honward : ∀ j ∈ record.body.onward, ∀ quals name,
          env.declareWith (i :: path) quals j name = env.declareWith (i :: path') quals j name :=
        fun j hj _ _ => ih j hj (hons' j hj)
      rw [declareWith_eq hr hp, declareWith_eq hr hp']
      generalize record.body = body at honward
      cases body with
      | reserved | aggregate | enumeration | other => rfl
      | qualified t | pointer k t | array n t =>
        simp only [honward t (List.mem_singleton_self _)]
      | function t ps v =>
        have hps : env.declareParams (i :: path) ps = env.declareParams (i :: path') ps :=
          declareParams_congr fun p hp name =>
            honward p.type (List.mem_cons_of_mem _ (List.mem_map_of_mem hp)) _ _
        simp only [hps, honward t List.mem_cons_self]

/-- **What is `Resolved` is declared alike** wherever a declaration comes to it. -/
theorem declareWith_of_resolved (hi : env.Resolved i) (h : env.Resolves path i) :
    env.declareWith path quals i name = env.declareWith [] quals i name :=
  declareWith_congr h (hi.resolves [] (List.forall_mem_nil _))

/-- What a resolved identifier goes on to is declared as if the declaration began there. -/
theorem declareWith_onward {body : TypeBody} (hi : env.Resolved i) (hb : env.body? i = some body)
    (hj : j ∈ body.onward) (hjr : env.Resolved j) :
    env.declareWith [i] quals j name = env.declareWith [] quals j name := by
  refine declareWith_of_resolved hjr (hjr.resolves [i] ?_)
  rw [List.forall_mem_singleton]
  exact fun hji => hi.not_cyclic (.head' ⟨body, hb, hj⟩ hji)

section

variable {record : TypeRecord} (hr : env.lookup? i = some record) (hj : env.Resolved j)
include hr hj

theorem declareWith_qualified (hb : record.body = .qualified j) :
    env.declareWith [] quals i name = env.declareWith [] (quals.union record.quals) j name := by
  have hbody : env.body? i = some (.qualified j) := by rw [body?_of_lookup hr, hb]
  have hcontains := (hj.resolves [] (List.forall_mem_nil _)).contains
  rw [declareWith_eq hr List.not_mem_nil, hb]
  simp only [hcontains, ↓reduceIte]
  exact declareWith_onward (.qualified hbody hj) hbody (List.mem_singleton_self _) hj

theorem declareWith_array {n : ArraySize} (hb : record.body = .array n j) :
    env.declareWith [] quals i name =
      env.declareWith [] (quals.union record.quals) j (arrayDeclarator n name) := by
  have hbody : env.body? i = some (.array n j) := by rw [body?_of_lookup hr, hb]
  have hcontains := (hj.resolves [] (List.forall_mem_nil _)).contains
  rw [declareWith_eq hr List.not_mem_nil, hb]
  simp only [hcontains, ↓reduceIte]
  exact declareWith_onward (.array hbody hj) hbody (List.mem_singleton_self _) hj

theorem declareWith_pointer {kind : PointerKind} (hb : record.body = .pointer kind j) :
    env.declareWith [] quals i name = env.declareWith [] .none j
      (env.pointerDeclarator kind (quals.union record.quals) j name) := by
  have hbody : env.body? i = some (.pointer kind j) := by rw [body?_of_lookup hr, hb]
  have hcontains := (hj.resolves [] (List.forall_mem_nil _)).contains
  rw [declareWith_eq hr List.not_mem_nil, hb]
  simp only [hcontains, ↓reduceIte]
  exact declareWith_onward (.pointer hbody hj) hbody (List.mem_singleton_self _) hj

end

/-! ## 2. Qualified types -/

/-- The first identifier leads to the second through qualified types only, whose qualifiers are
`qs`. -/
inductive QualifiedOf (env : Environment) (f : TypeId) : List Qualifiers → TypeId → Prop
  | here : QualifiedOf env f [] f
  | qualified {i j : TypeId} {record : TypeRecord} {qs : List Qualifiers}
    (hr : env.lookup? i = some record) (hb : record.body = .qualified j)
    (h : QualifiedOf env f qs j) : QualifiedOf env f (record.quals :: qs) i

/-- The record is that of a function or an array, which bind tighter than a pointer. -/
def IsTight (env : Environment) (f : TypeId) : Prop :=
  (∃ t ps v, env.body? f = some (.function t ps v)) ∨ ∃ n t, env.body? f = some (.array n t)

variable {qs : List Qualifiers}

/-- Qualified types without qualifiers, each with the next one as its base. -/
theorem qualifiedOf_links (ids : List TypeId)
    (h : ∀ link ∈ ids.zip (ids.tail ++ [f]),
      env.lookup? link.1 = some ⟨link.1, .none, .qualified link.2⟩) :
    env.QualifiedOf f (List.replicate ids.length .none) (ids.headD f) := by
  induction ids with
  | nil => exact .here
  | cons i ids ih =>
    cases ids with
    | nil => exact .qualified (h (i, f) List.mem_cons_self) rfl .here
    | cons j ids =>
      obtain ⟨hi, hrest⟩ := List.forall_mem_cons.1 h
      exact .qualified hi rfl (ih hrest)

theorem QualifiedOf.resolved (h : env.QualifiedOf f qs i) (hf : env.Resolved f) :
    env.Resolved i := by
  induction h with
  | here => exact hf
  | qualified hr hb _ ih => exact .qualified (by rw [body?_of_lookup hr, hb]) ih

/-- The walk that declares gathers the qualifiers, and goes to the end. -/
theorem QualifiedOf.declare (h : env.QualifiedOf f qs i) (hf : env.Resolved f) :
    env.declareWith [] quals i name =
      env.declareWith [] (qs.foldl Qualifiers.union quals) f name := by
  induction h generalizing quals with
  | here => rfl
  | @qualified i j record qs hr hb h ih =>
    rw [declareWith_qualified hr (h.resolved hf) hb, ih]
    rfl

theorem foldl_union_none (h : ∀ q ∈ qs, q = Qualifiers.none) :
    qs.foldl Qualifiers.union .none = .none := by
  induction qs with
  | nil => rfl
  | cons q qs ih =>
    obtain ⟨rfl, hrest⟩ := List.forall_mem_cons.1 h
    exact ih hrest

/-- The walk that looks for parentheses comes to the end of a chain that is short enough. -/
theorem QualifiedOf.bindsTighter (h : env.QualifiedOf f qs i) (hf : env.IsTight f) (depth : Nat) :
    env.bindsTighter depth i = decide (qs.length < depth) := by
  induction h generalizing depth with
  | here =>
    cases depth with
    | zero => rfl
    | succ depth =>
      rw [Environment.bindsTighter]
      rcases hf with ⟨t, ps, v, hb⟩ | ⟨n, t, hb⟩
      · rw [hb]
        rfl
      · rw [hb]
        rfl
  | qualified hr hb _ ih =>
    cases depth with
    | zero => rfl
    | succ depth =>
      rw [Environment.bindsTighter, body?_of_lookup hr, hb]
      simp only [ih, List.length_cons, Nat.add_lt_add_iff_right]

/-! ## 3. Declarators of pointers -/

theorem sigil_ne_empty (kind : PointerKind) : kind.sigil ≠ "" := by
  cases kind <;> decide

theorem beside_ne_empty {a : String} (ha : a ≠ "") (b : String) : Fragment.beside a b ≠ "" := by
  have hne : a.isEmpty = false := by simpa using ha
  rw [Fragment.beside, hne]
  split
  · exact ha
  · intro he
    exact ha (String.append_eq_empty_iff.1 (String.append_eq_empty_iff.1 he).1).1

theorem pointerText_tight (kind : PointerKind) (quals : Qualifiers) (name : String) :
    pointerText true kind quals name = "(" ++ pointerText false kind quals name ++ ")" := rfl

/-- The declarator of a pointer is never empty: it has the sigil. -/
theorem pointerText_ne_empty (tight : Bool) (kind : PointerKind) (quals : Qualifiers)
    (name : String) : pointerText tight kind quals name ≠ "" := by
  have hsigil : ∀ s, kind.sigil ++ s ≠ "" := fun s he =>
    sigil_ne_empty kind (String.append_eq_empty_iff.1 he).1
  have hbare : pointerText false kind quals name ≠ "" := by
    unfold pointerText
    cases quals.isEmpty with
    | true => exact hsigil name
    | false => exact beside_ne_empty (hsigil _) name
  cases tight with
  | false => exact hbare
  | true =>
    intro he
    rw [pointerText_tight] at he
    exact hbare (String.append_eq_empty_iff.1 (String.append_eq_empty_iff.1 he).1).2

/-- Parentheses are seen. -/
theorem pointerText_inj {tight tight' : Bool} {kind : PointerKind}
    (h : pointerText tight kind quals name = pointerText tight' kind quals name) :
    tight = tight' := by
  have hlonger : pointerText true kind quals name ≠ pointerText false kind quals name := by
    intro he
    have hlength := congrArg String.length he
    rw [pointerText_tight, String.length_append, String.length_append] at hlength
    have hopen : "(".length = 1 := rfl
    omega
  cases tight <;> cases tight'
  · rfl
  · exact absurd h.symm hlonger
  · exact absurd h hlonger
  · rfl

/-! ## 4. Declarations of pointers -/

section

variable (hf : env.Resolved f) (ht : env.IsTight f)
include hf ht

/-- A pointer is declared as its target is, around the declarator of the pointer. -/
theorem QualifiedOf.declare_pointer (h : env.QualifiedOf f qs i) {record : TypeRecord}
    {kind : PointerKind} (hr : env.lookup? p = some record) (hb : record.body = .pointer kind i)
    (name : String) :
    env.declare p name = env.declare i
      (pointerText (decide (qs.length < parenthesisDepth)) kind record.quals name) := by
  rw [Environment.declare, declareWith_pointer hr (h.resolved hf) hb, Qualifiers.none_union,
    ← h.bindsTighter ht]
  rfl

/-- **A pointer to a function or an array under qualified types.** The function or array is
resolved, and any number of qualified types lead to it, one behind the other (`QualifiedOf`). The
pointer is declared as the first of them is, around its own declarator, which stands in parentheses
if and only if they are fewer than the records that are looked at (`parenthesisDepth`). If they have
no qualifiers, the pointer is declared like one of the same kind, with the same qualifiers, to the
function or array itself under this very condition. -/
theorem declare_pointer_qualified (h : env.QualifiedOf f qs i) {record : TypeRecord}
    {kind : PointerKind} (hr : env.lookup? p = some record) (hb : record.body = .pointer kind i)
    (name : String) (k : Naming) :
    env.declare p name k = env.declare i
        (pointerText (decide (qs.length < parenthesisDepth)) kind record.quals name) k ∧
      ∀ p' record', (∀ q ∈ qs, q = .none) → env.lookup? p' = some record' →
        record'.body = .pointer kind f → record'.quals = record.quals →
        (env.declare p name k = env.declare p' name k ↔ qs.length < parenthesisDepth) := by
  have hpointer := h.declare_pointer hf ht hr hb name
  refine ⟨congrFun hpointer k, fun p' record' hnone hr' hb' hquals => ?_⟩
  have hpointer' := QualifiedOf.here.declare_pointer hf ht hr' hb' name
  have htarget : ∀ d, env.declare i d = env.declare f d := fun d => by
    rw [Environment.declare, h.declare hf, foldl_union_none hnone]
    rfl
  rw [hpointer, hpointer', htarget, hquals]
  constructor
  · -- the same target is declared on both sides, so the declarators around it are the same
    intro he
    have hd := (framesIn_declareWith env [] .none f).injective k (pointerText_ne_empty _ _ _ _)
      (pointerText_ne_empty _ _ _ _) (congrArg Prod.fst he)
    exact of_decide_eq_true (pointerText_inj hd)
  · intro hlt
    rw [decide_eq_true hlt]
    rfl

end

/-- A pointer to a function under `n` qualified types without qualifiers, and one to the function
itself. -/
def chainEnvironment (n : Nat) : Environment where
  top := { records :=
    [(⟨"Pointer0"⟩, ⟨⟨"Pointer0"⟩, .none, .pointer .pointer (Category.basic.id 0)⟩),
      (⟨"Pointer1"⟩, ⟨⟨"Pointer1"⟩, .none, .pointer .pointer ⟨"Function0"⟩⟩),
      (⟨"Function0"⟩, ⟨⟨"Function0"⟩, .none, .function ⟨"int"⟩ [] false⟩)] ++
    (List.range n).map fun m => (Category.basic.id m, ⟨Category.basic.id m, .none,
      .qualified (if m + 1 = n then ⟨"Function0"⟩ else Category.basic.id (m + 1))⟩) }
  below := [.fundamental]

/-- Under seven qualified types the pointer keeps its parentheses. -/
theorem declare_pointer_qualified_seven :
    (chainEnvironment 7).declare ⟨"Pointer0"⟩ "f" {} =
      (chainEnvironment 7).declare ⟨"Pointer1"⟩ "f" {} := by
  have hchain : (chainEnvironment 7).QualifiedOf ⟨"Function0"⟩ (List.replicate 7 .none)
      (Category.basic.id 0) :=
    qualifiedOf_links ((List.range 7).map Category.basic.id) (by decide +kernel)
  have hresolved : (chainEnvironment 7).Resolved ⟨"Function0"⟩ :=
    .function rfl (.reserved rfl) (List.forall_mem_nil _)
  obtain ⟨-, hdirect⟩ := declare_pointer_qualified hresolved (.inl ⟨_, _, _, rfl⟩) hchain
    (p := ⟨"Pointer0"⟩) rfl rfl "f" {}
  have hsame := hdirect ⟨"Pointer1"⟩ _ (fun q hq => List.eq_of_mem_replicate hq) rfl rfl rfl
  exact hsame.2 (by decide)

/-- Under eight it loses them, and its declaration is that of a function. -/
theorem eight_qualified_lose_parentheses :
    (chainEnvironment 8).QualifiedOf ⟨"Function0"⟩ (List.replicate 8 .none) (Category.basic.id 0) ∧
      (chainEnvironment 8).Resolved ⟨"Function0"⟩ ∧
      ((chainEnvironment 8).declare ⟨"Pointer0"⟩ "f" {}).1 = "int *f()" ∧
      ((chainEnvironment 8).declare ⟨"Pointer1"⟩ "f" {}).1 = "int (*f)()" := by
  refine ⟨qualifiedOf_links ((List.range 8).map Category.basic.id) (by decide +kernel),
    .function rfl (.reserved rfl) (List.forall_mem_nil _), ?_, ?_⟩
  · exact declare_of_declareFor (by decide +kernel)
  · exact declare_of_declareFor (by decide +kernel)

end TypeLedger.Environment
