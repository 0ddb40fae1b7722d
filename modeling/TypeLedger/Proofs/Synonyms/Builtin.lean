import TypeLedger.Declarator
import TypeLedger.Proofs.Registration.Canonical
import TypeLedger.Source.Scope
import TypeLedger.Specifier

/-!
# A name for a builtin type

* A `BuiltinSynonym` is what `typedef B T;` declares: a name for the type that some builtin words
  form.
* `BuiltinSynonym.inType` puts the builtin type in the place of its name, and leaves every other
  synonym. The same is done to declarators and members.
* The canonical form of a type and every question that the grammar asks of one stay the same.
-/

namespace TypeLedger

/-- A name for the type that some builtin words form. -/
structure BuiltinSynonym where
  name : String
  words : List BuiltinWord
  spelling : String
  formed : BuiltinWord.canonical? words = some spelling

namespace BuiltinSynonym

variable (S : BuiltinSynonym)

/-- What the name stands for. -/
def meaning : CType := .builtin .none S.spelling

/-- The type that a use of the name has. -/
def type : CType := .synonym .none S.name S.meaning

/-! ## 1. Types -/

mutual

/-- The type with the builtin type in the place of its name. -/
def inType : CType → CType
  | .synonym q n t =>
    if n = S.name ∧ t = S.meaning then .builtin q S.spelling else .synonym q n (inType t)
  | .pointer q k t => .pointer q k (inType t)
  | .array q n t => .array q n (inType t)
  | .complex q t => .complex q (inType t)
  | .vector q n t => .vector q n (inType t)
  | .function q r ps v => .function q (inType r) (inTypes ps) v
  | .null q => .null q
  | .builtin q s => .builtin q s
  | .record q i => .record q i
  | .enumeration q i => .enumeration q i
  | .dependent q s => .dependent q s

/-- The types with the builtin type in the place of its name. -/
def inTypes : List CType → List CType
  | [] => []
  | t :: ts => inType t :: inTypes ts

end

theorem inTypes_eq_map (ts : List CType) : S.inTypes ts = ts.map S.inType := by
  induction ts with
  | nil => rfl
  | cons t ts ih => rw [inTypes, ih, List.map_cons]

theorem inType_type : S.inType S.type = S.meaning := by
  rw [type, inType, if_pos ⟨rfl, rfl⟩]
  rfl

/-- A synonym under another name is kept, around what its meaning becomes. -/
theorem inType_synonym_of_ne {n : String} (hn : n ≠ S.name) (q : Qualifiers) (t : CType) :
    S.inType (.synonym q n t) = .synonym q n (S.inType t) := by
  rw [inType, if_neg fun h => hn h.1]

mutual

/-- **The canonical form stays the same** (`inType`). -/
theorem desugar_inType : ∀ t : CType, (S.inType t).desugar = t.desugar
  | .synonym q n t => by
    unfold inType
    split
    · rename_i h
      rw [h.2]
      simp [meaning, CType.desugar, CType.qualified, CType.withQuals, CType.quals]
    · simp only [CType.desugar, desugar_inType t]
  | .pointer _ _ t | .array _ _ t | .complex _ t | .vector _ _ t => by
    simp only [inType, CType.desugar, desugar_inType t]
  | .function _ r ps _ => by
    simp only [inType, CType.desugar, desugar_inType r, desugarAll_inTypes ps]
  | .null _ | .builtin _ _ | .record _ _ | .enumeration _ _ | .dependent _ _ => by
    simp only [inType]

theorem desugarAll_inTypes :
    ∀ ts : List CType, CType.desugarAll (S.inTypes ts) = CType.desugarAll ts
  | [] => rfl
  | t :: ts => by
    simp only [inTypes, CType.desugarAll, desugar_inType t, desugarAll_inTypes ts]

end

@[simp] theorem quals_inType (t : CType) : (S.inType t).quals = t.quals := by
  cases t with
  | synonym q n t =>
    unfold inType
    split <;> rfl
  | _ => simp only [inType, CType.quals]

theorem inType_withQuals (q : Qualifiers) (t : CType) :
    S.inType (t.withQuals q) = (S.inType t).withQuals q := by
  cases t with
  | synonym p n t =>
    simp only [CType.withQuals, inType]
    split <;> rfl
  | _ => simp only [CType.withQuals, inType]

theorem inType_qualified (t : CType) (q : Qualifiers) :
    S.inType (t.qualified q) = (S.inType t).qualified q := by
  rw [CType.qualified, CType.qualified, inType_withQuals, quals_inType]

@[simp] theorem isFunction_inType (t : CType) : (S.inType t).isFunction = t.isFunction := by
  cases t with
  | synonym q n t =>
    unfold inType
    split <;> rfl
  | _ => simp only [inType, CType.isFunction]

/-! ## 2. Declarators -/

/-- A derivation with the builtin type in the place of its name. -/
def inDerivation : Derivation → Derivation
  | .function ps v => .function (ps.map S.inType) v
  | d => d

def inDeclarator (d : Declarator) : Declarator :=
  { d with derivations := d.derivations.map S.inDerivation }

theorem inType_wrap (d : Derivation) (t : CType) :
    S.inType (d.wrap t) = (S.inDerivation d).wrap (S.inType t) := by
  cases d with
  | function ps v => simp only [Derivation.wrap, inType, inDerivation, inTypes_eq_map]
  | _ => simp only [Derivation.wrap, inType, inDerivation]

theorem inType_apply (d : Declarator) (t : CType) :
    S.inType (d.apply t) = (S.inDeclarator d).apply (S.inType t) := by
  unfold Declarator.apply Derivation.applyAll inDeclarator
  induction d.derivations with
  | nil => rfl
  | cons d ds ih => rw [List.foldr_cons, List.map_cons, List.foldr_cons, inType_wrap, ih]

/-! ## 3. Members -/

/-- A member with the builtin type in the place of its name. -/
def inMember (m : MemberDecl) : MemberDecl := { m with type := S.inType m.type }

theorem desugared_map_inMember (ms : List MemberDecl) :
    (ms.map S.inMember).map MemberDecl.desugared = ms.map MemberDecl.desugared := by
  rw [List.map_map]
  congr 1
  funext m
  simp only [Function.comp_apply, MemberDecl.desugared, inMember, desugar_inType]

theorem isAnonymousRecord_inType {sc sc' : Scope}
    (hctx : sc'.context.desugared = sc.context.desugared) (t : CType) :
    sc'.isAnonymousRecord (S.inType t) = sc.isAnonymousRecord t := by
  cases t with
  | synonym q n t =>
    unfold inType
    split <;> rfl
  | record q id =>
    have hany : ∀ ctx : Context, ((ctx.record? id).any fun r => r.name.isNone) =
        ((ctx.desugared.record? id).any fun r => r.name.isNone) := by
      intro ctx
      rw [Context.record?_desugared, Option.any_map]
      rfl
    simp only [inType, Scope.isAnonymousRecord]
    rw [hany, hctx, ← hany]
  | _ => simp only [inType, Scope.isAnonymousRecord]

end BuiltinSynonym

end TypeLedger
