import TypeLedger.Modifier

/-!
# Types

* A `CType` is a type as a declaration spells it. Records and enumerations are named by their
  number in the context that declares them, so a type is a finite tree even when a record points
  at itself. Every node carries its qualifiers.
* A `synonym` node is a name for another type. `desugar` puts the meaning of every such name in its
  place; a qualifier of the name joins those of its meaning.
* Two types are the same type when their desugared forms are equal.
-/

namespace TypeLedger

/-- The number of a record in its context. -/
structure RecordId where
  index : Nat
deriving DecidableEq, Repr

/-- The number of an enumeration in its context. -/
structure EnumId where
  index : Nat
deriving DecidableEq, Repr

/-- A type. -/
inductive CType where
  /-- The absence of a type. -/
  | null (quals : Qualifiers)
  | builtin (quals : Qualifiers) (spelling : String)
  | pointer (quals : Qualifiers) (kind : PointerKind) (pointee : CType)
  | array (quals : Qualifiers) (size : ArraySize) (element : CType)
  | function (quals : Qualifiers) (result : CType) (params : List CType) (variadic : Bool)
  | record (quals : Qualifiers) (id : RecordId)
  | enumeration (quals : Qualifiers) (id : EnumId)
  | synonym (quals : Qualifiers) (name : String) (target : CType)
  | complex (quals : Qualifiers) (element : CType)
  | vector (quals : Qualifiers) (lanes : UInt32) (element : CType)
  /-- A type known only by its text. -/
  | dependent (quals : Qualifiers) (text : String)
deriving Repr, Inhabited

namespace CType

/-! ## 1. Equality -/

mutual

/-- The test of equality. -/
def same : CType → CType → Bool
  | null p, null q => p = q
  | builtin p s, builtin q t => p = q && s = t
  | pointer p j s, pointer q k t => p = q && j = k && same s t
  | array p m s, array q n t => p = q && m = n && same s t
  | function p r ps v, function q s qs w => p = q && v = w && same r s && sameAll ps qs
  | record p i, record q j => p = q && i = j
  | enumeration p i, enumeration q j => p = q && i = j
  | synonym p m s, synonym q n t => p = q && m = n && same s t
  | complex p s, complex q t => p = q && same s t
  | vector p m s, vector q n t => p = q && m = n && same s t
  | dependent p s, dependent q t => p = q && s = t
  | _, _ => false

/-- The test of equality of two lists. -/
def sameAll : List CType → List CType → Bool
  | [], [] => true
  | s :: ss, t :: ts => same s t && sameAll ss ts
  | _, _ => false

end

mutual

theorem eq_of_same : ∀ s t : CType, same s t = true → s = t
  | null _, t | builtin _ _, t | record _ _, t | enumeration _ _, t | dependent _ _, t => by
    cases t <;> simp_all [same]
  | pointer _ _ s, t | array _ _ s, t | synonym _ _ s, t | complex _ s, t | vector _ _ s, t => by
    cases t <;> simp only [same, Bool.false_eq_true, false_implies, Bool.and_eq_true,
      decide_eq_true_eq]
    all_goals intro h; simp_all [eq_of_same s _ h.2]
  | function _ r ps _, t => by
    cases t <;> simp only [same, Bool.false_eq_true, false_implies, Bool.and_eq_true,
      decide_eq_true_eq]
    intro h
    simp_all [eq_of_same r _ h.1.2, eq_of_sameAll ps _ h.2]

theorem eq_of_sameAll : ∀ ss ts : List CType, sameAll ss ts = true → ss = ts
  | [], ts => by cases ts <;> simp [sameAll]
  | s :: ss, ts => by
    cases ts <;> simp only [sameAll, Bool.false_eq_true, false_implies, Bool.and_eq_true]
    intro h
    rw [eq_of_same s _ h.1, eq_of_sameAll ss _ h.2]

end

mutual

theorem same_self : ∀ t : CType, same t t = true
  | null _ | builtin _ _ | record _ _ | enumeration _ _ | dependent _ _ => by simp [same]
  | pointer _ _ t | array _ _ t | synonym _ _ t | complex _ t | vector _ _ t => by
    simp [same, same_self t]
  | function _ r ps _ => by simp [same, same_self r, sameAll_self ps]

theorem sameAll_self : ∀ ts : List CType, sameAll ts ts = true
  | [] => rfl
  | t :: ts => by simp [sameAll, same_self t, sameAll_self ts]

end

theorem same_iff (s t : CType) : same s t = true ↔ s = t :=
  ⟨eq_of_same s t, fun h => h ▸ same_self s⟩

instance : DecidableEq CType := fun s t => decidable_of_iff _ (same_iff s t)

/-! ## 2. Qualifiers -/

def quals : CType → Qualifiers
  | null q | builtin q _ | pointer q _ _ | array q _ _ | function q _ _ _ | record q _
  | enumeration q _ | synonym q _ _ | complex q _ | vector q _ _ | dependent q _ => q

/-- The type with other qualifiers at its outermost node. -/
def withQuals (q : Qualifiers) : CType → CType
  | null _ => null q
  | builtin _ s => builtin q s
  | pointer _ k t => pointer q k t
  | array _ n t => array q n t
  | function _ r ps v => function q r ps v
  | record _ i => record q i
  | enumeration _ i => enumeration q i
  | synonym _ n t => synonym q n t
  | complex _ t => complex q t
  | vector _ n t => vector q n t
  | dependent _ s => dependent q s

/-- The type with the qualifiers `q` added. -/
def qualified (t : CType) (q : Qualifiers) : CType := t.withQuals (t.quals.union q)

def unqualified (t : CType) : CType := t.withQuals .none

@[simp] theorem quals_withQuals (q : Qualifiers) (t : CType) : (t.withQuals q).quals = q := by
  cases t <;> rfl

@[simp] theorem withQuals_withQuals (p q : Qualifiers) (t : CType) :
    (t.withQuals p).withQuals q = t.withQuals q := by
  cases t <;> rfl

@[simp] theorem withQuals_quals (t : CType) : t.withQuals t.quals = t := by
  cases t <;> rfl

@[simp] theorem qualified_none (t : CType) : t.qualified .none = t := by
  simp [qualified]

theorem qualified_qualified (t : CType) (p q : Qualifiers) :
    (t.qualified p).qualified q = t.qualified (p.union q) := by
  simp [qualified, Qualifiers.union_assoc]

/-! ## 3. Questions about the outermost node -/

def isNull : CType → Bool
  | null _ => true
  | _ => false

def isFunction : CType → Bool
  | function .. => true
  | _ => false

/-! ## 4. Synonyms -/

mutual

/-- A synonym occurs in the type. The members of a record are not part of the type. -/
def hasSugar : CType → Bool
  | null _ | builtin _ _ | record _ _ | enumeration _ _ | dependent _ _ => false
  | synonym _ _ _ => true
  | pointer _ _ t | array _ _ t | complex _ t | vector _ _ t => t.hasSugar
  | function _ r ps _ => r.hasSugar || anySugar ps

/-- A synonym occurs in one of the types. -/
def anySugar : List CType → Bool
  | [] => false
  | t :: ts => t.hasSugar || anySugar ts

end

mutual

/-- The type with every synonym replaced by what it stands for. -/
def desugar : CType → CType
  | null q => null q
  | builtin q s => builtin q s
  | record q i => record q i
  | enumeration q i => enumeration q i
  | dependent q s => dependent q s
  | synonym q _ t => t.desugar.qualified q
  | pointer q k t => pointer q k t.desugar
  | array q n t => array q n t.desugar
  | complex q t => complex q t.desugar
  | vector q n t => vector q n t.desugar
  | function q r ps v => function q r.desugar (desugarAll ps) v

/-- The types with every synonym replaced by what it stands for. -/
def desugarAll : List CType → List CType
  | [] => []
  | t :: ts => t.desugar :: desugarAll ts

end

theorem anySugar_eq_any (ts : List CType) : anySugar ts = ts.any hasSugar := by
  induction ts with
  | nil => rfl
  | cons t ts ih => simp [anySugar, ih]

theorem desugarAll_eq_map (ts : List CType) : desugarAll ts = ts.map desugar := by
  induction ts with
  | nil => rfl
  | cons t ts ih => simp [desugarAll, ih]

theorem hasSugar_withQuals (q : Qualifiers) (t : CType) :
    (t.withQuals q).hasSugar = t.hasSugar := by
  cases t <;> simp [withQuals, hasSugar]

theorem hasSugar_qualified (t : CType) (q : Qualifiers) :
    (t.qualified q).hasSugar = t.hasSugar :=
  hasSugar_withQuals _ t

mutual

/-- **Nothing is left to replace** after `desugar`. -/
theorem hasSugar_desugar : ∀ t : CType, t.desugar.hasSugar = false
  | null _ | builtin _ _ | record _ _ | enumeration _ _ | dependent _ _ => by
    simp [desugar, hasSugar]
  | synonym q _ t => by simp [desugar, hasSugar_qualified, hasSugar_desugar t]
  | pointer _ _ t | array _ _ t | complex _ t | vector _ _ t => by
    simp [desugar, hasSugar, hasSugar_desugar t]
  | function _ r ps _ => by
    simp [desugar, hasSugar, hasSugar_desugar r, anySugar_desugarAll ps]

theorem anySugar_desugarAll : ∀ ts : List CType, anySugar (desugarAll ts) = false
  | [] => rfl
  | t :: ts => by simp [desugarAll, anySugar, hasSugar_desugar t, anySugar_desugarAll ts]

end

mutual

/-- **A type without a synonym (`hasSugar`) is its own `desugar`.** -/
theorem desugar_of_not_hasSugar : ∀ t : CType, t.hasSugar = false → t.desugar = t
  | null _, _ | builtin _ _, _ | record _ _, _ | enumeration _ _, _ | dependent _ _, _ => by
    simp [desugar]
  | synonym _ _ _, h => by simp [hasSugar] at h
  | pointer _ _ t, h | array _ _ t, h | complex _ t, h | vector _ _ t, h => by
    simp only [hasSugar] at h
    simp [desugar, desugar_of_not_hasSugar t h]
  | function _ r ps _, h => by
    simp only [hasSugar, Bool.or_eq_false_iff] at h
    simp [desugar, desugar_of_not_hasSugar r h.1, desugarAll_of_not_anySugar ps h.2]

theorem desugarAll_of_not_anySugar :
    ∀ ts : List CType, anySugar ts = false → desugarAll ts = ts
  | [], _ => rfl
  | t :: ts, h => by
    simp only [anySugar, Bool.or_eq_false_iff] at h
    simp [desugarAll, desugar_of_not_hasSugar t h.1, desugarAll_of_not_anySugar ts h.2]

end

end CType

end TypeLedger
