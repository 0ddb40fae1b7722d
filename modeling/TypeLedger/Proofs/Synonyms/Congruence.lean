import Mathlib.Logic.Relation
import TypeLedger.CType.Parts

/-!
# Desugaring as a congruence

* `CType.desugarAsNeeded` copies what no synonym occurs in as it is. It is the same as `desugar`.
* `CType.Hole`: a type with a hole in it, and `Hole.fill` puts a type there. `within_iff` says that
  the holes are all places where a type may occur in another.
* `desugar_congruence`: `desugar` does not see what stands in a hole, only what it stands for. A
  name for a type may take the place of the type anywhere.
-/

namespace TypeLedger.CType

/-! ## 1. Types without synonyms are left alone -/

mutual

/-- The type with every synonym replaced by what it stands for; what has none is not rebuilt. -/
def desugarAsNeeded : CType → CType
  | null q => null q
  | builtin q s => builtin q s
  | record q i => record q i
  | enumeration q i => enumeration q i
  | dependent q s => dependent q s
  | synonym q _ t => t.desugarAsNeeded.qualified q
  | pointer q k t => if t.hasSugar then pointer q k t.desugarAsNeeded else pointer q k t
  | array q n t => if t.hasSugar then array q n t.desugarAsNeeded else array q n t
  | complex q t => if t.hasSugar then complex q t.desugarAsNeeded else complex q t
  | vector q n t => if t.hasSugar then vector q n t.desugarAsNeeded else vector q n t
  | function q r ps v =>
    if r.hasSugar || anySugar ps then function q r.desugarAsNeeded (desugarAllAsNeeded ps) v
    else function q r ps v

/-- The types with every synonym replaced by what it stands for. -/
def desugarAllAsNeeded : List CType → List CType
  | [] => []
  | t :: ts => t.desugarAsNeeded :: desugarAllAsNeeded ts

end

mutual

/-- **To leave alone what has no synonym makes no difference:** `desugarAsNeeded` is `desugar`. -/
theorem desugarAsNeeded_eq : ∀ t : CType, t.desugarAsNeeded = t.desugar
  | null _ | builtin _ _ | record _ _ | enumeration _ _ | dependent _ _ => by
    simp only [desugarAsNeeded, desugar]
  | synonym _ _ t => by simp only [desugarAsNeeded, desugar, desugarAsNeeded_eq t]
  | pointer _ _ t | array _ _ t | complex _ t | vector _ _ t => by
    simp only [desugarAsNeeded, desugar, desugarAsNeeded_eq t]
    split
    · rfl
    · rename_i h
      rw [desugar_of_not_hasSugar t (Bool.eq_false_iff.2 h)]
  | function _ r ps _ => by
    simp only [desugarAsNeeded, desugar, desugarAsNeeded_eq r, desugarAllAsNeeded_eq ps]
    split
    · rfl
    · rename_i h
      obtain ⟨hr, hps⟩ := Bool.or_eq_false_iff.1 (Bool.eq_false_iff.2 h)
      rw [desugar_of_not_hasSugar r hr, desugarAll_of_not_anySugar ps hps]

theorem desugarAllAsNeeded_eq : ∀ ts : List CType, desugarAllAsNeeded ts = desugarAll ts
  | [] => rfl
  | t :: ts => by
    simp only [desugarAllAsNeeded, desugarAll, desugarAsNeeded_eq t, desugarAllAsNeeded_eq ts]

end

/-- A qualifier is added before or after: that of a synonym joins those of its meaning once. -/
theorem desugar_qualified (t : CType) (q : Qualifiers) :
    (t.qualified q).desugar = t.desugar.qualified q := by
  cases t with
  | synonym p n s =>
    show s.desugar.qualified (p.union q) = (s.desugar.qualified p).qualified q
    rw [qualified_qualified]
  | _ => rfl

/-! ## 2. Types with a hole -/

/-- A type with a hole in it. -/
inductive Hole
  | here
  | pointer (quals : Qualifiers) (kind : PointerKind) (pointee : Hole)
  | array (quals : Qualifiers) (size : ArraySize) (element : Hole)
  | result (quals : Qualifiers) (result : Hole) (params : List CType) (variadic : Bool)
  /-- The hole is in a parameter, between those in front of it and those behind. -/
  | param (quals : Qualifiers) (result : CType) (front : List CType) (param : Hole)
    (behind : List CType) (variadic : Bool)
  | synonym (quals : Qualifiers) (name : String) (target : Hole)
  | complex (quals : Qualifiers) (element : Hole)
  | vector (quals : Qualifiers) (lanes : UInt32) (element : Hole)

namespace Hole

/-- The type with `s` in the place of the hole. -/
def fill (s : CType) : Hole → CType
  | here => s
  | pointer q k h => .pointer q k (h.fill s)
  | array q n h => .array q n (h.fill s)
  | result q h ps v => .function q (h.fill s) ps v
  | param q r front h behind v => .function q r (front ++ h.fill s :: behind) v
  | synonym q n h => .synonym q n (h.fill s)
  | complex q h => .complex q (h.fill s)
  | vector q n h => .vector q n (h.fill s)

/-- **What is filled in counts by its meaning only** (`Hole.fill`). -/
theorem desugar_fill_congr {s u : CType} (he : s.desugar = u.desugar) (h : Hole) :
    (h.fill s).desugar = (h.fill u).desugar := by
  induction h with
  | here => exact he
  | pointer q k h ih | array q n h ih | complex q h ih | vector q n h ih | synonym q n h ih
  | result q h ps v ih =>
    simp only [fill, desugar, ih]
  | param q r front h behind v ih =>
    simp only [fill, desugar, desugarAll_eq_map, List.map_append, List.map_cons, ih]

/-- A name takes the place of a type, with qualifiers of its own or without. -/
theorem desugar_fill_synonym (h : Hole) (q : Qualifiers) (name : String) (s : CType) :
    (h.fill (.synonym q name s)).desugar = (h.fill (s.qualified q)).desugar := by
  refine desugar_fill_congr ?_ h
  rw [desugar_qualified]
  rfl

end Hole

/-! ## 3. Where a type occurs -/

/-- The first type occurs in the second: it is this type, or occurs in one of its `children`. -/
def Within (s t : CType) : Prop := Relation.ReflTransGen (fun c u => c ∈ u.children) s t

/-- What fills a hole occurs in what comes of it. -/
theorem within_fill (s : CType) (h : Hole) : s.Within (h.fill s) := by
  induction h with
  | here => exact .refl
  | pointer q k h ih | array q n h ih | complex q h ih | vector q n h ih | synonym q n h ih =>
    exact ih.tail (List.mem_singleton_self _)
  | result q h ps v ih => exact ih.tail List.mem_cons_self
  | param q r front h behind v ih =>
    exact ih.tail (List.mem_cons_of_mem _ (List.mem_append_right _ List.mem_cons_self))

/-- A hole in a child is a hole in the type. -/
theorem exists_fill_of_child {s : CType} {h : Hole} {t : CType} (hc : h.fill s ∈ t.children) :
    ∃ h' : Hole, h'.fill s = t := by
  cases t with
  | null _ | builtin _ _ | record _ _ | enumeration _ _ | dependent _ _ => cases hc
  | pointer q k t => exact ⟨.pointer q k h, by rw [Hole.fill, List.mem_singleton.1 hc]⟩
  | array q n t => exact ⟨.array q n h, by rw [Hole.fill, List.mem_singleton.1 hc]⟩
  | synonym q n t => exact ⟨.synonym q n h, by rw [Hole.fill, List.mem_singleton.1 hc]⟩
  | complex q t => exact ⟨.complex q h, by rw [Hole.fill, List.mem_singleton.1 hc]⟩
  | vector q n t => exact ⟨.vector q n h, by rw [Hole.fill, List.mem_singleton.1 hc]⟩
  | function q r ps v =>
    rcases List.mem_cons.1 hc with rfl | hm
    · exact ⟨.result q h ps v, rfl⟩
    · obtain ⟨front, behind, rfl⟩ := List.append_of_mem hm
      exact ⟨.param q r front h behind v, rfl⟩

/-- **The holes are the places** where a type occurs in another (`Within`). -/
theorem within_iff {s t : CType} : s.Within t ↔ ∃ h : Hole, h.fill s = t := by
  constructor
  · intro hw
    induction hw with
    | refl => exact ⟨.here, rfl⟩
    | tail _ hc ih =>
      obtain ⟨h, rfl⟩ := ih
      exact exists_fill_of_child hc
  · rintro ⟨h, rfl⟩
    exact within_fill s h

/-- **Desugaring is a congruence.** Nothing is left for `desugar` to replace, so a second time
changes nothing, and to leave types without synonyms alone (`desugarAsNeeded`) makes no difference.
Qualifiers may be added before or after. Where a type occurs in this one (`Within`), it fills a
`Hole`, at any depth; and a synonym for it may fill the hole in its place: one with qualifiers, for
the type with these qualifiers. -/
theorem desugar_congruence (t : CType) :
    t.desugar.hasSugar = false ∧ t.desugar.desugar = t.desugar ∧ t.desugarAsNeeded = t.desugar ∧
      (∀ q, (t.qualified q).desugar = t.desugar.qualified q) ∧
      (∀ s, s.Within t ↔ ∃ h : Hole, h.fill s = t) ∧
      ∀ (h : Hole) (s : CType) (name : String),
        (h.fill (.synonym .none name s)).desugar = (h.fill s).desugar ∧
        ∀ q, (h.fill (.synonym q name s)).desugar = (h.fill (s.qualified q)).desugar := by
  refine ⟨hasSugar_desugar t, desugar_of_not_hasSugar _ (hasSugar_desugar t), desugarAsNeeded_eq t,
    desugar_qualified t, fun s => within_iff, fun h s name => ⟨?_, fun q => ?_⟩⟩
  · rw [Hole.desugar_fill_synonym, qualified_none]
  · exact Hole.desugar_fill_synonym h q name s

/-- A constant pointer to a name for a volatile name for `const int`: the qualifiers of the names
meet at the builtin type, that of the pointer stays where it is. -/
example :
    (CType.pointer ⟨true, false, false⟩ .pointer (.synonym .none "A"
      (.synonym ⟨false, true, false⟩ "B" (.builtin ⟨true, false, false⟩ "int")))).desugar =
      .pointer ⟨true, false, false⟩ .pointer (.builtin ⟨true, true, false⟩ "int") := rfl

end TypeLedger.CType
