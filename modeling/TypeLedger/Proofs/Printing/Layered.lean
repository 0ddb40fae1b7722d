import TypeLedger.Proofs.Printing.Parentheses

/-!
# Layers of qualifiers

* `Environment.LayeredOver`: an identifier leads to another through qualified types and arrays only,
  with the qualifiers and the sizes on the way.
* `LayeredOver.declare`: the declaration gathers the qualifiers, puts the suffixes of the arrays
  behind the name, and goes on at the end of the chain.
* `declare_layered`: so only the union of the qualifiers is seen, where the end of the chain puts
  it.
-/

namespace TypeLedger

/-! ## 1. Suffixes of arrays -/

/-- What an array writes behind its declarator. -/
def ArraySize.suffix : ArraySize → String
  | .fixed n => "[" ++ toString n ++ "]"
  | .unknown => "[]"

/-- What arrays write behind a declarator, the outermost one first. -/
def ArraySize.suffixes (sizes : List ArraySize) : String := String.join (sizes.map suffix)

namespace Environment

theorem arrayDeclarator_eq (size : ArraySize) (name : String) :
    arrayDeclarator size name = name ++ size.suffix := by
  cases size with
  | fixed n => simp only [arrayDeclarator, ArraySize.suffix, String.append_assoc]
  | unknown => rfl

/-! ## 2. Chains of qualified types and arrays -/

/-- The identifier leads to `e` through qualified types and arrays only, where `qs` are their
qualifiers and `sizes` the sizes of the arrays, in the order of the chain. -/
inductive LayeredOver (env : Environment) (e : TypeId) :
    List Qualifiers → List ArraySize → TypeId → Prop
  | here : LayeredOver env e [] [] e
  | qualified {i j : TypeId} {record : TypeRecord} {qs : List Qualifiers} {sizes : List ArraySize}
    (hr : env.lookup? i = some record) (hb : record.body = .qualified j)
    (h : LayeredOver env e qs sizes j) : LayeredOver env e (record.quals :: qs) sizes i
  | array {i j : TypeId} {record : TypeRecord} {qs : List Qualifiers} {sizes : List ArraySize}
    {n : ArraySize} (hr : env.lookup? i = some record) (hb : record.body = .array n j)
    (h : LayeredOver env e qs sizes j) : LayeredOver env e (record.quals :: qs) (n :: sizes) i

variable {env : Environment} {e i j : TypeId} {qs : List Qualifiers} {sizes : List ArraySize}
  {quals : Qualifiers} {name : String} {record : TypeRecord}

theorem LayeredOver.resolved (h : env.LayeredOver e qs sizes i) (he : env.Resolved e) :
    env.Resolved i := by
  induction h with
  | here => exact he
  | qualified hr hb _ ih => exact .qualified (by rw [body?_of_lookup hr, hb]) ih
  | array hr hb _ ih => exact .array (by rw [body?_of_lookup hr, hb]) ih

/-- **Qualifiers and suffixes are gathered** along the chain (`LayeredOver`), whichever of its
records have them. -/
theorem LayeredOver.declare (h : env.LayeredOver e qs sizes i) (he : env.Resolved e) :
    env.declareWith [] quals i name = env.declareWith [] (qs.foldl Qualifiers.union quals) e
      (name ++ ArraySize.suffixes sizes) := by
  induction h generalizing quals name with
  | here =>
    rw [ArraySize.suffixes, List.map_nil, String.join_nil, String.append_empty, List.foldl_nil]
  | @qualified i j record qs sizes hr hb h ih =>
    rw [declareWith_qualified hr (h.resolved he) hb, ih, List.foldl_cons]
  | @array i j record qs sizes n hr hb h ih =>
    rw [declareWith_array hr (h.resolved he) hb, ih, arrayDeclarator_eq, List.foldl_cons,
      ArraySize.suffixes, ArraySize.suffixes, List.map_cons, String.join_cons, String.append_assoc]

/-! ## 3. Where the qualifiers go -/

/-- A function drops the qualifiers that come to it. -/
theorem declareWith_function (hr : env.lookup? i = some record) {t : TypeId} {ps : List Param}
    {v : Bool} (hb : record.body = .function t ps v) (quals' : Qualifiers) :
    env.declareWith [] quals i name = env.declareWith [] quals' i name := by
  rw [declareWith_eq hr List.not_mem_nil, declareWith_eq hr List.not_mem_nil, hb]

/-- **Qualifiers travel to the end of a chain.** Any number of qualified types and arrays lead to a
resolved identifier, one behind the other (`LayeredOver`). The first of them declares a name as
every qualified type over the end of the chain does that has the union of their qualifiers, and is
given the name with the suffixes of the arrays behind it (`ArraySize.suffixes`). So chains with the
same union cannot be told apart. The qualifiers end in front of the spelling or the tag, or behind
the sigil of a pointer (`pointerText`); a function drops them. -/
theorem declare_layered (h : env.LayeredOver e qs sizes i) (he : env.Resolved e) (name : String) :
    (∀ q record, env.lookup? q = some record → record.body = .qualified e →
      record.quals = qs.foldl Qualifiers.union .none →
      env.declare i name = env.declare q (name ++ ArraySize.suffixes sizes)) ∧
    (∀ i' qs', env.LayeredOver e qs' sizes i' →
      qs'.foldl Qualifiers.union .none = qs.foldl Qualifiers.union .none →
      env.declare i' name = env.declare i name) ∧
    ∀ record quals d, env.lookup? e = some record →
      quals = (qs.foldl Qualifiers.union .none).union record.quals →
      d = name ++ ArraySize.suffixes sizes →
      (∀ s, record.body = .reserved s →
        env.declare i name = pure (Fragment.ofWords [quals.spelling, s, d])) ∧
      (∀ key tag complete ms bs, record.body = .aggregate key tag complete ms bs →
        env.declare i name = do
          return Fragment.ofWords [quals.spelling, key.word, ← Naming.name tag, d]) ∧
      (∀ tag, record.body = .enumeration tag →
        env.declare i name = do
          return Fragment.ofWords [quals.spelling, "enum", ← Naming.name tag, d]) ∧
      (∀ kind j, record.body = .pointer kind j → env.declare i name = env.declare j
        (pointerText (env.bindsTighter parenthesisDepth j) kind quals d)) ∧
      ∀ t ps v, record.body = .function t ps v → env.declare i name = env.declare e d := by
  have hdeclare : env.declare i name = env.declareWith [] (qs.foldl Qualifiers.union .none) e
      (name ++ ArraySize.suffixes sizes) := h.declare he
  refine ⟨fun q record hr hb hquals => ?_, fun i' qs' h' hunion => ?_, ?_⟩
  · rw [hdeclare, Environment.declare, declareWith_qualified hr he hb, Qualifiers.none_union,
      hquals]
  · rw [hdeclare, Environment.declare, h'.declare he, hunion]
  · rintro record quals d hr rfl rfl
    refine ⟨fun s hb => ?_, fun key tag complete ms bs hb => ?_, fun tag hb => ?_,
      fun kind j hb => ?_, fun t ps v hb => ?_⟩
    · rw [hdeclare, declareWith_eq hr List.not_mem_nil, hb]
    · rw [hdeclare, declareWith_eq hr List.not_mem_nil, hb]
      rfl
    · rw [hdeclare, declareWith_eq hr List.not_mem_nil, hb]
      rfl
    · have hbody : env.body? e = some (.pointer kind j) := by rw [body?_of_lookup hr, hb]
      have hj := he.onward hbody j (List.mem_singleton_self _)
      rw [hdeclare, declareWith_pointer hr hj hb]
      rfl
    · rw [hdeclare, Environment.declare, declareWith_function hr hb]

/-- An array of an array with qualifiers on both, and the qualified type that has them all. -/
def layeredEnvironment : Environment where
  top := { records :=
    [(⟨"Array0"⟩, ⟨⟨"Array0"⟩, { isConst := true }, .array (.fixed 2) ⟨"Type0"⟩⟩),
      (⟨"Type0"⟩, ⟨⟨"Type0"⟩, { isVolatile := true }, .qualified ⟨"Array1"⟩⟩),
      (⟨"Array1"⟩, ⟨⟨"Array1"⟩, .none, .array .unknown ⟨"int"⟩⟩),
      (⟨"Type1"⟩, ⟨⟨"Type1"⟩, { isConst := true, isVolatile := true }, .qualified ⟨"int"⟩⟩)] }
  below := [.fundamental]

/-- The array is declared like a qualified `int`, with its suffixes behind the name. -/
theorem declare_layered_arrays :
    layeredEnvironment.declare ⟨"Array0"⟩ "x" = layeredEnvironment.declare ⟨"Type1"⟩ "x[2][]" ∧
      layeredEnvironment.declare ⟨"Array0"⟩ "x" = pure "const volatile int x[2][]" := by
  have houter : layeredEnvironment.lookup? ⟨"Array0"⟩ =
      some ⟨⟨"Array0"⟩, { isConst := true }, .array (.fixed 2) ⟨"Type0"⟩⟩ := rfl
  have hmiddle : layeredEnvironment.lookup? ⟨"Type0"⟩ =
      some ⟨⟨"Type0"⟩, { isVolatile := true }, .qualified ⟨"Array1"⟩⟩ := rfl
  have hinner : layeredEnvironment.lookup? ⟨"Array1"⟩ =
      some ⟨⟨"Array1"⟩, .none, .array .unknown ⟨"int"⟩⟩ := rfl
  have hchain : layeredEnvironment.LayeredOver ⟨"int"⟩
      [{ isConst := true }, { isVolatile := true }, .none] [.fixed 2, .unknown] ⟨"Array0"⟩ :=
    .array houter rfl (.qualified hmiddle rfl (.array hinner rfl .here))
  obtain ⟨hqualified, -, hend⟩ := declare_layered hchain (.reserved rfl) "x"
  have hsuffixes : "x" ++ ArraySize.suffixes [.fixed 2, .unknown] = "x[2][]" := by decide +kernel
  rw [hsuffixes] at hqualified hend
  obtain ⟨hreserved, -⟩ := hend _ _ _ rfl rfl rfl
  have htext : Fragment.ofWords [Qualifiers.spelling { isConst := true, isVolatile := true }, "int",
      "x[2][]"] = "const volatile int x[2][]" := by decide +kernel
  exact ⟨hqualified _ _ rfl rfl rfl, (hreserved "int" rfl).trans (congrArg pure htext)⟩

end Environment

end TypeLedger
