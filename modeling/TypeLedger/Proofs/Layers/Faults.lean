import TypeLedger.Proofs.Layers.Overlay
import TypeLedger.Proofs.Numeral

/-!
# Faulty entries

* `Entry.defects`: all that is wrong with an entry, in the order in which its fields are looked at.
  `Entry.Malformed` says what can be wrong, without an order; `defects_ne_nil_iff`.
* `Blames`: a reading ends with the first defect of a list, and has a result if there is none.
  `Blames.bind` and `Blames.mapM` are the two ways in which readings are put together, and
  `blames_readRecord` says so of a whole entry.
* `Environment.add_stops_iff`: a list of entries is refused exactly if one of them is malformed. The
  fault is the first defect of the first one, and only the entries in front of it are in the
  environment.
-/

namespace TypeLedger

/-! ## 1. What can be wrong with an entry -/

/-- A text that says yes or no. -/
def IsFlag (text : String) : Prop := text ∈ ["0", "1", "true", "false"]

def IsAccess (text : String) : Prop := text ∈ ["public", "private", "protected"]

def IsArraySize (text : String) : Prop := text = "*" ∨ Text.IsNumberBelow Text.size64 text

def IsBitWidth (text : String) : Prop := Text.IsNumberBelow Text.size32 text

instance : DecidablePred IsFlag := fun text => inferInstanceAs (Decidable (text ∈ _))

instance : DecidablePred IsAccess := fun text => inferInstanceAs (Decidable (text ∈ _))

instance : DecidablePred IsArraySize := fun _ => inferInstanceAs (Decidable (_ ∨ _))

instance : DecidablePred IsBitWidth := fun text =>
  inferInstanceAs (Decidable (Text.IsNumberBelow Text.size32 text))

/-- The defect of a text that may be absent: it is there, and is not of the form that is asked
for. -/
def defect (form : String → Prop) [DecidablePred form] (fault : String → TableFault) :
    Option String → List TableFault
  | some text => if form text then [] else [fault text]
  | none => []

/-- What is wrong with a base class. -/
def BaseEntry.defects (b : BaseEntry) : List TableFault :=
  defect IsAccess .invalidAccess (some b.access)
    ++ defect IsFlag (.invalidFlag "is_virtual") b.isVirtual

/-- What is wrong with a symbol. -/
def Symbol.defects (s : Symbol) : List TableFault :=
  defect IsAccess .invalidAccess s.access ++ defect IsBitWidth .invalidBitWidth s.bitField

namespace Entry

/-- What is wrong with a flag of an entry. -/
def flagDefects (e : Entry) (name : String) : List TableFault :=
  defect IsFlag (.invalidFlag name) (e.attributes.get? name)

/-- The kinds of entries whose symbols are members. -/
def memberKinds : List String := ["structType", "unionType", "classType"]

/-- What is wrong with the fields that only some kinds of entries have. -/
def kindDefects (e : Entry) : List TableFault :=
  if e.kind ∈ memberKinds then e.symbols.flatMap Symbol.defects
  else if e.kind = "functionType" then e.flagDefects "is_variadic"
  else if e.kind = "arrayType" then
    defect IsArraySize .invalidArraySize (e.attributes.get? "array_size")
  else []

/-- All that is wrong with an entry, in the order in which its fields are looked at. -/
def defects (e : Entry) : List TableFault :=
  e.flagDefects "is_const" ++ e.flagDefects "is_volatile" ++ e.flagDefects "is_restrict"
    ++ e.bases.flatMap BaseEntry.defects ++ e.flagDefects "is_complete" ++ e.kindDefects

/-- Something is wrong with an entry. -/
inductive Malformed (e : Entry) : Prop
  | flag {name text : String}
    (hn : name ∈ ["is_const", "is_volatile", "is_restrict", "is_complete"])
    (ht : e.attributes.get? name = some text) (hf : ¬ IsFlag text)
  | baseAccess {b : BaseEntry} (hb : b ∈ e.bases) (hf : ¬ IsAccess b.access)
  | baseVirtual {b : BaseEntry} {text : String} (hb : b ∈ e.bases) (ht : b.isVirtual = some text)
    (hf : ¬ IsFlag text)
  | variadic {text : String} (hk : e.kind = "functionType")
    (ht : e.attributes.get? "is_variadic" = some text) (hf : ¬ IsFlag text)
  | arraySize {text : String} (hk : e.kind = "arrayType")
    (ht : e.attributes.get? "array_size" = some text) (hf : ¬ IsArraySize text)
  | access {s : Symbol} {text : String} (hk : e.kind ∈ memberKinds) (hs : s ∈ e.symbols)
    (ht : s.access = some text) (hf : ¬ IsAccess text)
  | bitWidth {s : Symbol} {text : String} (hk : e.kind ∈ memberKinds) (hs : s ∈ e.symbols)
    (ht : s.bitField = some text) (hf : ¬ IsBitWidth text)

end Entry

section Defects

variable {form : String → Prop} [DecidablePred form] {fault : String → TableFault}

theorem defect_ne_nil_iff {field : Option String} :
    defect form fault field ≠ [] ↔ ∃ text, field = some text ∧ ¬ form text := by
  cases field with
  | none => simp [defect]
  | some text => by_cases h : form text <;> simp [defect, h]

theorem append_ne_nil_iff {as bs : List TableFault} : as ++ bs ≠ [] ↔ as ≠ [] ∨ bs ≠ [] := by
  rw [ne_eq, List.append_eq_nil_iff, Decidable.not_and_iff_or_not]

theorem flatMap_ne_nil_iff {α : Type} {f : α → List TableFault} {as : List α} :
    as.flatMap f ≠ [] ↔ ∃ a ∈ as, f a ≠ [] := by
  simp only [ne_eq, List.flatMap_eq_nil_iff, Classical.not_forall, exists_prop]

namespace Entry

variable {e : Entry}

theorem kindDefects_ne_nil_iff : e.kindDefects ≠ [] ↔
    (e.kind ∈ memberKinds ∧ ∃ s ∈ e.symbols, s.defects ≠ []) ∨
      (e.kind = "functionType" ∧ e.flagDefects "is_variadic" ≠ []) ∨
      (e.kind = "arrayType" ∧
        defect IsArraySize .invalidArraySize (e.attributes.get? "array_size") ≠ []) := by
  unfold kindDefects
  by_cases hm : e.kind ∈ memberKinds
  · have hf : e.kind ≠ "functionType" := fun h => absurd (h ▸ hm) (by decide)
    have ha : e.kind ≠ "arrayType" := fun h => absurd (h ▸ hm) (by decide)
    rw [if_pos hm, flatMap_ne_nil_iff]
    simp only [hm, hf, ha, true_and, false_and, or_false]
  · rw [if_neg hm]
    by_cases hf : e.kind = "functionType"
    · have ha : e.kind ≠ "arrayType" := fun h => absurd (hf.symm.trans h) (by decide)
      rw [if_pos hf]
      simp only [hm, eq_true hf, ha, true_and, false_and, false_or, or_false]
    · rw [if_neg hf]
      by_cases ha : e.kind = "arrayType"
      · rw [if_pos ha]
        simp only [hm, hf, eq_true ha, true_and, false_and, false_or]
      · simp only [hm, hf, ha, ite_false, ne_eq, not_true, false_and, or_false]

/-- **An entry has a defect exactly if it is `Malformed`.** -/
theorem defects_ne_nil_iff : e.defects ≠ [] ↔ e.Malformed := by
  have hflag : ∀ name, e.flagDefects name ≠ [] ↔
      ∃ text, e.attributes.get? name = some text ∧ ¬ IsFlag text := fun _ => defect_ne_nil_iff
  unfold defects
  simp only [append_ne_nil_iff, flatMap_ne_nil_iff, kindDefects_ne_nil_iff, BaseEntry.defects,
    Symbol.defects, hflag, defect_ne_nil_iff]
  constructor
  · rintro (((((h | h) | h) | h) | h) | h)
    · obtain ⟨text, ht, hf⟩ := h
      exact .flag (by simp) ht hf
    · obtain ⟨text, ht, hf⟩ := h
      exact .flag (by simp) ht hf
    · obtain ⟨text, ht, hf⟩ := h
      exact .flag (by simp) ht hf
    · obtain ⟨b, hb, ⟨text, ht, hf⟩ | ⟨text, ht, hf⟩⟩ := h
      · exact .baseAccess hb (Option.some.inj ht ▸ hf)
      · exact .baseVirtual hb ht hf
    · obtain ⟨text, ht, hf⟩ := h
      exact .flag (by simp) ht hf
    · obtain ⟨hk, s, hs, ⟨text, ht, hf⟩ | ⟨text, ht, hf⟩⟩ | ⟨hk, text, ht, hf⟩ |
        ⟨hk, text, ht, hf⟩ := h
      · exact .access hk hs ht hf
      · exact .bitWidth hk hs ht hf
      · exact .variadic hk ht hf
      · exact .arraySize hk ht hf
  · intro h
    cases h with
    | @flag name text hn ht hf =>
      simp only [List.mem_cons, List.not_mem_nil, or_false] at hn
      rcases hn with rfl | rfl | rfl | rfl
      · exact .inl (.inl (.inl (.inl (.inl ⟨text, ht, hf⟩))))
      · exact .inl (.inl (.inl (.inl (.inr ⟨text, ht, hf⟩))))
      · exact .inl (.inl (.inl (.inr ⟨text, ht, hf⟩)))
      · exact .inl (.inr ⟨text, ht, hf⟩)
    | @baseAccess b hb hf => exact .inl (.inl (.inr ⟨b, hb, .inl ⟨_, rfl, hf⟩⟩))
    | @baseVirtual b text hb ht hf => exact .inl (.inl (.inr ⟨b, hb, .inr ⟨text, ht, hf⟩⟩))
    | @variadic text hk ht hf => exact .inr (.inr (.inl ⟨hk, text, ht, hf⟩))
    | @arraySize text hk ht hf => exact .inr (.inr (.inr ⟨hk, text, ht, hf⟩))
    | @access s text hk hs ht hf => exact .inr (.inl ⟨hk, s, hs, .inl ⟨text, ht, hf⟩⟩)
    | @bitWidth s text hk hs ht hf => exact .inr (.inl ⟨hk, s, hs, .inr ⟨text, ht, hf⟩⟩)

instance (e : Entry) : Decidable e.Malformed := decidable_of_iff _ defects_ne_nil_iff

end Entry

end Defects

/-! ## 2. Readings and their first defect -/

/-- The fault that a reading ends with. -/
def faultOf {α : Type} : Except TableFault α → Option TableFault
  | .ok _ => none
  | .error f => some f

/-- The reading ends with the first of some defects, and has a result if there are none. -/
def Blames {α : Type} (x : Except TableFault α) (ds : List TableFault) : Prop :=
  faultOf x = ds.head?

section Readings

variable {α β : Type} {ds ds' : List TableFault}

theorem blames_ok (a : α) : Blames (.ok a) [] := rfl

/-- Without a defect there is a result, and with a result there is no defect. -/
theorem Blames.eq_nil_iff {x : Except TableFault α} (h : Blames x ds) :
    ds = [] ↔ ∃ a, x = .ok a := by
  unfold Blames at h
  cases x with
  | ok a => simpa [faultOf] using h.symm
  | error f =>
    have hne : ds ≠ [] := by
      rintro rfl
      cases h
    simp [hne]

theorem Blames.head?_eq {f : TableFault} (h : Blames (.error f : Except TableFault α) ds) :
    ds.head? = some f := h.symm

/-- **One reading behind another** (`Blames`): the defects of the second come behind those of the
first. -/
theorem Blames.bind {x : Except TableFault α} {f : α → Except TableFault β} (h : Blames x ds)
    (hf : ∀ a, x = .ok a → Blames (f a) ds') : Blames (x >>= f) (ds ++ ds') := by
  cases x with
  | ok a =>
    rw [h.eq_nil_iff.2 ⟨a, rfl⟩, List.nil_append]
    exact hf a rfl
  | error e =>
    show some e = (ds ++ ds').head?
    rw [List.head?_append, h.head?_eq]
    rfl

/-- A result that is put to use has no defects of its own. -/
theorem Blames.map {x : Except TableFault α} (h : Blames x ds) (f : α → β) :
    Blames (f <$> x) ds := by
  cases x with
  | ok a => exact h
  | error e => exact h

/-- **The items of a list, one after the other.** -/
theorem Blames.mapM {f : α → Except TableFault β} {d : α → List TableFault}
    (h : ∀ a, Blames (f a) (d a)) (as : List α) : Blames (as.mapM f) (as.flatMap d) := by
  induction as with
  | nil => exact blames_ok []
  | cons a as ih =>
    rw [List.mapM_cons, List.flatMap_cons]
    exact (h a).bind fun b _ => ih.map (b :: ·)

theorem blames_readFlag (name text : String) :
    Blames (readFlag name text) (defect IsFlag (.invalidFlag name) (some text)) := by
  unfold readFlag defect IsFlag
  simp only [List.mem_cons, List.not_mem_nil, or_false]
  by_cases h₁ : text = "1" <;> by_cases h₂ : text = "true" <;> by_cases h₃ : text = "0" <;>
    by_cases h₄ : text = "false" <;> simp [h₁, h₂, h₃, h₄, Blames, faultOf]

theorem blames_access (word : String) :
    Blames (Access.ofWord word) (defect IsAccess .invalidAccess (some word)) := by
  unfold Access.ofWord Access.ofWord? defect IsAccess
  split
  · rename_i h
    split at h <;> simp_all [Blames, faultOf]
  · rename_i h
    split at h <;> simp_all [Blames, faultOf]

theorem blames_readEdge (b : BaseEntry) : Blames b.readEdge b.defects := by
  unfold BaseEntry.readEdge BaseEntry.defects
  refine (blames_access b.access).bind fun access _ => ?_
  cases b.isVirtual with
  | none => exact blames_ok _
  | some text =>
    exact (blames_readFlag "is_virtual" text).map fun v => (⟨access, b.type, v⟩ : BaseEdge)

theorem blames_readBitWidth (s : Symbol) :
    Blames s.readBitWidth (defect IsBitWidth .invalidBitWidth s.bitField) := by
  unfold Symbol.readBitWidth defect IsBitWidth
  cases s.bitField with
  | none => exact blames_ok none
  | some text =>
    simp only [← unsigned?_isSome_iff, Text.word32?]
    cases Text.unsigned? Text.size32 text <;> simp [Blames, faultOf]

theorem blames_readMember (s : Symbol) : Blames s.readMember s.defects := by
  refine Blames.bind ?_ fun access _ => (blames_readBitWidth s).map fun w => _
  unfold Symbol.readAccess
  cases s.access with
  | none => exact blames_ok none
  | some word => exact (blames_access word).map some

namespace Entry

variable (e : Entry)

theorem blames_flag (name : String) : Blames (e.flag name) (e.flagDefects name) := by
  unfold flag flagDefects
  cases e.attributes.get? name with
  | none => exact blames_ok false
  | some text => exact blames_readFlag name text

theorem blames_readArraySize : Blames e.readArraySize
    (defect IsArraySize .invalidArraySize (e.attributes.get? "array_size")) := by
  unfold readArraySize defect IsArraySize
  cases e.attributes.get? "array_size" with
  | none => exact blames_ok _
  | some text =>
    by_cases hstar : text = "*"
    · simp [hstar, Blames, faultOf]
    · simp only [hstar, if_false, false_or, ← unsigned?_isSome_iff, Text.word64?]
      cases Text.unsigned? Text.size64 text <;> simp [Blames, faultOf]

/-- The kinds of entries that are for records are those with members. -/
theorem key?_eq_none_iff (kind : String) : EntryKind.key? kind = none ↔ kind ∉ memberKinds := by
  unfold EntryKind.key? memberKinds
  split <;> simp_all

theorem blames_readBody (tag : Tag) (complete : Bool) (edges : List BaseEdge) :
    Blames (e.readBody tag complete edges) e.kindDefects := by
  unfold readBody kindDefects
  cases hkey : EntryKind.key? e.kind with
  | some key =>
    have hm : e.kind ∈ memberKinds := by
      refine Decidable.byContradiction fun hm => ?_
      rw [(key?_eq_none_iff e.kind).2 hm] at hkey
      cases hkey
    rw [if_pos hm]
    exact (Blames.mapM blames_readMember e.symbols).map fun members =>
      TypeBody.aggregate key tag complete members (if key = .classKey then edges else [])
  | none =>
    rw [if_neg ((key?_eq_none_iff e.kind).1 hkey)]
    dsimp only
    by_cases hf : e.kind = EntryKind.function
    · rw [hf]
      exact (e.blames_flag "is_variadic").map (TypeBody.function (e.typeRef "return_type") e.params)
    by_cases ha : e.kind = EntryKind.array
    · rw [ha]
      exact e.blames_readArraySize.map fun size => TypeBody.array size (e.typeRef "element_type")
    -- the other kinds ask for nothing that could be wrong
    · have hnone : (if e.kind = "functionType" then e.flagDefects "is_variadic"
          else if e.kind = "arrayType" then
            defect IsArraySize .invalidArraySize (e.attributes.get? "array_size")
          else []) = [] := (if_neg hf).trans (if_neg ha)
      rw [hnone, if_neg hf, if_neg ha]
      split
      · exact blames_ok _
      split
      · exact blames_ok _
      split
      · exact blames_ok _
      · exact blames_ok _

theorem blames_readQualifiers : Blames e.readQualifiers
    (e.flagDefects "is_const" ++ e.flagDefects "is_volatile" ++ e.flagDefects "is_restrict") := by
  rw [List.append_assoc]
  exact (e.blames_flag _).bind fun isConst _ => (e.blames_flag _).bind fun isVolatile _ =>
    (e.blames_flag _).map fun isRestrict => (⟨isConst, isVolatile, isRestrict⟩ : Qualifiers)

/-- **An entry is refused for the first of its `defects`,** and read if it has none. -/
theorem blames_readRecord (tag : Tag) : Blames (e.readRecord tag) e.defects := by
  unfold readRecord defects
  rw [List.append_assoc, List.append_assoc]
  refine e.blames_readQualifiers.bind fun quals _ => ?_
  refine (Blames.mapM blames_readEdge e.bases).bind fun edges _ => ?_
  refine (e.blames_flag "is_complete").bind fun stated _ => ?_
  exact (e.blames_readBody tag _ edges).map fun body =>
    ((⟨e.type, quals, body⟩ : TypeRecord), edges)

end Entry

end Readings

/-! ## 3. Lists of entries -/

namespace Environment

variable (env : Environment)

/-- A list of entries ends with the first of all their `defects`. -/
theorem fault_add (es : List Entry) (k : Naming) :
    (env.add es k).1.2 = (es.flatMap Entry.defects).head? := by
  induction es generalizing env k with
  | nil => rfl
  | cons e es ih =>
    have hread := e.blames_readRecord (k.tagEntry e).1
    rw [add_cons, List.flatMap_cons, List.head?_append]
    cases hr : e.readRecord (k.tagEntry e).1 with
    | ok v =>
      rw [hread.eq_nil_iff.2 ⟨v, hr⟩]
      exact ih _ _
    | error f =>
      rw [hr] at hread
      rw [hread.head?_eq]
      rfl

/-- Entries with nothing wrong are all added. -/
theorem fault_add_of_wellFormed {es : List Entry} (h : ∀ e ∈ es, ¬ e.Malformed) (k : Naming) :
    (env.add es k).1.2 = none := by
  have hnone : es.flatMap Entry.defects = [] := List.flatMap_eq_nil_iff.2 fun e he =>
    Decidable.byContradiction fun hne => h e he (Entry.defects_ne_nil_iff.1 hne)
  rw [fault_add, hnone]
  rfl

/-- **A list of entries is refused exactly if something is wrong with one of them**
(`Entry.Malformed`). The fault is the first of the `Entry.defects` of the first such entry. The
environment is that of the entries in front of it: it has their records and bases, in their order,
and nothing of the faulty entry or of those behind it. -/
theorem add_stops_iff (es : List Entry) (k : Naming) :
    ((∃ f, (env.add es k).1.2 = some f) ↔ ∃ e ∈ es, e.Malformed) ∧
      ∀ front e behind, es = front ++ e :: behind → (∀ d ∈ front, ¬ d.Malformed) → e.Malformed →
        (∃ f, (env.add es k).1.2 = some f ∧ e.defects.head? = some f) ∧
        (env.add front k).1.2 = none ∧ (env.add es k).1.1 = (env.add front k).1.1 := by
  constructor
  · rw [← Option.isSome_iff_exists, fault_add, List.isSome_head?]
    simp only [← Entry.defects_ne_nil_iff, ← flatMap_ne_nil_iff, ne_eq]
  · rintro front e behind rfl hfront he
    have hnone := env.fault_add_of_wellFormed hfront k
    obtain ⟨f, hf⟩ : ∃ f, e.defects.head? = some f := by
      cases hd : e.defects with
      | nil => exact absurd hd (Entry.defects_ne_nil_iff.2 he)
      | cons f ds => exact ⟨f, rfl⟩
    -- the list goes on from what the entries in front have made, and stops at once
    rw [add_append]
    rcases hadd : env.add front k with ⟨⟨base, fault⟩, k'⟩
    rw [hadd] at hnone
    obtain rfl : fault = none := hnone
    have hread := e.blames_readRecord (k'.tagEntry e).1
    dsimp only
    rw [add_cons]
    cases hr : e.readRecord (k'.tagEntry e).1 with
    | ok v => exact absurd (hread.eq_nil_iff.2 ⟨v, hr⟩) (Entry.defects_ne_nil_iff.2 he)
    | error g =>
      rw [hr] at hread
      exact ⟨⟨g, rfl, hread.head?_eq⟩, rfl, rfl⟩

/-- A class and an array of it. -/
def classEntries : List Entry :=
  [{ kind := "classType", type := ⟨"Class0"⟩, attributes := .ofList [("tag", "C")] },
    { kind := "arrayType", type := ⟨"Array0"⟩,
      attributes := .ofList [("array_size", "+8"), ("element_type", "Class0")] }]

/-- The class once more. Wrong are its completeness, the virtual flag of its base, and the access
and the width of its member. -/
def faultyClass : Entry where
  kind := "classType"
  type := ⟨"Class0"⟩
  attributes := .ofList [("is_complete", "maybe")]
  symbols := [{ type := ⟨"int"⟩, access := some "secret", bitField := some "4294967296" }]
  bases := [⟨"public", ⟨"Class1"⟩, some "yes"⟩]

/-- An array whose size is no number. -/
def faultyArray : Entry where
  kind := "arrayType"
  type := ⟨"Array1"⟩
  attributes := .ofList [("array_size", "-1")]

/-- The base of the class counts, and the class that was there before stays. -/
theorem add_stops_class :
    (initial.add (classEntries ++ faultyClass :: [faultyArray]) {}).1.2 =
        some (.invalidFlag "is_virtual" "yes") ∧
      (initial.add (classEntries ++ faultyClass :: [faultyArray]) {}).1.1 =
        (initial.add classEntries {}).1.1 ∧
      faultyClass.defects.length = 4 ∧ faultyArray.Malformed := by
  have hfront : ∀ d ∈ classEntries, ¬ d.Malformed := by decide +kernel
  have hclass : faultyClass.Malformed := by decide +kernel
  have hfirst : faultyClass.defects.head? = some (.invalidFlag "is_virtual" "yes") := by
    decide +kernel
  obtain ⟨⟨f, hf, hd⟩, -, henv⟩ :=
    (add_stops_iff initial (classEntries ++ faultyClass :: [faultyArray]) {}).2
      classEntries faultyClass [faultyArray] rfl hfront hclass
  rw [hfirst] at hd
  exact ⟨hf.trans hd.symm, henv, by decide +kernel, by decide +kernel⟩

end Environment

end TypeLedger
