import TypeLedger.Proofs.Printing.Steps
import TypeLedger.Proofs.Tables.Transfer

/-!
# What the declaration of a type states

* `CType.stated`: the type that the text of a declaration has. Qualifiers of an array have gone on
  to its element, those of a function have been dropped, and ampersands side by side have run
  together.
* `Registry.declareWith_stated`: the declaration of a registered type is the written text of what it
  states. There is one lemma for each kind of type.
-/

namespace TypeLedger

/-! ## 1. Types as they are stated -/

namespace CType

/-- A pointer to the type. Behind an `&` without qualifiers, the ampersands of a reference are taken
together with it, two at a time from the left. -/
def meld (q : Qualifiers) : PointerKind → CType → CType
  | .lvalueReference, pointer ⟨false, false, false⟩ .lvalueReference t =>
    pointer q .rvalueReference t
  | .rvalueReference, pointer ⟨false, false, false⟩ .lvalueReference t =>
    pointer q .lvalueReference (pointer .none .rvalueReference t)
  | k, t => pointer q k t

mutual

/-- The type that the declaration of the type states, with the qualifiers `q` on top. -/
def stated (q : Qualifiers) : CType → CType
  | pointer p k t => meld (q.union p) k (stated .none t)
  | array p n t => array .none n (stated (q.union p) t)
  | function _ t ps v => function .none (stated .none t) (statedAll ps) v
  | t => t.withQuals (q.union t.quals)

def statedAll : List CType → List CType
  | [] => []
  | t :: ts => stated .none t :: statedAll ts

end

theorem statedAll_eq_map (ts : List CType) : statedAll ts = ts.map (stated .none) := by
  induction ts with
  | nil => rfl
  | cons t ts ih => rw [statedAll, ih]; rfl

/-- The ways in which a pointer melds with what it points at. -/
theorem meld_cases (q : Qualifiers) (k : PointerKind) (t : CType) :
    (∃ u, k = .lvalueReference ∧ t = pointer .none .lvalueReference u ∧
      meld q k t = pointer q .rvalueReference u) ∨
    (∃ u, k = .rvalueReference ∧ t = pointer .none .lvalueReference u ∧
      meld q k t = pointer q .lvalueReference (pointer .none .rvalueReference u)) ∨
    ((k.isReference = true → t.isAmpersand = false) ∧ meld q k t = pointer q k t) := by
  by_cases h : k.isReference = true ∧ t.isAmpersand = true
  · obtain ⟨hk, ht⟩ := h
    cases t with
    | pointer p j u =>
      cases j with
      | lvalueReference =>
        obtain rfl := (Qualifiers.isEmpty_iff p).1 ht
        cases k with
        | lvalueReference => exact .inl ⟨u, rfl, rfl, rfl⟩
        | rvalueReference => exact .inr (.inl ⟨u, rfl, rfl, rfl⟩)
        | _ => cases hk
      | _ => cases ht
    | _ => cases ht
  · have hno : k.isReference = true → t.isAmpersand = false := fun hk =>
      Bool.eq_false_iff.2 fun ht => h ⟨hk, ht⟩
    refine .inr (.inr ⟨hno, ?_⟩)
    unfold meld
    split
    · cases hno rfl
    · cases hno rfl
    · rfl

/-- What melds is no reference to an `&`. -/
theorem Legible.meld {r : RecordId → Prop} {e : EnumId → Prop} {q : Qualifiers} {k : PointerKind}
    {t : CType} (ht : t.Legible r e) (hk : k ≠ .member) : (CType.meld q k t).Legible r e := by
  rcases meld_cases q k t with ⟨u, rfl, rfl, hm⟩ | ⟨u, rfl, rfl, hm⟩ | ⟨href, hm⟩
  · rw [hm]
    cases ht with
    | pointer _ hu hlegible => exact .pointer (by decide) (fun _ => hu rfl) hlegible
  · rw [hm]
    cases ht with
    | pointer _ hu hlegible =>
      exact .pointer (by decide) (fun _ => rfl) (.pointer (by decide) (fun _ => hu rfl) hlegible)
  · rw [hm]
    exact .pointer hk href ht

mutual

/-- Somewhere in the type there is `_Complex`, whose declaration is incomplete. -/
def hasComplex : CType → Bool
  | complex .. => true
  | pointer _ _ t | array _ _ t | synonym _ _ t | vector _ _ t => t.hasComplex
  | function _ t ps _ => t.hasComplex || anyComplex ps
  | _ => false

def anyComplex : List CType → Bool
  | [] => false
  | t :: ts => t.hasComplex || anyComplex ts

end

theorem anyComplex_eq_any (ts : List CType) : anyComplex ts = ts.any hasComplex := by
  induction ts with
  | nil => rfl
  | cons t ts ih => rw [anyComplex, ih, List.any_cons]

theorem hasSugar_meld (q : Qualifiers) (k : PointerKind) (t : CType) :
    (meld q k t).hasSugar = t.hasSugar := by
  rcases meld_cases q k t with ⟨u, -, rfl, hm⟩ | ⟨u, -, rfl, hm⟩ | ⟨-, hm⟩ <;> rw [hm] <;> rfl

variable {V : Vocabulary} {ctx : Context}

/-- What the declaration of a canonical type states is canonical. -/
theorem Spelt.hasSugar_stated {t : CType} (h : t.Spelt V ctx) (hs : t.hasSugar = false) :
    ∀ q, (t.stated q).hasSugar = false := by
  induction h with
  | builtin _ | record _ | enumeration _ => exact fun _ => rfl
  | pointer _ _ ih => exact fun q => (hasSugar_meld _ _ _).trans (ih hs .none)
  | array _ ih => exact fun q => ih hs _
  | @function p t ps v _ _ ih ihs =>
    intro q
    simp only [hasSugar, anySugar_eq_any, Bool.or_eq_false_iff, List.any_eq_false] at hs
    rw [stated, hasSugar, ih hs.1, Bool.false_or, statedAll_eq_map, anySugar_eq_any, List.any_map,
      List.any_eq_false]
    intro c hc
    rw [Function.comp_apply, ihs c hc (by simpa using hs.2 c hc)]
    decide
  | synonym _ _ => cases hs
  | complex _ _ _ => exact fun _ => hs

theorem Spelt.desugar_stated {t : CType} (h : t.Spelt V ctx) :
    (t.desugar.stated .none).desugar = t.desugar.stated .none :=
  desugar_of_not_hasSugar _ (h.desugar.hasSugar_stated (hasSugar_desugar _) .none)

/-- A writable type is what its declaration states. -/
theorem Writable.stated_eq {r : RecordId → Prop} {e : EnumId → Prop} {t : CType}
    (h : t.Writable r e) : t.stated .none = t := by
  induction h with
  | builtin _ | record _ | enumeration _ => rfl
  | @pointer q k t hk href _ ih =>
    rw [stated, ih, Qualifiers.none_union]
    rcases meld_cases q k t with ⟨u, rfl, rfl, -⟩ | ⟨u, rfl, rfl, -⟩ | ⟨-, hm⟩
    · cases href rfl
    · cases href rfl
    · exact hm
  | array _ ih => rw [stated, Qualifiers.none_union, ih]
  | function _ _ _ ih ihs =>
    rw [stated, ih, statedAll_eq_map, List.map_congr_left ihs, List.map_id']

theorem isTight_stated (t : CType) (q : Qualifiers) : (t.stated q).isTight = t.isTight := by
  cases t with
  | pointer p k t =>
    rcases meld_cases (q.union p) k (t.stated .none) with
      ⟨u, -, -, hm⟩ | ⟨u, -, -, hm⟩ | ⟨-, hm⟩ <;>
      rw [stated, hm] <;> rfl
  | _ => rfl

/-- Qualifiers on top of a type are as good as its own. -/
theorem stated_withQuals (t : CType) (q : Qualifiers) :
    (t.withQuals (q.union t.quals)).stated .none = t.stated q := by
  cases t <;> simp [stated, withQuals, quals, Qualifiers.none_union]

end CType

/-! ## 2. Ampersands in a text -/

/-- A sigil in front of a name. -/
def enclosed (sigil : String) (q : Qualifiers) (name : String) : String :=
  if q.isEmpty then sigil ++ name else Fragment.beside (sigil ++ q.spelling) name

theorem append_enclosed (s : String) {sigil : String} (hs : sigil ≠ "") (q : Qualifiers)
    (name : String) : s ++ enclosed sigil q name = enclosed (s ++ sigil) q name := by
  have hne : ∀ t u : String, t ≠ "" → (t ++ u).isEmpty = false := fun t u ht => by
    rw [Bool.eq_false_iff, ne_eq, String.isEmpty_iff, String.append_eq_empty_iff]
    exact fun h => ht h.1
  have hs' : s ++ sigil ≠ "" := by
    rw [ne_eq, String.append_eq_empty_iff]
    exact fun h => hs h.2
  unfold enclosed Fragment.beside
  rw [hne sigil q.spelling hs, hne (s ++ sigil) q.spelling hs']
  cases q.isEmpty <;> cases name.isEmpty <;> simp [String.append_assoc]

/-- An `&` in front of a reference is written as the ampersands that it melds to. -/
theorem written_meld (l : Labels) (q : Qualifiers) (k : PointerKind) (t : CType) (name : String) :
    (CType.meld q k t).written l name = (CType.pointer q k t).written l name := by
  have hamp : ∀ kind : PointerKind, kind.isReference = true → ∀ tight,
      pointerText tight .lvalueReference .none (pointerText false kind q name) =
        if tight then "(" ++ enclosed ("&" ++ kind.sigil) q name ++ ")"
        else enclosed ("&" ++ kind.sigil) q name := by
    intro kind hk tight
    rw [← append_enclosed "&" (by cases kind <;> decide) q name]
    cases tight <;> rfl
  rcases CType.meld_cases q k t with ⟨u, rfl, rfl, hm⟩ | ⟨u, rfl, rfl, hm⟩ | ⟨-, hm⟩
  · rw [hm]
    show u.written l (pointerText u.isTight .rvalueReference q name) =
      u.written l (pointerText u.isTight .lvalueReference .none
        (pointerText false .lvalueReference q name))
    rw [hamp _ rfl]
    rfl
  · rw [hm]
    show u.written l (pointerText u.isTight .rvalueReference .none
        (pointerText false .lvalueReference q name)) =
      u.written l (pointerText u.isTight .lvalueReference .none
        (pointerText false .rvalueReference q name))
    rw [hamp _ rfl]
    have hsplit : pointerText u.isTight .rvalueReference .none
        (pointerText false .lvalueReference q name) =
          if u.isTight then "(" ++ ("&&" ++ enclosed "&" q name) ++ ")"
          else "&&" ++ enclosed "&" q name := by
      cases u.isTight <;> rfl
    rw [hsplit, append_enclosed "&&" (by decide) q name]
    rfl
  · rw [hm]

/-! ## 3. The declaration of a registered type -/

namespace Registry

variable {V : Vocabulary} {r : Registry} {env : Environment} {tagOf : TypeId → Tag} {k₀ : Naming}
  {t : CType} {q : Qualifiers}

/-- Wherever the way is clear for the type, its declaration is the written text of what the type
states, with the names given in the end. -/
def States (r : Registry) (env : Environment) (t : CType) : Prop :=
  ∀ q path, r.Clear path t.rank → ∀ name, Tells (env.declareWith path q (r.ledger.idOf t) name)
    fun K => (t.stated q).written (r.labels env K) name

/-- Wherever the way is clear for the type without its qualifiers, its declaration with others is
the written text of what the type with these states. -/
def StatesBare (r : Registry) (env : Environment) (t : CType) : Prop :=
  ∀ q path, r.Clear path (2 * t.nodes) → ∀ name,
    Tells (env.declareWith path q (r.ledger.idOf t.unqualified) name)
      fun K => ((t.withQuals q).stated .none).written (r.labels env K) name

section

variable (hp : r.Plain) (hl : r.Loaded env tagOf k₀)

include hp hl

theorem states_of_bare (h : r.SpeltIn V t) (hb : r.StatesBare env t) : r.States env t := by
  intro q path hc name
  obtain ⟨path', hc', hd⟩ := h.declareWith_unqualified hp.kept hl.toShows q hc
  rw [hd name, ← t.stated_withQuals q]
  exact hb _ _ hc' name

theorem statesBare_builtin {s : String} (h : r.SpeltIn V (.builtin q s)) :
    r.StatesBare env (.builtin q s) := by
  intro p path hc name
  rw [h.declareWith_builtin hp.kept hl.toShows p hc name]
  exact tells_pure _

theorem statesBare_record {id : RecordId} (h : r.SpeltIn V (.record q id)) :
    r.StatesBare env (.record q id) := by
  intro p path hc name
  obtain ⟨row, -, d, -, -, hlabel, hdeclare⟩ := h.declareWith_record hp.kept hl.toShows
  refine hdeclare p hc name ▸ (Environment.taggedDeclaration_tells _ _).congr fun K => ?_
  show _ = (CType.record p id).written (r.labels env K) name
  rw [CType.written, labels_record, hlabel]

theorem statesBare_enumeration {id : EnumId} (h : r.SpeltIn V (.enumeration q id)) :
    r.StatesBare env (.enumeration q id) := by
  intro p path hc name
  obtain ⟨row, -, -, hlabel, hdeclare⟩ := h.declareWith_enumeration hp.kept hl.toShows
  refine hdeclare p hc name ▸ (Environment.taggedDeclaration_tells _ _).congr fun K => ?_
  show _ = (CType.enumeration p id).written (r.labels env K) name
  rw [CType.written, labels_enumeration, hlabel]

theorem statesBare_complex (h : r.SpeltIn V (.complex q t)) :
    r.StatesBare env (.complex q t) := by
  intro p path hc name
  rw [h.declareWith_complex hp.kept hl.toShows p hc name]
  exact tells_pure _

theorem statesBare_pointer {k : PointerKind} (h : r.SpeltIn V (.pointer q k t))
    (ht : r.States env t) : r.StatesBare env (.pointer q k t) := by
  intro p path hc name
  obtain ⟨path', hc', hstep⟩ := h.declareWith_pointer hp.kept hl.toShows p hc
  rw [hstep]
  refine (ht .none _ hc' _).congr fun K => ?_
  show _ = (CType.meld (Qualifiers.none.union p) k (t.stated .none)).written _ _
  rw [written_meld, Qualifiers.none_union, CType.written, CType.isTight_stated]

theorem statesBare_array {n : ArraySize} (h : r.SpeltIn V (.array q n t))
    (ht : r.States env t) : r.StatesBare env (.array q n t) := by
  intro p path hc name
  obtain ⟨path', hc', hstep⟩ := h.declareWith_array hp.kept hl.toShows p hc
  rw [hstep]
  refine (ht p _ hc' _).congr fun K => ?_
  show _ = (CType.array .none n (t.stated (Qualifiers.none.union p))).written _ _
  rw [Qualifiers.none_union, CType.written]

theorem statesBare_function {ps : List CType} {v : Bool} (h : r.SpeltIn V (.function q t ps v))
    (ht : r.States env t) (hps : ∀ p ∈ ps, r.States env p) :
    r.StatesBare env (.function q t ps v) := by
  intro p path hc name
  obtain ⟨path', hc', hcs, hstep⟩ := h.declareWith_function hp.kept hl.toShows p hc
  have hparams : Tells (env.declareParams path' (ps.map fun p => ⟨r.ledger.idOf p, none⟩))
      fun K => CType.writtenAll (r.labels env K) (CType.statedAll ps) := by
    refine Tells.congr (Environment.declareParams_tells fun p hm =>
      hps p hm .none _ (hcs p hm) "") fun K => ?_
    rw [CType.writtenAll_eq_map, CType.statedAll_eq_map, List.map_map]
    rfl
  rw [hstep]
  exact tells_bind hparams fun texts => ht .none _ hc' _

/-- **The declaration of a registered type is the written text of what the type states** (`States`).
The induction is on the type; the way of the declaration stays clear because every step goes to a
type of a lower rank. -/
theorem declareWith_stated (h : r.SpeltIn V t) : r.States env t := by
  obtain ⟨hs, hc, hk⟩ := h
  induction hs with
  | builtin hs =>
    have h : r.SpeltIn V (.builtin _ _) := ⟨.builtin hs, hc, hk⟩
    exact states_of_bare hp hl h (statesBare_builtin hp hl h)
  | record hid =>
    have h : r.SpeltIn V (.record _ _) := ⟨.record hid, hc, hk⟩
    exact states_of_bare hp hl h (statesBare_record hp hl h)
  | enumeration hid =>
    have h : r.SpeltIn V (.enumeration _ _) := ⟨.enumeration hid, hc, hk⟩
    exact states_of_bare hp hl h (statesBare_enumeration hp hl h)
  | pointer hkind ht ih =>
    have h : r.SpeltIn V (.pointer _ _ _) := ⟨.pointer hkind ht, hc, hk⟩
    have hpt := h.pointee hp.kept hl.toShows
    exact states_of_bare hp hl h (statesBare_pointer hp hl h (ih hpt.canonical hpt.known))
  | array ht ih =>
    have h : r.SpeltIn V (.array _ _ _) := ⟨.array ht, hc, hk⟩
    have hel := h.element hp.kept hl.toShows
    exact states_of_bare hp hl h (statesBare_array hp hl h (ih hel.canonical hel.known))
  | function ht hps ih ihs =>
    have h : r.SpeltIn V (.function _ _ _ _) := ⟨.function ht hps, hc, hk⟩
    obtain ⟨hst, hsps⟩ := h.signature hp.kept hl.toShows
    exact states_of_bare hp hl h (statesBare_function hp hl h (ih hst.canonical hst.known)
      fun p hm => ihs p hm (hsps p hm).canonical (hsps p hm).known)
  | synonym _ _ => cases hc
  | complex hV ht _ =>
    have h : r.SpeltIn V (.complex _ _) := ⟨.complex hV ht, hc, hk⟩
    exact states_of_bare hp hl h (statesBare_complex hp hl h)

end

end Registry

end TypeLedger
