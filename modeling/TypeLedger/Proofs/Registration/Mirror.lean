import TypeLedger.Proofs.Registration.Stocked
import Mathlib.Data.List.Forall2

/-!
# Records mirror types

* `Registry.Mirrors`: a record says of a type what the outermost node of the type says, with
  identifiers in the place of the types that stand in it.
* `Ledger.Within`: whatever is registered lies in a set that is closed under components.
* `Registry.Kept.record_of_known`: the record of a known type mirrors its canonical form.
* `Registry.records_mirror`: so does what a `Registry.Stocked` has stored behind any sequence of
  registrations; and no stored record leads to an identifier without one.
-/

namespace TypeLedger

namespace Registry

/-! ## 1. Mirrors -/

/-- The identifier stands for the type: the type is registered under it, or it is the null
identifier and the type is the absence of a type. -/
def Refers (r : Registry) (t : CType) (id : TypeId) : Prop :=
  if t.isNull then id = .null else r.lookup? t = some id

structure ParamMirrors (r : Registry) (t : CType) (p : Param) : Prop where
  type : r.Refers t p.type
  name : p.name = none

structure MemberMirrors (r : Registry) (d : MemberDecl) (m : Member) : Prop where
  name : m.name = d.name
  type : r.Refers d.type m.type
  access : m.access = d.access
  bitWidth : m.bitWidth = d.bitWidth

structure BaseMirrors (r : Registry) (d : BaseDecl) (e : BaseEdge) : Prop where
  base : r.Refers d.type e.base
  access : e.access = d.access
  isVirtual : e.isVirtual = d.isVirtual

/-- What the record under an identifier says is what the outermost node of its type says. The bases
`bs` of every struct, union and class are stated beside the records; that of a class holds them
too. -/
inductive Mirrors (r : Registry) (bs : List BaseEdge) : Shape → TypeBody → Prop
  | fundamental {s : String} (hf : Fundamental.isFundamental (Fundamental.idOfSpelling s) = true) :
    Mirrors r bs (.builtin s) (.reserved s)
  | builtin {s : String} (hf : Fundamental.isFundamental (Fundamental.idOfSpelling s) = false) :
    Mirrors r bs (.builtin s) (.other s)
  | pointer {k : PointerKind} {t : CType} {p : TypeId} (hp : r.Refers t p) :
    Mirrors r bs (.pointer k t) (.pointer k p)
  | array {n : ArraySize} {t : CType} {e : TypeId} (he : r.Refers t e) :
    Mirrors r bs (.array n t) (.array n e)
  | function {t : CType} {ts : List CType} {v : Bool} {p : TypeId} {ps : List Param}
    (hp : r.Refers t p) (hps : List.Forall₂ r.ParamMirrors ts ps) :
    Mirrors r bs (.function t ts v) (.function p ps v)
  | record {d : RecordDecl} {tag : Tag} {ms : List Member} (ht : Ledger.TagFits d.name tag)
    (hms : List.Forall₂ r.MemberMirrors (d.members.getD []) ms)
    (hbs : List.Forall₂ r.BaseMirrors d.bases bs) :
    Mirrors r bs (.record d) (.aggregate d.key tag d.isComplete ms
      (if d.key = .classKey then bs else []))
  | enumeration {name : Option String} {tag : Tag} (ht : Ledger.TagFits name tag) :
    Mirrors r bs (.enumeration name) (.enumeration tag)
  | other {sort words : String} : Mirrors r bs (.other sort words) (.other words)

/-- The record mirrors a canonical type: it has the type's qualifiers, and stands for the type
without them if there are some. Beside the records the bases `bs` are stated of the type. -/
structure RecordMirrors (r : Registry) (bs : List BaseEdge) (t : CType) (id : TypeId)
    (record : TypeRecord) : Prop where
  id_eq : record.id = id
  quals : record.quals = t.quals
  plain : t.quals.isEmpty = true → r.Mirrors bs (r.context.classify t) record.body
  qualified : t.quals.isEmpty = false →
    ∃ base, record.body = .qualified base ∧ r.Refers t.unqualified base

end Registry

/-! ## 2. What can be registered -/

namespace Context

theorem closure_mono {ctx : Context} {ss ts : List CType} (h : ss ⊆ ts) :
    ctx.closure ss ⊆ ctx.closure ts := by
  intro t ht
  obtain ⟨s, hs, hts⟩ := List.mem_flatMap.1 ht
  refine List.mem_flatMap.2 ⟨s, ?_, hts⟩
  rcases List.mem_append.1 hs with hs | hs
  · exact List.mem_append_left _ (h hs)
  · exact List.mem_append_right _ hs

/-- Builtin types that the types or the records of the context lead to (`closure`) are spelt as the
table of fundamental types spells them, if they have the identifier of one. -/
def SpeltAsListed (ctx : Context) (ts : List CType) : Prop :=
  ∀ t ∈ ctx.closure ts, t.Proper

end Context

namespace Ledger

variable {ctx : Context} {detail : Detail} {l : Ledger} {u : List CType}

/-- All that the ledger knows lies in `u`. -/
structure Within (u : List CType) (l : Ledger) : Prop where
  memo : ∀ t id, l.memo.lookup t = some id → t.desugar ∈ u
  spelt : ∀ p ∈ l.fundamentals, CType.builtin .none p.2 ∈ u

theorem Within.congr {l' : Ledger} (h : l.Within u) (hm : l'.memo = l.memo)
    (hf : l'.fundamentals = l.fundamentals) : l'.Within u :=
  ⟨by rw [hm]; exact h.memo, by rw [hf]; exact h.spelt⟩

theorem Within.memo_of_set {l' : Ledger} {t : CType} {id : TypeId} (h : l.Within u)
    (hm : l'.memo = Keyed.set t id l.memo) (ht : t.desugar ∈ u) {s : CType} {i : TypeId}
    (hs : l'.memo.lookup s = some i) : s.desugar ∈ u := by
  rcases lookup_of_set hm hs with ⟨rfl, -⟩ | ⟨-, hs⟩
  · exact ht
  · exact h.memo s i hs

theorem Within.enterSynonym {t : CType} (h : l.Within u) (ht : t.desugar ∈ u) :
    (l.enterSynonym ctx detail t).Within u := by
  have hf : (l.enterSynonym ctx detail t).fundamentals = l.fundamentals := fundamentals_note _ _ _
  refine ⟨fun s i hs => h.memo_of_set (memo_enterSynonym ctx detail t l) ht hs, ?_⟩
  rw [hf]
  exact h.spelt

theorem Within.enter {t : CType} (h : l.Within u) (ht : t.desugar ∈ u) :
    (l.enter ctx detail t).Within u := by
  obtain ⟨id, hid⟩ := memo_enter ctx detail t l
  refine ⟨fun s i hs => h.memo_of_set hid ht hs, fun p hp => ?_⟩
  unfold Ledger.enter at hp
  split at hp
  · rw [fundamentals_enterRow] at hp
    exact h.spelt p hp
  · rename_i hc
    obtain ⟨s, rfl, -⟩ := builtin_of_category?_eq_none hc
    rw [fundamentals_enterFundamental] at hp
    split at hp
    · exact h.spelt p hp
    · rcases List.mem_append.1 hp with hp | hp
      · exact h.spelt p hp
      · rw [List.mem_singleton] at hp
        subst hp
        exact ht

/-- A run stays `Within` a set that holds the closure of the types it is about. -/
theorem Within.settle {ts : List CType} {tasks : List Task}
    (covered : Covered (ctx.closure ts) tasks) (hu : ∀ t ∈ ctx.closure ts, t ∈ u)
    (hc : ∀ t, Task.conclude t ∈ tasks → t.desugar ∈ u) (h : l.Within u) :
    (l.settle ctx detail ts tasks covered).Within u := by
  fun_induction Ledger.settle ctx detail ts tasks covered l with
  | case1 l => exact h
  | case2 l t tasks _ _ ih =>
    have ht : t.desugar ∈ u := hc t List.mem_cons_self
    exact ih (fun s hs => hc s (List.mem_cons_of_mem _ hs)) (h.enterSynonym ht)
  | case3 l t tasks _ hn _ ih =>
    exact ih (fun s hs => hc s (List.mem_cons_of_mem _ hs)) h
  | case4 l t tasks _ hn id hl _ ih =>
    exact ih (fun s hs => hc s (List.mem_cons_of_mem _ hs))
      (h.congr (memo_note _ _ _) (fundamentals_note _ _ _))
  | case5 l t tasks hcov hn hl hs _ ih =>
    refine ih (fun s hs => ?_) h
    simp only [List.mem_cons, reduceCtorEq, Task.conclude.injEq, false_or] at hs
    rcases hs with rfl | hs
    · exact hu _ (hcov s List.mem_cons_self)
    · exact hc s (List.mem_cons_of_mem _ hs)
  | case6 l t tasks hcov hn hl hs _ ih =>
    refine ih (fun s hs => ?_) (h.enter (hu _ (hcov t List.mem_cons_self)))
    rcases List.mem_append.1 hs with hs | hs
    · obtain ⟨c, -, hc⟩ := List.mem_map.1 hs
      cases hc
    · exact hc s (List.mem_cons_of_mem _ hs)

theorem Within.register {t : CType} (hu : ∀ s ∈ ctx.closure [t], s ∈ u) (h : l.Within u) :
    (l.register ctx detail t).Within u := by
  refine Within.settle _ hu (fun s hs => ?_) h
  rw [List.mem_singleton] at hs
  cases hs

end Ledger

/-! ## 3. The record of a known type -/

namespace Registry

variable {r : Registry}

theorem Kept.refers_idOf (h : r.Kept) {t : CType} (hk : r.ledger.Known t) :
    r.Refers t (r.ledger.idOf t) := by
  unfold Refers
  split
  · rename_i hn
    exact Ledger.idOf_of_isNull h.sound.not_null hn
  · rename_i hn
    exact hk.lookup (by simpa using hn)

theorem forall₂_map {α β : Type} {R : α → β → Prop} {f : α → β} {as : List α}
    (h : ∀ a ∈ as, R a (f a)) : List.Forall₂ R as (as.map f) :=
  List.forall₂_map_right_iff.2 (List.forall₂_same.2 h)

/-- The `bases` of a row, as long as none has been stated on top of those declared. -/
theorem Kept.bases_eq (h : r.Kept) (ha : r.added = {}) {row : Row} (hm : row ∈ r.ledger.rows) :
    r.bases row.id = r.declaredIn row := by
  have hadd : r.added.bases row.id = [] := by rw [ha]; rfl
  rw [bases, hadd, List.append_nil, declaredBases, h.row?_of_mem hm]
  rfl

/-- **What the record of a row says is what its type says** (`Mirrors`). -/
theorem Kept.mirrors_body (h : r.Kept) (ha : r.added = {}) {row : Row}
    (hm : row ∈ r.ledger.rows) (hq : row.type.quals.isEmpty = true) :
    r.Mirrors (r.bases row.id) (r.context.classify row.type) (r.body row) := by
  have hb := h.bases_eq ha hm
  have hcl : ∀ c ∈ r.context.components row.type, r.Refers c (r.ledger.idOf c) :=
    fun c hc => h.refers_idOf (h.closed row hm c hc)
  have htag := h.sound.row_tag row hm
  have hcat := h.sound.row_category row hm
  unfold body
  unfold declaredIn at hb
  unfold Context.components at hcl
  unfold Context.tagName? at htag
  unfold Context.category? at hcat
  rw [if_pos hq] at hb hcl htag hcat ⊢
  cases hs : r.context.classify row.type with
  | builtin s =>
    simp only [hs] at hcat
    split at hcat
    · cases hcat
    · rename_i hf
      exact .builtin (by simpa using hf)
  | pointer k t => exact .pointer (hcl t (by simp [hs]))
  | array n t => exact .array (hcl t (by simp [hs]))
  | function t ps v =>
    refine .function (hcl t (by simp [hs])) (forall₂_map fun p hp => ⟨hcl p ?_, rfl⟩)
    simp [hs, hp]
  | record d =>
    simp only [hs] at hcl htag hb
    cases htg : row.tag with
    | none => rw [htg] at htag; cases htag
    | some tag =>
      rw [htg] at htag
      refine .record htag (forall₂_map fun m hmem => ⟨rfl, hcl _ ?_, rfl, rfl⟩) ?_
      · exact List.mem_append_left _ (List.mem_map_of_mem hmem)
      · rw [hb]
        refine forall₂_map fun b hmem => ⟨hcl _ ?_, rfl, rfl⟩
        exact List.mem_append_right _ (List.mem_map_of_mem hmem)
  | enumeration name =>
    simp only [hs] at htag
    cases htg : row.tag with
    | none => rw [htg] at htag; cases htag
    | some tag =>
      rw [htg] at htag
      exact .enumeration htag
  | other sort words => exact .other

/-- The record of a row mirrors the type of the row. -/
theorem Kept.recordMirrors_row (h : r.Kept) (ha : r.added = {}) {row : Row}
    (hm : row ∈ r.ledger.rows) :
    r.RecordMirrors (r.bases row.id) row.type row.id (r.rowRecord row) := by
  refine ⟨rfl, rfl, h.mirrors_body ha hm, fun hq => ?_⟩
  refine ⟨r.ledger.idOf row.type.unqualified, ?_, h.refers_idOf (h.closed row hm _ ?_)⟩
  · show r.body row = _
    unfold body
    rw [hq]
    rfl
  · unfold Context.components
    rw [hq]
    exact List.mem_singleton_self _

/-- The record of a fundamental type gives the spelling of the type, if the types met so far are
spelt as the table of fundamental types spells them. -/
theorem Kept.record?_of_fundamental (h : r.Kept) {u : List CType} (hw : r.ledger.Within u)
    (hp : ∀ t ∈ u, t.Proper) {s : String} (hs : CType.builtin .none s ∈ u)
    (hf : Fundamental.isFundamental (Fundamental.idOfSpelling s) = true)
    (hk : Keyed.has (Fundamental.idOfSpelling s) r.ledger.fundamentals = true) :
    r.record? (Fundamental.idOfSpelling s) =
      some ⟨Fundamental.idOfSpelling s, .none, .reserved s⟩ := by
  have hrow : r.row? (Fundamental.idOfSpelling s) = none := by
    refine h.row?_eq_none fun c n he => ?_
    rw [← he, Fundamental.not_isFundamental_id] at hf
    cases hf
  obtain ⟨s', hl⟩ := Option.isSome_iff_exists.1 hk
  have hm : (Fundamental.idOfSpelling s, s') ∈ r.ledger.fundamentals := Keyed.mem_of_lookup hl
  have hid : Fundamental.idOfSpelling s = Fundamental.idOfSpelling s' := (h.sound.spelt _ hm).1
  have hlisted : Fundamental.Listed s := hp _ hs s rfl hf
  have hlisted' : Fundamental.Listed s' := hp _ (hw.spelt _ hm) s' rfl (hid ▸ hf)
  have hss := Fundamental.eq_of_idOfSpelling_eq hlisted hlisted' hid
  subst hss
  rw [record?, hrow, hl]
  rfl

/-- **The record of a known type mirrors its canonical form** (`RecordMirrors`). Only the absence of
a type has none. -/
theorem Kept.record_of_known (h : r.Kept) (ha : r.added = {}) {u : List CType}
    (hw : r.ledger.Within u) (hp : ∀ t ∈ u, t.Proper) {t : CType} {id : TypeId}
    (hl : r.lookup? t = some id) (hn : t.desugar.isNull = false) :
    ∃ record, r.record? id = some record ∧ r.RecordMirrors (r.bases id) t.desugar id record := by
  have hk := Ledger.known_of_lookup hl
  obtain ⟨hid, hkd⟩ := h.sound.idOf_desugar hk
  rw [Ledger.idOf_of_lookup hl] at hid
  have hst := h.sound.standing (CType.hasSugar_desugar t) hkd
  rw [← hid] at hst
  cases hst with
  | null hn' _ => rw [hn] at hn'; cases hn'
  | row row hm ht hrid =>
    subst hrid
    refine ⟨r.rowRecord row, ?_, ht ▸ h.recordMirrors_row ha hm⟩
    rw [record?, h.row?_of_mem hm]
  | fundamental s hs hsid hf hkey =>
    subst hsid
    have hsu : CType.builtin .none s ∈ u := hs ▸ hw.memo t _ hl
    refine ⟨_, h.record?_of_fundamental hw hp hsu hf hkey, ?_⟩
    rw [hs]
    exact ⟨rfl, rfl, fun _ => .fundamental hf, fun hq => by cases hq⟩

/-- A synonym of the absence of a type has the null identifier, which has no record. -/
theorem Kept.null_of_lookup (h : r.Kept) {t : CType} {id : TypeId} (hl : r.lookup? t = some id)
    (hn : t.desugar.isNull = true) : id = .null ∧ r.record? id = none := by
  have hid : id = .null := by
    rw [← Ledger.idOf_of_lookup hl, (h.sound.idOf_desugar (Ledger.known_of_lookup hl)).1]
    exact Ledger.idOf_of_isNull h.sound.not_null hn
  refine ⟨hid, ?_⟩
  subst hid
  have hrow : r.row? .null = none := h.row?_eq_none Category.id_ne_null
  cases hf : r.ledger.fundamentals.lookup .null with
  | none => rw [record?, hrow, hf]; rfl
  | some s =>
    have hfund := (h.sound.spelt _ (Keyed.mem_of_lookup hf)).2
    rw [Fundamental.not_isFundamental_null] at hfund
    cases hfund

/-- Every identifier of a `Known` type is the null identifier or has a record. -/
theorem Kept.record?_idOf (h : r.Kept) {t : CType} (hk : r.ledger.Known t) :
    r.ledger.idOf t = .null ∨ (r.record? (r.ledger.idOf t)).isSome = true := by
  obtain ⟨hid, hkd⟩ := h.sound.idOf_desugar hk
  rw [hid]
  cases h.sound.standing (CType.hasSugar_desugar t) hkd with
  | null _ hnull => exact .inl hnull
  | row row hm _ hrid =>
    refine .inr ?_
    rw [← hrid, record?, h.row?_of_mem hm]
    rfl
  | fundamental s _ _ _ hkey =>
    refine .inr ?_
    unfold record?
    split
    · rfl
    · rw [Option.isSome_map]
      exact hkey

/-- What the record of a row refers to are the identifiers of the `components` of its type. -/
theorem mem_refs_body (row : Row) (hb : r.bases row.id = r.declaredIn row) {j : TypeId}
    (hj : j ∈ (r.body row).refs ∨ j ∈ (r.bases row.id).map BaseEdge.base) :
    ∃ c ∈ r.context.components row.type, j = r.ledger.idOf c := by
  have hbases : ∀ j ∈ (r.bases row.id).map BaseEdge.base,
      ∃ c ∈ r.context.components row.type, j = r.ledger.idOf c := by
    intro j hj
    rw [hb] at hj
    unfold declaredIn at hj
    unfold Context.components
    split at hj
    · rename_i hq
      rw [if_pos hq]
      cases hs : r.context.classify row.type with
      | record d =>
        simp only [hs, List.map_map, List.mem_map, Function.comp_apply] at hj ⊢
        obtain ⟨b, hm, rfl⟩ := hj
        exact ⟨b.type, List.mem_append_right _ (List.mem_map_of_mem hm), rfl⟩
      | _ => simp [hs] at hj
    · cases hj
  rcases hj with hj | hj
  · unfold body at hj
    unfold Context.components at hbases ⊢
    split at hj
    · rename_i hq
      rw [if_pos hq] at hbases ⊢
      cases hs : r.context.classify row.type with
      | record d =>
        simp only [hs] at hj hbases ⊢
        rcases List.mem_append.1 hj with hj | hj
        · rw [List.map_map] at hj
          obtain ⟨m, hm, rfl⟩ := List.mem_map.1 hj
          exact ⟨m.type, List.mem_append_left _ (List.mem_map_of_mem hm), rfl⟩
        · split at hj
          · exact hbases j hj
          · cases hj
      | function t ps v =>
        simp only [hs, TypeBody.refs, List.mem_cons, List.map_map, List.mem_map,
          Function.comp_apply] at hj
        rcases hj with rfl | ⟨p, hp, rfl⟩
        · exact ⟨t, List.mem_cons_self, rfl⟩
        · exact ⟨p, List.mem_cons_of_mem _ hp, rfl⟩
      | _ => simp_all [TypeBody.refs]
    · rename_i hq
      rw [if_neg hq]
      rw [TypeBody.refs, List.mem_singleton] at hj
      exact ⟨_, List.mem_singleton_self _, hj⟩
  · exact hbases j hj

/-- **No record leads to an identifier without a record.** -/
theorem Kept.record?_of_ref (h : r.Kept) (ha : r.added = {}) {i j : TypeId} {record : TypeRecord}
    (hi : r.record? i = some record)
    (hj : j ∈ record.refs ∨ j ∈ (r.bases i).map BaseEdge.base) :
    j = .null ∨ (r.record? j).isSome = true := by
  unfold record? at hi
  split at hi
  · rename_i row hrow
    cases hi
    have hm : row ∈ r.ledger.rows := List.mem_of_find?_eq_some hrow
    have hid : row.id = i := by simpa using List.find?_some hrow
    subst hid
    obtain ⟨c, hc, rfl⟩ := mem_refs_body row (h.bases_eq ha hm) hj
    exact h.record?_idOf (h.closed row hm c hc)
  · rename_i hrow
    obtain ⟨s, -, rfl⟩ := Option.map_eq_some_iff.1 hi
    have hb : r.bases i = [] := by
      rw [bases, declaredBases, hrow, ha]
      rfl
    rw [hb] at hj
    rcases hj with hj | hj <;> cases hj

/-! ## 4. Behind a sequence of registrations -/

theorem added_after (r : Registry) (ts : List CType) :
    (r.after (ts.map .register)).added = r.added := by
  induction ts generalizing r with
  | nil => rfl
  | cons t ts ih => exact ih (r.register t).2

theorem within_after {u : List CType} (ts : List CType) :
    ∀ {r : Registry}, (∀ t ∈ r.context.closure ts, t ∈ u) → r.ledger.Within u →
      (r.after (ts.map .register)).ledger.Within u := by
  induction ts with
  | nil => intro r _ h; exact h
  | cons t ts ih =>
    intro r hu h
    refine ih (r := (r.register t).2) (fun s hs => hu s ?_) (h.register fun s hs => hu s ?_)
    · exact Context.closure_mono (List.subset_cons_self _ _) hs
    · exact Context.closure_mono (by simp) hs

/-- **Stored records mirror types behind any sequence of registrations.** A `Stocked` registry
reserves an identifier for each type first, and stores its record when what it refers to has been
met. Only what means no type at all has no record. Every other record is as `RecordMirrors` says,
and no stored record leads to an identifier without one. -/
theorem records_mirror {r : Registry} (hr : r.Fresh) (ts : List CType)
    (hs : r.context.SpeltAsListed ts) :
    let f := (Stocked.mk r {}).after (ts.map .register)
    (∀ t id, f.lookup? t = some id →
      if t.desugar.isNull then id = .null ∧ f.record? id = none
      else ∃ record, f.record? id = some record ∧
        f.registry.RecordMirrors (f.bases id) t.desugar id record) ∧
    (∀ i record, f.record? i = some record →
      ∀ j, j ∈ record.refs ∨ j ∈ (f.bases i).map BaseEdge.base →
        j = .null ∨ (f.record? j).isSome = true) := by
  intro f
  obtain ⟨hregistry, hkept⟩ := Stocked.kept_after (Stocked.kept_fresh hr) (ts.map .register)
  have hk : f.registry.Kept := hkept.registry
  have hregistry : f.registry = r.after (ts.map .register) := hregistry
  have ha : f.registry.added = {} := by rw [hregistry, added_after, hr.added]
  have hw : f.registry.ledger.Within (r.context.closure ts) := by
    rw [hregistry]
    refine within_after ts (fun t ht => ht) ⟨fun t id h => ?_, fun p hp => ?_⟩
    · rw [hr.memo] at h
      cases h
    · rw [hr.fundamentals] at hp
      cases hp
  -- what is stored is what the registry says
  have hrecord : f.record? = f.registry.record? := funext hkept.record?_eq
  have hbases : f.bases = f.registry.bases := funext hkept.bases_eq
  rw [hrecord, hbases]
  refine ⟨fun t id hid => ?_, fun i record hi j hj => hk.record?_of_ref ha hi hj⟩
  split
  · rename_i hn
    exact hk.null_of_lookup hid hn
  · rename_i hn
    exact hk.record_of_known ha hw hs hid (by simpa using hn)

/-- A node of a list: a number, and a pointer to a node. -/
def listContext : Context where
  records := [⟨.structKey, some "node",
    some [⟨some "value", .builtin .none "int", none, none⟩,
      ⟨some "next", .pointer .none .pointer (.record .none ⟨0⟩), none, none⟩], []⟩]

/-- The record of a node that points to nodes is stored, registered through a pointer to it. -/
theorem records_mirror_node :
    let f := (Stocked.mk ⟨listContext, {}, {}, none, false, .quiet⟩ {}).after
      [.register (.pointer .none .pointer (.record .none ⟨0⟩))]
    ∃ record, f.record? ⟨"Struct0"⟩ = some record ∧
      f.registry.RecordMirrors (f.bases ⟨"Struct0"⟩) (.record .none ⟨0⟩) ⟨"Struct0"⟩ record := by
  intro f
  have hspelt : listContext.SpeltAsListed [.pointer .none .pointer (.record .none ⟨0⟩)] := by
    have hc : listContext.closure [.pointer .none .pointer (.record .none ⟨0⟩)] =
        [.pointer .none .pointer (.record .none ⟨0⟩), .pointer .none .pointer (.record .none ⟨0⟩),
          .record .none ⟨0⟩, .record .none ⟨0⟩, .builtin .none "int", .builtin .none "int",
          .pointer .none .pointer (.record .none ⟨0⟩), .pointer .none .pointer (.record .none ⟨0⟩),
          .record .none ⟨0⟩, .record .none ⟨0⟩] := by
      decide
    intro t ht s hs _
    rw [hc] at ht
    subst hs
    obtain rfl : s = "int" := by simpa using ht
    decide
  have hm := (records_mirror (r := ⟨listContext, {}, {}, none, false, .quiet⟩)
    ⟨rfl, rfl, rfl, rfl, rfl⟩ _ hspelt).1 (.record .none ⟨0⟩) ⟨"Struct0"⟩
  refine hm ?_
  show ((Stocked.mk ⟨listContext, {}, {}, none, false, .quiet⟩ {}).register
    (.pointer .none .pointer (.record .none ⟨0⟩))).2.lookup? _ = _
  rw [Stocked.register_eq_of_runFor 14 rfl]
  rfl

/-- A synonym of no type is registered, under the null identifier, and there is no record. -/
theorem synonym_of_null_has_no_record :
    let f := (Stocked.mk ⟨{}, {}, {}, none, false, .quiet⟩ {}).after
      [.register (.synonym .none "X" (.null .none))]
    (CType.synonym .none "X" (.null .none)).isNull = false ∧
      f.lookup? (.synonym .none "X" (.null .none)) = some .null ∧ f.record? .null = none := by
  intro f
  have hf : f = ((Stocked.mk ⟨{}, {}, {}, none, false, .quiet⟩ {}).register
      (.synonym .none "X" (.null .none))).2 := rfl
  rw [hf, Stocked.register_eq_of_runFor 3 rfl]
  exact ⟨rfl, rfl, rfl⟩

end Registry

end TypeLedger
