import Mathlib
import TypeLedger.Proofs.Printing.Settled
import TypeLedger.Proofs.RoundTrip.Generation

/-!
# Records that refer to themselves

* `Context.record_of_component_self`: of all canonical types only a struct, union or class without
  qualifiers can be among its own components. The others are made of smaller types.
* `Kept.idOf_eq_id_iff`: an identifier in a record is the record's own exactly if the type there is
  the type of the record, under synonyms perhaps.
* `self_mem_refs_iff`: behind the registration of a source, a record refers to itself exactly if it
  is that of a struct, union or class which holds itself as a member or has itself as a base.
-/

namespace TypeLedger

/-- The record with this number has a member of its own type, or, if it is a class, itself as a
base. The types may be synonyms; a pointer, an array or a qualified form is another type. -/
def RecordDecl.HoldsItself (d : RecordDecl) (n : RecordId) : Prop :=
  (∃ m ∈ d.members.getD [], m.type.desugar = .record .none n) ∨
    (d.key = .classKey ∧ ∃ b ∈ d.bases, b.type.desugar = .record .none n)

/-! ## 1. Components -/

/-- Of a record without qualifiers, the declaration says all. -/
theorem Context.classify_record {ctx : Context} {n : RecordId} {d : RecordDecl}
    (hd : ctx.record? n = some d) :
    (CType.record .none n).quals.isEmpty = true ∧
      ctx.classify (.record .none n) = .record d := by
  rw [classify, hd]
  exact ⟨rfl, rfl⟩

/-- A canonical type that is no struct, union or class without qualifiers is made of types of a
lower rank, which are canonical too. -/
theorem Context.component_lt {ctx : Context} {t c : CType} (hs : t.hasSugar = false)
    (hn : ∀ n, t ≠ .record .none n) (hc : c ∈ ctx.components t) :
    c.hasSugar = false ∧ c.rank < t.rank := by
  unfold components at hc
  split at hc
  · rename_i hq
    have hrank : t.rank = 2 * t.nodes := by rw [CType.rank, hq]; rfl
    rw [hrank]
    cases t with
    | pointer _ _ u | array _ _ u =>
      obtain rfl := List.mem_singleton.1 hc
      exact ⟨hs, CType.rank_lt_of_nodes_lt (Nat.lt_succ_self _)⟩
    | function q u ps v =>
      rw [CType.hasSugar, Bool.or_eq_false_iff, CType.anySugar_eq_any, List.any_eq_false] at hs
      rcases List.mem_cons.1 hc with rfl | hc
      · have hlt : c.nodes < (CType.function q c ps v).nodes := by rw [CType.nodes]; omega
        exact ⟨hs.1, CType.rank_lt_of_nodes_lt hlt⟩
      · have hle := CType.nodes_le_nodesAll hc
        have hlt : c.nodes < (CType.function q u ps v).nodes := by rw [CType.nodes]; omega
        exact ⟨by simpa using hs.2 c hc, CType.rank_lt_of_nodes_lt hlt⟩
    | record q n =>
      rw [CType.quals, Qualifiers.isEmpty_iff] at hq
      exact absurd (hq ▸ rfl) (hn n)
    | _ => cases hc
  · rename_i hq
    obtain rfl := List.mem_singleton.1 hc
    rw [Bool.not_eq_true] at hq
    refine ⟨by rw [CType.unqualified, CType.hasSugar_withQuals, hs], ?_⟩
    rw [CType.rank_unqualified, CType.rank, hq]
    exact Nat.lt_succ_self _

/-- **Only a struct, union or class stands in itself.** -/
theorem Context.record_of_component_self {ctx : Context} {t c : CType} (hs : t.hasSugar = false)
    (hc : c ∈ ctx.components t) (he : c.desugar = t) :
    ∃ n d, t = .record .none n ∧ ctx.record? n = some d := by
  by_cases hn : ∀ n, t ≠ .record .none n
  · obtain ⟨hcs, hlt⟩ := component_lt hs hn hc
    rw [CType.desugar_of_not_hasSugar c hcs] at he
    rw [he] at hlt
    exact absurd hlt (Nat.lt_irrefl _)
  · obtain ⟨n, hn⟩ := Classical.not_forall.1 hn
    obtain rfl := Classical.not_not.1 hn
    cases hd : ctx.record? n with
    | some d => exact ⟨n, d, rfl, hd⟩
    | none =>
      have hempty : ctx.components (.record .none n) = [] := by
        simp [components, CType.quals, classify, hd, Qualifiers.none, Qualifiers.isEmpty]
      rw [hempty] at hc
      cases hc

namespace Registry

variable {r : Registry} {row : Row}

/-! ## 2. Rows -/

/-- **The identifier of a row is that of its type only.** -/
theorem Kept.idOf_eq_id_iff (h : r.Kept) (hm : row ∈ r.ledger.rows) {c : CType}
    (hk : r.ledger.Known c) : r.ledger.idOf c = row.id ↔ c.desugar = row.type := by
  obtain ⟨hid, hkd⟩ := h.sound.idOf_desugar hk
  rw [hid]
  constructor
  · intro he
    obtain ⟨n, hn⟩ := h.sound.id_of_mem_rows hm
    cases h.sound.standing (CType.hasSugar_desugar c) hkd with
    | null _ hnull => exact absurd (hn.symm.trans (he.symm.trans hnull)) (Category.id_ne_null _ _)
    | row row' hm' ht hid' =>
      rw [← ht, h.sound.row_unique hm' hm (hid'.trans he)]
    | fundamental s _ _ hf _ =>
      rw [he, hn, Fundamental.not_isFundamental_id] at hf
      cases hf
  · intro he
    rw [he, Ledger.idOf_of_lookup (h.sound.row_memo row hm)]

theorem body_record {n : RecordId} {d : RecordDecl} (ht : row.type = .record .none n)
    (hd : r.context.record? n = some d) :
    r.body row = .aggregate d.key (row.tag.getD (.anonymous 0)) d.isComplete
      ((d.members.getD []).map r.member) (if d.key = .classKey then r.bases row.id else []) := by
  obtain ⟨hq, hs⟩ := Context.classify_record hd
  rw [body, ht, if_pos hq, hs]

theorem declaredIn_record {n : RecordId} {d : RecordDecl} (ht : row.type = .record .none n)
    (hd : r.context.record? n = some d) : r.declaredIn row = d.bases.map r.edge := by
  obtain ⟨hq, hs⟩ := Context.classify_record hd
  rw [declaredIn, ht, if_pos hq, hs]
  rfl

/-- What the record of a struct, union or class refers to. -/
theorem mem_refs_record {n : RecordId} {d : RecordDecl} (ht : row.type = .record .none n)
    (hd : r.context.record? n = some d) (hb : r.bases row.id = r.declaredIn row) {j : TypeId} :
    j ∈ (r.body row).refs ↔
      (∃ m ∈ d.members.getD [], r.ledger.idOf m.type = j) ∨
        (d.key = .classKey ∧ ∃ b ∈ d.bases, r.ledger.idOf b.type = j) := by
  rw [body_record ht hd, hb, declaredIn_record ht hd, TypeBody.refs, List.mem_append]
  refine or_congr (by simp [member]) ?_
  split
  · rename_i hkey
    simp [edge, hkey]
  · rename_i hkey
    simp [hkey]

/-- The record of a row refers to itself exactly if its type is a struct, union or class that holds
itself. -/
theorem Kept.self_mem_refs_row (h : r.Kept) (ha : r.added = {}) (hm : row ∈ r.ledger.rows) :
    row.id ∈ (r.body row).refs ↔ ∃ n d, row.type = .record .none n ∧
      r.context.record? n = some d ∧ d.HoldsItself n := by
  have hb := h.bases_eq ha hm
  have hrecord : ∀ {n d}, row.type = .record .none n → r.context.record? n = some d →
      (row.id ∈ (r.body row).refs ↔ d.HoldsItself n) := by
    intro n d ht hd
    have hknown : ∀ c ∈ d.types, r.ledger.Known c := by
      intro c hc
      refine h.closed row hm c ?_
      rwa [ht, Context.components_record hd]
    have hiff : ∀ c ∈ d.types, (r.ledger.idOf c = row.id ↔ c.desugar = .record .none n) :=
      fun c hc => ht ▸ h.idOf_eq_id_iff hm (hknown c hc)
    rw [mem_refs_record ht hd hb, RecordDecl.HoldsItself]
    refine or_congr (exists_congr fun m => and_congr_right fun hmem => ?_)
      (and_congr_right fun _ => exists_congr fun b => and_congr_right fun hmem => ?_)
    · exact hiff _ (List.mem_append_left _ (List.mem_map_of_mem hmem))
    · exact hiff _ (List.mem_append_right _ (List.mem_map_of_mem hmem))
  constructor
  · intro hself
    obtain ⟨c, hc, hid⟩ := mem_refs_body row hb (.inl hself)
    have he := (h.idOf_eq_id_iff hm (h.closed row hm c hc)).1 hid.symm
    obtain ⟨n, d, ht, hd⟩ := Context.record_of_component_self (h.sound.row_type row hm) hc he
    exact ⟨n, d, ht, hd, (hrecord ht hd).1 hself⟩
  · rintro ⟨n, d, ht, hd, hholds⟩
    exact (hrecord ht hd).2 hholds

/-- **A record refers to itself** exactly if it is that of a struct, union or class that holds
itself (`HoldsItself`). -/
theorem Kept.self_mem_refs (h : r.Kept) (ha : r.added = {}) {id : TypeId} {record : TypeRecord}
    (hr : r.record? id = some record) :
    id ∈ record.refs ↔ ∃ n d, r.lookup? (.record .none n) = some id ∧
      r.context.record? n = some d ∧ d.HoldsItself n := by
  rw [record?] at hr
  split at hr
  · rename_i row hrow
    obtain rfl := Option.some.inj hr
    have hm : row ∈ r.ledger.rows := List.mem_of_find?_eq_some hrow
    have hid : row.id = id := by simpa using List.find?_some hrow
    subst hid
    refine (h.self_mem_refs_row ha hm).trans (exists_congr fun n => exists_congr fun d =>
      and_congr_left fun _ => ⟨fun ht => ?_, fun hl => ?_⟩)
    · rw [lookup?, ← ht]
      exact h.sound.row_memo row hm
    · exact ((h.idOf_eq_id_iff hm (Ledger.known_of_lookup hl)).1 (Ledger.idOf_of_lookup hl)).symm
  · rename_i hrow
    obtain ⟨s, -, rfl⟩ := Option.map_eq_some_iff.1 hr
    refine ⟨fun hself => absurd hself List.not_mem_nil, ?_⟩
    rintro ⟨n, d, hl, hd, -⟩
    -- a struct, union or class has a row
    obtain ⟨c, hc⟩ : ∃ c, r.context.category? (.record .none n) = some c := by
      obtain ⟨hq, hs⟩ := Context.classify_record hd
      rw [Context.category?, if_pos hq, hs]
      cases hkey : d.key <;> simp only [hkey] <;> exact ⟨_, rfl⟩
    obtain ⟨row, hm, -, rfl⟩ := h.sound.entered _ _ c hl rfl hc
    rw [h.row?_of_mem hm] at hrow
    cases hrow

end Registry

/-! ## 3. The registry of a source -/

/-- **Behind the registration of a source** (`registered`) a record has itself among its `refs`
exactly if it is that of a struct, union or class that `HoldsItself`: directly, or through
synonyms. -/
theorem self_mem_refs_iff (s : Settings) (ds : List Declaration) (sc : Scope) {id : TypeId}
    {record : TypeRecord} (hr : (registered s ds sc).record? id = some record) :
    id ∈ record.refs ↔ ∃ n d, (registered s ds sc).lookup? (.record .none n) = some id ∧
      sc.context.record? n = some d ∧ d.HoldsItself n := by
  obtain ⟨hunrenamed, hcontext, -, -⟩ := registered_unrenamed s ds sc
  have hadded : (registered s ds sc).added = {} := Registry.added_registerAll _ ds
  rw [← hcontext]
  exact hunrenamed.kept.self_mem_refs hadded hr

/-- A struct with a pointer to another one of its kind. -/
def listSource : String := "struct S { struct S *next; };"

/-- A struct with a member of its own type, which is incomplete there. -/
def selfSource : String := "struct S { struct S x; };"

/-- The scope of either source, `t` the type of the member `name`. -/
def selfScope (name : String) (t : CType) : Scope where
  context := ⟨[⟨.structKey, some "S", some [⟨some name, t, none, none⟩], []⟩], []⟩

def selfDeclarations : List Declaration := [⟨none, .record .none ⟨0⟩, none, ⟨1, 1⟩⟩]

theorem parse_list : parseSource listSource =
    .ok (selfDeclarations, selfScope "next" (.pointer .none .pointer (.record .none ⟨0⟩))) := by
  have htokens : tokenize listSource.toUTF8.toList = .ok
      ([⟨.keyword (.record .structKey), ⟨1, 1⟩⟩, ⟨.ident "S", ⟨1, 8⟩⟩, ⟨.mark .braceOpen, ⟨1, 10⟩⟩,
        ⟨.keyword (.record .structKey), ⟨1, 12⟩⟩, ⟨.ident "S", ⟨1, 19⟩⟩, ⟨.mark .star, ⟨1, 21⟩⟩,
        ⟨.ident "next", ⟨1, 22⟩⟩, ⟨.mark .semicolon, ⟨1, 26⟩⟩, ⟨.mark .braceClose, ⟨1, 28⟩⟩,
        ⟨.mark .semicolon, ⟨1, 29⟩⟩], ⟨1, 30⟩) := by
    decide +kernel
  rw [parseSource, parseBytes, htokens]
  cbv

theorem parse_self :
    parseSource selfSource = .ok (selfDeclarations, selfScope "x" (.record .none ⟨0⟩)) := by
  have htokens : tokenize selfSource.toUTF8.toList = .ok
      ([⟨.keyword (.record .structKey), ⟨1, 1⟩⟩, ⟨.ident "S", ⟨1, 8⟩⟩, ⟨.mark .braceOpen, ⟨1, 10⟩⟩,
        ⟨.keyword (.record .structKey), ⟨1, 12⟩⟩, ⟨.ident "S", ⟨1, 19⟩⟩, ⟨.ident "x", ⟨1, 21⟩⟩,
        ⟨.mark .semicolon, ⟨1, 22⟩⟩, ⟨.mark .braceClose, ⟨1, 24⟩⟩,
        ⟨.mark .semicolon, ⟨1, 25⟩⟩], ⟨1, 26⟩) := by
    decide +kernel
  rw [parseSource, parseBytes, htokens]
  cbv

/-- A struct that points to its kind does not refer to itself. -/
theorem list_not_mem_refs : ∃ ds sc record, parseSource listSource = .ok (ds, sc) ∧
    (registered { input := "input.h" } ds sc).record? ⟨"Struct0"⟩ = some record ∧
    ⟨"Struct0"⟩ ∉ record.refs := by
  let sc := selfScope "next" (.pointer .none .pointer (.record .none ⟨0⟩))
  have hr : (registered { input := "input.h" } selfDeclarations sc).record? ⟨"Struct0"⟩ =
      some ⟨⟨"Struct0"⟩, .none, .aggregate .structKey (.named "S") true
        [⟨some "next", ⟨"Pointer0"⟩, none, none⟩] []⟩ := by
    simp only [registered, registerAll, selfDeclarations, startOf, Registry.typeName,
      Registry.register]
    rw [Ledger.register_eq_of_settleFor 4 rfl]
    decide
  refine ⟨selfDeclarations, sc, _, parse_list, hr, fun hself => ?_⟩
  obtain ⟨⟨n⟩, d, -, hd, hholds⟩ := (self_mem_refs_iff _ selfDeclarations sc hr).1 hself
  cases n with
  | succ n => cases hd
  | zero =>
    obtain rfl := Option.some.inj hd
    rcases hholds with ⟨m, hm, hty⟩ | ⟨hkey, -⟩
    · obtain rfl := List.mem_singleton.1 hm
      cases hty
    · cases hkey

/-- **A struct can hold itself.** A member of the struct's own type is read although the struct is
incomplete there; then its record refers to itself without a pointer. -/
theorem struct_refers_to_itself : ∃ ds sc record, parseSource selfSource = .ok (ds, sc) ∧
    (registered { input := "input.h" } ds sc).record? ⟨"Struct0"⟩ = some record ∧
    ⟨"Struct0"⟩ ∈ record.refs := by
  let sc := selfScope "x" (.record .none ⟨0⟩)
  have hr : (registered { input := "input.h" } selfDeclarations sc).record? ⟨"Struct0"⟩ =
      some ⟨⟨"Struct0"⟩, .none, .aggregate .structKey (.named "S") true
        [⟨some "x", ⟨"Struct0"⟩, none, none⟩] []⟩ := by
    simp only [registered, registerAll, selfDeclarations, startOf, Registry.typeName,
      Registry.register]
    rw [Ledger.register_eq_of_settleFor 4 rfl]
    decide
  exact ⟨selfDeclarations, sc, _, parse_self, hr, List.mem_singleton_self _⟩

end TypeLedger
