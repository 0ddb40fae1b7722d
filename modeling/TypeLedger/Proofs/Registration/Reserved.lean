import TypeLedger.Proofs.Registration.Exchange
import TypeLedger.Proofs.Tables.Entries

/-!
# What one registration reserves

* `Context.Reaches`: the canonical types that a type leads to. A record may lead back to itself.
* `Ledger.settleFor_of_settle`: a run works off its agenda in a number of steps, so it ends.
* `Registry.Reserves`: the types that a registration gives a number: those that it reaches, without
  the absence of a type, the fundamental types and what is known already.
* `Registry.Reached` and `Stocked.Reached`: the states that a registry can come to. What a
  registration keeps, and what the naming has no part in, all of them have (`Reached.keeps`).
* `Stocked.Reached.perm_entries`: the stored records are those of the rows and of the fundamental
  types that types are registered as.
* `register_reserves`: a registration ends, and puts one identifier for each type that it reserves
  behind the others. The numbered identifiers and those of the fundamental types met are the ones
  that have a stored record, and none of them comes twice.
-/

namespace TypeLedger

variable {ctx : Context}

/-! ## 1. Reachable types -/

/-- The type is fundamental: it is named by its spelling and takes no number. -/
def CType.IsFundamental (t : CType) : Prop :=
  ∃ s, t = .builtin .none s ∧ Fundamental.isFundamental (Fundamental.idOfSpelling s) = true

/-- The canonical types that a type leads to: its own canonical form, and the canonical forms of
what the record of such a type refers to, the type without its qualifiers included. -/
inductive Context.Reaches (ctx : Context) (t : CType) : CType → Prop
  | start : ctx.Reaches t t.desugar
  | component {u c : CType} : ctx.Reaches t u → c ∈ ctx.components u → ctx.Reaches t c.desugar

theorem Context.Reaches.hasSugar {t u : CType} (h : ctx.Reaches t u) : u.hasSugar = false := by
  cases h with
  | start => exact CType.hasSugar_desugar t
  | component _ _ => exact CType.hasSugar_desugar _

/-- A type without a category is a fundamental one. -/
theorem Context.category?_eq_none_iff {t : CType} : ctx.category? t = none ↔ t.IsFundamental := by
  refine ⟨Ledger.builtin_of_category?_eq_none, ?_⟩
  rintro ⟨s, rfl, hs⟩
  exact if_pos hs

namespace Ledger

variable {detail : Detail} {l l' : Ledger}

/-! ## 2. Runs end -/

/-- **A run comes to an end:** after a number of tasks (`settleFor`) nothing is left of the
agenda. -/
theorem settleFor_of_settle {ts : List CType} {tasks : List Task}
    (covered : Covered (ctx.closure ts) tasks) :
    ∃ n, settleFor ctx detail n tasks l = some (l.settle ctx detail ts tasks covered) := by
  fun_induction settle ctx detail ts tasks covered l with
  | case1 l => exact ⟨0, rfl⟩
  | case2 l t tasks _ _ ih =>
    obtain ⟨n, hn⟩ := ih
    exact ⟨n + 1, hn⟩
  | case3 l t tasks _ hnull _ ih =>
    obtain ⟨n, hn⟩ := ih
    exact ⟨n + 1, by rw [settleFor, if_pos hnull, hn]⟩
  | case4 l t tasks _ hnull id hl _ ih =>
    obtain ⟨n, hn⟩ := ih
    refine ⟨n + 1, ?_⟩
    simp only [settleFor, if_neg hnull, hl]
    exact hn
  | case5 l t tasks _ hnull hl hs _ ih =>
    obtain ⟨n, hn⟩ := ih
    refine ⟨n + 1, ?_⟩
    simp only [settleFor, if_neg hnull, hl, if_pos hs]
    exact hn
  | case6 l t tasks _ hnull hl hs _ ih =>
    obtain ⟨n, hn⟩ := ih
    refine ⟨n + 1, ?_⟩
    simp only [settleFor, if_neg hnull, hl, if_neg hs]
    exact hn

/-! ## 3. What a registration makes known -/

/-- What the ledger knows and what a type reaches hold what their types lead to. -/
theorem Sound.hereditary_reaches (h : l.Sound ctx) (hc : l.Closed ctx) (t : CType) :
    Hereditary ctx fun u => l.Known u ∨ ctx.Reaches t u.desugar where
  desugar u hu := by
    refine hu.imp ((h.hereditary hc).desugar u) fun hr => ?_
    rwa [CType.desugar_of_not_hasSugar _ (CType.hasSugar_desugar u)]
  component u hu hn hs c hm := by
    refine hu.imp (fun hk => (h.hereditary hc).component u hk hn hs c hm) fun hr => ?_
    rw [CType.desugar_of_not_hasSugar u hs] at hr
    exact .component hr hm

/-- A ledger that knows a type knows all that the type reaches. -/
theorem Sound.known_of_reaches (h : l.Sound ctx) (hc : l.Closed ctx) {t u : CType}
    (ht : l.Known t) (hr : ctx.Reaches t u) : l.Known u := by
  have hh : Hereditary ctx l.Known := h.hereditary hc
  induction hr with
  | start => exact hh.desugar t ht
  | component hr hm ih =>
    rename_i u c
    refine hh.desugar c ?_
    cases hn : u.isNull with
    | false => exact hh.component u ih hn hr.hasSugar c hm
    | true =>
      -- without its qualifiers the absence of a type is the same absence
      cases u with
      | null q =>
        unfold Context.components at hm
        split at hm
        · cases hm
        · obtain rfl := List.mem_singleton.1 hm
          exact .inl rfl
      | _ => cases hn

/-- A type has one row at most. -/
theorem Sound.nodup_types (h : l.Sound ctx) (hids : (l.rows.map Row.id).Nodup) :
    (l.rows.map Row.type).Nodup := by
  have hmap : (l.rows.map Row.type).map l.idOf = l.rows.map Row.id := by
    rw [List.map_map]
    exact List.map_congr_left fun row hm => idOf_of_lookup (h.row_memo row hm)
  rw [← hmap] at hids
  exact hids.of_map

/-! ## 4. Fundamental types -/

/-- No fundamental type is listed twice. -/
def Distinct (l : Ledger) : Prop := (l.fundamentals.map Prod.fst).Nodup

theorem Distinct.enter (h : l.Distinct) (t : CType) : (l.enter ctx detail t).Distinct := by
  unfold Ledger.enter
  split
  · unfold Distinct
    rwa [fundamentals_enterRow]
  · rename_i hc
    obtain ⟨s, rfl, -⟩ := builtin_of_category?_eq_none hc
    unfold Distinct
    rw [fundamentals_enterFundamental]
    split
    · exact h
    · rename_i hnew
      rw [List.map_append]
      refine List.nodup_append.2 ⟨h, List.nodup_singleton _, fun i hi j hj hij => ?_⟩
      obtain rfl := List.mem_singleton.1 hj
      subst hij
      exact hnew (Keyed.has_iff.2 hi)

theorem Distinct.register (h : l.Distinct) (t : CType) : (l.register ctx detail t).Distinct := by
  refine settle_keeps (P := Distinct) (fun l n hl => ?_) (fun t l hl => ?_)
    (fun t _ hl => hl.enter t) _ h
  · unfold Distinct
    rwa [fundamentals_note]
  · have hf : (l.enterSynonym ctx detail t).fundamentals = l.fundamentals := fundamentals_note _ _ _
    unfold Distinct
    rwa [hf]

end Ledger

namespace Registry

variable {r : Registry}

/-! ## 5. One registration -/

/-- The types that the registration of `t` gives a number: those that `t` reaches, unless they stand
for no type, are fundamental, or have been given an identifier before. -/
structure Reserves (r : Registry) (t u : CType) : Prop where
  reached : r.context.Reaches t u
  not_null : u.isNull = false
  not_fundamental : ¬ u.IsFundamental
  missing : r.lookup? u = none

section Rows

variable {t : CType} {new : List Row}

/-- A type with a new row was not known: a type that was has an old row, and no type has two. -/
theorem Kept.missing_of_new_row (h : r.Kept)
    (hnew : (r.register t).2.ledger.rows = r.ledger.rows ++ new) {row : Row} (hm : row ∈ new) :
    r.lookup? row.type = none := by
  obtain ⟨hk, hl, -, -⟩ := register_kept h t
  have hctx : (r.register t).2.context = r.context := hl.context
  have hrow : row ∈ (r.register t).2.ledger.rows := hnew ▸ List.mem_append_right _ hm
  by_contra hold
  obtain ⟨id, hid⟩ := Option.ne_none_iff_exists'.1 hold
  have hcat := hk.sound.row_category row hrow
  rw [hctx] at hcat
  obtain ⟨row', hm', ht', -⟩ := h.sound.entered _ id _ hid (hk.sound.row_type row hrow) hcat
  have hnd := hk.sound.nodup_types hk.nodup_ids
  rw [hnew, List.map_append] at hnd
  exact (List.nodup_append.1 hnd).2.2 _ (List.mem_map_of_mem hm') _ (List.mem_map_of_mem hm) ht'

/-- What a registration makes `Known` stands for a type that the registered one reaches. -/
theorem Kept.known_or_reaches (h : r.Kept) {u : CType} {id : TypeId}
    (hu : (r.register t).2.ledger.memo.lookup u = some id) :
    r.ledger.Known u ∨ r.context.Reaches t u.desugar :=
  Ledger.settle_within (h.sound.hereditary_reaches h.closed t) _
    (fun s hs => by
      rcases hs with hs | hs
      · obtain rfl := Ledger.Task.visit.inj (List.mem_singleton.1 hs)
        exact .inr .start
      · cases List.mem_singleton.1 hs)
    (fun s id hs => .inl (Ledger.known_of_lookup hs)) _ _ hu

theorem Kept.reserves_of_new_row (h : r.Kept)
    (hnew : (r.register t).2.ledger.rows = r.ledger.rows ++ new) {row : Row} (hm : row ∈ new) :
    r.Reserves t row.type := by
  obtain ⟨hk, -, -, -⟩ := register_kept h t
  have hrow : row ∈ (r.register t).2.ledger.rows := hnew ▸ List.mem_append_right _ hm
  have hmemo := hk.sound.row_memo row hrow
  have hn := hk.sound.not_null _ _ hmemo
  have hmissing := h.missing_of_new_row hnew hm
  refine ⟨?_, hn, fun hf => ?_, hmissing⟩
  · rcases h.known_or_reaches hmemo with hold | hr
    · have hsome : r.lookup? row.type = some (r.ledger.idOf row.type) := hold.lookup hn
      rw [hmissing] at hsome
      cases hsome
    · rwa [CType.desugar_of_not_hasSugar _ (hk.sound.row_type row hrow)] at hr
  · have hcat := hk.sound.row_category row hrow
    rw [Context.category?_eq_none_iff.2 hf] at hcat
    cases hcat

/-- The rows that a registration adds are those of the types that it `Reserves`. -/
theorem Kept.mem_new_rows (h : r.Kept) (t : CType) {new : List Row}
    (hnew : (r.register t).2.ledger.rows = r.ledger.rows ++ new) (u : CType) :
    u ∈ new.map Row.type ↔ r.Reserves t u := by
  obtain ⟨hk, hl, hknown, -⟩ := register_kept h t
  have hctx : (r.register t).2.context = r.context := hl.context
  constructor
  · intro hu
    obtain ⟨row, hm, rfl⟩ := List.mem_map.1 hu
    exact h.reserves_of_new_row hnew hm
  · rintro ⟨hr, hn, hf, hmissing⟩
    have hku : (r.register t).2.ledger.Known u :=
      hk.sound.known_of_reaches hk.closed hknown (hctx.symm ▸ hr)
    have hcategory : (r.register t).2.context.category? u ≠ none :=
      mt Context.category?_eq_none_iff.1 hf
    obtain ⟨c, hc⟩ := Option.ne_none_iff_exists'.1 hcategory
    obtain ⟨row, hm, rfl, -⟩ := hk.sound.entered _ _ c (hku.lookup hn) hr.hasSugar hc
    rw [hnew] at hm
    rcases List.mem_append.1 hm with hm | hm
    · have hold : r.lookup? row.type = some row.id := h.sound.row_memo row hm
      rw [hmissing] at hold
      cases hold
    · exact List.mem_map_of_mem hm

end Rows

/-- **A registration reserves one identifier for each type** that it `Reserves`: those that it
reaches and that need one. -/
theorem Kept.ids_register (h : r.Kept) (t : CType) : ∃ us : List CType,
    us.Nodup ∧ (∀ u, u ∈ us ↔ r.Reserves t u) ∧
      (r.register t).2.ids = r.ids ++ us.map (r.register t).2.ledger.idOf := by
  obtain ⟨hk, hl, -, -⟩ := register_kept h t
  obtain ⟨new, hnew⟩ := hl.ledger.rows
  refine ⟨new.map Row.type, ?_, h.mem_new_rows t hnew.symm, ?_⟩
  · have hnd := hk.sound.nodup_types hk.nodup_ids
    rw [← hnew, List.map_append] at hnd
    exact (List.nodup_append.1 hnd).2.1
  · have hids : (new.map Row.type).map (r.register t).2.ledger.idOf = new.map Row.id := by
      rw [List.map_map]
      refine List.map_congr_left fun row hm => Ledger.idOf_of_lookup (hk.sound.row_memo row ?_)
      rw [← hnew]
      exact List.mem_append_right _ hm
    rw [hids, ids, ids, ← hnew, List.map_append]

/-! ## 6. Reached registries -/

/-- The states that a registry can come to: nothing has been registered; one more call has been
made; it has been set whether the table has an entry for labels (`hasLabel`) and how much is
reported (`Detail`); somebody who shares the naming has used it. -/
inductive Reached : Registry → Prop
  | fresh {r : Registry} (h : r.Fresh) : Reached r
  | call {r : Registry} (h : Reached r) (c : Call) : Reached (c.run r)
  | set {r : Registry} (h : Reached r) (hasLabel : Bool) (detail : Detail) :
    Reached { r with hasLabel, detail }
  | shared {r : Registry} (h : Reached r) (k : Naming) : Reached (r.withNaming k)

theorem Reached.after (h : r.Reached) (calls : List Call) : (r.after calls).Reached := by
  induction calls generalizing r with
  | nil => exact h
  | cons c cs ih => exact ih (h.call c)

theorem Reached.kept (h : r.Reached) : r.Kept := by
  induction h with
  | fresh h => exact h.kept
  | call _ c ih => exact (c.kept ih).1
  | set _ _ _ ih => exact ⟨ih.sound, ih.closed⟩
  | shared _ k ih => exact (kept_withNaming ih k).1

/-- **What every registration keeps** holds of a reached registry, if it holds in the beginning and
the naming has no part in it. -/
theorem Reached.keeps {P : Ledger → Prop}
    (hfresh : ∀ l : Ledger, l.memo = [] → l.rows = [] → l.fundamentals = [] → P l)
    (hregister : ∀ ctx detail t l, P l → P (Ledger.register ctx detail t l))
    (hnaming : ∀ (l : Ledger) (k : Naming), P l → P { l with naming := k })
    (h : r.Reached) : P r.ledger := by
  induction h with
  | fresh h => exact hfresh _ h.memo h.rows h.fundamentals
  | @call r _ c ih =>
    cases c with
    | register t | typeName t => exact hregister _ _ t _ ih
    | addInheritance d b a v => exact hregister _ _ b _ (hregister _ _ d _ ih)
    | nameOf id =>
      show P (r.nameOf id).2.ledger
      unfold nameOf
      split
      · exact hnaming _ _ ih
      · exact ih
  | set _ _ _ ih => exact ih
  | shared _ k ih => exact hnaming _ k ih

theorem Reached.distinct (h : r.Reached) : r.ledger.Distinct := by
  refine h.keeps (fun l _ _ hf => ?_) (fun _ _ t _ hl => hl.register t) fun _ _ hl => hl
  unfold Ledger.Distinct
  rw [hf]
  exact List.nodup_nil

theorem Reached.spellingsKnown (h : r.Reached) : r.ledger.SpellingsKnown := by
  refine h.keeps (fun l _ _ hf p hp => ?_) (fun _ _ t _ hl => hl.register t) fun _ _ hl => hl
  rw [hf] at hp
  cases hp

/-- The states that a registry that stores records can come to, in the same ways as
`Registry.Reached` says. -/
inductive Stocked.Reached : Stocked → Prop
  | fresh {r : Registry} (h : r.Fresh) : Stocked.Reached ⟨r, {}⟩
  | call {f : Stocked} (h : Stocked.Reached f) (c : Call) : Stocked.Reached (Stocked.run c f)
  | set {f : Stocked} (h : Stocked.Reached f) (hasLabel : Bool) (detail : Detail) :
    Stocked.Reached ⟨{ f.registry with hasLabel, detail }, f.store⟩
  | shared {f : Stocked} (h : Stocked.Reached f) (k : Naming) :
    Stocked.Reached ⟨f.registry.withNaming k, f.store⟩

variable {f : Stocked}

/-- In every state that it comes to the registry is one that is reached, and every row has its
record. -/
theorem Stocked.Reached.spec (h : f.Reached) : f.registry.Reached ∧ f.Kept := by
  induction h with
  | fresh h => exact ⟨.fresh h, Stocked.kept_fresh h⟩
  | call _ c ih =>
    obtain ⟨hregistry, hk⟩ := ih.2.run c
    exact ⟨hregistry ▸ ih.1.call c, hk⟩
  | set _ hasLabel detail ih =>
    exact ⟨ih.1.set hasLabel detail, ⟨ih.2.registry.sound, ih.2.registry.closed⟩, ih.2.storing⟩
  | @shared f _ k ih =>
    obtain ⟨hk, hl⟩ := kept_withNaming ih.2.registry k
    exact ⟨ih.1.shared k, hk, ih.2.storing.mono ih.2.registry.sound hk.sound hl.ledger rfl rfl⟩

theorem Stocked.Reached.after (h : f.Reached) (calls : List Call) : (f.after calls).Reached := by
  induction calls generalizing f with
  | nil => exact h
  | cons c cs ih => exact ih (h.call c)

end Registry

/-! ## 7. Fundamental types -/

/-- **The fundamental types that are counted** (`fundamentals`) are those whose identifier a
registered type has. -/
theorem Ledger.Sound.mem_fundamentals_iff {ctx : Context} {l : Ledger} (h : l.Sound ctx)
    (hs : l.SpellingsKnown) {id : TypeId} : id ∈ l.fundamentals.map Prod.fst ↔
      Fundamental.isFundamental id = true ∧ ∃ t, l.memo.lookup t = some id := by
  constructor
  · intro hm
    obtain ⟨p, hp, rfl⟩ := List.mem_map.1 hm
    obtain ⟨-, hf, hl⟩ := hs p hp
    exact ⟨hf, _, hl⟩
  · rintro ⟨hf, t, hl⟩
    obtain ⟨hid, hk⟩ := h.idOf_desugar (known_of_lookup hl)
    rw [idOf_of_lookup hl] at hid
    cases h.standing (CType.hasSugar_desugar t) hk with
    | null _ hnull =>
      rw [hid, hnull, Fundamental.not_isFundamental_null] at hf
      cases hf
    | row row hm _ hrow =>
      obtain ⟨n, hn⟩ := h.id_of_mem_rows hm
      rw [hid, ← hrow, hn, Fundamental.not_isFundamental_id] at hf
      cases hf
    | fundamental _ _ _ _ hkey => exact Keyed.has_iff.1 (hid ▸ hkey)

namespace Registry

variable {r : Registry} {f : Stocked}

/-! ## 8. What is stored -/

/-- No identifier of a row is that of a fundamental type, and none comes twice. -/
theorem Kept.nodup_keys (h : r.Kept) (hd : r.ledger.Distinct) :
    (r.ids ++ r.ledger.fundamentals.map Prod.fst).Nodup := by
  refine List.nodup_append.2 ⟨h.nodup_ids, hd, fun i hi j hj hij => ?_⟩
  obtain ⟨row, hm, rfl⟩ := List.mem_map.1 hi
  obtain ⟨p, hp, rfl⟩ := List.mem_map.1 hj
  exact h.sound.row_id_ne (h.sound.spelt p hp).2 hm hij

/-- The records that belong into the store: one for each row, one for each fundamental type met. -/
def belongings (r : Registry) : List (TypeId × Stored) :=
  (r.ledger.rows.map fun row => (row.id, r.stored row)) ++
    r.ledger.fundamentals.map fun p => (p.1, Stored.fundamental r.context p.2)

theorem fst_belongings (r : Registry) :
    r.belongings.map Prod.fst = r.ids ++ r.ledger.fundamentals.map Prod.fst := by
  rw [belongings, List.map_append, List.map_map, List.map_map]
  rfl

/-- **A record is stored for every row and every fundamental type met,** and nothing else is
(`belongings`). -/
theorem Stocked.Kept.perm_entries (h : f.Kept) (hd : f.registry.ledger.Distinct) :
    f.store.entries.Perm f.registry.belongings := by
  have hnodup : f.registry.belongings.Nodup := by
    refine List.Nodup.of_map Prod.fst ?_
    rw [fst_belongings]
    exact h.registry.nodup_keys hd
  refine (List.perm_ext_iff_of_nodup h.storing.keys.of_map hnodup).2 fun ⟨id, e⟩ => ?_
  constructor
  · intro hm
    have hl : f.store.entries.lookup id = some e := Keyed.lookup_of_mem h.storing.keys hm
    cases hrow : f.registry.row? id with
    | some row =>
      obtain ⟨hmem, rfl⟩ := mem_of_row? hrow
      rw [h.lookup_row hmem, Option.some.injEq] at hl
      exact List.mem_append_left _ (List.mem_map.2 ⟨row, hmem, by rw [hl]⟩)
    | none =>
      rw [(h.of_not_row hrow).2, Option.map_eq_some_iff] at hl
      obtain ⟨s, hs, rfl⟩ := hl
      exact List.mem_append_right _ (List.mem_map.2 ⟨_, Keyed.mem_of_lookup hs, rfl⟩)
  · intro hm
    rcases List.mem_append.1 hm with hm | hm
    · obtain ⟨row, hmem, he⟩ := List.mem_map.1 hm
      cases he
      exact Keyed.mem_of_lookup (h.lookup_row hmem)
    · obtain ⟨p, hp, he⟩ := List.mem_map.1 hm
      cases he
      have hrow : f.registry.row? p.1 = none := by
        refine List.find?_eq_none.2 fun row hm he => ?_
        exact h.registry.sound.row_id_ne (h.registry.sound.spelt p hp).2 hm (beq_iff_eq.1 he)
      refine Keyed.mem_of_lookup ?_
      rw [(h.of_not_row hrow).2, Keyed.lookup_of_mem hd hp, Option.map_some]

/-- The keys of the stored records are the numbered identifiers and those of the fundamental types
met. -/
theorem Stocked.Kept.perm_keys (h : f.Kept) (hd : f.registry.ledger.Distinct) :
    f.keys.Perm (f.ids ++ f.registry.ledger.fundamentals.map Prod.fst) := by
  rw [h.ids_eq, ← fst_belongings]
  exact (h.perm_entries hd).map Prod.fst

theorem Stocked.isSome_record?_iff (f : Stocked) (id : TypeId) :
    (f.record? id).isSome = true ↔ id ∈ f.keys := by
  rw [Stocked.record?, Store.record?, Option.isSome_map]
  exact Keyed.has_iff

/-- **Registering a type ends and reserves each type once.** The registry is in any state that it
can come to (`Stocked.Reached`), and the type may lead back to itself in any way: a number of steps
(`Desk.runFor`) leaves nothing to do, and what is new is what the type `Reserves`, each once.
Afterwards the reserved identifiers and those of the fundamental types that types are registered as
are the keys of the stored records, and none of them comes twice. -/
theorem register_reserves (h : f.Reached) (t : CType) :
    let f' := (f.register t).2
    (∃ n last, Desk.runFor f.registry.context f.registry.detail n (f.desk t) = some last ∧
        f.register t = f.leave last) ∧
      (∃ us : List CType, us.Nodup ∧ (∀ u, u ∈ us ↔ f.registry.Reserves t u) ∧
        f'.ids = f.ids ++ us.map f'.registry.ledger.idOf) ∧
      f'.keys.Nodup ∧ (∀ id, id ∈ f'.keys ↔ (f'.record? id).isSome = true) ∧
      ∃ fs : List TypeId, f'.keys.Perm (f'.ids ++ fs) ∧
        ∀ id, id ∈ fs ↔ Fundamental.isFundamental id = true ∧ ∃ u, f'.lookup? u = some id := by
  intro f'
  obtain ⟨hreached, hkept⟩ := h.spec
  obtain ⟨-, hregistry, hkept'⟩ := hkept.register t
  have hreached' : f'.registry.Reached := hregistry ▸ hreached.call (.register t)
  refine ⟨?_, ?_, hkept'.storing.keys, fun id => (Stocked.isSome_record?_iff f' id).symm,
    f'.registry.ledger.fundamentals.map Prod.fst, hkept'.perm_keys hreached'.distinct, fun id => ?_⟩
  · obtain ⟨n, hn⟩ := Desk.runFor_of_run f.registry.detail (f.desk t)
      (Ledger.Covered.single f.registry.context t)
    exact ⟨n, _, hn, rfl⟩
  · rw [hkept'.ids_eq, hkept.ids_eq, hregistry]
    exact hkept.registry.ids_register t
  · exact hkept'.registry.sound.mem_fundamentals_iff hreached'.spellingsKnown

/-- A struct that leads back to itself through a pointer, a qualifier and a synonym, and two classes
that lead back to each other through a base and a pointer. -/
def ringContext : Context where
  records :=
    [⟨.structKey, some "ring", some
        [⟨some "next", .pointer .none .pointer (.record { isConst := true } ⟨0⟩), none, none⟩,
          ⟨some "back", .synonym .none "link" (.pointer .none .pointer (.record .none ⟨0⟩)), none,
            none⟩], []⟩,
      ⟨.classKey, some "base", some
        [⟨some "top", .pointer .none .pointer (.record .none ⟨2⟩), some .pub, none⟩,
          ⟨some "ring", .record .none ⟨0⟩, some .pub, none⟩], []⟩,
      ⟨.classKey, some "derived", some [], [⟨.record .none ⟨1⟩, .pub, false⟩]⟩]

/-- The qualified class reserves four identifiers: the struct that its base holds has its own. -/
theorem register_reserves_ring :
    let f := (Stocked.mk ⟨ringContext, {}, {}, none, false, .quiet⟩ {}).after
      [.register (.record .none ⟨0⟩)]
    let f' := (f.register (.record { isConst := true } ⟨2⟩)).2
    f.ids = [⟨"Struct0"⟩, ⟨"Pointer0"⟩, ⟨"Basic0"⟩, ⟨"Pointer1"⟩] ∧
      f'.ids = f.ids ++ [⟨"Basic1"⟩, ⟨"Class0"⟩, ⟨"Class1"⟩, ⟨"Pointer2"⟩] ∧
      (∃ us : List CType, us.Nodup ∧ us.length = 4 ∧
        ∀ u, u ∈ us ↔ f.registry.Reserves (.record { isConst := true } ⟨2⟩) u) ∧
      f'.keys.Nodup := by
  intro f f'
  let f₀ : Stocked := ⟨⟨ringContext, {}, {}, none, false, .quiet⟩, {}⟩
  let f₁ : Stocked := (f₀.leave
    ((Desk.runFor ringContext .quiet 22 (f₀.desk (.record .none ⟨0⟩))).get rfl)).2
  have hreached : f.Reached := (Stocked.Reached.fresh ⟨rfl, rfl, rfl, rfl, rfl⟩).after _
  have hf : f = f₁ := congrArg Prod.snd (Stocked.register_eq_of_runFor 22 rfl)
  have hids : f.ids = [⟨"Struct0"⟩, ⟨"Pointer0"⟩, ⟨"Basic0"⟩, ⟨"Pointer1"⟩] := by
    rw [hf]
    decide
  have hids' : f'.ids = f.ids ++ [⟨"Basic1"⟩, ⟨"Class0"⟩, ⟨"Class1"⟩, ⟨"Pointer2"⟩] := by
    show (f.register (.record { isConst := true } ⟨2⟩)).2.ids = _
    rw [hf, Stocked.register_eq_of_runFor 22 rfl]
    decide
  obtain ⟨-, ⟨us, hnd, hmem, hus⟩, hkeys, -⟩ :=
    register_reserves hreached (.record { isConst := true } ⟨2⟩)
  refine ⟨hids, hids', ⟨us, hnd, ?_, hmem⟩, hkeys⟩
  have hlen := congrArg List.length (List.append_cancel_left (hids'.symm.trans hus))
  simpa using hlen.symm

end Registry

end TypeLedger
