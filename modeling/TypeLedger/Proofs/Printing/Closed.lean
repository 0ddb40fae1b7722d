import TypeLedger.Proofs.Grammar.Tidy
import TypeLedger.Proofs.Printing.Declared
import TypeLedger.Proofs.Printing.Resolves

/-!
# Tables of spelt types

* `Registry.Resolvable`: the identifier of a type resolves wherever the way is clear for the type.
  There is one step for all kinds of types: the types that a declaration goes on to have a lower
  rank.
* `Registry.resolves_of_known`: a registered type that declarations can spell resolves.
* `Registry.Opened.closed`, `Registry.Opened.free`: the environment of a table over a tidy context
  is closed, and what it says has no placeholder.
-/

namespace TypeLedger

namespace CType

variable {V : Vocabulary} {ctx : Context} {t : CType}

theorem Spelt.proper (h : t.Spelt V ctx) : t.Proper := by
  rintro s rfl -
  cases h with
  | builtin hs => exact listed_of_canonical hs

theorem Spelt.not_null (h : t.Spelt V ctx) : t.isNull = false := by
  cases h <;> rfl

end CType

namespace Registry

variable {V : Vocabulary} {r : Registry} {env : Environment} {tagOf : TypeId → Tag}

theorem settled_of_spelt {t : CType} (ht : t.Spelt V r.context) (hc : t.hasSugar = false)
    (hk : r.ledger.Known t) : r.Settled t :=
  ⟨hk, hc, ht.not_null, ht.proper⟩

/-! ## 1. Types that resolve -/

/-- Wherever the way is clear for the type, its identifier resolves. -/
def Resolvable (r : Registry) (env : Environment) (t : CType) : Prop :=
  ∀ path : List TypeId, r.Clear path t.rank → env.Resolves path (r.ledger.idOf t)

/-- A type resolves if its record goes on to types of a lower rank, which resolve. -/
theorem resolvable_step (hp : r.Kept) {u : CType} (hu : r.Settled u) {record : TypeRecord}
    (hlk : env.lookup? (r.ledger.idOf u) = some record) (hw : ∀ words, record.body ≠ .other words)
    (h : ∀ j ∈ record.body.onward, ∃ c, r.ledger.idOf c = j ∧ c.rank < u.rank ∧
      r.Resolvable env c) : r.Resolvable env u := by
  intro path hclear
  refine .step hlk (hclear.not_mem hp hu (Nat.le_refl _)) hw fun j hj => ?_
  obtain ⟨c, rfl, hlt, hc⟩ := h j hj
  exact hc _ ((hclear.mono (Nat.le_of_lt hlt)).cons hu hlt)

/-- The identifier is that of a part of the type, of a lower rank, which declarations can spell. -/
def PartOf (V : Vocabulary) (r : Registry) (t : CType) (j : TypeId) : Prop :=
  ∃ c ∈ r.context.components t, r.ledger.idOf c = j ∧ c.rank < t.rank ∧ c.Spelt V r.context ∧
    c.hasSugar = false

/-- A declaration goes on from a type that can be `Spelt` to parts of the type that can be spelt. -/
theorem onward_rereadRow {row : Row} (ht : row.type.Spelt V r.context)
    (hc : row.type.hasSugar = false) (tag : Tag) {j : TypeId}
    (hj : j ∈ (r.rereadRow row tag).body.onward) : r.PartOf V row.type j := by
  cases hq : row.type.quals.isEmpty with
  | false =>
    rw [rereadRow, body, if_neg (by rw [hq]; decide)] at hj
    obtain rfl := List.mem_singleton.1 hj
    have hcomp : r.context.components row.type = [row.type.unqualified] := by
      rw [Context.components, if_neg (by rw [hq]; decide)]
    have hlt : row.type.unqualified.rank < row.type.rank := by
      rw [CType.rank_unqualified, CType.rank, hq]
      simp
    have hsugar : row.type.unqualified.hasSugar = false :=
      (CType.hasSugar_withQuals _ _).trans hc
    exact ⟨_, hcomp ▸ List.mem_singleton_self _, rfl, hlt, ht.unqualified, hsugar⟩
  | true =>
    have rank_lt : ∀ {c : CType}, c.nodes < row.type.nodes → c.rank < row.type.rank := by
      intro c h
      have hlt := CType.rank_lt_of_nodes_lt h
      rwa [CType.rank.eq_1 row.type, if_pos hq]
    obtain ⟨id, category, t, tag'⟩ := row
    rw [rereadRow, body, if_pos hq] at hj
    rw [PartOf, Context.components, if_pos hq]
    cases ht with
    | builtin hs => cases hj
    | @record q id hid =>
      have hd : r.context.record? id = some (r.context.records[id.index]) :=
        List.getElem?_eq_getElem hid
      simp only [Context.classify, hd] at hj
      cases hj
    | enumeration hid => cases hj
    | @pointer q k t hkind ht =>
      obtain rfl := List.mem_singleton.1 hj
      exact ⟨t, List.mem_singleton_self t, rfl, rank_lt (Nat.lt_succ_self _), ht, hc⟩
    | @array q n t ht =>
      obtain rfl := List.mem_singleton.1 hj
      exact ⟨t, List.mem_singleton_self t, rfl, rank_lt (Nat.lt_succ_self _), ht, hc⟩
    | @function q t ps v ht hps =>
      obtain ⟨hct, hcps⟩ : t.hasSugar = false ∧ ∀ p ∈ ps, p.hasSugar = false := by
        simpa [CType.hasSugar, CType.anySugar_eq_any] using hc
      rcases List.mem_cons.1 hj with rfl | hj
      · exact ⟨t, List.mem_cons_self, rfl, rank_lt (by simp only [CType.nodes]; omega), ht, hct⟩
      · obtain ⟨param, hparam, rfl⟩ := List.mem_map.1 hj
        obtain ⟨p, hm, rfl⟩ := List.mem_map.1 hparam
        have hlt := CType.nodes_le_nodesAll hm
        exact ⟨p, List.mem_cons_of_mem _ hm, rfl, rank_lt (by simp only [CType.nodes]; omega),
          hps p hm, hcps p hm⟩
    | synonym ht => cases hc
    | complex hV ht => cases hj

/-- A type that can be `Spelt` is known by more than some words, unless it is a builtin type. -/
theorem body_ne_other (hV : ¬ V.complex) {row : Row} (ht : row.type.Spelt V r.context)
    (hc : row.type.hasSugar = false) (hb : ∀ s, row.type ≠ .builtin .none s) (tag : Tag)
    (words : String) : (r.rereadRow row tag).body ≠ .other words := by
  obtain ⟨id, category, t, tag'⟩ := row
  rw [rereadRow, body]
  split
  · rename_i hq
    cases ht with
    | @builtin q s hs =>
      obtain rfl := (Qualifiers.isEmpty_iff q).1 hq
      exact absurd rfl (hb s)
    | @record q id hid =>
      have hd : r.context.record? id = some (r.context.records[id.index]) :=
        List.getElem?_eq_getElem hid
      simp only [Context.classify, hd]
      intro h
      cases h
    | synonym ht => cases hc
    | complex h ht => exact absurd h hV
    | _ =>
      intro h
      cases h
  · intro h
    cases h

/-- **A registered canonical type that declarations can spell resolves** (`Resolvable`). The
induction is on the rank of the type. -/
theorem resolvable_of_spelt (hp : r.Kept) (hl : r.Shows env tagOf) (hV : ¬ V.complex) {t : CType}
    (ht : t.Spelt V r.context) (hc : t.hasSugar = false) (hk : r.ledger.Known t) :
    r.Resolvable env t := by
  have hst := settled_of_spelt ht hc hk
  by_cases hb : ∃ s, t = .builtin .none s
  · obtain ⟨s, rfl⟩ := hb
    have hs : Fundamental.Listed s := by
      cases ht with
      | builtin hs => exact CType.listed_of_canonical hs
    exact resolvable_step hp hst (lookup_builtin hp hl hs hst) (fun _ h => nomatch h)
      fun _ h => nomatch h
  · have hb' : ∀ s, t ≠ .builtin .none s := fun s h => hb ⟨s, h⟩
    obtain ⟨row, hm, rfl, -, hlk⟩ := hst.row hp hl hb'
    refine resolvable_step hp hst hlk (body_ne_other hV ht hc hb' _) fun j hj => ?_
    obtain ⟨c, hcomp, rfl, hlt, hct, hcc⟩ := onward_rereadRow ht hc _ hj
    exact ⟨c, rfl, hlt, resolvable_of_spelt hp hl hV hct hcc (hp.closed row hm c hcomp)⟩
termination_by t.rank

/-- **A registered type that declarations can spell (`Spelt`) resolves.** -/
theorem resolves_of_known (hp : r.Kept) (hl : r.Shows env tagOf) (hV : ¬ V.complex) {t : CType}
    (ht : t.Spelt V r.context) (hk : r.ledger.Known t) : env.Resolves [] (r.ledger.idOf t) := by
  obtain ⟨hid, hkd⟩ := hp.sound.idOf_desugar hk
  rw [hid]
  exact resolvable_of_spelt hp hl hV ht.desugar (CType.hasSugar_desugar t) hkd [] (clear_nil r _)

/-! ## 2. The environment of a table -/

/-- The aggregates of an environment are the registered records. -/
theorem Opened.record_of_aggregate {k₀ k : Naming} (ho : r.Opened env tagOf k₀ k) {i : TypeId}
    {body : TypeBody} (hb : env.body? i = some body) (ha : body.IsAggregate) :
    ∃ row ∈ r.ledger.rows, ∃ id d, row.id = i ∧ row.type = .record .none id ∧
      r.context.record? id = some d ∧ ∃ complete bs,
        body = .aggregate d.key (tagOf row.id) complete ((d.members.getD []).map r.member) bs := by
  obtain ⟨record, hlk, rfl⟩ := Option.map_eq_some_iff.1 hb
  obtain ⟨key, tag, complete, ms, bs, hbody⟩ := ha
  rcases ho.only i record hlk with ⟨row, hm, rfl⟩ | ⟨hlabel, rfl⟩ | ⟨s, -, hs⟩
  · rw [ho.row row hm] at hlk
    obtain rfl := Option.some.inj hlk
    refine ⟨row, hm, ?_⟩
    rw [rereadRow, Registry.body] at hbody ⊢
    split at hbody
    · rename_i hq
      cases hc : r.context.classify row.type with
      | record d =>
        obtain ⟨q, id, ht, hd⟩ := Context.classify_eq_record hc
        have hnone : q = .none := by
          rw [ht] at hq
          exact (Qualifiers.isEmpty_iff q).1 hq
        rw [if_pos hq]
        exact ⟨id, d, rfl, by rw [ht, hnone], hd, _, _, rfl⟩
      | _ =>
        rw [hc] at hbody
        cases hbody
    · cases hbody
  · rw [ho.label hlabel] at hlk
    obtain rfl := Option.some.inj hlk
    cases hbody
  · rw [hs] at hbody
    cases hbody

section

variable {k₀ k : Naming} (h : r.Unrenamed) (ho : r.Opened env tagOf k₀ k)
  (hctx : r.context.Tidy V)

include hctx

/-- The name of what has a tag is one of the vocabulary. -/
theorem ident_of_tagName? {t : CType} {n : String}
    (hn : r.context.tagName? t = some (some n)) : V.ident n := by
  unfold Context.tagName? at hn
  split at hn
  · cases hc : r.context.classify t with
    | record d =>
      rw [hc] at hn
      obtain ⟨q, id, -, hd⟩ := Context.classify_eq_record hc
      exact (hctx.tags id d n hd (Option.some.inj hn)).2
    | enumeration name =>
      rw [hc] at hn
      obtain ⟨q, id, -, hname⟩ := Context.classify_eq_enumeration hc
      obtain ⟨d, hd, hdn⟩ := Option.bind_eq_some_iff.1 (hname.trans (Option.some.inj hn))
      exact (hctx.enumTags id d n hd hdn).2
    | _ =>
      rw [hc] at hn
      cases hn
  · cases hn

/-- The names of members are `Free`. -/
theorem free_member (hV : ∀ n, V.ident n → Free n) {id : RecordId} {d : RecordDecl}
    (hd : r.context.record? id = some d) :
    ∀ m ∈ d.members.getD [], Free (m.name.getD "") := by
  intro m hm
  have htidy := (hctx.records id d hd).member hm
  cases hn : m.name with
  | none => exact free_empty
  | some n => exact hV n (htidy.name n hn)

include h ho

/-- **The environment of a table over a tidy context is `Closed`,** if there are no complex types
and no base has been stated on top. -/
theorem Opened.closed (hV : ¬ V.complex) (ha : r.added = {}) : env.Closed := by
  have hcomponent : ∀ {row : Row} {id : RecordId} {d : RecordDecl}, row ∈ r.ledger.rows →
      row.type = .record .none id → r.context.record? id = some d → ∀ c ∈ d.types,
        r.ledger.Known c := by
    intro row id d hm ht hd c hc
    refine h.kept.closed row hm c ?_
    rwa [ht, Context.components_record hd]
  constructor
  · intro i key tag complete ms bs hb m hm
    obtain ⟨row, hrow, id, d, rfl, ht, hd, _, _, he⟩ :=
      ho.record_of_aggregate hb ⟨_, _, _, _, _, rfl⟩
    cases he
    obtain ⟨m', hm', rfl⟩ := List.mem_map.1 hm
    have hknown := hcomponent hrow ht hd m'.type (List.mem_append_left _ (List.mem_map_of_mem hm'))
    exact resolves_of_known h.kept ho.toShows hV ((hctx.records id d hd).member hm').type hknown
  · intro i body hb hagg e he
    obtain ⟨row, hrow, id, d, rfl, ht, hd, -⟩ := ho.record_of_aggregate hb hagg
    rw [ho.edges row hrow, bases_record h.kept ha hrow ht hd] at he
    obtain ⟨b, hmem, rfl⟩ := List.mem_map.1 he
    have hknown := hcomponent hrow ht hd b.type (List.mem_append_right _ (List.mem_map_of_mem hmem))
    obtain ⟨bid, hbt, hlt⟩ := (hctx.records id d hd).bases b hmem
    rw [hbt] at hknown
    have hbd : r.context.record? bid = some (r.context.records[bid.index]) :=
      List.getElem?_eq_getElem hlt
    obtain ⟨row', -, -, -, hlk⟩ :=
      lookup_record h.kept ho.toShows hbd (settled_record hknown)
    have hbase : (r.edge b).base = r.ledger.idOf (.record .none bid) := by rw [edge, hbt]
    rw [hbase]
    exact ⟨_, Environment.body?_of_lookup hlk, _, _, _, _, _, rfl⟩

/-- What had no made-up name when the table was taken has none, or one of the vocabulary. -/
theorem Opened.free_tag (hg : r.ledger.naming.given = []) (hV : ∀ n, V.ident n → Free n)
    {row : Row} (hm : row ∈ r.ledger.rows) {tag : Tag} (hb : (r.body row).tag? = some tag) :
    (tagOf row.id).Free := by
  intro n hn
  obtain ⟨-, name, hname, hfit⟩ := h.kept.tag_of_body hm hb
  rcases ho.tagOf_cases h (Naming.orderly_of_given_nil hg) hm hb with ⟨n', hc, ht⟩ | ⟨-, s, hs, -⟩
  · obtain rfl := Tag.named.inj (ht.symm.trans hn)
    cases tag with
    | named m =>
      obtain rfl := Option.some.inj hc
      rw [hfit.1] at hname
      exact hV m (ident_of_tagName? hctx hname)
    | anonymous s =>
      rw [Naming.current?, hg] at hc
      cases hc
  · rw [hs] at hn
    cases hn

/-- **The environment of a table over a tidy context says `Free` texts only,** if the names of the
vocabulary are free and no name had been made up when the table was taken. -/
theorem Opened.free (hg : r.ledger.naming.given = []) (hV : ∀ n, V.ident n → Free n) :
    env.Free := by
  intro i record hlk
  rcases ho.only i record hlk with ⟨row, hm, rfl⟩ | ⟨hlabel, rfl⟩ | ⟨s, hs, hbody⟩
  · rw [ho.row row hm] at hlk
    obtain rfl := Option.some.inj hlk
    have htag : ∀ tag, (r.body row).tag? = some tag → (tagOf row.id).Free := fun tag =>
      ho.free_tag h hctx hg hV hm
    rw [rereadRow]
    unfold Registry.body at htag ⊢
    split
    · rename_i hq
      rw [if_pos hq] at htag
      cases hc : r.context.classify row.type with
      | record d =>
        rw [hc] at htag
        obtain ⟨q, id, -, hd⟩ := Context.classify_eq_record hc
        refine ⟨htag _ rfl, fun m hmem => ?_⟩
        obtain ⟨m', hm', rfl⟩ := List.mem_map.1 hmem
        exact free_member hctx hV hd m' hm'
      | enumeration name =>
        rw [hc] at htag
        exact htag _ rfl
      | function t ps v =>
        intro p hp
        obtain ⟨c, -, rfl⟩ := List.mem_map.1 hp
        exact free_empty
      | _ => trivial
    · trivial
  · rw [ho.label hlabel] at hlk
    obtain rfl := Option.some.inj hlk
    trivial
  · rw [hbody]
    have hall : ∀ s ∈ Fundamental.table.map Prod.snd, Free s := by decide +kernel
    exact hall s hs

end

end Registry

end TypeLedger
