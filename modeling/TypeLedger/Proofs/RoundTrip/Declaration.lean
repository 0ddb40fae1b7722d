import TypeLedger.Proofs.Grammar.Declarations
import TypeLedger.Proofs.Grammar.Keeps
import TypeLedger.Proofs.Printing.Labels
import TypeLedger.Proofs.Printing.Stated

/-!
# Declarations there and back

* `Context.Read`: the contexts that sources leave. Their tags lead to what they are the tags of.
* `parse_declare`: a canonical type is registered, its table is loaded, a name is declared with it,
  and the text is read as the declaration of the name with this type.
-/

namespace TypeLedger

/-! ## 1. The contexts of sources -/

namespace Context

/-- The contexts that sources leave (`parseBytes`), each read over the context of those before. -/
inductive Read : Context → Prop
  | empty : Read {}
  | source {ctx : Context} {bytes : List UInt8} {ds : List Declaration} {sc : Scope}
    (h : Read ctx) (hp : parseBytes bytes ctx = .ok (ds, sc)) : Read sc.context

theorem Read.tidy {ctx : Context} (h : Read ctx) : ctx.Tidy .all := by
  induction h with
  | empty => exact tidy_empty
  | source _ hp ih => exact (tidy_parseBytes ih hp).1

end Context

/-! ## 2. Types under their own tags -/

namespace CType

variable {l : Labels} {ctx : Context} {rp : RecordId → Prop} {ep : EnumId → Prop}

theorem MatchesAll.eq_of_forall {ts us : List CType} (h : MatchesAll l ctx ts us)
    (hts : ∀ t ∈ ts, ∀ u, t.Matches l ctx u → u = t) : us = ts := by
  induction ts generalizing us with
  | nil => exact h
  | cons t ts ih =>
    obtain ⟨u, us', hu, hus, rfl⟩ := h
    rw [hts t List.mem_cons_self u hu, ih hus fun v hv => hts v (List.mem_cons_of_mem _ hv)]

/-- Labels that lead to what they are the labels of leave a type as it is. -/
theorem Matches.eq {t u : CType} (ht : t.Writable rp ep)
    (hr : ∀ id, rp id → ctx.findRecord? (l.record id).2 = some id)
    (he : ∀ id, ep id → ctx.findEnum? (l.enumeration id) = some id)
    (h : t.Matches l ctx u) : u = t := by
  induction ht generalizing u with
  | builtin _ => exact h
  | record hid =>
    obtain ⟨id', hf, rfl⟩ := h
    rw [hr _ hid] at hf
    rw [Option.some.inj hf]
  | enumeration hid =>
    obtain ⟨id', hf, rfl⟩ := h
    rw [he _ hid] at hf
    rw [Option.some.inj hf]
  | pointer _ _ _ ih | array _ ih =>
    obtain ⟨t', ht', rfl⟩ := h
    rw [ih ht']
  | function _ _ _ ih ihs =>
    obtain ⟨t', ps', ht', hps', rfl⟩ := h
    rw [ih ht', hps'.eq_of_forall fun p hp u hu => ihs p hp hu]

/-- A writable type can be `Spelt` over a context that has its records and enumerations. -/
theorem Writable.spelt {V : Vocabulary} {t : CType} (ht : t.Writable rp ep)
    (hr : ∀ id, rp id → id.index < ctx.records.length)
    (he : ∀ id, ep id → id.index < ctx.enums.length) : t.Spelt V ctx := by
  induction ht with
  | builtin hs => exact .builtin hs
  | record hid => exact .record (hr _ hid)
  | enumeration hid => exact .enumeration (he _ hid)
  | pointer hk _ _ ih => exact .pointer hk ih
  | array _ ih => exact .array ih
  | function _ _ _ ih ihs => exact .function ih ihs

end CType

/-! ## 3. The declaration read back -/

/-- A declaration with a semicolon behind, over a scope that has its records, is read as one
declaration. -/
theorem parse_written {l : Labels} {ctx : Context} {rp : RecordId → Prop} {ep : EnumId → Prop}
    {t : CType} {x : String} (ht : t.Writable rp ep) (hx : isIdentifier x = true)
    (hrs : ∀ id, rp id → isIdentifier (l.record id).2 = true)
    (hes : ∀ id, ep id → isIdentifier (l.enumeration id) = true)
    (hsc : ({ context := ctx } : Scope).Ready l rp) :
    ∃ t' sc loc, ({ context := ctx } : Scope).Widens sc ∧ t.Matches l sc.context t' ∧
      parseSource (t.written l x ++ ";") ctx = .ok ([⟨some x, t', none, loc⟩], sc) := by
  have hspelled := (CType.spelled_written hrs hes ht.legible (spelled_identifier hx)
    fun _ => noAmp_identifier hx).append (spelled_mark .semicolon) (clean_mark (by decide))
  obtain ⟨ts, stop, hkinds, hparse⟩ := parse_of_spelled hspelled ctx
  obtain ⟨T, S, rfl, hT, hS⟩ := List.map_eq_append_iff.1 hkinds
  obtain ⟨semi, S, rfl, hsemi, hnil⟩ := List.map_eq_cons_iff.1 hS
  obtain rfl := List.map_eq_nil_iff.1 hnil
  obtain ⟨t', sc, hwidens, -, hmatches, hreads⟩ := reads_declaration ht.legible (some x) hsc
  rw [ht.emptied_eq] at hmatches
  obtain ⟨loc, hgives⟩ := gives_named stop ht.legible hreads (R := []) hT hsemi
  exact ⟨t', sc, loc, hwidens, hmatches, hparse.trans (declarations_cons hgives declarations_nil)⟩

namespace Registry

variable {V : Vocabulary} {r : Registry} {env : Environment} {tagOf : TypeId → Tag} {k₀ : Naming}
  {rp : RecordId → Prop} {ep : EnumId → Prop}

section

variable (hp : r.Plain) (hl : r.Loaded env tagOf k₀)

include hp hl

/-- **A known type that is `Writable` is declared and read back,** over the context that its tags
come from. -/
theorem parse_declare_known (hctx : r.context.Tidy V) {t : CType}
    (ht : t.Writable r.context.Tagged r.context.EnumTagged) (hk : r.ledger.Known t) {x : String}
    (hx : isIdentifier x = true) (k : Naming) :
    ∃ sc loc, parseSource ((env.declare (r.ledger.idOf t) x k).1 ++ ";") r.context =
      .ok ([⟨some x, t, none, loc⟩], sc) := by
  have hw := writable_known hp hl ht hk
  obtain ⟨K, hK⟩ : ∃ K, (env.declare (r.ledger.idOf t) x k).2 = K := ⟨_, rfl⟩
  have hrecord : ∀ id, r.context.Tagged id ∧ r.ledger.Known (.record .none id) →
      r.context.findRecord? ((r.labels env K).record id).2 = some id ∧
        isIdentifier ((r.labels env K).record id).2 = true := by
    rintro id ⟨⟨d, n, hd, hn⟩, hid⟩
    obtain ⟨hfind, hident⟩ := (hctx.tags id d n hd hn).imp_right (V.isIdentifier n)
    rw [labels_record_tagged hp hl hd hn (ne_empty_of_isIdentifier hident) hid]
    exact ⟨hfind, hident⟩
  have henum : ∀ id, r.context.EnumTagged id ∧ r.ledger.Known (.enumeration .none id) →
      r.context.findEnum? ((r.labels env K).enumeration id) = some id ∧
        isIdentifier ((r.labels env K).enumeration id) = true := by
    rintro id ⟨⟨d, n, hd, hn⟩, hid⟩
    obtain ⟨hfind, hident⟩ := (hctx.enumTags id d n hd hn).imp_right (V.isIdentifier n)
    rw [labels_enumeration_tagged hp hl hd hn (ne_empty_of_isIdentifier hident) hid]
    exact ⟨hfind, hident⟩
  have hspelt : t.Spelt V r.context := ht.spelt
    (fun id ⟨_, _, hd, _⟩ => (List.getElem?_eq_some_iff.1 hd).1)
    fun id ⟨_, _, hd, _⟩ => (List.getElem?_eq_some_iff.1 hd).1
  have htext : (env.declare (r.ledger.idOf t) x k).1 = t.written (r.labels env K) x := by
    have htells := (declareWith_stated hp hl ⟨hspelt, ht.canonical, hk⟩ .none [] (clear_nil r _)
      x k).2 K (by rw [← hK]; exact .refl)
    rwa [ht.stated_eq] at htells
  have hready : ({ context := r.context } : Scope).Ready (r.labels env K) fun id =>
      r.context.Tagged id ∧ r.ledger.Known (.record .none id) :=
    ⟨fun id h => ⟨id, (hrecord id h).1⟩, fun n u hn => nomatch hn⟩
  obtain ⟨t', sc, loc, hwidens, hmatches, hparse⟩ := parse_written hw hx
    (fun id h => (hrecord id h).2) (fun id h => (henum id h).2) hready
  obtain rfl : t' = t := hmatches.eq hw
    (fun id h => (hwidens.findRecord? _).trans (hrecord id h).1)
    (fun id h => hwidens.enumeration _ _ (henum id h).1)
  exact ⟨sc, loc, by rw [htext, hparse]⟩

end

/-- **Declarations go there and back.** Over the context of a source (`Context.Read`), a canonical
type over what has a tag (`CType.Writable`) is registered and its table is loaded; the declaration
of a name with it, as `declare` writes it, is read as this one declaration. -/
theorem parse_declare {ctx : Context} (hctx : ctx.Read) (detail : Detail) {t : CType}
    (ht : t.Writable ctx.Tagged ctx.EnumTagged) {x : String} (hx : isIdentifier x = true) :
    ∃ id r env k sc loc,
      register t { context := ctx, detail } = (id, r) ∧
      Environment.ofEntries r.table.types {} = (.ok env, k) ∧
      parseSource ((env.declare id x k).1 ++ ";") ctx = .ok ([⟨some x, t, none, loc⟩], sc) := by
  have hfresh : ({ context := ctx, detail } : Registry).Fresh := ⟨rfl, rfl, rfl, rfl, rfl⟩
  have hplain : ({ context := ctx, detail } : Registry).Plain :=
    ⟨hfresh.kept, rfl, rfl, rfl, rfl⟩
  have hp := hplain.register t
  obtain ⟨env, k, tagOf, hload, hl⟩ := loaded_ofEntries hp
  obtain ⟨-, -, hk, -⟩ := register_kept hfresh.kept t
  obtain ⟨sc, loc, hparse⟩ := parse_declare_known hp hl hctx.tidy ht hk hx k
  exact ⟨_, _, env, k, sc, loc, rfl, hload, hparse⟩

/-- The context of a source that mentions one struct. -/
def mentionContext : Context := ⟨[⟨.structKey, some "S", none, []⟩], []⟩

theorem read_mentionContext : mentionContext.Read := by
  have htokens : tokenize (Text.bytes "struct S;") =
      .ok ([⟨.keyword (.record .structKey), ⟨1, 1⟩⟩, ⟨.ident "S", ⟨1, 8⟩⟩,
        ⟨.mark .semicolon, ⟨1, 9⟩⟩], ⟨1, 10⟩) := by
    decide +kernel
  have hdecls : declarations ⟨1, 10⟩ {} [⟨.keyword (.record .structKey), ⟨1, 1⟩⟩,
        ⟨.ident "S", ⟨1, 8⟩⟩, ⟨.mark .semicolon, ⟨1, 9⟩⟩] =
      .ok ([⟨none, .record .none ⟨0⟩, none, ⟨1, 1⟩⟩], ⟨[], mentionContext⟩) := by
    cbv
  have hparse : parseBytes (Text.bytes "struct S;") =
      .ok ([⟨none, .record .none ⟨0⟩, none, ⟨1, 1⟩⟩], ⟨[], mentionContext⟩) := by
    rw [parseBytes, htokens]
    exact hdecls
  exact Context.Read.source .empty hparse

/-- A pointer to a function of an array of pointers to a constant struct. -/
def handlerType : CType :=
  .pointer .none .pointer (.function .none (.builtin .none "void")
    [.array .none (.fixed 3) (.pointer .none .pointer (.record ⟨true, false, false⟩ ⟨0⟩))] true)

theorem parse_declare_handler :
    ∃ id r env k sc loc,
      register handlerType { context := mentionContext } = (id, r) ∧
      Environment.ofEntries r.table.types {} = (.ok env, k) ∧
      parseSource ((env.declare id "handler" k).1 ++ ";") mentionContext =
        .ok ([⟨some "handler", handlerType, none, loc⟩], sc) := by
  have hrecord : (CType.record ⟨true, false, false⟩ ⟨0⟩).Writable mentionContext.Tagged
      mentionContext.EnumTagged := .record ⟨_, "S", rfl, rfl⟩
  refine parse_declare read_mentionContext .quiet ?_ (by decide)
  refine .pointer (by decide) (fun _ => rfl) (.function (.builtin ⟨[.void], rfl⟩) ?_ (.inl rfl))
  intro p hp
  obtain rfl := List.mem_singleton.1 hp
  exact .array (.pointer (by decide) (fun _ => rfl) hrecord)

end Registry

end TypeLedger
