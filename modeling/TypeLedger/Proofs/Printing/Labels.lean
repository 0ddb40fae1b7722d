import TypeLedger.Proofs.Grammar.Tidy
import TypeLedger.Proofs.Printing.Declared
import TypeLedger.Proofs.Printing.Fresh
import TypeLedger.Proofs.Tables.Transfer

/-!
# What is called what

* `writable_known`: the parts of a type that a registry knows are known to it.
* `labels_record_tagged`, `labels_enumeration_tagged`: what has a tag is called by it.
* `Registry.Names`: labels that tell the registered records apart and the registered enumerations,
  and that are tags where there are tags. `names_labels`: once all have been named, the labels of
  the environment do.
-/

namespace TypeLedger

/-! ## 1. Tags -/

namespace Context

/-- The record has a tag. -/
def Tagged (ctx : Context) (id : RecordId) : Prop :=
  ∃ d n, ctx.record? id = some d ∧ d.name = some n

/-- The enumeration has a tag. -/
def EnumTagged (ctx : Context) (id : EnumId) : Prop :=
  ∃ d n, ctx.enum? id = some d ∧ d.name = some n

end Context

theorem ne_empty_of_isIdentifier {s : String} (h : isIdentifier s = true) : s ≠ "" := by
  rintro rfl
  revert h
  decide

namespace Registry

variable {V : Vocabulary} {r : Registry} {env : Environment} {tagOf : TypeId → Tag} {k₀ : Naming}
  {rp : RecordId → Prop} {ep : EnumId → Prop}

/-- Labels that tell registered records apart and registered enumerations, with the tags for labels
where there are tags; each label is an identifier (`isIdentifier`). -/
structure Names (r : Registry) (l : Labels) : Prop where
  key : ∀ id d, r.context.record? id = some d → r.ledger.Known (.record .none id) →
    (l.record id).1 = d.key
  tag : ∀ id d n, r.context.record? id = some d → r.ledger.Known (.record .none id) →
    d.name = some n → (l.record id).2 = n
  identifier : ∀ id d, r.context.record? id = some d → r.ledger.Known (.record .none id) →
    isIdentifier (l.record id).2 = true
  injective : ∀ a b da db, r.context.record? a = some da → r.context.record? b = some db →
    r.ledger.Known (.record .none a) → r.ledger.Known (.record .none b) →
    (l.record a).2 = (l.record b).2 → a = b
  enumTag : ∀ id d n, r.context.enum? id = some d → r.ledger.Known (.enumeration .none id) →
    d.name = some n → l.enumeration id = n
  enumIdentifier : ∀ id, r.ledger.Known (.enumeration .none id) →
    isIdentifier (l.enumeration id) = true
  enumInjective : ∀ a b, r.ledger.Known (.enumeration .none a) →
    r.ledger.Known (.enumeration .none b) → l.enumeration a = l.enumeration b → a = b

section

variable (hp : r.Plain) (hl : r.Loaded env tagOf k₀)

include hp hl

/-- The parts of a type that the registry knows are `Known` to it. -/
theorem writable_known {t : CType} (hw : t.Writable rp ep) (hk : r.ledger.Known t) :
    t.Writable (fun id => rp id ∧ r.ledger.Known (.record .none id))
      (fun id => ep id ∧ r.ledger.Known (.enumeration .none id)) := by
  induction hw with
  | builtin hs => exact .builtin hs
  | @record q id hid =>
    have hw : (CType.record q id).Writable rp ep := .record hid
    exact .record ⟨hid, known_unqualified hp.kept hl.toShows
      (settled_of_writable hw hk)⟩
  | @enumeration q id hid =>
    have hw : (CType.enumeration q id).Writable rp ep := .enumeration hid
    exact .enumeration ⟨hid, known_unqualified hp.kept hl.toShows
      (settled_of_writable hw hk)⟩
  | @pointer q k t hkind href hwt ih =>
    have hw : (CType.pointer q k t).Writable rp ep := .pointer hkind href hwt
    have hu := settled_unqualified hp.kept hl.toShows hw (settled_of_writable hw hk)
    exact .pointer hkind href (ih (hu.known_component hp.kept hl.toShows (fun _ h => nomatch h)
      (List.mem_singleton_self _)))
  | @array n t hwt ih =>
    have hu := settled_of_writable (CType.Writable.array hwt) hk
    exact .array (ih (hu.known_component hp.kept hl.toShows (fun _ h => nomatch h)
      (List.mem_singleton_self _)))
  | @function t ps v hwt hps hv ih ihs =>
    have hu := settled_of_writable (CType.Writable.function hwt hps hv) hk
    have hcomp : r.context.components (.function .none t ps v) = t :: ps := rfl
    refine .function (ih ?_) (fun p hm => ihs p hm ?_) hv
    · exact hu.known_component hp.kept hl.toShows (fun _ h => nomatch h)
        (by rw [hcomp]; exact List.mem_cons_self)
    · exact hu.known_component hp.kept hl.toShows (fun _ h => nomatch h)
        (by rw [hcomp]; exact List.mem_cons_of_mem _ hm)

/-- The label of a record is its key and what the tag of its row has been given. -/
theorem label_record {id : RecordId} {d : RecordDecl} (hd : r.context.record? id = some d)
    (hk : r.ledger.Known (.record .none id)) (K : Naming) :
    ∃ row ∈ r.ledger.rows, row.type = .record .none id ∧
      r.context.tagName? row.type = some d.name ∧
      (r.labels env K).record id = (d.key, (K.current? (tagOf row.id)).getD "") := by
  obtain ⟨row, hm, hrt, -, hlk⟩ := lookup_record hp.kept hl.toShows hd (settled_record hk)
  refine ⟨row, hm, hrt, ?_, ?_⟩
  · rw [hrt, Context.tagName?]
    simp [CType.quals, Context.classify, hd, Qualifiers.none, Qualifiers.isEmpty]
  · rw [labels_record, Environment.recordLabel_of_lookup hlk rfl]

/-- The label of an enumeration is what the tag of its row has been given. -/
theorem label_enumeration {id : EnumId} (hk : r.ledger.Known (.enumeration .none id))
    (K : Naming) :
    ∃ row ∈ r.ledger.rows, row.type = .enumeration .none id ∧
      r.context.tagName? row.type = some ((r.context.enum? id).bind EnumDecl.name) ∧
      (r.labels env K).enumeration id = (K.current? (tagOf row.id)).getD "" := by
  obtain ⟨row, hm, hrt, -, hlk⟩ :=
    lookup_enumeration hp.kept hl.toShows (settled_enumeration hk)
  refine ⟨row, hm, hrt, ?_, ?_⟩
  · rw [hrt, Context.tagName?]
    rfl
  · rw [labels_enumeration, Environment.enumLabel_of_lookup hlk rfl]

/-- A record with a tag is called by its tag. -/
theorem labels_record_tagged {id : RecordId} {d : RecordDecl} {n : String}
    (hd : r.context.record? id = some d) (hn : d.name = some n) (hne : n ≠ "")
    (hk : r.ledger.Known (.record .none id)) (K : Naming) :
    (r.labels env K).record id = (d.key, n) := by
  obtain ⟨row, hm, -, htag, hlabel⟩ := label_record hp hl hd hk K
  rw [hlabel, (hl.named row hm n hne (by rw [htag, hn])).1]
  rfl

/-- An enumeration with a tag is called by its tag. -/
theorem labels_enumeration_tagged {id : EnumId} {d : EnumDecl} {n : String}
    (hd : r.context.enum? id = some d) (hn : d.name = some n) (hne : n ≠ "")
    (hk : r.ledger.Known (.enumeration .none id)) (K : Naming) :
    (r.labels env K).enumeration id = n := by
  obtain ⟨row, hm, -, htag, hlabel⟩ := label_enumeration hp hl hk K
  rw [hlabel, (hl.named row hm n hne (by rw [htag, hd, Option.bind_some, hn])).1]
  rfl

/-! ## 2. All labels -/

variable {K : Naming}

omit hp in
/-- A row with a tag that is an identifier, or with none, has an identifier for its name. -/
theorem name_row (hK : K.Distinct k₀.namer.taken) {row : Row} (hm : row ∈ r.ledger.rows)
    {name : Option String} (ht : r.context.tagName? row.type = some name)
    (hi : ∀ n, name = some n → isIdentifier n = true)
    (hnamed : ∃ n, K.current? (tagOf row.id) = some n) :
    ∃ n, K.current? (tagOf row.id) = some n ∧ isIdentifier n = true ∧
      (∀ m, name = some m → n = m) := by
  cases name with
  | some n =>
    have htag := (hl.named row hm n (ne_empty_of_isIdentifier (hi n rfl)) ht).1
    refine ⟨n, by rw [htag]; rfl, hi n rfl, fun m h => Option.some.inj h⟩
  | none =>
    obtain ⟨s, hs⟩ := hl.anonymous row hm ht
    obtain ⟨n, hn⟩ := hnamed
    refine ⟨n, hn, ?_, fun m h => nomatch h⟩
    rw [hs] at hn
    exact (hK.made s n hn).2.2

omit hp in
/-- Two rows that are called the same are one row or have one tag. -/
theorem eq_of_name_eq (hK : K.Distinct k₀.namer.taken) {a b : Row} (ha : a ∈ r.ledger.rows)
    (hb : b ∈ r.ledger.rows) {na nb : Option String}
    (hta : r.context.tagName? a.type = some na) (htb : r.context.tagName? b.type = some nb)
    (hia : ∀ n, na = some n → isIdentifier n = true)
    (hib : ∀ n, nb = some n → isIdentifier n = true) {n : String}
    (hna : K.current? (tagOf a.id) = some n) (hnb : K.current? (tagOf b.id) = some n) :
    a = b ∨ na = some n ∧ nb = some n := by
  have hnamed : ∀ {row : Row} {m : String}, row ∈ r.ledger.rows → isIdentifier m = true →
      r.context.tagName? row.type = some (some m) → K.current? (tagOf row.id) = some n →
      m = n ∧ n ∈ k₀.namer.taken := by
    intro row m hrow hm ht hn
    obtain ⟨htag, htaken⟩ := hl.named row hrow m (ne_empty_of_isIdentifier hm) ht
    rw [htag] at hn
    obtain rfl := Option.some.inj hn
    exact ⟨rfl, htaken⟩
  have hanonymous : ∀ {row : Row}, row ∈ r.ledger.rows → r.context.tagName? row.type = some none →
      K.current? (tagOf row.id) = some n →
      ∃ s, tagOf row.id = .anonymous s ∧ K.given.lookup s = some n ∧ n ∉ k₀.namer.taken := by
    intro row hrow ht hn
    obtain ⟨s, hs⟩ := hl.anonymous row hrow ht
    rw [hs] at hn
    exact ⟨s, hs, hn, (hK.made s n hn).2.1⟩
  cases na with
  | some ma =>
    obtain ⟨rfl, htaken⟩ := hnamed ha (hia ma rfl) hta hna
    cases nb with
    | some mb =>
      obtain ⟨rfl, -⟩ := hnamed hb (hib mb rfl) htb hnb
      exact .inr ⟨rfl, rfl⟩
    | none =>
      obtain ⟨-, -, -, hnot⟩ := hanonymous hb htb hnb
      exact absurd htaken hnot
  | none =>
    obtain ⟨s, hs, hgs, hnot⟩ := hanonymous ha hta hna
    cases nb with
    | some mb =>
      obtain ⟨rfl, htaken⟩ := hnamed hb (hib mb rfl) htb hnb
      exact absurd htaken hnot
    | none =>
      obtain ⟨s', hs', hgs', -⟩ := hanonymous hb htb hnb
      obtain rfl := hK.injective s s' n hgs hgs'
      exact .inl (hl.distinct a ha b hb s hs hs')

omit hp in
/-- Two rows with one label are one row or have one tag. -/
theorem eq_of_label_eq (hK : K.Distinct k₀.namer.taken)
    (hall : ∀ row ∈ r.ledger.rows, ∃ n, K.current? (tagOf row.id) = some n) {a b : Row}
    (ha : a ∈ r.ledger.rows) (hb : b ∈ r.ledger.rows) {na nb : Option String}
    (hta : r.context.tagName? a.type = some na) (htb : r.context.tagName? b.type = some nb)
    (hia : ∀ n, na = some n → isIdentifier n = true)
    (hib : ∀ n, nb = some n → isIdentifier n = true)
    (he : (K.current? (tagOf a.id)).getD "" = (K.current? (tagOf b.id)).getD "") :
    a = b ∨ ∃ n, na = some n ∧ nb = some n := by
  obtain ⟨n, hna⟩ := hall a ha
  obtain ⟨m, hnb⟩ := hall b hb
  obtain rfl : n = m := by
    rw [hna, hnb] at he
    exact he
  exact (eq_of_name_eq hl hK ha hb hta htb hia hib hna hnb).imp_right fun h => ⟨n, h⟩

omit hp hl in
/-- The tag of an enumeration is an identifier, and stands for it. -/
theorem tidy_enum_name (hctx : r.context.Tidy V) {id : EnumId} {n : String}
    (hn : (r.context.enum? id).bind EnumDecl.name = some n) :
    r.context.findEnum? n = some id ∧ isIdentifier n = true := by
  obtain ⟨d, hd, hdn⟩ := Option.bind_eq_some_iff.1 hn
  exact (hctx.enumTags id d n hd hdn).imp_right (V.isIdentifier n)

/-- **Once all rows have been named, the labels tell records and enumerations apart** (`Names`). -/
theorem names_labels (hctx : r.context.Tidy V) (hK : K.Distinct k₀.namer.taken)
    (hall : ∀ row ∈ r.ledger.rows, ∃ n, K.current? (tagOf row.id) = some n) :
    r.Names (r.labels env K) := by
  have hident : ∀ id d, r.context.record? id = some d → ∀ n, d.name = some n →
      isIdentifier n = true := fun id d hd n hn => V.isIdentifier n (hctx.tags id d n hd hn).2
  have henum : ∀ id n, (r.context.enum? id).bind EnumDecl.name = some n →
      isIdentifier n = true := fun id n hn => (tidy_enum_name hctx hn).2
  constructor
  case key =>
    intro id d hd hk
    obtain ⟨row, -, -, -, hlabel⟩ := label_record hp hl hd hk K
    rw [hlabel]
  case tag =>
    intro id d n hd hk hn
    rw [labels_record_tagged hp hl hd hn (ne_empty_of_isIdentifier (hident id d hd n hn)) hk]
  case identifier =>
    intro id d hd hk
    obtain ⟨row, hm, -, htag, hlabel⟩ := label_record hp hl hd hk K
    obtain ⟨n, hn, hi, -⟩ := name_row hl hK hm htag (hident id d hd) (hall row hm)
    rw [hlabel, hn]
    exact hi
  case injective =>
    intro a b da db hda hdb hka hkb he
    obtain ⟨rowa, hma, hta, htaga, hla⟩ := label_record hp hl hda hka K
    obtain ⟨rowb, hmb, htb, htagb, hlb⟩ := label_record hp hl hdb hkb K
    rw [hla, hlb] at he
    rcases eq_of_label_eq hl hK hall hma hmb htaga htagb (hident a da hda) (hident b db hdb) he
      with rfl | ⟨n, hna, hnb⟩
    · rw [hta] at htb
      cases htb
      rfl
    · have hfind := (hctx.tags a da n hda hna).1
      rw [(hctx.tags b db n hdb hnb).1] at hfind
      exact (Option.some.inj hfind).symm
  case enumTag =>
    intro id d n hd hk hn
    have hi := henum id n (by rw [hd, Option.bind_some, hn])
    exact labels_enumeration_tagged hp hl hd hn (ne_empty_of_isIdentifier hi) hk K
  case enumIdentifier =>
    intro id hk
    obtain ⟨row, hm, -, htag, hlabel⟩ := label_enumeration hp hl hk K
    obtain ⟨n, hn, hi, -⟩ := name_row hl hK hm htag (henum id) (hall row hm)
    rw [hlabel, hn]
    exact hi
  case enumInjective =>
    intro a b hka hkb he
    obtain ⟨rowa, hma, hta, htaga, hla⟩ := label_enumeration hp hl hka K
    obtain ⟨rowb, hmb, htb, htagb, hlb⟩ := label_enumeration hp hl hkb K
    rw [hla, hlb] at he
    rcases eq_of_label_eq hl hK hall hma hmb htaga htagb (henum a) (henum b) he
      with rfl | ⟨n, hna, hnb⟩
    · rw [hta] at htb
      cases htb
      rfl
    · have hfind := (tidy_enum_name hctx hna).1
      rw [(tidy_enum_name hctx hnb).1] at hfind
      exact (Option.some.inj hfind).symm

end

end Registry

end TypeLedger
