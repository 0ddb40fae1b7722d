import TypeLedger.Pipeline
import TypeLedger.Proofs.Printing.Labels
import TypeLedger.Proofs.Printing.Lines
import TypeLedger.Proofs.Printing.Order
import TypeLedger.Proofs.Printing.Stated

/-!
# The lines of a table

* `Registry.Says`: the registry knows a type that declarations can spell. What such a type states is
  legible, unless there is `_Complex` in it (`SpeltIn.legible`).
* `RecordDecl.stated`: a record with what the declarations of its members state.
* `tells_renderEnvironment`: the lines of a registry's table are the declarations of its records,
  the definitions of those with a body, each once, and the global symbols.
* `Registry.Writes`: the registry knows a type whose canonical form can be written. Over such types
  the lines say what the registry has (`lines_rendering`).
-/

namespace TypeLedger

/-! ## 1. Records of a context -/

/-- What is known of a record; nothing of one that is not declared. -/
def Context.decl (ctx : Context) (id : RecordId) : RecordDecl :=
  (ctx.record? id).getD ⟨.structKey, none, none, []⟩

theorem Context.decl_eq {ctx : Context} {id : RecordId} {d : RecordDecl}
    (h : ctx.record? id = some d) : ctx.decl id = d := by
  rw [decl, h]
  rfl

/-- A list of images is the image of a list. -/
theorem exists_map_eq {α β : Type} {f : α → β} {p : α → Prop} {bs : List β}
    (h : ∀ b ∈ bs, ∃ a, p a ∧ f a = b) : ∃ as : List α, bs = as.map f ∧ ∀ a ∈ as, p a := by
  induction bs with
  | nil => exact ⟨[], rfl, fun _ h => nomatch h⟩
  | cons b bs ih =>
    obtain ⟨⟨a, ha, rfl⟩, hbs⟩ := List.forall_mem_cons.1 h
    obtain ⟨as, rfl, has⟩ := ih hbs
    exact ⟨a :: as, rfl, List.forall_mem_cons.2 ⟨ha, has⟩⟩

/-- The member with the type that its declaration states. -/
def MemberDecl.stated (m : MemberDecl) : MemberDecl :=
  { m with type := m.type.desugar.stated .none }

/-- A member whose declaration states its type has this type still. -/
theorem MemberDecl.desugar_stated_self {m : MemberDecl}
    (h : m.type.desugar.stated .none = m.type.desugar) :
    m.stated.type.desugar = m.type.desugar := by
  show (m.type.desugar.stated .none).desugar = _
  rw [h, CType.desugar_of_not_hasSugar _ (CType.hasSugar_desugar _)]

/-- The record with what the declarations of its members state. -/
def RecordDecl.stated (d : RecordDecl) : RecordDecl :=
  { d with members := d.members.map (·.map MemberDecl.stated) }

theorem RecordDecl.members_stated (d : RecordDecl) :
    d.stated.members.getD [] = (d.members.getD []).map MemberDecl.stated := by
  cases hms : d.members <;> simp [stated, hms]

namespace Registry

variable {V : Vocabulary} {r : Registry} {env : Environment} {tagOf : TypeId → Tag} {k₀ : Naming}

/-! ## 2. Types that can be spelt -/

/-- The record is declared, and registered (`Known`). -/
def HasRecord (r : Registry) (id : RecordId) : Prop :=
  (r.context.record? id).isSome = true ∧ r.ledger.Known (.record .none id)

/-- The enumeration is registered. -/
def HasEnum (r : Registry) (id : EnumId) : Prop := r.ledger.Known (.enumeration .none id)

/-- The registry knows the type, and declarations can spell it. -/
structure Says (V : Vocabulary) (r : Registry) (t : CType) : Prop where
  spelt : t.Spelt V r.context
  known : r.ledger.Known t

section

variable (hp : r.Plain) (hl : r.Loaded env tagOf k₀)

include hp

theorem Says.desugar {t : CType} (h : r.Says V t) :
    r.SpeltIn V t.desugar ∧ r.ledger.idOf t = r.ledger.idOf t.desugar := by
  obtain ⟨hid, hkd⟩ := hp.kept.sound.idOf_desugar h.known
  exact ⟨⟨h.spelt.desugar, CType.hasSugar_desugar _, hkd⟩, hid⟩

include hl

/-- What a registered type states is legible over what is registered, unless it has `_Complex`. -/
theorem SpeltIn.legible {t : CType} (h : r.SpeltIn V t) (hc : t.hasComplex = false) :
    ∀ q, (t.stated q).Legible r.HasRecord r.HasEnum := by
  obtain ⟨hs, hsugar, hk⟩ := h
  induction hs with
  | builtin hs => exact fun q => .builtin hs
  | @record p id hid =>
    have h : r.SpeltIn V (.record p id) := ⟨.record hid, hsugar, hk⟩
    refine fun q => .record ⟨?_, (h.unqualified hp.kept hl.toShows).known⟩
    rw [Context.record?, List.getElem?_eq_getElem hid]
    rfl
  | @enumeration p id hid =>
    have h : r.SpeltIn V (.enumeration p id) := ⟨.enumeration hid, hsugar, hk⟩
    exact fun q => .enumeration (h.unqualified hp.kept hl.toShows).known
  | @pointer p k t hkind ht ih =>
    have h : r.SpeltIn V (.pointer p k t) := ⟨.pointer hkind ht, hsugar, hk⟩
    have hpt := h.pointee hp.kept hl.toShows
    exact fun q => (ih hc hpt.canonical hpt.known .none).meld hkind
  | @array p n t ht ih =>
    have h : r.SpeltIn V (.array p n t) := ⟨.array ht, hsugar, hk⟩
    have hel := h.element hp.kept hl.toShows
    exact fun q => .array (ih hc hel.canonical hel.known _)
  | @function p t ps v ht hps ih ihs =>
    have h : r.SpeltIn V (.function p t ps v) := ⟨.function ht hps, hsugar, hk⟩
    obtain ⟨hst, hsps⟩ := h.signature hp.kept hl.toShows
    simp only [CType.hasComplex, CType.anyComplex_eq_any, Bool.or_eq_false_iff,
      List.any_eq_false, Bool.not_eq_true] at hc
    refine fun q => .function (ih hc.1 hst.canonical hst.known .none) fun c hm => ?_
    rw [CType.statedAll_eq_map] at hm
    obtain ⟨c, hmem, rfl⟩ := List.mem_map.1 hm
    exact ihs c hmem (hc.2 c hmem) (hsps c hmem).canonical (hsps c hmem).known .none
  | synonym _ _ => cases hsugar
  | complex _ _ _ => cases hc

theorem Says.declare {t : CType} (h : r.Says V t) (name : String) :
    Tells (env.declare (r.ledger.idOf t) name)
      fun K => (t.desugar.stated .none).written (r.labels env K) name := by
  obtain ⟨hs, hid⟩ := h.desugar hp
  rw [hid]
  exact declareWith_stated hp hl hs .none [] (clear_nil r _) name

/-! ## 3. The lines of an environment -/

theorem memberText_tells {m : MemberDecl} (h : r.Says V m.type) :
    Tells (env.memberText (r.member m)) fun K => memberText (r.labels env K) m.stated := by
  refine (tells_bind (h.declare hp hl _) fun _ => tells_pure _).congr fun K => ?_
  rw [memberText, MemberDecl.stated, h.spelt.desugar_stated]
  rfl

theorem classMembers_tells {ms : List MemberDecl} (h : ∀ m ∈ ms, r.Says V m.type)
    (current : Option Access) :
    Tells (env.classMembers current (ms.map r.member))
      fun K => classTexts (r.labels env K) current (ms.map MemberDecl.stated) := by
  induction ms generalizing current with
  | nil => exact tells_pure []
  | cons m ms ih =>
    obtain ⟨hm, hms⟩ := List.forall_mem_cons.1 h
    have ha : (r.member m).access = m.access := rfl
    have has : m.stated.access = m.access := rfl
    rw [List.map_cons, Environment.classMembers, ha]
    cases hacc : m.access with
    | none =>
      refine Tells.congr (tells_bind (ih hms current) fun _ => tells_pure _) fun K => ?_
      rw [List.map_cons, classTexts, has, hacc]
    | some a =>
      refine Tells.congr (tells_bind (memberText_tells hp hl hm) fun text =>
        tells_bind (ih hms (some a)) fun texts => tells_pure _) fun K => ?_
      rw [List.map_cons, classTexts, has, hacc]
      rfl

theorem bodyTexts_tells {ms : List MemberDecl} (h : ∀ m ∈ ms, r.Says V m.type)
    (key : RecordKey) :
    Tells (env.bodyTexts key (ms.map r.member))
      fun K => membersTexts (r.labels env K) key (ms.map MemberDecl.stated) := by
  have hplain : Tells ((ms.map r.member).mapM env.memberText)
      fun K => (ms.map MemberDecl.stated).map (memberText (r.labels env K)) := by
    rw [List.mapM_map]
    refine (tells_mapM fun m hm => memberText_tells hp hl (h m hm)).congr fun K => ?_
    rw [List.map_map]
    rfl
  cases key with
  | classKey => exact classMembers_tells hp hl h none
  | structKey => exact hplain
  | unionKey => exact hplain

/-- What the environment has of a registered record. -/
theorem lookup_hasRecord (hctx : r.context.Tidy V) {id : RecordId} (h : r.HasRecord id) :
    ∃ tag bs, env.lookup? (r.ledger.idOf (.record .none id)) =
        some ⟨r.ledger.idOf (.record .none id), .none, .aggregate (r.context.decl id).key tag
          (r.context.decl id).isComplete (((r.context.decl id).members.getD []).map r.member) bs⟩ ∧
      env.baseEdges (r.ledger.idOf (.record .none id)) = (r.context.decl id).bases.map r.edge ∧
      ∀ K, (r.labels env K).record id = ((r.context.decl id).key, (K.current? tag).getD "") := by
  obtain ⟨d, hd⟩ := Option.isSome_iff_exists.1 h.1
  obtain ⟨row, hm, hrt, hid, hlk⟩ := lookup_record hp.kept hl.toShows hd (settled_record h.2)
  have hbases := bases_record hp.kept hp.added hm hrt hd
  -- a record without a body has neither members nor bases
  have hcomplete : (d.isComplete || !((d.members.getD []).map r.member).isEmpty ||
      !(r.bases row.id).isEmpty) = d.isComplete := by
    cases hms : d.members with
    | some ms => simp [RecordDecl.isComplete, hms]
    | none =>
      rw [hbases, (hctx.records id d hd).incomplete hms]
      simp [RecordDecl.isComplete, hms]
  rw [hcomplete] at hlk
  rw [Context.decl_eq hd]
  refine ⟨_, _, hlk, ?_, fun K => ?_⟩
  · rw [← hid, hl.edges row hm, hbases]
  · rw [labels_record, Environment.recordLabel_of_lookup hlk rfl]

/-- What a registered record refers to is `Known`. -/
theorem HasRecord.known {id : RecordId} (h : r.HasRecord id) {c : CType}
    (hc : c ∈ (r.context.decl id).types) : r.ledger.Known c := by
  obtain ⟨d, hd⟩ := Option.isSome_iff_exists.1 h.1
  refine (settled_record h.2).known_component hp.kept hl.toShows (fun _ h => nomatch h) ?_
  rw [Context.components_record hd, ← Context.decl_eq hd]
  exact hc

/-- The types of the `members` of a registered record are known, and their names are identifiers. -/
theorem HasRecord.members_said (hctx : r.context.Tidy V) {id : RecordId} (h : r.HasRecord id) :
    ∀ m ∈ (r.context.decl id).members.getD [], r.Says V m.type ∧
      ∀ n, m.name = some n → isIdentifier n = true := by
  intro m hm
  have hknown := h.known hp hl (List.mem_append_left _ (List.mem_map_of_mem hm))
  obtain ⟨d, hd⟩ := Option.isSome_iff_exists.1 h.1
  rw [Context.decl_eq hd] at hm
  have htidy := (hctx.records id d hd).member hm
  exact ⟨⟨htidy.type, hknown⟩, fun n hn => V.isIdentifier n (htidy.name n hn)⟩

/-- The `bases` of a registered record are registered records. -/
theorem HasRecord.base (hctx : r.context.Tidy V) {id : RecordId} (h : r.HasRecord id) :
    ∀ b ∈ (r.context.decl id).bases, ∃ i, b.type = .record .none i ∧ r.HasRecord i := by
  intro b hb
  have hknown := h.known hp hl (List.mem_append_right _ (List.mem_map_of_mem hb))
  obtain ⟨d, hd⟩ := Option.isSome_iff_exists.1 h.1
  rw [Context.decl_eq hd] at hb
  obtain ⟨i, hi, hlt⟩ := (hctx.records id d hd).bases b hb
  rw [hi] at hknown
  exact ⟨i, hi, by rw [Context.record?, List.getElem?_eq_getElem hlt]; rfl, hknown⟩

theorem edgeText_tells (hctx : r.context.Tidy V) {b : BaseDecl} {id : RecordId}
    (hb : b.type = .record .none id) (h : r.HasRecord id) :
    Tells (env.edgeText (r.edge b)) fun K => baseText (r.labels env K) b := by
  obtain ⟨tag, bs, hlk, -, hlabel⟩ := lookup_hasRecord hp hl hctx h
  have hname : Tells (env.baseName (r.edge b).base) fun K => (K.current? tag).getD "" := by
    rw [edge, Environment.baseName, hb, Environment.body?_of_lookup hlk]
    exact tells_name tag
  refine Tells.congr (tells_bind hname fun _ => tells_pure _) fun K => ?_
  rw [baseText, hb, CType.recordName, hlabel]
  rfl

theorem baseClauseText_tells (hctx : r.context.Tidy V) {id : RecordId} (h : r.HasRecord id) :
    Tells (env.baseClauseText (r.context.decl id).key (r.ledger.idOf (.record .none id)))
      fun K => basesTexts (r.labels env K) (r.context.decl id).key (r.context.decl id).bases := by
  obtain ⟨-, -, -, hedges, -⟩ := lookup_hasRecord hp hl hctx h
  have htexts : Tells (env.basesText (r.ledger.idOf (.record .none id)))
      fun K => Fragment.join ", " ((r.context.decl id).bases.map (baseText (r.labels env K))) := by
    rw [Environment.basesText, hedges, List.mapM_map]
    refine tells_bind (tells_mapM fun b hm => ?_) fun _ => tells_pure _
    obtain ⟨i, hi, hri⟩ := h.base hp hl hctx b hm
    exact edgeText_tells hp hl hctx hi hri
  cases hkey : (r.context.decl id).key with
  | classKey => exact tells_bind htexts fun _ => tells_pure _
  | structKey => exact tells_pure []
  | unionKey => exact tells_pure []

/-- **The definition of a record** `Tells` the `definitionText` under the labels. -/
theorem define?_tells (hctx : r.context.Tidy V) {id : RecordId} (h : r.HasRecord id) :
    Tells (env.define? (r.ledger.idOf (.record .none id)))
      fun K => some (definitionText (r.labels env K) id (r.context.decl id).stated) := by
  obtain ⟨tag, bs, hlk, -, hlabel⟩ := lookup_hasRecord hp hl hctx h
  rw [Environment.define?, Environment.body?_of_lookup hlk]
  refine Tells.congr (tells_bind (tells_name tag) fun _ =>
    tells_bind (baseClauseText_tells hp hl hctx h) fun _ =>
      tells_bind (bodyTexts_tells hp hl (fun m hm => (h.members_said hp hl hctx m hm).1) _) fun _ =>
        tells_pure _) fun K => ?_
  rw [definitionText, hlabel, RecordDecl.members_stated]
  rfl

/-- The declaration of a record without its body. -/
theorem forward?_tells (hctx : r.context.Tidy V) {id : RecordId} (h : r.HasRecord id) :
    Tells (env.forward? (r.ledger.idOf (.record .none id)))
      fun K => some (forwardText (r.labels env K) id) := by
  obtain ⟨tag, bs, hlk, -, hlabel⟩ := lookup_hasRecord hp hl hctx h
  rw [Environment.forward?, Environment.body?_of_lookup hlk]
  refine Tells.congr (tells_bind (tells_name tag) fun _ => tells_pure _) fun K => ?_
  rw [forwardText, hlabel]

/-! ## 4. All lines -/

/-- The record that a row is the row of. -/
def recordOf? (r : Registry) (row : Row) : Option RecordId :=
  match row.type with
  | .record q id => if q.isEmpty && (r.context.record? id).isSome then some id else none
  | _ => none

/-- The registered records, in the order of the table. -/
def records (r : Registry) : List RecordId := r.listed.filterMap r.recordOf?

omit hl in
theorem recordOf?_spec {row : Row} (hm : row ∈ r.ledger.rows) {id : RecordId}
    (h : r.recordOf? row = some id) :
    row.type = .record .none id ∧ r.HasRecord id ∧ row.id = r.ledger.idOf (.record .none id) := by
  unfold recordOf? at h
  split at h
  · rename_i q i ht
    split at h
    · rename_i hq
      obtain ⟨hq, hd⟩ := Bool.and_eq_true_iff.1 hq
      obtain rfl := Option.some.inj h
      obtain rfl := (Qualifiers.isEmpty_iff q).1 hq
      have hmemo := hp.kept.sound.row_memo row hm
      rw [ht] at hmemo
      exact ⟨ht, ⟨hd, Ledger.known_of_lookup hmemo⟩, (Ledger.idOf_of_lookup hmemo).symm⟩
    · cases h
  · cases h

/-- The registered records are listed. -/
theorem mem_records {id : RecordId} : id ∈ r.records ↔ r.HasRecord id := by
  constructor
  · intro h
    obtain ⟨row, hm, hrow⟩ := List.mem_filterMap.1 h
    exact (recordOf?_spec hp (mem_listed.1 hm) hrow).2.1
  · intro h
    obtain ⟨d, hd⟩ := Option.isSome_iff_exists.1 h.1
    obtain ⟨row, hm, hrt, -⟩ := lookup_record hp.kept hl.toShows hd (settled_record h.2)
    refine List.mem_filterMap.2 ⟨row, mem_listed.2 hm, ?_⟩
    rw [recordOf?, hrt]
    simp [Qualifiers.none, Qualifiers.isEmpty, h.1]

omit hl in
/-- No record is listed twice: two rows of one type are one row. -/
theorem nodup_records : r.records.Nodup := by
  rw [records, List.Nodup, List.pairwise_filterMap]
  have hids := List.pairwise_map.1 hp.nodup_listed
  refine hids.imp_of_mem fun {a b} ha hb hne i hi j hj => ?_
  rintro rfl
  obtain ⟨-, -, hida⟩ := recordOf?_spec hp (mem_listed.1 ha) hi
  obtain ⟨-, -, hidb⟩ := recordOf?_spec hp (mem_listed.1 hb) hj
  exact hne (hida.trans hidb.symm)

omit hp hl in
theorem body_of_recordOf?_eq_none {row : Row} (h : r.recordOf? row = none) :
    ∀ key tag complete ms bs, r.body row ≠ .aggregate key tag complete ms bs := by
  intro key tag complete ms bs
  unfold body
  split
  · rename_i hq
    cases hc : r.context.classify row.type with
    | record d =>
      obtain ⟨q, id, ht, hd⟩ := Context.classify_eq_record hc
      rw [recordOf?, ht] at h
      rw [ht] at hq
      have hq' : q.isEmpty = true := hq
      simp [hq', hd] at h
    | _ => simp
  · simp

theorem forward?_row (hctx : r.context.Tidy V) {row : Row} (hm : row ∈ r.ledger.rows) :
    Tells (env.forward? row.id)
      fun K => (r.recordOf? row).map (forwardText (r.labels env K)) := by
  cases hr : r.recordOf? row with
  | some id =>
    obtain ⟨-, hid, hrow⟩ := recordOf?_spec hp hm hr
    rw [hrow]
    exact forward?_tells hp hl hctx hid
  | none =>
    have hbody := body_of_recordOf?_eq_none hr
    have hforward : env.forward? row.id = pure none := by
      rw [Environment.forward?, Environment.body?_of_lookup (hl.row row hm), rereadRow]
      cases hb : r.body row with
      | aggregate key tag complete ms bs => exact absurd hb (hbody _ _ _ _ _)
      | _ => rfl
    rw [hforward]
    exact tells_pure none

omit hp hl in
theorem textsOf_tells {α : Type} {f : TypeId → StateM Naming (Option String)} {i : α → TypeId}
    {g : α → Naming → Option String} {as : List α} (h : ∀ a ∈ as, Tells (f (i a)) (g a)) :
    Tells (textsOf f (as.map i))
      fun K => as.filterMap fun a => (g a K).map fun text => (i a, text) := by
  induction as with
  | nil => exact tells_pure []
  | cons a as ih =>
    obtain ⟨ha, has⟩ := List.forall_mem_cons.1 h
    refine Tells.congr (tells_bind ha fun text => tells_bind (ih has) fun texts =>
      tells_pure ((text.map fun t => (i a, t)).toList ++ texts)) fun K => ?_
    cases hg : g a K with
    | none => simp [hg]
    | some text => simp [hg]

/-- The identifiers of `Defined` aggregates are those of registered records with a body. -/
theorem defined_iff (hctx : r.context.Tidy V) {i : TypeId} (hi : i ∈ env.ids) :
    env.Defined i ↔ ∃ id, r.HasRecord id ∧ (r.context.decl id).isComplete = true ∧
      r.ledger.idOf (.record .none id) = i := by
  constructor
  · rintro ⟨record, hlk, hdef⟩
    rw [hl.ids] at hi
    obtain ⟨row, hm, rfl⟩ := List.mem_map.1 hi
    have hrow := mem_listed.1 hm
    cases hr : r.recordOf? row with
    | some id =>
      obtain ⟨-, hid, hrid⟩ := recordOf?_spec hp hrow hr
      obtain ⟨tag, bs, hlk', -⟩ := lookup_hasRecord hp hl hctx hid
      rw [hrid, hlk'] at hlk
      obtain rfl := Option.some.inj hlk
      exact ⟨id, hid, hdef, hrid.symm⟩
    | none =>
      rw [hl.row row hrow] at hlk
      obtain rfl := Option.some.inj hlk
      cases hb : r.body row with
      | aggregate key tag complete ms bs =>
        exact absurd hb (body_of_recordOf?_eq_none hr _ _ _ _ _)
      | _ =>
        rw [rereadRow, hb] at hdef
        cases hdef
  · rintro ⟨id, hid, hc, rfl⟩
    obtain ⟨tag, bs, hlk, -⟩ := lookup_hasRecord hp hl hctx hid
    exact ⟨_, hlk, hc⟩

/-- The order of definitions as a list of records. -/
theorem exists_order (hctx : r.context.Tidy V) :
    ∃ order : List RecordId,
      env.definitionOrder = order.map (fun id => r.ledger.idOf (.record .none id)) ∧
      order.Nodup ∧
      ∀ id, id ∈ order ↔ r.HasRecord id ∧ (r.context.decl id).isComplete = true := by
  have hmem : ∀ i ∈ env.definitionOrder, i ∈ env.ids := by
    intro i hi
    obtain ⟨record, hlk, hdef⟩ := Environment.defined_of_mem_definitionOrder hi
    rcases hl.only i record hlk with ⟨row, hm, rfl⟩ | ⟨s, hs⟩
    · rw [hl.ids]
      exact List.mem_map_of_mem (mem_listed.2 hm)
    · rw [hs] at hdef
      cases hdef
  have hsome : ∀ i ∈ env.definitionOrder, ∃ id, (r.HasRecord id ∧
      (r.context.decl id).isComplete = true) ∧ r.ledger.idOf (.record .none id) = i := by
    intro i hi
    obtain ⟨id, hid, hc, he⟩ := (defined_iff hp hl hctx (hmem i hi)).1
      (Environment.defined_of_mem_definitionOrder hi)
    exact ⟨id, ⟨hid, hc⟩, he⟩
  obtain ⟨order, horder, hall⟩ := exists_map_eq hsome
  have hinj : ∀ a b, r.HasRecord a → r.HasRecord b →
      r.ledger.idOf (.record .none a) = r.ledger.idOf (.record .none b) → a = b := by
    intro a b ha hb he
    have hab := (settled_record ha.2).eq_of_idOf_eq hp.kept (settled_record hb.2) he
    cases hab
    rfl
  have hnodup := Environment.nodup_definitionOrder env
  rw [horder] at hnodup
  refine ⟨order, horder, hnodup.of_map _, fun id => ⟨hall id, fun ⟨hid, hc⟩ => ?_⟩⟩
  have hi : r.ledger.idOf (.record .none id) ∈ env.ids := by
    obtain ⟨row, hm, hrow⟩ := List.mem_filterMap.1 ((mem_records hp hl).2 hid)
    rw [hl.ids, ← (recordOf?_spec hp (mem_listed.1 hm) hrow).2.2]
    exact List.mem_map_of_mem hm
  have hm := (Environment.mem_definitionOrder hi).2
    ((defined_iff hp hl hctx hi).2 ⟨id, hid, hc, rfl⟩)
  rw [horder] at hm
  obtain ⟨id', hid', he⟩ := List.mem_map.1 hm
  rwa [← hinj id' id (hall id' hid').1 hid he]

/-- The symbols of names with types. -/
def symbols (r : Registry) (globals : List (String × CType)) : List Symbol :=
  globals.map fun g => { name := some g.1, type := r.ledger.idOf g.2 }

theorem symbolText_tells {g : String × CType} (h : r.Says V g.2) :
    Tells (env.symbolText { name := some g.1, type := r.ledger.idOf g.2 })
      fun K => symbolText (r.labels env K) (g.1, g.2.desugar.stated .none) := by
  refine (tells_bind (h.declare hp hl g.1) fun _ => tells_pure _).congr fun K => ?_
  rw [symbolText, h.spelt.desugar_stated]

/-- The rendering of a table under labels, with the definitions in this order. -/
def rendering (r : Registry) (l : Labels) (order : List RecordId)
    (globals : List (String × CType)) : Rendering :=
  ⟨r.listed.filterMap fun row => ((r.recordOf? row).map (forwardText l)).map (row.id, ·),
    order.map fun id =>
      (r.ledger.idOf (.record .none id), definitionText l id (r.context.decl id).stated),
    globals.map fun g => symbolText l (g.1, g.2.desugar.stated .none)⟩

/-- **The lines of a table** are the declarations of the registered records, the definitions of
those with a body, each once, and the global symbols (`Tells`). -/
theorem tells_renderEnvironment (hctx : r.context.Tidy V) {globals : List (String × CType)}
    (hg : ∀ g ∈ globals, r.Says V g.2) :
    ∃ order : List RecordId, order.Nodup ∧
      (∀ id, id ∈ order ↔ r.HasRecord id ∧ (r.context.decl id).isComplete = true) ∧
      Tells (renderEnvironment env (r.symbols globals)) fun K =>
        r.rendering (r.labels env K) order globals := by
  obtain ⟨order, horder, hnodup, hmem⟩ := exists_order hp hl hctx
  refine ⟨order, hnodup, hmem, ?_⟩
  have hforwards : Tells (textsOf env.forward? env.ids) fun K => r.listed.filterMap fun row =>
      ((r.recordOf? row).map (forwardText (r.labels env K))).map (row.id, ·) := by
    rw [hl.ids]
    exact textsOf_tells fun row hrow => forward?_row hp hl hctx (mem_listed.1 hrow)
  have hdefinitions : Tells (textsOf env.define? env.definitionOrder) fun K =>
      order.map fun id => (r.ledger.idOf (.record .none id),
        definitionText (r.labels env K) id (r.context.decl id).stated) := by
    have htexts : ∀ id ∈ order, Tells (env.define? (r.ledger.idOf (.record .none id)))
        fun K => some (definitionText (r.labels env K) id (r.context.decl id).stated) :=
      fun id hid => define?_tells hp hl hctx ((hmem id).1 hid).1
    rw [horder]
    exact (textsOf_tells htexts).congr fun K => congrFun List.filterMap_eq_map order
  have hsymbols : Tells (env.declareSymbols (r.symbols globals)) fun K =>
      globals.map fun g => symbolText (r.labels env K) (g.1, g.2.desugar.stated .none) := by
    rw [Environment.declareSymbols, symbols, List.mapM_map]
    exact tells_mapM fun g hmg => symbolText_tells hp hl (hg g hmg)
  exact tells_bind hforwards fun _ => tells_bind hdefinitions fun _ =>
    tells_bind hsymbols fun _ => tells_pure _

omit hp hl in
/-- The declarations of records in a table. -/
theorem forwards_rendering (l : Labels) (order : List RecordId) (globals : List (String × CType)) :
    (r.rendering l order globals).forwards.map Prod.snd = r.records.map (forwardText l) := by
  rw [rendering, records, List.map_filterMap, List.map_filterMap]
  refine List.filterMap_congr fun row _ => ?_
  rw [Option.map_map]
  exact congrFun Option.map_id _

/-! ## 5. Types that can be written -/

omit hp hl

/-- The registry knows the type (`Says`), and its canonical form is `Writable`. -/
structure Writes (r : Registry) (t : CType) : Prop where
  said : r.Says .all t
  writable : t.desugar.Writable r.HasRecord r.HasEnum

include hp hl in
theorem Says.writes {t : CType} (h : r.Says .all t)
    (hw : t.desugar.Writable (fun id => (r.context.record? id).isSome = true) fun _ => True) :
    r.Writes t :=
  ⟨h, (writable_known hp hl hw (h.desugar hp).1.known).mono (fun _ h => h) fun _ h => h.2⟩

/-- The lines of a table. -/
def lineTexts (r : Registry) (l : Labels) (order : List RecordId)
    (globals : List (String × CType)) : List String :=
  r.records.map (forwardText l) ++ order.map (fun id => definitionText l id (r.context.decl id)) ++
    globals.map (symbolText l)

theorem memberText_stated (l : Labels) {m : MemberDecl}
    (h : m.type.desugar.stated .none = m.type.desugar) :
    memberText l m.stated = memberText l m := by
  rw [memberText, MemberDecl.desugar_stated_self h]
  rfl

theorem classTexts_stated (l : Labels) {ms : List MemberDecl}
    (h : ∀ m ∈ ms, m.type.desugar.stated .none = m.type.desugar) (current : Option Access) :
    classTexts l current (ms.map MemberDecl.stated) = classTexts l current ms := by
  induction ms generalizing current with
  | nil => rfl
  | cons m ms ih =>
    obtain ⟨hm, hms⟩ := List.forall_mem_cons.1 h
    have ha : m.stated.access = m.access := rfl
    rw [List.map_cons, classTexts, classTexts, ha, memberText_stated l hm]
    cases m.access <;> simp only [ih hms]

/-- Where the declarations of members state their types, the definition says what the record has. -/
theorem definitionText_stated (l : Labels) (id : RecordId) {d : RecordDecl}
    (h : ∀ m ∈ d.members.getD [], m.type.desugar.stated .none = m.type.desugar) :
    definitionText l id d.stated = definitionText l id d := by
  have hmembers : membersTexts l d.key (d.stated.members.getD []) =
      membersTexts l d.key (d.members.getD []) := by
    have hplain : ((d.members.getD []).map MemberDecl.stated).map (memberText l) =
        (d.members.getD []).map (memberText l) := by
      rw [List.map_map]
      exact List.map_congr_left fun m hm => memberText_stated l (h m hm)
    rw [RecordDecl.members_stated]
    cases d.key with
    | classKey => exact classTexts_stated l h none
    | structKey | unionKey => exact hplain
  rw [definitionText, definitionText, ← hmembers]
  rfl

/-- Over types that can be written, the definitions say what the registry has. -/
theorem definitionTexts_stated (l : Labels) {order : List RecordId}
    (hm : ∀ id ∈ order, ∀ m ∈ (r.context.decl id).members.getD [], r.Writes m.type) :
    order.map (fun id => definitionText l id (r.context.decl id).stated) =
      order.map fun id => definitionText l id (r.context.decl id) :=
  List.map_congr_left fun id hid => definitionText_stated l id fun m hmem =>
    (hm id hid m hmem).writable.stated_eq

/-- Over types that can be written, the `lines` say what the registry has. -/
theorem lines_rendering (l : Labels) {order : List RecordId} {globals : List (String × CType)}
    (hm : ∀ id ∈ order, ∀ m ∈ (r.context.decl id).members.getD [], r.Writes m.type)
    (hg : ∀ g ∈ globals, r.Writes g.2) :
    (r.rendering l order globals).lines = r.lineTexts l order globals := by
  have hsymbols : globals.map (fun g => symbolText l (g.1, g.2.desugar.stated .none)) =
      globals.map (symbolText l) := by
    refine List.map_congr_left fun g hgm => ?_
    rw [(hg g hgm).writable.stated_eq, symbolText, symbolText,
      CType.desugar_of_not_hasSugar _ (CType.hasSugar_desugar _)]
  rw [Rendering.lines, forwards_rendering, rendering, List.map_map, hsymbols, lineTexts,
    ← definitionTexts_stated l hm]
  rfl

include hp hl

/-- Two namings that make the same declarations of records call the records the same. -/
theorem labels_record_eq {K K' : Naming}
    (h : r.records.map (forwardText (r.labels env K)) =
      r.records.map (forwardText (r.labels env K')))
    (hctx : r.context.Tidy V) {id : RecordId} (hid : r.HasRecord id) :
    (r.labels env K).record id = (r.labels env K').record id := by
  obtain ⟨tag, bs, -, -, hlabel⟩ := lookup_hasRecord hp hl hctx hid
  have hkey : ((r.labels env K).record id).1 = ((r.labels env K').record id).1 := by
    rw [hlabel, hlabel]
  have htext := List.map_inj_left.1 h id ((mem_records hp hl).2 hid)
  exact Prod.ext hkey (forwardText_injective hkey htext)

end

end Registry

end TypeLedger
