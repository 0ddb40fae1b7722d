import Mathlib
import TypeLedger.Proofs.Grammar.Keeps
import TypeLedger.Proofs.RoundTrip.Records

/-!
# Programs there and back

* `CType.isFaithful`: a canonical type that its declaration does not lose anything of.
* `Faithful`: a program that can be written and read back as it is.
* `parse_render`: a program is listed in a table, the table is rendered, and the text is read as a
  program with the same records and the same global symbols.
* `bare_member_is_lost`: a member without a name and a declarator is not read back.
-/

namespace TypeLedger

/-! ## 1. Faithful types -/

namespace CType

mutual

/-- The declaration of the canonical type loses nothing of it: there is no `_Complex`, no qualifier
at an array or a function, no reference to a reference and no function with `void` for its only
parameter. -/
def isFaithful : CType → Bool
  | pointer _ k t => !(k.isReference && t.isReference) && t.isFaithful
  | array q _ t => q.isEmpty && t.isFaithful
  | function q t ps v =>
    q.isEmpty && t.isFaithful && areFaithful ps && (v || ps != [.builtin .none "void"])
  | complex .. => false
  | _ => true

def areFaithful : List CType → Bool
  | [] => true
  | t :: ts => t.isFaithful && areFaithful ts

end

theorem areFaithful_eq_all (ts : List CType) : areFaithful ts = ts.all isFaithful := by
  induction ts with
  | nil => rfl
  | cons t ts ih => rw [areFaithful, List.all_cons, ih]

variable {V : Vocabulary} {ctx : Context}

/-- **A canonical type that is `Spelt` and faithful can be written.** -/
theorem Spelt.writable {t : CType} (h : t.Spelt V ctx) (hs : t.hasSugar = false)
    (hf : t.isFaithful = true) :
    t.Writable (fun id => (ctx.record? id).isSome = true) fun _ => True := by
  induction h with
  | builtin hb => exact .builtin hb
  | record hid => exact .record (by rw [Context.record?, List.getElem?_eq_getElem hid]; rfl)
  | enumeration _ => exact .enumeration trivial
  | pointer hk _ ih =>
    simp only [isFaithful, Bool.and_eq_true, Bool.not_eq_true', Bool.and_eq_false_iff] at hf
    refine .pointer hk (fun href => ?_) (ih hs hf.2)
    rcases hf.1 with h | h
    · rw [href] at h
      cases h
    · exact h
  | array _ ih =>
    simp only [isFaithful, Bool.and_eq_true] at hf
    obtain rfl := (Qualifiers.isEmpty_iff _).1 hf.1
    exact .array (ih hs hf.2)
  | @function q t ps v _ _ ih ihs =>
    simp only [isFaithful, Bool.and_eq_true, areFaithful_eq_all, List.all_eq_true,
      Bool.or_eq_true, bne_iff_ne] at hf
    obtain ⟨⟨⟨hq, ht⟩, hps⟩, hv⟩ := hf
    obtain rfl := (Qualifiers.isEmpty_iff _).1 hq
    simp only [hasSugar, anySugar_eq_any, Bool.or_eq_false_iff, List.any_eq_false] at hs
    exact .function (ih hs.1 ht) (fun p hp => ihs p hp (by simpa using hs.2 p hp) (hps p hp)) hv
  | synonym _ _ => cases hs
  | complex _ _ _ => cases hf

/-- There is no `_Complex` in a type that can be written. -/
theorem Writable.hasComplex {r : RecordId → Prop} {e : EnumId → Prop} {t : CType}
    (h : t.Writable r e) : t.hasComplex = false := by
  induction h with
  | builtin _ | record _ | enumeration _ => rfl
  | pointer _ _ _ ih | array _ ih => exact ih
  | function _ _ _ ih ihs =>
    rw [CType.hasComplex, ih, Bool.false_or, anyComplex_eq_any, List.any_eq_false]
    exact fun p hp => by rw [ihs p hp]; decide

end CType

/-! ## 2. Faithful programs -/

/-- The record can be written and read back as it is: it is `Regular`, and all members are `Shown`,
with types that say all in a declaration (`isFaithful`). -/
structure RecordDecl.Faithful (d : RecordDecl) : Prop where
  regular : d.Regular
  types : ∀ m ∈ d.members.getD [], m.type.desugar.isFaithful = true
  shown : ∀ m ∈ d.members.getD [], m.Shown = true

/-- All that a program says can be written and read back as it is (`RecordDecl.Faithful`). -/
structure Faithful (ctx : Context) (ds : List Declaration) : Prop where
  records : ∀ d ∈ ctx.records, d.Faithful
  types : ∀ d ∈ ds, d.type.desugar.isFaithful = true

instance (d : RecordDecl) : Decidable d.Faithful :=
  decidable_of_iff (d.Regular ∧ (∀ m ∈ d.members.getD [], m.type.desugar.isFaithful = true) ∧
      ∀ m ∈ d.members.getD [], m.Shown = true)
    ⟨fun ⟨h, ht, hs⟩ => ⟨h, ht, hs⟩, fun h => ⟨h.regular, h.types, h.shown⟩⟩

instance (ctx : Context) (ds : List Declaration) : Decidable (Faithful ctx ds) :=
  decidable_of_iff ((∀ d ∈ ctx.records, d.Faithful) ∧
      ∀ d ∈ ds, d.type.desugar.isFaithful = true)
    ⟨fun ⟨h, ht⟩ => ⟨h, ht⟩, fun h => ⟨h.records, h.types⟩⟩

section

variable {l : Labels} {ctx : Context} {rp : RecordId → Prop} {ep : EnumId → Prop}

theorem RecordDecl.Faithful.readable {d : RecordDecl} (h : d.Faithful)
    (hw : ∀ m ∈ d.members.getD [], m.type.desugar.Writable rp ep) : d.Readable :=
  fun m hm _ => ⟨(hw m hm).hasComplex, MemberDecl.opensBody_of_shown (h.shown m hm)⟩

/-- Of a `Faithful` record every member is kept. -/
theorem RecordDecl.Faithful.kept {d : RecordDecl} (h : d.Faithful) :
    ∀ m ∈ d.members.getD [], m.Kept d.key = true := by
  intro m hm
  rw [MemberDecl.Kept, h.shown m hm, Bool.and_true, MemberDecl.Listed]
  by_cases hkey : d.key = .classKey
  · rw [h.regular.labelled hkey m hm, Bool.or_true]
  · simp [hkey]

/-- What a `Faithful` record is read as is the record. -/
theorem RecordDecl.Faithful.matches {d d' : RecordDecl} (h : d.Faithful)
    (hw : ∀ m ∈ d.members.getD [], m.type.desugar.Writable rp ep)
    (hm : d.stated.reread.Matches l ctx d') : d.Matches l ctx d' := by
  have htype : ∀ m ∈ d.members.getD [], m.stated.type.desugar = m.type.desugar := fun m hmem =>
    MemberDecl.desugar_stated_self (hw m hmem).stated_eq
  have hkept : rereadMembers d.key ((d.members.getD []).map MemberDecl.stated) =
      (d.members.getD []).map fun m => m.stated.reread d.key := by
    rw [rereadMembers, List.filter_eq_self.2, List.map_map]
    · rfl
    · intro m hmem
      obtain ⟨m, hm, rfl⟩ := List.mem_map.1 hmem
      rw [← h.kept m hm, MemberDecl.Kept, MemberDecl.Shown, htype m hm]
      rfl
  have haccess : ∀ m ∈ d.members.getD [],
      (if d.key = .classKey then m.access else none) = m.access := by
    intro m hmem
    split
    · rfl
    · exact (((h.regular.unlabelled ‹_›).1 m hmem)).symm
  refine ⟨hm.key, hm.complete.trans d.isComplete_reread, ?_, ?_⟩
  · have hall := hm.members
    rw [RecordDecl.members_reread, RecordDecl.members_stated] at hall
    change List.Forall₂ _ (rereadMembers d.key _) _ at hall
    rw [hkept, List.forall₂_map_left_iff] at hall
    refine ((List.forall₂_and_left _ _).2 ⟨fun m hmem => hmem, hall⟩).imp fun m m' h => ?_
    obtain ⟨hmem, hmatch⟩ := h
    refine ⟨hmatch.name, ?_, hmatch.access.trans (haccess m hmem), hmatch.bitWidth⟩
    have := hmatch.type
    change (m.stated.type.desugar.emptied).desugar.Matches l ctx _ at this
    rwa [htype m hmem, (hw m hmem).emptied_eq,
      CType.desugar_of_not_hasSugar _ (CType.hasSugar_desugar _)] at this
  · have hbases := hm.bases
    by_cases hkey : d.key = .classKey
    · rwa [RecordDecl.reread, show d.stated.key = d.key from rfl, if_pos hkey] at hbases
    · rw [(h.regular.unlabelled hkey).2]
      rwa [RecordDecl.reread, show d.stated.key = d.key from rfl, if_neg hkey] at hbases

end

namespace Registry

variable {V : Vocabulary} {r : Registry} {env : Environment} {tagOf : TypeId → Tag} {k₀ : Naming}

section

variable (hp : r.Plain) (hl : r.Loaded env tagOf k₀)

include hp hl

/-- The member types of a registered record can be written. -/
theorem HasRecord.member (hctx : r.context.Tidy .all) {id : RecordId} (h : r.HasRecord id)
    (hf : ∀ m ∈ (r.context.decl id).members.getD [], m.type.desugar.isFaithful = true) :
    ∀ m ∈ (r.context.decl id).members.getD [], r.Writes m.type ∧
      ∀ n, m.name = some n → isIdentifier n = true := by
  intro m hm
  obtain ⟨hsaid, hname⟩ := h.members_said hp hl hctx m hm
  exact ⟨hsaid.writes hp hl (hsaid.spelt.desugar.writable (CType.hasSugar_desugar _) (hf m hm)),
    hname⟩

end

/-! ## 3. Programs there and back -/

variable {l : Labels} {order : List RecordId} {globals : List (String × CType)}

/-- The labels are the names that rendering the table has given (`renderEnvironment`). Where it has
given none, as to an enumeration that no line mentions, they are names that it would give next
(`Naming.Follows`). -/
def NamedBy (r : Registry) (t : Table) (l : Labels) : Prop :=
  ∃ env k K, Environment.ofEntries t.types {} = (.ok env, k) ∧
    (renderEnvironment env t.globals k).2.Follows K ∧ l = r.labels env K ∧
    ∀ id, r.HasRecord id →
      l.record id = (r.labels env (renderEnvironment env t.globals k).2).record id

/-- The context has every registered record under its label (`RecordDecl.Matches`). -/
def RereadIn (r : Registry) (l : Labels) (ctx : Context) : Prop :=
  ∀ id, r.HasRecord id → ∃ id' d', ctx.findRecord? (l.record id).2 = some id' ∧
    ctx.record? id' = some d' ∧ (r.context.decl id).Matches l ctx d'

/-- **The table of a registry is rendered** to the lines of its records and symbols, under labels
that tell them apart (`Names`, `NamedBy`). -/
theorem render_rendering {r : Registry} (hp : r.Plain) (hctx : r.context.Tidy .all)
    (hg : ∀ g ∈ globals, r.Says .all g.2) {t : Table} (ht : t.types = r.table.types)
    (hglobals : t.globals = r.symbols globals) :
    ∃ env k l order, Environment.ofEntries t.types {} = (.ok env, k) ∧ r.Names l ∧ r.NamedBy t l ∧
      order.Nodup ∧ (∀ id, id ∈ order ↔ r.HasRecord id ∧ (r.context.decl id).isComplete = true) ∧
      (renderEnvironment env t.globals k).1 = r.rendering l order globals := by
  obtain ⟨env, k, tagOf, hload, hl⟩ := loaded_ofEntries hp
  rw [← ht] at hload
  obtain ⟨order, honce, horder, htells⟩ := tells_renderEnvironment hp hl hctx hg
  rw [← hglobals] at htells
  obtain ⟨N, hN⟩ : ∃ N, (renderEnvironment env t.globals k).2 = N := ⟨_, rfl⟩
  have hfollows : k.Follows N := hN ▸ (htells k).1
  have htext : ∀ K, N.Follows K → (renderEnvironment env t.globals k).1 =
      r.rendering (r.labels env K) order globals := hN ▸ (htells k).2
  -- what has no name after the rendering is named now; the lines stay what they are
  let K := Naming.nameAll (r.ledger.rows.map fun row => tagOf row.id) N
  have hNK : N.Follows K := Naming.follows_nameAll _ N
  have hdistinct : K.Distinct k.namer.taken :=
    ((Naming.distinct_of_given_nil hl.given fun _ hm => hm).follows hfollows).follows hNK
  have hn : r.Names (r.labels env K) := names_labels hp hl hctx hdistinct fun row hm =>
    Naming.current?_nameAll (List.mem_map_of_mem hm) N
  have hnamed : ∀ id, r.HasRecord id →
      (r.labels env K).record id = (r.labels env N).record id := by
    refine fun id hid => labels_record_eq hp hl ?_ hctx hid
    have hsame := (htext K hNK).symm.trans (htext N .refl)
    have hforwards := congrArg (fun f => f.forwards.map Prod.snd) hsame
    simpa only [forwards_rendering] using hforwards
  exact ⟨env, k, r.labels env K, order, hload, hn,
    ⟨env, k, K, hload, hN.symm ▸ hNK, rfl, hN.symm ▸ hnamed⟩, honce, horder, htext K hNK⟩

/-- Over types that can be written, the lines are those of what the registry has. -/
theorem render_lines {r : Registry} (hp : r.Plain) (hctx : r.context.Tidy .all)
    (hm : ∀ id, r.HasRecord id → ∀ m ∈ (r.context.decl id).members.getD [], r.Writes m.type)
    (hg : ∀ g ∈ globals, r.Writes g.2) {t : Table} (ht : t.types = r.table.types)
    (hglobals : t.globals = r.symbols globals) :
    ∃ l order, r.Names l ∧ r.NamedBy t l ∧ order.Nodup ∧
      (∀ id, id ∈ order ↔ r.HasRecord id ∧ (r.context.decl id).isComplete = true) ∧
      ∀ s, (render s t).Yields (linesText (r.lineTexts l order globals)) := by
  obtain ⟨env, k, l, order, hload, hn, hnamed, honce, horder, htext⟩ :=
    render_rendering hp hctx (fun g hgm => (hg g hgm).said) ht hglobals
  refine ⟨l, order, hn, hnamed, honce, horder, fun s => ?_⟩
  rw [← lines_rendering l (fun id hid => hm id ((horder id).1 hid).1) hg, ← htext]
  exact render_yields s hload

/-- A registered record without a body has no bases. -/
theorem HasRecord.incomplete (hctx : r.context.Tidy V) {id : RecordId} (h : r.HasRecord id)
    (hc : (r.context.decl id).isComplete ≠ true) :
    (r.context.decl id).members = none ∧ (r.context.decl id).bases = [] := by
  obtain ⟨d, hd⟩ := Option.isSome_iff_exists.1 h.1
  rw [Context.decl_eq hd] at hc ⊢
  have hms : d.members = none := by
    cases hms : d.members with
    | none => rfl
    | some ms => exact absurd (by rw [RecordDecl.isComplete, hms]; rfl) hc
  exact ⟨hms, (hctx.records id d hd).incomplete hms⟩

/-- **The table of a registry is rendered, and the text is read** as the records and symbols of the
registry. -/
theorem parse_rendered {r : Registry} (hp : r.Plain) (hctx : r.context.Tidy .all)
    (hf : ∀ d ∈ r.context.records, d.Faithful)
    (hg : ∀ g ∈ globals, r.Writes g.2 ∧ TypeLedger.isIdentifier g.1 = true) {t : Table}
    (ht : t.types = r.table.types) (hglobals : t.globals = r.symbols globals) :
    ∃ text ds sc l, (∀ s, (render s t).Yields text) ∧ parseSource text = .ok (ds, sc) ∧
      r.Names l ∧ r.NamedBy t l ∧ r.RereadIn l sc.context ∧
      GlobalsMatch l sc.context globals (globalsOf ds) := by
  obtain ⟨env, k, tagOf, -, hl⟩ := loaded_ofEntries hp
  have hfaithful : ∀ id, r.HasRecord id → (r.context.decl id).Faithful := by
    intro id hid
    obtain ⟨d, hd⟩ := Option.isSome_iff_exists.1 hid.1
    rw [Context.decl_eq hd]
    exact hf d (List.mem_of_getElem? hd)
  have hwrites := fun id (hid : r.HasRecord id) m hm =>
    (hid.member hp hl hctx (hfaithful id hid).types m hm).1
  have hwritable := fun id (hid : r.HasRecord id) m hm => (hwrites id hid m hm).writable
  obtain ⟨l, order, hn, hnamed, honce, horder, hrender⟩ := render_lines hp hctx hwrites
    (fun g hgm => (hg g hgm).1) ht hglobals
  have hknown : ∀ id ∈ order, r.HasRecord id := fun id hid => ((horder id).1 hid).1
  have hreadable : ∀ id ∈ order, (r.context.decl id).Readable := fun id hid =>
    (hfaithful id (hknown id hid)).readable (hwritable id (hknown id hid))
  have hsymbols : List.Forall₂ Spelled (globals.map (symbolText l)) (globals.map (symbolKinds l)) :=
    forall₂_map_map fun g hgm => spelled_symbolText (fun id hid => hn.record_identifier hid)
      hn.enumIdentifier (hg g hgm).1.writable.legible (hg g hgm).2
  have hspelled : Spelled (linesText (r.lineTexts l order globals))
      (r.recordKinds l order ++ globals.map (symbolKinds l)).flatten := by
    rw [lineTexts, ← definitionTexts_stated l fun id hid => hwrites id (hknown id hid)]
    exact spelled_lines (List.rel_append
      (spelled_recordTexts hp hl hctx hn hknown hreadable) hsymbols)
  obtain ⟨sc₁, hbodied, hreads₁⟩ := reads_records hp hl hctx hn hknown hreadable honce
  obtain ⟨gs, sc, hwidens, hready, hmatches, hreads₂⟩ :=
    reads_symbols (fun g hgm => (hg g hgm).1.writable) hbodied.ready
  have hreads := hreads₁.append hreads₂
  rw [← List.flatten_append] at hreads
  obtain ⟨ds, rfl, hparse⟩ := parse_spelled hspelled hreads
  refine ⟨_, ds, sc, l, hrender, hparse, hn, hnamed, fun id hid => ?_, hmatches⟩
  obtain ⟨id', d', hid', hd', hmatch⟩ := (hbodied.widens hwidens hready).matches hid
    (hn.key_decl hid)
    (fun hm => (RecordDecl.isComplete_reread _).trans ((horder id).1 (List.mem_reverse.1 hm)).2)
    fun hm => RecordDecl.reread_incomplete (hid.incomplete hctx fun hc =>
      hm (List.mem_reverse.2 ((horder id).2 ⟨hid, hc⟩)))
  exact ⟨id', d', hid', hd', (hfaithful id hid).matches (hwritable id hid) hmatch⟩

end Registry

/-- The types of global symbols are known, and their names are identifiers. -/
theorem said_globals {s : Settings} (hl : s.label = false) {source : String}
    {ds : List Declaration} {sc : Scope} (hp : parseSource source = .ok (ds, sc)) :
    ∀ g ∈ globalsOf ds, (registered s ds sc).Says .all g.2 ∧ isIdentifier g.1 = true := by
  obtain ⟨-, -, hds⟩ := tidy_parseBytes Context.tidy_empty hp
  obtain ⟨-, hcontext, hknown, -⟩ := registered_spec hl ds sc
  intro g hg
  obtain ⟨n, t⟩ := g
  obtain ⟨d, hd, hn, rfl⟩ := exists_of_mem_globalsOf hg
  exact ⟨⟨hcontext ▸ (hds d hd).type, hknown d hd⟩, (hds d hd).name n hn⟩

/-- The types of global symbols are known and can be written, and their names are identifiers. -/
theorem writes_globals {s : Settings} (hl : s.label = false) {source : String}
    {ds : List Declaration} {sc : Scope} (hp : parseSource source = .ok (ds, sc))
    (hf : ∀ d ∈ ds, d.type.desugar.isFaithful = true) :
    ∀ g ∈ globalsOf ds, (registered s ds sc).Writes g.2 ∧ isIdentifier g.1 = true := by
  obtain ⟨hplain, -, -, -⟩ := registered_spec hl ds sc
  obtain ⟨env, k, tagOf, -, hloaded⟩ := Registry.loaded_ofEntries hplain
  intro g hg
  obtain ⟨hsaid, hname⟩ := said_globals hl hp g hg
  obtain ⟨d, hd, -, htype⟩ := exists_of_mem_globalsOf hg
  have hfaithful : g.2.desugar.isFaithful = true := htype ▸ hf d hd
  exact ⟨hsaid.writes hplain hloaded
    (hsaid.spelt.desugar.writable (CType.hasSugar_desugar _) hfaithful), hname⟩

/-- **Programs go there and back.** A source is read, listed in a table by `generateFrom` and
rendered, and the text is read as a program with the same records and the same global symbols. The
labels of the records are those of the table (`Names`, `NamedBy`); under them each record is
`RereadIn` the context of the text, and the globals match (`GlobalsMatch`). What the source has to
be for this says `Faithful`. -/
theorem parse_render (files : Files) {s : Settings} (hr : s.renames = none)
    (hl : s.label = false) (ht : s.noTable = false) {source : String} {ds : List Declaration}
    {sc : Scope} (hp : parseSource source = .ok (ds, sc)) (hf : Faithful sc.context ds) :
    ∃ g text ds' sc' l,
      (generateFrom files s source).result.1 = .ok g ∧
      (∀ s', (render s' g.table).result.1 = .ok text) ∧
      parseSource text = .ok (ds', sc') ∧
      (registered s ds sc).Names l ∧ (registered s ds sc).NamedBy g.table l ∧
      (registered s ds sc).RereadIn l sc'.context ∧
      GlobalsMatch l sc'.context (globalsOf ds) (globalsOf ds') := by
  obtain ⟨htidy, -, -⟩ := tidy_parseBytes Context.tidy_empty hp
  obtain ⟨hplain, hcontext, -, -⟩ := registered_spec hl ds sc
  have hgenerate := generateFrom_yields files hr ht hp
  obtain ⟨text, ds', sc', l, hrender, hparse, hnames, hnamed, hreread, hmatch⟩ :=
    Registry.parse_rendered hplain (hcontext.symm ▸ htidy) (hcontext.symm ▸ hf.records)
      (writes_globals hl hp hf.types)
      (t := ⟨(registered s ds sc).table.types, (registered s ds sc).symbols (globalsOf ds)⟩) rfl rfl
  exact ⟨_, text, ds', sc', l, hgenerate.result, fun s' => (hrender s').result, hparse, hnames,
    hnamed, hreread, hmatch⟩

/-- A class with a virtual base class and a bit field, and an array of structs without a tag. -/
def classesSource : String :=
  "class B \x7b \x7d; class C : public virtual B \x7b int f : 3; \x7d; struct \x7b C *c; \x7d s[4];"

def classesDeclarations : List Declaration :=
  [⟨none, .record .none ⟨0⟩, none, ⟨1, 1⟩⟩, ⟨none, .record .none ⟨1⟩, none, ⟨1, 14⟩⟩,
    ⟨some "s", .array .none (.fixed 4) (.record .none ⟨2⟩), none, ⟨1, 74⟩⟩]

def classesScope : Scope where
  names := [("B", .record .none ⟨0⟩), ("C", .record .none ⟨1⟩)]
  context :=
    ⟨[⟨.classKey, some "B", some [], []⟩,
      ⟨.classKey, some "C", some [⟨some "f", .builtin .none "int", some .priv, some 3⟩],
        [⟨.record .none ⟨0⟩, .pub, true⟩]⟩,
      ⟨.structKey, none,
        some [⟨some "c", .pointer .none .pointer (.record .none ⟨1⟩), none, none⟩], []⟩], []⟩

theorem parse_classes : parseSource classesSource = .ok (classesDeclarations, classesScope) := by
  have htokens : tokenize classesSource.toUTF8.toList = .ok
      ([⟨.keyword (.record .classKey), ⟨1, 1⟩⟩, ⟨.ident "B", ⟨1, 7⟩⟩, ⟨.mark .braceOpen, ⟨1, 9⟩⟩,
        ⟨.mark .braceClose, ⟨1, 11⟩⟩, ⟨.mark .semicolon, ⟨1, 12⟩⟩,
        ⟨.keyword (.record .classKey), ⟨1, 14⟩⟩, ⟨.ident "C", ⟨1, 20⟩⟩, ⟨.mark .colon, ⟨1, 22⟩⟩,
        ⟨.keyword (.access .pub), ⟨1, 24⟩⟩, ⟨.keyword .virtualBase, ⟨1, 31⟩⟩,
        ⟨.ident "B", ⟨1, 39⟩⟩, ⟨.mark .braceOpen, ⟨1, 41⟩⟩, ⟨.keyword (.builtin .int), ⟨1, 43⟩⟩,
        ⟨.ident "f", ⟨1, 47⟩⟩, ⟨.mark .colon, ⟨1, 49⟩⟩, ⟨.intLit 3, ⟨1, 51⟩⟩,
        ⟨.mark .semicolon, ⟨1, 52⟩⟩, ⟨.mark .braceClose, ⟨1, 54⟩⟩, ⟨.mark .semicolon, ⟨1, 55⟩⟩,
        ⟨.keyword (.record .structKey), ⟨1, 57⟩⟩, ⟨.mark .braceOpen, ⟨1, 64⟩⟩,
        ⟨.ident "C", ⟨1, 66⟩⟩, ⟨.mark .star, ⟨1, 68⟩⟩, ⟨.ident "c", ⟨1, 69⟩⟩,
        ⟨.mark .semicolon, ⟨1, 70⟩⟩, ⟨.mark .braceClose, ⟨1, 72⟩⟩, ⟨.ident "s", ⟨1, 74⟩⟩,
        ⟨.mark .bracketOpen, ⟨1, 75⟩⟩, ⟨.intLit 4, ⟨1, 76⟩⟩, ⟨.mark .bracketClose, ⟨1, 77⟩⟩,
        ⟨.mark .semicolon, ⟨1, 78⟩⟩], ⟨1, 79⟩) := by
    decide +kernel
  rw [parseSource, parseBytes, htokens]
  cbv

theorem parse_render_classes :
    ∃ g text ds' sc' l,
      (generateFrom (fun _ => .error "") { input := "input.h" } classesSource).result.1 = .ok g ∧
      (∀ s', (render s' g.table).result.1 = .ok text) ∧
      parseSource text = .ok (ds', sc') ∧
      (registered { input := "input.h" } classesDeclarations classesScope).Names l ∧
      (registered { input := "input.h" } classesDeclarations classesScope).NamedBy g.table l ∧
      (registered { input := "input.h" } classesDeclarations classesScope).RereadIn l
        sc'.context ∧
      GlobalsMatch l sc'.context (globalsOf classesDeclarations) (globalsOf ds') :=
  parse_render (fun _ => .error "") rfl rfl rfl parse_classes (by decide)

/-! ## 4. A member that is lost -/

/-- A struct one of whose members has neither a name nor a declarator. -/
def bareSource : String := "struct S \x7b int , x; \x7d s;"

def bareDeclarations : List Declaration := [⟨some "s", .record .none ⟨0⟩, none, ⟨1, 23⟩⟩]

def bareScope : Scope where
  context :=
    ⟨[⟨.structKey, some "S",
      some [⟨none, .builtin .none "int", none, none⟩, ⟨some "x", .builtin .none "int", none, none⟩],
      []⟩], []⟩

theorem parse_bare : parseSource bareSource = .ok (bareDeclarations, bareScope) := by
  have htokens : tokenize bareSource.toUTF8.toList = .ok
      ([⟨.keyword (.record .structKey), ⟨1, 1⟩⟩, ⟨.ident "S", ⟨1, 8⟩⟩, ⟨.mark .braceOpen, ⟨1, 10⟩⟩,
        ⟨.keyword (.builtin .int), ⟨1, 12⟩⟩, ⟨.mark .comma, ⟨1, 16⟩⟩, ⟨.ident "x", ⟨1, 18⟩⟩,
        ⟨.mark .semicolon, ⟨1, 19⟩⟩, ⟨.mark .braceClose, ⟨1, 21⟩⟩, ⟨.ident "s", ⟨1, 23⟩⟩,
        ⟨.mark .semicolon, ⟨1, 24⟩⟩], ⟨1, 25⟩) := by
    decide +kernel
  rw [parseSource, parseBytes, htokens]
  cbv

/-- The text that its table is rendered to. -/
def bareText : String :=
  "struct S;\nstruct S \x7b int; int x; \x7d;\nstruct S s;\n"

def rereadScope : Scope where
  context := ⟨[⟨.structKey, some "S", some [⟨some "x", .builtin .none "int", none, none⟩], []⟩], []⟩

theorem parse_bareText : ∃ ds, parseSource bareText = .ok (ds, rereadScope) := by
  have htokens : tokenize bareText.toUTF8.toList = .ok
      ([⟨.keyword (.record .structKey), ⟨1, 1⟩⟩, ⟨.ident "S", ⟨1, 8⟩⟩, ⟨.mark .semicolon, ⟨1, 9⟩⟩,
        ⟨.keyword (.record .structKey), ⟨2, 1⟩⟩, ⟨.ident "S", ⟨2, 8⟩⟩, ⟨.mark .braceOpen, ⟨2, 10⟩⟩,
        ⟨.keyword (.builtin .int), ⟨2, 12⟩⟩, ⟨.mark .semicolon, ⟨2, 15⟩⟩,
        ⟨.keyword (.builtin .int), ⟨2, 17⟩⟩, ⟨.ident "x", ⟨2, 21⟩⟩, ⟨.mark .semicolon, ⟨2, 22⟩⟩,
        ⟨.mark .braceClose, ⟨2, 24⟩⟩, ⟨.mark .semicolon, ⟨2, 25⟩⟩,
        ⟨.keyword (.record .structKey), ⟨3, 1⟩⟩, ⟨.ident "S", ⟨3, 8⟩⟩, ⟨.ident "s", ⟨3, 10⟩⟩,
        ⟨.mark .semicolon, ⟨3, 11⟩⟩], ⟨4, 1⟩) := by
    decide +kernel
  refine ⟨[⟨none, .record .none ⟨0⟩, none, ⟨1, 1⟩⟩, ⟨none, .record .none ⟨0⟩, none, ⟨2, 1⟩⟩,
    ⟨some "s", .record .none ⟨0⟩, none, ⟨3, 10⟩⟩], ?_⟩
  rw [parseSource, parseBytes, htokens]
  cbv

theorem hasRecord_bare (s : Settings) (hs : s.label = false) (id : RecordId) :
    (registered s bareDeclarations bareScope).HasRecord id ↔ id = ⟨0⟩ := by
  obtain ⟨-, hcontext, hknown, -⟩ := registered_spec hs bareDeclarations bareScope
  constructor
  · rintro ⟨hsome, -⟩
    rw [hcontext] at hsome
    obtain ⟨i⟩ := id
    cases i with
    | zero => rfl
    | succ i => cases hsome
  · rintro rfl
    refine ⟨by rw [hcontext]; rfl, hknown _ (List.mem_singleton_self _)⟩

theorem eq_singleton {α : Type} {as : List α} {a : α} (hn : as.Nodup) (h : ∀ b, b ∈ as ↔ b = a) :
    as = [a] := by
  have := (List.perm_ext_iff_of_nodup hn (List.nodup_singleton a)).2 fun b => by
    rw [h, List.mem_singleton]
  exact List.perm_singleton.1 this

theorem lineTexts_bare {r : Registry} {l : Labels} (hr : r.records = [⟨0⟩])
    (hc : r.context = bareScope.context) (hl : l.record ⟨0⟩ = (.structKey, "S")) :
    linesText (r.lineTexts l [⟨0⟩] (globalsOf bareDeclarations)) = bareText := by
  have hs : symbolText l ("s", .record .none ⟨0⟩) = "struct S s;" := by
    have hd : (CType.record .none ⟨0⟩).desugar = .record .none ⟨0⟩ := rfl
    rw [symbolText, hd, CType.written, hl]
    rfl
  have hf : forwardText l ⟨0⟩ = "struct S;" := by
    rw [forwardText, hl]
    rfl
  have hd : definitionText l ⟨0⟩ (r.context.decl ⟨0⟩) = "struct S \x7b int; int x; \x7d;" := by
    rw [definitionText, hl, hc]
    rfl
  rw [Registry.lineTexts, hr]
  show linesText [forwardText l ⟨0⟩, definitionText l ⟨0⟩ (r.context.decl ⟨0⟩),
    symbolText l ("s", .record .none ⟨0⟩)] = _
  rw [hs, hf, hd]
  rfl

/-- **A member without a name and a declarator is lost.** The struct has two members; its definition
is read as one with the second member only. -/
theorem bare_member_is_lost :
    parseSource bareSource = .ok (bareDeclarations, bareScope) ∧
      (∀ d ∈ bareScope.context.records, d.Regular ∧ ∀ m ∈ d.members.getD [],
        m.type.desugar.isFaithful = true ∧
          (m.name = none → bareScope.isAnonymousRecord m.type.desugar = false)) ∧
      (∀ d ∈ bareDeclarations, d.type.desugar.isFaithful = true) ∧
      (registered { input := "input.h" } bareDeclarations bareScope).HasRecord ⟨0⟩ ∧
      ((bareScope.context.decl ⟨0⟩).members.getD []).length = 2 ∧
      ∃ g ds',
        (generateFrom (fun _ => .error "") { input := "input.h" } bareSource).result.1 = .ok g ∧
        (∀ s', (render s' g.table).result.1 = .ok bareText) ∧
        parseSource bareText = .ok (ds', rereadScope) ∧
        rereadScope.context.findRecord? "S" = some ⟨0⟩ ∧
        ((rereadScope.context.decl ⟨0⟩).members.getD []).length = 1 := by
  let s : Settings := { input := "input.h" }
  let r := registered s bareDeclarations bareScope
  have hfaithful : ∀ m ∈ (bareScope.context.decl ⟨0⟩).members.getD [],
      m.type.desugar.isFaithful = true := by decide
  have hall : ∀ d ∈ bareDeclarations, d.type.desugar.isFaithful = true := by decide
  have hhas := hasRecord_bare s rfl
  obtain ⟨hplain, hcontext, -, -⟩ := registered_spec (s := s) rfl bareDeclarations bareScope
  obtain ⟨htidy, -, -⟩ := tidy_parseBytes Context.tidy_empty parse_bare
  have hctx : r.context.Tidy .all := hcontext.symm ▸ htidy
  obtain ⟨env, k, tagOf, -, hloaded⟩ := Registry.loaded_ofEntries hplain
  have hwrites : ∀ id, r.HasRecord id → ∀ m ∈ (r.context.decl id).members.getD [],
      r.Writes m.type := by
    intro id hid m hm
    refine (hid.member hplain hloaded hctx ?_ m hm).1
    rw [hcontext, (hhas id).1 hid]
    exact hfaithful
  obtain ⟨l, order, hn, -, honce, horder, hrender⟩ := Registry.render_lines hplain hctx hwrites
    (fun g hg => (writes_globals rfl parse_bare hall g hg).1)
    (t := ⟨r.table.types, r.symbols (globalsOf bareDeclarations)⟩) rfl rfl
  have hrecords : r.records = [⟨0⟩] := eq_singleton (Registry.nodup_records hplain) fun id => by
    rw [Registry.mem_records hplain hloaded, hhas]
  have hcomplete : (r.context.decl ⟨0⟩).isComplete = true := by rw [hcontext]; rfl
  have horder' : order = [⟨0⟩] := eq_singleton honce fun id => by
    rw [horder, hhas]
    exact ⟨fun h => h.1, fun h => ⟨h, h ▸ hcomplete⟩⟩
  have hd : r.context.record? ⟨0⟩ = bareScope.context.records[0]? := by rw [hcontext]; rfl
  have hknown := ((hhas ⟨0⟩).2 rfl).2
  have hlabel : l.record ⟨0⟩ = (.structKey, "S") :=
    Prod.ext (hn.key ⟨0⟩ _ hd hknown) (hn.tag ⟨0⟩ _ "S" hd hknown rfl)
  obtain ⟨ds', hreread⟩ := parse_bareText
  refine ⟨parse_bare, by decide, hall, (hhas ⟨0⟩).2 rfl, rfl, _, ds',
    (generateFrom_yields _ rfl rfl parse_bare).result, fun s' => ?_, hreread, rfl, rfl⟩
  rw [← lineTexts_bare hrecords hcontext hlabel, ← horder']
  exact (hrender s').result

end TypeLedger
