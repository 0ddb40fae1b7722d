import TypeLedger.Proofs.Printing.Rendered
import TypeLedger.Proofs.RoundTrip.Reading

/-!
# The lines of records read back

* `RecordDecl.Readable`: the lines of the record's members can be read.
* `Registry.HasRecord.legible`: what the definition of such a record states is legible.
* `Registry.reads_records`: the declarations of the registered records and the definitions of some
  of them, one line each, are read as these records. A member is read if its line shows it.
-/

namespace TypeLedger

/-! ## 1. Lines as a text -/

/-- Lines lex to the tokens of the lines. -/
theorem spelled_lines {lines : List String} {kss : List (List TokenKind)}
    (h : List.Forall₂ Spelled lines kss) : Spelled (linesText lines) kss.flatten := by
  induction h with
  | nil => exact spelled_empty
  | @cons line ks lines kss hline _ ih =>
    have htext : linesText (line :: lines) = line ++ ("\n" ++ linesText lines) := by
      rw [linesText, List.map_cons, String.join_cons, String.append_assoc]
      rfl
    rw [htext, List.flatten_cons]
    exact hline.append (spelled_line ih) (clean_line _)

/-- A text whose tokens are read as declarations is read as these. -/
theorem parse_spelled {text : String} {ks : List TokenKind} {globals : List (String × CType)}
    {sc : Scope} (hs : Spelled text ks) (hr : ReadsTo ks {} globals sc) :
    ∃ ds, globalsOf ds = globals ∧ parseSource text = .ok (ds, sc) := by
  obtain ⟨ts, stop, hkinds, hparse⟩ := parse_of_spelled hs {}
  obtain ⟨own, hown, hdecls⟩ := hr stop ts [] [] sc hkinds declarations_nil
  rw [List.append_nil, List.append_nil] at hdecls
  exact ⟨own, hown, hparse.trans hdecls⟩

/-- A list and its images under two functions. -/
theorem forall₂_map_map {α β γ : Type} {R : β → γ → Prop} {f : α → β} {g : α → γ} {as : List α}
    (h : ∀ a ∈ as, R (f a) (g a)) : List.Forall₂ R (as.map f) (as.map g) :=
  List.forall₂_map_left_iff.2 (List.forall₂_map_right_iff.2 (List.forall₂_same.2 h))

/-! ## 2. Members as they are stated -/

theorem CType.hasDeclarator_stated (t : CType) (q : Qualifiers) :
    (t.stated q).hasDeclarator = t.hasDeclarator := by
  cases t with
  | pointer p k t =>
    rcases meld_cases (q.union p) k (t.stated .none) with
      ⟨u, -, -, hm⟩ | ⟨u, -, -, hm⟩ | ⟨-, hm⟩ <;>
      rw [stated, hm] <;> rfl
  | _ => rfl

theorem CType.isRecord_stated (t : CType) (q : Qualifiers) :
    (t.stated q).isRecord = t.isRecord := by
  cases t with
  | pointer p k t =>
    rcases meld_cases (q.union p) k (t.stated .none) with
      ⟨u, -, -, hm⟩ | ⟨u, -, -, hm⟩ | ⟨-, hm⟩ <;>
      rw [stated, hm] <;> rfl
  | _ => rfl

namespace MemberDecl

variable {V : Vocabulary} {ctx : Context} {m : MemberDecl}

theorem desugar_stated (h : m.type.Spelt V ctx) :
    m.stated.type.desugar = m.type.desugar.stated .none := h.desugar_stated

/-- The line of a member shows what the line of the `stated` member shows. -/
theorem shown_stated (h : m.type.Spelt V ctx) : m.stated.Shown = m.Shown := by
  rw [Shown, desugar_stated h, CType.hasDeclarator_stated, CType.isRecord_stated]
  rfl

theorem opensBody_stated (h : m.type.Spelt V ctx) : m.stated.OpensBody = m.OpensBody := by
  rw [OpensBody, desugar_stated h, CType.hasDeclarator_stated, CType.isRecord_stated]
  rfl

theorem listed_stated (key : RecordKey) (m : MemberDecl) : m.stated.Listed key = m.Listed key := rfl

theorem kept_stated (h : m.type.Spelt V ctx) (key : RecordKey) :
    m.stated.Kept key = m.Kept key := by
  rw [Kept, Kept, shown_stated h, listed_stated]

end MemberDecl

/-- The lines of the record's members can be read: no type is `_Complex`, and no colon opens a
body. -/
def RecordDecl.Readable (d : RecordDecl) : Prop :=
  ∀ m ∈ d.members.getD [], m.Listed d.key = true →
    m.type.desugar.hasComplex = false ∧ m.OpensBody = false

instance (d : RecordDecl) : Decidable d.Readable :=
  inferInstanceAs (Decidable (∀ m ∈ d.members.getD [], m.Listed d.key = true →
    m.type.desugar.hasComplex = false ∧ m.OpensBody = false))

/-- What a record is read as is complete if the record is. -/
theorem RecordDecl.isComplete_reread (d : RecordDecl) :
    d.stated.reread.isComplete = d.isComplete := by
  rw [isComplete, isComplete, reread, stated]
  cases d.members <;> rfl

/-- A record without a body and bases is read without them. -/
theorem RecordDecl.reread_incomplete {d : RecordDecl} (h : d.members = none ∧ d.bases = []) :
    d.stated.reread.members = none ∧ d.stated.reread.bases = [] := by
  rw [reread, stated, h.1, h.2]
  exact ⟨rfl, ite_self _⟩

namespace Registry

variable {V : Vocabulary} {r : Registry} {env : Environment} {tagOf : TypeId → Tag} {k₀ : Naming}
  {l : Labels}

section

variable (hp : r.Plain) (hl : r.Loaded env tagOf k₀)

include hp hl

/-- **What a record that is `Readable` states is `Legible`** over what is registered. -/
theorem HasRecord.legible (hctx : r.context.Tidy V) {id : RecordId} (h : r.HasRecord id)
    (hd : (r.context.decl id).Readable) :
    (r.context.decl id).stated.Legible r.HasRecord r.HasEnum := by
  have hmembers : ∀ m ∈ (r.context.decl id).stated.members.getD [],
      ∃ m' ∈ (r.context.decl id).members.getD [], m'.stated = m := by
    intro m hm
    rw [RecordDecl.members_stated] at hm
    exact List.mem_map.1 hm
  refine ⟨fun m hm hlisted => ?_, fun m hm hlisted => ?_, h.base hp hl hctx⟩
  · obtain ⟨m, hm', rfl⟩ := hmembers m hm
    obtain ⟨hsaid, -⟩ := h.members_said hp hl hctx m hm'
    rw [MemberDecl.desugar_stated hsaid.spelt]
    exact (hsaid.desugar hp).1.legible hp hl (hd m hm' hlisted).1 .none
  · obtain ⟨m, hm', rfl⟩ := hmembers m hm
    obtain ⟨hsaid, -⟩ := h.members_said hp hl hctx m hm'
    rw [MemberDecl.opensBody_stated hsaid.spelt]
    exact (hd m hm' hlisted).2

end

/-! ## 3. Registered records under labels -/

theorem Names.record_identifier (hn : r.Names l) {id : RecordId} (h : r.HasRecord id) :
    isIdentifier (l.record id).2 = true := by
  obtain ⟨d, hd⟩ := Option.isSome_iff_exists.1 h.1
  exact hn.identifier id d hd h.2

theorem Names.eq (hn : r.Names l) (a b : RecordId) (ha : r.HasRecord a) (hb : r.HasRecord b)
    (he : (l.record a).2 = (l.record b).2) : a = b := by
  obtain ⟨da, hda⟩ := Option.isSome_iff_exists.1 ha.1
  obtain ⟨db, hdb⟩ := Option.isSome_iff_exists.1 hb.1
  exact hn.injective a b da db hda hdb ha.2 hb.2 he

theorem Names.key_decl (hn : r.Names l) {id : RecordId} (h : r.HasRecord id) :
    (l.record id).1 = (r.context.decl id).key := by
  obtain ⟨d, hd⟩ := Option.isSome_iff_exists.1 h.1
  rw [Context.decl_eq hd]
  exact hn.key id d hd h.2

/-- Base classes that are registered are called by identifiers. -/
theorem Names.base_identifier (hn : r.Names l) {bs : List BaseDecl}
    (hb : ∀ b ∈ bs, ∃ i, b.type = .record .none i ∧ r.HasRecord i) :
    ∀ b ∈ bs, isIdentifier (b.type.recordName l) = true := by
  intro b hm
  obtain ⟨i, hi, hid⟩ := hb b hm
  rw [hi, CType.recordName]
  exact hn.record_identifier hid

/-! ## 4. The declarations and definitions of records -/

/-- The tokens of the declarations of all records and the definitions of some. -/
def recordKinds (r : Registry) (l : Labels) (ids : List RecordId) : List (List TokenKind) :=
  r.records.map (forwardKinds l) ++
    ids.map fun id => definitionKinds l id (r.context.decl id).stated

/-- The lines of these. -/
def recordTexts (r : Registry) (l : Labels) (ids : List RecordId) : List String :=
  r.records.map (forwardText l) ++
    ids.map fun id => definitionText l id (r.context.decl id).stated

section

variable (hp : r.Plain) (hl : r.Loaded env tagOf k₀) (hctx : r.context.Tidy V) (hn : r.Names l)
  {ids : List RecordId} (hids : ∀ id ∈ ids, r.HasRecord id)
  (hd : ∀ id ∈ ids, (r.context.decl id).Readable)

include hp hl hctx hn hids hd

theorem spelled_recordTexts : List.Forall₂ Spelled (r.recordTexts l ids) (r.recordKinds l ids) := by
  have hr : ∀ id, r.HasRecord id → isIdentifier (l.record id).2 = true :=
    fun id hid => hn.record_identifier hid
  refine List.rel_append (forall₂_map_map fun id hid => ?_) (forall₂_map_map fun id hid => ?_)
  · exact spelled_forwardText (hr id ((mem_records hp hl).1 hid))
  · have hlegible := (hids id hid).legible hp hl hctx (hd id hid)
    refine spelled_definitionText hr hn.enumIdentifier (hr id (hids id hid))
      (fun m hm hlisted => ⟨hlegible.types m hm hlisted, ?_⟩) (hn.base_identifier hlegible.bases)
    rw [RecordDecl.members_stated] at hm
    obtain ⟨m, hm', rfl⟩ := List.mem_map.1 hm
    exact ((hids id hid).members_said hp hl hctx m hm').2

/-- **The declarations and definitions of records are read as the records** (`Bodied`). -/
theorem reads_records (honce : ids.Nodup) :
    ∃ sc, Bodied l (fun id => (r.context.decl id).stated.reread) r.HasRecord ids.reverse sc ∧
      ReadsTo (r.recordKinds l ids).flatten {} [] sc := by
  obtain ⟨sc₁, hforwarded, hread₁⟩ := reads_forwards hn.eq (forwarded_empty l)
    (fun _ h => nomatch h) (fun _ hid => (mem_records hp hl).1 hid) (nodup_records hp)
    fun _ _ h => nomatch h
  have hbodied : Bodied l (fun id => (r.context.decl id).stated.reread) r.HasRecord [] sc₁ :=
    hforwarded.bodied fun id hid => by
      rw [List.append_nil, List.mem_reverse]
      exact (mem_records hp hl).2 hid
  obtain ⟨sc₂, hbodied₂, hread₂⟩ := reads_definitions hbodied hn.eq (fun _ h => nomatch h) hids
    honce (fun _ _ h => nomatch h) (fun id hid => hn.key_decl (hids id hid))
    fun id hid => (hids id hid).legible hp hl hctx (hd id hid)
  rw [List.append_nil] at hbodied₂
  refine ⟨sc₂, hbodied₂, ?_⟩
  rw [recordKinds, List.flatten_append]
  exact hread₁.append hread₂

end

end Registry

end TypeLedger
