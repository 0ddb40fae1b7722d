import TypeLedger.Proofs.Printing.SpeltOut
import TypeLedger.Proofs.RoundTrip.Records

/-!
# Definitions of an environment read back

* `RecordDecl.Reproducible`: a record of which nothing is lost. `Reproducible.reread_eq` says so.
* `Environment.Defines`: the definition that an environment writes for an identifier states a
  record; it always does (`exists_defines`).
* `Defines.spelled`: it lexes to the tokens of this record.
* `define_reread`: the definition is read, behind the declarations of what it mentions, as the
  record.
* `bit_field_of_struct_is_refused`: a bit field of a struct type without a name is not read.
-/

namespace TypeLedger

/-! ## 1. Records that nothing is lost of -/

/-- The lines of the record's members say all of them: their types are `Writable`; their names, if
they have any, are identifiers; a member without a name has a declarator, or is a bit field of a
type that is no record (`Shown`); and the members of a class have an access (`Regular`). -/
structure RecordDecl.Reproducible (d : RecordDecl) : Prop where
  types : ∀ m ∈ d.members.getD [], m.type.Writable (fun _ => True) fun _ => True
  names : ∀ m ∈ d.members.getD [], ∀ n, m.name = some n → isIdentifier n = true
  shown : ∀ m ∈ d.members.getD [], m.Shown = true
  regular : d.Regular

/-- **Nothing is lost** of a record that is `Reproducible`. -/
theorem RecordDecl.Reproducible.reread_eq {d : RecordDecl} (h : d.Reproducible) : d.reread = d := by
  have hkept : ∀ m ∈ d.members.getD [], m.Kept d.key = true := by
    intro m hm
    rw [MemberDecl.Kept, h.shown m hm, Bool.and_true, MemberDecl.Listed]
    by_cases hkey : d.key = .classKey
    · rw [h.regular.labelled hkey m hm, Bool.or_true]
    · simp [hkey]
  have hreread : ∀ m ∈ d.members.getD [], m.reread d.key = m := by
    intro m hm
    have ht := h.types m hm
    have haccess : (if d.key = .classKey then m.access else none) = m.access := by
      split
      · rfl
      · exact ((h.regular.unlabelled ‹_›).1 m hm).symm
    rw [MemberDecl.reread, CType.desugar_of_not_hasSugar _ ht.canonical, ht.emptied_eq, haccess]
  have hmembers : rereadMembers d.key (d.members.getD []) = d.members.getD [] := by
    rw [rereadMembers, List.filter_eq_self.2 hkept]
    exact (List.map_congr_left hreread).trans (List.map_id _)
  have hbases : (if d.key = .classKey then d.bases else []) = d.bases := by
    split
    · rfl
    · exact (h.regular.unlabelled ‹_›).2.symm
  rw [RecordDecl.reread, hbases]
  cases hms : d.members with
  | none =>
    rw [← hms]
    cases d
    simp_all
  | some ms =>
    rw [hms, Option.getD_some] at hmembers
    rw [Option.map_some, hmembers, ← hms]

namespace Environment

/-! ## 2. What a definition states -/

/-- The members of a struct, union or class. -/
def membersOf (env : Environment) (i : TypeId) : List Member :=
  match env.body? i with
  | some (.aggregate _ _ _ ms _) => ms
  | _ => []

/-- The member is stated behind this keyword. Only the members of a class have an access. -/
structure StatesMember (env : Environment) (rs es : List TypeId) (key : RecordKey) (m : Member)
    (m' : MemberDecl) : Prop where
  name : m'.name = m.name
  type : env.StandsFor rs es .none m.type m'.type
  access : m'.access = if key = .classKey then m.access else none
  bitWidth : m'.bitWidth = m.bitWidth

/-- The base class is stated. -/
structure StatesBase (rs : List TypeId) (e : BaseEdge) (b : BaseDecl) : Prop where
  access : b.access = e.access
  type : ∃ n, rs[n]? = some e.base ∧ b.type = .record .none ⟨n⟩
  isVirtual : b.isVirtual = e.isVirtual

/-- The definition of the identifier states the record: its members (`StatesMember`) and its base
classes (`StatesBase`). Only a class has base classes. -/
structure Defines (env : Environment) (rs es : List TypeId) (i : TypeId) (d : RecordDecl) :
    Prop where
  key : ∃ tag complete ms bs, env.body? i = some (.aggregate d.key tag complete ms bs)
  members : ∃ ms, d.members = some ms ∧
    List.Forall₂ (env.StatesMember rs es d.key) (env.membersOf i) ms
  bases : List.Forall₂ (StatesBase rs) (if d.key = .classKey then env.baseEdges i else []) d.bases

/-- **Every definition states a record** (`Defines`) if the types of the members are resolved, over
lists that have what they come to, and the base classes are in the first one. -/
theorem exists_defines {env : Environment} {rs es : List TypeId} {i : TypeId} {key : RecordKey}
    {tag : Tag} {complete : Bool} {ms : List Member} {bs : List BaseEdge}
    (hb : env.body? i = some (.aggregate key tag complete ms bs))
    (hms : ∀ m ∈ ms, env.Resolved m.type ∧ env.Over rs es m.type)
    (hbases : ∀ e ∈ env.baseEdges i, e.base ∈ rs) : ∃ d, env.Defines rs es i d := by
  have htypes : ∀ m ∈ ms, ∃ t, env.StandsFor rs es .none m.type t := fun m hm =>
    (hms m hm).1.exists_standsFor (hms m hm).2
  have hplaces : ∀ e ∈ env.baseEdges i, ∃ n, rs[n]? = some e.base := fun e he =>
    List.getElem?_of_mem (hbases e he)
  have : Nonempty CType := ⟨.null .none⟩
  choose! f hf using htypes
  choose! g hg using hplaces
  let member : Member → MemberDecl := fun m =>
    ⟨m.name, f m, if key = .classKey then m.access else none, m.bitWidth⟩
  let base : BaseEdge → BaseDecl := fun e => ⟨.record .none ⟨g e⟩, e.access, e.isVirtual⟩
  refine ⟨⟨key, none, some (ms.map member),
    (if key = .classKey then env.baseEdges i else []).map base⟩, ⟨_, _, _, _, hb⟩, ⟨_, rfl, ?_⟩, ?_⟩
  · rw [membersOf, hb, List.forall₂_map_right_iff, List.forall₂_same]
    exact fun m hm => ⟨rfl, hf m hm, rfl, rfl⟩
  · rw [List.forall₂_map_right_iff, List.forall₂_same]
    intro e he
    split at he
    · exact ⟨rfl, ⟨_, hg e he, rfl⟩, rfl⟩
    · cases he

/-! ## 3. Lines of members and of base classes -/

variable {env : Environment} {rs es : List TypeId} {i : TypeId} {k : Naming} {l : Labels}

/-- Computations that leave the naming as it is, one after the other. -/
theorem mapM_of_forall₂ {α β γ : Type} {f : α → StateM Naming β} {g : γ → β} {as : List α}
    {cs : List γ} (h : List.Forall₂ (fun a c => f a k = (g c, k)) as cs) :
    as.mapM f k = (cs.map g, k) := by
  induction h with
  | nil => rfl
  | cons ha _ ih =>
    rw [List.mapM_cons]
    simp only [bind, StateT.bind, ha, ih]
    rfl

/-- The line of the member is written, and lexes to that of the second member. -/
def WritesMember (env : Environment) (k : Naming) (l : Labels) (m : Member) (m' : MemberDecl) :
    Prop :=
  ∃ text ks, env.memberText m k = (text, k) ∧ m'.Words l ks ∧ Spelled text ks

theorem StatesMember.writes (hnamed : env.WellNamed k rs es) {key : RecordKey} {m : Member}
    {m' : MemberDecl} (h : env.StatesMember rs es key m m')
    (ht : m'.type.Writable (fun _ => True) fun _ => True)
    (hn : ∀ n, m'.name = some n → isIdentifier n = true) (hm : env.Legible m.type) :
    env.WritesMember k (env.labels k rs es) m m' := by
  obtain ⟨text, D, htext, hD, hspelled⟩ := h.type.spelled hnamed ht hm _ _ (spelled_nameKinds hn)
    fun _ => noAmp_name hn
  rw [h.name] at htext
  have hdesugar := CType.desugar_of_not_hasSugar _ ht.canonical
  have hline := (hspelled.beside (spelled_widthText m'.bitWidth)).semicolon
  rw [h.bitWidth] at hline
  refine ⟨_, _, ?_, ⟨D, by rwa [hdesugar], ?_⟩, hline⟩
  · rw [memberText]
    simp only [bind, StateT.bind, declare, htext]
    rfl
  · rw [hdesugar, h.bitWidth]
    simp only [List.append_assoc]

/-- The members of a class, with their labels. -/
theorem spelled_classMembers {ms : List Member} {ms' : List MemberDecl}
    (h : List.Forall₂ (fun m m' => m'.access = m.access ∧ env.WritesMember k l m m') ms ms')
    (ha : ∀ m ∈ ms', m.access.isSome = true) (current : Option Access) :
    ∃ texts kss, env.classMembers current ms k = (texts, k) ∧ List.Forall₂ Spelled texts kss ∧
      ClassWords l current ms' kss.flatten := by
  induction h generalizing current with
  | nil => exact ⟨[], [], rfl, .nil, rfl⟩
  | @cons m m' ms ms' hm _ ih =>
    obtain ⟨haccess, text, ks, htext, hwords, hspelled⟩ := hm
    obtain ⟨ham, ha⟩ := List.forall_mem_cons.1 ha
    obtain ⟨a, hsome⟩ := Option.isSome_iff_exists.1 ham
    rw [hsome] at haccess
    obtain ⟨texts, kss, htexts, hall, hrest⟩ := ih ha (some a)
    have hlines : env.classMembers current (m :: ms) k =
        (accessText current a ++ text :: texts, k) := by
      rw [classMembers, ← haccess]
      simp only [bind, StateT.bind, htext, htexts]
      rfl
    have hclass : ∀ ls, ls.flatten = accessKinds current a →
        ClassWords l current (m' :: ms') (ls ++ ks :: kss).flatten := by
      intro ls hls
      simp only [ClassWords, hsome]
      exact ⟨ks, kss.flatten, hwords, hrest, by simp [hls]⟩
    by_cases hc : current = some a
    · refine ⟨_, [] ++ ks :: kss, hlines, ?_, hclass [] ?_⟩
      · rw [accessText, if_pos hc]
        exact .cons hspelled hall
      · rw [accessKinds, if_pos hc, List.flatten_nil]
    · refine ⟨_, [[.keyword (.access a), .mark .colon]] ++ ks :: kss, hlines, ?_, hclass _ ?_⟩
      · rw [accessText, if_neg hc]
        have hcolon : Clean (Text.bytes Mark.colon.spelling) := clean_mark (by decide)
        exact .cons (a.spelled_word.append (spelled_mark .colon) hcolon) (.cons hspelled hall)
      · rw [accessKinds, if_neg hc, List.flatten_singleton]

/-- The members of a struct or union. -/
theorem spelled_plainMembers {ms : List Member} {ms' : List MemberDecl}
    (h : List.Forall₂ (env.WritesMember k l) ms ms') :
    ∃ texts kss, ms.mapM env.memberText k = (texts, k) ∧ List.Forall₂ Spelled texts kss ∧
      PlainWords l ms' kss.flatten := by
  induction h with
  | nil => exact ⟨[], [], rfl, .nil, rfl⟩
  | cons hm _ ih =>
    obtain ⟨text, ks, htext, hwords, hspelled⟩ := hm
    obtain ⟨texts, kss, htexts, hall, hrest⟩ := ih
    refine ⟨text :: texts, ks :: kss, ?_, .cons hspelled hall, ks, kss.flatten, hwords, hrest,
      List.flatten_cons⟩
    rw [List.mapM_cons]
    simp only [bind, StateT.bind, htext, htexts]
    rfl

/-- A base class is written under its name. -/
theorem StatesBase.edgeText (hnamed : env.WellNamed k rs es) {e : BaseEdge} {b : BaseDecl}
    (h : StatesBase rs e b) : env.edgeText e k = (baseText (env.labels k rs es) b, k) := by
  obtain ⟨n, hn, htype⟩ := h.type
  obtain ⟨key, tag, complete, ms, bs, hbody, hcurrent, -⟩ :=
    exists_of_recordLabel (hnamed.records e.base (List.mem_of_getElem? hn))
  have hname : env.baseName e.base k = ((env.recordLabel k e.base).2, k) := by
    simp only [baseName, hbody, Naming.name_of_current? hcurrent]
  rw [Environment.edgeText, baseText, htype, CType.recordName, labels_record hn, h.access,
    h.isVirtual]
  simp only [bind, StateT.bind, hname]
  rfl

/-- What stands between the name of a class and its brace. -/
theorem Defines.baseClauseText (hnamed : env.WellNamed k rs es) {d : RecordDecl}
    (h : env.Defines rs es i d) :
    env.baseClauseText d.key i k = (basesTexts (env.labels k rs es) d.key d.bases, k) := by
  have hbases := h.bases
  cases hkey : d.key with
  | classKey =>
    rw [hkey, if_pos rfl] at hbases
    have htext : env.basesText i k =
        (Fragment.join ", " (d.bases.map (baseText (env.labels k rs es))), k) := by
      rw [basesText]
      simp only [bind, StateT.bind, mapM_of_forall₂ (hbases.imp fun e b hb => hb.edgeText hnamed)]
      rfl
    simp only [Environment.baseClauseText, bind, StateT.bind, htext]
    rfl
  | structKey | unionKey => rfl

/-- The members with their labels. -/
theorem Defines.bodyTexts (hnamed : env.WellNamed k rs es) {d : RecordDecl}
    (h : env.Defines rs es i d) (hd : d.Reproducible)
    (hlegible : ∀ m ∈ env.membersOf i, env.Legible m.type) :
    ∃ texts kss, env.bodyTexts d.key (env.membersOf i) k = (texts, k) ∧
      List.Forall₂ Spelled texts kss ∧
      MembersWords (env.labels k rs es) d.key (d.members.getD []) kss.flatten := by
  obtain ⟨ms, hms, hstates⟩ := h.members
  have htypes := hd.types
  have hnames := hd.names
  have hregular := hd.regular.labelled
  rw [hms, Option.getD_some] at htypes hnames hregular ⊢
  have hwrites : List.Forall₂ (fun m m' =>
      (m'.access = if d.key = .classKey then m.access else none) ∧
        env.WritesMember k (env.labels k rs es) m m') (env.membersOf i) ms := by
    have hread := (List.forall₂_and_left _ _).2 ⟨hlegible, hstates⟩
    have hshape := (List.forall₂_and_left _ _).2
      ⟨fun m' hm' => And.intro (htypes m' hm') (hnames m' hm'), hread.flip⟩
    refine hshape.flip.imp ?_
    rintro m m' ⟨⟨ht, hn⟩, hm, hs⟩
    exact ⟨hs.access, hs.writes hnamed ht hn hm⟩
  cases hkey : d.key with
  | classKey =>
    rw [hkey] at hwrites
    exact spelled_classMembers hwrites (hregular hkey) none
  | structKey | unionKey => exact spelled_plainMembers (hwrites.imp fun _ _ hm => hm.2)

/-! ## 4. The definition -/

/-- A base class has a place in the list. -/
theorem Defines.base {d : RecordDecl} (h : env.Defines rs es i d) {b : BaseDecl}
    (hb : b ∈ d.bases) :
    ∃ n j, rs[n]? = some j ∧ b.type = .record .none ⟨n⟩ := by
  obtain ⟨m, hm, rfl⟩ := List.getElem_of_mem hb
  obtain ⟨hlength, hget⟩ := List.forall₂_iff_get.1 h.bases
  obtain ⟨n, hn, htype⟩ := (hget m (hlength ▸ hm) hm).type
  exact ⟨n, _, hn, htype⟩

/-- What the record states is `Legible` over the lists. -/
theorem Defines.legible {d : RecordDecl} (h : env.Defines rs es i d) (hd : d.Reproducible) :
    d.Legible (·.index < rs.length) (·.index < es.length) := by
  refine ⟨fun m hm _ => ?_, fun m hm _ => MemberDecl.opensBody_of_shown (hd.shown m hm),
    fun b hb => ?_⟩
  · have ht := hd.types m hm
    obtain ⟨ms, hms, hstates⟩ := h.members
    rw [hms, Option.getD_some] at hm
    obtain ⟨p, hp, rfl⟩ := List.getElem_of_mem hm
    obtain ⟨hlength, hget⟩ := List.forall₂_iff_get.1 hstates
    have hstands := (hget p (hlength ▸ hp) hp).type
    rw [CType.desugar_of_not_hasSugar _ ht.canonical]
    exact (hstands.writable ht).legible
  · obtain ⟨n, j, hn, htype⟩ := h.base hb
    exact ⟨⟨n⟩, htype, (List.getElem?_eq_some_iff.1 hn).1⟩

/-- **The definition lexes to the tokens of the record** (`Words`). -/
theorem Defines.spelled (hnamed : env.WellNamed k rs es) {n : Nat} (hi : rs[n]? = some i)
    {d : RecordDecl} (h : env.Defines rs es i d) (hd : d.Reproducible)
    (hlegible : ∀ m ∈ env.membersOf i, env.Legible m.type) :
    ∃ text ks, env.define? i k = (some text, k) ∧ d.Words (env.labels k rs es) ⟨n⟩ ks ∧
      Spelled text ks := by
  obtain ⟨tag, complete, ms, bs, hbody⟩ := h.key
  have hident := hnamed.records i (List.mem_of_getElem? hi)
  obtain ⟨key, tag', _, _, _, hbody', hcurrent, hkey⟩ := exists_of_recordLabel hident
  obtain ⟨rfl, rfl⟩ : d.key = key ∧ tag = tag' := by
    rw [hbody] at hbody'
    cases hbody'
    exact ⟨rfl, rfl⟩
  have hmembers : env.membersOf i = ms := by rw [membersOf, hbody]
  obtain ⟨texts, mss, htexts, hmss, hwords⟩ := h.bodyTexts hnamed hd hlegible
  rw [hmembers] at htexts
  have hclause := h.baseClauseText hnamed
  obtain ⟨bss, hbss, hflat⟩ := spelled_basesTexts (l := env.labels k rs es) d.key fun b hb => by
    obtain ⟨m, j, hm, htype⟩ := h.base hb
    rw [htype, CType.recordName, labels_record hm]
    exact hnamed.records j (List.mem_of_getElem? hm)
  have hhead : List.Forall₂ Spelled [d.key.word, (env.recordLabel k i).2]
      [[.keyword (.record d.key)], [.ident (env.recordLabel k i).2]] :=
    .cons d.key.spelled_word (.cons (spelled_identifier hident) .nil)
  have hopen : List.Forall₂ Spelled ["\x7b"] [[.mark .braceOpen]] :=
    .cons (spelled_mark .braceOpen) .nil
  have hclose : List.Forall₂ Spelled ["\x7d;"] [[.mark .braceClose, .mark .semicolon]] :=
    .cons ((spelled_mark .braceClose).semicolon) .nil
  have hall := spelled_ofWords (List.rel_append (List.rel_append (List.rel_append
    (List.rel_append hhead hbss) hopen) hmss) hclose)
  refine ⟨_, _, ?_, ⟨mss.flatten, hwords, ?_⟩, hall⟩
  · rw [define?, hbody]
    simp only [bind, StateT.bind, Naming.name_of_current? hcurrent, hclause, htexts]
    rfl
  · simp [labels_record hi, hkey, ← hflat]

/-- The definition of an identifier states a record with its key. -/
theorem Defines.label_key (hnamed : env.WellNamed k rs es) {n : Nat} (hi : rs[n]? = some i)
    {d : RecordDecl} (h : env.Defines rs es i d) :
    ((env.labels k rs es).record ⟨n⟩).1 = d.key := by
  obtain ⟨tag, complete, ms, bs, hbody⟩ := h.key
  obtain ⟨key, _, _, _, _, hbody', -, hkey⟩ :=
    exists_of_recordLabel (hnamed.records i (List.mem_of_getElem? hi))
  rw [hbody] at hbody'
  cases hbody'
  rw [labels_record hi, hkey]

/-! ## 5. The declarations in front of it -/

/-- The structs, unions and classes of the list, by their places. -/
def places (rs : List TypeId) : List RecordId := (List.range rs.length).map RecordId.mk

theorem mem_places {id : RecordId} : id ∈ places rs ↔ id.index < rs.length := by
  cases id
  simp [places]

theorem nodup_places (rs : List TypeId) : (places rs).Nodup :=
  List.nodup_range.map fun _ _ h => congrArg RecordId.index h

theorem WellNamed.isIdentifier_label (hnamed : env.WellNamed k rs es) {id : RecordId}
    (hid : id.index < rs.length) : isIdentifier ((env.labels k rs es).record id).2 = true := by
  rw [labels_record (List.getElem?_eq_getElem hid)]
  exact hnamed.records _ (List.getElem_mem hid)

/-- Different places have different names. -/
theorem WellNamed.eq_of_label_eq (hnamed : env.WellNamed k rs es) (a b : RecordId)
    (ha : a.index < rs.length) (hb : b.index < rs.length)
    (h : ((env.labels k rs es).record a).2 = ((env.labels k rs es).record b).2) : a = b := by
  have hlabel : ∀ c : RecordId, c.index < rs.length →
      (rs.map fun i => (env.recordLabel k i).2)[c.index]? =
        some ((env.labels k rs es).record c).2 := by
    intro c hc
    have hplace := List.getElem?_eq_getElem hc
    rw [List.getElem?_map, hplace, Option.map_some, labels_record hplace]
  have hindex : a.index = b.index := by
    refine (List.getElem?_inj (by simpa using ha) hnamed.distinct).1 ?_
    rw [hlabel a ha, hlabel b hb, h]
  cases a
  cases b
  exact congrArg RecordId.mk hindex

/-- The declaration of a struct, union or class without its body. -/
theorem WellNamed.forward? (hnamed : env.WellNamed k rs es) {n : Nat} (hi : rs[n]? = some i) :
    env.forward? i k = (some (forwardText (env.labels k rs es) ⟨n⟩), k) := by
  obtain ⟨key, tag, _, _, _, hbody, hcurrent, hkey⟩ :=
    exists_of_recordLabel (hnamed.records i (List.mem_of_getElem? hi))
  rw [Environment.forward?, hbody]
  simp only [bind, StateT.bind, Naming.name_of_current? hcurrent]
  rw [forwardText, labels_record hi, hkey]
  rfl

/-- The declarations of all of the list. -/
theorem WellNamed.forwards (hnamed : env.WellNamed k rs es) : rs.mapM env.forward? k =
    (((places rs).map (forwardText (env.labels k rs es))).map some, k) := by
  rw [List.map_map]
  refine mapM_of_forall₂ (List.forall₂_iff_get.2 ⟨by simp [places], fun m hm hm' => ?_⟩)
  simpa [places] using hnamed.forward? (List.getElem?_eq_getElem hm)

theorem WellNamed.spelled_forwards (hnamed : env.WellNamed k rs es) :
    List.Forall₂ Spelled ((places rs).map (forwardText (env.labels k rs es)))
      ((places rs).map (forwardKinds (env.labels k rs es))) :=
  forall₂_map_map fun _ hid => spelled_forwardText (hnamed.isIdentifier_label (mem_places.1 hid))

/-- They are read as structs, unions and classes without bodies. -/
theorem WellNamed.reads_forwards (hnamed : env.WellNamed k rs es)
    (decl : RecordId → RecordDecl) :
    ∃ sc, Bodied (env.labels k rs es) decl (·.index < rs.length) [] sc ∧
      ReadsTo ((places rs).map (forwardKinds (env.labels k rs es))).flatten {} [] sc := by
  obtain ⟨sc, hforwarded, hreads⟩ := TypeLedger.reads_forwards hnamed.eq_of_label_eq
    (forwarded_empty _) (List.forall_mem_nil _) (fun id hid => mem_places.1 hid) (nodup_places rs)
    fun _ _ => List.not_mem_nil
  refine ⟨sc, hforwarded.bodied fun id hid => ?_, hreads⟩
  rw [List.append_nil, List.mem_reverse]
  exact mem_places.2 hid

/-! ## 6. The definition read back -/

/-- **Definitions are read back.** The structs, unions and classes `rs` and the enumerations `es`
have identifiers for names, no two of the former the same (`WellNamed`). The definition that
`define?` writes for one of the former mentions no others (`Defines`). It is read behind their
declarations (`forward?`), in any order, as a record that `Matches`: with the same key, the same
members in the same order (their names, types and widths, and in a class their access), and in a
class the same base classes in the same order. No member is without a name unless it has a
declarator or is a bit field whose type is no record (`Reproducible`), and no pointer leads to a
function or an array through more qualified types than are looked at (`Legible`). -/
theorem define_reread {d : RecordDecl} (hnamed : env.WellNamed k rs es) (hi : i ∈ rs)
    (h : env.Defines rs es i d) (hd : d.Reproducible)
    (hlegible : ∀ m ∈ env.membersOf i, env.Legible m.type) :
    ∃ forwards text ds sc, rs.mapM env.forward? k = (forwards.map some, k) ∧
      env.define? i k = (some text, k) ∧
      parseSource (linesText (forwards ++ [text])) = .ok (ds, sc) ∧
      ∃ i' d', sc.context.findRecord? (env.recordLabel k i).2 = some i' ∧
        sc.context.record? i' = some d' ∧ d.Matches (env.labels k rs es) sc.context d' := by
  obtain ⟨n, hn⟩ := List.getElem?_of_mem hi
  have hplace : (⟨n⟩ : RecordId).index < rs.length := (List.getElem?_eq_some_iff.1 hn).1
  have hkey := h.label_key hnamed hn
  have hcomplete : d.isComplete = true := by
    obtain ⟨ms, hms, -⟩ := h.members
    rw [RecordDecl.isComplete, hms]
    rfl
  obtain ⟨text, ks, htext, hwords, hspelled⟩ := h.spelled hnamed hn hd hlegible
  obtain ⟨sc₁, hforwarded, hreads₁⟩ := hnamed.reads_forwards fun _ => d.reread
  obtain ⟨sc, hbodied, hreads₂⟩ := hforwarded.define hnamed.eq_of_label_eq
    (List.forall_mem_nil _) hplace List.not_mem_nil hkey (h.legible hd)
  obtain ⟨ds, -, hparse⟩ := parse_spelled
    (spelled_lines (List.rel_append hnamed.spelled_forwards (.cons hspelled .nil))) (by
      rw [List.flatten_append, List.flatten_singleton]
      exact hreads₁.append (hreads₂ ks hwords))
  rw [hd.reread_eq] at hbodied
  obtain ⟨i', d', hi', hd', hmatch⟩ := hbodied.matches hplace hkey (fun _ => hcomplete)
    fun hnot => absurd List.mem_cons_self hnot
  rw [labels_record hn] at hi'
  exact ⟨_, text, ds, sc, hnamed.forwards, htext, hparse, i', d', hi', hd', hmatch⟩

/-- A class with a base class. It has a bit field without a name, a pointer to a function of a named
parameter, and a pointer to its own kind. -/
def windowEnvironment : Environment where
  top :=
    { records :=
        [(⟨"Class0"⟩, ⟨⟨"Class0"⟩, .none, .aggregate .classKey (.named "Widget") true [] []⟩),
          (⟨"Class1"⟩, ⟨⟨"Class1"⟩, .none, .aggregate .classKey (.named "Window") true
            [⟨none, ⟨"int"⟩, some .priv, some 3⟩, ⟨some "handler", ⟨"Pointer0"⟩, some .pub, none⟩,
              ⟨some "next", ⟨"Pointer1"⟩, some .pub, none⟩] []⟩),
          (⟨"Pointer0"⟩, ⟨⟨"Pointer0"⟩, .none, .pointer .pointer ⟨"Basic0"⟩⟩),
          (⟨"Basic0"⟩, ⟨⟨"Basic0"⟩, .none, .qualified ⟨"Function0"⟩⟩),
          (⟨"Function0"⟩, ⟨⟨"Function0"⟩, .none,
            .function ⟨"int"⟩ [⟨⟨"Basic1"⟩, some "event"⟩] true⟩),
          (⟨"Basic1"⟩, ⟨⟨"Basic1"⟩, { isConst := true }, .qualified ⟨"int"⟩⟩),
          (⟨"Pointer1"⟩, ⟨⟨"Pointer1"⟩, .none, .pointer .pointer ⟨"Class1"⟩⟩)]
      inheritance := ⟨[(⟨"Class1"⟩, [⟨.pub, ⟨"Class0"⟩, true⟩])]⟩ }
  below := [.fundamental]

/-- The classes in the order in which they are numbered. -/
def windowClasses : List TypeId := [⟨"Class0"⟩, ⟨"Class1"⟩]

/-- The record that the definition of the class states. -/
def windowRecord : RecordDecl where
  key := .classKey
  name := some "Window"
  members := some
    [⟨none, .builtin .none "int", some .priv, some 3⟩,
      ⟨some "handler", .pointer .none .pointer
        (.function .none (.builtin .none "int") [.builtin { isConst := true } "int"] true),
        some .pub, none⟩,
      ⟨some "next", .pointer .none .pointer (.record .none ⟨1⟩), some .pub, none⟩]
  bases := [⟨.record .none ⟨0⟩, .pub, true⟩]

theorem defines_window :
    windowEnvironment.Defines windowClasses [] ⟨"Class1"⟩ windowRecord := by
  have hint : ∀ quals, windowEnvironment.StandsFor windowClasses [] quals ⟨"int"⟩
      (.builtin (quals.union .none) "int") := by
    intro quals
    have hr : windowEnvironment.lookup? ⟨"int"⟩ = some ⟨⟨"int"⟩, .none, .reserved "int"⟩ := rfl
    exact .reserved hr rfl
  have hfunction : windowEnvironment.StandsFor windowClasses [] .none ⟨"Function0"⟩
      (.function .none (.builtin .none "int") [.builtin { isConst := true } "int"] true) := by
    have hr : windowEnvironment.lookup? ⟨"Function0"⟩ = some ⟨⟨"Function0"⟩, .none,
        .function ⟨"int"⟩ ([(⟨⟨"Basic1"⟩, some "event"⟩,
          CType.builtin { isConst := true } "int")].map Prod.fst) true⟩ := rfl
    refine .function hr rfl (hint .none) fun a ha => ?_
    obtain rfl := List.mem_singleton.1 ha
    exact .qualified rfl rfl (hint _)
  have hclass : windowEnvironment.StandsFor windowClasses [] .none ⟨"Class1"⟩
      (.record .none ⟨1⟩) := by
    have hr : windowEnvironment.lookup? ⟨"Class1"⟩ = some ⟨⟨"Class1"⟩, .none, .aggregate .classKey
        (.named "Window") true (windowEnvironment.membersOf ⟨"Class1"⟩) []⟩ := rfl
    have hn : windowClasses[1]? = some ⟨"Class1"⟩ := rfl
    exact .record hr rfl hn
  have hhandler : windowEnvironment.StandsFor windowClasses [] .none ⟨"Pointer0"⟩
      (.pointer .none .pointer (.function .none (.builtin .none "int")
        [.builtin { isConst := true } "int"] true)) := by
    have hr : windowEnvironment.lookup? ⟨"Pointer0"⟩ =
      some ⟨⟨"Pointer0"⟩, .none, .pointer .pointer ⟨"Basic0"⟩⟩ := rfl
    exact .pointer hr rfl (.qualified rfl rfl hfunction)
  have hnext : windowEnvironment.StandsFor windowClasses [] .none ⟨"Pointer1"⟩
      (.pointer .none .pointer (.record .none ⟨1⟩)) := by
    have hr : windowEnvironment.lookup? ⟨"Pointer1"⟩ =
      some ⟨⟨"Pointer1"⟩, .none, .pointer .pointer ⟨"Class1"⟩⟩ := rfl
    exact .pointer hr rfl hclass
  refine ⟨⟨_, _, _, _, rfl⟩, ⟨_, rfl, ?_⟩, .cons ⟨rfl, ⟨0, rfl, rfl⟩, rfl⟩ .nil⟩
  exact .cons ⟨rfl, hint .none, rfl, rfl⟩ (.cons ⟨rfl, hhandler, rfl, rfl⟩
    (.cons ⟨rfl, hnext, rfl, rfl⟩ .nil))

theorem reproducible_window : windowRecord.Reproducible := by
  have hint : ∀ quals, (CType.builtin quals "int").Writable (fun _ => True) fun _ => True :=
    fun _ => .builtin ⟨[.int], rfl⟩
  refine ⟨?_, by decide +kernel, by decide +kernel, by decide⟩
  refine List.forall_mem_cons.2 ⟨hint _, List.forall_mem_cons.2 ⟨?_,
    List.forall_mem_singleton.2 ?_⟩⟩
  · refine .pointer (by decide) (fun _ => rfl) (.function (hint _) ?_ (.inl rfl))
    exact List.forall_mem_singleton.2 (hint _)
  · exact .pointer (by decide) (fun _ => rfl) (.record trivial)

theorem legible_window :
    ∀ m ∈ windowEnvironment.membersOf ⟨"Class1"⟩, windowEnvironment.Legible m.type := by
  have hint : windowEnvironment.Legible ⟨"int"⟩ := legible_of_onward rfl nofun nofun nofun
  have hclass : windowEnvironment.Legible ⟨"Class1"⟩ := legible_of_onward rfl nofun nofun nofun
  have hconst : windowEnvironment.Legible ⟨"Basic1"⟩ :=
    legible_of_onward rfl nofun nofun (List.forall_mem_singleton.2 hint)
  have hfunction : windowEnvironment.Legible ⟨"Function0"⟩ := by
    refine legible_of_onward rfl ?_ nofun
      (List.forall_mem_cons.2 ⟨hint, List.forall_mem_singleton.2 hconst⟩)
    rintro t ps v ⟨⟩
    decide +kernel
  have hqualified : windowEnvironment.Legible ⟨"Basic0"⟩ :=
    legible_of_onward rfl nofun nofun (List.forall_mem_singleton.2 hfunction)
  have hhandler : windowEnvironment.Legible ⟨"Pointer0"⟩ := by
    refine legible_of_onward rfl nofun ?_ (List.forall_mem_singleton.2 hqualified)
    rintro kind j f qs ⟨⟩ hq -
    cases hq with
    | here => decide
    | qualified hr hb hq =>
      cases hr
      cases hb
      rw [hq.eq_nil nofun]
      decide
  have hnext : windowEnvironment.Legible ⟨"Pointer1"⟩ := by
    refine legible_of_onward rfl nofun ?_ (List.forall_mem_singleton.2 hclass)
    rintro kind j f qs ⟨⟩ hq -
    rw [hq.eq_nil nofun]
    decide
  exact List.forall_mem_cons.2 ⟨hint, List.forall_mem_cons.2 ⟨hhandler,
    List.forall_mem_singleton.2 hnext⟩⟩

theorem define_reread_window :
    ∃ forwards text ds sc,
      windowClasses.mapM windowEnvironment.forward? {} = (forwards.map some, {}) ∧
      windowEnvironment.define? ⟨"Class1"⟩ {} = (some text, {}) ∧
      parseSource (linesText (forwards ++ [text])) = .ok (ds, sc) ∧
      ∃ i' d', sc.context.findRecord? "Window" = some i' ∧ sc.context.record? i' = some d' ∧
        windowRecord.Matches (windowEnvironment.labels {} windowClasses []) sc.context d' :=
  define_reread (by decide +kernel) (by decide) defines_window reproducible_window legible_window

/-- A struct whose only member is a bit field of another struct, without a name. -/
def paddedEnvironment : Environment where
  top := { records :=
    [(⟨"Struct0"⟩, ⟨⟨"Struct0"⟩, .none, .aggregate .structKey (.named "T") false [] []⟩),
      (⟨"Struct1"⟩, ⟨⟨"Struct1"⟩, .none, .aggregate .structKey (.named "S") true
        [⟨none, ⟨"Struct0"⟩, none, some 3⟩] []⟩)] }
  below := [.fundamental]

def paddedStructs : List TypeId := [⟨"Struct0"⟩, ⟨"Struct1"⟩]

def paddedRecord : RecordDecl where
  key := .structKey
  name := some "S"
  members := some [⟨none, .record .none ⟨0⟩, none, some 3⟩]
  bases := []

/-- The definition of the struct behind the declarations of both. -/
def paddedText : String := "struct T;\nstruct S;\nstruct S \x7b struct T : 3; \x7d;\n"

theorem parse_paddedText :
    parseSource paddedText = .error ⟨⟨3, 21⟩, .parse .baseOutsideClass⟩ := by
  have htokens : tokenize paddedText.toUTF8.toList = .ok
      ([⟨.keyword (.record .structKey), ⟨1, 1⟩⟩, ⟨.ident "T", ⟨1, 8⟩⟩, ⟨.mark .semicolon, ⟨1, 9⟩⟩,
        ⟨.keyword (.record .structKey), ⟨2, 1⟩⟩, ⟨.ident "S", ⟨2, 8⟩⟩, ⟨.mark .semicolon, ⟨2, 9⟩⟩,
        ⟨.keyword (.record .structKey), ⟨3, 1⟩⟩, ⟨.ident "S", ⟨3, 8⟩⟩, ⟨.mark .braceOpen, ⟨3, 10⟩⟩,
        ⟨.keyword (.record .structKey), ⟨3, 12⟩⟩, ⟨.ident "T", ⟨3, 19⟩⟩, ⟨.mark .colon, ⟨3, 21⟩⟩,
        ⟨.intLit 3, ⟨3, 23⟩⟩, ⟨.mark .semicolon, ⟨3, 24⟩⟩, ⟨.mark .braceClose, ⟨3, 26⟩⟩,
        ⟨.mark .semicolon, ⟨3, 27⟩⟩], ⟨4, 1⟩) := by
    decide +kernel
  rw [parseSource, parseBytes, htokens]
  cbv

/-- **A bit field of a struct, without a name, is not read back.** Its colon opens the body of the
struct. -/
theorem bit_field_of_struct_is_refused :
    paddedEnvironment.WellNamed {} paddedStructs [] ∧
      paddedEnvironment.Defines paddedStructs [] ⟨"Struct1"⟩ paddedRecord ∧
      (∀ m ∈ paddedRecord.members.getD [], m.type.Writable (fun _ => True) fun _ => True) ∧
      (∀ m ∈ paddedRecord.members.getD [], ∀ n, m.name = some n → isIdentifier n = true) ∧
      (∀ m ∈ paddedRecord.members.getD [], m.name = none → m.bitWidth.isSome = true) ∧
      paddedRecord.Regular ∧
      (∀ m ∈ paddedEnvironment.membersOf ⟨"Struct1"⟩, paddedEnvironment.Legible m.type) ∧
      ∃ forwards text,
        paddedStructs.mapM paddedEnvironment.forward? {} = (forwards.map some, {}) ∧
        paddedEnvironment.define? ⟨"Struct1"⟩ {} = (some text, {}) ∧
        parseSource (linesText (forwards ++ [text])) =
          .error ⟨⟨3, 21⟩, .parse .baseOutsideClass⟩ := by
  have hr : paddedEnvironment.lookup? ⟨"Struct0"⟩ =
    some ⟨⟨"Struct0"⟩, .none, .aggregate .structKey (.named "T") false [] []⟩ := rfl
  have hrecord : paddedEnvironment.StandsFor paddedStructs [] .none ⟨"Struct0"⟩
      (.record .none ⟨0⟩) := by
    have hn : paddedStructs[0]? = some ⟨"Struct0"⟩ := rfl
    exact .record hr rfl hn
  have hlegible : paddedEnvironment.Legible ⟨"Struct0"⟩ := legible_of_onward rfl nofun nofun nofun
  have hdefine : paddedEnvironment.define? ⟨"Struct1"⟩ {} =
      (some "struct S \x7b struct T : 3; \x7d;", {}) := by
    have hdeclare : paddedEnvironment.declareWith [] .none ⟨"Struct0"⟩ "" {} =
        ("struct T", {}) := by
      rw [declareWith_eq hr List.not_mem_nil]
      rfl
    have hmember : paddedEnvironment.memberText ⟨none, ⟨"Struct0"⟩, none, some 3⟩ {} =
        ("struct T : 3;", {}) := by
      rw [memberText]
      simp only [bind, StateT.bind, declare, Option.getD_none, hdeclare]
      rfl
    have htexts : paddedEnvironment.bodyTexts .structKey
        (paddedEnvironment.membersOf ⟨"Struct1"⟩) {} = (["struct T : 3;"], {}) :=
      mapM_of_forall₂ (g := id) (.cons hmember .nil)
    have hbases : paddedEnvironment.baseClauseText .structKey ⟨"Struct1"⟩ {} = ([], {}) := rfl
    have hname : Naming.name (.named "S") {} = ("S", {}) := rfl
    have hbody : paddedEnvironment.body? ⟨"Struct1"⟩ = some (.aggregate .structKey (.named "S") true
        (paddedEnvironment.membersOf ⟨"Struct1"⟩) []) := rfl
    rw [define?, hbody]
    simp only [bind, StateT.bind, hname, hbases, htexts]
    rfl
  have hdefines : paddedEnvironment.Defines paddedStructs [] ⟨"Struct1"⟩ paddedRecord :=
    ⟨⟨_, _, _, _, rfl⟩, ⟨_, rfl, .cons ⟨rfl, hrecord, rfl, rfl⟩ .nil⟩, .nil⟩
  refine ⟨by decide +kernel, hdefines,
    List.forall_mem_singleton.2 (.record trivial), by decide +kernel, by decide, by decide,
    List.forall_mem_singleton.2 hlegible, ["struct T;", "struct S;"],
    "struct S \x7b struct T : 3; \x7d;", rfl, hdefine, parse_paddedText⟩

end Environment

end TypeLedger
