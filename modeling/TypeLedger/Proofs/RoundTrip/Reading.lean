import TypeLedger.Proofs.Grammar.Bodies
import TypeLedger.Proofs.RoundTrip.Generation

/-!
# Reading lines one after the other

* `ReadsTo`: tokens are read as declarations, which state these global symbols.
* `Forwarded` and `Bodied`: what a scope has behind the lines of records, and behind some of their
  definitions. `Forwarded.forward` and `Bodied.define` are the steps, `reads_forwards` and
  `reads_definitions` the runs.
* `reads_symbols`: the lines of global symbols.
-/

namespace TypeLedger

variable {l : Labels} {sc sc₁ sc₂ sc₃ : Scope}

/-! ## 1. Lines -/

/-- The tokens are read as declarations of these global symbols, in order. -/
def ReadsTo (ks : List TokenKind) (sc : Scope) (globals : List (String × CType)) (sc' : Scope) :
    Prop :=
  ∀ stop T R list sc'', T.map Token.kind = ks → declarations stop sc' R = .ok (list, sc'') →
    ∃ own, globalsOf own = globals ∧ declarations stop sc (T ++ R) = .ok (own ++ list, sc'')

theorem readsTo_nil (sc : Scope) : ReadsTo [] sc [] sc := by
  intro stop T R list sc'' hT hR
  obtain rfl := List.map_eq_nil_iff.1 hT
  exact ⟨[], rfl, hR⟩

theorem ReadsTo.append {ks kt : List TokenKind} {gs gt : List (String × CType)}
    (hs : ReadsTo ks sc gs sc₁) (ht : ReadsTo kt sc₁ gt sc₂) :
    ReadsTo (ks ++ kt) sc (gs ++ gt) sc₂ := by
  intro stop T R list sc'' hT hR
  obtain ⟨S, T, rfl, hS, hT⟩ := List.map_eq_append_iff.1 hT
  obtain ⟨dt, rfl, hreadt⟩ := ht stop T R list sc'' hT hR
  obtain ⟨dsl, rfl, hreads⟩ := hs stop S (T ++ R) _ sc'' hS hreadt
  refine ⟨dsl ++ dt, List.filterMap_append, ?_⟩
  rw [List.append_assoc, hreads, List.append_assoc]

/-- A line that is read as one declaration. -/
theorem readsTo_line {ks : List TokenKind} (name : Option String) (type : CType)
    (h : ∀ stop T R, T.map Token.kind = ks → ∃ loc,
      Gives (externalDeclaration stop sc (T ++ R)) ([⟨name, type, none, loc⟩], sc₁) R) :
    ReadsTo ks sc (name.map (·, type)).toList sc₁ := by
  intro stop T R list sc'' hT hR
  obtain ⟨loc, hg⟩ := h stop T R hT
  refine ⟨_, ?_, declarations_cons hg hR⟩
  cases name <;> rfl

/-! ## 2. The lines of records -/

/-- A record by its label, as long as it has no body. -/
def bareDecl (l : Labels) (id : RecordId) : RecordDecl :=
  ⟨(l.record id).1, some (l.record id).2, none, []⟩

/-- The scope has the records `done` under their labels, without bodies, and no others. -/
structure Forwarded (l : Labels) (done : List RecordId) (sc : Scope) : Prop where
  ready : sc.Ready l (· ∈ done)
  bare : ∀ id ∈ done, ∀ id', sc.context.findRecord? (l.record id).2 = some id' →
    sc.context.record? id' = some (bareDecl l id)
  only : ∀ n id', sc.context.findRecord? n = some id' → ∃ id ∈ done, (l.record id).2 = n

theorem forwarded_empty (l : Labels) : Forwarded l [] {} := by
  refine ⟨⟨fun _ h => (nomatch h), fun n t h => (nomatch h)⟩, fun _ h => (nomatch h),
    fun n id' h => ?_⟩
  cases h

/-- The records stay as they are when only mentions are read. -/
theorem Forwarded.widens {done : List RecordId} (h : Forwarded l done sc) (hw : sc.Widens sc₁)
    (hready : sc₁.Ready l (· ∈ done)) : Forwarded l done sc₁ := by
  refine ⟨hready, fun a ha id' hid' => ?_, fun n id' hn => ?_⟩
  · rw [hw.findRecord?] at hid'
    rw [hw.record?]
    exact h.bare a ha id' hid'
  · rw [hw.findRecord?] at hn
    exact h.only n id' hn

/-- No record has a label that none of those there are has. -/
theorem Forwarded.findRecord?_eq_none {done : List RecordId} {id : RecordId}
    (h : Forwarded l done sc) (hid : ∀ a ∈ done, (l.record a).2 ≠ (l.record id).2) :
    sc.context.findRecord? (l.record id).2 = none := by
  cases hf : sc.context.findRecord? (l.record id).2 with
  | none => rfl
  | some id' =>
    obtain ⟨a, ha, hn⟩ := h.only _ id' hf
    exact absurd hn (hid a ha)

/-- A record with a new label is declared behind those there are. -/
theorem Forwarded.declare {done : List RecordId} {id : RecordId} (h : Forwarded l done sc)
    (hid : ∀ a ∈ done, (l.record a).2 ≠ (l.record id).2) {ctx : Context}
    (hctx : (sc.context.declareRecord (l.record id).1 (some (l.record id).2)).2 = ctx) :
    ctx.findRecord? (l.record id).2 = some ⟨sc.context.records.length⟩ ∧
      Forwarded l (id :: done) { sc with context := ctx } := by
  have hfind : ∀ n, ctx.findRecord? n = if (l.record id).2 = n then
      some ⟨sc.context.records.length⟩ else sc.context.findRecord? n := by
    intro n
    rw [← hctx, Context.findRecord?_declareRecord]
    simp
  have hrecord : ∀ i : RecordId, ctx.record? i = if i.index = sc.context.records.length then
      some (bareDecl l id) else sc.context.record? i := by
    intro i
    rw [← hctx, Context.record?_declareRecord]
    rfl
  have hself : ctx.findRecord? (l.record id).2 = some ⟨sc.context.records.length⟩ := by
    rw [hfind, if_pos rfl]
  have hother : ∀ a ∈ done, ctx.findRecord? (l.record a).2 =
      sc.context.findRecord? (l.record a).2 := by
    intro a ha
    rw [hfind, if_neg (Ne.symm (hid a ha))]
  refine ⟨hself, ⟨fun a ha => ?_, fun n t hn => ?_⟩, fun a ha id' hid' => ?_, fun n id' hn => ?_⟩
  · rcases List.mem_cons.1 ha with rfl | ha
    · exact ⟨_, hself⟩
    · obtain ⟨id', hid'⟩ := h.ready.found a ha
      exact ⟨id', (hother a ha).trans hid'⟩
  · obtain ⟨id', rfl, hid'⟩ := h.ready.classes n t hn
    refine ⟨id', rfl, (hfind n).trans ?_⟩
    rw [if_neg, hid']
    rintro rfl
    rw [h.findRecord?_eq_none hid] at hid'
    cases hid'
  · refine (hrecord id').trans ?_
    rcases List.mem_cons.1 ha with rfl | ha
    · obtain rfl := Option.some.inj (hself.symm.trans hid')
      rw [if_pos rfl]
    · have hbare := h.bare a ha id' ((hother a ha).symm.trans hid')
      rw [if_neg (Nat.ne_of_lt (Context.index_lt_of_record? hbare)), hbare]
  · have hn := (hfind n).symm.trans hn
    split at hn
    · rename_i he
      exact ⟨id, List.mem_cons_self, he⟩
    · obtain ⟨a, ha, he⟩ := h.only n id' hn
      exact ⟨a, List.mem_cons_of_mem _ ha, he⟩

/-- **The line of a record adds it** to those there are, if its label is new (`forwardKinds`). -/
theorem Forwarded.forward {done : List RecordId} {id : RecordId} (h : Forwarded l done sc)
    (hid : ∀ a ∈ done, (l.record a).2 ≠ (l.record id).2) :
    ∃ sc', Forwarded l (id :: done) sc' ∧ ReadsTo (forwardKinds l id) sc [] sc' := by
  obtain ⟨hself, hdeclared⟩ := h.declare hid rfl
  obtain ⟨hw, hready⟩ := hdeclared.ready.nameClass (l.record id).1 hself
  exact ⟨_, hdeclared.widens hw hready,
    readsTo_line none (.record .none ⟨sc.context.records.length⟩) fun stop T R hT =>
      gives_forward (h.findRecord?_eq_none hid) hT⟩

/-- **The lines of records add them** one after the other. -/
theorem reads_forwards {s : RecordId → Prop}
    (hinj : ∀ a b, s a → s b → (l.record a).2 = (l.record b).2 → a = b) {ids done : List RecordId}
    (h : Forwarded l done sc) (hdone : ∀ a ∈ done, s a) (hids : ∀ a ∈ ids, s a)
    (hnodup : ids.Nodup) (hnot : ∀ a ∈ ids, a ∉ done) :
    ∃ sc', Forwarded l (ids.reverse ++ done) sc' ∧
      ReadsTo (ids.map (forwardKinds l)).flatten sc [] sc' := by
  induction ids generalizing sc done with
  | nil => exact ⟨sc, h, readsTo_nil sc⟩
  | cons id ids ih =>
    obtain ⟨hid, hrest⟩ := List.forall_mem_cons.1 hids
    obtain ⟨hnew, hnodup⟩ := List.nodup_cons.1 hnodup
    obtain ⟨hnid, hnot⟩ := List.forall_mem_cons.1 hnot
    have hfresh : ∀ a ∈ done, (l.record a).2 ≠ (l.record id).2 := fun a ha he =>
      hnid (hinj a id (hdone a ha) hid he ▸ ha)
    obtain ⟨sc₁, h₁, hread₁⟩ := h.forward hfresh
    obtain ⟨sc₂, h₂, hread₂⟩ := ih h₁ (List.forall_mem_cons.2 ⟨hid, hdone⟩) hrest hnodup
      fun a ha hm => by
        rcases List.mem_cons.1 hm with rfl | hm
        · exact hnew ha
        · exact hnot a ha hm
    refine ⟨sc₂, ?_, hread₁.append hread₂⟩
    rwa [List.reverse_cons, List.append_assoc]

/-! ## 3. The definitions of records -/

/-- The scope has the records `known` under their labels: those of `done` with their bodies, the
others without. -/
structure Bodied (l : Labels) (decl : RecordId → RecordDecl) (known : RecordId → Prop)
    (done : List RecordId) (sc : Scope) : Prop where
  ready : sc.Ready l known
  bare : ∀ id, known id → id ∉ done → ∀ id', sc.context.findRecord? (l.record id).2 = some id' →
    sc.context.record? id' = some (bareDecl l id)
  body : ∀ id ∈ done, ∀ id', sc.context.findRecord? (l.record id).2 = some id' →
    ∃ ms bs, sc.context.record? id' = some { bareDecl l id with members := some ms, bases := bs } ∧
      List.Forall₂ (MemberDecl.Matches l sc.context) ((decl id).members.getD []) ms ∧
      List.Forall₂ (BaseDecl.Matches l sc.context) (decl id).bases bs

variable {decl : RecordId → RecordDecl} {known : RecordId → Prop} {e : EnumId → Prop}

theorem Forwarded.bodied {done : List RecordId} (h : Forwarded l done sc)
    (hk : ∀ id, known id → id ∈ done) : Bodied l decl known [] sc :=
  ⟨⟨fun id hid => h.ready.found id (hk id hid), h.ready.classes⟩,
    fun id hid _ => h.bare id (hk id hid), fun _ h => nomatch h⟩

/-- What has been read stays when only mentions are read. -/
theorem Bodied.widens {done : List RecordId} (h : Bodied l decl known done sc)
    (hw : sc.Widens sc₁) (hready : sc₁.Ready l known) : Bodied l decl known done sc₁ := by
  refine ⟨hready, fun id hid hnot id' hid' => ?_, fun id hid id' hid' => ?_⟩
  · rw [hw.findRecord?] at hid'
    rw [hw.record?, h.bare id hid hnot id' hid']
  · rw [hw.findRecord?] at hid'
    obtain ⟨ms, bs, hr, hms, hbs⟩ := h.body id hid id' hid'
    exact ⟨ms, bs, (hw.record? id').trans hr, hms.imp fun _ _ hm => hm.mono hw.grows,
      hbs.imp fun _ _ hb => hb.mono hw.grows⟩

/-- What a record is read as in the end. -/
theorem Bodied.matches {done : List RecordId} {id : RecordId} (h : Bodied l decl known done sc)
    (hid : known id) (hkey : (l.record id).1 = (decl id).key)
    (hdone : id ∈ done → (decl id).isComplete = true)
    (hnot : id ∉ done → (decl id).members = none ∧ (decl id).bases = []) :
    ∃ id' d', sc.context.findRecord? (l.record id).2 = some id' ∧
      sc.context.record? id' = some d' ∧ (decl id).Matches l sc.context d' := by
  obtain ⟨id', hid'⟩ := h.ready.found id hid
  by_cases hm : id ∈ done
  · obtain ⟨ms, bs, hr, hms, hbs⟩ := h.body id hm id' hid'
    exact ⟨id', _, hid', hr, hkey, (hdone hm).symm, hms, hbs⟩
  · obtain ⟨hms, hbs⟩ := hnot hm
    refine ⟨id', _, hid', h.bare id hid hm id' hid', hkey, ?_, ?_, ?_⟩
    · rw [RecordDecl.isComplete, RecordDecl.isComplete, hms]
      rfl
    · rw [hms]
      exact .nil
    · rw [hbs]
      exact .nil

/-- A record is given its body. -/
theorem Bodied.complete {done : List RecordId} {id id' : RecordId} {ms : List MemberDecl}
    {bs : List BaseDecl} (h : Bodied l decl known done sc)
    (hinj : ∀ a b, known a → known b → (l.record a).2 = (l.record b).2 → a = b)
    (hdone : ∀ a ∈ done, known a) (hid : known id) (hnot : id ∉ done)
    (hid' : sc.context.findRecord? (l.record id).2 = some id')
    (hms : List.Forall₂ (MemberDecl.Matches l sc.context) ((decl id).members.getD []) ms)
    (hbs : List.Forall₂ (BaseDecl.Matches l sc.context) (decl id).bases bs) :
    Bodied l decl known (id :: done)
      { sc with context := sc.context.completeRecord id' ms bs } := by
  have hfind : ∀ n, (sc.context.completeRecord id' ms bs).findRecord? n =
      sc.context.findRecord? n := Context.findRecord?_completeRecord id' ms bs
  have hgrows : sc.context.Grows (sc.context.completeRecord id' ms bs) :=
    ⟨fun n i hi => (hfind n).trans hi, fun _ _ hi => hi⟩
  -- the other records have other labels, so they are other records here too
  have hother : ∀ a, known a → a ≠ id → ∀ a', sc.context.findRecord? (l.record a).2 = some a' →
      (sc.context.completeRecord id' ms bs).record? a' = sc.context.record? a' := by
    intro a ha hne a' ha'
    have hne' : id' ≠ a' := by
      rintro rfl
      obtain ⟨d, hd, hdn⟩ := Context.findRecord?_spec hid'
      obtain ⟨d', hd', hdn'⟩ := Context.findRecord?_spec ha'
      rw [hd] at hd'
      obtain rfl := Option.some.inj hd'
      rw [hdn] at hdn'
      exact hne (hinj a id ha hid (Option.some.inj hdn').symm)
    rw [Context.record?_completeRecord]
    simp [hne']
  refine ⟨⟨fun a ha => ?_, fun n t hn => ?_⟩, fun a ha hm a' ha' => ?_, fun a ha a' ha' => ?_⟩
  · obtain ⟨a', ha'⟩ := h.ready.found a ha
    exact ⟨a', (hfind _).trans ha'⟩
  · obtain ⟨i, rfl, hi⟩ := h.ready.classes n t hn
    exact ⟨i, rfl, (hfind n).trans hi⟩
  · rw [hfind] at ha'
    obtain ⟨hne, hnd⟩ := not_or.1 fun hor => hm (List.mem_cons.2 hor)
    rw [hother a ha hne a' ha', h.bare a ha hnd a' ha']
  · rw [hfind] at ha'
    rcases List.mem_cons.1 ha with rfl | ha
    · rw [hid'] at ha'
      obtain rfl := Option.some.inj ha'
      refine ⟨ms, bs, ?_, hms.imp fun _ _ hm => hm.mono hgrows,
        hbs.imp fun _ _ hb => hb.mono hgrows⟩
      rw [Context.record?_completeRecord, h.bare a hid hnot id' hid']
      simp
    · have hne : a ≠ id := fun he => hnot (he ▸ ha)
      obtain ⟨ms', bs', hr, hms', hbs'⟩ := h.body a ha a' ha'
      exact ⟨ms', bs', (hother a (hdone a ha) hne a' ha').trans hr,
        hms'.imp fun _ _ hm => hm.mono hgrows, hbs'.imp fun _ _ hb => hb.mono hgrows⟩

/-- **The definition of a record gives it its body:** of those `Bodied` there is one more. -/
theorem Bodied.define {done : List RecordId} {id : RecordId}
    (h : Bodied l (fun id => (decl id).reread) known done sc)
    (hinj : ∀ a b, known a → known b → (l.record a).2 = (l.record b).2 → a = b)
    (hdone : ∀ a ∈ done, known a) (hid : known id) (hnot : id ∉ done)
    (hkey : (l.record id).1 = (decl id).key) (hd : (decl id).Legible known e) :
    ∃ sc', Bodied l (fun id => (decl id).reread) known (id :: done) sc' ∧
      ∀ ks, (decl id).Words l id ks → ReadsTo ks sc [] sc' := by
  obtain ⟨id', hid'⟩ := h.ready.found id hid
  have hinc : (sc.context.record? id').any RecordDecl.isComplete = false := by
    rw [h.bare id hid hnot id' hid']
    rfl
  obtain ⟨ms, bs, sc₁, hw, hready, hms, hbs, hgives⟩ :=
    reads_definition hd hkey h.ready hid' hinc
  have hcomplete := (h.widens hw hready).complete hinj hdone hid hnot
    ((hw.findRecord? _).trans hid') hms hbs
  exact ⟨_, hcomplete, fun ks hks => readsTo_line none (.record .none id') fun stop T R hT =>
    hgives stop T R (hT ▸ hks)⟩

/-- **The definitions give the records their bodies** one after the other (`ReadsTo`). -/
theorem reads_definitions {ids done : List RecordId}
    (h : Bodied l (fun id => (decl id).reread) known done sc)
    (hinj : ∀ a b, known a → known b → (l.record a).2 = (l.record b).2 → a = b)
    (hdone : ∀ a ∈ done, known a) (hids : ∀ a ∈ ids, known a) (hnodup : ids.Nodup)
    (hnot : ∀ a ∈ ids, a ∉ done) (hkey : ∀ a ∈ ids, (l.record a).1 = (decl a).key)
    (hd : ∀ a ∈ ids, (decl a).Legible known e) :
    ∃ sc', Bodied l (fun id => (decl id).reread) known (ids.reverse ++ done) sc' ∧
      ReadsTo (ids.map fun id => definitionKinds l id (decl id)).flatten sc [] sc' := by
  induction ids generalizing sc done with
  | nil => exact ⟨sc, h, readsTo_nil sc⟩
  | cons id ids ih =>
    obtain ⟨hid, hrest⟩ := List.forall_mem_cons.1 hids
    obtain ⟨hnew, hnodup⟩ := List.nodup_cons.1 hnodup
    obtain ⟨hnid, hnot⟩ := List.forall_mem_cons.1 hnot
    obtain ⟨hkid, hkey⟩ := List.forall_mem_cons.1 hkey
    obtain ⟨hdid, hd⟩ := List.forall_mem_cons.1 hd
    obtain ⟨sc₁, h₁, hread₁⟩ := h.define hinj hdone hid hnid hkid hdid
    obtain ⟨sc₂, h₂, hread₂⟩ := ih h₁ (List.forall_mem_cons.2 ⟨hid, hdone⟩) hrest hnodup
      (fun a ha hm => by
        rcases List.mem_cons.1 hm with rfl | hm
        · exact hnew ha
        · exact hnot a ha hm) hkey hd
    have hread := hread₁ _ ((decl id).words_definitionKinds l id)
    refine ⟨sc₂, ?_, hread.append hread₂⟩
    rwa [List.reverse_cons, List.append_assoc]

/-! ## 4. The lines of global symbols -/

/-- The second symbols are the first ones, with their canonical types under labels
(`CType.Matches`). -/
def GlobalsMatch (l : Labels) (ctx : Context) (gs gs' : List (String × CType)) : Prop :=
  List.Forall₂ (fun g g' => g'.1 = g.1 ∧ g.2.desugar.Matches l ctx g'.2.desugar) gs gs'

/-- **The lines of global symbols are read as the symbols,** with their canonical types under labels
(`GlobalsMatch`). -/
theorem reads_symbols {globals : List (String × CType)}
    (hg : ∀ g ∈ globals, g.2.desugar.Writable known e) (hready : sc.Ready l known) :
    ∃ gs sc', sc.Widens sc' ∧ sc'.Ready l known ∧
      GlobalsMatch l sc'.context globals gs ∧
      ReadsTo (globals.map (symbolKinds l)).flatten sc gs sc' := by
  induction globals generalizing sc with
  | nil => exact ⟨[], sc, .refl sc, hready, .nil, readsTo_nil sc⟩
  | cons g globals ih =>
    obtain ⟨hgt, hrest⟩ := List.forall_mem_cons.1 hg
    obtain ⟨t', sc₁, hw₁, hready₁, hm₁, hreads⟩ := reads_declaration hgt.legible (some g.1) hready
    rw [hgt.emptied_eq] at hm₁
    obtain ⟨gs, sc₂, hw₂, hready₂, hm₂, hread₂⟩ := ih hrest hready₁
    refine ⟨(g.1, t') :: gs, sc₂, hw₁.trans hw₂, hready₂,
      .cons ⟨rfl, (hm₁.mono hw₂.grows).canonical⟩ hm₂, ?_⟩
    have hread₁ : ReadsTo (symbolKinds l g) sc [(g.1, t')] sc₁ := by
      refine readsTo_line (some g.1) t' fun stop T R hT => ?_
      obtain ⟨D, S, rfl, hD, hS⟩ := List.map_eq_append_iff.1 hT
      obtain ⟨semi, S, rfl, hsemi, hnil⟩ := List.map_eq_cons_iff.1 hS
      obtain rfl := List.map_eq_nil_iff.1 hnil
      rw [List.append_assoc]
      exact gives_named stop hgt.legible hreads hD hsemi
    exact hread₁.append hread₂

end TypeLedger
