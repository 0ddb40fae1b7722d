import TypeLedger.Proofs.Registration.Identity

/-!
# Registration sees canonical types

* `Context.desugared`: the records of a context with the canonical forms of their member and base
  types.
* `Ledger.Agrees`: two ledgers have the same rows, numbers and names, and they know the same
  canonical types. What a ledger knows of types with synonyms is left out.
* `settle_desugared`: working off an agenda agrees with working off the canonical forms of its types
  in the desugared context. `Registry.answers_desugared` says so of any sequence of calls.
* `Registry.answers_congr`: two registries whose contexts and calls have the same canonical forms
  answer the same identifiers.
-/

namespace TypeLedger

/-! ## 1. Contexts without synonyms -/

def MemberDecl.desugared (m : MemberDecl) : MemberDecl := { m with type := m.type.desugar }

def BaseDecl.desugared (b : BaseDecl) : BaseDecl := { b with type := b.type.desugar }

def RecordDecl.desugared (d : RecordDecl) : RecordDecl :=
  { d with
    members := d.members.map (List.map MemberDecl.desugared)
    bases := d.bases.map BaseDecl.desugared }

/-- The context with the canonical forms of all member and base types. -/
def Context.desugared (ctx : Context) : Context :=
  { ctx with records := ctx.records.map RecordDecl.desugared }

/-- What the outermost node says, with the canonical forms in the place of member types. -/
def Shape.desugared : Shape → Shape
  | .record d => .record d.desugared
  | s => s

theorem RecordDecl.types_desugared (d : RecordDecl) :
    d.desugared.types = d.types.map CType.desugar := by
  unfold RecordDecl.types RecordDecl.desugared
  cases d.members with
  | none => simp [BaseDecl.desugared, Function.comp_def]
  | some ms => simp [MemberDecl.desugared, BaseDecl.desugared, Function.comp_def]

@[simp] theorem CType.desugar_desugar (t : CType) : t.desugar.desugar = t.desugar :=
  CType.desugar_of_not_hasSugar _ (CType.hasSugar_desugar t)

theorem lastPosition?_map {α β : Type} (p : β → Bool) (f : α → β) (as : List α) :
    lastPosition? p (as.map f) = lastPosition? (fun a => p (f a)) as := by
  induction as with
  | nil => rfl
  | cons a as ih => simp only [List.map_cons, lastPosition?, ih]

namespace Context

variable {ctx : Context}

theorem record?_desugared (ctx : Context) (id : RecordId) :
    ctx.desugared.record? id = (ctx.record? id).map RecordDecl.desugared :=
  List.getElem?_map

theorem recordLabel_desugared (ctx : Context) (id : RecordId) :
    ctx.desugared.recordLabel id = ctx.recordLabel id := by
  unfold recordLabel
  rw [record?_desugared]
  cases ctx.record? id <;> rfl

mutual

/-- The words for a type name records, so they say nothing of members. -/
theorem describe_desugared (ctx : Context) : ∀ t : CType, ctx.desugared.describe t = ctx.describe t
  | .null _ | .builtin _ _ | .synonym _ _ _ | .dependent _ _ | .enumeration _ _ => by
    simp only [describe, enumLabel, enum?, desugared]
  | .record _ id => by simp only [describe, recordLabel_desugared]
  | .pointer _ _ t | .array _ (.fixed _) t | .array _ .unknown t | .complex _ t
  | .vector _ _ t => by
    simp only [describe, describe_desugared ctx t]
  | .function _ r ps _ => by
    simp only [describe, describe_desugared ctx r, describeAll_desugared ctx ps]

theorem describeAll_desugared (ctx : Context) :
    ∀ ts : List CType, ctx.desugared.describeAll ts = ctx.describeAll ts
  | [] => rfl
  | t :: ts => by
    simp only [describeAll, describe_desugared ctx t, describeAll_desugared ctx ts]

end

theorem classify_desugared (ctx : Context) (t : CType) :
    ctx.desugared.classify t = (ctx.classify t).desugared := by
  cases t with
  | record q id =>
    simp only [classify, record?_desugared, recordLabel_desugared]
    cases ctx.record? id <;> rfl
  | enumeration q id => rfl
  | _ => simp only [classify, describe_desugared, Shape.desugared]

theorem category?_desugared (ctx : Context) (t : CType) :
    ctx.desugared.category? t = ctx.category? t := by
  unfold category?
  rw [classify_desugared]
  cases ctx.classify t <;> rfl

theorem tagName?_desugared (ctx : Context) (t : CType) :
    ctx.desugared.tagName? t = ctx.tagName? t := by
  unfold tagName?
  rw [classify_desugared]
  cases ctx.classify t <;> rfl

/-- The `components` of a canonical type in the desugared context are canonical. -/
theorem components_desugared {t : CType} (hs : t.hasSugar = false) :
    ctx.desugared.components t = (ctx.components t).map CType.desugar := by
  unfold components
  rw [classify_desugared]
  split
  · cases t with
    | record q id =>
      simp only [classify]
      cases ctx.record? id with
      | none => rfl
      | some d => exact d.types_desugared
    | pointer q k t | array q n t =>
      have ht : t.hasSugar = false := hs
      simp only [classify, Shape.desugared, List.map_cons, List.map_nil,
        CType.desugar_of_not_hasSugar t ht]
    | function q r ps v =>
      simp only [CType.hasSugar, Bool.or_eq_false_iff] at hs
      simp only [classify, Shape.desugared, List.map_cons, CType.desugar_of_not_hasSugar r hs.1,
        ← CType.desugarAll_eq_map, CType.desugarAll_of_not_anySugar ps hs.2]
    | _ => rfl
  · have hu : t.unqualified.hasSugar = false := (CType.hasSugar_withQuals .none t).trans hs
    rw [List.map_singleton, CType.desugar_of_not_hasSugar _ hu]

theorem isComplete_desugared (ctx : Context) (id : RecordId) :
    (ctx.desugared.record? id).any RecordDecl.isComplete =
      (ctx.record? id).any RecordDecl.isComplete := by
  have hcomplete : (fun d : RecordDecl => d.desugared.isComplete) = RecordDecl.isComplete :=
    funext fun d => Option.isSome_map
  rw [record?_desugared, Option.any_map, hcomplete]

theorem findRecord?_desugared (ctx : Context) (n : String) :
    ctx.desugared.findRecord? n = ctx.findRecord? n := by
  unfold findRecord?
  rw [desugared, lastPosition?_map]
  rfl

theorem declareRecord_desugared (ctx : Context) (key : RecordKey) (name : Option String) :
    ctx.desugared.declareRecord key name =
      ((ctx.declareRecord key name).1, (ctx.declareRecord key name).2.desugared) := by
  simp only [declareRecord, desugared, List.length_map, List.map_append, List.map_cons,
    List.map_nil]
  rfl

theorem completeRecord_desugared (ctx : Context) (id : RecordId) (ms : List MemberDecl)
    (bs : List BaseDecl) :
    ctx.desugared.completeRecord id (ms.map MemberDecl.desugared) (bs.map BaseDecl.desugared) =
      (ctx.completeRecord id ms bs).desugared := by
  simp only [completeRecord, desugared]
  congr 1
  refine List.ext_getElem? fun i => ?_
  simp only [List.getElem?_modify, List.getElem?_map]
  cases ctx.records[i]? with
  | none => rfl
  | some d =>
    by_cases hi : id.index = i
    · simp [hi, RecordDecl.desugared]
    · simp [hi]

end Context

/-! ## 2. Ledgers that agree -/

namespace Ledger

variable {ctx : Context} {detail : Detail} {l l' : Ledger} {t : CType} {tasks : List Task}

/-- The ledgers have the same rows, fundamental types, numbers and names, and know the same of
canonical types. -/
structure Agrees (l l' : Ledger) : Prop where
  memo : ∀ t, t.hasSugar = false → l'.memo.lookup t = l.memo.lookup t
  rows : l'.rows = l.rows
  fundamentals : l'.fundamentals = l.fundamentals
  counters : l'.counters = l.counters
  naming : l'.naming = l.naming

theorem Agrees.idOf (h : l.Agrees l') (hs : t.hasSugar = false) : l'.idOf t = l.idOf t := by
  rw [Ledger.idOf, Ledger.idOf, h.memo t hs]

theorem Agrees.note_right (h : l.Agrees l') (detail : Detail) (n : Notice) :
    l.Agrees (l'.note detail n) where
  memo := by rw [memo_note]; exact h.memo
  rows := (rows_note ..).trans h.rows
  fundamentals := (fundamentals_note ..).trans h.fundamentals
  counters := (counters_note ..).trans h.counters
  naming := (naming_note ..).trans h.naming

theorem Agrees.note_left (h : l.Agrees l') (n : Notice) : (l.note detail n).Agrees l' where
  memo := by rw [memo_note]; exact h.memo
  rows := h.rows.trans (rows_note ..).symm
  fundamentals := h.fundamentals.trans (fundamentals_note ..).symm
  counters := h.counters.trans (counters_note ..).symm
  naming := h.naming.trans (naming_note ..).symm

theorem Agrees.set (h : l.Agrees l') (t : CType) (id : TypeId) {s : CType}
    (hs : s.hasSugar = false) :
    (Keyed.set t id l'.memo).lookup s = (Keyed.set t id l.memo).lookup s := by
  by_cases hst : s = t
  · subst hst
    rw [Keyed.lookup_set_self, Keyed.lookup_set_self]
  · rw [Keyed.lookup_set_of_ne hst, Keyed.lookup_set_of_ne hst, h.memo s hs]

/-- What a type with synonyms is given is left out of the comparison. -/
theorem Agrees.enterSynonym (h : l.Agrees l') (hs : t.hasSugar = true) :
    (l.enterSynonym ctx detail t).Agrees l' := by
  have hnote : (l.note detail (.synonym (l.idOf t.desugar) (ctx.describe t))).Agrees l' :=
    h.note_left _
  refine ⟨fun s hs' => ?_, hnote.rows, hnote.fundamentals, hnote.counters, hnote.naming⟩
  have hst : s ≠ t := by
    rintro rfl
    rw [hs] at hs'
    cases hs'
  rw [memo_enterSynonym, Keyed.lookup_set_of_ne hst, h.memo s hs']

/-- **A canonical type is entered alike** in a context and in its desugared form: the ledgers still
agree (`Agrees`). -/
theorem Agrees.enter (h : l.Agrees l') (detail' : Detail) (t : CType) :
    (l.enter ctx detail t).Agrees (l'.enter ctx.desugared detail' t) := by
  unfold Ledger.enter
  rw [Context.category?_desugared]
  cases ctx.category? t with
  | none =>
    unfold enterFundamental
    exact ⟨fun s hs => h.set t _ hs, h.rows, by simp only [h.fundamentals], h.counters, h.naming⟩
  | some c =>
    unfold enterRow
    rw [Context.tagName?_desugared, h.counters, h.naming]
    refine .note_right (.note_left ?_ _) _ _
    exact ⟨fun s hs => h.set t _ hs, by simp only [h.rows], h.fundamentals, rfl, rfl⟩

/-! ## 3. Agendas without synonyms -/

/-- The task of a canonical agenda in the place of a task. -/
def Task.desugared? : Task → Option Task
  | .visit t => some (.visit t.desugar)
  | .conclude _ => none

/-- The agenda that visits the canonical forms and has nothing to conclude. -/
def desugaredTasks (tasks : List Task) : List Task := tasks.filterMap Task.desugared?

theorem desugaredTasks_visit (t : CType) (tasks : List Task) :
    desugaredTasks (.visit t :: tasks) = .visit t.desugar :: desugaredTasks tasks := rfl

theorem desugaredTasks_visits (ts : List CType) (tasks : List Task) :
    desugaredTasks (ts.map Task.visit ++ tasks) =
      (ts.map CType.desugar).map Task.visit ++ desugaredTasks tasks := by
  induction ts with
  | nil => rfl
  | cons t ts ih =>
    rw [List.map_cons, List.cons_append, desugaredTasks_visit, ih]
    rfl

/-- **A run agrees with the run of the canonical agenda** in the desugared context. The induction is
on the run; that a type with synonyms is known only if its canonical form is comes from `Agenda`. -/
theorem settle_desugared (detail' : Detail) (ts : List CType)
    (covered : Covered (ctx.closure ts) tasks) (h : Agenda ctx l tasks) (ha : l.Agrees l') :
    ∃ n l'', settleFor ctx.desugared detail' n (desugaredTasks tasks) l' = some l'' ∧
      (l.settle ctx detail ts tasks covered).Agrees l'' := by
  fun_induction settle ctx detail ts tasks covered l generalizing l' with
  | case1 l => exact ⟨0, l', rfl, ha⟩
  | case2 l t tasks _ _ ih =>
    exact ih (Progress.conclude h).agenda (ha.enterSynonym h.prepared.1)
  | case3 l t tasks _ hn _ ih =>
    obtain ⟨n, l'', hrun, hagrees⟩ :=
      ih (Progress.known h (.inl hn) h.sound (.refl l) rfl).agenda ha
    have hnull : t.desugar.isNull = true := by
      cases t with
      | null q => rfl
      | _ => cases hn
    refine ⟨n + 1, l'', ?_, hagrees⟩
    rw [desugaredTasks_visit, settleFor, if_pos hnull]
    exact hrun
  | case4 l t tasks _ hn id hl _ ih =>
    have hsound := h.sound.note detail (.hit id (ctx.describe t))
    have hp := Progress.known h (known_of_lookup hl) hsound (extends_note _ _ _) (rows_note _ _ _)
    obtain ⟨-, hknown⟩ := h.sound.idOf_desugar (known_of_lookup hl)
    cases hnull : t.desugar.isNull with
    | true =>
      obtain ⟨n, l'', hrun, hagrees⟩ := ih hp.agenda (ha.note_left _)
      refine ⟨n + 1, l'', ?_, hagrees⟩
      rw [desugaredTasks_visit, settleFor, if_pos hnull]
      exact hrun
    | false =>
      have hl' : l'.memo.lookup t.desugar = some (l.idOf t.desugar) := by
        rw [ha.memo _ (CType.hasSugar_desugar t), hknown.lookup hnull]
      obtain ⟨n, l'', hrun, hagrees⟩ := ih hp.agenda ((ha.note_left _).note_right detail'
        (.hit (l.idOf t.desugar) (ctx.desugared.describe t.desugar)))
      refine ⟨n + 1, l'', ?_, hagrees⟩
      rw [desugaredTasks_visit, settleFor, if_neg (by simp [hnull]), hl']
      exact hrun
  | case5 l t tasks _ hn hl hs _ ih =>
    obtain ⟨n, l'', hrun, hagrees⟩ := ih (Progress.desugar h hs).agenda ha
    refine ⟨n, l'', ?_, hagrees⟩
    rw [desugaredTasks_visit, CType.desugar_desugar] at hrun
    exact hrun
  | case6 l t tasks _ hn hl hs _ ih =>
    have hs' : t.hasSugar = false := by simpa using hs
    have hn' : t.isNull = false := by simpa using hn
    obtain ⟨n, l'', hrun, hagrees⟩ :=
      ih (Progress.enter h hn' hl hs').agenda (ha.enter detail' t)
    refine ⟨n + 1, l'', ?_, hagrees⟩
    rw [desugaredTasks_visits, ← Context.components_desugared hs'] at hrun
    rw [desugaredTasks_visit, CType.desugar_of_not_hasSugar t hs', settleFor, if_neg hn,
      ha.memo t hs', hl]
    simp only [hs', Bool.false_eq_true, ↓reduceIte]
    exact hrun

/-- **One registration** `Agrees` with that of the canonical form in the desugared context. -/
theorem Agrees.register (ha : l.Agrees l') (hs : l.Sound ctx) (hc : l.Closed ctx)
    (detail' : Detail) (t : CType) :
    (l.register ctx detail t).Agrees (l'.register ctx.desugared detail' t.desugar) := by
  have hagenda : Agenda ctx l [.visit t] :=
    ⟨hs, trivial, fun row hrow c h => .inl (hc row hrow c h)⟩
  obtain ⟨n, l'', hrun, hagrees⟩ :=
    settle_desugared detail' [t] (Covered.single ctx t) hagenda ha
  have hrun' : l'.register ctx.desugared detail' t.desugar = l'' := settle_eq_of_settleFor _ hrun
  rw [hrun']
  exact hagrees

end Ledger

/-! ## 4. Sequences of calls -/

namespace Registry

variable {r r' : Registry}

/-- The call with canonical forms in the place of its types. -/
def Call.desugared : Call → Call
  | .register t => .register t.desugar
  | .typeName t => .typeName t.desugar
  | .addInheritance d b a v => .addInheritance d.desugar b.desugar a v
  | .nameOf id => .nameOf id

/-- The second registry is over the desugared context of the first, renames alike, and their ledgers
agree. -/
structure Agrees (r r' : Registry) : Prop where
  context : r'.context = r.context.desugared
  renames : r'.renames = r.renames
  ledger : r.ledger.Agrees r'.ledger

theorem Agrees.register (ha : r.Agrees r') (h : r.Kept) (t : CType) :
    (r.register t).2.Agrees (r'.register t.desugar).2 ∧
      (r'.register t.desugar).1 = (r.register t).1 := by
  obtain ⟨hk, -, hknown, -⟩ := register_kept h t
  have hledger : (r.register t).2.ledger.Agrees (r'.register t.desugar).2.ledger := by
    show (r.ledger.register r.context r.detail t).Agrees
      (r'.ledger.register r'.context r'.detail t.desugar)
    rw [ha.context]
    exact ha.ledger.register h.sound h.closed r'.detail t
  refine ⟨⟨ha.context, ha.renames, hledger⟩, ?_⟩
  have hid := (hk.sound.idOf_desugar hknown).1
  exact (hledger.idOf (CType.hasSugar_desugar t)).trans hid.symm

theorem Agrees.nameOf (ha : r.Agrees r') (id : TypeId) :
    (r.nameOf id).2.Agrees (r'.nameOf id).2 := by
  have hrow : r'.row? id = r.row? id := by rw [row?, row?, ha.ledger.rows]
  unfold Registry.nameOf
  rw [hrow, ha.ledger.naming]
  split
  · obtain ⟨hm, hr, hf, hc, -⟩ := ha.ledger
    exact ⟨ha.context, ha.renames, ⟨hm, hr, hf, hc, rfl⟩⟩
  · exact ha

/-- **A call** leaves registries that agree (`Agrees`), and answers the same. -/
theorem Agrees.run (ha : r.Agrees r') (h : r.Kept) (c : Call) :
    (c.run r).Agrees (c.desugared.run r') ∧ c.desugared.answer? r' = c.answer? r := by
  cases c with
  | register t =>
    obtain ⟨hagrees, hid⟩ := ha.register h t
    exact ⟨hagrees, congrArg some hid⟩
  | typeName t =>
    obtain ⟨hagrees, hid⟩ := ha.register h t
    refine ⟨hagrees, congrArg some ?_⟩
    show (r'.register t.desugar).2.shown (r'.register t.desugar).1 =
      (r.register t).2.shown (r.register t).1
    rw [shown, shown, hagrees.renames, hid]
  | addInheritance d b a v =>
    obtain ⟨hd, -⟩ := ha.register h d
    obtain ⟨hb, -⟩ := hd.register (register_kept h d).1 b
    exact ⟨⟨hb.context, hb.renames, hb.ledger⟩, rfl⟩
  | nameOf id => exact ⟨ha.nameOf id, rfl⟩

/-- **A sequence of calls answers what it answers about canonical forms** in the desugared context
(`Call.desugared`). -/
theorem answers_desugared (ha : r.Agrees r') (h : r.Kept) (calls : List Call) :
    r'.answers (calls.map Call.desugared) = r.answers calls := by
  induction calls generalizing r r' with
  | nil => rfl
  | cons c cs ih =>
    obtain ⟨hagrees, hanswer⟩ := ha.run h c
    rw [List.map_cons, answers, answers, hanswer, ih hagrees (c.kept h).1]

/-- A registry `Agrees` with itself over the desugared context. -/
theorem agrees_desugared (r : Registry) : r.Agrees { r with context := r.context.desugared } :=
  ⟨rfl, rfl, fun _ _ => rfl, rfl, rfl, rfl, rfl⟩

/-- **Identifiers depend on canonical forms only.** Two registries that are `Fresh` answer the same
identifiers if their contexts and the types of their calls have the same canonical forms. -/
theorem answers_congr (h : r.Fresh) (h' : r'.Fresh)
    (hctx : r'.context.desugared = r.context.desugared) (hren : r'.renames = r.renames)
    (hnaming : r'.ledger.naming = r.ledger.naming) {calls calls' : List Call}
    (hcalls : calls'.map Call.desugared = calls.map Call.desugared) :
    r'.answers calls' = r.answers calls := by
  have ha : r.Agrees { r' with context := r'.context.desugared } := by
    refine ⟨hctx, hren, fun t _ => ?_, ?_, ?_, ?_, hnaming⟩
    · rw [h'.memo, h.memo]
    · rw [h'.rows, h.rows]
    · rw [h'.fundamentals, h.fundamentals]
    · rw [h'.counters, h.counters]
  rw [← answers_desugared r'.agrees_desugared h'.kept calls', hcalls,
    answers_desugared ha h.kept calls]

end Registry

end TypeLedger
