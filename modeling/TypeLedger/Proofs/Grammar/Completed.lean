import Mathlib
import TypeLedger.Proofs.Grammar.Trace

/-!
# Records that are completed once, and twice

* `Trace.completions` lists what the bodies of a trace say of their records, in the order in which
  they end. A trace is `Unnested` if no body stands inside another one for the same record.
* `Runs.stays`: a complete record never changes. `Runs.complete_iff`: the records that are complete
  in the end are those that a body has completed.
* `completed_nodup_iff`: no record is completed twice exactly if the bodies of the source are not
  nested in this way. What the outermost body says of a record is what stays.
-/

namespace TypeLedger

/-! ## 1. What bodies complete -/

/-- What a body says of its record. -/
structure Completion where
  id : RecordId
  members : List MemberDecl
  bases : List BaseDecl
deriving DecidableEq, Repr

namespace Trace

/-- What the bodies say of their records, in the order in which they end. -/
def completions : Trace → List Completion
  | done => []
  | body id inside ms bs rest => inside.completions ++ ⟨id, ms, bs⟩ :: rest.completions

/-- The records that the bodies complete, with repetitions. -/
def completed (t : Trace) : List RecordId := t.completions.map Completion.id

/-- No body stands inside another one for the same record. -/
def Unnested : Trace → Prop
  | done => True
  | body id inside _ _ rest => id ∉ inside.completed ∧ inside.Unnested ∧ rest.Unnested

/-- What those bodies say that stand inside no other one for the same record. -/
def lasting : Trace → List Completion
  | done => []
  | body id inside ms bs rest =>
    inside.lasting.filter (fun c => c.id ≠ id) ++ ⟨id, ms, bs⟩ :: rest.lasting

theorem completed_body (id : RecordId) (inside rest : Trace) (ms : List MemberDecl)
    (bs : List BaseDecl) :
    (body id inside ms bs rest).completed = inside.completed ++ id :: rest.completed := by
  simp [completed, completions]

theorem mem_completed_body {i id : RecordId} {inside rest : Trace} {ms : List MemberDecl}
    {bs : List BaseDecl} : i ∈ (body id inside ms bs rest).completed ↔
      i ∈ inside.completed ∨ i = id ∨ i ∈ rest.completed := by
  rw [completed_body, List.mem_append, List.mem_cons]

/-- Without nested bodies all that is said lasts. -/
theorem Unnested.lasting_eq {t : Trace} (h : t.Unnested) : t.lasting = t.completions := by
  induction t with
  | done => rfl
  | body id inside ms bs rest ihin ihrest =>
    obtain ⟨hid, hin, hrest⟩ := h
    rw [lasting, completions, ihin hin, ihrest hrest, List.filter_eq_self.2]
    intro c hc
    have hne : c.id ≠ id := fun he => hid (he ▸ List.mem_map_of_mem hc)
    simpa using hne

end Trace

/-! ## 2. Complete records -/

namespace Context

variable {ctx ctx₁ ctx' : Context} {i id : RecordId} {d : RecordDecl} {t : Trace}
  {ms : List MemberDecl} {bs : List BaseDecl}

/-- A body of the record has been completed (`isComplete`). -/
def Complete (ctx : Context) (id : RecordId) : Prop :=
  ∃ d, ctx.record? id = some d ∧ d.isComplete = true

/-- The record is what a body says (`Completion`). -/
def SaidBy (ctx : Context) (c : Completion) : Prop :=
  ∃ d, ctx.record? c.id = some d ∧ d.members = some c.members ∧ d.bases = c.bases

theorem Incomplete.not_complete (h : ctx.Incomplete id) : ¬ ctx.Complete id := by
  obtain ⟨d, hd, hc⟩ := h
  rintro ⟨d', hd', hc'⟩
  rw [hd] at hd'
  obtain rfl := Option.some.inj hd'
  rw [hc] at hc'
  cases hc'

theorem record?_completeRecord_of_ne (h : i ≠ id) :
    (ctx.completeRecord id ms bs).record? i = ctx.record? i := by
  rw [record?_completeRecord]
  cases ctx.record? i with
  | none => rfl
  | some d => rw [Option.map_some, if_neg h.symm]

theorem saidBy_completeRecord (h : ctx.record? id = some d) :
    (ctx.completeRecord id ms bs).SaidBy ⟨id, ms, bs⟩ := by
  refine ⟨{ d with members := some ms, bases := bs }, ?_, rfl, rfl⟩
  rw [record?_completeRecord, h, Option.map_some, if_pos rfl]

theorem SaidBy.complete {c : Completion} (h : ctx.SaidBy c) : ctx.Complete c.id := by
  obtain ⟨d, hd, hms, -⟩ := h
  exact ⟨d, hd, by rw [RecordDecl.isComplete, hms]; rfl⟩

/-- A declaration changes no record, and completes none. -/
theorem Declares.record? (h : ctx.Declares ctx₁) (hd : ctx.record? id = some d) :
    ctx₁.record? id = some d := by
  cases h with
  | record key name =>
    rw [record?_declareRecord, if_neg (Nat.ne_of_lt (index_lt_of_record? hd)), hd]
  | enumeration name => exact hd

theorem Declares.complete_iff (h : ctx.Declares ctx₁) : ctx₁.Complete i ↔ ctx.Complete i := by
  refine ⟨?_, fun ⟨d, hd, hc⟩ => ⟨d, h.record? hd, hc⟩⟩
  rintro ⟨d, hd, hc⟩
  cases h with
  | record key name =>
    rw [record?_declareRecord] at hd
    split at hd
    · obtain rfl := Option.some.inj hd
      cases hc
    · exact ⟨d, hd, hc⟩
  | enumeration name => exact ⟨d, hd, hc⟩

theorem Declares.below (h : ctx.Declares ctx₁) : ctx.Below ctx₁ := by
  cases h with
  | record key name => exact below_declareRecord key name
  | enumeration name => exact below_declareEnum name

/-- The end of a body completes its record. -/
theorem complete_completeRecord (h : ctx.record? id = some d) :
    (ctx.completeRecord id ms bs).Complete i ↔ i = id ∨ ctx.Complete i := by
  by_cases hi : i = id
  · subst hi
    exact iff_of_true (saidBy_completeRecord h).complete (.inl rfl)
  · simp only [Complete, record?_completeRecord_of_ne hi, hi, false_or]

namespace Runs

theorem grows (h : ctx.Runs t ctx') : ctx.Below ctx' := by
  induction h with
  | done ctx => exact .refl ctx
  | declares hd _ ih => exact hd.below.trans ih
  | body _ _ _ ihin ihrest => exact ihin.trans ((below_completeRecord _ _ _ _).trans ihrest)

/-- The record of a body is still there when the body ends. -/
theorem exists_record? (h : ctx.Runs t ctx') (hi : ctx.Incomplete id) :
    ∃ d, ctx'.record? id = some d := by
  obtain ⟨d, hd, -⟩ := hi
  obtain ⟨d', hd', -⟩ := h.grows.heads id d hd
  exact ⟨d', hd'⟩

/-- **A complete record never changes** in a run (`Runs`). No body is opened for it any more. -/
theorem stays (h : ctx.Runs t ctx') (hd : ctx.record? id = some d) (hc : d.isComplete = true) :
    ctx'.record? id = some d := by
  induction h with
  | done => exact hd
  | declares hdecl _ ih => exact ih (hdecl.record? hd)
  | body hi _ _ ihin ihrest =>
    refine ihrest ?_
    rw [record?_completeRecord_of_ne]
    · exact ihin hd
    · rintro rfl
      exact hi.not_complete ⟨d, hd, hc⟩

theorem complete (h : ctx.Runs t ctx') (hc : ctx.Complete i) : ctx'.Complete i := by
  obtain ⟨d, hd, hc⟩ := hc
  exact ⟨d, h.stays hd hc, hc⟩

theorem saidBy {c : Completion} (h : ctx.Runs t ctx') (hc : ctx.SaidBy c) : ctx'.SaidBy c := by
  obtain ⟨d, hd, hms, hbs⟩ := hc
  exact ⟨d, h.stays hd (by rw [RecordDecl.isComplete, hms]; rfl), hms, hbs⟩

/-- **Complete in the end is what was complete before, and what a body has completed.** -/
theorem complete_iff (h : ctx.Runs t ctx') :
    ctx'.Complete i ↔ ctx.Complete i ∨ i ∈ t.completed := by
  induction h with
  | done => simp [Trace.completed, Trace.completions]
  | declares hd _ ih => rw [ih, hd.complete_iff]
  | body hi hin _ ihin ihrest =>
    obtain ⟨d, hd⟩ := hin.exists_record? hi
    rw [ihrest, complete_completeRecord hd, ihin, Trace.mem_completed_body]
    simp only [or_assoc, or_left_comm]

/-- A body only completes what has not been `Complete`. -/
theorem not_complete_of_mem (h : ctx.Runs t ctx') (hi : i ∈ t.completed) : ¬ ctx.Complete i := by
  induction h with
  | done => cases hi
  | declares hd _ ih => rw [← hd.complete_iff]; exact ih hi
  | body hopen hin _ ihin ihrest =>
    intro hc
    obtain ⟨d, hd⟩ := hin.exists_record? hopen
    rcases Trace.mem_completed_body.1 hi with hi | rfl | hi
    · exact ihin hi hc
    · exact hopen.not_complete hc
    · exact ihrest hi ((complete_completeRecord hd).2 (.inr (hin.complete hc)))

/-- **No record is completed twice exactly if no body stands inside another one for the same
record** (`Unnested`). A body behind another one finds its record complete. -/
theorem nodup_completed_iff (h : ctx.Runs t ctx') : t.completed.Nodup ↔ t.Unnested := by
  induction h with
  | done => exact iff_of_true List.nodup_nil trivial
  | declares _ _ ih => exact ih
  | @body ctx ctx₁ ctx' id inside rest ms bs hopen hin hrest ihin ihrest =>
    obtain ⟨d, hd⟩ := hin.exists_record? hopen
    -- what comes behind the body finds its record and those inside complete
    have hbehind : ∀ i ∈ rest.completed, i ≠ id ∧ i ∉ inside.completed := by
      intro i hi
      have hn := hrest.not_complete_of_mem hi
      rw [complete_completeRecord hd, not_or] at hn
      exact ⟨hn.1, fun hm => hn.2 (hin.complete_iff.2 (.inr hm))⟩
    rw [Trace.completed_body, Trace.Unnested, List.nodup_append, List.nodup_cons, ihin, ihrest]
    constructor
    · rintro ⟨hi, ⟨-, hr⟩, hne⟩
      exact ⟨fun hm => hne id hm id List.mem_cons_self rfl, hi, hr⟩
    · rintro ⟨hid, hi, hr⟩
      refine ⟨hi, ⟨fun hm => (hbehind id hm).1 rfl, hr⟩, fun a ha b hb hab => ?_⟩
      subst hab
      rcases List.mem_cons.1 hb with rfl | hb
      · exact hid ha
      · exact (hbehind a hb).2 ha

/-- **What the outermost body says stays:** `SaidBy` holds in the end of all that is `lasting`. -/
theorem saidBy_of_mem_lasting (h : ctx.Runs t ctx') {c : Completion} (hc : c ∈ t.lasting) :
    ctx'.SaidBy c := by
  induction h with
  | done => cases hc
  | declares _ _ ih => exact ih hc
  | body hopen hin hrest ihin ihrest =>
    rw [Trace.lasting, List.mem_append, List.mem_filter, List.mem_cons] at hc
    rcases hc with ⟨hc, hne⟩ | rfl | hc
    · obtain ⟨d, hd, hsaid⟩ := ihin hc
      refine hrest.saidBy ⟨d, ?_, hsaid⟩
      rw [record?_completeRecord_of_ne (by simpa using hne), hd]
    · obtain ⟨d, hd⟩ := hin.exists_record? hopen
      exact hrest.saidBy (saidBy_completeRecord hd)
    · exact ihrest hc

end Runs

end Context

/-! ## 3. Sources -/

/-- **A body for a complete record is refused** by `recordSpecifier`. -/
theorem recordSpecifier_redefinition (stop : Location) (key : RecordKey) (l : Location)
    {sc : Scope} {ts : List Token} {n : String} {id : RecordId}
    (hn : (optionalName ts).value = some n) (hid : sc.context.findRecord? n = some id)
    (hc : sc.context.Complete id)
    (hbody : (startsWith .braceOpen (optionalName ts).rest ||
      startsWith .colon (optionalName ts).rest) = true) :
    recordSpecifier stop key l sc ts = .error (faultAt l (.redefinition n)) := by
  have htag : tagged sc key (some n) true = .error (.redefinition n) := by
    obtain ⟨d, hd, hcomplete⟩ := hc
    rw [tagged]
    simp only [hid]
    exact if_pos ⟨trivial, by rw [hd]; exact hcomplete⟩
  unfold recordSpecifier
  simp only [hn, hbody, htag]

/-- **The bodies of a source.** Its trace (`sourceTrace`) leads from the context in front of it to
the one behind it. No record is completed twice exactly if no body stands inside another one for the
same record (`Unnested`): everywhere else a second body is refused. The complete records are those
that bodies have completed, and each is what the outermost of its bodies says (`Context.SaidBy`); if
they are not nested, nothing that a body says is lost. -/
theorem completed_nodup_iff {source : String} {ctx : Context} {ds : List Declaration} {sc : Scope}
    (h : parseSource source ctx = .ok (ds, sc)) :
    ctx.Runs (sourceTrace source ctx) sc.context ∧
      ((sourceTrace source ctx).completed.Nodup ↔ (sourceTrace source ctx).Unnested) ∧
      (∀ id, sc.context.Complete id ↔
        ctx.Complete id ∨ id ∈ (sourceTrace source ctx).completed) ∧
      (∀ c ∈ (sourceTrace source ctx).lasting, sc.context.SaidBy c) ∧
      ((sourceTrace source ctx).Unnested →
        ∀ c ∈ (sourceTrace source ctx).completions, sc.context.SaidBy c) := by
  have hruns := runs_parseSource h
  refine ⟨hruns, hruns.nodup_completed_iff, fun id => hruns.complete_iff,
    fun c hc => hruns.saidBy_of_mem_lasting hc, fun hunnested c hc => ?_⟩
  rw [← hunnested.lasting_eq] at hc
  exact hruns.saidBy_of_mem_lasting hc

/-- Two structs, one of which is only named before the other one has its body. -/
def forwardSource : String :=
  "struct S; struct T \x7b struct S *s; \x7d; struct S \x7b struct T t; \x7d;"

def forwardTokens : List Token :=
  [⟨.keyword (.record .structKey), ⟨1, 1⟩⟩, ⟨.ident "S", ⟨1, 8⟩⟩, ⟨.mark .semicolon, ⟨1, 9⟩⟩,
    ⟨.keyword (.record .structKey), ⟨1, 11⟩⟩, ⟨.ident "T", ⟨1, 18⟩⟩, ⟨.mark .braceOpen, ⟨1, 20⟩⟩,
    ⟨.keyword (.record .structKey), ⟨1, 22⟩⟩, ⟨.ident "S", ⟨1, 29⟩⟩, ⟨.mark .star, ⟨1, 31⟩⟩,
    ⟨.ident "s", ⟨1, 32⟩⟩, ⟨.mark .semicolon, ⟨1, 33⟩⟩, ⟨.mark .braceClose, ⟨1, 35⟩⟩,
    ⟨.mark .semicolon, ⟨1, 36⟩⟩, ⟨.keyword (.record .structKey), ⟨1, 38⟩⟩, ⟨.ident "S", ⟨1, 45⟩⟩,
    ⟨.mark .braceOpen, ⟨1, 47⟩⟩, ⟨.keyword (.record .structKey), ⟨1, 49⟩⟩, ⟨.ident "T", ⟨1, 56⟩⟩,
    ⟨.ident "t", ⟨1, 58⟩⟩, ⟨.mark .semicolon, ⟨1, 59⟩⟩, ⟨.mark .braceClose, ⟨1, 61⟩⟩,
    ⟨.mark .semicolon, ⟨1, 62⟩⟩]

theorem tokenize_forward :
    tokenize forwardSource.toUTF8.toList = .ok (forwardTokens, ⟨1, 63⟩) := by
  decide +kernel

theorem parse_forward : ∃ ds sc, parseSource forwardSource = .ok (ds, sc) := by
  refine ⟨[⟨none, .record .none ⟨0⟩, none, ⟨1, 1⟩⟩, ⟨none, .record .none ⟨1⟩, none, ⟨1, 11⟩⟩,
    ⟨none, .record .none ⟨0⟩, none, ⟨1, 38⟩⟩],
    ⟨[], ⟨[⟨.structKey, some "S", some [⟨some "t", .record .none ⟨1⟩, none, none⟩], []⟩,
      ⟨.structKey, some "T",
        some [⟨some "s", .pointer .none .pointer (.record .none ⟨0⟩), none, none⟩], []⟩], []⟩⟩, ?_⟩
  rw [parseSource, parseBytes, tokenize_forward]
  cbv

theorem sourceTrace_forward : sourceTrace forwardSource =
    .body ⟨1⟩ .done [⟨some "s", .pointer .none .pointer (.record .none ⟨0⟩), none, none⟩] []
      (.body ⟨0⟩ .done [⟨some "t", .record .none ⟨1⟩, none, none⟩] [] .done) := by
  rw [sourceTrace, tokenize_forward]
  cbv

/-- Each of the two structs is `completed` once, and is what its body says. -/
theorem completed_forward : ∃ ds sc, parseSource forwardSource = .ok (ds, sc) ∧
    (sourceTrace forwardSource).completed = [⟨1⟩, ⟨0⟩] ∧
    (sourceTrace forwardSource).completed.Nodup ∧
    ∀ c ∈ (sourceTrace forwardSource).completions, sc.context.SaidBy c := by
  obtain ⟨ds, sc, hparse⟩ := parse_forward
  obtain ⟨-, hnodup, -, -, hsaid⟩ := completed_nodup_iff hparse
  have hunnested : (sourceTrace forwardSource).Unnested := by
    rw [sourceTrace_forward]
    exact ⟨List.not_mem_nil, trivial, List.not_mem_nil, trivial, trivial⟩
  exact ⟨ds, sc, hparse, by rw [sourceTrace_forward]; rfl, hnodup.2 hunnested, hsaid hunnested⟩

/-- A struct with a body of its own inside its body. -/
def nestedSource : String := "struct S \x7b struct S \x7b int x; \x7d y; \x7d;"

/-- **A body inside a body of the same record is accepted,** and completes the record before the
body around it does: what the inner one says is lost. -/
theorem struct_completed_twice : ∃ ds sc, parseSource nestedSource = .ok (ds, sc) ∧
    (sourceTrace nestedSource).completed = [⟨0⟩, ⟨0⟩] ∧
    ¬ (sourceTrace nestedSource).completed.Nodup ∧
    ∃ c ∈ (sourceTrace nestedSource).completions, ¬ sc.context.SaidBy c := by
  have htokens : tokenize nestedSource.toUTF8.toList = .ok
      ([⟨.keyword (.record .structKey), ⟨1, 1⟩⟩, ⟨.ident "S", ⟨1, 8⟩⟩, ⟨.mark .braceOpen, ⟨1, 10⟩⟩,
        ⟨.keyword (.record .structKey), ⟨1, 12⟩⟩, ⟨.ident "S", ⟨1, 19⟩⟩,
        ⟨.mark .braceOpen, ⟨1, 21⟩⟩, ⟨.keyword (.builtin .int), ⟨1, 23⟩⟩, ⟨.ident "x", ⟨1, 27⟩⟩,
        ⟨.mark .semicolon, ⟨1, 28⟩⟩, ⟨.mark .braceClose, ⟨1, 30⟩⟩, ⟨.ident "y", ⟨1, 32⟩⟩,
        ⟨.mark .semicolon, ⟨1, 33⟩⟩, ⟨.mark .braceClose, ⟨1, 35⟩⟩,
        ⟨.mark .semicolon, ⟨1, 36⟩⟩], ⟨1, 37⟩) := by
    decide +kernel
  have htrace : sourceTrace nestedSource =
      .body ⟨0⟩ (.body ⟨0⟩ .done [⟨some "x", .builtin .none "int", none, none⟩] [] .done)
        [⟨some "y", .record .none ⟨0⟩, none, none⟩] [] .done := by
    rw [sourceTrace, htokens]
    cbv
  have hcompleted : (sourceTrace nestedSource).completed = [⟨0⟩, ⟨0⟩] := by rw [htrace]; rfl
  refine ⟨[⟨none, .record .none ⟨0⟩, none, ⟨1, 1⟩⟩],
    ⟨[], ⟨[⟨.structKey, some "S", some [⟨some "y", .record .none ⟨0⟩, none, none⟩], []⟩], []⟩⟩, ?_,
    hcompleted, by rw [hcompleted]; decide,
    ⟨⟨0⟩, [⟨some "x", .builtin .none "int", none, none⟩], []⟩,
    by rw [htrace]; exact List.mem_cons_self, ?_⟩
  · rw [parseSource, parseBytes, htokens]
    cbv
  · rintro ⟨d, hd, hms, -⟩
    obtain rfl := Option.some.inj hd
    exact absurd hms (by decide)

end TypeLedger
