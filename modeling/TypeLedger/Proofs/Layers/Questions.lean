import TypeLedger.Proofs.Layers.Overlay
import TypeLedger.Proofs.Printing.Fresh

/-!
# What questions do to the naming

* `Environment.Request`: a question to an environment, or some global symbols to be declared.
* `Environment.asking_answer`: whatever is requested, the names of aggregates of the environment are
  asked for, and nothing else is done to the naming.
* `Asking.new_tag`: a name is given on the way to a tag only that is asked about.
-/

namespace TypeLedger

/-- Names are given on the way to the tags only that the computation asks about. -/
theorem Asking.new_tag {α : Type} {T : Tag → Prop} {m : StateM Naming α} (h : Asking T m)
    {k : Naming} {s : Nat} {n : String} (hs : k.given.lookup s = none)
    (hn : (m k).2.given.lookup s = some n) : T (.anonymous s) := by
  induction h generalizing k n with
  | pure a =>
    have : k.given.lookup s = some n := hn
    rw [hs] at this
    cases this
  | name ht =>
    rcases Naming.lookup_given_name hn with hold | ⟨rfl, -⟩
    · rw [hs] at hold
      cases hold
    · exact ht
  | look =>
    have : k.given.lookup s = some n := hn
    rw [hs] at this
    cases this
  | @bind α β m g _ _ ihm ihg =>
    cases hmid : (m k).2.given.lookup s with
    | some n' => exact ihm hs hmid
    | none => exact ihg (m k).1 hmid hn

namespace Environment

/-! ## 1. Definitions and symbols -/

variable (env : Environment)

theorem asking_declare (id : TypeId) (name : String) :
    Asking env.HasTag (env.declare id name) :=
  env.asking_declareWith [] .none id name

theorem asking_edgeText (e : BaseEdge) : Asking env.HasTag (env.edgeText e) := by
  refine .bind ?_ fun _ => .pure _
  unfold baseName
  split
  · rename_i hb
    exact .name ⟨e.base, by rw [hb]; rfl⟩
  · exact .pure _

theorem asking_basesText (id : TypeId) : Asking env.HasTag (env.basesText id) :=
  .bind (.mapM fun e _ => env.asking_edgeText e) fun _ => .pure _

theorem asking_forward? (id : TypeId) : Asking env.HasTag (env.forward? id) := by
  unfold forward?
  split
  · rename_i hb
    exact .bind (.name ⟨id, by rw [hb]; rfl⟩) fun _ => .pure _
  · exact .pure _

theorem asking_memberText (m : Member) : Asking env.HasTag (env.memberText m) :=
  .bind (env.asking_declare _ _) fun _ => .pure _

theorem asking_classMembers (current : Option Access) (ms : List Member) :
    Asking env.HasTag (env.classMembers current ms) := by
  induction ms generalizing current with
  | nil => exact .pure _
  | cons m ms ih =>
    unfold classMembers
    cases m.access with
    | none => exact .bind (ih current) fun _ => .pure _
    | some a => exact .bind (env.asking_memberText m) fun _ => .bind (ih (some a)) fun _ => .pure _

theorem asking_bodyTexts (key : RecordKey) (ms : List Member) :
    Asking env.HasTag (env.bodyTexts key ms) := by
  cases key with
  | classKey => exact env.asking_classMembers none ms
  | _ => exact .mapM fun m _ => env.asking_memberText m

theorem asking_baseClauseText (key : RecordKey) (id : TypeId) :
    Asking env.HasTag (env.baseClauseText key id) := by
  cases key with
  | classKey => exact .bind (env.asking_basesText id) fun _ => .pure _
  | _ => exact .pure _

theorem asking_define? (id : TypeId) : Asking env.HasTag (env.define? id) := by
  unfold define?
  split
  · rename_i hb
    exact .bind (.name ⟨id, by rw [hb]; rfl⟩) fun _ =>
      .bind (env.asking_baseClauseText _ _) fun _ =>
        .bind (env.asking_bodyTexts _ _) fun _ => .pure _
  · rename_i hb
    exact .bind (.name ⟨id, by rw [hb]; rfl⟩) fun _ => .pure _
  · exact .pure _

theorem asking_declareSymbols (symbols : List Symbol) :
    Asking env.HasTag (env.declareSymbols symbols) :=
  .mapM fun _ _ => .bind (env.asking_declare _ _) fun _ => .pure _

/-- A record is looked up with the name that its aggregate has so far. -/
theorem asking_lookup (id : TypeId) : Asking env.HasTag (env.ask (.lookup id)) := by
  have hanswer : env.ask (.lookup id) = fun k =>
      (.record ((env.lookup? id).map fun r => (r, r.body.tag?.bind k.current?)), k) := rfl
  rw [hanswer]
  cases hr : env.lookup? id with
  | none =>
    have hnone : Asking env.HasTag (pure (Answer.record none)) := .pure _
    exact hnone
  | some r =>
    cases ht : r.body.tag? with
    | none =>
      have hpure : Asking env.HasTag (pure (Answer.record (some (r, none)))) := .pure _
      simp only [Option.map_some, ht]
      exact hpure
    | some t =>
      have hlook : Asking env.HasTag
          ((fun k => (k.current? t, k)) >>= fun n => pure (Answer.record (some (r, n)))) :=
        .bind (.look (hasTag_of_body hr ht)) fun _ => .pure _
      simp only [Option.map_some, ht]
      exact hlook

theorem asking_ask (q : Query) : Asking env.HasTag (env.ask q) := by
  cases q with
  | lookup id => exact env.asking_lookup id
  | contains | baseEdges | resultType => exact .pure _
  | declare id name => exact .bind (env.asking_declare id name) fun _ => .pure _
  | typeText id => exact .bind (env.asking_declare id "") fun _ => .pure _
  | aggregateName id => exact .bind (env.asking_aggregateName? id) fun _ => .pure _
  | basesText id => exact .bind (env.asking_basesText id) fun _ => .pure _
  | forward id => exact .bind (env.asking_forward? id) fun _ => .pure _
  | define id => exact .bind (env.asking_define? id) fun _ => .pure _

/-! ## 2. Requests -/

/-- What an environment is asked for. -/
inductive Request
  | ask (q : Query)
  | declareSymbols (symbols : List Symbol)

/-- The answers to a `Request`. -/
def answer : Request → StateM Naming (List Answer)
  | .ask q => do return [← env.ask q]
  | .declareSymbols symbols => do return (← env.declareSymbols symbols).map fun s => .text (some s)

/-- The answers to a sequence of requests. -/
def answerAll (requests : List Request) : StateM Naming (List (List Answer)) :=
  requests.mapM env.answer

theorem asking_answer (request : Request) : Asking env.HasTag (env.answer request) := by
  cases request with
  | ask q => exact .bind (env.asking_ask q) fun _ => .pure _
  | declareSymbols symbols => exact .bind (env.asking_declareSymbols symbols) fun _ => .pure _

/-- **Whatever is requested, names of aggregates are asked for,** and nothing else is done to the
naming (`Asking`). -/
theorem asking_answerAll (requests : List Request) :
    Asking env.HasTag (env.answerAll requests) :=
  .mapM fun request _ => env.asking_answer request

end Environment

end TypeLedger
