import TypeLedger.Proofs.Layers.Questions
import TypeLedger.Proofs.Printing.Unresolved

/-!
# The name that is declared

* `Asking.settled`: where every name is given that a computation asks for, it answers the same
  behind all namings that follow, and leaves them as they are.
* `Environment.Named`: the aggregates that a declaration can come to have names.
* `FramesIn.settled`: then the text in front of the declarator, and the one behind it, are the same
  for all namings that follow.
* `framesIn_parameter`: the name of a parameter is framed by the declaration of its function.
  `declare_parameter`: and it is all that a renamed parameter changes.
* `declared_name_hole`: the declared name is a hole, for whatever is declared.
-/

namespace TypeLedger

/-! ## 1. Where all names are given -/

/-- **Where all names are given, none is made up.** The induction is on how the computation is put
together (`Asking`). -/
theorem Asking.settled {α : Type} {T : Tag → Prop} {m : StateM Naming α} (h : Asking T m)
    {k K : Naming} (hk : ∀ t, T t → ∃ n, k.current? t = some n)
    (hK : ∀ t, T t → K.current? t = k.current? t) : m K = ((m k).1, K) := by
  induction h generalizing K with
  | pure a => rfl
  | name ht =>
    obtain ⟨n, hn⟩ := hk _ ht
    rw [Naming.name_of_current? ((hK _ ht).trans hn), Naming.name_of_current? hn]
  | look ht => exact congrArg (·, K) (hK _ ht)
  | @bind α β m g _ _ ihm ihg =>
    have hself : (m k).2 = k := congrArg Prod.snd (ihm fun _ _ => rfl)
    show g (m K).1 (m K).2 = ((g (m k).1 (m k).2).1, K)
    rw [ihm hK, hself]
    exact ihg (m k).1 hK

/-- Where all names are given, the text in front of every declarator is the same for all namings
that follow, and so is the one behind it. -/
theorem FramesIn.settled {T : Tag → Prop} {m : String → StateM Naming String} (h : FramesIn m)
    (hm : ∀ d, Asking T (m d)) {k : Naming} (hk : ∀ t, T t → ∃ n, k.current? t = some n) :
    ∃ front behind, ∀ K, k.Follows K → ∀ d, d ≠ "" → m d K = (front ++ d ++ behind, K) := by
  obtain ⟨front, behind, k', hframe⟩ := h k
  refine ⟨front, behind, fun K hK d hd => ?_⟩
  have hsame : ∀ t, T t → K.current? t = k.current? t := by
    intro t ht
    obtain ⟨n, hn⟩ := hk t ht
    rw [hn, hK.current? hn]
  rw [(hm d).settled hk hsame, hframe d hd]

/-! ## 2. Parameters -/

/-- One computation behind the other, with what the first one answers as the declarator. -/
theorem FramesIn.andThen {m m' : String → StateM Naming String} (h : FramesIn m)
    (h' : FramesIn m') : FramesIn fun d => m d >>= m' := by
  intro k
  obtain ⟨front, behind, k₁, hm⟩ := h k
  obtain ⟨front', behind', k₂, hm'⟩ := h' k₁
  refine ⟨front' ++ front, behind ++ behind', k₂, fun d hd => ?_⟩
  have hne : front ++ d ++ behind ≠ "" :=
    Frames.ne_empty (f := fun d => front ++ d ++ behind) ⟨front, behind, fun _ _ => rfl⟩ hd
  show m' (m d k).1 (m d k).2 = _
  rw [hm d hd, hm' _ hne]
  simp only [String.append_assoc]

/-- One piece among others. -/
theorem frames_join (separator : String) (before after : List String) :
    Frames fun d => Fragment.join separator (before ++ d :: after) := by
  induction before with
  | nil =>
    cases after with
    | nil => exact ⟨"", "", fun d _ => by simp [Fragment.join]⟩
    | cons a after =>
      refine ⟨"", separator ++ Fragment.join separator (a :: after), fun d _ => ?_⟩
      simp [Fragment.join, String.intercalate_cons_cons, String.append_assoc]
  | cons b before ih =>
    have hcons : (fun d => Fragment.join separator (b :: before ++ d :: after)) =
        fun d => b ++ separator ++ Fragment.join separator (before ++ d :: after) :=
      funext fun d => String.intercalate_cons_of_ne_nil (by simp)
    rw [hcons]
    exact (frames_front _).comp ih

namespace Environment

variable {env : Environment} {path : List TypeId} {i : TypeId} {k : Naming}

/-- A function writes its parameters one after the other. -/
theorem declareParams_append_cons (ps : List Param) (p : Param) (qs : List Param) :
    env.declareParams path (ps ++ p :: qs) = do
      let before ← env.declareParams path ps
      let text ← env.declareWith path .none p.type (p.name.getD "")
      let after ← env.declareParams path qs
      return before ++ text :: after := by
  induction ps with
  | nil => simp only [List.nil_append, declareParams, pure_bind]
  | cons q ps ih => simp only [List.cons_append, declareParams, ih, bind_assoc, pure_bind]

/-- **The name of a parameter is framed** (`FramesIn`) by what its function writes around it. -/
theorem framesIn_parameter (env : Environment) (path : List TypeId) (ps : List Param) (p : Param)
    (qs : List Param) (variadic : Bool)
    (result : TypeId) (name : String) :
    FramesIn (fun n => do
      let texts ← env.declareParams path (ps ++ ⟨p.type, some n⟩ :: qs)
      env.declareWith path .none result (functionDeclarator texts variadic name)) := by
  simp only [declareParams_append_cons, bind_assoc, pure_bind, Option.getD_some]
  refine framesIn_bind _ fun before => (framesIn_declareWith env path .none p.type).andThen ?_
  refine framesIn_bind _ fun after => (framesIn_declareWith env path .none result).comp ?_
  have hjoin := frames_join ", " before (after ++ if variadic then ["..."] else [])
  simp only [functionDeclarator, List.append_assoc, List.cons_append]
  exact (frames_behind ")").comp ((frames_front (name ++ "(")).comp hjoin)

/-! ## 3. What a declaration can come to -/

/-- A declaration of the identifier can come to an aggregate with the tag. -/
def ReachesTag (env : Environment) (i : TypeId) (t : Tag) : Prop :=
  ∃ j, Relation.ReflTransGen env.Onward i j ∧ (env.body? j).bind TypeBody.tag? = some t

/-- The aggregates that a declaration of the identifier can come to (`ReachesTag`) have names. -/
def Named (env : Environment) (k : Naming) (i : TypeId) : Prop :=
  ∀ t, env.ReachesTag i t → ∃ n, k.current? t = some n

theorem onward_reach (i j : TypeId) (body : TypeBody)
    (hj : Relation.ReflTransGen env.Onward i j) (hb : env.body? j = some body) :
    ∀ l ∈ body.onward, Relation.ReflTransGen env.Onward i l :=
  fun _ hl => hj.tail ⟨body, hb, hl⟩

theorem asking_declareWith_reach (quals : Qualifiers) {i j : TypeId}
    (hj : Relation.ReflTransGen env.Onward i j) (name : String) :
    Asking (env.ReachesTag i) (env.declareWith path quals j name) :=
  asking_declareWith_within env (fun l hl _ ht => ⟨l, hl, ht⟩) (onward_reach i) path quals j hj name

theorem asking_declareParams_reach {i : TypeId} {ps : List Param}
    (hps : ∀ p ∈ ps, Relation.ReflTransGen env.Onward i p.type) :
    Asking (env.ReachesTag i) (env.declareParams path ps) :=
  asking_declareParams_within env (fun l hl _ ht => ⟨l, hl, ht⟩) (onward_reach i) path ps hps

/-! ## 4. A parameter is renamed -/

/-- A function in place of another one changes only what begins with it. -/
theorem agree_accept_function {r : TypeRecord} (edges : List BaseEdge)
    (hf : ∃ t ps v, env.body? r.id = some (.function t ps v))
    (hr : ∃ t ps v, r.body = .function t ps v) :
    Agree (fun _ => True) (· = r.id) (env.accept r edges) env := by
  refine ⟨fun j _ hj => lookup?_accept_of_ne hj, fun _ _ _ _ _ _ _ => trivial, ?_⟩
  rintro j rfl
  obtain ⟨t, ps, v, hb⟩ := hr
  exact ⟨⟨t, ps, v, by rw [body?_of_lookup lookup?_accept_self, hb]⟩, hf⟩

/-- **A renamed parameter changes the declaration of its function in its own place only.** The
function is on the way from there on, so its record is not read again. -/
theorem declare_parameter {quals : Qualifiers} {result : TypeId} {ps qs : List Param} {p : Param}
    {variadic : Bool} (hr : env.lookup? i =
      some ⟨i, quals, .function result (ps ++ p :: qs) variadic⟩)
    (n : String) (edges : List BaseEdge) (name : String) :
    (env.accept ⟨i, quals, .function result (ps ++ ⟨p.type, some n⟩ :: qs) variadic⟩ edges).declare
        i name =
      if env.signatureKnown result (ps ++ p :: qs) then do
        let texts ← env.declareParams [i] (ps ++ ⟨p.type, some n⟩ :: qs)
        env.declareWith [i] .none result (functionDeclarator texts variadic name)
      else pure (Fragment.incomplete name) := by
  have hagree := agree_accept_function edges ⟨_, _, _, body?_of_lookup hr⟩
    (r := ⟨i, quals, .function result (ps ++ ⟨p.type, some n⟩ :: qs) variadic⟩) ⟨_, _, _, rfl⟩
  have hmet : ∀ j, j = i → j ∈ [i] := fun j hj => List.mem_singleton.2 hj
  have hknown := fun rs : List Param => hagree.signatureKnown (i := result) trivial
    fun r (_ : r ∈ rs) => trivial
  have hsame : env.signatureKnown result (ps ++ ⟨p.type, some n⟩ :: qs) =
      env.signatureKnown result (ps ++ p :: qs) := by
    simp only [signatureKnown, List.all_append, List.all_cons]
  have hparams := hagree.declareParams [i] hmet (ps ++ ⟨p.type, some n⟩ :: qs) fun _ _ => trivial
  have hresult := hagree.declareWith [i] hmet .none result trivial
  rw [declare, declareWith_eq lookup?_accept_self List.not_mem_nil]
  simp only [hknown, hsame, hparams, hresult]

/-! ## 5. The hole -/

/-- A member is declared with its width behind it. -/
theorem memberText_eq (m : Member) {K : Naming} {text : String} (ht : text ≠ "")
    (h : env.declare m.type (m.name.getD "") K = (text, K)) :
    env.memberText m K =
      (text ++ (m.bitWidth.elim "" fun w => " : " ++ toString w) ++ ";", K) := by
  have hwidth : Fragment.beside text (m.bitWidth.elim "" fun w => ": " ++ toString w) =
      text ++ m.bitWidth.elim "" fun w => " : " ++ toString w := by
    have hne : text.isEmpty = false := by simpa using ht
    cases m.bitWidth with
    | none => simp [Fragment.beside]
    | some w =>
      have hw : (": " ++ toString w).isEmpty = false := by simp
      have hcolon : " : " = " " ++ ": " := rfl
      simp only [Option.elim, Fragment.beside, hne, hw, hcolon, String.append_assoc]
      rfl
  show (Fragment.beside (env.declare m.type (m.name.getD "") K).1 _ ++ ";",
    (env.declare m.type (m.name.getD "") K).2) = _
  rw [h, hwidth]

/-- **The declared name is a hole.** If the aggregates have names that a declaration of the
identifier can come to (`Named`), there are two texts between which every name stands that `declare`
is given with it, also as a member or as a global symbol; nothing else is done, and nothing else
depends on the name. If the identifier is that of a function, the name of each parameter stands
between two texts in its declaration, which are the same for all names. -/
theorem declared_name_hole (h : env.Named k i) :
    (∃ front behind, ∀ K, k.Follows K → ∀ n, n ≠ "" →
      env.declare i n K = (front ++ n ++ behind, K) ∧
      (∀ s : Symbol, s.type = i →
        env.symbolText { s with name := some n } K = (front ++ n ++ behind ++ ";", K)) ∧
      ∀ m : Member, m.type = i → env.memberText { m with name := some n } K =
        (front ++ n ++ behind ++ (m.bitWidth.elim "" fun w => " : " ++ toString w) ++ ";", K)) ∧
    ∀ quals result ps p qs variadic,
      env.lookup? i = some ⟨i, quals, .function result (ps ++ p :: qs) variadic⟩ →
      ∀ edges name, ∃ front behind, ∀ K, k.Follows K → ∀ n, n ≠ "" →
        (env.accept ⟨i, quals, .function result (ps ++ ⟨p.type, some n⟩ :: qs) variadic⟩
          edges).declare i name K =
        (if env.signatureKnown result (ps ++ p :: qs) then front ++ n ++ behind
          else Fragment.incomplete name, K) := by
  constructor
  · obtain ⟨front, behind, hframe⟩ := (framesIn_declareWith env [] .none i).settled
      (fun d => asking_declareWith_reach .none .refl d) h
    refine ⟨front, behind, fun K hK n hn => ?_⟩
    have hdeclare : env.declare i n K = (front ++ n ++ behind, K) := hframe K hK n hn
    refine ⟨hdeclare, ?_, ?_⟩
    · rintro s rfl
      show ((env.declare s.type n K).1 ++ ";", (env.declare s.type n K).2) = _
      rw [hdeclare]
    · rintro m rfl
      have hne : front ++ n ++ behind ≠ "" :=
        Frames.ne_empty (f := fun d => front ++ d ++ behind) ⟨front, behind, fun _ _ => rfl⟩ hn
      exact memberText_eq { m with name := some n } hne hdeclare
  · intro quals result ps p qs variadic hr edges name
    have hbody := body?_of_lookup hr
    have hresult : Relation.ReflTransGen env.Onward i result :=
      .single ⟨_, hbody, List.mem_cons_self⟩
    have hparams : ∀ n, ∀ r ∈ ps ++ ⟨p.type, some n⟩ :: qs,
        Relation.ReflTransGen env.Onward i r.type := by
      intro n r hm
      refine .single ⟨_, hbody, List.mem_cons_of_mem _ ?_⟩
      have htypes :
          (ps ++ p :: qs).map Param.type = (ps ++ ⟨p.type, some n⟩ :: qs).map Param.type := by
        simp
      rw [htypes]
      exact List.mem_map_of_mem hm
    obtain ⟨front, behind, hframe⟩ :=
      (framesIn_parameter env [i] ps p qs variadic result name).settled
        (fun n => .bind (asking_declareParams_reach (hparams n)) fun _ =>
          asking_declareWith_reach .none hresult _) h
    refine ⟨front, behind, fun K hK n hn => ?_⟩
    rw [declare_parameter hr]
    cases env.signatureKnown result (ps ++ p :: qs) with
    | true => exact hframe K hK n hn
    | false => rfl

/-- If all aggregates of the `records` have names, then so have those that a declaration can come
to. -/
theorem named_of_layers (h : ∀ l ∈ env.layers, ∀ p ∈ l.records,
    p.2.body.tag?.all (fun t => (k.current? t).isSome) = true) (i : TypeId) : env.Named k i := by
  rintro t ⟨j, -, ht⟩
  obtain ⟨body, hbody, ht⟩ := Option.bind_eq_some_iff.1 ht
  obtain ⟨record, hr, rfl⟩ := Option.map_eq_some_iff.1 hbody
  have hall := holds_of_layers (P := fun r => r.body.tag?.all fun t => (k.current? t).isSome) h hr
  rw [ht] at hall
  exact Option.isSome_iff_exists.1 hall

/-- A function that takes a pointer to a struct without a tag. -/
def calleeEnvironment : Environment where
  top := { records :=
    [(⟨"Struct0"⟩, ⟨⟨"Struct0"⟩, .none, .aggregate .structKey (.anonymous 0) true [] []⟩),
      (⟨"Pointer0"⟩, ⟨⟨"Pointer0"⟩, .none, .pointer .pointer ⟨"Struct0"⟩⟩),
      (⟨"Function0"⟩, ⟨⟨"Function0"⟩, .none, .function ⟨"int"⟩ [⟨⟨"Pointer0"⟩, some "p"⟩] false⟩)] }
  below := [.fundamental]

/-- The naming behind the first name that was made up. -/
def firstNaming : Naming := (Naming.name (.anonymous 0) { serials := 1 }).2

/-- The parameter of the function has its place, whatever its name is. -/
theorem declared_name_hole_callee :
    ∃ front behind, (∀ n, n ≠ "" → ((calleeEnvironment.accept ⟨⟨"Function0"⟩, .none,
        .function ⟨"int"⟩ [⟨⟨"Pointer0"⟩, some n⟩] false⟩ []).declare ⟨"Function0"⟩ "f"
          firstNaming).1 = front ++ n ++ behind) ∧
      front ++ "p" ++ behind = "int f(struct __anon_1 *p)" := by
  have hnamed : calleeEnvironment.Named firstNaming ⟨"Function0"⟩ :=
    named_of_layers (by decide +kernel) _
  obtain ⟨-, hparam⟩ := declared_name_hole hnamed
  obtain ⟨front, behind, hframe⟩ := hparam .none ⟨"int"⟩ [] ⟨⟨"Pointer0"⟩, some "p"⟩ [] false rfl []
    "f"
  have hknown : calleeEnvironment.signatureKnown ⟨"int"⟩ [⟨⟨"Pointer0"⟩, some "p"⟩] = true := by
    decide +kernel
  have hall : ∀ n, n ≠ "" → ((calleeEnvironment.accept ⟨⟨"Function0"⟩, .none,
      .function ⟨"int"⟩ [⟨⟨"Pointer0"⟩, some n⟩] false⟩ []).declare ⟨"Function0"⟩ "f"
        firstNaming).1 = front ++ n ++ behind := by
    intro n hn
    have hrun := hframe firstNaming .refl n hn
    simp only [List.nil_append, hknown, ↓reduceIte] at hrun
    rw [hrun]
  refine ⟨front, behind, hall, ?_⟩
  rw [← hall "p" (by decide)]
  exact declare_of_declareFor (by decide +kernel)

end Environment

end TypeLedger
