import Mathlib.Data.List.Basic
import TypeLedger.Proofs.Layers.Questions
import TypeLedger.Proofs.Printing.Hole

/-!
# Names that answers show

* `Shows`: a computation answers something in which the name of an aggregate stands, and the naming
  has given the aggregate that name afterwards. `shows_name`, `Shows.bind` and `Shows.mapM` put such
  computations together.
* `Environment.ComesTo`: the aggregates that a declaration of an identifier comes to;
  `shows_declareWith`: it shows their names.
* `Environment.Writes`: the aggregates whose names a request writes; `Writes.shown`: the answer
  shows them, and each is recorded.
-/

namespace TypeLedger

/-! ## 1. Computations that show a name -/

/-- The name stands in the text. -/
def Within (n text : String) : Prop := n.toList <:+: text.toList

theorem Within.refl (n : String) : Within n n := List.infix_rfl

theorem Within.trans {a b c : String} (h : Within a b) (h' : Within b c) : Within a c :=
  List.IsInfix.trans h h'

theorem within_append_left (a b : String) : Within a (a ++ b) := by
  rw [Within, String.toList_append]
  exact (List.prefix_append _ _).isInfix

theorem within_append_right (a b : String) : Within b (a ++ b) := by
  rw [Within, String.toList_append]
  exact (List.suffix_append _ _).isInfix

/-- Something that a text stands in is not empty, if the text is not. -/
theorem Within.isEmpty_eq_false {a b : String} (h : Within a b) (ha : a.isEmpty = false) :
    b.isEmpty = false := by
  rw [Bool.eq_false_iff] at ha ⊢
  rintro hb
  rw [String.isEmpty_iff.1 hb] at h
  exact ha (String.isEmpty_iff.2 (String.toList_inj.1 (List.infix_nil.1 h)))

/-- The name stands in one of the texts. -/
def WithinOne (n : String) (texts : List String) : Prop := ∃ text ∈ texts, Within n text

theorem within_beside_left (a b : String) : Within a (Fragment.beside a b) := by
  unfold Fragment.beside
  split
  · exact .refl a
  · split
    · rename_i ha
      rw [String.isEmpty_iff.1 ha]
      exact List.nil_infix
    · exact (within_append_left a " ").trans (within_append_left _ b)

theorem within_beside_right (a b : String) : Within b (Fragment.beside a b) := by
  unfold Fragment.beside
  split
  · rename_i hb
    rw [String.isEmpty_iff.1 hb]
    exact List.nil_infix
  · split
    · exact .refl b
    · exact within_append_right _ b

/-- A word stands in what is put together from it and others. -/
theorem within_ofWords {w : String} {ws : List String} (h : w ∈ ws) :
    Within w (Fragment.ofWords ws) := by
  -- what has been put together so far stays
  have hfold : ∀ (ws : List String) (text : String),
      Within text (ws.foldl Fragment.beside text) := by
    intro ws
    induction ws with
    | nil => exact fun text => .refl text
    | cons v ws ih => exact fun text => (within_beside_left text v).trans (ih _)
  obtain ⟨before, after, rfl⟩ := List.append_of_mem h
  rw [Fragment.ofWords, List.foldl_append, List.foldl_cons]
  exact (within_beside_right _ w).trans (hfold after _)

theorem within_join {w : String} {ws : List String} (separator : String) (h : w ∈ ws) :
    Within w (Fragment.join separator ws) := by
  induction ws with
  | nil => cases h
  | cons v ws ih =>
    cases ws with
    | nil =>
      obtain rfl := List.mem_singleton.1 h
      exact .refl w
    | cons u ws =>
      rw [Fragment.join, String.intercalate_cons_cons]
      rcases List.mem_cons.1 h with rfl | h
      · exact (within_append_left w separator).trans (within_append_left _ _)
      · exact (ih h).trans (within_append_right _ _)

variable {α β : Type} {p : String → α → Prop} {q : String → β → Prop} {t : Tag}

/-- The computation answers something in which a name stands, and the naming has given the aggregate
that name afterwards. -/
def Shows (p : String → α → Prop) (t : Tag) (m : StateM Naming α) : Prop :=
  ∀ k : Naming, ∃ n, (m k).2.current? t = some n ∧ p n (m k).1

/-- **The name that `Naming.name` answers is the one that is given.** -/
theorem shows_name (t : Tag) : Shows (fun n m => n = m) t (Naming.name t) :=
  fun k => ⟨_, Naming.current?_name t k, rfl⟩

/-- What is done afterwards takes no name away. -/
theorem Shows.bind {m : StateM Naming α} {g : α → StateM Naming β} (h : Shows p t m)
    (hg : ∀ a, Asks (g a)) (hpq : ∀ n a k, p n a → q n (g a k).1) : Shows q t (m >>= g) := by
  intro k
  obtain ⟨n, hn, hp⟩ := h k
  exact ⟨n, (hg (m k).1 (m k).2).current? hn, hpq n _ (m k).2 hp⟩

theorem Shows.after {m : StateM Naming α} {g : α → StateM Naming β} (h : ∀ a, Shows q t (g a)) :
    Shows q t (m >>= g) :=
  fun k => h (m k).1 (m k).2

theorem Shows.map {m : StateM Naming α} {f : α → β} (h : Shows p t m)
    (hpq : ∀ n a, p n a → q n (f a)) : Shows q t (do return f (← m)) :=
  h.bind (fun _ => asks_pure _) fun n a _ hp => hpq n a hp

theorem asks_mapM {γ : Type} {f : γ → StateM Naming α} (hf : ∀ b, Asks (f b)) (bs : List γ) :
    Asks (bs.mapM f) := by
  induction bs with
  | nil => exact asks_pure []
  | cons b bs ih =>
    rw [List.mapM_cons]
    exact asks_bind (hf b) fun c => asks_bind ih fun cs => asks_pure (c :: cs)

/-- One computation among others, whose texts are gathered. -/
theorem Shows.mapM {γ : Type} {f : γ → StateM Naming α} {a : γ} {as : List γ}
    (h : Shows p t (f a)) (ha : a ∈ as) (hf : ∀ b, Asks (f b)) :
    Shows (fun n bs => ∃ b ∈ bs, p n b) t (as.mapM f) := by
  induction as with
  | nil => cases ha
  | cons b bs ih =>
    rw [List.mapM_cons]
    rcases List.mem_cons.1 ha with rfl | ha
    · refine h.bind (fun c => asks_bind (asks_mapM hf bs) fun cs => asks_pure (c :: cs))
        fun n c k hn => ?_
      exact ⟨c, List.mem_cons_self, hn⟩
    · exact .after fun c => (ih ha).map fun n cs hn => List.exists_mem_cons_of_exists hn

namespace Environment

variable {env : Environment} {path : List TypeId} {i j : TypeId}

/-! ## 2. Declarations -/

/-- The declaration of an identifier comes to the aggregate of another. The identifiers on the way
here are `path`; it goes on from a record only if all that the record leads to have records. -/
inductive ComesTo (env : Environment) : List TypeId → TypeId → TypeId → Prop
  | here {path : List TypeId} {i : TypeId} {r : TypeRecord} {t : Tag} (hr : env.lookup? i = some r)
    (hp : i ∉ path) (ht : r.body.tag? = some t) : ComesTo env path i i
  | onward {path : List TypeId} {i j l : TypeId} {r : TypeRecord} (hr : env.lookup? i = some r)
    (hp : i ∉ path) (hknown : ∀ x ∈ r.body.onward, env.contains x = true) (hj : j ∈ r.body.onward)
    (h : ComesTo env (i :: path) j l) : ComesTo env path i l

theorem ComesTo.tag (h : env.ComesTo path i j) :
    ∃ t, (env.body? j).bind TypeBody.tag? = some t := by
  induction h with
  | here hr _ ht => exact ⟨_, by rw [body?_of_lookup hr]; exact ht⟩
  | onward _ _ _ _ _ ih => exact ih

theorem shows_taggedDeclaration (quals : Qualifiers) (keyword : String) (tag : Tag)
    (name : String) :
    Shows Within tag (taggedDeclaration quals keyword tag name) :=
  (shows_name tag).map fun n aggregate hn => within_ofWords (by simp [← hn])

/-- A parameter stands in the declarator of its function. -/
theorem within_functionDeclarator {texts : List String} {text : String} (h : text ∈ texts)
    (variadic : Bool) (name : String) : Within text (functionDeclarator texts variadic name) := by
  have hjoin := within_join ", " (List.mem_append_left (if variadic then ["..."] else []) h)
  exact (hjoin.trans (within_append_right _ _)).trans (within_append_left _ _)

/-- Parameters are declared one after the other, each for itself. -/
theorem shows_declareParams {t : Tag} {ps : List Param} {p : Param} (hp : p ∈ ps)
    (h : ∀ name, Shows Within t (env.declareWith path .none p.type name)) :
    Shows WithinOne t (env.declareParams path ps) := by
  induction ps with
  | nil => cases hp
  | cons q qs ih =>
    have hrest : Asks (env.declareParams path qs) :=
      (env.asking_declareParams_within (S := fun _ => True) (T := env.HasTag)
        (fun i _ _ ht => ⟨i, ht⟩) (fun _ _ _ _ _ _ => trivial) path qs fun _ _ => trivial).asks
    rw [declareParams]
    rcases List.mem_cons.1 hp with rfl | hp
    · refine (h _).bind (fun c => asks_bind hrest fun cs => asks_pure (c :: cs)) fun n c k hn => ?_
      exact ⟨c, List.mem_cons_self, hn⟩
    · exact .after fun c => (ih hp).map fun n cs hn => List.exists_mem_cons_of_exists hn

/-- **A declaration `Shows` the names of the aggregates that it comes to.** The induction is on the
way there; what a function writes of its parameters stays in the declarator of its result. -/
theorem ComesTo.shows_declareWith (h : env.ComesTo path i j) {t : Tag}
    (ht : (env.body? j).bind TypeBody.tag? = some t) (quals : Qualifiers) (name : String) :
    Shows Within t (env.declareWith path quals i name) := by
  induction h generalizing quals name with
  | @here path i r t' hr hp ht' =>
    rw [body?_of_lookup hr, Option.bind_some, ht'] at ht
    obtain rfl := Option.some.inj ht
    rw [declareWith_eq hr hp]
    revert ht'
    cases r.body with
    | aggregate key tag =>
      rintro ⟨⟩
      exact shows_taggedDeclaration _ _ _ _
    | enumeration tag =>
      rintro ⟨⟩
      exact shows_taggedDeclaration _ _ _ _
    | _ => exact nofun
  | @onward path i j l r hr hp hknown hj _ ih =>
    rw [declareWith_eq hr hp]
    cases hb : r.body with
    | qualified base | pointer _ base | array _ base =>
      rw [hb] at hknown hj
      obtain rfl := List.mem_singleton.1 hj
      simp only [hknown j (List.mem_singleton_self _), if_true]
      exact ih ht _ _
    | function result params variadic =>
      rw [hb] at hknown hj
      have hsignature : env.signatureKnown result params = true := by
        rw [signatureKnown, Bool.and_eq_true, List.all_eq_true]
        exact ⟨hknown _ List.mem_cons_self, fun p hp =>
          hknown _ (List.mem_cons_of_mem _ (List.mem_map_of_mem hp))⟩
      simp only [hsignature, if_true]
      rcases List.mem_cons.1 hj with rfl | hj
      · exact .after fun texts => ih ht _ _
      · obtain ⟨p, hp, rfl⟩ := List.mem_map.1 hj
        refine (shows_declareParams hp (ih ht .none)).bind
          (fun texts => env.asks_declareWith _ _ _ _) fun n texts k hn => ?_
        obtain ⟨text, hm, hw⟩ := hn
        have hkeeps := (env.framesIn_declareWith (i :: path) .none result).keeps k
          (functionDeclarator texts variadic name)
        exact (hw.trans (within_functionDeclarator hm variadic name)).trans hkeeps
    | _ =>
      rw [hb] at hj
      cases hj

/-! ## 3. Requests -/

/-- The identifier is that of a struct, union or class with the tag. -/
def IsRecord (env : Environment) (i : TypeId) (t : Tag) : Prop :=
  ∃ key complete members bases, env.body? i = some (.aggregate key t complete members bases)

theorem IsRecord.tag {t : Tag} (h : env.IsRecord i t) :
    (env.body? i).bind TypeBody.tag? = some t := by
  obtain ⟨_, _, _, _, hb⟩ := h
  rw [hb]
  rfl

/-- The aggregates whose names a request writes. A declaration writes those that it `ComesTo`. A
member of a class without an access is left out, and an enumeration has no definition. -/
inductive Writes (env : Environment) : Request → TypeId → Prop
  | name {i : TypeId} {t : Tag} (ht : (env.body? i).bind TypeBody.tag? = some t) :
    Writes env (.ask (.aggregateName i)) i
  | declare {i j : TypeId} {name : String} (h : env.ComesTo [] i j) :
    Writes env (.ask (.declare i name)) j
  | typeText {i j : TypeId} (h : env.ComesTo [] i j) : Writes env (.ask (.typeText i)) j
  | forward {i : TypeId} {t : Tag} (h : env.IsRecord i t) : Writes env (.ask (.forward i)) i
  | base {i : TypeId} {e : BaseEdge} {t : Tag} (he : e ∈ env.baseEdges i)
    (h : env.IsRecord e.base t) :
    Writes env (.ask (.basesText i)) e.base
  | defined {i : TypeId} {t : Tag} (h : env.IsRecord i t) : Writes env (.ask (.define i)) i
  | definedBase {i : TypeId} {tag t : Tag} {complete : Bool} {ms : List Member} {bs : List BaseEdge}
    {e : BaseEdge} (hi : env.body? i = some (.aggregate .classKey tag complete ms bs))
    (he : e ∈ env.baseEdges i) (h : env.IsRecord e.base t) : Writes env (.ask (.define i)) e.base
  | definedMember {i j : TypeId} {key : RecordKey} {tag : Tag} {complete : Bool} {ms : List Member}
    {bs : List BaseEdge} {m : Member} (hi : env.body? i = some (.aggregate key tag complete ms bs))
    (hm : m ∈ ms) (haccess : key = .classKey → m.access ≠ none) (h : env.ComesTo [] m.type j) :
    Writes env (.ask (.define i)) j
  | symbol {symbols : List Symbol} {s : Symbol} {j : TypeId} (hs : s ∈ symbols)
    (h : env.ComesTo [] s.type j) : Writes env (.declareSymbols symbols) j

/-- The name stands in one of the answers (`Within`). -/
def Answered (n : String) (answers : List Answer) : Prop :=
  ∃ text, .text (some text) ∈ answers ∧ Within n text

theorem shows_ask {q : Query} {t : Tag}
    (h : Shows (fun n a => ∃ text, a = .text (some text) ∧ Within n text) t (env.ask q)) :
    Shows Answered t (env.answer (.ask q)) := by
  refine h.map fun n a hn => ?_
  obtain ⟨text, rfl, hw⟩ := hn
  exact ⟨text, List.mem_cons_self, hw⟩

theorem shows_text {m : StateM Naming String} {t : Tag} (h : Shows Within t m) :
    Shows (fun n a => ∃ text, a = Answer.text (some text) ∧ Within n text) t
      (do return .text (some (← m))) :=
  h.map fun _ text hw => ⟨text, rfl, hw⟩

theorem shows_some {m : StateM Naming (Option String)} {t : Tag}
    (h : Shows (fun n o => ∃ text, o = some text ∧ Within n text) t m) :
    Shows (fun n a => ∃ text, a = Answer.text (some text) ∧ Within n text) t
      (do return .text (← m)) :=
  h.map fun _ _ ⟨text, ho, hw⟩ => ⟨text, congrArg Answer.text ho, hw⟩

theorem shows_aggregateName? {t : Tag} (ht : (env.body? i).bind TypeBody.tag? = some t) :
    Shows (fun n o => o = some n) t (env.aggregateName? i) := by
  have heq : env.aggregateName? i = do return some (← Naming.name t) := by
    rw [aggregateName?, ht]
    rfl
  rw [heq]
  exact (shows_name t).map fun n m hn => congrArg some hn.symm

theorem shows_forward? {t : Tag} (h : env.IsRecord i t) :
    Shows (fun n o => ∃ text, o = some text ∧ Within n text) t (env.forward? i) := by
  obtain ⟨key, _, _, _, hb⟩ := h
  have heq : env.forward? i = do
      let name ← Naming.name t
      return some (Fragment.beside key.word (name ++ ";")) := by rw [forward?, hb]
  rw [heq]
  refine (shows_name t).map fun n m hn => ⟨_, rfl, ?_⟩
  exact hn ▸ (within_append_left n ";").trans (within_beside_right _ _)

theorem shows_edgeText {e : BaseEdge} {t : Tag} (h : env.IsRecord e.base t) :
    Shows (fun n text => Within n text ∧ text.isEmpty = false) t (env.edgeText e) := by
  obtain ⟨_, _, _, _, hb⟩ := h
  have hname : env.baseName e.base = Naming.name t := by rw [baseName, hb]
  rw [edgeText, hname]
  refine (shows_name t).map fun n m hn => ⟨within_ofWords (by simp [← hn]), ?_⟩
  have haccess : e.access.word.isEmpty = false := by cases e.access <;> decide
  exact (within_ofWords (w := e.access.word) List.mem_cons_self).isEmpty_eq_false haccess

theorem shows_basesText {e : BaseEdge} {t : Tag} (he : e ∈ env.baseEdges i)
    (h : env.IsRecord e.base t) :
    Shows (fun n text => Within n text ∧ text.isEmpty = false) t (env.basesText i) := by
  refine ((shows_edgeText h).mapM he fun e => (env.asking_edgeText e).asks).map fun n texts hn => ?_
  obtain ⟨text, hm, hw, hne⟩ := hn
  have hjoin := within_join ", " hm
  exact ⟨hw.trans hjoin, hjoin.isEmpty_eq_false hne⟩

theorem shows_baseClauseText {e : BaseEdge} {t : Tag} (he : e ∈ env.baseEdges i)
    (h : env.IsRecord e.base t) : Shows WithinOne t (env.baseClauseText .classKey i) := by
  refine (shows_basesText he h).map fun n text hn => ⟨text, ?_, hn.1⟩
  simp [hn.2]

theorem shows_memberText {m : Member} {t : Tag} (h : env.ComesTo [] m.type j)
    (ht : (env.body? j).bind TypeBody.tag? = some t) : Shows Within t (env.memberText m) :=
  (h.shows_declareWith ht .none _).map fun _ text hw =>
    (hw.trans (within_beside_left text _)).trans (within_append_left _ ";")

theorem shows_classMembers {ms : List Member} {m : Member} {t : Tag} (hm : m ∈ ms)
    (haccess : m.access ≠ none) (h : Shows Within t (env.memberText m)) (current : Option Access) :
    Shows WithinOne t (env.classMembers current ms) := by
  induction ms generalizing current with
  | nil => cases hm
  | cons m' ms ih =>
    unfold classMembers
    cases ha : m'.access with
    | none =>
      rcases List.mem_cons.1 hm with rfl | hm
      · exact absurd ha haccess
      · exact (ih hm current).map fun n texts hn => List.exists_mem_cons_of_exists hn
    | some a =>
      rcases List.mem_cons.1 hm with rfl | hm
      · refine h.bind
          (fun text => asks_bind (env.asking_classMembers _ ms).asks fun _ => asks_pure _)
          fun n text k hn => ?_
        exact ⟨text, List.mem_append_right _ List.mem_cons_self, hn⟩
      · refine .after fun text => (ih hm (some a)).map fun n texts hn => ?_
        obtain ⟨text', hm', hw⟩ := List.exists_mem_cons_of_exists (a := text) hn
        exact ⟨text', List.mem_append_right _ hm', hw⟩

theorem shows_bodyTexts {key : RecordKey} {ms : List Member} {m : Member} {t : Tag} (hm : m ∈ ms)
    (haccess : key = .classKey → m.access ≠ none) (h : Shows Within t (env.memberText m)) :
    Shows WithinOne t (env.bodyTexts key ms) := by
  cases key with
  | classKey => exact shows_classMembers hm (haccess rfl) h none
  | _ => exact h.mapM hm fun m => (env.asking_memberText m).asks

/-- What a definition is put together from stands in it. -/
theorem shows_define? {key : RecordKey} {tag : Tag} {complete : Bool} {ms : List Member}
    {bs : List BaseEdge} (hi : env.body? i = some (.aggregate key tag complete ms bs)) {t : Tag}
    (h : t = tag ∨ Shows WithinOne t (env.baseClauseText key i) ∨
      Shows WithinOne t (env.bodyTexts key ms)) :
    Shows (fun n o => ∃ text, o = some text ∧ Within n text) t (env.define? i) := by
  have heq : env.define? i = do
      let name ← Naming.name tag
      let bases ← env.baseClauseText key i
      let texts ← env.bodyTexts key ms
      return some
        (Fragment.ofWords ([key.word, name] ++ bases ++ ["\x7b"] ++ texts ++ ["\x7d;"])) := by
    rw [define?, hi]
  rw [heq]
  have hbody := (env.asking_bodyTexts key ms).asks
  rcases h with rfl | h | h
  · refine (shows_name t).bind
      (fun name => asks_bind (env.asking_baseClauseText key i).asks fun _ =>
        asks_bind hbody fun _ => asks_pure _) fun n name k hn => ⟨_, rfl, ?_⟩
    exact within_ofWords (by simp [← hn])
  · refine .after fun name => h.bind (fun _ => asks_bind hbody fun _ => asks_pure _)
      fun n bases k hn => ⟨_, rfl, ?_⟩
    obtain ⟨text, hm, hw⟩ := hn
    exact hw.trans (within_ofWords (by simp [hm]))
  · refine .after fun name => .after fun bases => h.map fun n texts hn => ⟨_, rfl, ?_⟩
    obtain ⟨text, hm, hw⟩ := hn
    exact hw.trans (within_ofWords (by simp [hm]))

/-- **A request `Shows` the names that it writes,** and each of them is recorded. -/
theorem Writes.shown {request : Request} (h : env.Writes request j) :
    ∃ t, (env.body? j).bind TypeBody.tag? = some t ∧ Shows Answered t (env.answer request) := by
  cases h with
  | name ht =>
    have hname :
        Shows (fun n o => ∃ text, o = some text ∧ Within n text) _ (env.aggregateName? j) :=
      fun k => (shows_aggregateName? ht k).imp fun n hn => ⟨hn.1, n, hn.2, .refl n⟩
    exact ⟨_, ht, shows_ask (shows_some hname)⟩
  | declare hj | typeText hj =>
    obtain ⟨t, ht⟩ := hj.tag
    exact ⟨t, ht, shows_ask (shows_text (hj.shows_declareWith ht .none _))⟩
  | forward hi => exact ⟨_, hi.tag, shows_ask (shows_some (shows_forward? hi))⟩
  | base he hb =>
    have hbases := shows_basesText he hb
    exact ⟨_, hb.tag, shows_ask (shows_text fun k => (hbases k).imp fun n hn => ⟨hn.1, hn.2.1⟩)⟩
  | defined hi =>
    obtain ⟨_, _, _, _, hb⟩ := id hi
    exact ⟨_, hi.tag, shows_ask (shows_some (shows_define? hb (.inl rfl)))⟩
  | definedBase hi he hb =>
    have hclause := shows_baseClauseText he hb
    exact ⟨_, hb.tag, shows_ask (shows_some (shows_define? hi (.inr (.inl hclause))))⟩
  | definedMember hi hm haccess hj =>
    obtain ⟨t, ht⟩ := hj.tag
    have hbody := shows_bodyTexts hm haccess (shows_memberText hj ht)
    exact ⟨t, ht, shows_ask (shows_some (shows_define? hi (.inr (.inr hbody))))⟩
  | @symbol symbols s j hs hj =>
    obtain ⟨t, ht⟩ := hj.tag
    have hsymbol : Shows Within t (env.symbolText s) :=
      (hj.shows_declareWith ht .none _).map fun _ text hw => hw.trans (within_append_left _ ";")
    have hasks : ∀ s, Asks (env.symbolText s) := fun s =>
      asks_bind (env.asking_declare _ _).asks fun _ => asks_pure _
    refine ⟨t, ht, (hsymbol.mapM hs hasks).map fun n texts hn => ?_⟩
    obtain ⟨text, hm, hw⟩ := hn
    exact ⟨text, List.mem_map_of_mem hm, hw⟩

end Environment

end TypeLedger
