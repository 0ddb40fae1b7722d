import TypeLedger.Proofs.Layers.Questions

/-!
# What a refused extension leaves behind

An extension with a faulty entry makes no environment, but the tags that were read on the way stay
taken: the namer is that of the environment below as well.

* `Entry.upToFault`: the entries that are read before the extension is given up.
* `Environment.naming_add`: all that reading them does to the namer.
* `Asking.reserves`: computations that ask for names cannot tell whether names were taken besides,
  as long as they would not have made up one of these. The induction is on how they are put
  together.
* `Environment.extend_unnoticed_iff`: the environment below answers as if it had never been extended
  if and only if no tag that was read is a name that it comes to make up.
-/

namespace TypeLedger

/-! ## 1. The entries that are read -/

/-- The entries up to the first with a fault, that one included. -/
def Entry.upToFault : List Entry → List Entry
  | [] => []
  | e :: es =>
    e :: match e.readRecord (.anonymous 0) with
      | .ok _ => upToFault es
      | .error _ => []

namespace Entry

variable {e : Entry} {tag : Tag}

/-- What an aggregate is called is no fault of its entry. -/
theorem readBody_error (tag' : Tag) {complete : Bool} {edges : List BaseEdge} {f : TableFault}
    (h : e.readBody tag complete edges = .error f) :
    e.readBody tag' complete edges = .error f := by
  unfold readBody at h ⊢
  cases hkey : EntryKind.key? e.kind with
  | some key =>
    simp only [hkey] at h ⊢
    cases hms : e.symbols.mapM Symbol.readMember with
    | error g => rwa [hms] at h
    | ok ms =>
      rw [hms] at h
      cases h
  | none =>
    simp only [hkey] at h ⊢
    by_cases he : e.kind = EntryKind.enumeration
    · rw [he] at h
      cases h
    · simpa only [if_neg he] using h

theorem readRecord_error (tag' : Tag) {f : TableFault} (h : e.readRecord tag = .error f) :
    e.readRecord tag' = .error f := by
  unfold readRecord at h ⊢
  cases hq : e.readQualifiers with
  | error g => rwa [hq] at h
  | ok quals =>
    cases hes : e.bases.mapM BaseEntry.readEdge with
    | error g => rwa [hq, hes] at h
    | ok edges =>
      cases hc : e.flag "is_complete" with
      | error g => rwa [hq, hes, hc] at h
      | ok stated =>
        rw [hq, hes, hc] at h
        simp only [bind, Except.bind] at h ⊢
        cases hb : e.readBody tag (stated || !e.symbols.isEmpty || !e.bases.isEmpty) edges with
        | error g =>
          rw [hb] at h
          rw [readBody_error tag' hb]
          exact h
        | ok body =>
          rw [hb] at h
          cases h

theorem upToFault_cons_ok {es : List Entry} {v : TypeRecord × List BaseEdge}
    (h : e.readRecord tag = .ok v) : upToFault (e :: es) = e :: upToFault es := by
  rw [upToFault]
  cases h₀ : e.readRecord (.anonymous 0) with
  | ok _ => rfl
  | error f =>
    rw [readRecord_error tag h₀] at h
    cases h

theorem upToFault_cons_error {es : List Entry} {f : TableFault}
    (h : e.readRecord tag = .error f) : upToFault (e :: es) = [e] := by
  rw [upToFault, readRecord_error (.anonymous 0) h]

end Entry

/-! ## 2. What reading entries does to the namer -/

theorem Naming.namer_tagEntry (k : Naming) (e : Entry) :
    (k.tagEntry e).2.namer.issued = k.namer.issued ∧
      ∀ n, n ∈ (k.tagEntry e).2.namer.taken ↔ n ∈ k.namer.taken ∨ e.tag? = some n := by
  unfold tagEntry
  cases e.tag? with
  | none => simp [Naming.tag]
  | some m =>
    have htaken : ∀ n, n ∈ m :: k.namer.taken ↔ n ∈ k.namer.taken ∨ some m = some n := by
      intro n
      rw [List.mem_cons, or_comm, Option.some.injEq, eq_comm]
    cases hm : m.isEmpty with
    | true =>
      simp only [Naming.tag, Option.elim, hm, ↓reduceIte]
      exact ⟨rfl, htaken⟩
    | false =>
      simp only [Naming.tag, Option.elim, hm, Bool.false_eq_true, ↓reduceIte]
      exact ⟨rfl, htaken⟩

/-- The second naming is the first one with the names of `R` taken besides. -/
structure Naming.Reserves (R : String → Prop) (k k' : Naming) : Prop where
  given : k'.given = k.given
  issued : k'.namer.issued = k.namer.issued
  taken : ∀ n, n ∈ k'.namer.taken ↔ n ∈ k.namer.taken ∨ R n

/-- A tag that one of the entries states. -/
def Entry.TagIn (es : List Entry) (n : String) : Prop := ∃ e ∈ es, e.tag? = some n

/-- **Reading entries takes their tags** (`Naming.Reserves`), and does nothing else to the namer. -/
theorem Environment.naming_add (env : Environment) (es : List Entry) (k : Naming) :
    k.Reserves (Entry.TagIn (Entry.upToFault es)) (env.add es k).2 := by
  induction es generalizing env k with
  | nil =>
    have hadd : (env.add [] k).2 = k := rfl
    exact ⟨rfl, rfl, fun n => by simp [Entry.TagIn, Entry.upToFault, hadd]⟩
  | cons e es ih =>
    obtain ⟨hissued, htaken⟩ := k.namer_tagEntry e
    obtain ⟨-, -, -, -, -, -, hgiven⟩ := k.tagEntry_spec e
    rw [add_cons]
    cases hr : e.readRecord (k.tagEntry e).1 with
    | error f =>
      rw [Entry.upToFault_cons_error hr]
      refine ⟨hgiven, hissued, fun n => ?_⟩
      rw [htaken]
      simp [Entry.TagIn]
    | ok v =>
      rw [Entry.upToFault_cons_ok hr]
      have hrest := ih (env.accept v.1 v.2) (k.tagEntry e).2
      refine ⟨hrest.given.trans hgiven, hrest.issued.trans hissued, fun n => ?_⟩
      rw [hrest.taken, htaken, or_assoc]
      simp [Entry.TagIn]

theorem Environment.naming_extend (env : Environment) (es : List Entry) (k : Naming) :
    k.Reserves (Entry.TagIn (Entry.upToFault es)) (env.extend es k).2 :=
  naming_add env.raised es k

/-! ## 3. Names that were taken besides -/

namespace Naming

/-- No name that was given between the two namings is one of `R`. -/
def Spares (R : String → Prop) (k k' : Naming) : Prop :=
  ∀ s n, k.given.lookup s = none → k'.given.lookup s = some n → ¬ R n

theorem Spares.split {R : String → Prop} {k k₁ k₂ : Naming} (h : Spares R k k₂)
    (h₁ : k.Follows k₁) (h₂ : k₁.Follows k₂) : Spares R k k₁ ∧ Spares R k₁ k₂ := by
  refine ⟨fun s n hs hn => h s n hs (h₂.lookup hn), fun s n hs hn => h s n ?_ hn⟩
  cases hk : k.given.lookup s with
  | none => rfl
  | some m =>
    rw [h₁.lookup hk] at hs
    cases hs

theorem Reserves.current? {R : String → Prop} {k k' : Naming} (h : k.Reserves R k') (t : Tag) :
    k'.current? t = k.current? t := by
  cases t with
  | named m => rfl
  | anonymous s => exact congrArg (List.lookup s) h.given

/-- The same name is made up, if it is none of those that were taken besides. -/
theorem Reserves.name {R : String → Prop} {k k' : Naming} (h : k.Reserves R k') (t : Tag)
    (hs : Spares R k (Naming.name t k).2) :
    (Naming.name t k').1 = (Naming.name t k).1 ∧
      (Naming.name t k).2.Reserves R (Naming.name t k').2 := by
  cases t with
  | named m => exact ⟨rfl, h⟩
  | anonymous s =>
    unfold Naming.name at hs ⊢
    simp only [h.given] at hs ⊢
    cases hl : k.given.lookup s with
    | some n => exact ⟨rfl, h⟩
    | none =>
      simp only [hl] at hs ⊢
      have hnot : ¬ R (Namer.numbered (Namer.freeNumber k.namer.taken k.namer.issued)) := by
        refine hs s _ hl ?_
        rw [List.lookup_cons, beq_self_eq_true]
        rfl
      have hfree : Namer.freeNumber k'.namer.taken k'.namer.issued =
          Namer.freeNumber k.namer.taken k.namer.issued := by
        rw [h.issued]
        refine Namer.freeNumber_of_subset (fun n hn => (h.taken n).2 (.inl hn)) fun hm => ?_
        rcases (h.taken _).1 hm with hm | hm
        · exact (Namer.freeNumber_spec _ _).2 hm
        · exact hnot hm
      simp only [Namer.fresh, hfree]
      refine ⟨trivial, rfl, rfl, fun n => ?_⟩
      simp only [List.mem_cons, h.taken, or_assoc]

end Naming

/-- **Nothing shows that names were taken besides,** as long as none of them would have been made up
(`Naming.Spares`). -/
theorem Asking.reserves {α : Type} {T : Tag → Prop} {R : String → Prop} {m : StateM Naming α}
    (h : Asking T m) {k k' : Naming} (hk : k.Reserves R k') (hs : Naming.Spares R k (m k).2) :
    (m k').1 = (m k).1 ∧ (m k).2.Reserves R (m k').2 := by
  induction h generalizing k k' with
  | pure a => exact ⟨rfl, hk⟩
  | @name t ht => exact hk.name t hs
  | @look t ht => exact ⟨hk.current? t, hk⟩
  | @bind α β m g hm hg ihm ihg =>
    obtain ⟨hs₁, hs₂⟩ := hs.split (hm.asks k) ((hg (m k).1).asks (m k).2)
    obtain ⟨heq, hk₁⟩ := ihm hk hs₁
    obtain ⟨heq', hk₂⟩ := ihg (m k).1 hk₁ hs₂
    show (g (m k').1 (m k').2).1 = (g (m k).1 (m k).2).1 ∧
      (g (m k).1 (m k).2).2.Reserves R (g (m k').1 (m k').2).2
    rw [heq]
    exact ⟨heq', hk₂⟩

namespace Environment

variable (env : Environment)

theorem answerAll_append_one (requests : List Request) (request : Request) (k : Naming) :
    env.answerAll (requests ++ [request]) k =
      ((env.answerAll requests k).1 ++ [(env.answer request (env.answerAll requests k).2).1],
        (env.answer request (env.answerAll requests k).2).2) := by
  unfold answerAll
  rw [List.mapM_append]
  rfl

/-- **An extension goes unnoticed below if and only if no tag that was read for it is a name that
the environment comes to make up.** This is so whether `extend` is refused or not; where it is
refused, the tags up to that of the faulty entry count (`Entry.upToFault`). -/
theorem extend_unnoticed_iff (es : List Entry) (k : Naming) :
    (∀ requests, (env.answerAll requests (env.extend es k).2).1 = (env.answerAll requests k).1) ↔
      ∀ requests s n, k.given.lookup s = none →
        (env.answerAll requests k).2.given.lookup s = some n →
        ∀ e ∈ Entry.upToFault es, e.tag? ≠ some n := by
  have hk := env.naming_extend es k
  constructor
  · intro hsame requests s n hs hn e he htag
    -- the aggregate that was given the name, looked up behind the requests, shows the difference
    obtain ⟨i, hi⟩ := (env.asking_answerAll requests).new_tag hs hn
    obtain ⟨body, hbody, ht⟩ := Option.bind_eq_some_iff.1 hi
    obtain ⟨r, hr, rfl⟩ := Option.map_eq_some_iff.1 hbody
    have hlast := hsame (requests ++ [.ask (.lookup i)])
    rw [answerAll_append_one, answerAll_append_one, hsame requests] at hlast
    have hrecord : ∀ k₁ : Naming, (env.answer (.ask (.lookup i)) k₁).1 =
        [.record (some (r, k₁.given.lookup s))] := by
      intro k₁
      show [Answer.record ((env.lookup? i).map fun r => (r, r.body.tag?.bind k₁.current?))] = _
      rw [hr, Option.map_some, ht]
      rfl
    rw [hrecord, hrecord, hn] at hlast
    have hn' : (env.answerAll requests (env.extend es k).2).2.given.lookup s = some n := by
      simpa using hlast
    rw [← hk.given] at hs
    have hfollows := (env.asking_answerAll requests).asks (env.extend es k).2
    exact hfollows.fresh_of_new hs hn' ((hk.taken n).2 (.inr ⟨e, he, htag⟩))
  · intro hspares requests
    refine ((env.asking_answerAll requests).reserves hk fun s n hs hn => ?_).1
    rintro ⟨e, he, htag⟩
    exact hspares requests s n hs hn e he htag

/-- A struct that is called like the first name that is made up, and whose flag has no meaning. -/
def refusedEntries : List Entry :=
  [{ kind := "structType", type := ⟨"Struct1"⟩,
     attributes := .ofList [("tag", "__anon_1"), ("is_complete", "maybe")] }]

/-- The struct below has no tag. It would have been given the first name, and is given the second
one behind the refused extension. -/
theorem refused_extension_is_noticed :
    ∃ env k f, ofEntries untaggedEntries {} = (.ok env, k) ∧
      (env.extend refusedEntries k).1 = .error f ∧
      (env.aggregateName? ⟨"Struct0"⟩ k).1 = some "__anon_1" ∧
      (env.aggregateName? ⟨"Struct0"⟩ (env.extend refusedEntries k).2).1 = some "__anon_2" :=
  ⟨_, _, .invalidFlag "is_complete" "maybe", rfl, rfl, by decide +kernel, by decide +kernel⟩

end Environment

end TypeLedger
