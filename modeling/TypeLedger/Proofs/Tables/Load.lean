import TypeLedger.Environment
import TypeLedger.Proofs.Identifier
import TypeLedger.Proofs.Tables.Reread

/-!
# Loading a table

* `Naming.Tags`: which tags the entries of a table are given, one after the other. An entry that
  states a tag keeps it; the others are told apart by their serial numbers.
* `Layer.Adds`: a layer has what some entries add to another.
* `Environment.add_spec`: entries without a fault and with different identifiers are all added.
-/

namespace TypeLedger

/-! ## 1. Tags -/

/-- Between the two namings the entries have been given tags; nothing has been made up. -/
structure Naming.Tags (es : List Entry) (tagOf : TypeId → Tag) (k k' : Naming) : Prop where
  named : ∀ e ∈ es, ∀ n, e.tag? = some n → n ≠ "" → tagOf e.type = .named n
  anonymous : ∀ e ∈ es, e.tag? = none →
    ∃ s, tagOf e.type = .anonymous s ∧ k.serials ≤ s ∧ s < k'.serials
  later : ∀ e ∈ es, ∀ s, tagOf e.type = .anonymous s → k.serials ≤ s
  distinct : ∀ e ∈ es, ∀ e' ∈ es, ∀ s, tagOf e.type = .anonymous s →
    tagOf e'.type = .anonymous s → e.type = e'.type
  taken : ∀ e ∈ es, ∀ n, e.tag? = some n → n ∈ k'.namer.taken
  keeps : ∀ n ∈ k.namer.taken, n ∈ k'.namer.taken
  serials : k.serials ≤ k'.serials
  given : k'.given = k.given

theorem Naming.tags_nil (tagOf : TypeId → Tag) (k : Naming) : Tags [] tagOf k k where
  named := fun _ h => nomatch h
  anonymous := fun _ h => nomatch h
  later := fun _ h => nomatch h
  distinct := fun _ h => nomatch h
  taken := fun _ h => nomatch h
  keeps := fun _ h => h
  serials := Nat.le_refl _
  given := rfl

/-- The naming behind the tag of one entry. -/
def Naming.tagEntry (k : Naming) (e : Entry) : Tag × Naming :=
  (e.tag?.elim k k.reserve).tag e.tag?

theorem Naming.tagEntry_spec (k : Naming) (e : Entry) :
    (∀ n, e.tag? = some n → n ≠ "" → (k.tagEntry e).1 = .named n) ∧
    (e.tag? = none → (k.tagEntry e).1 = .anonymous k.serials ∧
      (k.tagEntry e).2.serials = k.serials + 1) ∧
    (∀ s, (k.tagEntry e).1 = .anonymous s → s = k.serials ∧
      (k.tagEntry e).2.serials = k.serials + 1) ∧
    (∀ n, e.tag? = some n → n ∈ (k.tagEntry e).2.namer.taken) ∧
    (∀ n ∈ k.namer.taken, n ∈ (k.tagEntry e).2.namer.taken) ∧
    k.serials ≤ (k.tagEntry e).2.serials ∧ (k.tagEntry e).2.given = k.given := by
  unfold tagEntry
  cases ht : e.tag? with
  | none => simp [Naming.tag]
  | some n =>
    by_cases hn : n = ""
    · subst hn
      simp [Naming.tag, Naming.reserve, Namer.reserve]
      exact fun m hm => .inr hm
    · simp [Naming.tag, Naming.reserve, Namer.reserve, hn]
      exact fun m hm => .inr hm

/-- The tag of one entry in front of those of others. It has its own serial number, or none, which
is less than all that are given later. -/
theorem Naming.Tags.cons {e : Entry} {es : List Entry} {tagOf : TypeId → Tag} {k k' : Naming}
    (h : Tags es tagOf (k.tagEntry e).2 k') (he : e.type ∉ es.map Entry.type) :
    Tags (e :: es) (fun i => if i = e.type then (k.tagEntry e).1 else tagOf i) k k' := by
  obtain ⟨hnamed, hnone, hanon, htaken, hkeeps, hser, hgiven⟩ := k.tagEntry_spec e
  have hne : ∀ e' ∈ es, e'.type ≠ e.type := fun e' he' hty =>
    he (hty ▸ List.mem_map_of_mem he')
  have hlater : ∀ e' ∈ es, ∀ s, tagOf e'.type = .anonymous s → (k.tagEntry e).1 ≠ .anonymous s := by
    intro e' he' s hs' hs
    obtain ⟨rfl, hsucc⟩ := hanon s hs
    have hle := h.later e' he' _ hs'
    omega
  constructor
  case named =>
    intro e' he' n hn hne'
    rcases List.mem_cons.1 he' with rfl | he'
    · rw [if_pos rfl]
      exact hnamed n hn hne'
    · rw [if_neg (hne e' he')]
      exact h.named e' he' n hn hne'
  case anonymous =>
    intro e' he' hn
    rcases List.mem_cons.1 he' with rfl | he'
    · obtain ⟨ht, hs⟩ := hnone hn
      have hle := h.serials
      rw [if_pos rfl]
      exact ⟨_, ht, Nat.le_refl _, by omega⟩
    · obtain ⟨s, ht, hle, hlt⟩ := h.anonymous e' he' hn
      rw [if_neg (hne e' he')]
      exact ⟨s, ht, Nat.le_trans hser hle, hlt⟩
  case later =>
    intro e' he' s hs
    rcases List.mem_cons.1 he' with rfl | he'
    · rw [if_pos rfl] at hs
      exact Nat.le_of_eq (hanon s hs).1.symm
    · rw [if_neg (hne e' he')] at hs
      exact Nat.le_trans hser (h.later e' he' s hs)
  case distinct =>
    intro e₁ h₁ e₂ h₂ s hs₁ hs₂
    rcases List.mem_cons.1 h₁ with rfl | m₁ <;> rcases List.mem_cons.1 h₂ with rfl | m₂
    · rfl
    · rw [if_pos rfl] at hs₁
      rw [if_neg (hne e₂ m₂)] at hs₂
      exact absurd hs₁ (hlater e₂ m₂ s hs₂)
    · rw [if_neg (hne e₁ m₁)] at hs₁
      rw [if_pos rfl] at hs₂
      exact absurd hs₂ (hlater e₁ m₁ s hs₁)
    · rw [if_neg (hne e₁ m₁)] at hs₁
      rw [if_neg (hne e₂ m₂)] at hs₂
      exact h.distinct e₁ m₁ e₂ m₂ s hs₁ hs₂
  case taken =>
    intro e' he' n hn
    rcases List.mem_cons.1 he' with rfl | he'
    · exact h.keeps n (htaken n hn)
    · exact h.taken e' he' n hn
  case keeps => exact fun n hn => h.keeps n (hkeeps n hn)
  case serials => exact Nat.le_trans hser h.serials
  case given => exact h.given.trans hgiven

/-! ## 2. Records -/

/-- The entry is read as the record and the bases that `f` gives for its tag. -/
def Entry.ReadsAs (e : Entry) (f : Tag → TypeRecord × List BaseEdge) : Prop :=
  ∀ tag, e.readRecord tag = .ok (f tag) ∧ (f tag).1.id = e.type

/-- What is added to a layer by entries that are read by `f`, under the tags `tagOf`. -/
structure Layer.Adds (es : List Entry) (f : Entry → Tag → TypeRecord × List BaseEdge)
    (tagOf : TypeId → Tag) (l l' : Layer) : Prop where
  records : ∀ e ∈ es, l'.records.lookup e.type = some (f e (tagOf e.type)).1
  bases : ∀ e ∈ es, l'.inheritance.bases e.type = (f e (tagOf e.type)).2
  others : ∀ i ∉ es.map Entry.type, l'.records.lookup i = l.records.lookup i
  otherBases : ∀ i ∉ es.map Entry.type, l'.inheritance.bases i = l.inheritance.bases i
  order : l'.order = l.order ++ es.map Entry.type

theorem Layer.adds_nil (f : Entry → Tag → TypeRecord × List BaseEdge) (tagOf : TypeId → Tag)
    (l : Layer) : Adds [] f tagOf l l where
  records := fun _ h => nomatch h
  bases := fun _ h => nomatch h
  others := fun _ _ => rfl
  otherBases := fun _ _ => rfl
  order := by simp

theorem Layer.Adds.cons {e : Entry} {es : List Entry}
    {f : Entry → Tag → TypeRecord × List BaseEdge} {tagOf : TypeId → Tag} {l l' : Layer}
    {tag : Tag} (hid : (f e tag).1.id = e.type)
    (h : Adds es f tagOf (l.accept (f e tag).1 (f e tag).2) l')
    (he : e.type ∉ es.map Entry.type) (hl : e.type ∉ l.order) :
    Adds (e :: es) f (fun i => if i = e.type then tag else tagOf i) l l' := by
  have hne : ∀ e' ∈ es, e'.type ≠ e.type := fun e' he' hty =>
    he (hty ▸ List.mem_map_of_mem he')
  constructor
  · intro e' he'
    rcases List.mem_cons.1 he' with rfl | he'
    · rw [if_pos rfl, h.others _ he, accept, hid, Keyed.lookup_set_self]
    · rw [if_neg (hne e' he')]
      exact h.records e' he'
  · intro e' he'
    rcases List.mem_cons.1 he' with rfl | he'
    · rw [if_pos rfl, h.otherBases _ he, accept, hid, Inheritance.bases_replace_self]
    · rw [if_neg (hne e' he')]
      exact h.bases e' he'
  · intro i hi
    rw [List.map_cons, List.mem_cons, not_or] at hi
    rw [h.others i hi.2, accept, hid, Keyed.lookup_set_of_ne hi.1]
  · intro i hi
    rw [List.map_cons, List.mem_cons, not_or] at hi
    rw [h.otherBases i hi.2, accept, hid, Inheritance.bases_replace_of_ne _ hi.1]
  · rw [h.order, accept, hid, if_neg hl]
    simp

namespace Environment

/-- An environment of one table looks nowhere else. -/
theorem lookup?_single (top : Layer) (i : TypeId) :
    (Environment.mk top []).lookup? i = top.records.lookup i := by
  rw [lookup?, layers, lookupIn]
  cases top.records.lookup i <;> rfl

/-- **Entries that are read without a fault are added to the topmost layer** (`Layer.Adds`). -/
theorem add_spec {f : Entry → Tag → TypeRecord × List BaseEdge} {es : List Entry}
    (hf : ∀ e ∈ es, e.ReadsAs (f e)) (hnd : (es.map Entry.type).Nodup) {env : Environment}
    (hord : ∀ e ∈ es, e.type ∉ env.top.order) (k : Naming) :
    ∃ top k' tagOf, env.add es k = (({ env with top }, none), k') ∧
      Layer.Adds es f tagOf env.top top ∧ Naming.Tags es tagOf k k' := by
  induction es generalizing env k with
  | nil =>
    exact ⟨env.top, k, fun _ => .anonymous 0, rfl, Layer.adds_nil f _ _, Naming.tags_nil _ k⟩
  | cons e es ih =>
    rw [List.map_cons, List.nodup_cons] at hnd
    obtain ⟨hread, hid⟩ := hf e List.mem_cons_self (k.tagEntry e).1
    let env₁ : Environment := { env with
      top := env.top.accept (f e (k.tagEntry e).1).1 (f e (k.tagEntry e).1).2 }
    have hord₁ : ∀ e' ∈ es, e'.type ∉ env₁.top.order := by
      intro e' he' hm
      have hne : e'.type ≠ e.type := fun hty => hnd.1 (hty ▸ List.mem_map_of_mem he')
      simp only [env₁, Layer.accept] at hm
      rw [hid, if_neg (hord e List.mem_cons_self), List.mem_append, List.mem_singleton] at hm
      rcases hm with hm | hm
      · exact hord e' (List.mem_cons_of_mem _ he') hm
      · exact hne hm
    obtain ⟨top, k', tagOf, hadd, hadds, htags⟩ :=
      ih (fun e' he' => hf e' (List.mem_cons_of_mem _ he')) hnd.2 hord₁
        (k.tagEntry e).2
    refine ⟨top, k', fun i => if i = e.type then (k.tagEntry e).1 else tagOf i, ?_,
      hadds.cons hid hnd.1 (hord e List.mem_cons_self), htags.cons hnd.1⟩
    rw [add]
    simp only
    rw [← Naming.tagEntry, hread]
    exact hadd

/-- The environment of entries that are read without a fault. -/
theorem ofEntries_spec {f : Entry → Tag → TypeRecord × List BaseEdge} {es : List Entry}
    (hf : ∀ e ∈ es, e.ReadsAs (f e)) (hnd : (es.map Entry.type).Nodup) (k : Naming) :
    ∃ top k' tagOf, ofEntries es k = (.ok ⟨top, []⟩, k') ∧
      Layer.Adds es f tagOf .fundamental top ∧ Naming.Tags es tagOf k k' := by
  have hord : ∀ e ∈ es, e.type ∉ initial.top.order := fun _ _ h => nomatch h
  obtain ⟨top, k', tagOf, hadd, hadds, htags⟩ := add_spec hf hnd hord k
  refine ⟨top, k', tagOf, ?_, hadds, htags⟩
  rw [ofEntries, checked]
  simp only [bind, StateT.bind, hadd]
  rfl

end Environment

end TypeLedger
