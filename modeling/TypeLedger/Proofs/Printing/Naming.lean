import TypeLedger.Namer

/-!
# Texts that name aggregates

* `Naming.Follows`: a naming has come from another by asking for names.
* `Asks`: a computation asks for names, and does nothing else to the naming. `Asking` says so of the
  way it is put together, and of which tags it asks.
* `Tells`: a computation that asks for names on its way answers a text that depends only on the
  names given in the end. `tells_pure`, `tells_bind` and `tells_name` put such computations
  together.
-/

namespace TypeLedger

namespace Naming

/-- The second naming has come from the first by asking for the names of some tags. -/
inductive Follows (k : Naming) : Naming → Prop
  | refl : Follows k k
  | name {k' : Naming} (h : Follows k k') (t : Tag) : Follows k (name t k').2

theorem Follows.trans {k₁ k₂ k₃ : Naming} (h : k₁.Follows k₂) (h' : k₂.Follows k₃) :
    k₁.Follows k₃ := by
  induction h' with
  | refl => exact h
  | name _ t ih => exact ih.name t

theorem current?_name (t : Tag) (k : Naming) : (name t k).2.current? t = some (name t k).1 := by
  cases t with
  | named n => rfl
  | anonymous s =>
    unfold name
    simp only
    split
    · rename_i n hn
      exact hn
    · simp [current?]

/-- A name that is given is answered, and nothing else happens. -/
theorem name_of_current? {t : Tag} {k : Naming} {n : String} (h : k.current? t = some n) :
    name t k = (n, k) := by
  cases t with
  | named m =>
    obtain rfl := Option.some.inj h
    rfl
  | anonymous s =>
    have hs : k.given.lookup s = some n := h
    simp only [name, hs]

/-- A name once given stays. -/
theorem current?_step (t u : Tag) (k : Naming) {n : String} (h : k.current? u = some n) :
    (name t k).2.current? u = some n := by
  cases t with
  | named m => exact h
  | anonymous s =>
    unfold name
    simp only
    split
    · exact h
    · rename_i hs
      cases u with
      | named m => exact h
      | anonymous s' =>
        have hne : (s' == s) = false := by
          rw [beq_eq_false_iff_ne]
          rintro rfl
          have hl : k.given.lookup s' = some n := h
          rw [hs] at hl
          cases hl
        simp only [current?, List.lookup_cons, hne]
        exact h

theorem Follows.current? {k k' : Naming} (h : k.Follows k') {u : Tag} {n : String}
    (hn : k.current? u = some n) : k'.current? u = some n := by
  induction h with
  | refl => exact hn
  | name _ t ih => exact current?_step t u _ ih

end Naming

variable {α β : Type}

/-- The computation asks for names, and does nothing else to the naming. -/
def Asks (m : StateM Naming α) : Prop := ∀ k : Naming, k.Follows (m k).2

theorem asks_pure (a : α) : Asks (pure a) := fun _ => .refl

theorem asks_bind {m : StateM Naming α} {g : α → StateM Naming β} (hm : Asks m)
    (hg : ∀ a, Asks (g a)) : Asks (m >>= g) :=
  fun k => (hm k).trans (hg (m k).1 (m k).2)

theorem asks_name (t : Tag) : Asks (Naming.name t) := fun _ => .name .refl t

/-- The computation is put together from questions about tags of `T`: for the name of a tag, and
whether it has one. -/
inductive Asking (T : Tag → Prop) : {α : Type} → StateM Naming α → Prop
  | pure {α : Type} (a : α) : Asking T (pure a : StateM Naming α)
  | name {t : Tag} (ht : T t) : Asking T (Naming.name t)
  | look {t : Tag} (ht : T t) : Asking T fun k => (k.current? t, k)
  | bind {α β : Type} {m : StateM Naming α} {g : α → StateM Naming β} (hm : Asking T m)
    (hg : ∀ a, Asking T (g a)) : Asking T (m >>= g)

namespace Asking

variable {T : Tag → Prop} {m : StateM Naming α}

theorem asks (h : Asking T m) : Asks m := by
  induction h with
  | pure a => exact asks_pure a
  | name => exact asks_name _
  | look => exact fun _ => .refl
  | bind _ _ ihm ihg => exact asks_bind ihm ihg

theorem mapM {γ : Type} {f : γ → StateM Naming α} {as : List γ}
    (h : ∀ a ∈ as, Asking T (f a)) : Asking T (as.mapM f) := by
  induction as with
  | nil => exact .pure []
  | cons a as ih =>
    rw [List.mapM_cons]
    exact (h a List.mem_cons_self).bind fun b =>
      (ih fun c hc => h c (List.mem_cons_of_mem _ hc)).bind fun bs => .pure (b :: bs)

end Asking

/-- The computation asks for names only, and answers what `f` says of the names in the end. -/
def Tells (m : StateM Naming α) (f : Naming → α) : Prop :=
  ∀ k, k.Follows (m k).2 ∧ ∀ K, (m k).2.Follows K → (m k).1 = f K

theorem tells_pure (a : α) : Tells (pure a) fun _ => a :=
  fun _ => ⟨.refl, fun _ _ => rfl⟩

theorem tells_bind {m : StateM Naming α} {g : α → StateM Naming β} {f : Naming → α}
    {h : α → Naming → β} (hm : Tells m f) (hg : ∀ a, Tells (g a) (h a)) :
    Tells (m >>= g) fun K => h (f K) K := by
  intro k
  obtain ⟨hk, ha⟩ := hm k
  obtain ⟨hk', hb⟩ := hg (m k).1 (m k).2
  refine ⟨hk.trans hk', fun K hK => ?_⟩
  show (g (m k).1 (m k).2).1 = h (f K) K
  rw [← ha K (hk'.trans hK)]
  exact hb K hK

theorem tells_name (t : Tag) : Tells (Naming.name t) fun K => (K.current? t).getD "" := by
  intro k
  refine ⟨.name .refl t, fun K hK => ?_⟩
  show (Naming.name t k).1 = (K.current? t).getD ""
  rw [hK.current? (Naming.current?_name t k)]
  rfl

theorem Tells.congr {m : StateM Naming α} {f g : Naming → α} (h : Tells m f)
    (hfg : ∀ K, f K = g K) : Tells m g := by
  intro k
  obtain ⟨hk, ha⟩ := h k
  exact ⟨hk, fun K hK => (ha K hK).trans (hfg K)⟩

/-- Computations one after the other. -/
theorem tells_mapM {m : α → StateM Naming β} {f : α → Naming → β} {as : List α}
    (h : ∀ a ∈ as, Tells (m a) (f a)) : Tells (as.mapM m) fun K => as.map fun a => f a K := by
  induction as with
  | nil => exact tells_pure []
  | cons a as ih =>
    rw [List.mapM_cons]
    have ih' := ih fun b hb => h b (List.mem_cons_of_mem _ hb)
    exact tells_bind (h a List.mem_cons_self) fun b => tells_bind ih' fun bs => tells_pure (b :: bs)

end TypeLedger
