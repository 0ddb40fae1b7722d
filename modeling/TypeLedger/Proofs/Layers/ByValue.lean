import TypeLedger.Proofs.Printing.Order
import TypeLedger.Proofs.Printing.Resolves
import Mathlib.Logic.Relation

/-!
# What is held by value

* `Environment.Under`: a record stands under another if that is the qualified form of it, or an
  array of it. `Environment.Holds`: going down from an identifier ends at an aggregate.
* `Environment.aggregateByValue?_eq_some_iff`: the search for the aggregate finds it, and gives up
  exactly where there is none.
-/

namespace TypeLedger.Environment

open Relation

variable {env : Environment} {i j : TypeId} {r : TypeRecord} {seen : List TypeId}

theorem aggregateByValue?_eq (hr : env.lookup? i = some r) (hs : i ∉ seen) :
    env.aggregateByValue? seen i =
      match r.body with
      | .qualified base => env.aggregateByValue? (i :: seen) base
      | .array _ element => env.aggregateByValue? (i :: seen) element
      | .aggregate .. => some i
      | _ => none := by
  rw [aggregateByValue?, dif_neg hs]
  split
  · rename_i h
    rw [hr] at h
    cases h
  · rename_i r' h
    rw [hr] at h
    obtain rfl := Option.some.inj h
    rfl

/-- The first identifier stands for the second one with qualifiers, or for an array of it. -/
def Under (env : Environment) (i j : TypeId) : Prop :=
  env.body? i = some (.qualified j) ∨ ∃ n, env.body? i = some (.array n j)

/-- A value of the first identifier holds the aggregate: it is found under qualifiers and arrays. -/
inductive Holds (env : Environment) : TypeId → TypeId → Prop
  | aggregate {i : TypeId} {b : TypeBody} (hb : env.body? i = some b) (ha : b.IsAggregate) :
    Holds env i i
  | under {i j a : TypeId} (hu : env.Under i j) (h : Holds env j a) : Holds env i a

theorem Under.unique {k : TypeId} (h : env.Under i j) (h' : env.Under i k) : j = k := by
  rcases h with h | ⟨n, h⟩ <;> rcases h' with h' | ⟨m, h'⟩ <;> rw [h] at h' <;> cases h' <;> rfl

/-- Under an aggregate there is nothing. -/
theorem Under.not_aggregate (h : env.Under i j) {b : TypeBody} (hb : env.body? i = some b)
    (ha : b.IsAggregate) : False := by
  obtain ⟨key, tag, complete, ms, bs, rfl⟩ := ha
  rcases h with h | ⟨n, h⟩ <;> rw [hb] at h <;> cases h

/-- The way down to an aggregate never comes back. -/
theorem Holds.not_loop (h : env.Holds i j) : ¬ TransGen env.Under i i := by
  induction h with
  | aggregate hb ha =>
    intro hl
    obtain ⟨k, hk, -⟩ := TransGen.head'_iff.1 hl
    exact hk.not_aggregate hb ha
  | under hu _ ih =>
    intro hl
    obtain ⟨k, hk, hback⟩ := TransGen.head'_iff.1 hl
    obtain rfl := hu.unique hk
    exact ih (TransGen.tail' hback hu)

/-- The search finds what is held by value. All that it has seen lies above. -/
theorem Holds.aggregateByValue? (h : env.Holds i j)
    (hs : ∀ s ∈ seen, TransGen env.Under s i) : env.aggregateByValue? seen i = some j := by
  induction h generalizing seen with
  | @aggregate i b hb ha =>
    obtain ⟨r, hr, rfl⟩ := Option.map_eq_some_iff.1 hb
    obtain ⟨key, tag, complete, ms, bs, hbody⟩ := ha
    have hn : i ∉ seen := fun hm =>
      (Holds.aggregate hb ⟨key, tag, complete, ms, bs, hbody⟩).not_loop (hs i hm)
    rw [aggregateByValue?_eq hr hn, hbody]
  | @under i k a hu h ih =>
    have hn : i ∉ seen := fun hm => (Holds.under hu h).not_loop (hs i hm)
    have hseen : ∀ s ∈ i :: seen, TransGen env.Under s k := by
      intro s hm
      rcases List.mem_cons.1 hm with rfl | hm
      · exact .single hu
      · exact (hs s hm).tail hu
    rcases hu with hb | ⟨n, hb⟩ <;> obtain ⟨r, hr, hbody⟩ := Option.map_eq_some_iff.1 hb <;>
      rw [aggregateByValue?_eq hr hn, hbody] <;> exact ih hseen

theorem holds_of_aggregateByValue? (h : env.aggregateByValue? seen i = some j) :
    env.Holds i j := by
  fun_induction env.aggregateByValue? seen i with
  | case1 => cases h
  | case2 => cases h
  | case3 seen i hs r hr _ base hb ih =>
    exact .under (.inl (by rw [body?_of_lookup hr, hb])) (ih h)
  | case4 seen i hs r hr _ n element hb ih =>
    exact .under (.inr ⟨n, by rw [body?_of_lookup hr, hb]⟩) (ih h)
  | case5 seen i hs r hr _ key tag complete ms bs hb =>
    cases h
    exact .aggregate (body?_of_lookup hr) ⟨key, tag, complete, ms, bs, hb⟩
  | case6 => cases h

/-- **The search finds exactly what is held by value** (`Holds`). -/
theorem aggregateByValue?_eq_some_iff : env.aggregateByValue? [] i = some j ↔ env.Holds i j :=
  ⟨holds_of_aggregateByValue?, fun h => h.aggregateByValue? fun _ hm => (nomatch hm)⟩

end TypeLedger.Environment
