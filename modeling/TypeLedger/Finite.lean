/-!
# Counting what is left

* A search over a list of candidates ends because each step takes one of them out of those that are
  still open. `length_filter_lt` says so of the number of open ones.
-/

namespace TypeLedger.Finite

variable {α : Type}

/-- What satisfies a stronger condition is not more. -/
theorem length_filter_le {p q : α → Bool} {l : List α} (h : ∀ a ∈ l, q a = true → p a = true) :
    (l.filter q).length ≤ (l.filter p).length := by
  induction l with
  | nil => simp
  | cons a l ih =>
    have ih' := ih fun b hb => h b (List.mem_cons_of_mem _ hb)
    by_cases hq : q a = true
    · simp [hq, h a List.mem_cons_self hq, ih']
    · by_cases hp : p a = true
      · simp [hq, hp]; omega
      · simp [hq, hp, ih']

/-- **What satisfies a stronger condition is less,** if some element satisfies only the weaker
one. -/
theorem length_filter_lt {p q : α → Bool} {l : List α} (h : ∀ a ∈ l, q a = true → p a = true)
    {x : α} (hx : x ∈ l) (hp : p x = true) (hq : q x = false) :
    (l.filter q).length < (l.filter p).length := by
  induction l with
  | nil => simp at hx
  | cons a l ih =>
    have hl : ∀ b ∈ l, q b = true → p b = true := fun b hb => h b (List.mem_cons_of_mem _ hb)
    rcases List.mem_cons.1 hx with rfl | hx
    · have := length_filter_le hl
      simp [hp, hq]; omega
    · have ih' := ih hl hx
      by_cases hqa : q a = true
      · simp [hqa, h a List.mem_cons_self hqa, ih']
      · by_cases hpa : p a = true
        · simp [hqa, hpa]; omega
        · simp [hqa, hpa, ih']

end TypeLedger.Finite
