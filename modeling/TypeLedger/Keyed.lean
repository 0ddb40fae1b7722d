/-!
# Lists of pairs, one for each key

* A table of this library is a list of pairs, looked up with `List.lookup`.
* `Keyed.set` gives a key its value: an old value is replaced where it stands, a new key goes to the
  end. So the keys keep the order in which they first came.
-/

namespace TypeLedger.Keyed

variable {α β : Type} [BEq α]

/-- Gives the key `k` the value `v`. -/
def set (k : α) (v : β) : List (α × β) → List (α × β)
  | [] => [(k, v)]
  | (k', v') :: rest => if k == k' then (k', v) :: rest else (k', v') :: set k v rest

/-- The key `k` has a value. -/
def has (k : α) (l : List (α × β)) : Bool := (l.lookup k).isSome

variable [LawfulBEq α]

@[simp] theorem lookup_set_self (k : α) (v : β) (l : List (α × β)) :
    (set k v l).lookup k = some v := by
  induction l with
  | nil => simp [set]
  | cons p l ih =>
    obtain ⟨k', v'⟩ := p
    by_cases h : k = k'
    · subst h; simp [set]
    · have hb : (k == k') = false := by simpa using h
      simp [set, hb, List.lookup_cons, ih]

theorem lookup_set_of_ne {k j : α} (h : j ≠ k) (v : β) (l : List (α × β)) :
    (set k v l).lookup j = l.lookup j := by
  induction l with
  | nil =>
    have hb : (j == k) = false := by simpa using h
    simp [set, List.lookup_cons, hb]
  | cons p l ih =>
    obtain ⟨k', v'⟩ := p
    by_cases hk : k = k'
    · subst hk
      have hb : (j == k) = false := by simpa using h
      simp [set, List.lookup_cons, hb]
    · have hb : (k == k') = false := by simpa using hk
      simp only [set, hb, Bool.false_eq_true, ↓reduceIte, List.lookup_cons, ih]

/-- A value that the key has already changes nothing. -/
theorem set_of_lookup {k : α} {v : β} {l : List (α × β)} (h : l.lookup k = some v) :
    set k v l = l := by
  induction l with
  | nil => cases h
  | cons p l ih =>
    obtain ⟨k', v'⟩ := p
    by_cases hk : k = k'
    · subst hk
      obtain rfl : v' = v := by simpa using h
      simp [set]
    · have hb : (k == k') = false := by simpa using hk
      rw [List.lookup_cons, hb] at h
      simp [set, hb, ih h]

theorem has_set (j k : α) (v : β) (l : List (α × β)) : has j (set k v l) = (j == k || has j l) := by
  by_cases h : j = k
  · subst h; simp [has]
  · have hb : (j == k) = false := by simpa using h
    rw [has, lookup_set_of_ne h, hb, Bool.false_or, has]

theorem mem_of_lookup {k : α} {v : β} {l : List (α × β)} (h : l.lookup k = some v) :
    (k, v) ∈ l := by
  obtain ⟨as, bs, hab, -⟩ := List.lookup_eq_some_iff.1 h
  rw [hab]
  exact List.mem_append_right _ List.mem_cons_self

theorem mem_keys_of_lookup {k : α} {v : β} {l : List (α × β)} (h : l.lookup k = some v) :
    k ∈ l.map Prod.fst :=
  List.mem_map_of_mem (mem_of_lookup h)

/-- A key has a value exactly if it is among the keys. -/
theorem has_iff {k : α} {l : List (α × β)} : has k l = true ↔ k ∈ l.map Prod.fst := by
  induction l with
  | nil => simp [has]
  | cons p l ih =>
    obtain ⟨k', v⟩ := p
    by_cases h : k = k'
    · simp [has, h]
    · have hb : (k == k') = false := by simpa using h
      rw [has, List.lookup_cons, hb, ← has, ih, List.map_cons, List.mem_cons]
      simp [h]

/-- In a list without repeated keys every pair is found. -/
theorem lookup_of_mem {l : List (α × β)} (h : (l.map Prod.fst).Nodup) {k : α} {v : β}
    (hm : (k, v) ∈ l) : l.lookup k = some v := by
  induction l with
  | nil => cases hm
  | cons p l ih =>
    obtain ⟨hp, hl⟩ := List.nodup_cons.1 h
    rcases List.mem_cons.1 hm with rfl | hm
    · simp
    · have hne : k ≠ p.1 := fun he => hp (he ▸ List.mem_map_of_mem hm)
      have hb : (k == p.1) = false := by simpa using hne
      rw [List.lookup_cons, hb]
      exact ih hl hm

/-- A new key goes behind the others. -/
theorem keys_set (k : α) (v : β) (l : List (α × β)) :
    (set k v l).map Prod.fst = if has k l then l.map Prod.fst else l.map Prod.fst ++ [k] := by
  induction l with
  | nil => rfl
  | cons p l ih =>
    obtain ⟨k', v'⟩ := p
    by_cases h : k = k'
    · subst h
      simp [set, has]
    · have hb : (k == k') = false := by simpa using h
      have hhas : has k ((k', v') :: l) = has k l := by rw [has, List.lookup_cons, hb, ← has]
      rw [set, hb, hhas]
      simp only [Bool.false_eq_true, if_false, List.map_cons, ih]
      split <;> rfl

theorem nodup_keys_set {l : List (α × β)} (h : (l.map Prod.fst).Nodup) (k : α) (v : β) :
    ((set k v l).map Prod.fst).Nodup := by
  rw [keys_set]
  split
  · exact h
  · rename_i hk
    refine List.nodup_append.2 ⟨h, List.nodup_cons.2 ⟨List.not_mem_nil, List.nodup_nil⟩, ?_⟩
    intro i hi j hj hij
    rw [List.mem_singleton.1 hj] at hij
    exact hk (has_iff.2 (hij ▸ hi))

end TypeLedger.Keyed
