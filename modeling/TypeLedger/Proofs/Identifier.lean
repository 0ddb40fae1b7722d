import TypeLedger.Proofs.Numeral
import TypeLedger.TypeId

/-!
# Identifiers that cannot be confused

* `Category.id_inj`: a numbered identifier says its category and its number.
* `Category.id_ne_null`, `not_isFundamental_id`: it is neither the null identifier nor that of a
  fundamental type.
* `Fundamental.eq_of_idOfSpelling_eq`: two spellings of the table of fundamental types have
  different identifiers.
-/

namespace TypeLedger

/-! ## 1. Numbered identifiers -/

namespace Category

theorem word_injective {c d : Category} (h : c.word = d.word) : c = d := by
  revert h
  cases c <;> cases d <;> decide

theorem not_isDigit_of_mem_word {c : Category} {x : Char} (h : x ∈ c.word.toList) :
    x.isDigit = false := by
  have hall : ∀ c : Category, c.word.toList.all (fun x => !x.isDigit) = true := by
    intro c
    cases c <;> decide
  have := List.all_eq_true.1 (hall c) x h
  simpa using this

theorem toList_id (c : Category) (n : Nat) :
    (c.id n).text.toList = c.word.toList ++ Nat.toDigits 10 n := by
  rw [id, String.toList_append, toList_toString]

/-- The letters in front of the number are the category's word. -/
theorem takeWhile_id (c : Category) (n : Nat) :
    (c.id n).text.toList.takeWhile (fun x => !x.isDigit) = c.word.toList := by
  rw [toList_id, List.takeWhile_append_of_pos fun x hx => by simp [not_isDigit_of_mem_word hx]]
  have hd : (Nat.toDigits 10 n).takeWhile (fun x => !x.isDigit) = [] := by
    cases h : Nat.toDigits 10 n with
    | nil => rfl
    | cons x xs =>
      have hx : x.isDigit = true := by
        refine isDigit_of_mem_toString (n := n) ?_
        rw [toList_toString, h]
        exact List.mem_cons_self
      simp [hx]
  rw [hd, List.append_nil]

/-- **A numbered identifier says its category and its number:** `Category.id` is injective. -/
theorem id_inj {c d : Category} {m n : Nat} : c.id m = d.id n ↔ c = d ∧ m = n := by
  constructor
  · intro h
    have hw : c.word.toList = d.word.toList := by
      rw [← takeWhile_id c m, ← takeWhile_id d n, h]
    have hcd : c = d := word_injective (String.toList_injective hw)
    subst hcd
    refine ⟨rfl, toDigits_injective ?_⟩
    have ht : (c.id m).text.toList = (c.id n).text.toList := by rw [h]
    rw [toList_id, toList_id] at ht
    exact List.append_cancel_left ht
  · rintro ⟨rfl, rfl⟩
    rfl

/-- The first letter of a numbered identifier is a capital one. -/
theorem head?_id (c : Category) (n : Nat) :
    ∃ x, (c.id n).text.toList.head? = some x ∧ x.isUpper = true := by
  rw [toList_id]
  cases c <;> exact ⟨_, rfl, by decide⟩

end Category

/-! ## 2. Fixed identifiers -/

theorem Category.id_ne_null (c : Category) (n : Nat) : c.id n ≠ .null := by
  intro h
  obtain ⟨x, hx, hu⟩ := c.head?_id n
  rw [h] at hx
  cases hx
  revert hu
  decide

namespace Fundamental

theorem head?_of_isFundamental {id : TypeId} (h : isFundamental id = true) :
    ∃ x, id.text.toList.head? = some x ∧ x.isUpper = false := by
  have hall : table.all (fun p => p.1.text.toList.head?.any fun x => !x.isUpper) = true := by
    decide
  cases hl : table.lookup id with
  | none => simp [isFundamental, Keyed.has, hl] at h
  | some s =>
    have hm := Keyed.mem_keys_of_lookup hl
    obtain ⟨p, hp, rfl⟩ := List.mem_map.1 hm
    have hx := List.all_eq_true.1 hall p hp
    cases hh : p.1.text.toList.head? with
    | none => simp [hh] at hx
    | some x => exact ⟨x, rfl, by simpa [hh] using hx⟩

theorem not_isFundamental_id (c : Category) (n : Nat) : isFundamental (c.id n) = false := by
  cases h : isFundamental (c.id n) with
  | false => rfl
  | true =>
    obtain ⟨x, hx, hu⟩ := c.head?_id n
    obtain ⟨y, hy, hl⟩ := head?_of_isFundamental h
    rw [hx] at hy
    cases hy
    rw [hu] at hl
    cases hl

theorem not_isFundamental_null : isFundamental .null = false := by decide

/-- The spelling is one of the table of fundamental types. -/
def Listed (spelling : String) : Prop := spelling ∈ table.map Prod.snd

instance (spelling : String) : Decidable (Listed spelling) :=
  inferInstanceAs (Decidable (_ ∈ _))

/-- **Two `Listed` spellings have different identifiers** (`idOfSpelling`). -/
theorem eq_of_idOfSpelling_eq {s t : String} (hs : Listed s) (ht : Listed t)
    (h : idOfSpelling s = idOfSpelling t) : s = t := by
  have hall : ∀ s ∈ table.map Prod.snd, ∀ t ∈ table.map Prod.snd,
      idOfSpelling s = idOfSpelling t → s = t := by
    decide
  exact hall s hs t ht h

end Fundamental

end TypeLedger
