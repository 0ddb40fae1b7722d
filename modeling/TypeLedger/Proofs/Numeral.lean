import TypeLedger.Text.Numeral

/-!
# Decimal numbers

* `toString_injective`: two numbers with one decimal text are equal.
* `valueBelow?_toDigits`: the digits of a number are read as the number; `word64?_toString` and
  `word32?_toString` say so of the texts of tables.
* `Text.IsNumberBelow`: what the text of a number looks like. `unsigned?_isSome_iff`: these texts
  are read, and no others.
-/

namespace TypeLedger

/-! ## 1. Digits -/

theorem toList_toString (n : Nat) : (toString n).toList = Nat.toDigits 10 n := by
  rw [Nat.toString_eq_ofList_toDigits, String.toList_ofList]

theorem isDigit_of_mem_toString {n : Nat} {x : Char} (h : x ∈ (toString n).toList) :
    x.isDigit = true := by
  rw [toList_toString] at h
  exact Nat.isDigit_of_mem_toDigits (by decide) (by decide) h

theorem toDigits_injective {m n : Nat} (h : Nat.toDigits 10 m = Nat.toDigits 10 n) : m = n := by
  have hm := Nat.ofDigitChars_ten_toDigits (n := m)
  rw [h, Nat.ofDigitChars_ten_toDigits] at hm
  exact hm.symm

theorem toString_injective {m n : Nat} (h : toString m = toString n) : m = n := by
  have h' := congrArg String.toList h
  rw [toList_toString, toList_toString] at h'
  exact toDigits_injective h'

/-! ## 2. Reading digits -/

theorem digit?_ten {c : Char} (h : c.isDigit = true) :
    Text.digit? 10 c = some (c.toNat - '0'.toNat) := by
  have hle : '0' ≤ c ∧ c ≤ '9' := by
    simpa [Char.isDigit, Char.le_def] using h
  have hlt : c.toNat - '0'.toNat < 10 := by
    have h9 : c.val.toNat ≤ '9'.val.toNat := UInt32.le_iff_toNat_le.1 (Char.le_def.1 hle.2)
    have hc : c.toNat = c.val.toNat := rfl
    have hv : '9'.val.toNat = 57 := rfl
    have hz : '0'.toNat = 48 := rfl
    omega
  rw [Text.digit?, Text.digitValue, if_pos hle, Option.filter_some, if_pos (by simpa using hlt)]

theorem valueFrom?_ten {cs : List Char} (h : ∀ c ∈ cs, c.isDigit = true) (v : Nat) :
    Text.valueFrom? 10 v cs = some (Nat.ofDigitChars 10 cs v) := by
  induction cs generalizing v with
  | nil => rfl
  | cons c cs ih =>
    obtain ⟨hc, hcs⟩ := List.forall_mem_cons.1 h
    rw [Text.valueFrom?, digit?_ten hc, Option.bind_some, ih hcs, Nat.ofDigitChars_cons,
      Nat.mul_comm]

/-- The digits of a number are read as the number. -/
theorem valueBelow?_toDigits {n bound : Nat} (h : n < bound) :
    Text.valueBelow? 10 bound (Nat.toDigits 10 n) = some n := by
  have hd : ∀ c ∈ Nat.toDigits 10 n, c.isDigit = true :=
    fun c hc => Nat.isDigit_of_mem_toDigits (by decide) (by decide) hc
  have hne : (Nat.toDigits 10 n).isEmpty = false := by simp
  rw [Text.valueBelow?, Text.value?, hne, valueFrom?_ten hd, Nat.ofDigitChars_ten_toDigits]
  simp [Option.filter_some, h]

/-- The first digit of a positive number is not zero. -/
theorem head?_toDigits {n : Nat} (h : 0 < n) : (Nat.toDigits 10 n).head? ≠ some '0' := by
  induction n using Nat.strongRecOn with
  | ind n ih =>
    rw [Nat.toDigits_eq_if (by decide)]
    split
    · rename_i hlt
      have hall : ∀ m < 10, 0 < m → [Nat.digitChar m].head? ≠ some '0' := by decide
      exact hall n hlt h
    · rename_i hge
      have hrec := ih (n / 10) (by omega) (by omega)
      cases hl : Nat.toDigits 10 (n / 10) with
      | nil => exact absurd hl Nat.toDigits_ne_nil
      | cons c cs =>
        rw [hl] at hrec
        exact hrec

/-! ## 3. Numbers of a table -/

theorem unsigned?_toString {n : Nat} (bound : Nat) (h : n < bound) :
    Text.unsigned? bound (toString n) = some n := by
  have hl := toList_toString n
  have hv := valueBelow?_toDigits h
  rw [← hl] at hv
  unfold Text.unsigned?
  split
  · rename_i cs hcs
    have hd : ('+' : Char).isDigit = true := isDigit_of_mem_toString (n := n) (by rw [hcs]; simp)
    cases hd
  · exact hv

theorem word64?_toString (n : UInt64) : Text.word64? (toString n) = some n := by
  have hs : toString n = toString n.toNat := rfl
  rw [Text.word64?, hs, unsigned?_toString Text.size64 n.toNat_lt]
  simp

theorem word32?_toString (n : UInt32) : Text.word32? (toString n) = some n := by
  have hs : toString n = toString n.toNat := rfl
  rw [Text.word32?, hs, unsigned?_toString Text.size32 n.toNat_lt]
  simp

/-! ## 4. Which texts are numbers -/

/-- What is no decimal digit has no value as one. -/
theorem digit?_ten_eq_none {c : Char} (h : c.isDigit = false) : Text.digit? 10 c = none := by
  have hnot : ¬ ('0' ≤ c ∧ c ≤ '9') := by
    intro hle
    have hd : c.isDigit = true := by simpa [Char.isDigit, Char.le_def] using hle
    rw [h] at hd
    cases hd
  rw [Text.digit?, Text.digitValue, if_neg hnot]
  split
  · simp
  · split
    · simp
    · rfl

theorem valueFrom?_ten_isSome {cs : List Char} {v : Nat}
    (h : (Text.valueFrom? 10 v cs).isSome = true) : ∀ c ∈ cs, c.isDigit = true := by
  induction cs generalizing v with
  | nil => exact nofun
  | cons c cs ih =>
    rw [Text.valueFrom?] at h
    cases hc : c.isDigit with
    | false =>
      rw [digit?_ten_eq_none hc] at h
      cases h
    | true =>
      rw [digit?_ten hc] at h
      exact List.forall_mem_cons.2 ⟨hc, ih h⟩

/-- The text is a decimal number below a bound: some digits, with or without a plus sign in
front. -/
def Text.IsNumberBelow (bound : Nat) (s : String) : Prop :=
  ∃ cs : List Char, (s.toList = cs ∨ s.toList = '+' :: cs) ∧ cs ≠ [] ∧
    (∀ c ∈ cs, c.isDigit = true) ∧ Nat.ofDigitChars 10 cs 0 < bound

theorem valueBelow?_ten_isSome_iff {bound : Nat} {cs : List Char} :
    (Text.valueBelow? 10 bound cs).isSome = true ↔
      cs ≠ [] ∧ (∀ c ∈ cs, c.isDigit = true) ∧ Nat.ofDigitChars 10 cs 0 < bound := by
  cases cs with
  | nil => simp [Text.valueBelow?, Text.value?]
  | cons c cs =>
    have hvalue : Text.value? 10 (c :: cs) = Text.valueFrom? 10 0 (c :: cs) := rfl
    rw [Text.valueBelow?, hvalue]
    constructor
    · intro h
      obtain ⟨n, hn⟩ := Option.isSome_iff_exists.1 h
      obtain ⟨hfrom, hlt⟩ := Option.filter_eq_some_iff.1 hn
      have hd := valueFrom?_ten_isSome (Option.isSome_of_eq_some hfrom)
      rw [valueFrom?_ten hd] at hfrom
      rw [← Option.some.inj hfrom] at hlt
      exact ⟨List.cons_ne_nil _ _, hd, by simpa using hlt⟩
    · rintro ⟨-, hd, hlt⟩
      rw [valueFrom?_ten hd, Option.filter_some, if_pos (by simpa using hlt)]
      rfl

/-- **The texts that are read as numbers** are those that are `IsNumberBelow` the bound. -/
theorem unsigned?_isSome_iff {bound : Nat} {s : String} :
    (Text.unsigned? bound s).isSome = true ↔ Text.IsNumberBelow bound s := by
  unfold Text.unsigned? Text.IsNumberBelow
  split
  · rename_i cs hs
    rw [valueBelow?_ten_isSome_iff, hs]
    constructor
    · exact fun h => ⟨cs, .inr rfl, h⟩
    · rintro ⟨ds, rfl | hds, hne, hd, hlt⟩
      · exact absurd (hd '+' List.mem_cons_self) (by decide)
      · obtain rfl := (List.cons.inj hds).2
        exact ⟨hne, hd, hlt⟩
  · rename_i hplus
    rw [valueBelow?_ten_isSome_iff]
    constructor
    · exact fun h => ⟨_, .inl rfl, h⟩
    · rintro ⟨ds, hds | hds, h⟩
      · exact hds ▸ h
      · exact absurd hds (hplus ds)

instance (bound : Nat) (s : String) : Decidable (Text.IsNumberBelow bound s) :=
  decidable_of_iff _ unsigned?_isSome_iff

end TypeLedger
