import Mathlib.Data.List.Induction
import Mathlib.Data.Nat.Digits.Defs
import TypeLedger.Proofs.Lexing.Words
import TypeLedger.Proofs.Numeral

/-!
# Numbers

* `Text.positional`: the value of some digits in a base. `valueBelow?_eq_some_iff`: reading digits
  gives this value, however many they are, if it is below the bound.
* `Numeral`: the three ways to write a number, and the number that each means.
* `numberValue?_eq_some_iff`: a word is read as a number if it is a numeral without its suffix.
* `scan_number`: what begins with a digit is read as a word, which is a number or an error.
-/

namespace TypeLedger

/-! ## 1. Positional notation -/

namespace Text

/-- The value of some digits in a base, the digit of the highest value first. -/
def positional (base : Nat) (cs : List Char) : Nat :=
  Nat.ofDigits base (cs.reverse.map fun c => (digitValue c).getD 0)

theorem positional_concat (base : Nat) (cs : List Char) (c : Char) :
    positional base (cs ++ [c]) = positional base cs * base + (digitValue c).getD 0 := by
  rw [positional, List.reverse_append, List.reverse_singleton, List.singleton_append, List.map_cons,
    Nat.ofDigits_cons, Nat.add_comm, Nat.mul_comm]
  rfl

theorem valueFrom?_append (base v : Nat) (cs ds : List Char) :
    valueFrom? base v (cs ++ ds) = (valueFrom? base v cs).bind fun w => valueFrom? base w ds := by
  induction cs generalizing v with
  | nil => rfl
  | cons c cs ih =>
    rw [List.cons_append, valueFrom?, valueFrom?]
    cases digit? base c with
    | none => rfl
    | some d => exact ih _

theorem digit?_eq_some_iff {base : Nat} {c : Char} {d : Nat} : digit? base c = some d ↔
    (digit? base c).isSome = true ∧ d = (digitValue c).getD 0 := by
  unfold digit?
  cases hd : digitValue c with
  | none => simp
  | some v =>
    simp only [Option.filter_some, Option.getD_some]
    split
    · simp [eq_comm]
    · simp

/-- Digits are read as their value. The induction is on the last digit, which the value so far is
multiplied for. -/
theorem valueFrom?_eq_some_iff {base : Nat} {cs : List Char} {n : Nat} :
    valueFrom? base 0 cs = some n ↔
      (∀ c ∈ cs, (digit? base c).isSome = true) ∧ n = positional base cs := by
  induction cs using List.reverseRecOn generalizing n with
  | nil => exact ⟨fun h => ⟨nofun, (Option.some.inj h).symm⟩, fun h => congrArg some h.2.symm⟩
  | append_singleton cs c ih =>
    rw [valueFrom?_append, positional_concat, List.forall_mem_append, List.forall_mem_singleton]
    constructor
    · intro h
      obtain ⟨w, hw, h⟩ := Option.bind_eq_some_iff.1 h
      obtain ⟨d, hd, h⟩ := Option.bind_eq_some_iff.1 h
      obtain ⟨hcs, rfl⟩ := ih.1 hw
      obtain ⟨hc, rfl⟩ := digit?_eq_some_iff.1 hd
      exact ⟨⟨hcs, hc⟩, (Option.some.inj h).symm⟩
    · rintro ⟨⟨hcs, hc⟩, rfl⟩
      rw [ih.2 ⟨hcs, rfl⟩, Option.bind_some, valueFrom?, digit?_eq_some_iff.2 ⟨hc, rfl⟩]
      rfl

/-- **Digits are read as the number they stand for,** if there is one (`positional`) and the number
is below the bound. -/
theorem valueBelow?_eq_some_iff {base bound : Nat} {cs : List Char} {n : Nat} :
    valueBelow? base bound cs = some n ↔
      cs ≠ [] ∧ (∀ c ∈ cs, (digit? base c).isSome = true) ∧ n = positional base cs ∧ n < bound := by
  rw [valueBelow?, Option.filter_eq_some_iff, value?, decide_eq_true_iff]
  cases cs with
  | nil => simp
  | cons c cs => simp [valueFrom?_eq_some_iff, and_assoc]

end Text

/-! ## 2. Numerals -/

/-- The letters that may stand behind the digits of a number. -/
def suffixLetters : List Char := ['u', 'U', 'l', 'L']

/-- The word `w` is `d` with suffix letters behind it, and has no more of them at its end. -/
def Trims (w d : List Char) : Prop :=
  ∃ suffix, w = d ++ suffix ∧ (∀ c ∈ suffix, c ∈ suffixLetters) ∧
    ∀ c ∈ d.getLast?, c ∉ suffixLetters

theorem isSuffixChar_iff {c : Char} : isSuffixChar c = true ↔ c ∈ suffixLetters := by
  simp [isSuffixChar, suffixLetters, or_assoc]

/-- The letters at the end of a word are cut off, all of them. -/
theorem trims_dropSuffix (w : List Char) : Trims w (dropSuffix w) := by
  refine ⟨(w.reverse.takeWhile isSuffixChar).reverse, ?_, fun c hc => ?_, fun c hc => ?_⟩
  · rw [dropSuffix, ← List.reverse_append, List.takeWhile_append_dropWhile, List.reverse_reverse]
  · exact isSuffixChar_iff.1 (List.all_eq_true.1 List.all_takeWhile c (List.mem_reverse.1 hc))
  · rw [dropSuffix, List.getLast?_reverse] at hc
    intro hs
    have hlast := List.head?_dropWhile_not isSuffixChar w.reverse
    rw [Option.mem_def.1 hc] at hlast
    exact absurd (isSuffixChar_iff.2 hs) (by simpa using hlast)

/-- The ways to write a number: with digits behind `0x`, with octal digits behind a zero, or with
decimal digits, the first of which is no zero, or the only one. -/
inductive Numeral : List Char → Nat → Prop
  | hexadecimal {x : Char} {ds : List Char} (hx : x = 'x' ∨ x = 'X') (hne : ds ≠ [])
      (hd : ∀ c ∈ ds, (Text.digit? 16 c).isSome = true) :
      Numeral ('0' :: x :: ds) (Text.positional 16 ds)
  | octal {ds : List Char} (hne : ds ≠ []) (hd : ∀ c ∈ ds, (Text.digit? 8 c).isSome = true) :
      Numeral ('0' :: ds) (Text.positional 8 ds)
  | decimal {ds : List Char} (hne : ds ≠ []) (hd : ∀ c ∈ ds, (Text.digit? 10 c).isSome = true)
      (hz : ds = ['0'] ∨ ds.head? ≠ some '0') : Numeral ds (Text.positional 10 ds)

/-- The first digit is no zero, or the only one, unless a zero stands in front of something. -/
theorem no_leading_zero_iff {ds : List Char} :
    (ds = ['0'] ∨ ds.head? ≠ some '0') ↔ ∀ c cs, ds ≠ '0' :: c :: cs := by
  constructor
  · rintro (rfl | hz) c cs h
    · cases h
    · exact hz (congrArg List.head? h)
  · intro h
    rcases ds with - | ⟨d, - | ⟨c, cs⟩⟩
    · exact .inr nofun
    · exact (eq_or_ne d '0').imp (fun hd => congrArg (fun d => [d]) hd) fun hd hz =>
        hd (Option.some.inj hz)
    · exact .inr fun hz => h c cs (congrArg (· :: c :: cs) (Option.some.inj hz))

/-- **A word is read as the number of its `Numeral`,** if it is one without its suffix and the
number has 64 bits. -/
theorem numberValue?_eq_some_iff {w : List Char} {n : Nat} :
    numberValue? w = some n ↔ Numeral (dropSuffix w) n ∧ n < Text.size64 := by
  unfold numberValue?
  generalize dropSuffix w = d
  constructor
  · intro h
    split at h
    all_goals obtain ⟨hne, hd, rfl, hn⟩ := Text.valueBelow?_eq_some_iff.1 h
    · exact ⟨.hexadecimal (.inl rfl) hne hd, hn⟩
    · exact ⟨.hexadecimal (.inr rfl) hne hd, hn⟩
    · exact ⟨.octal hne hd, hn⟩
    · rename_i hzero
      exact ⟨.decimal hne hd (no_leading_zero_iff.2 hzero), hn⟩
  · rintro ⟨h, hn⟩
    cases h with
    | hexadecimal hx hne hd =>
      rcases hx with rfl | rfl
      · exact Text.valueBelow?_eq_some_iff.2 ⟨hne, hd, rfl, hn⟩
      · exact Text.valueBelow?_eq_some_iff.2 ⟨hne, hd, rfl, hn⟩
    | @octal ds hne hd =>
      obtain ⟨c, ds, rfl⟩ := List.exists_cons_of_ne_nil hne
      -- no octal digit is taken for the letter of a hexadecimal number
      have hc := hd c List.mem_cons_self
      split
      · rename_i heq
        obtain ⟨rfl, rfl⟩ := List.cons.inj (List.cons.inj heq).2
        cases hc
      · rename_i heq
        obtain ⟨rfl, rfl⟩ := List.cons.inj (List.cons.inj heq).2
        cases hc
      · rename_i heq
        obtain ⟨rfl, rfl⟩ := List.cons.inj (List.cons.inj heq).2
        exact Text.valueBelow?_eq_some_iff.2 ⟨hne, hd, rfl, hn⟩
      · rename_i hzero
        exact absurd rfl (hzero c ds)
    | decimal hne hd hz =>
      have hone := no_leading_zero_iff.1 hz
      split
      · exact absurd rfl (hone _ _)
      · exact absurd rfl (hone _ _)
      · exact absurd rfl (hone _ _)
      · exact Text.valueBelow?_eq_some_iff.2 ⟨hne, hd, rfl, hn⟩

/-! ## 3. Words that begin with a digit -/

/-- A digit begins no literal with quotes and no name. -/
theorem digit_classes {b : UInt8} (h : isDigitByte b = true) : b ≠ asciiByte 'L' ∧
    b ≠ asciiByte '"' ∧ b ≠ asciiByte '\'' ∧ (isLetterByte b || b == asciiByte '_') = false ∧
      isAlnumByte b = true := by
  refine forall_byte (p := fun b => isDigitByte b = true → b ≠ asciiByte 'L' ∧
    b ≠ asciiByte '"' ∧ b ≠ asciiByte '\'' ∧ (isLetterByte b || b == asciiByte '_') = false ∧
      isAlnumByte b = true) ?_ b h
  decide +kernel

/-- What begins with a digit is read up to its last letter or digit. -/
theorem scanToken_of_digit {b : UInt8} (h : isDigitByte b = true) (bs : List UInt8) :
    scanToken b bs = ⟨numberToken ((b :: bs).takeWhile isAlnumByte),
      ((b :: bs).takeWhile isAlnumByte).length⟩ := by
  obtain ⟨hwide, hquote, hchar, hletter, halnum⟩ := digit_classes h
  have hplain : scanToken b bs = scanPlain b bs := by
    unfold scanToken
    split
    · rw [if_neg fun hw => hwide hw.1]
    · rfl
  rw [hplain, scanPlain, if_neg hquote, if_neg hchar,
    if_neg (by rw [hletter]; exact Bool.false_ne_true), if_pos h, List.takeWhile_cons_of_pos halnum]

theorem numberToken_eq_ok_iff {w : List UInt8} {k : TokenKind} : numberToken w = .ok k ↔
    ∃ n : UInt64, Numeral (dropSuffix (w.map byteChar)) n.toNat ∧ k = .intLit n := by
  have hread : ∀ n : UInt64, numberValue? (w.map byteChar) = some n.toNat ↔
      Numeral (dropSuffix (w.map byteChar)) n.toNat := by
    intro n
    rw [numberValue?_eq_some_iff]
    exact and_iff_left n.toNat_lt
  unfold numberToken
  simp only [← hread]
  cases hv : numberValue? (w.map byteChar) with
  | none => exact ⟨nofun, nofun⟩
  | some n =>
    have hlt : n < 2 ^ 64 := (numberValue?_eq_some_iff.1 hv).2
    constructor
    · intro h
      exact ⟨UInt64.ofNat n, by rw [UInt64.toNat_ofNat_of_lt' hlt], (Except.ok.inj h).symm⟩
    · rintro ⟨m, hm, rfl⟩
      obtain rfl := Option.some.inj hm
      exact congrArg (fun n => Except.ok (TokenKind.intLit n)) UInt64.ofNat_toNat

theorem numberToken_eq_error_iff {w : List UInt8} {f : LexFault} :
    numberToken w = .error f ↔
      (∀ n < 2 ^ 64, ¬ Numeral (dropSuffix (w.map byteChar)) n) ∧
        f = .invalidNumber (byteText w) := by
  unfold numberToken
  cases hv : numberValue? (w.map byteChar) with
  | some n =>
    obtain ⟨hn, hlt⟩ := numberValue?_eq_some_iff.1 hv
    exact ⟨nofun, fun h => absurd hn (h.1 n hlt)⟩
  | none =>
    have hnone : ∀ n < 2 ^ 64, ¬ Numeral (dropSuffix (w.map byteChar)) n := by
      intro n hlt hn
      rw [numberValue?_eq_some_iff.2 ⟨hn, hlt⟩] at hv
      cases hv
    exact ⟨fun h => ⟨hnone, (Except.error.inj h).symm⟩, fun h => congrArg Except.error h.2.symm⟩

/-- **A number is the word up to its last letter or digit.** Without its suffix (`Trims`) the word
has to be a `Numeral`, and the token has its value; if there is no value of 64 bits, the error shows
the word. -/
theorem scan_number {b : UInt8} (hb : isDigitByte b = true) (bs : List UInt8) :
    ∃ w d, w = (b :: bs).takeWhile isAlnumByte ∧ Trims (w.map byteChar) d ∧
      (scanToken b bs).width = w.length ∧
      (∀ k, (scanToken b bs).outcome = .ok k ↔ ∃ n : UInt64, Numeral d n.toNat ∧ k = .intLit n) ∧
      (∀ f, (scanToken b bs).outcome = .error f ↔
        (∀ n < 2 ^ 64, ¬ Numeral d n) ∧ f = .invalidNumber (byteText w)) := by
  refine ⟨_, _, rfl, trims_dropSuffix _, ?_, fun k => ?_, fun f => ?_⟩
  · rw [scanToken_of_digit hb]
  · rw [scanToken_of_digit hb, numberToken_eq_ok_iff]
  · rw [scanToken_of_digit hb, numberToken_eq_error_iff]

/-- The hexadecimal number 31, with a suffix of three letters and a mark behind it. -/
def suffixedSource : String := "0x001FuLL;"

theorem scan_number_suffixed :
    isDigitByte (asciiByte '0') = true ∧
      scanToken (asciiByte '0') (suffixedSource.toUTF8.toList.drop 1) = ⟨.ok (.intLit 31), 9⟩ ∧
      ∃ d, Trims "0x001FuLL".toList d ∧ Numeral d 31 := by
  have hdigit : isDigitByte (asciiByte '0') = true := by decide
  obtain ⟨w, d, hw, ht, hwidth, hok, -⟩ := scan_number hdigit (suffixedSource.toUTF8.toList.drop 1)
  obtain rfl : w = "0x001FuLL".toList.map asciiByte := hw.trans (by decide +kernel)
  have houtcome : (scanToken (asciiByte '0') (suffixedSource.toUTF8.toList.drop 1)).outcome =
      .ok (.intLit 31) := by decide +kernel
  have hword : ("0x001FuLL".toList.map asciiByte).map byteChar = "0x001FuLL".toList := by decide
  obtain ⟨n, hn, hk⟩ := (hok _).1 houtcome
  cases hk
  rw [hword] at ht
  refine ⟨hdigit, ?_, d, ht, hn⟩
  rw [← houtcome]
  exact congrArg (Scanned.mk _) hwidth

/-- An eight is no octal digit, whatever stands behind it. -/
example : numberToken ("018".toList.map asciiByte) = .error (.invalidNumber "018") := by
  decide +kernel

end TypeLedger
