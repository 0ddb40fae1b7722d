import TypeLedger.Proofs.Lexing.Behind

/-!
# What a scan has read

* `fault_scanString`, `fault_scanChar`: the faults of the two literals. Both read escapes, and an
  escape that the end of the text cuts off is the fault of a string, so a character literal may have
  it too.
* `ScannedBytes`: which bytes a token has, or what has been read of none. Only a string literal goes
  over the end of a line, and a literal that fails; only literals and comments have number signs in
  them.
* `scannedBytes_scanToken`: every scan has read such bytes.
-/

namespace TypeLedger

/-! ## 1. Faults -/

/-- The fault of a literal. -/
def LexFault.isLiteral : LexFault → Bool
  | .unterminatedString | .unterminatedChar | .emptyChar | .invalidEscape _ => true
  | .unterminatedComment | .invalidByte _ | .invalidNumber _ => false

theorem Scanned.outcome_behind_eq_error {α β : Type} {n : Nat} {g : α → β} {s : Scanned α}
    {f : LexFault} : (s.behind n g).outcome = .error f ↔ s.outcome = .error f := by
  obtain ⟨_ | _, m⟩ := s
  · exact ⟨fun h => by cases h; rfl, fun h => by cases h; rfl⟩
  · exact ⟨nofun, nofun⟩

/-- An escape is cut off by the end of the text, or its first byte begins none. -/
theorem fault_scanEscape {bs : List UInt8} {f : LexFault} (h : (scanEscape bs).outcome = .error f) :
    (bs = [] ∧ f = .unterminatedString) ∨ ∃ b, f = .invalidEscape b := by
  unfold scanEscape at h
  split at h
  · exact .inl ⟨rfl, (Except.error.inj h).symm⟩
  rename_i b bs
  split at h
  · cases h
  split at h
  · dsimp only at h
    split at h
    · exact .inr ⟨b, (Except.error.inj h).symm⟩
    · cases h
  split at h
  · cases h
  · exact .inr ⟨b, (Except.error.inj h).symm⟩

/-- The faults of a string literal, from behind its quote. -/
theorem fault_scanString {bs : List UInt8} {f : LexFault} (h : (scanString bs).outcome = .error f) :
    f = .unterminatedString ∨ ∃ b, f = .invalidEscape b := by
  fun_induction scanString bs with
  | case1 => exact .inl (Except.error.inj h).symm
  | case2 => cases h
  | case3 => exact .inl (Except.error.inj h).symm
  | case4 bs hhead _ _ ih => exact ih (Scanned.outcome_behind_eq_error.1 h)
  | case5 bs hhead escape f' he =>
    cases h
    exact (fault_scanEscape he).imp_left And.right
  | case6 bs hhead escape v he _ _ ih => exact ih (Scanned.outcome_behind_eq_error.1 h)
  | case7 b bs _ _ _ ih => exact ih (Scanned.outcome_behind_eq_error.1 h)

theorem fault_closeChar {v : UInt8} {bs : List UInt8} {f : LexFault}
    (h : (closeChar v bs).outcome = .error f) : f = .unterminatedChar := by
  unfold closeChar at h
  split at h
  · cases h
  · exact (Except.error.inj h).symm

/-- The faults of a character literal, from behind its quote. -/
theorem fault_scanChar {bs : List UInt8} {f : LexFault} (h : (scanChar bs).outcome = .error f) :
    f = .unterminatedChar ∨ f = .emptyChar ∨ (∃ b, f = .invalidEscape b) ∨
      bs = [asciiByte '\\'] ∧ f = .unterminatedString := by
  unfold scanChar at h
  split at h
  · exact .inl (Except.error.inj h).symm
  rename_i b bs
  split at h
  · exact .inr (.inl (Except.error.inj h).symm)
  split at h
  · exact .inl (Except.error.inj h).symm
  split at h
  · rename_i hslash
    dsimp only at h
    split at h
    · rename_i f' he
      cases h
      obtain ⟨rfl, rfl⟩ | hescape := fault_scanEscape he
      · exact .inr (.inr (.inr ⟨by rw [hslash], rfl⟩))
      · exact .inr (.inr (.inl hescape))
    · exact .inl (fault_closeChar (Scanned.outcome_behind_eq_error.1 h))
  · exact .inl (fault_closeChar (Scanned.outcome_behind_eq_error.1 h))

theorem fault_scanMark {b : UInt8} {bs : List UInt8} {f : LexFault}
    (h : (scanMark b bs).outcome = .error f) : f = .invalidByte b := by
  unfold scanMark at h
  split at h
  · cases h
  split at h
  · cases h
  split at h
  · cases h
  · exact (Except.error.inj h).symm

theorem fault_numberToken {word : List UInt8} {f : LexFault} (h : numberToken word = .error f) :
    f = .invalidNumber (byteText word) := by
  unfold numberToken at h
  split at h
  · cases h
  · exact (Except.error.inj h).symm

/-! ## 2. Bytes -/

/-- A byte of a word, a number or a mark. -/
def isTokenByte (b : UInt8) : Bool := isWordByte b || (byteToken? b).isSome

/-- The front of a list is as long as it says. -/
theorem take_length_takeWhile (p : UInt8 → Bool) (bs : List UInt8) :
    bs.take (bs.takeWhile p).length = bs.takeWhile p :=
  (List.prefix_iff_eq_take.1 (List.takeWhile_prefix p)).symm

/-- No byte of a class is a line feed, if a line feed is not of the class. -/
theorem lineFeed_not_mem_takeWhile {p : UInt8 → Bool} (hp : p lineFeed = false) (bs : List UInt8) :
    lineFeed ∉ bs.takeWhile p := by
  intro h
  have := List.all_eq_true.1 List.all_takeWhile _ h
  rw [hp] at this
  cases this

theorem lineFeed_not_mem_scanEscape {bs : List UInt8} {v : UInt8} {n : Nat}
    (h : scanEscape bs = .ok v n) : lineFeed ∉ bs.take n := by
  unfold scanEscape at h
  split at h
  · cases h
  rename_i b bs
  split at h
  · rename_i hletter
    obtain ⟨-, rfl⟩ := scanned_ok_inj h
    rw [List.take_succ_cons, List.take_zero, List.mem_singleton]
    rintro rfl
    cases hletter
  split at h
  · rename_i hx
    subst hx
    dsimp only at h
    split at h
    · cases h
    · obtain ⟨-, rfl⟩ := scanned_ok_inj h
      rw [Nat.add_comm, List.take_succ_cons, take_length_takeWhile, List.mem_cons, not_or]
      exact ⟨by decide, lineFeed_not_mem_takeWhile (by decide) bs⟩
  split at h
  · rename_i hoctal
    obtain ⟨-, rfl⟩ := scanned_ok_inj h
    have hdigits : (bs.take 2).takeWhile isOctalByte <+: bs :=
      (List.takeWhile_prefix _).trans (List.take_prefix 2 bs)
    rw [List.length_cons, List.take_succ_cons, ← List.prefix_iff_eq_take.1 hdigits, List.mem_cons,
      not_or]
    refine ⟨?_, lineFeed_not_mem_takeWhile (by decide) _⟩
    rintro rfl
    exact absurd hoctal (by decide)
  · cases h

theorem lineFeed_not_mem_closeChar {bs : List UInt8} {w v : UInt8} {n : Nat}
    (h : closeChar w bs = .ok v n) : lineFeed ∉ bs.take n := by
  obtain ⟨q, rfl, -, rfl⟩ := eq_cons_of_closeChar h
  rw [List.take_succ_cons, List.take_zero, List.mem_singleton]
  decide

/-- **A character literal keeps to its line:** `scanChar` takes no line feed. -/
theorem lineFeed_not_mem_scanChar {bs : List UInt8} {v : UInt8} {n : Nat}
    (h : scanChar bs = .ok v n) : lineFeed ∉ bs.take n := by
  unfold scanChar at h
  split at h
  · cases h
  rename_i b bs
  split at h
  · cases h
  split at h
  · cases h
  rename_i hfeed
  split at h
  · rcases he : scanEscape bs with ⟨f | w, m⟩
    · rw [he] at h
      cases h
    · rw [he] at h
      obtain ⟨_, m', hc, -, rfl⟩ := Scanned.eq_ok_of_behind h
      dsimp only at hc ⊢
      rw [Nat.add_comm 1 m, Nat.add_right_comm, List.take_succ_cons, List.take_add, List.mem_cons,
        List.mem_append, not_or, not_or]
      exact ⟨Ne.symm hfeed, lineFeed_not_mem_scanEscape he, lineFeed_not_mem_closeChar hc⟩
  · obtain ⟨_, m', hc, -, rfl⟩ := Scanned.eq_ok_of_behind h
    rw [Nat.add_comm, List.take_succ_cons, List.mem_cons, not_or]
    exact ⟨Ne.symm hfeed, lineFeed_not_mem_closeChar hc⟩

theorem isTokenByte_scanMark {b : UInt8} {bs : List UInt8} {k : TokenKind} {n : Nat}
    (h : scanMark b bs = .ok k n) : ∀ x ∈ (b :: bs).take n, isTokenByte x = true := by
  unfold scanMark at h
  split at h
  · rename_i hamp
    obtain ⟨rfl, hhead⟩ := hamp
    obtain ⟨-, rfl⟩ := scanned_ok_inj h
    cases bs with
    | nil => cases hhead
    | cons c bs =>
      obtain rfl := Option.some.inj hhead
      rw [List.take_succ_cons, List.take_succ_cons, List.take_zero]
      decide +kernel
  split at h
  · rename_i hdots
    obtain ⟨rfl, htake⟩ := hdots
    obtain ⟨-, rfl⟩ := scanned_ok_inj h
    rw [List.take_succ_cons, htake]
    decide +kernel
  split at h
  · rename_i hbyte
    obtain ⟨-, rfl⟩ := scanned_ok_inj h
    intro x hx
    rw [List.take_succ_cons, List.take_zero, List.mem_singleton] at hx
    rw [hx, isTokenByte, hbyte, Option.isSome_some, Bool.or_true]
  · cases h

/-- What the bytes of a scan may be: those of a string literal, those of a character literal, which
keeps to its line, those of a literal that fails, the one byte that begins no token, or bytes of
words and marks. -/
inductive ScannedBytes (bytes : List UInt8) : Except LexFault TokenKind → Prop
  | string (v : List UInt8) : ScannedBytes bytes (.ok (.stringLit v))
  | char (v : UInt8) (h : lineFeed ∉ bytes) : ScannedBytes bytes (.ok (.charLit v))
  | literal {f : LexFault} (hf : f.isLiteral = true) : ScannedBytes bytes (.error f)
  | byte (b : UInt8) (h : bytes = [b]) : ScannedBytes bytes (.error (.invalidByte b))
  | plain {o : Except LexFault TokenKind} (h : ∀ x ∈ bytes, isTokenByte x = true) :
      ScannedBytes bytes o

theorem scannedBytes_scanMark (b : UInt8) (bs : List UInt8) :
    ScannedBytes ((b :: bs).take (scanMark b bs).width) (scanMark b bs).outcome := by
  rcases hs : scanMark b bs with ⟨f | k, n⟩
  · have hf : (scanMark b bs).outcome = .error f := by rw [hs]
    have hn : n = 1 := by
      unfold scanMark at hs
      split at hs
      · cases hs
      split at hs
      · cases hs
      split at hs
      · cases hs
      · exact (congrArg Scanned.width hs).symm
    rw [fault_scanMark hf, hn]
    exact .byte b rfl
  · exact .plain (isTokenByte_scanMark hs)

/-- A quote begins a literal, whole or not, also behind a prefix. -/
theorem scannedBytes_quote {q : UInt8} (hq : isQuoteByte q = true) (front : List UInt8)
    (hfront : lineFeed ∉ front) (bs : List UInt8) :
    ScannedBytes (front ++ (q :: bs).take (scanPlain q bs).width) (scanPlain q bs).outcome := by
  rw [isQuoteByte, Bool.or_eq_true, beq_iff_eq, beq_iff_eq] at hq
  unfold scanPlain
  rcases hq with rfl | rfl
  · rw [if_pos rfl]
    rcases hs : scanString bs with ⟨f | v, n⟩
    · refine .literal ?_
      obtain rfl | ⟨_, rfl⟩ := fault_scanString (congrArg Scanned.outcome hs) <;> rfl
    · exact .string v
  · rw [if_neg (by decide), if_pos rfl]
    rcases hs : scanChar bs with ⟨f | v, n⟩
    · refine .literal ?_
      obtain rfl | rfl | ⟨_, rfl⟩ | ⟨-, rfl⟩ := fault_scanChar (congrArg Scanned.outcome hs) <;> rfl
    · refine .char v ?_
      rw [Scanned.behind, Nat.add_comm, List.take_succ_cons, List.mem_append, List.mem_cons, not_or,
        not_or]
      exact ⟨hfront, by decide, lineFeed_not_mem_scanChar hs⟩

theorem scannedBytes_scanPlain (b : UInt8) (bs : List UInt8) :
    ScannedBytes ((b :: bs).take (scanPlain b bs).width) (scanPlain b bs).outcome := by
  cases hq : isQuoteByte b with
  | true => exact scannedBytes_quote hq [] List.not_mem_nil bs
  | false =>
    have hword : ∀ x, isWordByte x = true → isTokenByte x = true := fun x hx => by
      rw [isTokenByte, hx, Bool.true_or]
    rw [isQuoteByte, Bool.or_eq_false_iff, beq_eq_false_iff_ne, beq_eq_false_iff_ne] at hq
    unfold scanPlain
    rw [if_neg hq.1, if_neg hq.2]
    split
    · rename_i hletter
      refine .plain fun x hx => hword x ?_
      simp only [Scanned.ok, List.length_cons, List.take_succ_cons, take_length_takeWhile,
        List.mem_cons] at hx
      rcases hx with rfl | hx
      · simp only [isWordByte, isAlnumByte, Bool.or_eq_true] at hletter ⊢
        exact hletter.imp_left .inl
      · exact List.all_eq_true.1 List.all_takeWhile _ hx
    split
    · rename_i hdigit
      refine .plain fun x hx => hword x ?_
      simp only [List.length_cons, List.take_succ_cons, take_length_takeWhile, List.mem_cons] at hx
      rw [isWordByte, Bool.or_eq_true]
      rcases hx with rfl | hx
      · exact .inl (by rw [isAlnumByte, hdigit, Bool.or_true])
      · exact .inl (List.all_eq_true.1 List.all_takeWhile _ hx)
    · exact scannedBytes_scanMark b bs

/-- **The bytes of a scan** are `ScannedBytes` of its outcome. -/
theorem scannedBytes_scanToken (b : UInt8) (bs : List UInt8) :
    ScannedBytes ((b :: bs).take (scanToken b bs).width) (scanToken b bs).outcome := by
  unfold scanToken
  split
  · rename_i q rest
    split
    · rename_i hwide
      have h := scannedBytes_quote hwide.2 [b] (by rw [hwide.1]; decide) rest
      simp only [Scanned.behind, Except.map_id, id_eq]
      rw [Nat.add_comm, List.take_succ_cons]
      exact h
    · exact scannedBytes_scanPlain b _
  · exact scannedBytes_scanPlain b _

section Bytes

variable {bytes : List UInt8} {o : Except LexFault TokenKind}

/-- Only a string literal goes over the end of a line, or a literal that fails. -/
theorem ScannedBytes.of_lineFeed (h : ScannedBytes bytes o) (hm : lineFeed ∈ bytes)
    (hhead : bytes.head? ≠ some lineFeed) :
    (∃ v, o = .ok (.stringLit v)) ∨ ∃ f, f.isLiteral = true ∧ o = .error f := by
  cases h with
  | string v => exact .inl ⟨v, rfl⟩
  | char v hv => exact absurd hm hv
  | literal hf => exact .inr ⟨_, hf, rfl⟩
  | byte b hb =>
    rw [hb, List.mem_singleton] at hm
    rw [hb, ← hm] at hhead
    exact absurd rfl hhead
  | plain hx => exact absurd (hx _ hm) (by decide)

/-- A number sign is in a literal, whole or not, or it begins no token. -/
theorem ScannedBytes.of_hash (h : ScannedBytes bytes o) (hm : asciiByte '#' ∈ bytes) :
    (∃ v, o = .ok (.stringLit v)) ∨ (∃ v, o = .ok (.charLit v)) ∨
      (∃ f, f.isLiteral = true ∧ o = .error f) ∨
      bytes = [asciiByte '#'] ∧ o = .error (.invalidByte (asciiByte '#')) := by
  cases h with
  | string v => exact .inl ⟨v, rfl⟩
  | char v _ => exact .inr (.inl ⟨v, rfl⟩)
  | literal hf => exact .inr (.inr (.inl ⟨_, hf, rfl⟩))
  | byte b hb =>
    rw [hb, List.mem_singleton] at hm
    exact .inr (.inr (.inr ⟨hm ▸ hb, by rw [hm]⟩))
  | plain hx => exact absurd (hx _ hm) (by decide)

end Bytes

end TypeLedger
