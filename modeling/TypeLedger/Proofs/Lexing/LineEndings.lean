import Mathlib
import TypeLedger.Proofs.Lexing.Behind
import TypeLedger.Proofs.Lexing.Steps

/-!
# Line feeds behind carriage returns

A text may end its lines with a carriage return and a line feed. A carriage return is a blank, so a
line feed between two tokens may have one in front of it. A backslash continues a directive or a
string only if the line feed is the next byte.

* `Text.crlf`: a text with a carriage return in front of every line feed.
* `lexemes`: the directives and tokens of a text.
* `kinds_crlf`: if no directive and no token has a line feed in it, the carriage returns change no
  token. `continued_directive_ends` is a text with a directive on two lines, which they do change.
-/

namespace TypeLedger

/-! ## 1. Carriage returns -/

/-- The byte in front of a line feed at the end of a line. -/
def carriageReturn : UInt8 := asciiByte '\r'

theorem isSpaceByte_carriageReturn : isSpaceByte carriageReturn = true := by decide

theorem isSpaceByte_lineFeed : isSpaceByte lineFeed = true := by decide

/-- A text with a carriage return in front of every line feed. -/
def Text.crlf : List UInt8 → List UInt8
  | [] => []
  | b :: bs => if b = lineFeed then carriageReturn :: lineFeed :: crlf bs else b :: crlf bs

namespace Text

theorem crlf_lineFeed (bs : List UInt8) :
    crlf (lineFeed :: bs) = carriageReturn :: lineFeed :: crlf bs := if_pos rfl

theorem crlf_of_ne {b : UInt8} (hb : b ≠ lineFeed) (bs : List UInt8) :
    crlf (b :: bs) = b :: crlf bs := if_neg hb

theorem crlf_append (as bs : List UInt8) : crlf (as ++ bs) = crlf as ++ crlf bs := by
  induction as with
  | nil => rfl
  | cons a as ih =>
    by_cases ha : a = lineFeed
    · subst ha
      simp only [List.cons_append, crlf_lineFeed, ih]
    · simp only [List.cons_append, crlf_of_ne ha, ih]

theorem crlf_of_not_mem {bs : List UInt8} (h : lineFeed ∉ bs) : crlf bs = bs := by
  induction bs with
  | nil => rfl
  | cons b bs ih =>
    rw [List.mem_cons, not_or] at h
    rw [crlf_of_ne (Ne.symm h.1), ih h.2]

theorem mem_crlf {bs : List UInt8} : lineFeed ∈ crlf bs ↔ lineFeed ∈ bs := by
  induction bs with
  | nil => rfl
  | cons b bs ih =>
    by_cases hb : b = lineFeed
    · simp [hb, crlf_lineFeed]
    · simp [crlf_of_ne hb, ih]

/-- The text begins as before, unless with a line feed. -/
theorem head?_crlf (bs : List UInt8) : (crlf bs).head? =
    bs.head?.map fun b => if b = lineFeed then carriageReturn else b := by
  cases bs with
  | nil => rfl
  | cons b bs =>
    by_cases hb : b = lineFeed
    · simp [hb, crlf_lineFeed]
    · simp [hb, crlf_of_ne hb]

theorem head?_crlf_eq_some {bs : List UInt8} {b : UInt8} (hr : b ≠ carriageReturn)
    (hb : b ≠ lineFeed) :
    (crlf bs).head? = some b ↔ bs.head? = some b := by
  rw [head?_crlf]
  cases bs with
  | nil => simp
  | cons a bs =>
    by_cases ha : a = lineFeed
    · simp [ha, Ne.symm hr, Ne.symm hb]
    · simp [ha]

end Text

open Text

/-- A token that stops at the end of a line stops there in front of a carriage return. -/
theorem stopsAt_crlf (r : List UInt8) : StopsAt r (crlf r) where
  head b hb := by
    rw [head?_crlf] at hb
    obtain ⟨a, ha, rfl⟩ := Option.map_eq_some_iff.1 hb
    by_cases hl : a = lineFeed
    · rw [if_pos hl]
      exact .inr isSpaceByte_carriageReturn
    · rw [if_neg hl]
      exact .inl ha
  dots h := by
    cases r with
    | nil => cases h
    | cons a r =>
      by_cases ha : a = lineFeed
      · rw [ha, crlf_lineFeed] at h
        cases h
      · rw [crlf_of_ne ha] at h
        cases r with
        | nil => exact h
        | cons c r =>
          by_cases hc : c = lineFeed
          · rw [hc, crlf_lineFeed] at h
            simp only [List.take_succ_cons, List.take_zero, List.cons.injEq] at h
            exact absurd h.2.1 (by decide : carriageReturn ≠ asciiByte '.')
          · rwa [crlf_of_ne hc] at h

/-! ## 2. What is passed over -/

/-- A block comment ends at its mark, which no carriage return takes apart. -/
theorem commentWidth_crlf {bs : List UInt8} : ∀ {n : Nat}, commentWidth bs = .ok () n →
    commentWidth (crlf bs) = .ok () (crlf (bs.take n)).length := by
  induction bs with
  | nil => exact fun h => nomatch h
  | cons b bs ih =>
    intro n h
    unfold commentWidth at h
    split at h
    · rename_i hend
      obtain ⟨-, rfl⟩ := scanned_ok_inj h
      obtain ⟨rfl, hhead⟩ := hend
      cases bs with
      | nil => cases hhead
      | cons c bs =>
        obtain rfl := Option.some.inj hhead
        rfl
    · rename_i hend
      obtain ⟨⟨⟩, m, hs, -, rfl⟩ := Scanned.eq_ok_of_behind h
      have ih' := ih hs
      rw [Nat.add_comm, List.take_succ_cons]
      by_cases hb : b = lineFeed
      · subst hb
        rw [crlf_lineFeed, crlf_lineFeed, commentWidth_of_ne (by decide),
          commentWidth_of_ne (by decide), ih', Scanned.behind_ok _ _ (Nat.add_comm 1 _)]
        exact Scanned.behind_ok _ _ (Nat.add_comm 1 _)
      · have hend' : ¬ (b = asciiByte '*' ∧ (crlf bs).head? = some (asciiByte '/')) := by
          rwa [head?_crlf_eq_some (by decide) (by decide)]
        rw [crlf_of_ne hb, crlf_of_ne hb, commentWidth, if_neg hend', ih']
        exact Scanned.behind_ok _ _ (Nat.add_comm 1 _)

@[simp] theorem lineWidth_lineFeed (bs : List UInt8) : lineWidth (lineFeed :: bs) = 0 := rfl

theorem lineWidth_of_ne {b : UInt8} (hb : b ≠ lineFeed) (bs : List UInt8) :
    lineWidth (b :: bs) = 1 + lineWidth bs := by
  rw [lineWidth, lineWidth, List.takeWhile_cons_of_pos (by simpa using hb), List.length_cons,
    Nat.add_comm]

@[simp] theorem directiveWidth_lineFeed (bs : List UInt8) :
    directiveWidth (lineFeed :: bs) = 0 := by
  cases bs with
  | nil => rfl
  | cons c bs =>
    have hjoin : ¬ (lineFeed = asciiByte '\\' ∧ c = lineFeed) := fun h =>
      absurd h.1 (by decide)
    rw [directiveWidth, if_neg hjoin, if_pos rfl]

theorem directiveWidth_of_ne {b : UInt8} {bs : List UInt8} (hb : b ≠ lineFeed)
    (hjoin : ¬ (b = asciiByte '\\' ∧ bs.head? = some lineFeed)) :
    directiveWidth (b :: bs) = 1 + directiveWidth bs := by
  cases bs with
  | nil => exact if_neg hb
  | cons c bs =>
    have hjoin' : ¬ (b = asciiByte '\\' ∧ c = lineFeed) := fun h =>
      hjoin ⟨h.1, congrArg some h.2⟩
    rw [directiveWidth, if_neg hjoin', if_neg hb]

/-- A directive without a line feed in it ends at the first one. -/
theorem directiveWidth_of_unbroken {bs : List UInt8} (h : lineFeed ∉ bs.take (directiveWidth bs)) :
    directiveWidth bs = lineWidth bs := by
  induction bs with
  | nil => rfl
  | cons b bs ih =>
    by_cases hb : b = lineFeed
    · rw [hb, directiveWidth_lineFeed, lineWidth_lineFeed]
    by_cases hjoin : b = asciiByte '\\' ∧ bs.head? = some lineFeed
    · -- the line feed behind the backslash is in the directive
      cases bs with
      | nil => cases hjoin.2
      | cons c bs =>
        obtain rfl := Option.some.inj hjoin.2
        rw [directiveWidth, if_pos ⟨hjoin.1, rfl⟩, Nat.add_comm] at h
        exact absurd (List.mem_cons_of_mem b List.mem_cons_self) h
    · rw [directiveWidth_of_ne hb hjoin] at h ⊢
      rw [Nat.add_comm, List.take_succ_cons, List.mem_cons, not_or] at h
      rw [ih h.2, lineWidth_of_ne hb]

/-- Behind a carriage return no backslash continues a directive. -/
theorem directiveWidth_crlf (bs : List UInt8) : directiveWidth (crlf bs) = lineWidth (crlf bs) := by
  induction bs with
  | nil => rfl
  | cons b bs ih =>
    by_cases hb : b = lineFeed
    · rw [hb, crlf_lineFeed, directiveWidth_of_ne (by decide) fun h => absurd h.1 (by decide),
        lineWidth_of_ne (by decide), directiveWidth_lineFeed, lineWidth_lineFeed]
    · have hhead : (crlf bs).head? ≠ some lineFeed := by
        rw [head?_crlf]
        intro h
        obtain ⟨a, -, ha⟩ := Option.map_eq_some_iff.1 h
        split at ha
        · exact absurd ha (by decide)
        · exact ‹a ≠ lineFeed› ha
      rw [crlf_of_ne hb, directiveWidth_of_ne hb fun h => hhead h.2, lineWidth_of_ne hb, ih]

/-- What is left behind a line begins with the line feed that ends it. -/
theorem line_cases (bs : List UInt8) : ∃ line r, bs = line ++ r ∧ lineFeed ∉ line ∧
    lineWidth bs = line.length ∧ (r = [] ∨ ∃ r', r = lineFeed :: r') := by
  induction bs with
  | nil => exact ⟨[], [], rfl, List.not_mem_nil, rfl, .inl rfl⟩
  | cons b bs ih =>
    by_cases hb : b = lineFeed
    · exact ⟨[], b :: bs, rfl, List.not_mem_nil, by rw [hb]; rfl, .inr ⟨bs, by rw [hb]⟩⟩
    · obtain ⟨line, r, rfl, hline, hw, hr⟩ := ih
      refine ⟨b :: line, r, rfl, ?_, ?_, hr⟩
      · rw [List.mem_cons, not_or]
        exact ⟨Ne.symm hb, hline⟩
      · rw [lineWidth_of_ne hb, hw, List.length_cons, Nat.add_comm]

/-- What a walk passes over, with the number of bytes behind the first. -/
inductive Passes (s : Bool) : UInt8 → List UInt8 → Nat → Prop
  | blank {b : UInt8} {bs : List UInt8} (hb : isSpaceByte b = true) : Passes s b bs 0
  | line (cs : List UInt8) :
      Passes s (asciiByte '/') (asciiByte '/' :: cs) (lineWidth (asciiByte '/' :: cs))
  | block {cs : List UInt8} {n : Nat} (hc : commentWidth cs = .ok () n) :
      Passes s (asciiByte '/') (asciiByte '*' :: cs) (1 + n)
  | directive (bs : List UInt8) (hs : s = true) : Passes s (asciiByte '#') bs (directiveWidth bs)

theorem trivia_eq_ok_iff {s : Bool} {b : UInt8} {bs : List UInt8} {n : Nat} :
    trivia s b bs = some (.ok () n) ↔ Passes s b bs n := by
  constructor
  · intro h
    unfold trivia at h
    split at h
    · obtain ⟨-, rfl⟩ := scanned_ok_inj (Option.some.inj h)
      exact .blank ‹_›
    split at h
    · rename_i hb
      subst hb
      split at h
      · rename_i c cs
        split at h
        · rename_i hc
          subst hc
          obtain ⟨-, rfl⟩ := scanned_ok_inj (Option.some.inj h)
          have hslash : asciiByte '/' ≠ lineFeed := by decide
          rw [← lineWidth_of_ne hslash]
          exact .line cs
        · split at h
          · rename_i hc
            subst hc
            obtain ⟨⟨⟩, m, hm, -, rfl⟩ := Scanned.eq_ok_of_behind (Option.some.inj h)
            exact .block hm
          · cases h
      · cases h
    · split at h
      · rename_i hb
        obtain ⟨rfl, hs⟩ := hb
        obtain ⟨-, rfl⟩ := scanned_ok_inj (Option.some.inj h)
        exact .directive bs hs
      · cases h
  · intro h
    cases h with
    | blank hb => rw [trivia.eq_def, if_pos hb]
    | line cs =>
      rw [lineWidth_of_ne (by decide)]
      rfl
    | block hc =>
      have hblock : ∀ cs, trivia s (asciiByte '/') (asciiByte '*' :: cs) =
        some ((commentWidth cs).behind 1 id) := fun _ => rfl
      rw [hblock, hc]
      rfl
    | directive bs hs =>
      rw [trivia.eq_def, if_neg (by decide), if_neg (by decide), if_pos ⟨rfl, hs⟩]

/-! ## 3. Texts -/

/-- A blank in front changes nothing. -/
theorem Lexed.of_blank {s : Bool} {b : UInt8} {bs : List UInt8} {ks : List TokenKind}
    (hb : isSpaceByte b = true) (h : Lexed s (b :: bs) ks) : Lexed (s || b == lineFeed) bs ks := by
  have ht : trivia s b bs = some (.ok () 0) := by
    unfold trivia
    rw [if_pos hb]
  cases h with
  | @pass _ _ _ n _ ht' h =>
    rw [ht] at ht'
    obtain ⟨-, rfl⟩ := scanned_ok_inj (Option.some.inj ht')
    have hbeq : [b].contains lineFeed = (b == lineFeed) := by
      rw [List.contains_cons, List.contains_nil, Bool.or_false, BEq.comm]
    rw [List.take_zero, hbeq] at h
    exact h
  | token ht' =>
    rw [ht] at ht'
    cases ht'

theorem lineWidth_append {line : List UInt8} (h : lineFeed ∉ line) (r : List UInt8) :
    lineWidth (line ++ r) = line.length + lineWidth r := by
  have hall : ∀ b ∈ line, (b != lineFeed) = true := by
    rintro b hb
    exact bne_iff_ne.2 (by rintro rfl; exact h hb)
  rw [lineWidth, lineWidth, List.takeWhile_append_of_pos hall, List.length_append]

theorem not_mem_take_lineWidth (bs : List UInt8) : lineFeed ∉ bs.take (lineWidth bs) := by
  obtain ⟨line, r, rfl, hline, hw, -⟩ := line_cases bs
  rwa [hw, List.take_left]

/-- **What runs to the end of a line** takes the carriage return in front of the line feed. -/
theorem Lexed.line {s : Bool} {b : UInt8} {bs : List UInt8} {ks : List TokenKind}
    (hb : b ≠ lineFeed) (ht : trivia s b (crlf bs) = some (.ok () (lineWidth (crlf bs))))
    (h : Lexed s (crlf (bs.drop (lineWidth bs))) ks) : Lexed s (b :: crlf bs) ks := by
  obtain ⟨line, r, rfl, hline, hw, hr⟩ := line_cases bs
  rw [hw, List.drop_left] at h
  refine .pass ht ?_
  rw [crlf_append, crlf_of_not_mem hline, lineWidth_append hline]
  rcases hr with rfl | ⟨r, rfl⟩
  · have hfeed : lineFeed ∉ b :: line := by
      rw [List.mem_cons, not_or]
      exact ⟨Ne.symm hb, hline⟩
    have hzero : lineWidth (crlf []) = 0 := rfl
    rw [hzero, Nat.add_zero, List.take_left, List.drop_left, contains_eq_false hfeed,
      Bool.or_false]
    exact h
  · rw [crlf_lineFeed] at h ⊢
    have hone : lineWidth (carriageReturn :: lineFeed :: crlf r) = 1 := by
      rw [lineWidth_of_ne (by decide), lineWidth_lineFeed]
    have hfeed : lineFeed ∉ b :: (line ++ [carriageReturn]) := by
      rw [List.mem_cons, List.mem_append, List.mem_singleton, not_or, not_or]
      exact ⟨Ne.symm hb, hline, by decide⟩
    have hsplit : line ++ carriageReturn :: lineFeed :: crlf r =
        (line ++ [carriageReturn]) ++ lineFeed :: crlf r := by
      rw [List.append_assoc, List.singleton_append]
    have hlen : line.length + 1 = (line ++ [carriageReturn]).length := by
      rw [List.length_append, List.length_singleton]
    rw [hone, hsplit, hlen, List.take_left, List.drop_left, contains_eq_false hfeed,
      Bool.or_false]
    have hrest := h.of_blank isSpaceByte_carriageReturn
    have hs : (s || carriageReturn == lineFeed) = s := Bool.or_false s
    rwa [hs] at hrest

/-- **A line feed** is passed over, and the carriage return in front of it. -/
theorem Lexed.feed {s : Bool} {bs : List UInt8} {ks : List TokenKind}
    (h : Lexed true (crlf bs) ks) : Lexed s (crlf (lineFeed :: bs)) ks := by
  rw [crlf_lineFeed]
  refine .pass (trivia_eq_ok_iff.2 (.blank isSpaceByte_carriageReturn)) ?_
  refine .pass (trivia_eq_ok_iff.2 (.blank isSpaceByte_lineFeed)) ?_
  have hs : ((s || (carriageReturn :: List.take 0 (lineFeed :: crlf bs)).contains lineFeed) ||
      (lineFeed :: List.take 0 (crlf bs)).contains lineFeed) = true := by
    cases s <;> rfl
  rw [hs]
  exact h

/-- **A comment between its marks** may go over line feeds, with carriage returns or without. -/
theorem Lexed.block {s : Bool} {cs : List UInt8} {n : Nat} {ks : List TokenKind}
    (hc : commentWidth cs = .ok () n)
    (h : Lexed (s || (cs.take n).contains lineFeed) (crlf (cs.drop n)) ks) :
    Lexed s (crlf (asciiByte '/' :: asciiByte '*' :: cs)) ks := by
  rw [crlf_of_ne (by decide), crlf_of_ne (by decide)]
  refine .pass (trivia_eq_ok_iff.2 (.block (commentWidth_crlf hc))) ?_
  have hsplit : crlf cs = crlf (cs.take n) ++ crlf (cs.drop n) := by
    rw [← crlf_append, List.take_append_drop]
  have hsame : (asciiByte '/' :: asciiByte '*' :: crlf (cs.take n)).contains lineFeed =
      (cs.take n).contains lineFeed := by
    show (crlf (cs.take n)).contains lineFeed = _
    rw [Bool.eq_iff_iff, List.contains_iff_mem, List.contains_iff_mem, mem_crlf]
  rw [Nat.add_comm, List.take_succ_cons, List.drop_succ_cons, hsplit, List.take_left,
    List.drop_left, hsame]
  exact h

/-- **A token on one line** stays as it is. -/
theorem Lexed.kept {s : Bool} {b : UInt8} {bs : List UInt8} {k : TokenKind} {n : Nat}
    {ks : List TokenKind} (ht : trivia s b bs = none) (hs : scanToken b bs = .ok k n)
    (hfeed : lineFeed ∉ (b :: bs).take n)
    (h : Lexed (((b :: bs).take n).contains lineFeed) (crlf ((b :: bs).drop n)) ks) :
    Lexed s (crlf (b :: bs)) (k :: ks) := by
  obtain ⟨q, r, rfl, rfl⟩ : ∃ q r, bs = q ++ r ∧ n = q.length + 1 := by
    have hpos := width_scanToken_pos b bs
    have hle := width_scanToken_le hs
    rw [hs] at hpos
    simp only [Scanned.ok] at hpos
    exact ⟨bs.take (n - 1), bs.drop (n - 1), (List.take_append_drop _ _).symm, by
      rw [List.length_take]
      omega⟩
  rw [List.take_succ_cons, List.take_left] at hfeed h
  rw [List.drop_succ_cons, List.drop_left] at h
  have htext : crlf (b :: (q ++ r)) = b :: (q ++ crlf r) := by
    rw [← List.cons_append, crlf_append, crlf_of_not_mem hfeed, List.cons_append]
  rw [htext]
  refine .token (trivia_append_eq_none (stopsAt_crlf r) ht)
    (scanToken_append (stopsAt_crlf r) hs) ?_
  rw [List.take_succ_cons, List.take_left, List.drop_succ_cons, List.drop_left]
  exact h

/-- The directives and tokens of a text, each with the bytes that it takes. What stands behind the
first error of the text does not matter. -/
def lexemes (atLineStart : Bool) : List UInt8 → List (List UInt8)
  | [] => []
  | b :: bs =>
    match trivia atLineStart b bs with
    | some t =>
      let behind := lexemes (atLineStart || (b :: bs.take t.width).contains lineFeed)
        (bs.drop t.width)
      if b = asciiByte '#' then (b :: bs.take t.width) :: behind else behind
    | none =>
      let w := (scanToken b bs).width
      (b :: bs).take w :: lexemes (((b :: bs).take w).contains lineFeed) ((b :: bs).drop w)
termination_by bs => bs.length
decreasing_by
  · simp only [List.length_drop, List.length_cons]
    omega
  · have := width_scanToken_pos b bs
    simp only [List.length_drop, List.length_cons]
    omega

/-- **Carriage returns change no token** (`Text.crlf`) if no directive and no token goes over a line
feed. The induction is on the steps of the walk. -/
theorem Lexed.crlf {s : Bool} {bs : List UInt8} {ks : List TokenKind} (h : Lexed s bs ks)
    (hl : ∀ p ∈ lexemes s bs, lineFeed ∉ p) : Lexed s (Text.crlf bs) ks := by
  induction h with
  | done => exact .done
  | @pass s b bs n ks ht h ih =>
    have hp := trivia_eq_ok_iff.1 ht
    rw [lexemes, ht] at hl
    dsimp only [Scanned.ok] at hl
    have hbehind := ih fun p hm => hl p (by
      split
      · exact List.mem_cons_of_mem _ hm
      · exact hm)
    cases hp with
    | blank hb =>
      rw [List.take_zero, List.drop_zero] at hbehind
      by_cases hfeed : b = lineFeed
      · subst hfeed
        have hs : (s || [lineFeed].contains lineFeed) = true := Bool.or_true s
        rw [hs] at hbehind
        exact hbehind.feed
      · rw [crlf_of_ne hfeed]
        exact .pass (trivia_eq_ok_iff.2 (.blank hb)) hbehind
    | line cs =>
      have hfeed : lineFeed ∉ asciiByte '/' ::
          (asciiByte '/' :: cs).take (lineWidth (asciiByte '/' :: cs)) := by
        rw [List.mem_cons, not_or]
        exact ⟨by decide, not_mem_take_lineWidth _⟩
      rw [contains_eq_false hfeed, Bool.or_false] at hbehind
      rw [crlf_of_ne (by decide)]
      refine .line (by decide) (trivia_eq_ok_iff.2 ?_) hbehind
      rw [crlf_of_ne (by decide)]
      exact .line _
    | block hc =>
      rw [Nat.add_comm, List.take_succ_cons, List.drop_succ_cons] at hbehind
      exact .block hc hbehind
    | directive bs hs =>
      rw [if_pos rfl] at hl
      have hfeed := (List.forall_mem_cons.1 hl).1
      have hw := directiveWidth_of_unbroken fun hm => hfeed (List.mem_cons_of_mem _ hm)
      rw [contains_eq_false hfeed, Bool.or_false, hw] at hbehind
      rw [crlf_of_ne (by decide)]
      refine .line (by decide) (trivia_eq_ok_iff.2 ?_) hbehind
      rw [← directiveWidth_crlf]
      exact .directive _ hs
  | token ht hs h ih =>
    rw [lexemes, ht, hs] at hl
    dsimp only [Scanned.ok] at hl
    obtain ⟨hfeed, hl⟩ := List.forall_mem_cons.1 hl
    exact .kept ht hs hfeed (ih hl)

/-- **A text whose directives and tokens keep to their lines has the same tokens with carriage
returns in front of its line feeds.** They keep to their lines if there is no line feed in the
`lexemes`. The carriage returns that the text has already stay in `Text.crlf`. -/
theorem kinds_crlf {bs : List UInt8} {ts : List Token} {stop : Location}
    (h : tokenize bs = .ok (ts, stop)) (hl : ∀ p ∈ lexemes true bs, lineFeed ∉ p) :
    ∃ ts' stop', tokenize (Text.crlf bs) = .ok (ts', stop') ∧
      ts'.map Token.kind = ts.map Token.kind := by
  have hlexed := lexed_iff_tokenize.2 ⟨ts, stop, h, rfl⟩
  exact lexed_iff_tokenize.1 (hlexed.crlf hl)

/-- A comment over two lines, and a directive that keeps to its own. -/
def linesSource : String := "/* a\n*/ #define X\nint a; // b\nchar c;\n"

theorem kinds_crlf_lines :
    ∃ ts stop ts' stop', tokenize linesSource.toUTF8.toList = .ok (ts, stop) ∧
      (∀ p ∈ lexemes true linesSource.toUTF8.toList, lineFeed ∉ p) ∧
      tokenize (Text.crlf linesSource.toUTF8.toList) = .ok (ts', stop') ∧
      ts'.map Token.kind = ts.map Token.kind ∧ ts.length = 6 := by
  have htokens : tokenize linesSource.toUTF8.toList = .ok
      ([⟨.keyword (.builtin .int), ⟨3, 1⟩⟩, ⟨.ident "a", ⟨3, 5⟩⟩, ⟨.mark .semicolon, ⟨3, 6⟩⟩,
        ⟨.keyword (.builtin .char), ⟨4, 1⟩⟩, ⟨.ident "c", ⟨4, 6⟩⟩, ⟨.mark .semicolon, ⟨4, 7⟩⟩],
        ⟨5, 1⟩) := by
    decide +kernel
  have hlines : ∀ p ∈ lexemes true linesSource.toUTF8.toList, lineFeed ∉ p := by
    decide +kernel
  obtain ⟨ts', stop', h, hk⟩ := kinds_crlf htokens hlines
  exact ⟨_, _, ts', stop', htokens, hlines, h, hk, rfl⟩

/-- A directive that is continued on a second line. -/
def continuedSource : String := "#define X \\\n  1\n/* a */ char c;"

/-- **A carriage return behind the backslash ends a continued directive:** what stands on the next
line is read as if it were none of the directive. -/
theorem continued_directive_ends :
    lineFeed ∈ continuedSource.toUTF8.toList ∧ carriageReturn ∉ continuedSource.toUTF8.toList ∧
      ∃ ts stop ts' stop', tokenize continuedSource.toUTF8.toList = .ok (ts, stop) ∧
        tokenize (Text.crlf continuedSource.toUTF8.toList) = .ok (ts', stop') ∧
        ts.map Token.kind = [.keyword (.builtin .char), .ident "c", .mark .semicolon] ∧
        ts'.map Token.kind =
          [.intLit 1, .keyword (.builtin .char), .ident "c", .mark .semicolon] := by
  refine ⟨by decide +kernel, by decide +kernel,
    [⟨.keyword (.builtin .char), ⟨3, 9⟩⟩, ⟨.ident "c", ⟨3, 14⟩⟩, ⟨.mark .semicolon, ⟨3, 15⟩⟩],
    ⟨3, 16⟩,
    [⟨.intLit 1, ⟨2, 3⟩⟩, ⟨.keyword (.builtin .char), ⟨3, 9⟩⟩, ⟨.ident "c", ⟨3, 14⟩⟩,
      ⟨.mark .semicolon, ⟨3, 15⟩⟩], ⟨3, 16⟩, by decide +kernel, by decide +kernel, rfl, rfl⟩

end TypeLedger
