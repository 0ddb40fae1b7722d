import TypeLedger.Proofs.Lexing.Walk

/-!
# Tokens and what stands behind them

* `StopsAt`: a token that stops in front of one text stops in front of another: this begins as the
  one does, or with a blank.
* `scanString_append`, `scanChar_append`: a literal is closed by a quote of its own.
* `scanToken_append`, `trivia_append_eq_none`: a token stays the token it is if another text stands
  behind it in front of which it stops.
* `width_scanToken_le`: a token takes no more bytes than there are.
-/

namespace TypeLedger

/-! ## 1. Where a token stops -/

/-- A token that stops in front of `r` stops in front of `r'` too: it begins as `r` does, or with a
blank. -/
structure StopsAt (r r' : List UInt8) : Prop where
  head : ∀ b, r'.head? = some b → r.head? = some b ∨ isSpaceByte b = true
  dots : r'.take 2 = [asciiByte '.', asciiByte '.'] → r.take 2 = [asciiByte '.', asciiByte '.']

section Stops

variable {r r' : List UInt8}

/-- A byte that is no blank begins the other text only if it begins the one. -/
theorem StopsAt.head_eq (h : StopsAt r r') {b : UInt8} (hb : isSpaceByte b = false)
    (hr : r'.head? = some b) : r.head? = some b := by
  rcases h.head b hr with hr | hs
  · exact hr
  · rw [hb] at hs
    cases hs

/-- A run of a class that ends behind `q` is `q`, and what stands behind it is not of the class. -/
theorem run_iff {p : UInt8 → Bool} {q : List UInt8} :
    ((q ++ r).takeWhile p).length = q.length ↔
      (q ++ r).takeWhile p = q ∧ ∀ b, r.head? = some b → p b = false := by
  refine ⟨fun hq => ?_, fun h => congrArg List.length h.1⟩
  have hrun : (q ++ r).takeWhile p = q :=
    (List.prefix_of_prefix_length_le (List.takeWhile_prefix p) (List.prefix_append q r)
      (Nat.le_of_eq hq)).eq_of_length hq
  have hall : ∀ b ∈ q, p b = true := by
    intro b hb
    rw [← hrun] at hb
    exact List.all_eq_true.1 List.all_takeWhile b hb
  refine ⟨hrun, fun b hb => ?_⟩
  rw [List.takeWhile_append_of_pos hall] at hrun
  have hr : r.takeWhile p = [] := List.append_right_eq_self.1 hrun
  cases r with
  | nil => cases hb
  | cons c r =>
    obtain rfl := Option.some.inj hb
    cases hp : p c with
    | false => rfl
    | true =>
      rw [List.takeWhile_cons_of_pos hp] at hr
      cases hr

/-- The run ends there in front of anything that does not begin with a byte of the class. -/
theorem run_append {p : UInt8 → Bool} {q : List UInt8} (h : (q ++ r).takeWhile p = q)
    (hr : ∀ b, r'.head? = some b → p b = false) : (q ++ r').takeWhile p = q := by
  have hall : ∀ b ∈ q, p b = true := by
    intro b hb
    rw [← h] at hb
    exact List.all_eq_true.1 List.all_takeWhile b hb
  rw [List.takeWhile_append_of_pos hall]
  cases r' with
  | nil => rw [List.takeWhile_nil, List.append_nil]
  | cons c r' =>
    rw [List.takeWhile_cons_of_neg (by rw [hr c rfl]; exact Bool.false_ne_true), List.append_nil]

/-- The longest run of a class without blanks ends in front of the other text too. -/
theorem StopsAt.run (h : StopsAt r r') {p : UInt8 → Bool}
    (hp : ∀ b, isSpaceByte b = true → p b = false) {q : List UInt8}
    (hq : ((q ++ r).takeWhile p).length = q.length) :
    (q ++ r).takeWhile p = q ∧ (q ++ r').takeWhile p = q := by
  obtain ⟨hrun, hhead⟩ := run_iff.1 hq
  refine ⟨hrun, run_append hrun fun b hb => ?_⟩
  rcases h.head b hb with hb | hs
  · exact hhead b hb
  · exact hp b hs

/-! ## 2. Literals

A literal is closed by a quote of its own, so it does not matter what stands behind it. -/

theorem Scanned.eq_ok_of_behind {α β : Type} {n m : Nat} {f : α → β} {s : Scanned α} {w : β}
    (h : s.behind n f = .ok w m) : ∃ v m', s = .ok v m' ∧ f v = w ∧ m = n + m' := by
  obtain ⟨o, m'⟩ := s
  cases o with
  | error e => cases h
  | ok v =>
    simp only [Scanned.behind, Scanned.ok, Scanned.mk.injEq] at h
    exact ⟨v, m', rfl, Except.ok.inj h.1, h.2.symm⟩

theorem scanned_ok_inj {α : Type} {v w : α} {m n : Nat} (h : Scanned.ok v m = Scanned.ok w n) :
    v = w ∧ m = n := by
  injection h with h hn
  exact ⟨Except.ok.inj h, hn⟩

/-- The octal digits of an escape. There are at most three of them, so the byte behind them is seen
only if there are less, and what stands behind that byte is never seen. -/
theorem octalRun_append {c : UInt8} {q : List UInt8}
    (h : (((q ++ c :: r).take 2).takeWhile isOctalByte).length = q.length) (s : List UInt8) :
    ((q ++ c :: s).take 2).takeWhile isOctalByte = q := by
  have htwo : q.length ≤ 2 := by
    have hle := (List.takeWhile_prefix (p := isOctalByte) (l := (q ++ c :: r).take 2)).length_le
    rw [h, List.length_take] at hle
    omega
  have hfront : ∀ bs, ((q ++ c :: bs).take 2) = q ++ (c :: bs).take (2 - q.length) := by
    intro bs
    rw [List.take_append, List.take_of_length_le htwo]
  rw [hfront] at h ⊢
  obtain ⟨hrun, hhead⟩ := run_iff.1 h
  refine run_append hrun fun d hd => hhead d ?_
  rw [List.head?_take] at hd ⊢
  exact hd

/-- An escape behind which a byte stands is judged up to this byte. -/
theorem scanEscape_append {b c v : UInt8} {q : List UInt8}
    (h : scanEscape (b :: q ++ c :: r) = .ok v (q.length + 1)) :
    scanEscape (b :: q ++ c :: r') = .ok v (q.length + 1) := by
  simp only [List.cons_append, scanEscape] at h ⊢
  cases hl : letterEscape? b with
  | some w =>
    rw [hl] at h
    exact h
  | none =>
    rw [hl] at h
    dsimp only at h ⊢
    split at h
    · rename_i hx
      rw [if_pos hx]
      split at h
      · cases h
      · rename_i hd
        obtain ⟨-, hw⟩ := scanned_ok_inj h
        obtain ⟨hrun, hhead⟩ := run_iff.1 (show ((q ++ c :: r).takeWhile
          fun d => (hexByte? d).isSome).length = q.length by omega)
        have hrun' : ((q ++ c :: r').takeWhile fun d => (hexByte? d).isSome) = q :=
          run_append hrun hhead
        rw [hrun] at h hd
        rw [hrun', if_neg hd, h]
    · rename_i hx
      rw [if_neg hx]
      split at h
      · rename_i ho
        rw [if_pos ho]
        obtain ⟨-, hw⟩ := scanned_ok_inj h
        have hrun := octalRun_append (Nat.succ.inj hw)
        rw [hrun] at h
        rw [hrun, h]
      · cases h

theorem width_scanEscape_pos {bs : List UInt8} {v : UInt8} {n : Nat}
    (h : scanEscape bs = .ok v n) : 0 < n := by
  unfold scanEscape at h
  split at h
  · cases h
  · split at h
    · obtain ⟨-, rfl⟩ := scanned_ok_inj h
      omega
    · split at h
      · dsimp only at h
        split at h
        · cases h
        · obtain ⟨-, rfl⟩ := scanned_ok_inj h
          omega
      · split at h
        · obtain ⟨-, rfl⟩ := scanned_ok_inj h
          exact Nat.succ_pos _
        · cases h

theorem width_scanString_pos {bs v : List UInt8} {n : Nat} (h : scanString bs = .ok v n) :
    0 < n := by
  unfold scanString at h
  split at h
  · cases h
  · split at h
    · obtain ⟨-, rfl⟩ := scanned_ok_inj h
      omega
    · split at h
      · cases h
      · split at h
        · split at h
          · obtain ⟨_, _, -, -, rfl⟩ := Scanned.eq_ok_of_behind h
            omega
          · dsimp only at h
            split at h
            · cases h
            · obtain ⟨_, _, -, -, rfl⟩ := Scanned.eq_ok_of_behind h
              omega
        · obtain ⟨_, _, -, -, rfl⟩ := Scanned.eq_ok_of_behind h
          omega

/-- An escape that ends inside some bytes is judged by these. -/
theorem scanEscape_inside {q : List UInt8} {v : UInt8} {n : Nat}
    (h : scanEscape (q ++ r) = .ok v n) (hn : n < q.length) : scanEscape (q ++ r') = .ok v n := by
  have hpos := width_scanEscape_pos h
  obtain ⟨x, a, c, d, rfl, rfl⟩ : ∃ x a c d, q = x :: a ++ c :: d ∧ n = a.length + 1 := by
    have hlen : (q.take n).length = n := List.length_take_of_le (Nat.le_of_lt hn)
    cases ha : q.take n with
    | nil =>
      rw [ha] at hlen
      simp only [List.length_nil] at hlen
      omega
    | cons x a =>
      rw [ha] at hlen
      refine ⟨x, a, q[n], q.drop (n + 1), ?_, hlen.symm⟩
      rw [← ha, List.getElem_cons_drop, List.take_append_drop]
  rw [List.append_assoc] at h ⊢
  exact scanEscape_append h

/-- What begins behind bytes of a text and goes up to its end is judged by the text. -/
theorem behind_drop_append {n : Nat} {q v w : List UInt8} (hn : n ≤ q.length)
    (h : scanString (q.drop n ++ r') = .ok v (q.drop n).length) (f : List UInt8 → List UInt8)
    (hw : f v = w) : (scanString ((q ++ r').drop n)).behind (n + 1) f = .ok w (q.length + 1) := by
  rw [List.drop_append_of_le_length hn, h, ← hw]
  exact Scanned.behind_ok f v (by rw [List.length_drop]; omega)

/-- The bytes that a scan still has to read up to the end of a text. -/
theorem scanString_drop {n m : Nat} {q v : List UInt8}
    (h : scanString ((q ++ r).drop n) = .ok v m) (hm : q.length + 1 = n + 1 + m) :
    n < q.length ∧ scanString (q.drop n ++ r) = .ok v (q.drop n).length := by
  have hpos := width_scanString_pos h
  rw [List.drop_append_of_le_length (by omega)] at h
  refine ⟨by omega, ?_⟩
  rw [h, List.length_drop]
  congr
  omega

/-- **A string is judged by its own bytes.** -/
theorem scanString_append : ∀ {q v : List UInt8}, scanString (q ++ r) = .ok v q.length →
    scanString (q ++ r') = .ok v q.length
  | [], _, h => absurd (width_scanString_pos h) (Nat.lt_irrefl 0)
  | b :: q, v, h => by
    -- the byte behind this one is one of the text, if any bytes of the text are left
    have hhead : ∀ {n : Nat}, n < q.length → (q ++ r').head? = (q ++ r).head? := by
      intro n hn
      cases q with
      | nil => exact absurd hn (Nat.not_lt_zero n)
      | cons c q => rfl
    rw [List.cons_append, scanString] at h ⊢
    split at h
    · rename_i hb
      rw [if_pos hb, h]
    rename_i hb
    rw [if_neg hb]
    split at h
    · cases h
    rename_i hb
    rw [if_neg hb]
    split at h
    · rename_i hb
      rw [if_pos hb]
      split at h
      · rename_i hfeed
        obtain ⟨v', m, hs, hv, hm⟩ := Scanned.eq_ok_of_behind h
        obtain ⟨hn, hs⟩ := scanString_drop hs hm
        rw [if_pos ((hhead hn).trans hfeed)]
        exact behind_drop_append (Nat.le_of_lt hn) (scanString_append hs) _ hv
      · rename_i hfeed
        cases he : scanEscape (q ++ r) with
        | mk o n =>
        cases o with
        | error f =>
          rw [he] at h
          cases h
        | ok w =>
          rw [he] at h
          obtain ⟨v', m, hs, hv, hm⟩ := Scanned.eq_ok_of_behind h
          rw [Nat.add_comm 1 n] at hm
          obtain ⟨hn, hs⟩ := scanString_drop hs hm
          have he' : scanEscape (q ++ r') = ⟨.ok w, n⟩ := scanEscape_inside he hn
          rw [if_neg (by rwa [hhead hn]), he']
          dsimp only
          rw [Nat.add_comm 1 n]
          exact behind_drop_append (Nat.le_of_lt hn) (scanString_append hs) _ hv
    · rename_i hb
      rw [if_neg hb]
      obtain ⟨v', m, hs, hv, hm⟩ := Scanned.eq_ok_of_behind h
      obtain ⟨hn, hs⟩ := scanString_drop (n := 0) hs hm
      exact behind_drop_append (n := 0) (Nat.le_of_lt hn) (scanString_append hs) _ hv
termination_by q => q.length
decreasing_by all_goals simp only [List.length_cons, List.length_drop]; omega

/-- The closing quote is the last byte of a character. -/
theorem eq_cons_of_closeChar {w v : UInt8} {bs : List UInt8} {n : Nat}
    (h : closeChar w bs = .ok v n) : ∃ q, bs = asciiByte '\'' :: q ∧ v = w ∧ n = 1 := by
  unfold closeChar at h
  split at h
  · rename_i hc
    obtain ⟨rfl, rfl⟩ := scanned_ok_inj h
    obtain ⟨q, rfl⟩ := List.head?_eq_some_iff.1 hc
    exact ⟨q, rfl, rfl, rfl⟩
  · cases h

theorem closeChar_append {w v : UInt8} {q : List UInt8} {n : Nat}
    (h : closeChar w (q ++ r) = .ok v n) (hq : q.length = n) : closeChar w (q ++ r') = .ok v n := by
  obtain ⟨_, hc, rfl, rfl⟩ := eq_cons_of_closeChar h
  obtain ⟨c, rfl⟩ := List.length_eq_one_iff.1 hq
  obtain rfl := (List.cons.inj hc).1
  rfl

theorem width_scanChar_pos {bs : List UInt8} {v : UInt8} {n : Nat} (h : scanChar bs = .ok v n) :
    0 < n := by
  unfold scanChar at h
  split at h
  · cases h
  split at h
  · cases h
  split at h
  · cases h
  split at h
  · dsimp only at h
    split at h
    · cases h
    · obtain ⟨_, _, -, -, rfl⟩ := Scanned.eq_ok_of_behind h
      omega
  · obtain ⟨_, _, -, -, rfl⟩ := Scanned.eq_ok_of_behind h
    omega

/-- **A character is judged by its own bytes.** -/
theorem scanChar_append {v : UInt8} {q : List UInt8} (h : scanChar (q ++ r) = .ok v q.length) :
    scanChar (q ++ r') = .ok v q.length := by
  cases q with
  | nil => exact absurd (width_scanChar_pos h) (Nat.lt_irrefl 0)
  | cons b q =>
    rw [List.cons_append, scanChar] at h ⊢
    split at h
    · cases h
    rename_i hb
    rw [if_neg hb]
    split at h
    · cases h
    rename_i hb
    rw [if_neg hb]
    split at h
    · rename_i hb
      rw [if_pos hb]
      cases he : scanEscape (q ++ r) with
      | mk o n =>
      cases o with
      | error f =>
        rw [he] at h
        cases h
      | ok w =>
        rw [he] at h
        obtain ⟨v', m, hc, rfl, hm⟩ := Scanned.eq_ok_of_behind h
        obtain ⟨_, -, -, hm1⟩ := eq_cons_of_closeChar hc
        simp only [List.length_cons] at hm
        have hn : n < q.length := by omega
        have he' : scanEscape (q ++ r') = ⟨.ok w, n⟩ := scanEscape_inside he hn
        rw [List.drop_append_of_le_length (Nat.le_of_lt hn)] at hc
        have hc' : closeChar w (q.drop n ++ r') = .ok v' m :=
          closeChar_append hc (by rw [List.length_drop]; omega)
        rw [he']
        dsimp only
        rw [List.drop_append_of_le_length (Nat.le_of_lt hn), hc']
        exact Scanned.behind_ok _ _ (by rw [List.length_cons]; omega)
    · rename_i hb
      rw [if_neg hb]
      obtain ⟨v', m, hc, rfl, hm⟩ := Scanned.eq_ok_of_behind h
      simp only [List.length_cons] at hm
      have hc' : closeChar b (q ++ r') = .ok v' m := closeChar_append hc (by omega)
      rw [hc']
      exact Scanned.behind_ok _ _ (by rw [List.length_cons]; omega)

/-! ## 3. Tokens -/

theorem scanMark_append (hr : StopsAt r r') {b : UInt8} {q : List UInt8} {k : TokenKind}
    (h : scanMark b (q ++ r) = .ok k (q.length + 1)) :
    scanMark b (q ++ r') = .ok k (q.length + 1) := by
  unfold scanMark at h ⊢
  split at h
  · rename_i hamp
    obtain ⟨-, hn⟩ := scanned_ok_inj h
    obtain ⟨c, rfl⟩ := List.length_eq_one_iff.1 (by omega : q.length = 1)
    have hamp' : b = asciiByte '&' ∧ ([c] ++ r').head? = some (asciiByte '&') := hamp
    rw [if_pos hamp', h]
  · rename_i hamp
    split at h
    · rename_i hdots
      obtain ⟨-, hn⟩ := scanned_ok_inj h
      have htwo : q.length = 2 := by omega
      have hdots' : b = asciiByte '.' ∧ (q ++ r').take 2 = [asciiByte '.', asciiByte '.'] := by
        rw [List.take_left' htwo] at hdots ⊢
        exact hdots
      have hamp' : ¬ (b = asciiByte '&' ∧ (q ++ r').head? = some (asciiByte '&')) := by
        rintro ⟨ha, -⟩
        rw [hdots'.1] at ha
        revert ha
        decide
      rw [if_neg hamp', if_pos hdots', h]
    · rename_i hdots
      split at h
      · rename_i hk
        obtain ⟨rfl, hn⟩ := scanned_ok_inj h
        obtain rfl : q = [] := List.length_eq_zero_iff.1 (by omega)
        have hamp' : ¬ (b = asciiByte '&' ∧ r'.head? = some (asciiByte '&')) := fun ha =>
          hamp ⟨ha.1, hr.head_eq (by decide) ha.2⟩
        have hdots' : ¬ (b = asciiByte '.' ∧ r'.take 2 = [asciiByte '.', asciiByte '.']) :=
          fun hd => hdots ⟨hd.1, hr.dots hd.2⟩
        rw [List.nil_append, if_neg hamp', if_neg hdots']
        rfl
      · cases h

theorem not_isAlnumByte_of_isSpaceByte {b : UInt8} (h : isSpaceByte b = true) :
    isAlnumByte b = false := by
  simp only [isSpaceByte, Bool.or_eq_true, beq_iff_eq] at h
  rcases h with (((rfl | rfl) | rfl) | rfl) | rfl <;> decide

theorem not_isWordByte_of_isSpaceByte {b : UInt8} (h : isSpaceByte b = true) :
    isWordByte b = false := by
  simp only [isSpaceByte, Bool.or_eq_true, beq_iff_eq] at h
  rcases h with (((rfl | rfl) | rfl) | rfl) | rfl <;> decide

theorem scanPlain_append (hr : StopsAt r r') {b : UInt8} {q : List UInt8} {k : TokenKind}
    (h : scanPlain b (q ++ r) = .ok k (q.length + 1)) :
    scanPlain b (q ++ r') = .ok k (q.length + 1) := by
  unfold scanPlain at h ⊢
  split at h
  · rename_i hb
    obtain ⟨v, m, hs, rfl, hm⟩ := Scanned.eq_ok_of_behind h
    obtain rfl : m = q.length := by omega
    rw [if_pos hb, scanString_append hs]
    exact Scanned.behind_ok _ _ (by omega)
  rename_i hb
  rw [if_neg hb]
  split at h
  · rename_i hb
    obtain ⟨v, m, hs, rfl, hm⟩ := Scanned.eq_ok_of_behind h
    obtain rfl : m = q.length := by omega
    rw [if_pos hb, scanChar_append hs]
    exact Scanned.behind_ok _ _ (by omega)
  rename_i hb
  rw [if_neg hb]
  split at h
  · rename_i hb
    obtain ⟨-, hn⟩ := scanned_ok_inj h
    simp only [List.length_cons] at hn
    obtain ⟨hrun, hrun'⟩ := hr.run (p := isWordByte) (q := q)
      (fun _ => not_isWordByte_of_isSpaceByte) (by omega)
    rw [hrun] at h
    rw [if_pos hb, hrun', h]
  rename_i hb
  rw [if_neg hb]
  split at h
  · rename_i hb
    have hn := congrArg Scanned.width h
    simp only [Scanned.ok, List.length_cons] at hn
    obtain ⟨hrun, hrun'⟩ := hr.run (p := isAlnumByte) (q := q)
      (fun _ => not_isAlnumByte_of_isSpaceByte) (by omega)
    rw [hrun] at h
    rw [if_pos hb, hrun', h]
  · rename_i hb
    rw [if_neg hb]
    exact scanMark_append hr h

/-- **A token is scanned in front of anything that does not go on with it** (`StopsAt`). -/
theorem scanToken_append (hr : StopsAt r r') {b : UInt8} {q : List UInt8} {k : TokenKind}
    (h : scanToken b (q ++ r) = .ok k (q.length + 1)) :
    scanToken b (q ++ r') = .ok k (q.length + 1) := by
  cases q with
  | cons c q =>
    simp only [List.cons_append, scanToken] at h ⊢
    split at h
    · rename_i hwide
      obtain ⟨k, m, hs, rfl, hm⟩ := Scanned.eq_ok_of_behind h
      simp only [List.length_cons] at hm
      obtain rfl : m = q.length + 1 := by omega
      rw [if_pos hwide, scanPlain_append hr hs]
      exact Scanned.behind_ok _ _ (by rw [List.length_cons]; omega)
    · rename_i hplain
      rw [if_neg hplain]
      exact scanPlain_append hr (q := c :: q) h
  | nil =>
    rw [List.nil_append] at h ⊢
    -- a single byte is no wide literal, and none begins with it in front of the other text
    have hplain : scanPlain b r = .ok k 1 ∧
        ∀ c, r.head? = some c → ¬ (b = asciiByte 'L' ∧ isQuoteByte c = true) := by
      unfold scanToken at h
      split at h
      · rename_i c rest
        split at h
        · obtain ⟨k', m, hs, -, hm⟩ := Scanned.eq_ok_of_behind h
          have hpos := width_scanPlain_pos c rest
          rw [hs] at hpos
          simp only [List.length_nil, Scanned.ok] at hm hpos
          omega
        · rename_i hq
          refine ⟨h, fun c' hc' => ?_⟩
          obtain rfl := Option.some.inj hc'
          exact hq
      · exact ⟨h, fun c' hc' => by cases hc'⟩
    have hs : scanPlain b r' = .ok k 1 := scanPlain_append hr (q := []) hplain.1
    unfold scanToken
    split
    · rename_i c rest
      rw [if_neg, hs]
      · rfl
      · rintro ⟨hL, hq⟩
        have hblank : isSpaceByte c = false := by
          simp only [isQuoteByte, Bool.or_eq_true, beq_iff_eq] at hq
          rcases hq with rfl | rfl <;> decide
        exact hplain.2 c (hr.head_eq hblank rfl) ⟨hL, hq⟩
    · exact hs

/-- A byte at which a token begins. -/
theorem trivia_eq_none_iff {s : Bool} {b : UInt8} {bs : List UInt8} : trivia s b bs = none ↔
    isSpaceByte b = false ∧
      (b = asciiByte '/' → bs.head? ≠ some (asciiByte '/') ∧ bs.head? ≠ some (asciiByte '*')) ∧
      ¬ (b = asciiByte '#' ∧ s = true) := by
  unfold trivia
  cases hb : isSpaceByte b with
  | true => simp
  | false =>
    by_cases hslash : b = asciiByte '/'
    · subst hslash
      have hhash : asciiByte '/' ≠ asciiByte '#' := by decide
      cases bs with
      | nil => simp [hhash]
      | cons c cs =>
        by_cases h₁ : c = asciiByte '/'
        · simp [h₁]
        · by_cases h₂ : c = asciiByte '*'
          · subst h₂
            simp [h₁]
          · simp [h₁, h₂, hhash]
    · simp [hslash]

/-- What is a token in front of the one is no comment in front of the other. -/
theorem trivia_append_eq_none (hr : StopsAt r r') {s : Bool} {b : UInt8} {q : List UInt8}
    (h : trivia s b (q ++ r) = none) : trivia s b (q ++ r') = none := by
  obtain ⟨hb, hslash, hhash⟩ := trivia_eq_none_iff.1 h
  have hhead : ∀ c, isSpaceByte c = false → (q ++ r').head? = some c →
      (q ++ r).head? = some c := by
    intro c hs hc
    cases q with
    | nil => exact hr.head_eq hs hc
    | cons d q => exact hc
  exact trivia_eq_none_iff.2 ⟨hb, fun hs => ⟨mt (hhead _ (by decide)) (hslash hs).1,
    mt (hhead _ (by decide)) (hslash hs).2⟩, hhash⟩

end Stops

/-! ## 4. Widths -/

theorem width_scanEscape_le {bs : List UInt8} {v : UInt8} {n : Nat}
    (h : scanEscape bs = .ok v n) : n ≤ bs.length := by
  unfold scanEscape at h
  split at h
  · cases h
  · rename_i b bs
    rw [List.length_cons]
    split at h
    · obtain ⟨-, rfl⟩ := scanned_ok_inj h
      omega
    · split at h
      · dsimp only at h
        split at h
        · cases h
        · obtain ⟨-, rfl⟩ := scanned_ok_inj h
          have := (List.takeWhile_prefix (p := fun d => (hexByte? d).isSome) (l := bs)).length_le
          omega
      · split at h
        · obtain ⟨-, rfl⟩ := scanned_ok_inj h
          have := (List.takeWhile_prefix (p := isOctalByte) (l := bs.take 2)).length_le
          rw [List.length_take] at this
          rw [List.length_cons]
          omega
        · cases h

theorem width_scanString_le {bs : List UInt8} : ∀ {v : List UInt8} {n : Nat},
    scanString bs = .ok v n → n ≤ bs.length := by
  fun_induction scanString bs with
  | case1 => exact fun h => nomatch h
  | case2 bs =>
    intro v n h
    obtain ⟨-, rfl⟩ := scanned_ok_inj h
    simp
  | case3 => exact fun h => nomatch h
  | case4 bs hhead _ _ ih =>
    intro v n h
    obtain ⟨_, m, hs, -, rfl⟩ := Scanned.eq_ok_of_behind h
    have hle := ih hs
    have hlen : bs.length ≠ 0 := by
      intro h0
      rw [List.length_eq_zero_iff.1 h0] at hhead
      cases hhead
    rw [List.length_drop] at hle
    rw [List.length_cons]
    omega
  | case5 => exact fun h => nomatch h
  | case6 bs _ e w he =>
    rename_i ih
    intro v n h
    obtain ⟨_, m, hs, -, rfl⟩ := Scanned.eq_ok_of_behind h
    have hle := ih hs
    have hlen : e.width ≤ bs.length :=
      width_scanEscape_le (v := w) (show e = ⟨.ok w, e.width⟩ by rw [← he])
    rw [List.length_drop] at hle
    rw [List.length_cons]
    omega
  | case7 b bs _ _ _ ih =>
    intro v n h
    obtain ⟨_, m, hs, -, rfl⟩ := Scanned.eq_ok_of_behind h
    have hle := ih hs
    rw [List.length_cons]
    omega

theorem width_closeChar_le {w v : UInt8} {bs : List UInt8} {n : Nat}
    (h : closeChar w bs = .ok v n) : n ≤ bs.length := by
  obtain ⟨q, rfl, -, rfl⟩ := eq_cons_of_closeChar h
  rw [List.length_cons]
  omega

theorem width_scanChar_le {bs : List UInt8} {v : UInt8} {n : Nat} (h : scanChar bs = .ok v n) :
    n ≤ bs.length := by
  unfold scanChar at h
  split at h
  · cases h
  rename_i b bs
  rw [List.length_cons]
  split at h
  · cases h
  split at h
  · cases h
  split at h
  · cases he : scanEscape bs with
    | mk o m =>
    cases o with
    | error f =>
      rw [he] at h
      cases h
    | ok w =>
      rw [he] at h
      obtain ⟨_, m', hc, -, rfl⟩ := Scanned.eq_ok_of_behind h
      have hclose := width_closeChar_le hc
      have hescape := width_scanEscape_le he
      dsimp only at hclose ⊢
      rw [List.length_drop] at hclose
      omega
  · obtain ⟨_, m', hc, -, rfl⟩ := Scanned.eq_ok_of_behind h
    have hclose := width_closeChar_le hc
    omega

theorem width_scanMark_le {b : UInt8} {bs : List UInt8} {k : TokenKind} {n : Nat}
    (h : scanMark b bs = .ok k n) : n ≤ bs.length + 1 := by
  unfold scanMark at h
  split at h
  · rename_i hamp
    obtain ⟨-, rfl⟩ := scanned_ok_inj h
    cases bs with
    | nil => cases hamp.2
    | cons c bs => simp
  · split at h
    · rename_i hdots
      obtain ⟨-, rfl⟩ := scanned_ok_inj h
      have hlen := congrArg List.length hdots.2
      rw [List.length_take] at hlen
      simp only [List.length_cons, List.length_nil] at hlen
      omega
    · split at h
      · obtain ⟨-, rfl⟩ := scanned_ok_inj h
        omega
      · cases h

theorem width_scanPlain_le {b : UInt8} {bs : List UInt8} {k : TokenKind} {n : Nat}
    (h : scanPlain b bs = .ok k n) : n ≤ bs.length + 1 := by
  unfold scanPlain at h
  split at h
  · obtain ⟨_, m, hs, -, rfl⟩ := Scanned.eq_ok_of_behind h
    have := width_scanString_le hs
    omega
  split at h
  · obtain ⟨_, m, hs, -, rfl⟩ := Scanned.eq_ok_of_behind h
    have := width_scanChar_le hs
    omega
  split at h
  · obtain ⟨-, rfl⟩ := scanned_ok_inj h
    exact Nat.succ_le_succ (List.takeWhile_prefix _).length_le
  split at h
  · have hn := congrArg Scanned.width h
    simp only [Scanned.ok, List.length_cons] at hn
    have := (List.takeWhile_prefix (p := isAlnumByte) (l := bs)).length_le
    omega
  · exact width_scanMark_le h

/-- **No token that `scanToken` finds takes more bytes than there are.** -/
theorem width_scanToken_le {b : UInt8} {bs : List UInt8} {k : TokenKind} {n : Nat}
    (h : scanToken b bs = .ok k n) : n ≤ bs.length + 1 := by
  unfold scanToken at h
  split at h
  · split at h
    · obtain ⟨_, m, hs, -, rfl⟩ := Scanned.eq_ok_of_behind h
      have := width_scanPlain_le hs
      rw [List.length_cons]
      omega
    · exact width_scanPlain_le h
  · exact width_scanPlain_le h
end TypeLedger
