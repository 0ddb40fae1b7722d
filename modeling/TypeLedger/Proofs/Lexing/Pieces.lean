import TypeLedger.Proofs.Lexing.Steps

/-!
# The pieces of a text

* `Piece`: a blank, a comment, a directive, a token, or what has been read of a token that is none,
  with its bytes. `Cursor.Step` is the step of a walk over one piece, `Cursor.Walked` a walk over
  any number of them, which goes on behind an error.
* `Walked.rest` and `Walked.location`: the pieces are all that the walk has passed, and its location
  is the place behind them.
* `Step.next`: what `Cursor.next` makes of a step. `Runs.walked`: a run of `next` is a walk.
* `Cursor.Fails`: in front of the walk is an error. `walked_of_error`: where an error says, a walk
  fails.
-/

namespace TypeLedger

/-! ## 1. Steps -/

/-- What a piece of a text is. -/
inductive PieceKind
  | blank
  | comment
  | directive
  | token (kind : TokenKind)
  /-- The bytes of no token, as far as they have been read. -/
  | failed (fault : LexFault)
deriving DecidableEq, Repr

/-- A piece of a text. -/
structure Piece where
  kind : PieceKind
  bytes : List UInt8
deriving DecidableEq, Repr

/-- What it is that begins with a byte and is passed over. -/
def PieceKind.passed (b : UInt8) : PieceKind :=
  if isSpaceByte b then .blank else if b = asciiByte '#' then .directive else .comment

/-- What it is that a scan has read. -/
def PieceKind.scanned : Except LexFault TokenKind → PieceKind
  | .ok k => .token k
  | .error f => .failed f

/-- The piece was read as a token, also if it is none. -/
def PieceKind.isRead : PieceKind → Bool
  | .token _ | .failed _ => true
  | .blank | .comment | .directive => false

@[simp] theorem PieceKind.isRead_passed (b : UInt8) : (passed b).isRead = false := by
  unfold passed
  split
  · rfl
  · split <;> rfl

@[simp] theorem PieceKind.isRead_scanned (o : Except LexFault TokenKind) :
    (scanned o).isRead = true := by
  cases o <;> rfl

theorem PieceKind.scanned_ne {o : Except LexFault TokenKind} {k : PieceKind}
    (hk : k.isRead = false) : scanned o ≠ k := by
  rintro rfl
  rw [isRead_scanned] at hk
  cases hk

/-- A scan has read its first byte. -/
theorem take_width_scanToken (b : UInt8) (bs : List UInt8) :
    ∃ m, (b :: bs).take (scanToken b bs).width = b :: bs.take m := by
  obtain ⟨m, hm⟩ := Nat.exists_eq_add_of_lt (width_scanToken_pos b bs)
  exact ⟨m, by rw [hm, Nat.zero_add, List.take_succ_cons]⟩

namespace Cursor

/-- A walk passes over a blank, a comment or a directive, or reads a token or the bytes of none. A
comment that does not end takes all that is left. -/
inductive Step (c : Cursor) : Piece → Cursor → Prop
  | pass {b : UInt8} {bs : List UInt8} {t : Scanned Unit} (hc : c.rest = b :: bs)
      (ht : trivia c.atLineStart b bs = some t) :
      Step c ⟨.passed b, b :: bs.take t.width⟩ (c.skip (1 + t.width))
  | scan {b : UInt8} {bs : List UInt8} {s : Scanned TokenKind} (hc : c.rest = b :: bs)
      (ht : trivia c.atLineStart b bs = none) (hs : scanToken b bs = s) :
      Step c ⟨.scanned s.outcome, (b :: bs).take s.width⟩ (c.midLine.skip s.width)

/-- A walk goes on, piece by piece (`Step`). -/
inductive Walked (c : Cursor) : List Piece → Cursor → Prop
  | start : Walked c [] c
  | step {ps : List Piece} {d e : Cursor} {p : Piece} (h : Walked c ps d) (hs : d.Step p e) :
      Walked c (ps ++ [p]) e

/-- What is in front of the walk is an error: a comment that does not end, or no token. -/
inductive Fails (c : Cursor) : LexFault → Prop
  | trivia {b : UInt8} {bs : List UInt8} {f : LexFault} {n : Nat} (hc : c.rest = b :: bs)
      (ht : TypeLedger.trivia c.atLineStart b bs = some (.fail f n)) : Fails c f
  | token {b : UInt8} {bs : List UInt8} {f : LexFault} {n : Nat} (hc : c.rest = b :: bs)
      (ht : TypeLedger.trivia c.atLineStart b bs = none) (hs : scanToken b bs = .fail f n) :
      Fails c f

variable {c d : Cursor} {p : Piece} {ps : List Piece} {f : LexFault}

/-- **A walk stops only at the end of its text:** elsewhere there is a `Cursor.Step`. -/
theorem exists_step (hc : c.rest ≠ []) : ∃ p d, c.Step p d := by
  obtain ⟨b, bs, hc⟩ := List.exists_cons_of_ne_nil hc
  cases ht : TypeLedger.trivia c.atLineStart b bs with
  | none => exact ⟨_, _, .scan hc ht rfl⟩
  | some t => exact ⟨_, _, .pass hc ht⟩

/-- **What a step is to `next`.** The next token is the same behind what is passed over, or it is
the one that is read, or there is an error here. -/
theorem Step.next (h : c.Step p d) :
    c.next = d.next ∨ (∃ k, p.kind = .token k ∧ c.next = .token ⟨k, c.location⟩ d) ∨
      ∃ f, c.Fails f ∧ c.next = .failed ⟨c.location, .lex f⟩ d := by
  cases h with
  | @pass b bs t hc ht =>
    rcases t with ⟨f | ⟨⟩, n⟩
    · refine .inr (.inr ⟨f, .trivia hc ht, ?_⟩)
      rw [next_cons hc, ht]
    · exact .inl (next_pass hc ht)
  | @scan b bs s hc ht hs =>
    rcases s with ⟨f | k, n⟩
    · refine .inr (.inr ⟨f, .token hc ht hs, ?_⟩)
      rw [next_cons hc, ht, hs]
    · exact .inr (.inl ⟨k, rfl, next_token hc ht hs⟩)

/-- A step takes the bytes of the piece, at least one. -/
theorem Step.rest (h : c.Step p d) : c.rest = p.bytes ++ d.rest ∧ p.bytes ≠ [] := by
  cases h with
  | @pass b bs t hc ht =>
    rw [rest_skip, hc, Nat.add_comm, List.drop_succ_cons]
    exact ⟨by rw [List.cons_append, List.take_append_drop], List.cons_ne_nil _ _⟩
  | @scan b bs s hc ht hs =>
    obtain ⟨m, hbytes⟩ := take_width_scanToken b bs
    rw [rest_skip, rest_midLine, hc, List.take_append_drop, ← hs, hbytes]
    exact ⟨rfl, List.cons_ne_nil _ _⟩

/-- A walk shortens what is to come. -/
theorem Step.length_lt (h : c.Step p d) : d.rest.length < c.rest.length := by
  obtain ⟨hrest, hne⟩ := h.rest
  have := List.length_pos_iff.2 hne
  rw [hrest, List.length_append]
  omega

theorem Step.location (h : c.Step p d) : d.location = c.location.across p.bytes := by
  cases h with
  | pass hc ht => rw [location_skip, hc, Nat.add_comm, List.take_succ_cons]
  | scan hc ht hs => rw [location_skip, rest_midLine, hc]; rfl

/-- A line feed in a piece opens a line; what is read closes it. -/
theorem Step.atLineStart (h : c.Step p d) : d.atLineStart =
    (c.atLineStart && !p.kind.isRead || p.bytes.contains lineFeed) := by
  cases h with
  | @pass b bs t hc ht =>
    rw [atLineStart_skip, hc, Nat.add_comm, List.take_succ_cons, PieceKind.isRead_passed,
      Bool.not_false, Bool.and_true]
  | scan hc ht hs =>
    rw [atLineStart_skip, atLineStart_midLine, rest_midLine, hc, PieceKind.isRead_scanned,
      Bool.not_true, Bool.and_false]

/-! ## 2. Walks -/

/-- **The pieces are all that a walk has passed** (`Walked`). -/
theorem Walked.rest (h : c.Walked ps d) : c.rest = ps.flatMap Piece.bytes ++ d.rest := by
  induction h with
  | start => rfl
  | step _ hs ih =>
    rw [ih, hs.rest.1, List.flatMap_append, List.flatMap_singleton, List.append_assoc]

theorem Walked.location (h : c.Walked ps d) :
    d.location = c.location.across (ps.flatMap Piece.bytes) := by
  induction h with
  | start => rfl
  | step _ hs ih =>
    rw [hs.location, ih, List.flatMap_append, List.flatMap_singleton, Location.across_append]

theorem Walked.append {qs : List Piece} {e : Cursor} (h : c.Walked ps d) (h' : d.Walked qs e) :
    c.Walked (ps ++ qs) e := by
  induction h' with
  | start => rwa [List.append_nil]
  | step _ hs ih =>
    rw [← List.append_assoc]
    exact ih.step hs

theorem Step.walked (hs : c.Step p d) : c.Walked [p] d := .step .start hs

/-- Every piece was a step of the walk. -/
theorem Walked.mem (h : c.Walked ps d) : ∀ p ∈ ps, ∃ a b, Step a p b := by
  induction h with
  | start => exact fun _ hp => absurd hp List.not_mem_nil
  | @step ps d e p h hs ih =>
    intro q hq
    rcases List.mem_append.1 hq with hq | hq
    · exact ih q hq
    · rw [List.mem_singleton.1 hq]
      exact ⟨d, e, hs⟩

/-- `next` walks up to the token that it reads, or over the error. The induction is on the number of
bytes to come. -/
theorem walked_of_next (c : Cursor) {e : Cursor}
    (h : (∃ t, c.next = .token t e) ∨ ∃ x, c.next = .failed x e) : ∃ ps, c.Walked ps e := by
  by_cases hc : c.rest = []
  · rw [next_nil hc] at h
    rcases h with ⟨_, h⟩ | ⟨_, h⟩ <;> cases h
  obtain ⟨p, d, hs⟩ := exists_step hc
  have hlt := hs.length_lt
  rcases hs.next with hn | ⟨k, -, hn⟩ | ⟨f, -, hn⟩
  · rw [hn] at h
    obtain ⟨ps, hw⟩ := walked_of_next d h
    exact ⟨p :: ps, hs.walked.append hw⟩
  all_goals
    rw [hn] at h
    rcases h with ⟨_, h⟩ | ⟨_, h⟩ <;> cases h
    exact ⟨[p], hs.walked⟩
termination_by c.rest.length

/-- The places that a run of `next` reaches. It goes on behind a token and behind an error. -/
inductive Runs (c : Cursor) : Cursor → Prop
  | start : Runs c c
  | next {d e : Cursor} (h : Runs c d)
      (hn : (∃ t, d.next = .token t e) ∨ ∃ x, d.next = .failed x e) : Runs c e

/-- **A run of `next` is a walk.** -/
theorem Runs.walked (h : c.Runs d) : ∃ ps, c.Walked ps d := by
  induction h with
  | start => exact ⟨[], .start⟩
  | next _ hn ih =>
    obtain ⟨ps, hw⟩ := ih
    obtain ⟨qs, hw'⟩ := walked_of_next _ hn
    exact ⟨ps ++ qs, hw.append hw'⟩

/-- **Where an error says, a walk `Fails`.** The induction is on the number of bytes to come. -/
theorem walked_of_error (c : Cursor) {e : SourceError} (he : (Walk.ofCursor c).error = some e) :
    ∃ ps d f, c.Walked ps d ∧ d.Fails f ∧ e = ⟨d.location, .lex f⟩ := by
  by_cases hc : c.rest = []
  · rw [Walk.ofCursor_nil hc] at he
    cases he
  obtain ⟨p, d, hs⟩ := exists_step hc
  have hlt := hs.length_lt
  have behind : (Walk.ofCursor d).error = some e →
      ∃ ps d f, c.Walked ps d ∧ d.Fails f ∧ e = ⟨d.location, .lex f⟩ := by
    intro herror
    obtain ⟨ps, d', f, hw, hf, rfl⟩ := walked_of_error d herror
    exact ⟨p :: ps, d', f, hs.walked.append hw, hf, rfl⟩
  rcases hs.next with hn | ⟨k, -, hn⟩ | ⟨f, hf, hn⟩
  · exact behind (ofCursor_of_next_eq hn ▸ he)
  · refine behind ?_
    rw [Walk.ofCursor, hn] at he
    exact he
  · rw [Walk.ofCursor, hn] at he
    exact ⟨[], c, f, .start, hf, (Option.some.inj he).symm⟩
termination_by c.rest.length

end Cursor

/-- A text that has no tokens to it fails at some place. -/
theorem walked_of_tokenize_error {bs : List UInt8} {e : SourceError} (h : tokenize bs = .error e) :
    ∃ ps d f, (Cursor.ofBytes bs).Walked ps d ∧ d.Fails f ∧ e = ⟨d.location, .lex f⟩ := by
  unfold tokenize at h
  simp only at h
  split at h
  · rename_i he
    cases h
    exact Cursor.walked_of_error _ he
  · cases h

/-! ## 3. Walks step by step -/

deriving instance DecidableEq for Cursor

namespace Cursor

/-- The step that a walk makes, if there is a byte. -/
def step? (c : Cursor) : Option (Piece × Cursor) :=
  match c.rest with
  | [] => none
  | b :: bs =>
    match TypeLedger.trivia c.atLineStart b bs with
    | some t => some (⟨.passed b, b :: bs.take t.width⟩, c.skip (1 + t.width))
    | none =>
      let s := scanToken b bs
      some (⟨.scanned s.outcome, (b :: bs).take s.width⟩, c.midLine.skip s.width)

/-- A walk of `n` steps. -/
def walkFor : Nat → Cursor → Option (List Piece × Cursor)
  | 0, c => some ([], c)
  | n + 1, c => do
    let (p, d) ← c.step?
    let (ps, e) ← walkFor n d
    return (p :: ps, e)

theorem step_of_step? {c d : Cursor} {p : Piece} (h : c.step? = some (p, d)) : c.Step p d := by
  unfold step? at h
  split at h
  · cases h
  rename_i b bs hc
  split at h
  · rename_i t ht
    cases h
    exact .pass hc ht
  · rename_i ht
    cases h
    exact .scan hc ht rfl

theorem walked_of_walkFor {n : Nat} {c d : Cursor} {ps : List Piece}
    (h : walkFor n c = some (ps, d)) : c.Walked ps d := by
  induction n generalizing c ps with
  | zero =>
    cases h
    exact .start
  | succ n ih =>
    obtain ⟨⟨p, d'⟩, hs, h⟩ := Option.bind_eq_some_iff.1 h
    obtain ⟨⟨qs, e⟩, hw, h⟩ := Option.bind_eq_some_iff.1 h
    cases h
    exact (step_of_step? hs).walked.append (ih hw)

end Cursor

end TypeLedger
