import Mathlib.Control.Monad.Basic
import TypeLedger.Proofs.Lexing.Pieces
import TypeLedger.Proofs.Lexing.Scanned

/-!
# Where directives begin

* `lineSoFar`: the bytes that a walk has passed since the last line feed, each with the piece that
  it belongs to. `Spare`: those in front of which a line is still taken to begin.
* `LineKept`: the walk is at the start of a line exactly if all bytes of the line so far are spare.
  `LineKept.step` is one step, `lineKept_walked` is the run.
* `directive_begins_line`: at a number sign a walk passes over a directive or fails, and which it
  does is said by the line so far. `string_begins_line` is a text in which a string literal is
  spare.
-/

namespace TypeLedger

/-! ## 1. The line so far -/

/-- The bytes of a piece, each with the piece. -/
def Piece.marked (p : Piece) : List (UInt8 × Piece) := p.bytes.map fun b => (b, p)

/-- The bytes of some pieces behind the last line feed among them, the last byte first. -/
def lineSoFar (ps : List Piece) : List (UInt8 × Piece) :=
  (ps.flatMap Piece.marked).reverse.takeWhile fun x => x.1 != lineFeed

/-- The piece is a literal that goes over the end of a line: a string, or a literal that fails. -/
def Piece.Broken (p : Piece) : Prop :=
  ((∃ v, p.kind = .token (.stringLit v)) ∨ ∃ f, f.isLiteral = true ∧ p.kind = .failed f) ∧
    lineFeed ∈ p.bytes

/-- The byte is white space, or lies in a comment or in a literal that goes over the end of a
line. -/
def Spare (x : UInt8 × Piece) : Prop :=
  isSpaceByte x.1 = true ∨ x.2.kind = .comment ∨ x.2.Broken

section Line

variable {ps : List Piece} {p : Piece} {x : UInt8 × Piece}

theorem mem_marked : x ∈ p.marked ↔ x.1 ∈ p.bytes ∧ x.2 = p := by
  constructor
  · intro h
    obtain ⟨b, hb, rfl⟩ := List.mem_map.1 h
    exact ⟨hb, rfl⟩
  · rintro ⟨hb, rfl⟩
    exact List.mem_map.2 ⟨x.1, hb, rfl⟩

theorem lineSoFar_append (ps : List Piece) (p : Piece) : lineSoFar (ps ++ [p]) =
    (p.marked.reverse ++ (ps.flatMap Piece.marked).reverse).takeWhile fun x => x.1 != lineFeed := by
  rw [lineSoFar, List.flatMap_append, List.flatMap_singleton, List.reverse_append]

/-- A piece without a line feed stands on the line with all its bytes. -/
theorem mem_lineSoFar_of_unbroken (h : lineFeed ∉ p.bytes) :
    x ∈ lineSoFar (ps ++ [p]) ↔ x ∈ p.marked ∨ x ∈ lineSoFar ps := by
  have hall : ∀ y ∈ p.marked.reverse, (y.1 != lineFeed) = true := by
    intro y hy
    rw [List.mem_reverse, mem_marked] at hy
    exact bne_iff_ne.2 fun he => h (he ▸ hy.1)
  rw [lineSoFar_append, List.takeWhile_append_of_pos hall, List.mem_append, List.mem_reverse]
  rfl

/-- Behind a piece with a line feed only bytes of the piece stand on the line. -/
theorem mem_marked_of_broken (h : lineFeed ∈ p.bytes) (hx : x ∈ lineSoFar (ps ++ [p])) :
    x ∈ p.marked := by
  rw [lineSoFar_append, List.takeWhile_append] at hx
  split at hx
  · rename_i hlen
    have hall := (List.takeWhile_prefix _).eq_of_length hlen
    have hfeed : (lineFeed, p) ∈ p.marked.reverse := List.mem_reverse.2 (mem_marked.2 ⟨h, rfl⟩)
    rw [← hall] at hfeed
    exact absurd (List.all_eq_true.1 List.all_takeWhile _ hfeed) (by simp)
  · exact List.mem_reverse.1 ((List.takeWhile_prefix _).subset hx)

end Line

/-! ## 2. What a step does to the line -/

/-- A directive ends in front of a line feed, or at the end of the text. -/
theorem drop_directiveWidth (bs : List UInt8) :
    bs.drop (directiveWidth bs) = [] ∨ ∃ r, bs.drop (directiveWidth bs) = lineFeed :: r := by
  fun_induction directiveWidth bs with
  | case1 => exact .inl rfl
  | case2 => exact .inr ⟨[], rfl⟩
  | case3 => exact .inl rfl
  | case4 b c bs h ih => rwa [Nat.add_comm, List.drop_succ_cons, List.drop_succ_cons]
  | case5 c bs _ => exact .inr ⟨c :: bs, rfl⟩
  | case6 b c bs h h' ih => rwa [Nat.add_comm, List.drop_succ_cons]

/-- What is passed over is a blank, or it is a comment, or it is a directive at the start of a
line. -/
theorem front_of_trivia {s : Bool} {b : UInt8} {bs : List UInt8} {t : Scanned Unit}
    (h : trivia s b bs = some t) : (isSpaceByte b = true ∧ t.width = 0) ∨ b = asciiByte '/' ∨
      b = asciiByte '#' ∧ s = true ∧ t = .ok () (directiveWidth bs) := by
  unfold trivia at h
  split at h
  · cases h
    exact .inl ⟨‹_›, rfl⟩
  split at h
  · exact .inr (.inl ‹_›)
  split at h
  · rename_i hhash
    cases h
    exact .inr (.inr ⟨hhash.1, hhash.2, rfl⟩)
  · cases h

namespace Cursor

variable {c d : Cursor} {p : Piece} {ps : List Piece}

theorem Step.rest_of_directive (h : c.Step p d) (hp : p.kind = .directive) :
    d.rest = [] ∨ ∃ r, d.rest = lineFeed :: r := by
  cases h with
  | scan => exact absurd hp (PieceKind.scanned_ne rfl)
  | @pass b bs t hc ht =>
    rcases front_of_trivia ht with ⟨hb, -⟩ | rfl | ⟨-, -, rfl⟩
    · have hblank : PieceKind.passed b = .blank := if_pos hb
      rw [hblank] at hp
      cases hp
    · cases hp
    · rw [rest_skip, hc, Nat.add_comm, List.drop_succ_cons]
      exact drop_directiveWidth bs

/-- **What a step adds to the line.** The bytes of a piece are `Spare`, or it is a directive, or it
stands on one line and was read from a byte that is not spare. -/
theorem Step.spare (h : c.Step p d) :
    ((∀ x ∈ p.marked, Spare x ∨ x.2.kind = .directive) ∧
        (p.kind.isRead = false ∨ lineFeed ∈ p.bytes)) ∨
      (p.kind.isRead = true ∧ lineFeed ∉ p.bytes ∧ ∃ x ∈ p.marked, ¬ Spare x) := by
  cases h with
  | @pass b bs t hc ht =>
    refine .inl ⟨fun x hx => ?_, .inl (PieceKind.isRead_passed b)⟩
    obtain ⟨hb, hp⟩ := mem_marked.1 hx
    rcases front_of_trivia ht with ⟨hspace, hwidth⟩ | rfl | ⟨rfl, -, -⟩
    · rw [hwidth, List.take_zero, List.mem_singleton] at hb
      exact .inl (.inl (hb ▸ hspace))
    · exact .inl (.inr (.inl (by rw [hp]; rfl)))
    · exact .inr (by rw [hp]; rfl)
  | @scan b bs s hc ht hs =>
    subst hs
    have hspace : isSpaceByte b = false := (trivia_eq_none_iff.1 ht).1
    obtain ⟨m, hbytes⟩ := take_width_scanToken b bs
    by_cases hfeed : lineFeed ∈ (b :: bs).take (scanToken b bs).width
    · refine .inl ⟨fun x hx => .inl (.inr (.inr ?_)), .inr hfeed⟩
      have hhead : ((b :: bs).take (scanToken b bs).width).head? ≠ some lineFeed := by
        rw [hbytes]
        intro hb
        rw [Option.some.inj hb] at hspace
        cases hspace
      rw [(mem_marked.1 hx).2]
      refine ⟨?_, hfeed⟩
      obtain ⟨v, ho⟩ | ⟨f, hf, ho⟩ := (scannedBytes_scanToken b bs).of_lineFeed hfeed hhead
      · exact .inl ⟨v, by rw [ho]; rfl⟩
      · exact .inr ⟨f, hf, by rw [ho]; rfl⟩
    · refine .inr ⟨PieceKind.isRead_scanned _, hfeed, (b, _), mem_marked.2 ⟨?_, rfl⟩, ?_⟩
      · rw [hbytes]
        exact List.mem_cons_self
      · rintro (hb | hkind | ⟨-, hmem⟩)
        · rw [hspace] at hb
          cases hb
        · exact PieceKind.scanned_ne rfl hkind
        · exact hfeed hmem

/-- Only comments, directives and literals have number signs in them; by itself it is an error. -/
theorem Step.hash (h : c.Step p d) (hm : asciiByte '#' ∈ p.bytes) :
    p.kind = .comment ∨ p.kind = .directive ∨ (∃ v, p.kind = .token (.stringLit v)) ∨
      (∃ v, p.kind = .token (.charLit v)) ∨ (∃ f, f.isLiteral = true ∧ p.kind = .failed f) ∨
      p = ⟨.failed (.invalidByte (asciiByte '#')), [asciiByte '#']⟩ := by
  cases h with
  | @pass b bs t hc ht =>
    rcases front_of_trivia ht with ⟨hspace, hwidth⟩ | rfl | ⟨rfl, -, -⟩
    · rw [hwidth, List.take_zero, List.mem_singleton] at hm
      rw [← hm] at hspace
      cases hspace
    · exact .inl rfl
    · exact .inr (.inl rfl)
  | @scan b bs s hc ht hs =>
    subst hs
    obtain ⟨v, ho⟩ | ⟨v, ho⟩ | ⟨f, hf, ho⟩ | ⟨hb, ho⟩ := (scannedBytes_scanToken b bs).of_hash hm
    · exact .inr (.inr (.inl ⟨v, by rw [ho]; rfl⟩))
    · exact .inr (.inr (.inr (.inl ⟨v, by rw [ho]; rfl⟩)))
    · exact .inr (.inr (.inr (.inr (.inl ⟨f, hf, by rw [ho]; rfl⟩))))
    · exact .inr (.inr (.inr (.inr (.inr (by rw [ho, hb]; rfl)))))

end Cursor

/-! ## 3. Walks -/

/-- What the flag of a walk says of the line so far. Behind a directive the line is over. -/
structure LineKept (ps : List Piece) (c : Cursor) : Prop where
  opened : c.atLineStart = true → ∀ x ∈ lineSoFar ps, Spare x ∨ x.2.kind = .directive
  closed : c.atLineStart = false → ∃ x ∈ lineSoFar ps, ¬ Spare x
  ended : ∀ x ∈ lineSoFar ps, x.2.kind = .directive → c.rest = [] ∨ ∃ r, c.rest = lineFeed :: r

theorem LineKept.step {ps : List Piece} {p : Piece} {c d : Cursor} (h : LineKept ps c)
    (hs : c.Step p d) : LineKept (ps ++ [p]) d := by
  have hstart := hs.atLineStart
  by_cases hfeed : lineFeed ∈ p.bytes
  · -- the line begins in the piece
    rw [List.contains_iff_mem.2 hfeed, Bool.or_true] at hstart
    refine ⟨fun _ x hx => ?_, fun hd => ?_, fun x hx hk => ?_⟩
    · rcases hs.spare with ⟨hall, -⟩ | ⟨-, hno, -⟩
      · exact hall x (mem_marked_of_broken hfeed hx)
      · exact absurd hfeed hno
    · rw [hstart] at hd
      cases hd
    · rw [(mem_marked.1 (mem_marked_of_broken hfeed hx)).2] at hk
      exact hs.rest_of_directive hk
  · rw [contains_eq_false hfeed, Bool.or_false] at hstart
    refine ⟨fun hd x hx => ?_, fun hd => ?_, fun x hx hk => ?_⟩
    · rw [hstart, Bool.and_eq_true] at hd
      rcases (mem_lineSoFar_of_unbroken hfeed).1 hx with hx | hx
      · rcases hs.spare with ⟨hall, -⟩ | ⟨hread, -, -⟩
        · exact hall x hx
        · rw [hread] at hd
          cases hd.2
      · exact h.opened hd.1 x hx
    · rcases hs.spare with ⟨-, hread | hmem⟩ | ⟨-, -, x, hx, hspare⟩
      · have hclosed : c.atLineStart = false := by
          rwa [hstart, hread, Bool.not_false, Bool.and_true] at hd
        obtain ⟨x, hx, hspare⟩ := h.closed hclosed
        exact ⟨x, (mem_lineSoFar_of_unbroken hfeed).2 (.inr hx), hspare⟩
      · exact absurd hmem hfeed
      · exact ⟨x, (mem_lineSoFar_of_unbroken hfeed).2 (.inl hx), hspare⟩
    · rcases (mem_lineSoFar_of_unbroken hfeed).1 hx with hx | hx
      · rw [(mem_marked.1 hx).2] at hk
        exact hs.rest_of_directive hk
      · -- the line was over, so the piece is the line feed
        obtain ⟨hrest, hne⟩ := hs.rest
        obtain ⟨b, q, hq⟩ := List.exists_cons_of_ne_nil hne
        rw [hq] at hrest hfeed
        rcases h.ended x hx hk with hc | ⟨r, hc⟩
        · rw [hc] at hrest
          cases hrest
        · rw [hc] at hrest
          obtain ⟨rfl, -⟩ := List.cons.inj hrest
          exact absurd List.mem_cons_self hfeed

/-- **A walk keeps to its lines** (`LineKept`). The induction is on the walk. -/
theorem lineKept_walked {bs : List UInt8} {ps : List Piece} {c : Cursor}
    (h : (Cursor.ofBytes bs).Walked ps c) : LineKept ps c := by
  induction h with
  | start =>
    exact ⟨fun _ _ hx => absurd hx List.not_mem_nil, nofun, fun _ hx => absurd hx List.not_mem_nil⟩
  | step _ hs ih => exact ih.step hs

/-- A number sign is no token. -/
theorem scanToken_hash (bs : List UInt8) :
    scanToken (asciiByte '#') bs = .fail (.invalidByte (asciiByte '#')) 1 := by
  cases bs <;> rfl

/-- **At a number sign a walk passes over a directive or fails.** It passes over the directive if
all bytes behind the last line feed (`lineSoFar`) are `Spare`: they are white space, or lie in
comments, or in a literal that goes over that line feed, which is a string, or a literal that fails.
Else it fails at the number sign. Every number sign that a walk has passed (`Cursor.Walked`) lies in
a comment, a directive or a literal, or was an error. -/
theorem directive_begins_line {bs : List UInt8} {ps : List Piece} {c : Cursor}
    (h : (Cursor.ofBytes bs).Walked ps c) :
    bs = ps.flatMap Piece.bytes ++ c.rest ∧
      c.location = Location.start.across (ps.flatMap Piece.bytes) ∧
      (∀ p ∈ ps, asciiByte '#' ∈ p.bytes → p.kind = .comment ∨ p.kind = .directive ∨
        (∃ v, p.kind = .token (.stringLit v)) ∨ (∃ v, p.kind = .token (.charLit v)) ∨
        (∃ f, f.isLiteral = true ∧ p.kind = .failed f) ∨
        p = ⟨.failed (.invalidByte (asciiByte '#')), [asciiByte '#']⟩) ∧
      ∀ r, c.rest = asciiByte '#' :: r →
        ((∀ x ∈ lineSoFar ps, Spare x) ∧
          c.Step ⟨.directive, asciiByte '#' :: r.take (directiveWidth r)⟩
            (c.skip (1 + directiveWidth r)) ∧
          c.next = (c.skip (1 + directiveWidth r)).next) ∨
        ((∃ x ∈ lineSoFar ps, ¬ Spare x) ∧
          ∃ stop, c.next = .failed ⟨c.location, .lex (.invalidByte (asciiByte '#'))⟩ stop) := by
  refine ⟨h.rest, h.location, fun p hp hm => ?_, fun r hr => ?_⟩
  · obtain ⟨a, b, hs⟩ := h.mem p hp
    exact hs.hash hm
  have hkept := lineKept_walked h
  cases hstart : c.atLineStart with
  | true =>
    have ht : trivia c.atLineStart (asciiByte '#') r = some (.ok () (directiveWidth r)) := by
      rw [hstart]
      rfl
    refine .inl ⟨fun x hx => ?_, .pass hr ht, Cursor.next_pass hr ht⟩
    refine (hkept.opened hstart x hx).resolve_right fun hk => ?_
    rcases hkept.ended x hx hk with hc | ⟨r', hc⟩
    · rw [hr] at hc
      cases hc
    · rw [hr] at hc
      exact absurd (List.cons.inj hc).1 (by decide)
  | false =>
    have ht : trivia c.atLineStart (asciiByte '#') r = none := by
      rw [hstart]
      rfl
    refine .inr ⟨hkept.closed hstart, c.midLine.skip 1, ?_⟩
    rw [Cursor.next_cons hr, ht, scanToken_hash]
    rfl

/-- A comment over two lines with a directive behind it, then a mark with a number sign behind
it. -/
def signsSource : String := "/*\n*/ # x\n; # y"

/-- The first number sign begins a directive, the second is an error. -/
theorem directive_begins_line_signs :
    ∃ ps c qs d, (Cursor.ofBytes signsSource.toUTF8.toList).Walked ps c ∧
      (Cursor.ofBytes signsSource.toUTF8.toList).Walked qs d ∧
      c.next = (c.skip 3).next ∧ c.location = ⟨2, 4⟩ ∧
      ∃ stop, d.next = .failed ⟨⟨3, 3⟩, .lex (.invalidByte (asciiByte '#'))⟩ stop := by
  let c : Cursor := ⟨[35, 32, 120, 10, 59, 32, 35, 32, 121], ⟨2, 4⟩, true⟩
  let d : Cursor := ⟨[35, 32, 121], ⟨3, 3⟩, false⟩
  let ps : List Piece := [⟨.comment, [47, 42, 10, 42, 47]⟩, ⟨.blank, [32]⟩]
  let qs : List Piece := ps ++ [⟨.directive, [35, 32, 120]⟩, ⟨.blank, [10]⟩,
    ⟨.token (.mark .semicolon), [59]⟩, ⟨.blank, [32]⟩]
  have hc : (Cursor.ofBytes signsSource.toUTF8.toList).Walked ps c :=
    Cursor.walked_of_walkFor (n := 2) (by decide +kernel)
  have hd : (Cursor.ofBytes signsSource.toUTF8.toList).Walked qs d :=
    Cursor.walked_of_walkFor (n := 6) (by decide +kernel)
  refine ⟨ps, c, qs, d, hc, hd, ?_, rfl, ?_⟩
  · rcases (directive_begins_line hc).2.2.2 _ rfl with ⟨-, -, hnext⟩ | ⟨⟨x, hx, hspare⟩, -⟩
    · exact hnext
    · -- the blank and the end of the comment stand on the line
      have hall : ∀ x ∈ lineSoFar ps, isSpaceByte x.1 = true ∨ x.2.kind = .comment := by
        decide +kernel
      exact absurd ((hall x hx).imp_right .inl) hspare
  · rcases (directive_begins_line hd).2.2.2 _ rfl with ⟨hall, -⟩ | ⟨-, hnext⟩
    · have hmark : ((59 : UInt8), (⟨.token (.mark .semicolon), [59]⟩ : Piece)) ∈ lineSoFar qs := by
        decide +kernel
      rcases hall _ hmark with h | h | ⟨⟨v, h⟩ | ⟨f, -, h⟩, -⟩
      all_goals cases h
    · exact hnext

/-- A string literal over two lines, with a number sign behind it. -/
def joinedSource : String := "\"a\\\nb\" # x"

/-- **Behind a string literal that goes over a line feed a directive begins,** although bytes of the
literal stand in front of it on the line (`lineSoFar`). -/
theorem string_begins_line :
    ∃ ps c, (Cursor.ofBytes joinedSource.toUTF8.toList).Walked ps c ∧
      c.rest = [35, 32, 120] ∧ c.next = (c.skip 3).next ∧
      (∃ x ∈ lineSoFar ps, isSpaceByte x.1 = false ∧ x.2.kind ≠ .comment) ∧
      tokenize joinedSource.toUTF8.toList = .ok ([⟨.stringLit [97, 98], ⟨1, 1⟩⟩], ⟨2, 7⟩) := by
  let c : Cursor := ⟨[35, 32, 120], ⟨2, 4⟩, true⟩
  let literal : Piece := ⟨.token (.stringLit [97, 98]), [34, 97, 92, 10, 98, 34]⟩
  have hc : (Cursor.ofBytes joinedSource.toUTF8.toList).Walked [literal, ⟨.blank, [32]⟩] c :=
    Cursor.walked_of_walkFor (n := 2) (by decide +kernel)
  have ht : trivia c.atLineStart (asciiByte '#') [32, 120] = some (.ok () 2) := rfl
  exact ⟨[literal, ⟨.blank, [32]⟩], c, hc, rfl, Cursor.next_pass (c := c) rfl ht,
    ⟨(98, literal), by decide +kernel, rfl, nofun⟩, by decide +kernel⟩

end TypeLedger
