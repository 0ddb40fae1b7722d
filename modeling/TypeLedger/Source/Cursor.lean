import TypeLedger.Token.Scan

/-!
# Walking through a source text

* A `Cursor` is a place in a text: the bytes still to come, their location, and whether only
  blanks, comments and directives stand on the line so far.
* `Cursor.next` reads the next token, and says where the walk is afterwards.
* `tokenize` reads them all; the text's end is a location of its own and no token.
-/

namespace TypeLedger

/-- A place in a source text. -/
structure Cursor where
  rest : List UInt8
  location : Location
  /-- A line feed has been passed, and no token since. -/
  atLineStart : Bool

namespace Cursor

def ofBytes (bs : List UInt8) : Cursor := ⟨bs, .start, true⟩

/-- The place `n` bytes further on. A line feed among them opens a line. -/
def skip : Nat → Cursor → Cursor
  | 0, c => c
  | n + 1, c =>
    match c.rest with
    | [] => c
    | b :: bs => skip n ⟨bs, c.location.after b, b == lineFeed || c.atLineStart⟩

theorem rest_skip (n : Nat) (c : Cursor) : (c.skip n).rest = c.rest.drop n := by
  induction n generalizing c with
  | zero => simp [skip]
  | succ n ih =>
    rcases c with ⟨_ | ⟨b, bs⟩, l, s⟩
    · simp [skip]
    · simp [skip, ih]

theorem location_skip (n : Nat) (c : Cursor) :
    (c.skip n).location = c.location.across (c.rest.take n) := by
  induction n generalizing c with
  | zero => simp [skip]
  | succ n ih =>
    rcases c with ⟨_ | ⟨b, bs⟩, l, s⟩
    · simp [skip]
    · simp [skip, ih]

theorem length_rest_skip_lt {n : Nat} {c : Cursor} {b : UInt8} {bs : List UInt8} (hn : 0 < n)
    (h : c.rest = b :: bs) : (c.skip n).rest.length < c.rest.length := by
  rw [rest_skip, List.length_drop, h, List.length_cons]
  omega

/-- A token has been seen on this line. -/
def midLine (c : Cursor) : Cursor := { c with atLineStart := false }

/-- What stands behind a cursor. -/
inductive Next
  | token (token : Token) (behind : Cursor)
  | finished (stop : Cursor)
  | failed (error : SourceError) (stop : Cursor)

/-- The next token, blanks, comments and directives passed over. -/
def next (c : Cursor) : Next :=
  match _hc : c.rest with
  | [] => .finished c.midLine
  | b :: bs =>
    match trivia c.atLineStart b bs with
    | some t =>
      match t.outcome with
      | .ok () => next (c.skip (1 + t.width))
      | .error f => .failed ⟨c.location, .lex f⟩ (c.skip (1 + t.width))
    | none =>
      let s := scanToken b bs
      let behind := c.midLine.skip s.width
      match s.outcome with
      | .ok k => .token ⟨k, c.location⟩ behind
      | .error f => .failed ⟨c.location, .lex f⟩ behind
termination_by c.rest.length
decreasing_by exact length_rest_skip_lt (by omega) _hc

/-- Every token brings the walk forward. -/
theorem length_rest_lt_of_next {c : Cursor} {t : Token} {c' : Cursor} (h : c.next = .token t c') :
    c'.rest.length < c.rest.length := by
  fun_induction next c with
  | case1 => cases h
  | case2 c b bs hc t' ht ho ih =>
    have := length_rest_skip_lt (n := 1 + t'.width) (by omega) hc
    have := ih h
    omega
  | case3 => cases h
  | case4 c b bs hc ht s behind k ho =>
    obtain ⟨-, rfl⟩ := Next.token.inj h
    exact length_rest_skip_lt (c := c.midLine) (width_scanToken_pos b bs) hc
  | case5 => cases h

end Cursor

/-- What a walk through a text has met: the tokens, the error that ended it, if one did, and the
place where it ended. -/
structure Walk where
  tokens : List Token
  error : Option SourceError
  stop : Location
deriving Repr

namespace Walk

/-- The same walk with the token `t` in front. -/
def cons (t : Token) (w : Walk) : Walk := { w with tokens := t :: w.tokens }

/-- The walk from a cursor on. -/
def ofCursor (c : Cursor) : Walk :=
  match _hc : c.next with
  | .token t c' => (ofCursor c').cons t
  | .finished stop => ⟨[], none, stop.location⟩
  | .failed e stop => ⟨[], some e, stop.location⟩
termination_by c.rest.length
decreasing_by exact Cursor.length_rest_lt_of_next _hc

/-- The walk through a whole text. -/
def ofBytes (bs : List UInt8) : Walk := ofCursor (.ofBytes bs)

end Walk

/-- The tokens of a text and the location of its end, or its first lexical error. -/
def tokenize (bs : List UInt8) : Except SourceError (List Token × Location) :=
  let w := Walk.ofBytes bs
  match w.error with
  | some e => .error e
  | none => .ok (w.tokens, w.stop)

end TypeLedger
