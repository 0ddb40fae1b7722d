import TypeLedger.Source.Fault
import TypeLedger.Text.Numeral

/-!
# Reading tokens

* A reading step answers a value and the tokens that are left, with a proof that there are fewer
  than a bound. `Reads ts α` may take no token of `ts`; `Takes ts α` takes at least one. The proofs
  are what the recursion of the grammar goes down by.
* The end of the text is a place of its own, `stop`, where a missing token is reported.
* `skipUntil?` passes over text of which only the brackets matter, up to a token outside of them.
-/

namespace TypeLedger

/-- A value and the tokens left behind it, of which there are fewer than `bound`. -/
structure Step (bound : Nat) (α : Type) where
  value : α
  rest : List Token
  short : rest.length < bound

/-- A step from `ts` that may take no token. -/
abbrev Reads (ts : List Token) (α : Type) := Step (ts.length + 1) α

/-- A step from `ts` that takes at least one token. -/
abbrev Takes (ts : List Token) (α : Type) := Step ts.length α

theorem length_rest_lt (t : Token) (rest : List Token) : rest.length < (t :: rest).length :=
  Nat.lt_succ_self _

theorem length_lt_succ (ts : List Token) : ts.length < ts.length + 1 := Nat.lt_succ_self _

theorem lt_succ_of_length_lt {ts rest : List Token} (h : rest.length < ts.length) :
    rest.length < ts.length + 1 :=
  Nat.lt_succ_of_lt h

theorem length_lt_of_le_of_lt {ts r₁ r₂ : List Token} (h₁ : r₁.length ≤ ts.length)
    (h₂ : r₂.length < r₁.length) : r₂.length < ts.length :=
  Nat.lt_of_lt_of_le h₂ h₁

theorem length_lt_of_reads_takes {ts r₁ r₂ r₃ : List Token} (h₁ : r₁.length < ts.length + 1)
    (h₂ : r₂.length < r₁.length + 1) (h₃ : r₃.length < r₂.length) : r₃.length < ts.length := by
  omega

/-! ## 1. Places and faults -/

/-- The place of the first token, or the end of the text. -/
def place (stop : Location) : List Token → Location
  | [] => stop
  | t :: _ => t.location

/-- A fault of the grammar at a place. -/
def faultAt (l : Location) (f : ParseFault) : SourceError := ⟨l, .parse f⟩

/-- The error of a list that does not begin with what the grammar asks for. -/
def unexpected (stop : Location) (e : Expected) : List Token → SourceError
  | [] => faultAt stop .endOfFile
  | t :: _ => faultAt t.location (.unexpected e t.kind)

/-! ## 2. Single tokens -/

/-- The first token is the mark `m`. -/
def startsWith (m : Mark) : List Token → Bool
  | t :: _ => t.kind == .mark m
  | [] => false

/-- Takes the mark `m` if it is there. -/
def take? (m : Mark) (ts : List Token) : Option (Takes ts Unit) :=
  match ts with
  | t :: rest => if t.kind = .mark m then some ⟨(), rest, length_rest_lt t rest⟩ else none
  | [] => none

/-- Takes the mark `m`. -/
def expect (stop : Location) (m : Mark) (ts : List Token) : Except SourceError (Takes ts Unit) :=
  match take? m ts with
  | some s => .ok s
  | none => .error (unexpected stop (.mark m) ts)

/-- Takes an identifier if there is one. -/
def takeIdent? (ts : List Token) : Option (Takes ts String) :=
  match ts with
  | t :: rest =>
    match t.kind with
    | .ident name => some ⟨name, rest, length_rest_lt t rest⟩
    | _ => none
  | [] => none

/-- Takes an identifier. -/
def expectIdent (stop : Location) (ts : List Token) : Except SourceError (Takes ts String) :=
  match takeIdent? ts with
  | some s => .ok s
  | none => .error (unexpected stop .identifier ts)

/-- Takes a name, which may be missing. -/
def optionalName (ts : List Token) : Reads ts (Option String) :=
  match takeIdent? ts with
  | some ⟨name, rest, h⟩ => ⟨some name, rest, lt_succ_of_length_lt h⟩
  | none => ⟨none, ts, length_lt_succ ts⟩

/-- Takes the width of a bit field, a number of 32 bits. -/
def bitWidth (stop : Location) (ts : List Token) : Except SourceError (Takes ts UInt32) :=
  match ts with
  | t :: rest =>
    match t.kind with
    | .intLit n =>
      if n.toNat < Text.size32 then .ok ⟨n.toUInt32, rest, length_rest_lt t rest⟩
      else .error (faultAt t.location (.wideBitField n))
    | _ => .error (unexpected stop .bitWidth ts)
  | [] => .error (unexpected stop .bitWidth ts)

/-! ## 3. Skipped text -/

/-- The number of open groups behind a token. A closing mark too many closes nothing. -/
def depthBehind (depth : Nat) : TokenKind → Nat
  | .mark m => if m.opens then depth + 1 else if m.closes then depth - 1 else depth
  | _ => depth

/-- The token is the mark `m`. -/
def TokenKind.isMark (m : Mark) (k : TokenKind) : Bool := k == .mark m

theorem TokenKind.isMark_iff {m : Mark} {k : TokenKind} : k.isMark m = true ↔ k = .mark m :=
  beq_iff_eq

/-- The token ends an initializer. -/
def TokenKind.isSeparator : TokenKind → Bool
  | .mark .comma | .mark .semicolon => true
  | _ => false

theorem TokenKind.isSeparator_iff {k : TokenKind} :
    k.isSeparator = true ↔ k = .mark .comma ∨ k = .mark .semicolon := by
  cases k with
  | mark m => cases m <;> simp [TokenKind.isSeparator]
  | _ => simp [TokenKind.isSeparator]

/-- The tokens from the first one on that is as `ends` says and stands outside of every group. -/
def skipUntil? (ends : TokenKind → Bool) (depth : Nat) : List Token → Option (List Token)
  | [] => none
  | t :: rest =>
    if depth = 0 ∧ ends t.kind = true then some (t :: rest)
    else skipUntil? ends (depthBehind depth t.kind) rest

theorem length_skipUntil?_le {ends : TokenKind → Bool} {depth : Nat} {ts rest : List Token}
    (h : skipUntil? ends depth ts = some rest) : rest.length ≤ ts.length := by
  induction ts generalizing depth with
  | nil => simp [skipUntil?] at h
  | cons t ts ih =>
    unfold skipUntil? at h
    split at h
    · simp at h; subst h; simp
    · have := ih h
      simp; omega

/-- Passes over text up to a token as `ends` says, outside of every group. -/
def skipTo (stop : Location) (ends : TokenKind → Bool) (ts : List Token) :
    Except SourceError (Reads ts Unit) :=
  match h : skipUntil? ends 0 ts with
  | some rest => .ok ⟨(), rest, Nat.lt_succ_of_le (length_skipUntil?_le h)⟩
  | none => .error (faultAt stop .endOfFile)

/-- Passes over a body between braces. -/
def skipBody (stop : Location) (ts : List Token) : Except SourceError (Takes ts Unit) := do
  let ⟨_, r₁, h₁⟩ ← expect stop .braceOpen ts
  let ⟨_, r₂, h₂⟩ ← skipTo stop (TokenKind.isMark .braceClose) r₁
  let ⟨_, r₃, h₃⟩ ← expect stop .braceClose r₂
  return ⟨(), r₃, by omega⟩

/-- Passes over an initializer if there is one, up to the mark behind it. -/
def skipInitializer (stop : Location) (ts : List Token) : Except SourceError (Reads ts Unit) :=
  match take? .equals ts with
  | some ⟨_, r₁, h₁⟩ => do
    let ⟨_, r₂, h₂⟩ ← skipTo stop TokenKind.isSeparator r₁
    return ⟨(), r₂, by omega⟩
  | none => .ok ⟨(), ts, length_lt_succ ts⟩

end TypeLedger
