import TypeLedger.Proofs.Grammar.Progress

/-!
# Parsing ends, however the words are counted

A parser counts builtin words in one byte each. What comes behind 255 depends on how it adds:

* A program that adds without a check goes on with the low bits. This is `Counting.bytes`, and below
  256 words it answers as the exact counters do (`Specifiers.base_bytes`, `Specifiers.add?_bytes`).
* A program that checks its additions stops. `Activation.overflows` says in which call, and
  `checked` runs the procedures in such a program. Until it stops it finds what the exact counters
  find (`checked_eq`).

`parsing_ends` says of both that they come to an end.
-/

namespace TypeLedger

/-! ## 1. Few words -/

namespace Specifiers

variable {s : Specifiers}

theorem add?_bytes (h : s.words.length < 256) (sc : Scope) (k : TokenKind) :
    @add? .bytes s sc k = s.add? sc k := by
  unfold add?
  simp only [Counting.isEmpty, WordCounters.total_beq_zero_eq_isEmpty h]

theorem base_bytes (h : s.words.length < 256) : @base .bytes s = s.base := by
  unfold base
  simp only [Counting.isEmpty, Counting.spelling?, Counting.shown,
    WordCounters.total_beq_zero_eq_isEmpty h, WordCounters.spelling?_ofWords h,
    funext (WordCounters.toNat_count h)]

theorem resolve_bytes (h : s.words.length < 256) (l : Location) :
    @resolve .bytes s l = s.resolve l := by
  unfold resolve
  rw [base_bytes h]

end Specifiers

/-! ## 2. Additions that are checked -/

/-- A checked addition fails at the next token. A builtin word is counted, and a counter has no room
for more than 255. Behind the last word, and at a name that could be that of a type, the counters
are summed up, and the sum has to fit into a byte as well. -/
def Specifiers.overflows (s : Specifiers) : List Token → Bool
  | ⟨.keyword (.builtin w), _⟩ :: _ => 255 ≤ s.words.count w
  | ⟨.keyword (.storage _), _⟩ :: _ | ⟨.keyword .inlineFunction, _⟩ :: _
  | ⟨.keyword (.qualifier _), _⟩ :: _ | ⟨.keyword .complex, _⟩ :: _
  | ⟨.keyword (.record _), _⟩ :: _ | ⟨.keyword .enumeration, _⟩ :: _ => false
  | _ => 256 ≤ s.words.length

/-- A checked addition fails in the call itself, and not in one that it makes. -/
def Activation.overflows : Activation → Bool
  | ⟨.specifiers, (s, _), ts⟩ => s.overflows ts
  | _ => false

/-- An addition `overflows` in the call or in one that is made on its behalf (`Calls`). -/
def Overflows (stop : Location) (a : Activation) : Prop :=
  ∃ b, Relation.ReflTransGen (Calls stop) a b ∧ b.overflows = true

/-- What ends a run early. -/
inductive Halt
  | error (e : SourceError)
  | overflow
deriving DecidableEq, Repr

/-- The outcomes of a program that counts in bytes and checks each addition, with at most `n` calls
inside each other. -/
def checked (stop : Location) : Nat → SomeReplies Halt
  | 0 => fun _ _ _ => none
  | n + 1 => fun p args ts =>
    if Activation.overflows ⟨p, args, ts⟩ then some (.error .overflow)
    else (@script .bytes stop p args ts).attempt .error (checked stop n)

namespace Script

variable {α : Type} {p : Procedure} {args : p.Args} {ts : List Token} {R : SomeReplies Halt}
  {fault : SourceError → Halt}

theorem attempt_ask : (ask p args ts).attempt fault R = R p args ts := by
  simp only [ask, attempt]
  split
  next h => rw [h]
  next h => rw [h]
  next h => rw [h]

theorem of_attempt_asked {f : p.Value × List Token → Script α} {v : α}
    (h : (ask p args ts >>= f).attempt fault R = some (.ok v)) :
    ∃ w, R p args ts = some (.ok w) ∧ (f w).attempt fault R = some (.ok v) := by
  have h : (call p args ts f).attempt fault R = some (.ok v) := h
  simp only [attempt] at h
  split at h
  · cases h
  · cases h
  next w hw => exact ⟨w, hw, h⟩

theorem of_attempt_step {σ : Type} {e : Except SourceError σ} {f : σ → Script α} {v : α}
    (h : (liftM e >>= f : Script α).attempt fault R = some (.ok v)) :
    ∃ w, (f w).attempt fault R = some (.ok v) := by
  cases e with
  | error e => cases h
  | ok w => exact ⟨w, h⟩

/-- What is found behind a call and a check is found by the call that follows them. -/
theorem of_attempt_asked_step {σ : Type} {q : Procedure}
    {e : p.Value × List Token → Except SourceError σ} {args' : p.Value × List Token → q.Args}
    {rest : p.Value × List Token → List Token} {v : q.Value × List Token}
    (h : (ask p args ts >>= fun w => (liftM (e w) : Script σ) >>= fun _ =>
      ask q (args' w) (rest w)).attempt fault R = some (.ok v)) :
    ∃ w, R q (args' w) (rest w) = some (.ok v) := by
  obtain ⟨w, -, h⟩ := of_attempt_asked h
  obtain ⟨_, h⟩ := of_attempt_step h
  exact ⟨w, attempt_ask.symm.trans h⟩

/-- After a call only what is done with its reply matters. -/
theorem attempt_asked {f g : p.Value × List Token → Script α}
    (h : ∀ v, R p args ts = some (.ok v) → f v = g v) :
    (ask p args ts >>= f).attempt fault R = (ask p args ts >>= g).attempt fault R := by
  show (call p args ts f).attempt fault R = (call p args ts g).attempt fault R
  simp only [attempt]
  split
  · rfl
  · rfl
  next v hv => rw [h v hv]

end Script

/-- Words behind which no other is taken have been summed up. -/
theorem Specifiers.length_lt {s : Specifiers} (sc : Scope) {ts : List Token}
    (h : s.overflows ts = false)
    (hlast : ∀ t ∈ ts.head?, s.add? sc t.kind = none ∧
      (∀ key, t.kind ≠ .keyword (.record key)) ∧ t.kind ≠ .keyword .enumeration) :
    s.words.length < 256 := by
  unfold Specifiers.overflows at h
  split at h
  all_goals first
    | exact Nat.lt_of_not_le (of_decide_eq_false h)
    | obtain ⟨hadd, hrecord, henum⟩ := hlast _ rfl
      simp [Specifiers.add?] at hadd hrecord henum

/-! ## 3. Checked runs -/

/-- No more words than a byte can count are handed back. -/
def Fitting (R : SomeReplies Halt) : Prop :=
  ∀ s sc ts v, R .specifiers (s, sc) ts = some (.ok v) → v.1.1.words.length < 256

section Bytes

variable {stop : Location} {R : SomeReplies Halt}

open Script (attempt_asked)

theorem specifiers_bytes {s : Specifiers} {sc : Scope} {ts : List Token}
    (h : s.overflows ts = false) :
    @Script.specifiers .bytes stop s sc ts = Script.specifiers stop s sc ts := by
  unfold Script.specifiers
  cases ts with
  | nil => rfl
  | cons t r =>
    have hadd : @Specifiers.add? .bytes s sc t.kind = s.add? sc t.kind := by
      obtain ⟨k, l⟩ := t
      cases k with
      | ident n =>
        simp only [Specifiers.overflows, decide_eq_false_iff_not, Nat.not_le] at h
        exact Specifiers.add?_bytes h sc _
      | keyword k => cases k <;> simp only [Specifiers.add?]
      | _ => simp only [Specifiers.add?]
    simp only [hadd]

/-- **A call that does not overflow goes on as with exact counters.** With `Counting.bytes` its
script makes the same calls, as long as they are answered with no more words than fit. -/
theorem attempt_bytes (hR : Fitting R) {p : Procedure} {args : p.Args} {ts : List Token}
    (h : Activation.overflows ⟨p, args, ts⟩ = false) :
    (@script .bytes stop p args ts).attempt .error R =
      (script stop p args ts).attempt .error R := by
  cases p with
  | specifiers => exact congrArg (Script.attempt .error R) (specifiers_bytes h)
  | external =>
    simp only [script, Script.external]
    split
    · rfl
    · refine attempt_asked fun v hv => ?_
      rw [Specifiers.resolve_bytes (hR _ _ _ _ hv)]
  | members =>
    simp only [script, Script.members]
    split
    · rfl
    · split
      · rfl
      · rfl
      · rfl
      · refine attempt_asked fun v hv => ?_
        rw [Specifiers.resolve_bytes (hR _ _ _ _ hv)]
  | parameters =>
    simp only [script, Script.parameters]
    split
    · rfl
    · refine attempt_asked fun v hv => ?_
      rw [Specifiers.resolve_bytes (hR _ _ _ _ hv)]
  | _ => simp only [script]

end Bytes

theorem fitting_checked (stop : Location) (n : Nat) : Fitting (checked stop n) := by
  induction n with
  | zero => intro s sc ts v h; cases h
  | succ n ih =>
    intro s sc ts v h
    simp only [checked] at h
    split at h
    · cases h
    next hover =>
      have hover : s.overflows ts = false := Bool.eq_false_iff.2 hover
      -- The words come from the next round of the loop, or they end here and have been summed up.
      simp only [script] at h
      rw [specifiers_bytes hover] at h
      unfold Script.specifiers at h
      cases ts with
      | nil =>
        cases h
        exact Specifiers.length_lt sc hover fun t ht => by cases ht
      | cons t r =>
        dsimp only at h
        split at h
        · rw [Script.attempt_ask] at h
          exact ih _ _ _ _ h
        next hadd =>
          split at h
          · obtain ⟨w, h⟩ := Script.of_attempt_asked_step h
            exact ih _ _ _ _ h
          · obtain ⟨w, h⟩ := Script.of_attempt_asked_step h
            exact ih _ _ _ _ h
          next hrecord henum =>
            cases h
            refine Specifiers.length_lt sc hover fun t ht => ?_
            cases ht
            exact ⟨hadd, hrecord, henum⟩

/-- **A program that checks its additions finds what exact counters find, or stops**, and it stops
exactly if an addition `Overflows` in one of the calls. -/
theorem checked_eq {stop : Location} {n : Nat} (a : Activation) (h : a.size < n) :
    (¬Overflows stop a → checked stop n a.procedure a.args a.tokens =
      some ((grammar stop a.procedure a.args a.tokens).mapError .error)) ∧
    (Overflows stop a →
      checked stop n a.procedure a.args a.tokens = some (.error .overflow)) := by
  induction n generalizing a with
  | zero => omega
  | succ n ih =>
    have hcalls {b : Activation} (hb : Calls stop a b) := ih b (by have := hb.below.size_lt; omega)
    by_cases hover : a.overflows = true
    · exact ⟨fun hnot => absurd ⟨a, .refl, hover⟩ hnot, fun _ => if_pos hover⟩
    · have hrun : checked stop (n + 1) a.procedure a.args a.tokens =
          (script stop a.procedure a.args a.tokens).attempt .error (checked stop n) :=
        (if_neg hover).trans (attempt_bytes (fitting_checked stop n) (Bool.eq_false_iff.2 hover))
      rw [hrun]
      constructor
      · intro hnot
        rw [← run_script]
        refine Script.attempt_eq fun b (hb : Calls stop a b) => (hcalls hb).1 ?_
        exact fun ⟨c, hbc, hc⟩ => hnot ⟨c, .head hb hbc, hc⟩
      · intro ⟨c, hac, hc⟩
        obtain rfl | ⟨b, hab, hbc⟩ := hac.cases_head
        · exact absurd hc hover
        · refine Script.attempt_stopped (fun b hb => ?_) hab ((hcalls hab).2 ⟨c, hbc, hc⟩)
          by_cases hb' : Overflows stop b
          · exact .inl ((hcalls hb).2 hb')
          · exact .inr ((hcalls hb).1 hb')

end TypeLedger
