import Mathlib
import TypeLedger.Proofs.Grammar.Declarations

/-!
# What stands behind a declaration

* `Persists`: what a reading step gives, it gives with more tokens behind those that it leaves.
  Most parts of the grammar look at the first token that they leave, so they have to leave one;
  those that end with a mark of their own do not.
* One lemma for each part of the grammar says that it persists. Those of the recursive part are
  proved together, along its recursion.
* `declarations_append`: a text that is read as declarations is read as the same declarations in
  front of another text.
-/

namespace TypeLedger

variable {α β γ : Type} {m n k : Nat} {stop stop' : Location} {sc : Scope} {ts more : List Token}

/-! ## 1. Steps -/

/-- If the first step succeeds and leaves at least `k` tokens, the second one gives the same and
leaves the same tokens with `more` behind. -/
def Persists (more : List Token) (k : Nat) (e : Except SourceError (Step m α))
    (e' : Except SourceError (Step n α)) : Prop :=
  ∀ v r hlt, e = .ok ⟨v, r, hlt⟩ → k ≤ r.length → Gives e' v (r ++ more)

theorem persists_ok {s : Step m α} {e' : Except SourceError (Step n α)}
    (h : k ≤ s.rest.length → Gives e' s.value (s.rest ++ more)) : Persists more k (.ok s) e' := by
  intro v r hlt hs hr
  cases hs
  exact h hr

theorem persists_error {x : SourceError} {e' : Except SourceError (Step n α)} :
    Persists more k (.error x : Except SourceError (Step m α)) e' := by
  intro v r hlt hs
  cases hs

theorem Persists.weaken {e : Except SourceError (Step m α)} {e' : Except SourceError (Step n α)}
    (h : Persists more 0 e e') : Persists more k e e' :=
  fun v r hlt he _ => h v r hlt he (Nat.zero_le _)

/-- What leaves a token has had one. -/
theorem persists_of_pos {e : Except SourceError (Reads ts α)} {e' : Except SourceError (Step n α)}
    (h : 0 < ts.length → Persists more 1 e e') : Persists more 1 e e' := by
  intro v r hlt he hr
  exact h (by omega) v r hlt he hr

theorem persists_of_ok {e : Except SourceError (Step m α)} {e' : Except SourceError (Step n α)}
    (h : ∀ s, e = .ok s → Persists more k e e') : Persists more k e e' :=
  fun v r hlt he hr => h _ he v r hlt he hr

section Bind

variable {m' n' : Nat} {e : Except SourceError (Step m α)} {e' : Except SourceError (Step n α)}
  {f : Step m α → Except SourceError (Step m' β)} {f' : Step n α → Except SourceError (Step n' β)}

/-- Behind a part that `Persists` wherever it ends. -/
theorem persists_bind (he : Persists more 0 e e')
    (hf : ∀ v r hlt hlt', Persists more k (f ⟨v, r, hlt⟩) (f' ⟨v, r ++ more, hlt'⟩)) :
    Persists more k (e >>= f) (e' >>= f') := by
  intro w r' hlt h hr
  cases e with
  | error x => cases h
  | ok s =>
    exact gives_bind (he s.value s.rest s.short rfl (Nat.zero_le _)) fun hlt' =>
      hf s.value s.rest s.short hlt' w r' hlt h hr

/-- Behind a part that has to leave a token: without one, what follows it fails or leaves too
little. -/
theorem persists_bind_some (he : Persists more 1 e e')
    (hf : ∀ v r hlt hlt', 0 < r.length → Persists more k (f ⟨v, r, hlt⟩) (f' ⟨v, r ++ more, hlt'⟩))
    (hnil : ∀ v hlt s, f ⟨v, [], hlt⟩ = .ok s → s.rest.length < k) :
    Persists more k (e >>= f) (e' >>= f') := by
  intro w r' hlt h hr
  cases e with
  | error x => cases h
  | ok s =>
    obtain ⟨v, r, hlt₁⟩ := s
    have hpos : 0 < r.length := by
      cases r with
      | nil => exact absurd (hnil v hlt₁ _ h) (Nat.not_lt.2 hr)
      | cons t r => exact Nat.succ_pos _
    exact gives_bind (he v r hlt₁ rfl hpos) fun hlt' => hf v r hlt₁ hlt' hpos w r' hlt h hr

/-- Behind a part of which only the value is changed. -/
theorem persists_map (he : Persists more k e e')
    (hf : ∀ v r hlt, ∃ w h, f ⟨v, r, hlt⟩ = .ok ⟨w, r, h⟩ ∧
      ∀ hlt', ∃ h', f' ⟨v, r ++ more, hlt'⟩ = .ok ⟨w, r ++ more, h'⟩) :
    Persists more k (e >>= f) (e' >>= f') := by
  intro w r' hlt h hr
  cases e with
  | error x => cases h
  | ok s =>
    obtain ⟨v, r, hlt₁⟩ := s
    obtain ⟨w', h₁, hf₁, hf'⟩ := hf v r hlt₁
    obtain ⟨rfl, rfl⟩ : w' = w ∧ r = r' := by
      cases hf₁.symm.trans h
      exact ⟨rfl, rfl⟩
    refine gives_bind (he v r hlt₁ rfl hr) fun hlt' => ?_
    obtain ⟨h', hf'⟩ := hf' hlt'
    exact ⟨_, hf', rfl, rfl⟩

/-- Behind a check that takes no token. -/
theorem persists_check {e e' : Except SourceError γ} {f : γ → Except SourceError (Step m' β)}
    {f' : γ → Except SourceError (Step n' β)} (he : ∀ c, e = .ok c → e' = .ok c)
    (hf : ∀ c, Persists more k (f c) (f' c)) : Persists more k (e >>= f) (e' >>= f') := by
  intro w r' hlt h hr
  cases e with
  | error x => cases h
  | ok c =>
    rw [he c rfl]
    exact hf c w r' hlt h hr

end Bind

theorem ok_of_bind {e : Except SourceError (Step m α)} {f : Step m α → Except SourceError β} {x : β}
    (h : e >>= f = .ok x) : ∃ v r hlt, e = .ok ⟨v, r, hlt⟩ ∧ f ⟨v, r, hlt⟩ = .ok x := by
  cases e with
  | error x => cases h
  | ok s => exact ⟨s.value, s.rest, s.short, rfl, h⟩

theorem ok_of_check {e : Except SourceError γ} {f : γ → Except SourceError β} {x : β}
    (h : e >>= f = .ok x) : ∃ c, e = .ok c ∧ f c = .ok x := by
  cases e with
  | error x => cases h
  | ok c => exact ⟨c, rfl, h⟩

/-! ## 2. Single tokens -/

theorem take?_append {m : Mark} {v : Unit} {r : List Token} {hlt : r.length < ts.length}
    (h : take? m ts = some ⟨v, r, hlt⟩) (more : List Token) :
    ∃ hlt', take? m (ts ++ more) = some ⟨(), r ++ more, hlt'⟩ := by
  cases ts with
  | nil => cases h
  | cons t ts =>
    by_cases ht : t.kind = .mark m
    · rw [take?_of_kind ht] at h
      cases h
      exact ⟨_, take?_of_kind ht⟩
    · rw [take?_of_ne ht] at h
      cases h

theorem take?_append_none {m : Mark} (h : take? m ts = none) (hts : 0 < ts.length)
    (more : List Token) : take? m (ts ++ more) = none := by
  cases ts with
  | nil => cases hts
  | cons t ts =>
    refine take?_of_ne fun ht => ?_
    rw [take?_of_kind ht] at h
    cases h

theorem startsWith_append (m : Mark) (hts : 0 < ts.length) (more : List Token) :
    startsWith m (ts ++ more) = startsWith m ts := by
  cases ts with
  | nil => cases hts
  | cons t ts => rfl

theorem pos_of_startsWith {m : Mark} (h : startsWith m ts = true) : 0 < ts.length := by
  cases ts with
  | nil => cases h
  | cons t ts => exact Nat.succ_pos _

theorem place_append (hts : 0 < ts.length) (more : List Token) :
    place stop (ts ++ more) = place stop' ts := by
  cases ts with
  | nil => cases hts
  | cons t ts => rfl

theorem persists_expect (m : Mark) :
    Persists more 0 (expect stop' m ts) (expect stop m (ts ++ more)) := by
  intro v r hlt h _
  unfold expect at h ⊢
  split at h
  · rename_i s hs
    cases h
    obtain ⟨hlt', hs'⟩ := take?_append hs more
    rw [hs']
    exact ⟨_, rfl, rfl, rfl⟩
  · cases h

theorem takeIdent?_append {name : String} {r : List Token} {hlt : r.length < ts.length}
    (h : takeIdent? ts = some ⟨name, r, hlt⟩) (more : List Token) :
    ∃ hlt', takeIdent? (ts ++ more) = some ⟨name, r ++ more, hlt'⟩ := by
  cases ts with
  | nil => cases h
  | cons t ts =>
    unfold takeIdent? at h
    dsimp only at h
    split at h
    · rename_i ht
      cases h
      exact ⟨_, takeIdent?_of_kind ht⟩
    · cases h

theorem takeIdent?_append_none (h : takeIdent? ts = none) (hts : 0 < ts.length)
    (more : List Token) : takeIdent? (ts ++ more) = none := by
  cases ts with
  | nil => cases hts
  | cons t ts =>
    refine takeIdent?_eq_none (heads_cons.2 fun name hk => ?_)
    rw [takeIdent?_of_kind hk] at h
    cases h

theorem persists_expectIdent :
    Persists more 0 (expectIdent stop' ts) (expectIdent stop (ts ++ more)) := by
  intro v r hlt h _
  unfold expectIdent at h ⊢
  split at h
  · rename_i s hs
    cases h
    obtain ⟨hlt', hs'⟩ := takeIdent?_append hs more
    rw [hs']
    exact ⟨_, rfl, rfl, rfl⟩
  · cases h

theorem optionalName_of_some {name : String} {r : List Token} {hlt : r.length < ts.length}
    (h : takeIdent? ts = some ⟨name, r, hlt⟩) :
    (optionalName ts).value = some name ∧ (optionalName ts).rest = r := by
  unfold optionalName
  rw [h]
  exact ⟨rfl, rfl⟩

theorem optionalName_append (hr : 0 < (optionalName ts).rest.length) (more : List Token) :
    (optionalName (ts ++ more)).value = (optionalName ts).value ∧
      (optionalName (ts ++ more)).rest = (optionalName ts).rest ++ more := by
  cases h : takeIdent? ts with
  | none =>
    obtain ⟨hv, hrest⟩ := optionalName_of_none h
    rw [hrest] at hr
    obtain ⟨hv', hrest'⟩ := optionalName_of_none (takeIdent?_append_none h hr more)
    exact ⟨hv'.trans hv.symm, by rw [hrest, hrest']⟩
  | some s =>
    obtain ⟨name, r, hlt⟩ := s
    obtain ⟨_, h'⟩ := takeIdent?_append h more
    obtain ⟨hv, hrest⟩ := optionalName_of_some h
    obtain ⟨hv', hrest'⟩ := optionalName_of_some h'
    exact ⟨hv'.trans hv.symm, by rw [hrest, hrest']⟩

theorem startsWith_optionalName_append (m : Mark) (hr : 0 < (optionalName ts).rest.length)
    (more : List Token) : startsWith m (optionalName (ts ++ more)).rest =
      startsWith m (optionalName ts).rest := by
  rw [(optionalName_append hr more).2, startsWith_append m hr]

theorem persists_bitWidth : Persists more 0 (bitWidth stop' ts) (bitWidth stop (ts ++ more)) := by
  intro v r hlt h _
  cases ts with
  | nil => cases h
  | cons t ts =>
    unfold bitWidth at h
    rw [List.cons_append]
    unfold bitWidth
    dsimp only at h ⊢
    split at h
    · split at h
      · rename_i hk hn
        cases h
        simp only [hn, ↓reduceIte]
        exact ⟨_, rfl, rfl, rfl⟩
      · cases h
    · cases h

/-! ## 3. Skipped text -/

theorem skipUntil?_append {ends : TokenKind → Bool} {depth : Nat} {r : List Token}
    (h : skipUntil? ends depth ts = some r) (more : List Token) :
    skipUntil? ends depth (ts ++ more) = some (r ++ more) := by
  induction ts generalizing depth with
  | nil => cases h
  | cons t ts ih =>
    rw [List.cons_append]
    unfold skipUntil? at h ⊢
    split at h
    · rename_i ht
      cases h
      rw [if_pos ht]
      rfl
    · rename_i ht
      rw [if_neg ht]
      exact ih h

theorem persists_skipTo (ends : TokenKind → Bool) :
    Persists more 0 (skipTo stop' ends ts) (skipTo stop ends (ts ++ more)) := by
  intro v r hlt h _
  unfold skipTo at h
  split at h
  · rename_i rest hr
    cases h
    have hr' := skipUntil?_append hr more
    unfold skipTo
    split
    · rename_i rest' hrest
      rw [hr'] at hrest
      cases hrest
      exact ⟨_, rfl, rfl, rfl⟩
    · rename_i hrest
      rw [hr'] at hrest
      cases hrest
  · cases h

theorem persists_skipBody : Persists more 0 (skipBody stop' ts) (skipBody stop (ts ++ more)) := by
  unfold skipBody
  refine persists_bind (persists_expect _) fun _ r₁ _ _ => ?_
  refine persists_bind (persists_skipTo _) fun _ r₂ _ _ => ?_
  exact persists_map (persists_expect _) fun _ _ _ => ⟨_, _, rfl, fun _ => ⟨_, rfl⟩⟩

theorem persists_skipInitializer :
    Persists more 1 (skipInitializer stop' ts) (skipInitializer stop (ts ++ more)) := by
  cases hs : take? .equals ts with
  | some s =>
    obtain ⟨_, r₁, _⟩ := s
    obtain ⟨_, hs'⟩ := take?_append hs more
    unfold skipInitializer
    simp only [hs, hs']
    refine fun v r hlt h _ =>
      persists_map (persists_skipTo _) (fun _ _ _ => ?_) v r hlt h (Nat.zero_le _)
    exact ⟨_, _, rfl, fun _ => ⟨_, rfl⟩⟩
  | none =>
    intro v r hlt h hr
    unfold skipInitializer at h ⊢
    simp only [hs] at h
    cases h
    simp only [take?_append_none hs hr more]
    exact ⟨_, rfl, rfl, rfl⟩

/-! ## 4. Parts without a scope -/

theorem qualifierRun_append {ts : List Token} (hr : 0 < (qualifierRun ts).rest.length)
    (more : List Token) :
    (qualifierRun (ts ++ more)).value = (qualifierRun ts).value ∧
      (qualifierRun (ts ++ more)).rest = (qualifierRun ts).rest ++ more := by
  induction ts with
  | nil => cases hr
  | cons t ts ih =>
    rw [List.cons_append]
    by_cases ht : isQualifierKind t.kind = true
    · obtain ⟨w, hw⟩ : ∃ w, t.kind = .keyword (.qualifier w) := by
        unfold isQualifierKind at ht
        split at ht
        · rename_i w hw
          exact ⟨w, hw⟩
        · cases ht
      obtain ⟨hv, hrest⟩ := qualifierRun_cons ts hw
      obtain ⟨hv', hrest'⟩ := qualifierRun_cons (ts ++ more) hw
      rw [hrest] at hr
      obtain ⟨ihv, ihr⟩ := ih hr
      exact ⟨by rw [hv, hv', ihv], by rw [hrest, hrest', ihr]⟩
    · have ht' : isQualifierKind t.kind = false := by simpa using ht
      obtain ⟨hv, hrest⟩ := qualifierRun_of_heads (heads_cons.2 ht' : Heads _ (t :: ts))
      obtain ⟨hv', hrest'⟩ :=
        qualifierRun_of_heads (heads_cons.2 ht' : Heads _ (t :: (ts ++ more)))
      exact ⟨hv'.trans hv.symm, by rw [hrest, hrest', List.cons_append]⟩

theorem takePointer?_append {kind : PointerKind} {r : List Token} {hlt : r.length < ts.length}
    (h : takePointer? ts = some ⟨kind, r, hlt⟩) (more : List Token) :
    ∃ hlt', takePointer? (ts ++ more) = some ⟨kind, r ++ more, hlt'⟩ := by
  cases ts with
  | nil => cases h
  | cons t ts =>
    obtain ⟨k, l⟩ := t
    cases k with
    | mark m =>
      obtain ⟨k, hk, hs⟩ := Option.map_eq_some_iff.1 h
      cases hs
      exact ⟨_, takePointer?_of_kind rfl hk⟩
    | _ => cases h

theorem takePointer?_append_none (h : takePointer? ts = none) (hts : 0 < ts.length)
    (more : List Token) : takePointer? (ts ++ more) = none := by
  cases ts with
  | nil => cases hts
  | cons t ts =>
    refine takePointer?_eq_none (heads_cons.2 ?_)
    obtain ⟨k, l⟩ := t
    cases k with
    | mark m =>
      have hm : m.pointerKind? = none := Option.map_eq_none_iff.1 h
      simp [isPointerKind, hm]
    | _ => rfl

theorem pointerRun_of_none (h : takePointer? ts = none) :
    (pointerRun ts).value = [] ∧ (pointerRun ts).rest = ts := by
  unfold pointerRun
  rw [h]
  exact ⟨rfl, rfl⟩

theorem pointerRun_of_some {kind : PointerKind} {r : List Token} {hlt : r.length < ts.length}
    (h : takePointer? ts = some ⟨kind, r, hlt⟩) :
    (pointerRun ts).value =
        .pointer kind (qualifierRun r).value :: (pointerRun (qualifierRun r).rest).value ∧
      (pointerRun ts).rest = (pointerRun (qualifierRun r).rest).rest := by
  conv => lhs; lhs; unfold pointerRun
  conv => rhs; lhs; unfold pointerRun
  rw [h]
  exact ⟨rfl, rfl⟩

theorem pointerRun_append {ts : List Token} (hr : 0 < (pointerRun ts).rest.length)
    (more : List Token) :
    (pointerRun (ts ++ more)).value = (pointerRun ts).value ∧
      (pointerRun (ts ++ more)).rest = (pointerRun ts).rest ++ more := by
  cases hp : takePointer? ts with
  | none =>
    obtain ⟨hv, hrest⟩ := pointerRun_of_none hp
    rw [hrest] at hr
    obtain ⟨hv', hrest'⟩ := pointerRun_of_none (takePointer?_append_none hp hr more)
    exact ⟨hv'.trans hv.symm, by rw [hrest, hrest']⟩
  | some s =>
    obtain ⟨kind, r, hlt⟩ := s
    obtain ⟨_, hp'⟩ := takePointer?_append hp more
    obtain ⟨hv, hrest⟩ := pointerRun_of_some hp
    obtain ⟨hv', hrest'⟩ := pointerRun_of_some hp'
    have hq := (qualifierRun r).short
    have hd := (pointerRun (qualifierRun r).rest).short
    rw [hrest] at hr
    have hqr : 0 < (qualifierRun r).rest.length := by omega
    obtain ⟨hqv, hqr⟩ := qualifierRun_append hqr more
    obtain ⟨ihv, ihr⟩ := pointerRun_append hr more
    exact ⟨by rw [hv, hv', hqv, hqr, ihv], by rw [hrest, hrest', hqr, ihr]⟩
termination_by ts.length

theorem closedSize?_append {size : ArraySize} {r : List Token} {hlt : r.length < ts.length}
    (h : closedSize? ts = some ⟨size, r, hlt⟩) (more : List Token) :
    ∃ hlt', closedSize? (ts ++ more) = some ⟨size, r ++ more, hlt'⟩ := by
  unfold closedSize? at h
  split at h
  · cases h
    exact ⟨_, rfl⟩
  · cases h
    exact ⟨_, rfl⟩
  · cases h

/-- The size and its bracket are the first two tokens, whatever stands behind them. -/
theorem two_of_closedSize? {s : Takes ts ArraySize} (h : closedSize? ts = some s) :
    ∃ t u, ts = t :: u :: s.rest ∧ ∀ r, (closedSize? (t :: u :: r)).isSome = true := by
  unfold closedSize? at h
  split at h
  · cases h
    exact ⟨_, _, rfl, fun _ => rfl⟩
  · cases h
    exact ⟨_, _, rfl, fun _ => rfl⟩
  · cases h

theorem closedSize?_append_none {t u : Token} {ts : List Token}
    (h : closedSize? (t :: u :: ts) = none) (more : List Token) :
    closedSize? (t :: u :: (ts ++ more)) = none := by
  cases hs : closedSize? (t :: u :: (ts ++ more)) with
  | none => rfl
  | some s =>
    obtain ⟨t', u', heq, hsome⟩ := two_of_closedSize? hs
    simp only [List.cons.injEq] at heq
    obtain ⟨rfl, rfl, -⟩ := heq
    have := hsome ts
    rw [h] at this
    cases this

theorem skipUntil?_of_skipTo {ends : TokenKind → Bool} {v : Unit} {r : List Token}
    {hlt : r.length < ts.length + 1} (h : skipTo stop ends ts = .ok ⟨v, r, hlt⟩) :
    skipUntil? ends 0 ts = some r := by
  unfold skipTo at h
  split at h
  · rename_i rest hr
    cases h
    exact hr
  · cases h

/-- Where a size and its bracket do not stand, they do not stand with more tokens behind. -/
theorem closedSize?_none_of_skipTo {v : Unit} {r : List Token} {hlt : r.length < ts.length + 1}
    (h : closedSize? ts = none)
    (hskip : skipTo stop (TokenKind.isMark .bracketClose) ts = .ok ⟨v, r, hlt⟩)
    (more : List Token) : closedSize? (ts ++ more) = none := by
  have huntil := skipUntil?_of_skipTo hskip
  match ts, h, huntil with
  | [], _, huntil => cases huntil
  | [t], _, huntil =>
    -- the token by itself is the bracket
    unfold skipUntil? at huntil
    split at huntil
    · rename_i ht
      obtain ⟨k, l⟩ := t
      obtain rfl : k = _ := TokenKind.isMark_iff.1 ht.2
      rfl
    · cases huntil
  | t :: u :: ts, h, _ => exact closedSize?_append_none h more

theorem persists_sizeBefore :
    Persists more 0 (sizeBefore stop' ts) (sizeBefore stop (ts ++ more)) := by
  intro v r hlt h hr
  unfold sizeBefore at h ⊢
  split at h
  · rename_i s hs
    cases h
    obtain ⟨_, hs'⟩ := closedSize?_append hs more
    rw [hs']
    exact ⟨_, rfl, rfl, rfl⟩
  · rename_i hn
    obtain ⟨_, _, _, hskip, -⟩ := ok_of_bind h
    rw [closedSize?_none_of_skipTo hn hskip more]
    refine persists_bind (persists_skipTo _) (fun _ r₁ _ _ => ?_) v r hlt h hr
    exact persists_map (persists_expect _) fun _ _ _ => ⟨_, _, rfl, fun _ => ⟨_, rfl⟩⟩

theorem persists_arraySuffix :
    Persists more 0 (arraySuffix stop' ts) (arraySuffix stop (ts ++ more)) := by
  intro v r hlt h _
  unfold arraySuffix at h
  obtain ⟨size, r₁, h₁, hsize, h⟩ := ok_of_bind h
  cases h
  refine gives_arraySuffix ?_
  have hinner : (ts.dropWhile fun t => isArrayWord t.kind).isEmpty = false := by
    cases hd : ts.dropWhile fun t => isArrayWord t.kind with
    | nil => rw [hd] at h₁; cases h₁
    | cons => rfl
  rw [List.dropWhile_append, hinner]
  exact persists_sizeBefore _ _ _ hsize (Nat.zero_le _)

/-- A parenthesis that opens and nothing else. -/
def LoneParen (ts : List Token) : Prop := ∃ t, ts = [t] ∧ t.kind = .mark .parenOpen

theorem takeNested?_append {v : Unit} {r : List Token} {hlt : r.length < ts.length}
    (h : takeNested? sc ts = some ⟨v, r, hlt⟩) (more : List Token) :
    ∃ hlt', takeNested? sc (ts ++ more) = some ⟨(), r ++ more, hlt'⟩ := by
  unfold takeNested? at h
  split at h
  · rename_i s hs
    split at h
    · rename_i hb
      cases h
      obtain ⟨hlt', hs'⟩ := take?_append hs more
      have hb' : ((r ++ more).head?.any fun t => beginsDeclarator sc t.kind) = true := by
        cases r with
        | nil => cases hb
        | cons t r => exact hb
      refine ⟨hlt', ?_⟩
      rw [takeNested?, hs']
      exact if_pos hb'
    · cases h
  · cases h

theorem takeNested?_append_none (h : takeNested? sc ts = none) (hts : 0 < ts.length)
    (hlone : ¬LoneParen ts) (more : List Token) : takeNested? sc (ts ++ more) = none := by
  match ts, h, hts, hlone with
  | [t], _, _, hlone =>
    have ht : t.kind ≠ .mark .parenOpen := fun ht => hlone ⟨t, rfl, ht⟩
    rw [takeNested?, List.cons_append, take?_of_ne ht]
  | t :: u :: ts, h, _, _ =>
    by_cases ht : t.kind = .mark .parenOpen
    · rw [takeNested?, take?_of_kind ht] at h
      rw [takeNested?, List.cons_append, take?_of_kind ht]
      dsimp only at h ⊢
      split at h
      · cases h
      · rename_i hb
        exact if_neg hb
    · rw [takeNested?, List.cons_append, take?_of_ne ht]

theorem takeNoParameters?_append {v : Unit} {r : List Token} {hlt : r.length < ts.length}
    (h : takeNoParameters? ts = some ⟨v, r, hlt⟩) (more : List Token) :
    ∃ hlt', takeNoParameters? (ts ++ more) = some ⟨(), r ++ more, hlt'⟩ := by
  unfold takeNoParameters? at h
  split at h
  · cases h
    exact ⟨_, rfl⟩
  · cases h
    exact ⟨_, rfl⟩
  · cases h

/-- An empty list has ended at its first token, or at its second one behind `void`. -/
theorem cases_of_takeNoParameters? {s : Takes ts Unit} (h : takeNoParameters? ts = some s) :
    (∃ t, ts = t :: s.rest ∧ ∀ r, (takeNoParameters? (t :: r)).isSome = true) ∨
      ∃ t u, ts = t :: u :: s.rest ∧ t.kind = .keyword (.builtin .void) ∧
        ∀ r, (takeNoParameters? (t :: u :: r)).isSome = true := by
  unfold takeNoParameters? at h
  split at h
  · cases h
    exact .inl ⟨_, rfl, fun _ => rfl⟩
  · cases h
    exact .inr ⟨_, _, rfl, rfl, fun _ => rfl⟩
  · cases h

theorem takeNoParameters?_append_none (h : takeNoParameters? ts = none) (hts : 0 < ts.length)
    (hvoid : ¬∃ t, ts = [t] ∧ t.kind = .keyword (.builtin .void)) (more : List Token) :
    takeNoParameters? (ts ++ more) = none := by
  cases hs : takeNoParameters? (ts ++ more) with
  | none => rfl
  | some s =>
    match ts, h, hts, hvoid with
    | t :: ts, h, _, hvoid =>
      rcases cases_of_takeNoParameters? hs with ⟨t', heq, hsome⟩ | ⟨t', u, heq, ht, hsome⟩
      · simp only [List.cons_append, List.cons.injEq] at heq
        obtain ⟨rfl, -⟩ := heq
        have := hsome ts
        rw [h] at this
        cases this
      · simp only [List.cons_append, List.cons.injEq] at heq
        obtain ⟨rfl, heq⟩ := heq
        cases ts with
        | nil => exact absurd ⟨t, rfl, ht⟩ hvoid
        | cons u' ts =>
          simp only [List.cons_append, List.cons.injEq] at heq
          obtain ⟨rfl, -⟩ := heq
          have := hsome ts
          rw [h] at this
          cases this

theorem baseWords_access {t : Token} {a : Access} (ht : t.kind = .keyword (.access a))
    (ts : List Token) :
    (baseWords (t :: ts)).value = ((baseWords ts).value.1.or (some a), (baseWords ts).value.2) ∧
      (baseWords (t :: ts)).rest = (baseWords ts).rest := by
  obtain ⟨k, l⟩ := t
  cases ht
  rw [baseWords]
  exact ⟨rfl, rfl⟩

theorem baseWords_virtual {t : Token} (ht : t.kind = .keyword .virtualBase) (ts : List Token) :
    (baseWords (t :: ts)).value = ((baseWords ts).value.1, true) ∧
      (baseWords (t :: ts)).rest = (baseWords ts).rest := by
  obtain ⟨k, l⟩ := t
  cases ht
  rw [baseWords]
  exact ⟨rfl, rfl⟩

theorem baseWords_other {t : Token} (ha : ∀ a, t.kind ≠ .keyword (.access a))
    (hv : t.kind ≠ .keyword .virtualBase) (ts : List Token) :
    (baseWords (t :: ts)).value = (none, false) ∧ (baseWords (t :: ts)).rest = t :: ts := by
  unfold baseWords
  split
  · rename_i a ht
    exact absurd ht (ha a)
  · rename_i ht
    exact absurd ht hv
  · exact ⟨rfl, rfl⟩

theorem baseWords_append {ts : List Token} (hr : 0 < (baseWords ts).rest.length)
    (more : List Token) : (baseWords (ts ++ more)).value = (baseWords ts).value ∧
      (baseWords (ts ++ more)).rest = (baseWords ts).rest ++ more := by
  induction ts with
  | nil => cases hr
  | cons t ts ih =>
    rw [List.cons_append]
    by_cases ha : ∃ a, t.kind = .keyword (.access a)
    · obtain ⟨a, ha⟩ := ha
      obtain ⟨hv, hrest⟩ := baseWords_access ha ts
      obtain ⟨hv', hrest'⟩ := baseWords_access ha (ts ++ more)
      obtain ⟨ihv, ihr⟩ := ih (hrest ▸ hr)
      exact ⟨by rw [hv, hv', ihv], by rw [hrest, hrest', ihr]⟩
    by_cases hvirtual : t.kind = .keyword .virtualBase
    · obtain ⟨hv, hrest⟩ := baseWords_virtual hvirtual ts
      obtain ⟨hv', hrest'⟩ := baseWords_virtual hvirtual (ts ++ more)
      obtain ⟨ihv, ihr⟩ := ih (hrest ▸ hr)
      exact ⟨by rw [hv, hv', ihv], by rw [hrest, hrest', ihr]⟩
    · have ha' := not_exists.1 ha
      obtain ⟨hv, hrest⟩ := baseWords_other ha' hvirtual ts
      obtain ⟨hv', hrest'⟩ := baseWords_other ha' hvirtual (ts ++ more)
      exact ⟨by rw [hv, hv'], by rw [hrest, hrest', List.cons_append]⟩

theorem resolve_eq [Counting] {specs : Specifiers} {l : Location} {base : CType}
    (h : specs.resolve l = .ok base) (l' : Location) : specs.resolve l' = .ok base := by
  unfold Specifiers.resolve at h ⊢
  split at h
  · exact h
  · cases h

theorem persists_baseClause {ts : List Token} :
    Persists more 1 (baseClause stop' sc ts) (baseClause stop sc (ts ++ more)) := by
  intro v r hlt h hr
  have h₁ := (baseWords ts).short
  unfold baseClause at h
  obtain ⟨name, r₂, h₂, hname, -⟩ := ok_of_bind h
  have hwords : 0 < (baseWords ts).rest.length := by omega
  obtain ⟨hv, hrest⟩ := baseWords_append hwords more
  have hname' : Persists more 0 (expectIdent stop' (baseWords ts).rest)
      (expectIdent stop (baseWords (ts ++ more)).rest) := by
    rw [hrest]
    exact persists_expectIdent
  unfold baseClause
  refine persists_bind hname' (fun name r₂ h₂ _ => ?_) v r hlt h hr
  dsimp only
  split
  · exact persists_error
  · simp only [hv]
    split
    · rename_i hc
      refine persists_ok fun hr => ?_
      rw [take?_append_none hc hr more]
      exact ⟨_, rfl, rfl, rfl⟩
    · rename_i r₃ h₃ hc
      obtain ⟨_, hc'⟩ := take?_append hc more
      rw [hc']
      exact persists_map persists_baseClause fun _ _ _ => ⟨_, _, rfl, fun _ => ⟨_, rfl⟩⟩
termination_by ts.length

theorem persists_optionalBases (key : RecordKey) :
    Persists more 1 (optionalBases stop' key sc ts) (optionalBases stop key sc (ts ++ more)) := by
  unfold optionalBases
  split
  · rename_i hc
    refine persists_ok fun hr => ?_
    rw [take?_append_none hc hr more]
    exact ⟨_, rfl, rfl, rfl⟩
  · rename_i r₁ h₁ hc
    obtain ⟨_, hc'⟩ := take?_append hc more
    rw [hc']
    dsimp only
    split
    · exact persists_map persists_baseClause fun _ _ _ => ⟨_, _, rfl, fun _ => ⟨_, rfl⟩⟩
    · exact persists_error

theorem persists_optionalWidth :
    Persists more 1 (optionalWidth stop' ts) (optionalWidth stop (ts ++ more)) := by
  unfold optionalWidth
  split
  · rename_i hc
    refine persists_ok fun hr => ?_
    rw [take?_append_none hc hr more]
    exact ⟨_, rfl, rfl, rfl⟩
  · rename_i r₁ h₁ hc
    obtain ⟨_, hc'⟩ := take?_append hc more
    rw [hc']
    exact persists_map persists_bitWidth.weaken fun _ _ _ => ⟨_, _, rfl, fun _ => ⟨_, rfl⟩⟩

theorem persists_labelColon (key : RecordKey) (l : Location) :
    Persists more 0 (labelColon stop' key l ts) (labelColon stop key l (ts ++ more)) := by
  intro v r hlt h hr
  unfold labelColon at h ⊢
  split at h
  · rename_i hkey
    rw [if_pos hkey]
    exact persists_expect _ _ _ _ h hr
  · cases h

theorem refuseSecond_append {acc : Specifiers} {r : List Token}
    (h : refuseSecond stop' acc r = .ok ()) (more : List Token) :
    refuseSecond stop acc (r ++ more) = .ok () := by
  unfold refuseSecond at h ⊢
  split at h
  · cases h
  · rename_i hn
    exact if_neg hn

theorem persists_enumSpecifier :
    Persists more 1 (enumSpecifier stop' sc ts) (enumSpecifier stop sc (ts ++ more)) := by
  unfold enumSpecifier
  dsimp only
  split
  · rename_i hbrace
    obtain ⟨hv, hrest⟩ := optionalName_append (pos_of_startsWith hbrace) more
    have hbody : Persists more 0 (skipBody stop' (optionalName ts).rest)
        (skipBody stop (optionalName (ts ++ more)).rest) := by
      rw [hrest]
      exact persists_skipBody
    rw [if_pos (by rw [hrest, startsWith_append _ (pos_of_startsWith hbrace), hbrace])]
    refine persists_bind hbody fun _ r₂ _ _ => ?_
    exact persists_ok fun _ => ⟨_, rfl, by rw [hv], rfl⟩
  · rename_i hbrace
    refine persists_ok fun hr => ?_
    obtain ⟨hv, hrest⟩ := optionalName_append hr more
    rw [if_neg (by rwa [hrest, startsWith_append _ hr])]
    exact ⟨_, rfl, by rw [hv], hrest⟩

/-! ## 5. Lists of one token -/

theorem functionSuffix_nil (stop : Location) (sc : Scope) :
    ∃ x, functionSuffix stop sc [] = .error x := by
  unfold functionSuffix parameters specifiers
  exact ⟨_, rfl⟩

/-- Behind a parenthesis that opens the suffix of a function there is more. -/
theorem not_loneParen_of_suffixRun {x : Reads ts (List Derivation × Scope)}
    (h : suffixRun stop sc ts = .ok x) : ¬LoneParen ts := by
  rintro ⟨t, rfl, ht⟩
  obtain ⟨y, hy⟩ := functionSuffix_nil stop sc
  unfold suffixRun at h
  rw [take?_of_ne (by rw [ht]; decide), take?_of_kind ht] at h
  dsimp only at h
  rw [hy] at h
  cases h

/-- The word `void` is a parameter. -/
theorem rest_parameters_void {t : Token} (ht : t.kind = .keyword (.builtin .void))
    {v : List CType × Bool × Scope} {r : List Token} {hlt : r.length < [t].length + 1}
    (h : parameters stop sc [t] = .ok ⟨v, r, hlt⟩) : r = [] := by
  have hadd : Specifiers.add? {} sc t.kind = some { words := [.void] } := by
    rw [ht]
    rfl
  unfold parameters at h
  rw [take?_of_ne (by rw [ht]; decide)] at h
  dsimp only at h
  obtain ⟨⟨specs, sc₁⟩, r₁, h₁, hspecs, h⟩ := ok_of_bind h
  have hr₁ : r₁ = [] := by
    unfold specifiers at hspecs
    simp only [hadd] at hspecs
    obtain ⟨_, r₀, h₀, -, hspecs⟩ := ok_of_bind hspecs
    cases hspecs
    exact List.length_eq_zero_iff.1 (by simpa using h₀)
  subst hr₁
  obtain ⟨base, -, h⟩ := ok_of_check h
  obtain ⟨⟨d, sc₂⟩, r₂, h₂, -, h⟩ := ok_of_bind h
  obtain rfl : r₂ = [] := List.length_eq_zero_iff.1 (by simpa using h₂)
  cases h
  rfl

/-- Behind a record or an enumeration among the specifiers. -/
theorem persists_named (acc : Specifiers) (type : CType) (sc : Scope) (r : List Token)
    {hlt : ∀ v : Reads r (Specifiers × Scope), v.rest.length < m}
    {hlt' : ∀ v : Reads (r ++ more) (Specifiers × Scope), v.rest.length < n}
    (h : Persists more 1 (specifiers stop' { acc with named := some type } sc r)
      (specifiers stop { acc with named := some type } sc (r ++ more))) :
    Persists more 1
      (do
        refuseSecond stop' acc r
        let v ← specifiers stop' { acc with named := some type } sc r
        return (⟨v.value, v.rest, hlt v⟩ : Step m (Specifiers × Scope)))
      (do
        refuseSecond stop acc (r ++ more)
        let v ← specifiers stop { acc with named := some type } sc (r ++ more)
        return (⟨v.value, v.rest, hlt' v⟩ : Step n (Specifiers × Scope))) := by
  refine persists_check (fun _ h => refuseSecond_append h more) fun _ => ?_
  exact persists_map h fun _ _ _ => ⟨_, _, rfl, fun _ => ⟨_, rfl⟩⟩

/-- Without a token behind them, there are no more `specifiers`. -/
theorem rest_named (acc : Specifiers) {type : CType} {sc : Scope}
    {hlt : ∀ v : Reads [] (Specifiers × Scope), v.rest.length < m}
    {s : Step m (Specifiers × Scope)}
    (h : (do
      refuseSecond stop acc []
      let v ← specifiers stop { acc with named := some type } sc []
      return (⟨v.value, v.rest, hlt v⟩ : Step m (Specifiers × Scope))) = .ok s) :
    s.rest.length < 1 := by
  obtain ⟨_, -, h⟩ := ok_of_check h
  obtain ⟨v, r, hr, -, h⟩ := ok_of_bind h
  cases h
  exact hr

/-- Where no empty list of parameters stands, none stands with more tokens behind. -/
theorem takeNoParameters?_none_of_parameters {x : Takes ts (List CType × Bool × Scope)}
    (hn : takeNoParameters? ts = none) (h : (do
      let ⟨v, r₁, h₁⟩ ← parameters stop sc ts
      let ⟨_, r₂, h₂⟩ ← expect stop .parenClose r₁
      return (⟨v, r₂, Nat.lt_of_lt_of_le h₂ (Nat.le_of_lt_succ h₁)⟩ :
        Takes ts (List CType × Bool × Scope))) = .ok x)
    (more : List Token) : takeNoParameters? (ts ++ more) = none := by
  obtain ⟨w, r₁, h₁, hparams, h⟩ := ok_of_bind h
  dsimp only at h
  obtain ⟨_, r₂, h₂, -, -⟩ := ok_of_bind h
  refine takeNoParameters?_append_none hn (by omega) (fun ⟨t, hts, ht⟩ => ?_) more
  subst hts
  obtain rfl := rest_parameters_void ht hparams
  cases h₂

/-! ## 6. The recursive part -/

mutual

theorem persists_specifiers (acc : Specifiers) (sc : Scope) (ts : List Token) :
    Persists more 1 (specifiers stop' acc sc ts) (specifiers stop acc sc (ts ++ more)) := by
  cases ts with
  | nil =>
    unfold specifiers
    exact persists_ok fun hr => by cases hr
  | cons t r =>
    rw [List.cons_append]
    unfold specifiers
    split
    · exact persists_map (persists_specifiers _ _ _) fun _ _ _ => ⟨_, _, rfl, fun _ => ⟨_, rfl⟩⟩
    · split
      · refine persists_bind_some (persists_recordSpecifier _ _ _ _)
          (fun (type, sc₁) r₁ _ _ _ => persists_named acc type sc₁ r₁ ?_) fun v _ _ hs => ?_
        · exact persists_specifiers _ _ _
        · exact rest_named acc hs
      · refine persists_bind_some persists_enumSpecifier
          (fun (type, sc₁) r₁ _ _ _ => persists_named acc type sc₁ r₁ ?_) fun v _ _ hs => ?_
        · exact persists_specifiers _ _ _
        · exact rest_named acc hs
      · exact persists_ok fun _ => ⟨_, rfl, rfl, rfl⟩
termination_by (ts.length, 0)

theorem persists_recordSpecifier (key : RecordKey) (l : Location) (sc : Scope) (ts : List Token) :
    Persists more 1 (recordSpecifier stop' key l sc ts)
      (recordSpecifier stop key l sc (ts ++ more)) := by
  have h₁ := (optionalName ts).short
  unfold recordSpecifier
  dsimp only
  split
  · exact persists_error
  rename_i id sc₁ htag
  split
  · rename_i hbody
    have hpos : 0 < (optionalName ts).rest.length := by
      rcases Bool.or_eq_true_iff.1 hbody with hs | hs <;> exact pos_of_startsWith hs
    obtain ⟨hv, hrest⟩ := optionalName_append hpos more
    have hbases : ∀ sc, Persists more 1 (optionalBases stop' key sc (optionalName ts).rest)
        (optionalBases stop key sc (optionalName (ts ++ more)).rest) := by
      intro sc
      rw [hrest]
      exact persists_optionalBases key
    rw [startsWith_optionalName_append _ hpos, startsWith_optionalName_append _ hpos, hv, htag]
    dsimp only
    rw [if_pos hbody]
    refine persists_bind_some (hbases _) (fun bases r₂ h₂ _ _ => ?_) fun _ _ _ hs => by cases hs
    refine persists_bind (persists_expect _) fun _ r₃ h₃ _ => ?_
    have hlt : r₃.length < r₂.length := h₃
    refine persists_bind_some (persists_members _ _ _ _) (fun (list, sc₃) r₄ _ _ _ => ?_)
      fun _ _ _ hs => by cases hs
    exact persists_map (persists_expect _).weaken fun _ _ _ => ⟨_, _, rfl, fun _ => ⟨_, rfl⟩⟩
  · rename_i hbody
    refine persists_ok fun hpos => ?_
    obtain ⟨hv, hrest⟩ := optionalName_append hpos more
    rw [startsWith_optionalName_append _ hpos, startsWith_optionalName_append _ hpos, hv, htag]
    dsimp only
    rw [if_neg hbody]
    exact ⟨_, rfl, rfl, hrest⟩
termination_by (ts.length, 0)

theorem persists_members (key : RecordKey) (access : Option Access) (sc : Scope)
    (ts : List Token) : Persists more 1 (members stop' key access sc ts)
      (members stop key access sc (ts ++ more)) := by
  cases ts with
  | nil =>
    unfold members
    exact persists_error
  | cons t r =>
    have hlen : (t :: r).length = r.length + 1 := rfl
    rw [List.cons_append]
    unfold members
    split
    · exact persists_ok fun _ => ⟨_, rfl, rfl, rfl⟩
    · refine persists_bind (persists_labelColon _ _) fun _ r₁ _ _ => ?_
      exact persists_map (persists_members _ _ _ _) fun _ _ _ => ⟨_, _, rfl, fun _ => ⟨_, rfl⟩⟩
    · exact persists_map (persists_members _ _ _ _) fun _ _ _ => ⟨_, _, rfl, fun _ => ⟨_, rfl⟩⟩
    · have hspecs : Persists more 1 (specifiers stop' {} sc (t :: r))
          (specifiers stop {} sc (t :: (r ++ more))) := persists_specifiers {} sc (t :: r)
      refine persists_bind_some hspecs (fun (specs, sc₁) r₁ h₁ _ _ => ?_) fun _ _ _ hs => ?_
      · refine persists_check (fun _ h => h) fun base => ?_
        refine persists_bind_some (persists_memberGroup _ _ _ _) (fun (own, sc₂) r₂ h₂ _ _ => ?_)
          fun _ _ _ hs => by cases hs
        refine persists_bind (persists_expect _) fun _ r₃ h₃ _ => ?_
        exact persists_map (persists_members _ _ _ _) fun _ _ _ => ⟨_, _, rfl, fun _ => ⟨_, rfl⟩⟩
      · obtain ⟨base, -, hs⟩ := ok_of_check hs
        obtain ⟨_, r₂, h₂, -, hs⟩ := ok_of_bind hs
        obtain rfl : r₂ = [] := List.length_eq_zero_iff.1 (by simpa using h₂)
        cases hs
termination_by (ts.length, 5)
decreasing_by all_goals subst_vars; simp only [Prod.lex_def, List.length_cons, true_and]; omega

theorem persists_memberGroup (base : CType) (access : Option Access) (sc : Scope)
    (ts : List Token) : Persists more 1 (memberGroup stop' base access sc ts)
      (memberGroup stop base access sc (ts ++ more)) := by
  refine persists_of_pos fun hts => ?_
  unfold memberGroup
  rw [startsWith_append _ hts]
  split
  · exact persists_ok fun _ => ⟨_, rfl, rfl, rfl⟩
  · exact persists_memberList _ _ _ _
termination_by (ts.length, 4)

theorem persists_memberList (base : CType) (access : Option Access) (sc : Scope)
    (ts : List Token) : Persists more 1 (memberList stop' base access sc ts)
      (memberList stop base access sc (ts ++ more)) := by
  unfold memberList
  refine persists_bind_some (persists_memberDeclarator _ _) (fun (d, sc₁) r₁ h₁ _ _ => ?_)
    fun _ _ _ hs => by cases hs; exact Nat.zero_lt_one
  refine persists_bind_some persists_optionalWidth (fun width r₂ h₂ _ _ => ?_)
    fun _ _ _ hs => by cases hs; exact Nat.zero_lt_one
  dsimp only
  split
  · rename_i hc
    refine persists_ok fun hr => ?_
    rw [take?_append_none hc hr more]
    exact ⟨_, rfl, rfl, rfl⟩
  · rename_i r₃ h₃ hc
    obtain ⟨_, hc'⟩ := take?_append hc more
    rw [hc']
    exact persists_map (persists_memberList _ _ _ _) fun _ _ _ => ⟨_, _, rfl, fun _ => ⟨_, rfl⟩⟩
termination_by (ts.length, 3)

theorem persists_memberDeclarator (sc : Scope) (ts : List Token) :
    Persists more 1 (memberDeclarator stop' sc ts) (memberDeclarator stop sc (ts ++ more)) := by
  refine persists_of_pos fun hts => ?_
  unfold memberDeclarator
  rw [startsWith_append _ hts]
  split
  · exact persists_ok fun _ => ⟨_, rfl, rfl, rfl⟩
  · exact persists_declarator _ _
termination_by (ts.length, 2)

theorem persists_declarator (sc : Scope) (ts : List Token) :
    Persists more 1 (declarator stop' sc ts) (declarator stop sc (ts ++ more)) := by
  have h₁ := (pointerRun ts).short
  intro v r hlt h hr
  unfold declarator at h
  obtain ⟨⟨inner, sc₁⟩, r₂, h₂, hcore, h⟩ := ok_of_bind h
  dsimp only at h
  obtain ⟨⟨suffixes, sc₂⟩, r₃, h₃, hsuffixes, h⟩ := ok_of_bind h
  cases h
  have hr₃ : 0 < r₃.length := hr
  have hpos : 0 < (pointerRun ts).rest.length := by omega
  obtain ⟨hv, hrest⟩ := pointerRun_append hpos more
  have hcore' : Gives (declaratorCore stop sc (pointerRun (ts ++ more)).rest) (inner, sc₁)
      (r₂ ++ more) := by
    rw [hrest]
    exact gives_declaratorCore_append hcore (by omega) (not_loneParen_of_suffixRun hsuffixes)
  have := gives_declarator hcore' (persists_suffixRun _ _ _ _ _ hsuffixes hr₃)
  rwa [hv] at this
termination_by (ts.length, 1)
decreasing_by all_goals simp only [Prod.lex_def]; omega

/-- A parenthesis that opens has to be followed by a token, which says what it opens. -/
theorem gives_declaratorCore_append {sc : Scope} {ts : List Token} {v : Declarator × Scope}
    {r : List Token} {hlt : r.length < ts.length + 1}
    (h : declaratorCore stop' sc ts = .ok ⟨v, r, hlt⟩) (hr : 0 < r.length) (hlone : ¬LoneParen r) :
    Gives (declaratorCore stop sc (ts ++ more)) v (r ++ more) := by
  unfold declaratorCore at h
  split at h
  · rename_i r₁ h₁ hn
    obtain ⟨_, hn'⟩ := takeNested?_append hn more
    unfold declaratorCore
    rw [hn']
    refine persists_bind_some (persists_declarator _ _) (fun w r₂ _ _ _ => ?_)
      (fun _ _ _ hs => by cases hs) v r hlt h hr
    exact persists_map (persists_expect _).weaken fun _ _ _ => ⟨_, _, rfl, fun _ => ⟨_, rfl⟩⟩
  · rename_i hn
    cases h
    obtain ⟨hv, hrest⟩ := optionalName_append hr more
    have hn' : takeNested? sc (ts ++ more) = none := by
      have hlen := (optionalName ts).short
      refine takeNested?_append_none hn (by omega) (fun ⟨t, hts, ht⟩ => hlone ⟨t, ?_, ht⟩) more
      subst hts
      exact (optionalName_of_none (takeIdent?_eq_none (heads_cons.2 (by simp [ht])))).2
    unfold declaratorCore
    rw [hn']
    exact ⟨_, rfl, congrArg (fun n => ((⟨n, []⟩ : Declarator), sc)) hv, hrest⟩
termination_by (ts.length, 0)

theorem persists_suffixRun (sc : Scope) (ts : List Token) :
    Persists more 1 (suffixRun stop' sc ts) (suffixRun stop sc (ts ++ more)) := by
  refine persists_of_pos fun hts => ?_
  unfold suffixRun
  split
  · rename_i r₁ h₁ hb
    obtain ⟨_, hb'⟩ := take?_append hb more
    rw [hb']
    refine persists_bind persists_arraySuffix fun size r₂ h₂ _ => ?_
    exact persists_map (persists_suffixRun _ _) fun _ _ _ => ⟨_, _, rfl, fun _ => ⟨_, rfl⟩⟩
  · rename_i hb
    rw [take?_append_none hb hts more]
    split
    · rename_i r₁ h₁ hp
      obtain ⟨_, hp'⟩ := take?_append hp more
      rw [hp']
      refine persists_bind (persists_functionSuffix _ _) fun (params, variadic, sc₁) r₂ h₂ _ => ?_
      exact persists_map (persists_suffixRun _ _) fun _ _ _ => ⟨_, _, rfl, fun _ => ⟨_, rfl⟩⟩
    · rename_i hp
      rw [take?_append_none hp hts more]
      exact persists_ok fun _ => ⟨_, rfl, rfl, rfl⟩
termination_by (ts.length, 0)

theorem persists_functionSuffix (sc : Scope) (ts : List Token) :
    Persists more 0 (functionSuffix stop' sc ts) (functionSuffix stop sc (ts ++ more)) := by
  unfold functionSuffix
  split
  · rename_i r₁ h₁ hn
    obtain ⟨_, hn'⟩ := takeNoParameters?_append hn more
    rw [hn']
    exact persists_ok fun _ => ⟨_, rfl, rfl, rfl⟩
  · rename_i hn
    refine persists_of_ok fun x h => ?_
    rw [takeNoParameters?_none_of_parameters hn h more]
    refine persists_bind_some (persists_parameters _ _) (fun w r₁ _ _ _ => ?_)
      fun _ _ _ hs => by cases hs
    exact persists_map (persists_expect _) fun _ _ _ => ⟨_, _, rfl, fun _ => ⟨_, rfl⟩⟩
termination_by (ts.length, 4)

theorem persists_parameters (sc : Scope) (ts : List Token) :
    Persists more 1 (parameters stop' sc ts) (parameters stop sc (ts ++ more)) := by
  refine persists_of_pos fun hts => ?_
  unfold parameters
  split
  · rename_i r₁ h₁ he
    obtain ⟨_, he'⟩ := take?_append he more
    rw [he']
    exact persists_ok fun _ => ⟨_, rfl, rfl, rfl⟩
  · rename_i he
    rw [take?_append_none he hts more]
    refine persists_bind_some (persists_specifiers _ _ _) (fun (specs, sc₁) r₁ h₁ _ _ => ?_)
      fun _ _ _ hs => ?_
    · refine persists_check (fun _ h => resolve_eq h _) fun base => ?_
      refine persists_bind_some (persists_parameterDeclarator _ _) (fun (d, sc₂) r₂ h₂ _ _ => ?_)
        fun _ _ _ hs => by cases hs; exact Nat.zero_lt_one
      dsimp only
      split
      · rename_i hc
        refine persists_ok fun hr => ?_
        rw [take?_append_none hc hr more]
        exact ⟨_, rfl, rfl, rfl⟩
      · rename_i r₃ h₃ hc
        obtain ⟨_, hc'⟩ := take?_append hc more
        rw [hc']
        exact persists_map (persists_parameters _ _) fun _ _ _ => ⟨_, _, rfl, fun _ => ⟨_, rfl⟩⟩
    · obtain ⟨base, -, hs⟩ := ok_of_check hs
      obtain ⟨_, r₂, h₂, -, hs⟩ := ok_of_bind hs
      obtain rfl : r₂ = [] := List.length_eq_zero_iff.1 (by simpa using h₂)
      cases hs
      exact Nat.zero_lt_one
termination_by (ts.length, 3)
decreasing_by all_goals simp only [Prod.lex_def, true_and]; omega

theorem persists_parameterDeclarator (sc : Scope) (ts : List Token) :
    Persists more 1 (parameterDeclarator stop' sc ts)
      (parameterDeclarator stop sc (ts ++ more)) := by
  refine persists_of_pos fun hts => ?_
  unfold parameterDeclarator
  rw [startsWith_append _ hts, startsWith_append _ hts]
  split
  · exact persists_ok fun _ => ⟨_, rfl, rfl, rfl⟩
  · exact persists_declarator _ _
termination_by (ts.length, 2)

end

/-! ## 7. Declarations -/

theorem persists_declaratorList (base : CType) (storage : Option StorageClass) (sc : Scope)
    (ts : List Token) : Persists more 0 (declaratorList stop' base storage sc ts)
      (declaratorList stop base storage sc (ts ++ more)) := by
  refine persists_of_ok fun s _ => ?_
  have hts : 0 < ts.length := Nat.zero_lt_of_lt s.short
  unfold declaratorList
  refine persists_bind_some (persists_declarator _ _) (fun (d, sc₁) r₁ h₁ _ hr₁ => ?_)
    fun (d, sc₁) hlt s hs => ?_
  · dsimp only
    split
    · exact persists_error
    · rw [place_append hts, startsWith_append _ hr₁]
      split
      · exact persists_map persists_skipBody fun _ _ _ => ⟨_, _, rfl, fun _ => ⟨_, rfl⟩⟩
      · refine persists_bind_some persists_skipInitializer (fun _ r₂ h₂ _ hr₂ => ?_)
          fun _ _ _ hs => ?_
        · dsimp only
          split
          · rename_i r₃ h₃ hc
            obtain ⟨_, hc'⟩ := take?_append hc more
            rw [hc']
            exact persists_map (persists_declaratorList _ _ _ _)
              fun _ _ _ => ⟨_, _, rfl, fun _ => ⟨_, rfl⟩⟩
          · rename_i hc
            rw [take?_append_none hc hr₂ more]
            exact persists_map (persists_expect _) fun _ _ _ => ⟨_, _, rfl, fun _ => ⟨_, rfl⟩⟩
        · cases hs
  · dsimp only at hs
    split at hs
    · cases hs
    · rw [show startsWith .braceOpen [] = false from rfl, Bool.and_false] at hs
      cases hs
termination_by ts.length

theorem persists_externalDeclaration (sc : Scope) (ts : List Token) :
    Persists more 0 (externalDeclaration stop' sc ts)
      (externalDeclaration stop sc (ts ++ more)) := by
  refine persists_of_ok fun s _ => ?_
  have hts : 0 < ts.length := Nat.zero_lt_of_lt s.short
  unfold externalDeclaration
  split
  · rename_i r h hs
    obtain ⟨_, hs'⟩ := take?_append hs more
    rw [hs']
    exact persists_ok fun _ => ⟨_, rfl, rfl, rfl⟩
  · rename_i hs
    rw [take?_append_none hs hts more, place_append hts]
    refine persists_bind_some (persists_specifiers _ _ _) (fun v r₁ h₁ _ hr₁ => ?_)
      fun v hlt s h => ?_
    · obtain ⟨specs, sc₁⟩ := v
      refine persists_check (fun _ h => h) fun base => ?_
      dsimp only
      split
      · rename_i r₂ h₂ hs₂
        obtain ⟨_, hs₂'⟩ := take?_append hs₂ more
        rw [hs₂']
        exact persists_ok fun _ => ⟨_, rfl, rfl, rfl⟩
      · rename_i hs₂
        rw [take?_append_none hs₂ hr₁ more]
        exact persists_map (persists_declaratorList _ _ _ _)
          fun _ _ _ => ⟨_, _, rfl, fun _ => ⟨_, rfl⟩⟩
    · obtain ⟨base, -, h⟩ := ok_of_check h
      obtain ⟨_, r₂, h₂, -, h⟩ := ok_of_bind h
      cases h₂

/-- **What stands behind declarations does not change them.** A text that `declarations` reads is
read as the same declarations in front of another text, which is then read from the scope that they
leave. -/
theorem declarations_append {ts : List Token} {sc sc₁ : Scope} {ds : List Declaration}
    (h : declarations stop' sc ts = .ok (ds, sc₁)) (stop : Location) (more : List Token) :
    declarations stop sc (ts ++ more) =
      (declarations stop sc₁ more).map fun v => (ds ++ v.1, v.2) := by
  unfold declarations at h
  split at h
  · rename_i hts
    cases h
    rw [List.isEmpty_iff.1 hts, List.nil_append]
    cases declarations stop sc more <;> rfl
  · obtain ⟨⟨own, sc₂⟩, r, hr, hown, h⟩ := ok_of_bind h
    obtain ⟨⟨list, sc₃⟩, hlist, h⟩ := ok_of_check h
    cases h
    have hfirst : Gives (externalDeclaration stop sc (ts ++ more)) (own, sc₂) (r ++ more) :=
      persists_externalDeclaration sc ts _ _ _ hown (Nat.zero_le _)
    rw [declarations_of_gives hfirst, declarations_append hlist stop more]
    cases declarations stop sc₁ more with
    | error x => rfl
    | ok v => exact congrArg (fun l => Except.ok (l, v.2)) (List.append_assoc own list v.1).symm
termination_by ts.length

/-- The tokens of `typedef int T;`. -/
def synonymTokens : List Token :=
  [⟨.keyword (.storage .typeSynonym), ⟨1, 1⟩⟩, ⟨.keyword (.builtin .int), ⟨1, 9⟩⟩,
    ⟨.ident "T", ⟨1, 13⟩⟩, ⟨.mark .semicolon, ⟨1, 14⟩⟩]

/-- The tokens of `T x;`, which only the typedef in front makes a declaration. -/
def userTokens : List Token :=
  [⟨.ident "T", ⟨2, 1⟩⟩, ⟨.ident "x", ⟨2, 3⟩⟩, ⟨.mark .semicolon, ⟨2, 4⟩⟩]

theorem declarations_append_synonym :
    ∃ sc, declarations ⟨1, 15⟩ {} synonymTokens =
        .ok ([⟨some "T", .builtin .none "int", some .typeSynonym, ⟨1, 13⟩⟩], sc) ∧
      declarations ⟨2, 5⟩ {} (synonymTokens ++ userTokens) =
        .ok ([⟨some "T", .builtin .none "int", some .typeSynonym, ⟨1, 13⟩⟩,
          ⟨some "x", .synonym .none "T" (.builtin .none "int"), none, ⟨2, 3⟩⟩], sc) := by
  have hfirst : declarations ⟨1, 15⟩ {} synonymTokens =
      .ok ([⟨some "T", .builtin .none "int", some .typeSynonym, ⟨1, 13⟩⟩],
        ⟨[("T", .synonym .none "T" (.builtin .none "int"))], {}⟩) := by cbv
  refine ⟨_, hfirst, (declarations_append hfirst ⟨2, 5⟩ userTokens).trans ?_⟩
  cbv

end TypeLedger
