import TypeLedger.Proofs.Grammar.Locality
import TypeLedger.Proofs.Synonyms.Builtin
import TypeLedger.Proofs.Synonyms.Roles

/-!
# Tokens with the words in the place of their name

* `BuiltinSynonym.Respells`: tokens, and the same tokens with the builtin words in the place of each
  identifier that is their name.
* What the grammar finds in front of the one list it finds in front of the other. An identifier is
  the exception, if it is the name, and so is an empty parameter list, if the words are `void`:
  `Permits` leaves both out.
-/

namespace TypeLedger

variable {t : Token} {ts ts' : List Token}

theorem BuiltinWord.canonical?_nil : canonical? [] = none := rfl

/-- The tokens that some builtin words are. -/
def TokenKind.builtinWords (words : List BuiltinWord) : List TokenKind :=
  words.map fun w => .keyword (.builtin w)

namespace BuiltinSynonym

variable {S : BuiltinSynonym}

theorem words_ne_nil (S : BuiltinSynonym) : S.words ≠ [] := by
  intro h
  have := S.formed
  rw [h, BuiltinWord.canonical?_nil] at this
  cases this

/-! ## 1. The words -/

/-- The tokens that the words are. -/
def kinds (S : BuiltinSynonym) : List TokenKind := TokenKind.builtinWords S.words

/-- The second list has the words in the place of each use of their name. -/
inductive Respells (S : BuiltinSynonym) : List Token → List Token → Prop
  | nil : Respells S [] []
  | keep {t t' : Token} {ts ts' : List Token} (hk : t'.kind = t.kind)
    (hn : t.kind ≠ .ident S.name) (h : Respells S ts ts') : Respells S (t :: ts) (t' :: ts')
  | use {t : Token} {ws ts ts' : List Token} (ht : t.kind = .ident S.name)
    (hw : ws.map Token.kind = S.kinds) (h : Respells S ts ts') : Respells S (t :: ts) (ws ++ ts')

theorem unmarked_of_map_kinds {ws : List Token} (hw : ws.map Token.kind = S.kinds) :
    ∀ t ∈ ws, ∀ m, t.kind ≠ .mark m := by
  intro t ht m hm
  have hk : t.kind ∈ S.kinds := hw ▸ List.mem_map_of_mem ht
  obtain ⟨w, -, hk⟩ := List.mem_map.1 hk
  rw [hm] at hk
  cases hk

/-- The words begin with a builtin word. -/
theorem cons_of_map_kinds {ws : List Token} (hw : ws.map Token.kind = S.kinds) :
    ∃ w t us, ws = t :: us ∧ t.kind = .keyword (.builtin w) := by
  cases hS : S.words with
  | nil => exact absurd hS S.words_ne_nil
  | cons w vs =>
    rw [kinds, hS, TokenKind.builtinWords] at hw
    cases ws with
    | nil => cases hw
    | cons t us =>
      simp only [List.map_cons, List.cons.injEq] at hw
      exact ⟨w, t, us, rfl, hw.1⟩

/-! ## 2. What stands in front -/

namespace Respells

/-- What stands in front: nothing, a token that is kept, or the name and the words. -/
theorem cases_head (h : S.Respells ts ts') :
    (ts = [] ∧ ts' = []) ∨
      (∃ t t' r r', ts = t :: r ∧ ts' = t' :: r' ∧ t'.kind = t.kind ∧
        t.kind ≠ .ident S.name ∧ S.Respells r r') ∨
      ∃ t t' r r' w, ts = t :: r ∧ ts' = t' :: r' ∧ t.kind = .ident S.name ∧
        t'.kind = .keyword (.builtin w) := by
  cases h with
  | nil => exact .inl ⟨rfl, rfl⟩
  | keep hk hn h => exact .inr (.inl ⟨_, _, _, _, rfl, rfl, hk, hn, h⟩)
  | use ht hw h =>
    obtain ⟨w, t', us, rfl, hk⟩ := cons_of_map_kinds hw
    exact .inr (.inr ⟨_, _, _, _, w, rfl, rfl, ht, hk⟩)

theorem cons_left {r : List Token} (h : S.Respells (t :: r) ts') (hn : t.kind ≠ .ident S.name) :
    ∃ t' r', ts' = t' :: r' ∧ t'.kind = t.kind ∧ S.Respells r r' := by
  cases h with
  | keep hk _ h => exact ⟨_, _, rfl, hk, h⟩
  | use ht => exact absurd ht hn

theorem cons_right {t' : Token} {r' : List Token} (h : S.Respells ts (t' :: r'))
    (hn : ∀ w, t'.kind ≠ .keyword (.builtin w)) :
    ∃ t r, ts = t :: r ∧ t'.kind = t.kind ∧ S.Respells r r' := by
  rcases h.cases_head with ⟨-, h'⟩ | ⟨t, _, r, _, rfl, h', hk, -, hr⟩ |
    ⟨_, _, _, _, w, rfl, h', _, hk⟩
  · cases h'
  · cases h'
    exact ⟨t, r, rfl, hk, hr⟩
  · cases h'
    exact absurd hk (hn w)

theorem isEmpty_eq (h : S.Respells ts ts') : ts'.isEmpty = ts.isEmpty := by
  rcases h.cases_head with ⟨rfl, rfl⟩ | ⟨t, t', r, r', rfl, rfl, -⟩ | ⟨t, t', r, r', w, rfl, rfl, -⟩
  all_goals rfl

theorem startsWith_eq (h : S.Respells ts ts') (m : Mark) : startsWith m ts' = startsWith m ts := by
  rcases h.cases_head with ⟨rfl, rfl⟩ | ⟨t, t', r, r', rfl, rfl, hk, -⟩ |
    ⟨t, t', r, r', w, rfl, rfl, ht, hk⟩
  · rfl
  · rw [startsWith, startsWith, hk]
  · rw [startsWith, startsWith, ht, hk]
    rfl

/-- A mark stands in front of both texts or of none. -/
theorem take? (h : S.Respells ts ts') (m : Mark) :
    (TypeLedger.take? m ts = none ∧ TypeLedger.take? m ts' = none) ∨
      ∃ r r' hlt hlt', TypeLedger.take? m ts = some ⟨(), r, hlt⟩ ∧
        TypeLedger.take? m ts' = some ⟨(), r', hlt'⟩ ∧ S.Respells r r' := by
  rcases h.cases_head with ⟨rfl, rfl⟩ | ⟨t, t', r, r', rfl, rfl, hk, -, hr⟩ |
    ⟨t, t', r, r', w, rfl, rfl, ht, hk⟩
  · exact .inl ⟨rfl, rfl⟩
  · by_cases ht : t.kind = .mark m
    · exact .inr ⟨r, r', _, _, take?_of_kind ht, take?_of_kind (hk.trans ht), hr⟩
    · exact .inl ⟨take?_of_ne ht, take?_of_ne (hk ▸ ht)⟩
  · exact .inl ⟨take?_of_ne (by rw [ht]; simp), take?_of_ne (by rw [hk]; simp)⟩

/-- An identifier other than the name stands in front of both texts or of none. -/
theorem takeIdent? (h : S.Respells ts ts')
    (hn : ∀ s, TypeLedger.takeIdent? ts = some s → s.value ≠ S.name) :
    (TypeLedger.takeIdent? ts = none ∧ TypeLedger.takeIdent? ts' = none) ∨
      ∃ x r r' hlt hlt', x ≠ S.name ∧ TypeLedger.takeIdent? ts = some ⟨x, r, hlt⟩ ∧
        TypeLedger.takeIdent? ts' = some ⟨x, r', hlt'⟩ ∧ S.Respells r r' := by
  rcases h.cases_head with ⟨rfl, rfl⟩ | ⟨t, t', r, r', rfl, rfl, hk, -, hr⟩ |
    ⟨t, t', r, r', w, rfl, rfl, ht, hk⟩
  · exact .inl ⟨rfl, rfl⟩
  · by_cases ht : ∃ x, t.kind = .ident x
    · obtain ⟨x, ht⟩ := ht
      exact .inr ⟨x, r, r', _, _, hn _ (takeIdent?_of_kind ht), takeIdent?_of_kind ht,
        takeIdent?_of_kind (hk.trans ht), hr⟩
    · have ht' := not_exists.1 ht
      exact .inl ⟨takeIdent?_eq_none (heads_cons.2 ht'),
        takeIdent?_eq_none (heads_cons.2 (hk ▸ ht'))⟩
  · exact absurd rfl (hn _ (takeIdent?_of_kind ht))

theorem optionalName (h : S.Respells ts ts')
    (hn : (TypeLedger.optionalName ts).value ≠ some S.name) :
    (TypeLedger.optionalName ts').value = (TypeLedger.optionalName ts).value ∧
      S.Respells (TypeLedger.optionalName ts).rest (TypeLedger.optionalName ts').rest := by
  have hname : ∀ s, TypeLedger.takeIdent? ts = some s → s.value ≠ S.name := by
    rintro ⟨x, r, hlt⟩ hs rfl
    exact hn (optionalName_of_some hs).1
  rcases h.takeIdent? hname with ⟨hi, hi'⟩ | ⟨x, r, r', _, _, -, hi, hi', hr⟩
  · obtain ⟨hv, hrest⟩ := optionalName_of_none hi
    obtain ⟨hv', hrest'⟩ := optionalName_of_none hi'
    exact ⟨hv'.trans hv.symm, by rw [hrest, hrest']; exact h⟩
  · obtain ⟨hv, hrest⟩ := optionalName_of_some hi
    obtain ⟨hv', hrest'⟩ := optionalName_of_some hi'
    exact ⟨hv'.trans hv.symm, by rw [hrest, hrest']; exact hr⟩

theorem takePointer? (h : S.Respells ts ts') :
    (TypeLedger.takePointer? ts = none ∧ TypeLedger.takePointer? ts' = none) ∨
      ∃ k r r' hlt hlt', TypeLedger.takePointer? ts = some ⟨k, r, hlt⟩ ∧
        TypeLedger.takePointer? ts' = some ⟨k, r', hlt'⟩ ∧ S.Respells r r' := by
  rcases h.cases_head with ⟨rfl, rfl⟩ | ⟨t, t', r, r', rfl, rfl, hk, -, hr⟩ |
    ⟨t, t', r, r', w, rfl, rfl, ht, hk⟩
  · exact .inl ⟨rfl, rfl⟩
  · by_cases ht : isPointerKind t.kind = true
    · obtain ⟨m, hm, hp⟩ : ∃ m, t.kind = .mark m ∧ m.pointerKind?.isSome = true := by
        unfold isPointerKind at ht
        split at ht
        · exact ⟨_, ‹_›, ht⟩
        · cases ht
      obtain ⟨k, hp⟩ := Option.isSome_iff_exists.1 hp
      exact .inr ⟨k, r, r', _, _, takePointer?_of_kind hm hp,
        takePointer?_of_kind (hk.trans hm) hp, hr⟩
    · have ht' : isPointerKind t.kind = false := by simpa using ht
      exact .inl ⟨takePointer?_eq_none (heads_cons.2 ht'),
        takePointer?_eq_none (heads_cons.2 (hk ▸ ht'))⟩
  · exact .inl ⟨takePointer?_eq_none (heads_cons.2 (by rw [ht]; rfl)),
      takePointer?_eq_none (heads_cons.2 (by rw [hk]; rfl))⟩

/-! ## 3. Runs of tokens -/

theorem qualifierRun {ts ts' : List Token} (h : S.Respells ts ts') :
    (TypeLedger.qualifierRun ts').value = (TypeLedger.qualifierRun ts).value ∧
      S.Respells (TypeLedger.qualifierRun ts).rest (TypeLedger.qualifierRun ts').rest := by
  induction h with
  | nil => exact ⟨rfl, .nil⟩
  | keep hk hn h ih =>
    rename_i t t' r r'
    by_cases ht : ∃ w, t.kind = .keyword (.qualifier w)
    · obtain ⟨w, ht⟩ := ht
      obtain ⟨hv, hr⟩ := qualifierRun_cons r ht
      obtain ⟨hv', hr'⟩ := qualifierRun_cons r' (hk.trans ht)
      exact ⟨by rw [hv, hv', ih.1], by rw [hr, hr']; exact ih.2⟩
    · have ht' : isQualifierKind t.kind = false := by
        unfold isQualifierKind
        split
        · exact absurd ⟨_, ‹_›⟩ ht
        · rfl
      obtain ⟨hv, hr⟩ := qualifierRun_of_heads (heads_cons.2 ht' : Heads _ (t :: r))
      obtain ⟨hv', hr'⟩ := qualifierRun_of_heads (heads_cons.2 (hk ▸ ht') : Heads _ (t' :: r'))
      exact ⟨hv'.trans hv.symm, by rw [hr, hr']; exact .keep hk hn h⟩
  | use ht hw h ih =>
    rename_i t ws r r'
    obtain ⟨w, t', us, rfl, hk⟩ := cons_of_map_kinds hw
    obtain ⟨hv, hr⟩ := qualifierRun_of_heads
      (heads_cons.2 (by rw [ht]; rfl) : Heads (isQualifierKind · = false) (t :: r))
    obtain ⟨hv', hr'⟩ := qualifierRun_of_heads
      (heads_cons.2 (by rw [hk]; rfl) : Heads (isQualifierKind · = false) (t' :: (us ++ r')))
    exact ⟨hv'.trans hv.symm, by rw [hr, List.cons_append, hr']; exact .use ht hw h⟩

theorem pointerRun {ts ts' : List Token} (h : S.Respells ts ts') :
    (TypeLedger.pointerRun ts').value = (TypeLedger.pointerRun ts).value ∧
      S.Respells (TypeLedger.pointerRun ts).rest (TypeLedger.pointerRun ts').rest := by
  rcases h.takePointer? with ⟨hn, hn'⟩ | ⟨k, r, r', hlt, hlt', hp, hp', hr⟩
  · obtain ⟨hv, hr⟩ := pointerRun_of_none hn
    obtain ⟨hv', hr'⟩ := pointerRun_of_none hn'
    exact ⟨hv'.trans hv.symm, by rw [hr, hr']; exact h⟩
  · obtain ⟨hv, hrest⟩ := pointerRun_of_some hp
    obtain ⟨hv', hrest'⟩ := pointerRun_of_some hp'
    obtain ⟨hq, hqr⟩ := hr.qualifierRun
    have hqs := (TypeLedger.qualifierRun r).short
    obtain ⟨ihv, ihr⟩ := hqr.pointerRun
    exact ⟨by rw [hv, hv', hq, ihv], by rw [hrest, hrest']; exact ihr⟩
termination_by ts.length

theorem dropWhile_isArrayWord (h : S.Respells ts ts') :
    S.Respells (ts.dropWhile fun t => isArrayWord t.kind)
      (ts'.dropWhile fun t => isArrayWord t.kind) := by
  induction h with
  | nil => exact .nil
  | keep hk hn h ih =>
    rw [List.dropWhile_cons, List.dropWhile_cons, hk]
    split
    · exact ih
    · exact .keep hk hn h
  | use ht hw h ih =>
    obtain ⟨w, t', us, rfl, hk⟩ := cons_of_map_kinds hw
    rw [List.cons_append, List.dropWhile_cons_of_neg (by rw [ht]; simp [isArrayWord]),
      List.dropWhile_cons_of_neg (by rw [hk]; simp [isArrayWord])]
    exact .use ht hw h

theorem baseWords {ts ts' : List Token} (h : S.Respells ts ts') :
    (TypeLedger.baseWords ts').value = (TypeLedger.baseWords ts).value ∧
      S.Respells (TypeLedger.baseWords ts).rest (TypeLedger.baseWords ts').rest := by
  induction h with
  | nil => exact ⟨rfl, .nil⟩
  | keep hk hn h ih =>
    rename_i t t' r r'
    by_cases ha : ∃ a, t.kind = .keyword (.access a)
    · obtain ⟨a, ha⟩ := ha
      obtain ⟨hv, hr⟩ := baseWords_access ha r
      obtain ⟨hv', hr'⟩ := baseWords_access (hk.trans ha) r'
      exact ⟨by rw [hv, hv', ih.1], by rw [hr, hr']; exact ih.2⟩
    by_cases hvirtual : t.kind = .keyword .virtualBase
    · obtain ⟨hv, hr⟩ := baseWords_virtual hvirtual r
      obtain ⟨hv', hr'⟩ := baseWords_virtual (hk.trans hvirtual) r'
      exact ⟨by rw [hv, hv', ih.1], by rw [hr, hr']; exact ih.2⟩
    · have ha' := not_exists.1 ha
      obtain ⟨hv, hr⟩ := baseWords_other ha' hvirtual r
      obtain ⟨hv', hr'⟩ := baseWords_other (t := t') (hk ▸ ha') (hk ▸ hvirtual) r'
      exact ⟨hv'.trans hv.symm, by rw [hr, hr']; exact .keep hk hn h⟩
  | use ht hw h ih =>
    rename_i t ws r r'
    obtain ⟨w, t', us, rfl, hk⟩ := cons_of_map_kinds hw
    obtain ⟨hv, hr⟩ := baseWords_other (t := t) (by rw [ht]; simp) (by rw [ht]; simp) r
    obtain ⟨hv', hr'⟩ :=
      baseWords_other (t := t') (by rw [hk]; simp) (by rw [hk]; simp) (us ++ r')
    exact ⟨hv'.trans hv.symm, by rw [hr, List.cons_append, hr']; exact .use ht hw h⟩

end Respells

/-! ## 4. Skipped text -/

section Skipped

variable {ends : TokenKind → Bool} (hends : ∀ k, ends k = true → ∃ m, k = .mark m)
include hends

/-- Text without marks opens and closes no group. -/
theorem skipUntil?_unmarked {ws : List Token} (hw : ∀ t ∈ ws, ∀ m, t.kind ≠ .mark m) (depth : Nat)
    (ts : List Token) : skipUntil? ends depth (ws ++ ts) = skipUntil? ends depth ts := by
  induction ws with
  | nil => rfl
  | cons t ws ih =>
    have ht := hw t List.mem_cons_self
    have hd : depthBehind depth t.kind = depth := by
      unfold depthBehind
      split
      · exact absurd ‹_› (ht _)
      · rfl
    have hne : ¬(depth = 0 ∧ ends t.kind = true) := fun h => (hends _ h.2).elim ht
    rw [List.cons_append, skipUntil?, if_neg hne, hd,
      ih fun u hu => hw u (List.mem_cons_of_mem _ hu)]

/-- Neither the name nor the words open or close a group. -/
theorem Respells.skipUntil? {ts ts' r : List Token} (h : S.Respells ts ts') {depth : Nat}
    (hr : skipUntil? ends depth ts = some r) :
    ∃ r', skipUntil? ends depth ts' = some r' ∧ S.Respells r r' := by
  induction h generalizing depth with
  | nil => cases hr
  | keep hk hn h ih =>
    unfold TypeLedger.skipUntil? at hr ⊢
    rw [hk]
    split at hr
    · rename_i ht
      cases hr
      exact ⟨_, if_pos ht, .keep hk hn h⟩
    · rename_i ht
      rw [if_neg ht]
      exact ih hr
  | use ht hw h ih =>
    have hne {m : Mark} : TokenKind.ident S.name ≠ .mark m := by
      intro h
      cases h
    unfold TypeLedger.skipUntil? at hr
    rw [if_neg fun h => (hends _ h.2).elim fun m hm => hne (ht.symm.trans hm), ht] at hr
    rw [skipUntil?_unmarked hends (unmarked_of_map_kinds hw)]
    exact ih hr

end Skipped

/-! ## 5. Sizes and parameter lists -/

theorem kinds_of_closedSize? {size : ArraySize} {r : List Token} {hlt : r.length < ts.length}
    (h : TypeLedger.closedSize? ts = some ⟨size, r, hlt⟩) :
    ∃ t u, ts = t :: u :: r ∧ u.kind = .mark .bracketClose ∧
      ((∃ n, t.kind = .intLit n ∧ size = .fixed n) ∨ (t.kind = .mark .star ∧ size = .unknown)) := by
  unfold TypeLedger.closedSize? at h
  split at h
  · cases h
    exact ⟨_, _, rfl, rfl, .inl ⟨_, rfl, rfl⟩⟩
  · cases h
    exact ⟨_, _, rfl, rfl, .inr ⟨rfl, rfl⟩⟩
  · cases h

theorem closedSize?_of_kinds {t u : Token} {size : ArraySize} (hu : u.kind = .mark .bracketClose)
    (ht : (∃ n, t.kind = .intLit n ∧ size = .fixed n) ∨ (t.kind = .mark .star ∧ size = .unknown))
    (r : List Token) : ∃ hlt, TypeLedger.closedSize? (t :: u :: r) = some ⟨size, r, hlt⟩ := by
  obtain ⟨_, _⟩ := t
  obtain ⟨_, _⟩ := u
  cases hu
  rcases ht with ⟨n, ht, rfl⟩ | ⟨ht, rfl⟩
  · cases ht
    exact ⟨_, rfl⟩
  · cases ht
    exact ⟨_, rfl⟩

/-- A size and its bracket stand in front of both texts or of none. -/
theorem Respells.closedSize? (h : S.Respells ts ts') :
    (TypeLedger.closedSize? ts = none ∧ TypeLedger.closedSize? ts' = none) ∨
      ∃ size r r' hlt hlt', TypeLedger.closedSize? ts = some ⟨size, r, hlt⟩ ∧
        TypeLedger.closedSize? ts' = some ⟨size, r', hlt'⟩ ∧ S.Respells r r' := by
  cases hs : TypeLedger.closedSize? ts with
  | some s =>
    obtain ⟨size, r, hlt⟩ := s
    obtain ⟨t, u, rfl, hu, ht⟩ := kinds_of_closedSize? hs
    have htn : t.kind ≠ .ident S.name := by
      rcases ht with ⟨n, ht, -⟩ | ⟨ht, -⟩ <;> rw [ht] <;> simp
    obtain ⟨t', r₁', rfl, hkt, hr₁⟩ := h.cons_left htn
    obtain ⟨u', r', rfl, hku, hr⟩ := hr₁.cons_left (by rw [hu]; simp)
    obtain ⟨hlt', hs'⟩ := closedSize?_of_kinds (t := t') (hku.trans hu) (by rwa [hkt]) r'
    exact .inr ⟨size, r, r', hlt, hlt', rfl, hs', hr⟩
  | none =>
    cases hs' : TypeLedger.closedSize? ts' with
    | none => exact .inl ⟨rfl, rfl⟩
    | some s' =>
      obtain ⟨size, r', hlt'⟩ := s'
      obtain ⟨t', u', rfl, hu, ht⟩ := kinds_of_closedSize? hs'
      have htn : ∀ w, t'.kind ≠ .keyword (.builtin w) := by
        rcases ht with ⟨n, ht, -⟩ | ⟨ht, -⟩ <;> rw [ht] <;> simp
      obtain ⟨t, r₁, rfl, hkt, hr₁⟩ := h.cons_right htn
      obtain ⟨u, r, rfl, hku, hr⟩ := hr₁.cons_right (by rw [hu]; simp)
      obtain ⟨hlt, hs₁⟩ := closedSize?_of_kinds (t := t) (hku.symm.trans hu) (by rwa [← hkt]) r
      rw [hs] at hs₁
      cases hs₁

/-- The name is never taken for a name, and if it stands for `void`, it is no parameter list by
itself. -/
def Permits (S : BuiltinSynonym) (roles : List Role) : Prop :=
  .name S.name ∉ roles ∧ (S.words = [.void] → .alone S.name ∉ roles)

theorem permits_append {as bs : List Role} :
    S.Permits (as ++ bs) ↔ S.Permits as ∧ S.Permits bs := by
  simp only [Permits, List.mem_append, not_or]
  constructor
  · rintro ⟨⟨ha, hb⟩, h⟩
    exact ⟨⟨ha, fun hv => (h hv).1⟩, hb, fun hv => (h hv).2⟩
  · rintro ⟨⟨ha, ha'⟩, hb, hb'⟩
    exact ⟨⟨ha, hb⟩, fun hv => ⟨ha' hv, hb' hv⟩⟩

theorem Permits.ne_name {x : Option String} (h : S.Permits (Role.ofName x)) : x ≠ some S.name := by
  rintro rfl
  exact h.1 List.mem_cons_self

theorem kinds_of_takeNoParameters? {v : Unit} {r : List Token} {hlt : r.length < ts.length}
    (h : TypeLedger.takeNoParameters? ts = some ⟨v, r, hlt⟩) :
    (∃ t, ts = t :: r ∧ t.kind = .mark .parenClose) ∨
      ∃ t u, ts = t :: u :: r ∧ t.kind = .keyword (.builtin .void) ∧
        u.kind = .mark .parenClose := by
  unfold TypeLedger.takeNoParameters? at h
  split at h
  · cases h
    exact .inl ⟨_, rfl, rfl⟩
  · cases h
    exact .inr ⟨_, _, rfl, rfl, rfl⟩
  · cases h

theorem takeNoParameters?_close {t : Token} (ht : t.kind = .mark .parenClose) (r : List Token) :
    ∃ hlt, TypeLedger.takeNoParameters? (t :: r) = some ⟨(), r, hlt⟩ := by
  obtain ⟨_, _⟩ := t
  cases ht
  exact ⟨_, rfl⟩

theorem takeNoParameters?_void {t u : Token} (ht : t.kind = .keyword (.builtin .void))
    (hu : u.kind = .mark .parenClose) (r : List Token) :
    ∃ hlt, TypeLedger.takeNoParameters? (t :: u :: r) = some ⟨(), r, hlt⟩ := by
  obtain ⟨_, _⟩ := t
  obtain ⟨_, _⟩ := u
  cases ht
  cases hu
  exact ⟨_, rfl⟩

/-- The words are an empty parameter list only if they are `void` and their name is all that the
list consists of. -/
theorem alone_of_words {ws r r' : List Token} {t v u : Token} {us : List Token}
    (ht : t.kind = .ident S.name) (hw : ws.map Token.kind = S.kinds) (hr : S.Respells r r')
    (heq : ws ++ r' = v :: u :: us) (hv : v.kind = .keyword (.builtin .void))
    (hu : u.kind = .mark .parenClose) :
    S.words = [.void] ∧ .alone S.name ∈ Role.ofList (t :: r) := by
  match ws, hw, heq with
  | [], hw, _ =>
    obtain ⟨_, _, _, h, -⟩ := cons_of_map_kinds hw
    cases h
  | w :: w' :: ws, hw, heq =>
    simp only [List.cons_append, List.cons.injEq] at heq
    obtain ⟨-, rfl, -⟩ := heq
    exact absurd hu (unmarked_of_map_kinds hw w' (by simp) _)
  | [w], hw, heq =>
    simp only [List.cons_append, List.nil_append, List.cons.injEq] at heq
    obtain ⟨rfl, rfl⟩ := heq
    obtain ⟨u', r₁, rfl, hk, -⟩ := hr.cons_right (by rw [hu]; simp)
    refine ⟨?_, ?_⟩
    · have hone : S.words.map (fun w => TokenKind.keyword (.builtin w)) =
          [BuiltinWord.void].map fun w => TokenKind.keyword (.builtin w) := by
        rw [← TokenKind.builtinWords, ← kinds, ← hw, List.map_singleton, hv]
        rfl
      exact List.map_injective_iff.2 (fun _ _ h => by simpa using h) hone
    · obtain ⟨_, _⟩ := t
      obtain ⟨_, _⟩ := u'
      cases ht
      cases hk.symm.trans hu
      exact List.mem_singleton_self _

/-- An empty parameter list stands in front of both texts or of none. -/
theorem Respells.takeNoParameters? (h : S.Respells ts ts')
    (hp : TypeLedger.takeNoParameters? ts = none → S.Permits (Role.ofList ts)) :
    (TypeLedger.takeNoParameters? ts = none ∧ TypeLedger.takeNoParameters? ts' = none) ∨
      ∃ r r' hlt hlt', TypeLedger.takeNoParameters? ts = some ⟨(), r, hlt⟩ ∧
        TypeLedger.takeNoParameters? ts' = some ⟨(), r', hlt'⟩ ∧ S.Respells r r' := by
  cases hs : TypeLedger.takeNoParameters? ts with
  | some s =>
    obtain ⟨_, r, hlt⟩ := s
    rcases kinds_of_takeNoParameters? hs with ⟨t, rfl, ht⟩ | ⟨t, u, rfl, ht, hu⟩
    · obtain ⟨t', r', rfl, hk, hr⟩ := h.cons_left (by rw [ht]; simp)
      obtain ⟨hlt', hs'⟩ := takeNoParameters?_close (hk.trans ht) r'
      exact .inr ⟨r, r', hlt, hlt', rfl, hs', hr⟩
    · obtain ⟨t', r₁', rfl, hk, hr₁⟩ := h.cons_left (by rw [ht]; simp)
      obtain ⟨u', r', rfl, hku, hr⟩ := hr₁.cons_left (by rw [hu]; simp)
      obtain ⟨hlt', hs'⟩ := takeNoParameters?_void (hk.trans ht) (hku.trans hu) r'
      exact .inr ⟨r, r', hlt, hlt', rfl, hs', hr⟩
  | none =>
    cases hs' : TypeLedger.takeNoParameters? ts' with
    | none => exact .inl ⟨rfl, rfl⟩
    | some s' =>
      obtain ⟨_, r', hlt'⟩ := s'
      rcases kinds_of_takeNoParameters? hs' with ⟨t', rfl, ht⟩ | ⟨t', u', hts', ht, hu⟩
      · obtain ⟨t, r, rfl, hk, hr⟩ := h.cons_right (by rw [ht]; simp)
        obtain ⟨hlt, hs₁⟩ := takeNoParameters?_close (hk.symm.trans ht) r
        rw [hs] at hs₁
        cases hs₁
      · exfalso
        subst hts'
        generalize hts' : t' :: u' :: r' = us at h
        cases h with
        | nil => cases hts'
        | keep hk hn h =>
          cases hts'
          obtain ⟨u, r, rfl, hku, hr⟩ := h.cons_right (by rw [hu]; simp)
          obtain ⟨hlt, hs₁⟩ := takeNoParameters?_void (hk.symm.trans ht) (hku.symm.trans hu) r
          rw [hs] at hs₁
          cases hs₁
        | use hname hw h =>
          obtain ⟨hvoid, halone⟩ := alone_of_words hname hw h hts'.symm ht hu
          exact absurd halone ((hp hs).2 hvoid)

end BuiltinSynonym

end TypeLedger
