import TypeLedger.Proofs.Synonyms.Mirrors

/-!
# The grammar on two texts

* The parts of the grammar that call each other, with a text and with the text that has the words in
  the place of their name: the proofs go along the recursion of the first.
* `MirrorsSpecifiers`: specifiers are the one part that may end in front of the name, where they
  would go on in front of the words. What comes behind them rules this out: it would take the name
  for a name (`heads_of_declarator`).
* `declarations_respelled`: the declarations of the second text have the names and the storage
  classes of those of the first, and their types with the builtin type where the name stood.
-/

namespace TypeLedger

variable {α β : Type} {m n m' n' : Nat} {stop stop' : Location} {sc sc' : Scope}
  {ts ts' : List Token}

namespace BuiltinSynonym

variable {S : BuiltinSynonym}

/-! ## 1. Specifiers and what stands behind them -/

/-- As `Mirrors`, for specifiers behind which the name does not come. -/
def MirrorsSpecifiers (S : BuiltinSynonym) (roles : List Role)
    (e : Except SourceError (Step m (Specifiers × Scope)))
    (e' : Except SourceError (Step n (Specifiers × Scope))) : Prop :=
  S.Permits roles → ∀ s, e = .ok s → Heads (· ≠ .ident S.name) s.rest →
    ∃ v' r', Gives e' v' r' ∧ S.Specs s.value.1 v'.1 ∧ S.Scopes s.value.2 v'.2 ∧
      S.Respells s.rest r'

/-- Specifiers, and what follows them and does not begin with the name. -/
theorem mirrors_specified {rel : α → β → Prop} {roles : List Role}
    {e : Except SourceError (Step m (Specifiers × Scope))}
    {e' : Except SourceError (Step n (Specifiers × Scope))}
    {f : Step m (Specifiers × Scope) → Except SourceError (Step m' α)}
    {f' : Step n (Specifiers × Scope) → Except SourceError (Step n' β)}
    {k : Step m (Specifiers × Scope) → List Role} (he : S.MirrorsSpecifiers roles e e')
    (hhead : ∀ s x, S.Permits (k s) → f s = .ok x → Heads (· ≠ .ident S.name) s.rest)
    (hf : ∀ specs sc r hlt specs' sc' r' hlt', S.Specs specs specs' → S.Scopes sc sc' →
      S.Respells r r' → S.Mirrors rel (k ⟨(specs, sc), r, hlt⟩) (f ⟨(specs, sc), r, hlt⟩)
        (f' ⟨(specs', sc'), r', hlt'⟩)) :
    S.Mirrors rel (roles ++ Role.behind e k) (e >>= f) (e' >>= f') := by
  intro hp x hx
  obtain ⟨hp₁, hp₂⟩ := permits_append.1 hp
  cases e with
  | error y => cases hx
  | ok s =>
    obtain ⟨v', r', ⟨s', hs', rfl, rfl⟩, hv, hsc, hr⟩ := he hp₁ s rfl (hhead s x hp₂ hx)
    subst hs'
    exact hf s.value.1 s.value.2 s.rest s.short s'.value.1 s'.value.2 s'.rest s'.short hv hsc hr
      hp₂ x hx

theorem heads_of_startsWith {m : Mark} (h : startsWith m ts = true) :
    Heads (· ≠ .ident S.name) ts := by
  obtain ⟨t, r, rfl, ht⟩ := startsWith_iff.1 h
  exact heads_cons.2 (by rw [ht]; simp)

theorem heads_of_take? {m : Mark} {s : Takes ts Unit} (h : take? m ts = some s) :
    Heads (· ≠ .ident S.name) ts := by
  cases ts with
  | nil => cases h
  | cons t r =>
    refine heads_cons.2 fun ht => ?_
    rw [take?_of_ne (by rw [ht]; simp)] at h
    cases h

/-- In front of a declarator, an identifier is taken for a name. -/
theorem mem_declaratorRoles {t : Token} {x : String} (ht : t.kind = .ident x) (stop : Location)
    (sc : Scope) (r : List Token) : .name x ∈ declaratorRoles stop sc (t :: r) := by
  have hpointer : takePointer? (t :: r) = none :=
    takePointer?_eq_none (heads_cons.2 (by rw [ht]; rfl))
  have hnested : takeNested? sc (t :: r) = none := by
    rw [takeNested?, take?_of_ne (by rw [ht]; simp)]
  unfold declaratorRoles
  dsimp only
  rw [(pointerRun_of_none hpointer).2]
  refine List.mem_append_left _ ?_
  unfold coreRoles
  rw [hnested, (optionalName_of_kind ht).1]
  exact List.mem_singleton_self _

theorem heads_of_declarator (h : S.Permits (declaratorRoles stop sc ts)) :
    Heads (· ≠ .ident S.name) ts := by
  intro t hts ht
  cases ts with
  | nil => cases hts
  | cons u r =>
    obtain rfl : u = t := by simpa using hts
    exact h.1 (mem_declaratorRoles ht stop sc r)

theorem heads_of_memberGroup {base : CType} {access : Option Access}
    (h : S.Permits (memberGroupRoles stop base access sc ts)) : Heads (· ≠ .ident S.name) ts := by
  unfold memberGroupRoles at h
  split at h
  · exact heads_of_startsWith ‹_›
  · unfold memberListRoles at h
    have hd := (permits_append.1 h).1
    unfold memberDeclaratorRoles at hd
    split at hd
    · exact heads_of_startsWith ‹_›
    · exact heads_of_declarator hd

theorem heads_of_parameterDeclarator (h : S.Permits (parameterDeclaratorRoles stop sc ts)) :
    Heads (· ≠ .ident S.name) ts := by
  unfold parameterDeclaratorRoles at h
  split at h
  · rename_i hs
    rcases Bool.or_eq_true_iff.1 hs with hs | hs <;> exact heads_of_startsWith hs
  · exact heads_of_declarator h

theorem named_of_refuseSecond {acc : Specifiers} {u : Unit}
    (h : refuseSecond stop acc ts = .ok u) : acc.named = none := by
  unfold refuseSecond at h
  split at h
  · cases h
  · rename_i hn
    simpa using hn

/-- The token closes no body, begins no label and is no semicolon, so a member begins with it. -/
def BeginsMember (k : TokenKind) : Prop :=
  k ≠ .mark .braceClose ∧ (∀ a, k ≠ .keyword (.access a)) ∧ k ≠ .mark .semicolon

/-- What a token may be in the body of a record. -/
theorem beginsMember_or (k : TokenKind) :
    k = .mark .braceClose ∨ (∃ a, k = .keyword (.access a)) ∨ k = .mark .semicolon ∨
      BeginsMember k := by
  by_cases hclose : k = .mark .braceClose
  · exact .inl hclose
  by_cases hlabel : ∃ a, k = .keyword (.access a)
  · exact .inr (.inl hlabel)
  by_cases hsemicolon : k = .mark .semicolon
  · exact .inr (.inr (.inl hsemicolon))
  · exact .inr (.inr (.inr ⟨hclose, not_exists.1 hlabel, hsemicolon⟩))

/-- The roles in a body begin with those of a member that it begins with. -/
theorem membersRoles_of_begins {key : RecordKey} {access : Option Access} {t : Token}
    {r : List Token} (ht : BeginsMember t.kind) :
    membersRoles stop key access sc (t :: r) = specifiersRoles stop {} sc (t :: r) ++
      Role.behind (specifiers stop {} sc (t :: r)) fun ⟨(specs, sc₁), r₁, _⟩ =>
        match specs.resolve t.location with
        | .error _ => []
        | .ok base =>
          memberGroupRoles stop base access sc₁ r₁ ++
            Role.behind (memberGroup stop base access sc₁ r₁) fun ⟨(_, sc₂), r₂, _⟩ =>
              Role.behind (expect stop .semicolon r₂) fun ⟨_, r₃, _⟩ =>
                membersRoles stop key access sc₂ r₃ := by
  conv => lhs; unfold membersRoles
  split
  · exact absurd ‹_› ht.1
  · exact absurd ‹_› (ht.2.1 _)
  · exact absurd ‹_› ht.2.2
  · rfl

/-- The name stands in no pointer. -/
theorem pointers_inDerivation (ts : List Token) :
    (pointerRun ts).value.map S.inDerivation = (pointerRun ts).value := by
  cases hp : takePointer? ts with
  | none => rw [(pointerRun_of_none hp).1, List.map_nil]
  | some s =>
    obtain ⟨k, r, hlt⟩ := s
    have hq := (qualifierRun r).short
    rw [(pointerRun_of_some hp).1, List.map_cons, pointers_inDerivation]
    rfl
termination_by ts.length

/-! ## 2. The recursive part -/

/-- A declarator of the second text belongs to that of the first, which declares another name. -/
def CarriesDeclarator (S : BuiltinSynonym) (v v' : Declarator × Scope) : Prop :=
  S.Carries S.inDeclarator v v' ∧ v.1.name ≠ some S.name

/-- The parameters of the second text belong to those of the first. -/
def CarriesParameters (S : BuiltinSynonym) (v v' : List CType × Bool × Scope) : Prop :=
  v'.1 = v.1.map S.inType ∧ v'.2.1 = v.2.1 ∧ S.Scopes v.2.2 v'.2.2

/-- A member may have no declarator in front of its width. -/
theorem mirrors_memberDeclarator (hsc : S.Scopes sc sc') (h : S.Respells ts ts')
    (hd : S.Mirrors S.CarriesDeclarator (declaratorRoles stop sc ts) (declarator stop sc ts)
      (declarator stop' sc' ts')) :
    S.Mirrors S.CarriesDeclarator (memberDeclaratorRoles stop sc ts)
      (memberDeclarator stop sc ts) (memberDeclarator stop' sc' ts') := by
  unfold memberDeclarator memberDeclaratorRoles
  rw [h.startsWith_eq]
  split
  · exact mirrors_ok ⟨⟨rfl, hsc⟩, by simp⟩ h
  · exact hd

/-- A parameter may have no declarator. -/
theorem mirrors_parameterDeclarator (hsc : S.Scopes sc sc') (h : S.Respells ts ts')
    (hd : S.Mirrors S.CarriesDeclarator (declaratorRoles stop sc ts) (declarator stop sc ts)
      (declarator stop' sc' ts')) :
    S.Mirrors S.CarriesDeclarator (parameterDeclaratorRoles stop sc ts)
      (parameterDeclarator stop sc ts) (parameterDeclarator stop' sc' ts') := by
  unfold parameterDeclarator parameterDeclaratorRoles
  rw [h.startsWith_eq, h.startsWith_eq]
  split
  · exact mirrors_ok ⟨⟨rfl, hsc⟩, by simp⟩ h
  · exact hd

/-- A group may have no members but an anonymous record. -/
theorem mirrors_memberGroup {base : CType} {access : Option Access} (hsc : S.Scopes sc sc')
    (h : S.Respells ts ts')
    (hlist : S.Mirrors (S.Carries (List.map S.inMember)) (memberListRoles stop base access sc ts)
      (memberList stop base access sc ts) (memberList stop' (S.inType base) access sc' ts')) :
    S.Mirrors (S.Carries (List.map S.inMember)) (memberGroupRoles stop base access sc ts)
      (memberGroup stop base access sc ts)
      (memberGroup stop' (S.inType base) access sc' ts') := by
  unfold memberGroup memberGroupRoles
  rw [h.startsWith_eq]
  split
  · refine mirrors_ok ⟨?_, hsc⟩ h
    rw [S.isAnonymousRecord_inType hsc.context]
    dsimp only
    split <;> rfl
  · exact hlist

/-- Behind a record or an enumeration, which names the type, the specifiers go on. -/
theorem mirrors_named {acc acc' : Specifiers} {roles : List Role}
    {e : Except SourceError (Step m (CType × Scope))}
    {e' : Except SourceError (Step n (CType × Scope))}
    {g : (s : Step m (CType × Scope)) → Reads s.rest (Specifiers × Scope) →
      Except SourceError (Step m' (Specifiers × Scope))}
    {whole : Except SourceError (Step n' (Specifiers × Scope))}
    (hacc : S.Specs acc acc') (he : S.Mirrors (S.Carries S.inType) roles e e')
    (hspecs : ∀ s : Step m (CType × Scope), ∀ sc₁' r₁',
      S.Specs { acc with named := some s.value.1 }
        { acc' with named := some (S.inType s.value.1) } →
      S.Scopes s.value.2 sc₁' → S.Respells s.rest r₁' →
      S.MirrorsSpecifiers
        (specifiersRoles stop { acc with named := some s.value.1 } s.value.2 s.rest)
        (specifiers stop { acc with named := some s.value.1 } s.value.2 s.rest)
        (specifiers stop' { acc' with named := some (S.inType s.value.1) } sc₁' r₁'))
    (hg : ∀ s v r hlt, ∃ hlt', g s ⟨v, r, hlt⟩ = .ok ⟨v, r, hlt'⟩)
    (hwhole : ∀ type sc₁' r₁' v' r₂', acc'.named = none → Gives e' (type, sc₁') r₁' →
      Gives (specifiers stop' { acc' with named := some type } sc₁' r₁') v' r₂' →
      Gives whole v' r₂') :
    S.MirrorsSpecifiers
      (roles ++ Role.behind e fun s =>
        specifiersRoles stop { acc with named := some s.value.1 } s.value.2 s.rest)
      (e >>= fun s => refuseSecond stop acc s.rest >>= fun _ =>
        specifiers stop { acc with named := some s.value.1 } s.value.2 s.rest >>= g s)
      whole := by
  intro hp s hs hhead
  obtain ⟨s₁, rfl, hafter⟩ := ok_of_check hs
  obtain ⟨_, href, hafter⟩ := ok_of_check hafter
  obtain ⟨v, r₂, h₂, hv₂, hlast⟩ := ok_of_bind hafter
  obtain ⟨hlt', hg⟩ := hg s₁ v r₂ h₂
  obtain rfl := Except.ok.inj (hg.symm.trans hlast)
  have hnamed := named_of_refuseSecond href
  obtain ⟨hp₁, hp₂⟩ := permits_append.1 hp
  obtain ⟨⟨_, sc₁'⟩, r₁', he', ⟨rfl, hsc₁⟩, hr₁⟩ := he hp₁ _ rfl
  obtain ⟨v', r₂', hv', hrel, hsc₂, hr₂⟩ :=
    hspecs _ sc₁' r₁' (hacc.withNamed hnamed s₁.value.1) hsc₁ hr₁ hp₂ _ hv₂ hhead
  exact ⟨v', r₂', hwhole _ _ _ _ _ (hacc.named_eq_none hnamed) he' hv', hrel, hsc₂, hr₂⟩

mutual

theorem mirrors_specifiers {acc acc' : Specifiers} {sc sc' : Scope} {ts ts' : List Token}
    (hacc : S.Specs acc acc') (hsc : S.Scopes sc sc') (h : S.Respells ts ts') :
    S.MirrorsSpecifiers (specifiersRoles stop acc sc ts) (specifiers stop acc sc ts)
      (specifiers stop' acc' sc' ts') := by
  intro hp s hs hhead
  cases h with
  | nil =>
    unfold specifiers at hs ⊢
    cases hs
    exact ⟨_, _, gives_ok, hacc, hsc, .nil⟩
  | keep hk hn h =>
    rename_i t t' r r'
    unfold specifiers at hs
    unfold specifiersRoles at hp
    rcases hacc.add? hsc hn with ⟨hadd, hadd'⟩ | ⟨a, a', hadd, hadd', ha⟩
    · simp only [hadd] at hs hp
      split at hs
      · rename_i key hkey
        simp only [hkey] at hp
        exact mirrors_named hacc (mirrors_recordSpecifier key t'.location hsc h)
          (fun s _ _ ha hsc₁ hr₁ => by
            have := s.short
            exact mirrors_specifiers ha hsc₁ hr₁)
          (fun _ _ _ _ => ⟨_, rfl⟩)
          (fun _ _ _ _ _ hn' => gives_specifiers_record (hk.trans hkey) hn') hp s hs hhead
      · rename_i hkey
        simp only [hkey] at hp
        exact mirrors_named hacc (mirrors_enumSpecifier hsc h)
          (fun s _ _ ha hsc₁ hr₁ => by
            have := s.short
            exact mirrors_specifiers ha hsc₁ hr₁)
          (fun _ _ _ _ => ⟨_, rfl⟩)
          (fun _ _ _ _ _ hn' => gives_specifiers_enum (hk.trans hkey) hn') hp s hs hhead
      · rename_i hrecord henum
        cases hs
        rw [← hk] at hadd' hrecord henum
        exact ⟨_, _, gives_specifiers_stop r' hadd' hrecord henum, hacc, hsc, .keep hk hn h⟩
    · simp only [hadd] at hs hp
      obtain ⟨v, r₁, h₁, hspecs, hs⟩ := ok_of_bind hs
      cases hs
      obtain ⟨v', r₁', hspecs', hv, hsc₁, hr₁⟩ := mirrors_specifiers ha hsc h hp _ hspecs hhead
      rw [← hk] at hadd'
      exact ⟨v', r₁', gives_specifiers_add _ hadd' hspecs', hv, hsc₁, hr₁⟩
  | use ht hw h =>
    rename_i t ws r r'
    unfold specifiers at hs
    unfold specifiersRoles at hp
    cases hadd : acc.add? sc t.kind with
    | none =>
      -- the name ends the specifiers, and stands in front of what is left
      simp only [hadd] at hs
      simp only [ht] at hs
      cases hs
      exact absurd ht (heads_cons.1 hhead)
    | some a =>
      simp only [hadd] at hs hp
      obtain ⟨v, r₁, h₁, hspecs, hs⟩ := ok_of_bind hs
      cases hs
      rw [ht] at hadd
      obtain ⟨v', r₁', hspecs', hv, hsc₁, hr₁⟩ :=
        mirrors_specifiers (hacc.add?_name hsc hadd) hsc h hp _ hspecs hhead
      exact ⟨v', r₁', gives_specifiers_words hw hspecs', hv, hsc₁, hr₁⟩
termination_by (ts.length, 0)
decreasing_by all_goals subst_vars; simp only [Prod.lex_def, List.length_cons]; omega

theorem mirrors_recordSpecifier (key : RecordKey) {l : Location} (l' : Location) {sc sc' : Scope}
    {ts ts' : List Token} (hsc : S.Scopes sc sc') (h : S.Respells ts ts') :
    S.Mirrors (S.Carries S.inType) (recordRoles stop key sc ts) (recordSpecifier stop key l sc ts)
      (recordSpecifier stop' key l' sc' ts') := by
  refine mirrors_of_permits fun hp => ?_
  unfold recordRoles at hp ⊢
  have hx := (permits_append.1 hp).1.ne_name
  have h₁ := (optionalName ts).short
  obtain ⟨hv, hr⟩ := h.optionalName hx
  unfold recordSpecifier
  dsimp only
  rw [hv, hr.startsWith_eq, hr.startsWith_eq]
  refine Mirrors.after ?_ _
  cases htag : tagged sc key (optionalName ts).value
      (startsWith .braceOpen (optionalName ts).rest ||
        startsWith .colon (optionalName ts).rest) with
  | error f => exact mirrors_error
  | ok v =>
    obtain ⟨id, sc₁⟩ := v
    obtain ⟨sc₁', htag', hsc₁⟩ := hsc.tagged htag
    rw [htag']
    have hsc₂ := hsc₁.nameClass hx key id
    dsimp only
    split
    · refine mirrors_bind (mirrors_optionalBases hsc₂ hr key) fun bases r₂ h₂ _ r₂' _ hb hr₂ => ?_
      subst hb
      refine mirrors_silent (mirrors_expect hr₂ _) fun _ r₃ h₃ _ r₃' _ _ hr₃ => ?_
      have hlt : r₃.length < r₂.length := h₃
      refine mirrors_end (mirrors_members key key.access hsc₂ hr₃)
        fun (list, sc₃) r₄ _ (list', sc₃') r₄' _ hlist hr₄ => ?_
      obtain ⟨hlist, hsc₃⟩ := hlist
      refine mirrors_end (mirrors_expect hr₄ _) fun _ r₅ _ _ r₅' _ _ hr₅ => ?_
      refine mirrors_ok ⟨rfl, ?_⟩ hr₅
      obtain rfl : list' = list.map S.inMember := hlist
      exact hsc₃.withContext (hsc₃.completeRecord id list bases)
    · exact mirrors_ok ⟨rfl, hsc₂⟩ hr
termination_by (ts.length, 0)
decreasing_by all_goals simp only [Prod.lex_def]; omega

theorem mirrors_members (key : RecordKey) (access : Option Access) {sc sc' : Scope}
    {ts ts' : List Token} (hsc : S.Scopes sc sc') (h : S.Respells ts ts') :
    S.Mirrors (S.Carries (List.map S.inMember)) (membersRoles stop key access sc ts)
      (members stop key access sc ts) (members stop' key access sc' ts') := by
  rcases h.cases_head with ⟨rfl, rfl⟩ | ⟨t, t', r, r', rfl, rfl, hk, -, hr⟩ |
    ⟨t, t', r, r', w, rfl, rfl, ht, hk⟩
  · unfold members
    exact mirrors_error
  · rcases beginsMember_or t.kind with hkind | ⟨a, hkind⟩ | hkind | hkind
    · unfold members membersRoles
      simp only [hk, hkind]
      exact mirrors_ok ⟨rfl, hsc⟩ h
    · unfold members membersRoles
      simp only [hk, hkind]
      refine mirrors_silent (mirrors_labelColon hr key _ _) fun _ r₁ h₁ _ r₁' _ _ hr₁ => ?_
      have hlt : r₁.length < r.length := h₁
      exact mirrors_end (mirrors_members key (some a) hsc hr₁)
        fun v r₂ _ v' r₂' _ hv hr₂ => mirrors_ok hv hr₂
    · unfold members membersRoles
      simp only [hk, hkind]
      exact mirrors_end (mirrors_members key access hsc hr)
        fun v r₂ _ v' r₂' _ hv hr₂ => mirrors_ok hv hr₂
    · exact mirrors_memberDeclaration key access hsc h hkind (hk ▸ hkind)
  · exact mirrors_memberDeclaration key access hsc h (by rw [ht]; exact ⟨by simp, by simp, by simp⟩)
      (by rw [hk]; exact ⟨by simp, by simp, by simp⟩)
termination_by (ts.length, 6)
decreasing_by all_goals subst_vars; simp only [Prod.lex_def, List.length_cons, true_and]; omega

theorem mirrors_memberDeclaration (key : RecordKey) (access : Option Access) {sc sc' : Scope}
    {t t' : Token} {r r' : List Token} (hsc : S.Scopes sc sc')
    (h : S.Respells (t :: r) (t' :: r')) (ht : BeginsMember t.kind) (ht' : BeginsMember t'.kind) :
    S.Mirrors (S.Carries (List.map S.inMember)) (membersRoles stop key access sc (t :: r))
      (members stop key access sc (t :: r)) (members stop' key access sc' (t' :: r')) := by
  rw [membersRoles_of_begins ht]
  unfold members
  split
  · exact absurd ‹_› ht.1
  · exact absurd ‹_› (ht.2.1 _)
  · exact absurd ‹_› ht.2.2
  split
  · exact absurd ‹_› ht'.1
  · exact absurd ‹_› (ht'.2.1 _)
  · exact absurd ‹_› ht'.2.2
  refine mirrors_specified (mirrors_specifiers specs_empty hsc h) (fun s x hp hx => ?_)
    fun specs sc₁ r₁ h₁ specs' sc₁' r₁' _ hspecs hsc₁ hr₁ => ?_
  · obtain ⟨base, hbase, -⟩ := ok_of_check hx
    dsimp only at hp
    rw [hbase] at hp
    exact heads_of_memberGroup (permits_append.1 hp).1
  dsimp only
  cases hbase : specs.resolve t.location with
  | error x => exact mirrors_error
  | ok base =>
    rw [hspecs.resolve hbase]
    refine mirrors_bind (mirrors_memberGroup hsc₁ hr₁ (mirrors_memberList access hsc₁ hr₁))
      fun (own, sc₂) r₂ h₂ (own', sc₂') r₂' _ hown hr₂ => ?_
    obtain ⟨hown, hsc₂⟩ := hown
    obtain rfl : own' = own.map S.inMember := hown
    refine mirrors_silent (mirrors_expect hr₂ _) fun _ r₃ h₃ _ r₃' _ _ hr₃ => ?_
    have hlt : r₃.length < r₂.length := h₃
    refine mirrors_end (mirrors_members key access hsc₂ hr₃)
      fun (list, sc₃) r₄ _ (list', sc₃') r₄' _ hlist hr₄ => ?_
    obtain ⟨hlist, hsc₃⟩ := hlist
    obtain rfl : list' = list.map S.inMember := hlist
    exact mirrors_ok ⟨(List.map_append ..).symm, hsc₃⟩ hr₄
termination_by ((t :: r).length, 5)
decreasing_by all_goals simp only [Prod.lex_def, true_and]; omega

theorem mirrors_memberList {base : CType} (access : Option Access) {sc sc' : Scope}
    {ts ts' : List Token} (hsc : S.Scopes sc sc') (h : S.Respells ts ts') :
    S.Mirrors (S.Carries (List.map S.inMember)) (memberListRoles stop base access sc ts)
      (memberList stop base access sc ts)
      (memberList stop' (S.inType base) access sc' ts') := by
  unfold memberList memberListRoles
  refine mirrors_bind (mirrors_memberDeclarator hsc h (mirrors_declarator hsc h))
    fun (d, sc₁) r₁ h₁ (d', sc₁') r₁' _ hd hr₁ => ?_
  obtain ⟨⟨hd, hsc₁⟩, -⟩ := hd
  obtain rfl : d' = S.inDeclarator d := hd
  refine mirrors_silent (mirrors_optionalWidth hr₁) fun width r₂ h₂ _ r₂' _ hw hr₂ => ?_
  subst hw
  dsimp only
  have hown : (⟨(S.inDeclarator d).name, (S.inDeclarator d).apply (S.inType base), access, width⟩ :
      MemberDecl) = S.inMember ⟨d.name, d.apply base, access, width⟩ := by
    rw [← inType_apply]
    rfl
  rw [hown]
  rcases hr₂.take? .comma with ⟨hc, hc'⟩ | ⟨r₃, r₃', h₃, _, hc, hc', hr₃⟩
  · rw [hc, hc']
    exact mirrors_ok ⟨rfl, hsc₁⟩ hr₂
  · rw [hc, hc']
    refine mirrors_end (mirrors_memberList access hsc₁ hr₃)
      fun (list, sc₂) r₄ _ (list', sc₂') r₄' _ hl hr₄ => ?_
    obtain ⟨hl, hsc₂⟩ := hl
    obtain rfl : list' = list.map S.inMember := hl
    exact mirrors_ok ⟨rfl, hsc₂⟩ hr₄
termination_by (ts.length, 3)
decreasing_by all_goals simp only [Prod.lex_def, true_and]; omega

theorem mirrors_declarator {sc sc' : Scope} {ts ts' : List Token} (hsc : S.Scopes sc sc')
    (h : S.Respells ts ts') :
    S.Mirrors S.CarriesDeclarator (declaratorRoles stop sc ts) (declarator stop sc ts)
      (declarator stop' sc' ts') := by
  have h₁ := (pointerRun ts).short
  obtain ⟨hv, hr₁⟩ := h.pointerRun
  unfold declarator declaratorRoles
  refine mirrors_bind (mirrors_declaratorCore hsc hr₁)
    fun (inner, sc₁) r₂ h₂ (inner', sc₁') r₂' _ hi hr₂ => ?_
  obtain ⟨⟨hi, hsc₁⟩, hname⟩ := hi
  obtain rfl : inner' = S.inDeclarator inner := hi
  refine mirrors_end (mirrors_suffixRun hsc₁ hr₂)
    fun (ds, sc₂) r₃ _ (ds', sc₂') r₃' _ hd hr₃ => ?_
  obtain ⟨hd, hsc₂⟩ := hd
  obtain rfl : ds' = ds.map S.inDerivation := hd
  refine mirrors_ok ⟨⟨?_, hsc₂⟩, hname⟩ hr₃
  simp only [inDeclarator, hv, List.map_append, List.map_reverse, pointers_inDerivation]
termination_by (ts.length, 1)
decreasing_by all_goals simp only [Prod.lex_def]; omega

theorem mirrors_declaratorCore {sc sc' : Scope} {ts ts' : List Token} (hsc : S.Scopes sc sc')
    (h : S.Respells ts ts') :
    S.Mirrors S.CarriesDeclarator (coreRoles stop sc ts) (declaratorCore stop sc ts)
      (declaratorCore stop' sc' ts') := by
  unfold declaratorCore coreRoles
  rcases hsc.takeNested? h with ⟨hn, hn'⟩ | ⟨r₁, r₁', h₁, _, hn, hn', hr₁⟩
  · rw [hn, hn']
    refine mirrors_of_permits fun hp => ?_
    obtain ⟨hv, hr⟩ := h.optionalName hp.ne_name
    dsimp only
    rw [hv]
    exact mirrors_ok ⟨⟨rfl, hsc⟩, hp.ne_name⟩ hr
  · rw [hn, hn']
    refine mirrors_end (mirrors_declarator hsc hr₁) fun v r₂ _ v' r₂' _ hv hr₂ => ?_
    exact mirrors_end (mirrors_expect hr₂ _) fun _ r₃ _ _ r₃' _ _ hr₃ => mirrors_ok hv hr₃
termination_by (ts.length, 0)
decreasing_by all_goals simp only [Prod.lex_def]; omega

theorem mirrors_suffixRun {sc sc' : Scope} {ts ts' : List Token} (hsc : S.Scopes sc sc')
    (h : S.Respells ts ts') :
    S.Mirrors (S.Carries (List.map S.inDerivation)) (suffixRoles stop sc ts)
      (suffixRun stop sc ts) (suffixRun stop' sc' ts') := by
  unfold suffixRun suffixRoles
  rcases h.take? .bracketOpen with ⟨hb, hb'⟩ | ⟨r₁, r₁', h₁, _, hb, hb', hr₁⟩
  · rw [hb, hb']
    dsimp only
    rcases h.take? .parenOpen with ⟨hp, hp'⟩ | ⟨r₁, r₁', h₁, _, hp, hp', hr₁⟩
    · rw [hp, hp']
      exact mirrors_ok ⟨rfl, hsc⟩ h
    · rw [hp, hp']
      refine mirrors_bind (mirrors_functionSuffix hsc hr₁)
        fun (ps, v, sc₁) r₂ h₂ (ps', v', sc₁') r₂' _ hv hr₂ => ?_
      obtain ⟨hps, hv, hsc₁⟩ := hv
      obtain rfl : ps' = ps.map S.inType := hps
      obtain rfl : v' = v := hv
      refine mirrors_end (mirrors_suffixRun hsc₁ hr₂)
        fun (ds, sc₂) r₃ _ (ds', sc₂') r₃' _ hd hr₃ => ?_
      obtain ⟨hd, hsc₂⟩ := hd
      obtain rfl : ds' = ds.map S.inDerivation := hd
      exact mirrors_ok ⟨rfl, hsc₂⟩ hr₃
  · rw [hb, hb']
    refine mirrors_silent (mirrors_arraySuffix hr₁) fun size r₂ h₂ _ r₂' _ hs hr₂ => ?_
    subst hs
    refine mirrors_end (mirrors_suffixRun hsc hr₂)
      fun (ds, sc₂) r₃ _ (ds', sc₂') r₃' _ hd hr₃ => ?_
    obtain ⟨hd, hsc₂⟩ := hd
    obtain rfl : ds' = ds.map S.inDerivation := hd
    exact mirrors_ok ⟨rfl, hsc₂⟩ hr₃
termination_by (ts.length, 0)
decreasing_by all_goals simp only [Prod.lex_def]; omega

theorem mirrors_functionSuffix {sc sc' : Scope} {ts ts' : List Token} (hsc : S.Scopes sc sc')
    (h : S.Respells ts ts') :
    S.Mirrors S.CarriesParameters (functionRoles stop sc ts) (functionSuffix stop sc ts)
      (functionSuffix stop' sc' ts') := by
  refine mirrors_of_permits fun hp => ?_
  unfold functionRoles at hp ⊢
  have hempty := h.takeNoParameters? fun hn => by
    rw [hn] at hp
    exact (permits_append.1 hp).1
  unfold functionSuffix
  rcases hempty with ⟨hn, hn'⟩ | ⟨r₁, r₁', _, _, hn, hn', hr₁⟩
  · rw [hn, hn']
    refine Mirrors.after (mirrors_end (mirrors_parameters hsc h) fun v r₁ _ v' r₁' _ hv hr₁ => ?_) _
    exact mirrors_end (mirrors_expect hr₁ _) fun _ r₂ _ _ r₂' _ _ hr₂ => mirrors_ok hv hr₂
  · rw [hn, hn']
    exact mirrors_ok ⟨rfl, rfl, hsc⟩ hr₁
termination_by (ts.length, 4)
decreasing_by all_goals simp only [Prod.lex_def, true_and]; omega

theorem mirrors_parameters {sc sc' : Scope} {ts ts' : List Token} (hsc : S.Scopes sc sc')
    (h : S.Respells ts ts') :
    S.Mirrors S.CarriesParameters (parametersRoles stop sc ts) (parameters stop sc ts)
      (parameters stop' sc' ts') := by
  unfold parameters parametersRoles
  rcases h.take? .ellipsis with ⟨he, he'⟩ | ⟨r₁, r₁', _, _, he, he', hr₁⟩
  · rw [he, he']
    refine mirrors_specified (mirrors_specifiers specs_empty hsc h) (fun s x hp hx => ?_)
      fun specs sc₁ r₁ h₁ specs' sc₁' r₁' _ hspecs hsc₁ hr₁ => ?_
    · exact heads_of_parameterDeclarator (permits_append.1 hp).1
    dsimp only
    cases hbase : specs.resolve (place stop ts) with
    | error x => exact mirrors_error
    | ok base =>
      rw [hspecs.resolve hbase]
      refine mirrors_bind (mirrors_parameterDeclarator hsc₁ hr₁ (mirrors_declarator hsc₁ hr₁))
        fun (d, sc₂) r₂ h₂ (d', sc₂') r₂' _ hd hr₂ => ?_
      obtain ⟨⟨hd, hsc₂⟩, -⟩ := hd
      obtain rfl : d' = S.inDeclarator d := hd
      dsimp only
      rw [← inType_apply]
      rcases hr₂.take? .comma with ⟨hc, hc'⟩ | ⟨r₃, r₃', h₃, _, hc, hc', hr₃⟩
      · rw [hc, hc']
        exact mirrors_ok ⟨rfl, rfl, hsc₂⟩ hr₂
      · rw [hc, hc']
        refine mirrors_end (mirrors_parameters hsc₂ hr₃)
          fun (ps, v, sc₃) r₄ _ (ps', v', sc₃') r₄' _ hv hr₄ => ?_
        obtain ⟨hps, hv, hsc₃⟩ := hv
        obtain rfl : ps' = ps.map S.inType := hps
        obtain rfl : v' = v := hv
        exact mirrors_ok ⟨rfl, rfl, hsc₃⟩ hr₄
  · rw [he, he']
    exact mirrors_ok ⟨rfl, rfl, hsc⟩ hr₁
termination_by (ts.length, 3)
decreasing_by all_goals simp only [Prod.lex_def, true_and]; omega

end

/-! ## 3. Declarations -/

/-- A declaration of the second text belongs to that of the first: its type is that one's
(`inType`). -/
structure Follows (S : BuiltinSynonym) (d d' : Declaration) : Prop where
  name : d'.name = d.name
  type : d'.type = S.inType d.type
  storage : d'.storage = d.storage

/-- The declarations of the second text belong to those of the first. -/
def CarriesDeclarations (S : BuiltinSynonym) (v v' : List Declaration × Scope) : Prop :=
  List.Forall₂ S.Follows v.1 v'.1 ∧ S.Scopes v.2 v'.2

theorem mirrors_declaratorList {base : CType} {storage : Option StorageClass} {sc sc' : Scope}
    {ts ts' : List Token} (hsc : S.Scopes sc sc') (h : S.Respells ts ts') :
    S.Mirrors S.CarriesDeclarations (declaratorListRoles stop base storage sc ts)
      (declaratorList stop base storage sc ts)
      (declaratorList stop' (S.inType base) storage sc' ts') := by
  unfold declaratorList declaratorListRoles
  refine mirrors_bind (mirrors_declarator hsc h)
    fun (d, sc₁) r₁ h₁ (d', sc₁') r₁' _ hd hr₁ => ?_
  obtain ⟨⟨hd, hsc₁⟩, hname⟩ := hd
  obtain rfl : d' = S.inDeclarator d := hd
  have hdname : (S.inDeclarator d).name = d.name := rfl
  dsimp only at hname ⊢
  rw [hdname, ← inType_apply]
  cases hn : d.name with
  | none => exact mirrors_error
  | some x =>
    have hx : x ≠ S.name := fun he => hname (hn.trans (congrArg some he))
    dsimp only
    rw [isFunction_inType, hr₁.startsWith_eq]
    have hown : S.Follows ⟨some x, d.apply base, storage, place stop ts⟩
        ⟨some x, S.inType (d.apply base), storage, place stop' ts'⟩ := ⟨rfl, rfl, rfl⟩
    have hsc₂ : S.Scopes
        (if storage = some .typeSynonym then
          sc₁.nameType x (.synonym .none x (d.apply base)) else sc₁)
        (if storage = some .typeSynonym then
          sc₁'.nameType x (.synonym .none x (S.inType (d.apply base))) else sc₁') := by
      split
      · rw [← S.inType_synonym_of_ne hx]
        exact hsc₁.nameType hx _
      · exact hsc₁
    split
    · exact mirrors_end (mirrors_skipBody hr₁)
        fun _ r₂ _ _ r₂' _ _ hr₂ => mirrors_ok ⟨.cons hown .nil, hsc₂⟩ hr₂
    · refine mirrors_silent (mirrors_skipInitializer hr₁) fun _ r₂ h₂ _ r₂' _ _ hr₂ => ?_
      have hlt : r₂.length < r₁.length + 1 := h₂
      rcases hr₂.take? .comma with ⟨hc, hc'⟩ | ⟨r₃, r₃', h₃, _, hc, hc', hr₃⟩
      · dsimp only
        rw [hc, hc']
        exact mirrors_end (mirrors_expect hr₂ _)
          fun _ r₃ _ _ r₃' _ _ hr₃ => mirrors_ok ⟨.cons hown .nil, hsc₂⟩ hr₃
      · dsimp only
        rw [hc, hc']
        refine mirrors_end (mirrors_declaratorList hsc₂ hr₃)
          fun (list, sc₃) r₄ _ (list', sc₃') r₄' _ hlist hr₄ => ?_
        exact mirrors_ok ⟨.cons hown hlist.1, hlist.2⟩ hr₄
termination_by ts.length

theorem mirrors_externalDeclaration (hsc : S.Scopes sc sc') (h : S.Respells ts ts') :
    S.Mirrors S.CarriesDeclarations (externalRoles stop sc ts) (externalDeclaration stop sc ts)
      (externalDeclaration stop' sc' ts') := by
  unfold externalDeclaration externalRoles
  rcases h.take? .semicolon with ⟨hs, hs'⟩ | ⟨r, r', _, _, hs, hs', hr⟩
  · rw [hs, hs']
    refine mirrors_specified (mirrors_specifiers specs_empty hsc h) (fun s x hp hx => ?_)
      fun specs sc₁ r₁ h₁ specs' sc₁' r₁' _ hspecs hsc₁ hr₁ => ?_
    · obtain ⟨base, hbase, -⟩ := ok_of_check hx
      dsimp only at hp
      rw [hbase] at hp
      dsimp only at hp
      split at hp
      · exact heads_of_take? ‹_›
      · unfold declaratorListRoles at hp
        exact heads_of_declarator (permits_append.1 hp).1
    dsimp only
    cases hbase : specs.resolve (place stop ts) with
    | error x => exact mirrors_error
    | ok base =>
      rw [hspecs.resolve hbase, hspecs.storage]
      rcases hr₁.take? .semicolon with ⟨hc, hc'⟩ | ⟨r₂, r₂', _, _, hc, hc', hr₂⟩
      · rw [hc, hc']
        exact mirrors_end (mirrors_declaratorList hsc₁ hr₁)
          fun _ _ _ _ _ _ hv hr₂ => mirrors_ok hv hr₂
      · rw [hc, hc']
        exact mirrors_ok ⟨.cons ⟨rfl, rfl, rfl⟩ .nil, hsc₁⟩ hr₂
  · rw [hs, hs']
    exact mirrors_ok ⟨.nil, hsc⟩ hr

/-- **Two texts of declarations,** of which one `Respells` the other. If the first is read, and
takes the name for no name (`Permits`), the second is read: its declarations and its scope belong to
those of the first. -/
theorem declarations_respelled {sc sc' : Scope} {ts ts' : List Token} (hsc : S.Scopes sc sc')
    (h : S.Respells ts ts') (hp : S.Permits (declarationsRoles stop sc ts))
    {v : List Declaration × Scope} (hv : declarations stop sc ts = .ok v) :
    ∃ v', declarations stop' sc' ts' = .ok v' ∧ S.CarriesDeclarations v v' := by
  unfold declarations at hv ⊢
  unfold declarationsRoles at hp
  rw [h.isEmpty_eq]
  split at hv
  · rename_i hempty
    cases hv
    exact ⟨_, if_pos hempty, .nil, hsc⟩
  · rename_i hempty
    rw [if_neg hempty] at hp ⊢
    obtain ⟨⟨own, sc₁⟩, r, hlt, hown, hv⟩ := ok_of_bind hv
    obtain ⟨⟨list, sc₂⟩, hlist, hv⟩ := ok_of_check hv
    cases hv
    rw [hown] at hp
    obtain ⟨hp₁, hp₂⟩ := permits_append.1 hp
    obtain ⟨_, _, ⟨⟨⟨own', sc₁'⟩, r', hlt'⟩, hown', rfl, rfl⟩, ⟨hfollows, hsc₁⟩, hr⟩ :=
      mirrors_externalDeclaration hsc h hp₁ _ hown
    have hshort : r.length < ts.length := hlt
    obtain ⟨⟨list', sc₂'⟩, hlist', hrest, hsc₂⟩ := declarations_respelled hsc₁ hr hp₂ hlist
    refine ⟨(own' ++ list', sc₂'), ?_, List.rel_append hfollows hrest, hsc₂⟩
    have hrun : (declarations stop' sc₁' r').bind (fun v => .ok (own' ++ v.1, v.2)) =
        .ok (own' ++ list', sc₂') := by
      rw [hlist']
      rfl
    rw [hown']
    exact hrun
termination_by ts.length

end BuiltinSynonym

end TypeLedger
