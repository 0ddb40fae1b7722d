import TypeLedger.Proofs.Grammar.Refilled

/-!
# Skipped text has no influence

* The parts of the grammar that call each other agree on texts that differ in skipped text: the
  proofs go along the recursion for the first text.
* `declarations_refilled`: the declarations of such texts have the same names, types and storage
  classes, and leave the same scope.
* `skipped_exactly`: bodies and initializers are skipped to their ends, and sources that differ in
  them are read alike.
-/

namespace TypeLedger

variable {stop stop' : Location} {ts ts' : List Token}

/-! ## 1. What declarations say -/

/-- What a declaration says, but for its place. -/
def Declaration.content (d : Declaration) : Option String × CType × Option StorageClass :=
  (d.name, d.type, d.storage)

/-- The declarations say the same (`Declaration.content`), and leave the same scope. -/
def SayTheSame (v v' : List Declaration × Scope) : Prop :=
  v'.1.map Declaration.content = v.1.map Declaration.content ∧ v'.2 = v.2

theorem sayTheSame_cons {d d' : Declaration} {v v' : List Declaration × Scope}
    (hd : d'.content = d.content) (h : SayTheSame v v') :
    SayTheSame (d :: v.1, v.2) (d' :: v'.1, v'.2) :=
  ⟨by rw [List.map_cons, List.map_cons, hd, h.1], h.2⟩

section Counted

variable [Counting]

/-! ## 2. The recursive part -/

theorem agrees_memberDeclarator {sc : Scope} (h : Resembles ts ts')
    (hd : Agrees Resembles (declarator stop sc ts) (declarator stop' sc ts')) :
    Agrees Resembles (memberDeclarator stop sc ts) (memberDeclarator stop' sc ts') := by
  unfold memberDeclarator
  rw [h.startsWith_eq]
  split
  · exact agrees_ok rfl h
  · exact hd

theorem agrees_parameterDeclarator {sc : Scope} (h : Resembles ts ts')
    (hd : Agrees Resembles (declarator stop sc ts) (declarator stop' sc ts')) :
    Agrees Resembles (parameterDeclarator stop sc ts) (parameterDeclarator stop' sc ts') := by
  unfold parameterDeclarator
  rw [h.startsWith_eq, h.startsWith_eq]
  split
  · exact agrees_ok rfl h
  · exact hd

theorem agrees_memberGroup {base : CType} {access : Option Access} {sc : Scope}
    (h : Resembles ts ts')
    (hlist : Agrees Resembles (memberList stop base access sc ts)
      (memberList stop' base access sc ts')) :
    Agrees Resembles (memberGroup stop base access sc ts)
      (memberGroup stop' base access sc ts') := by
  unfold memberGroup
  rw [h.startsWith_eq]
  split
  · exact agrees_ok rfl h
  · exact hlist

/-- Behind a record or an enumeration, the `specifiers` go on. -/
theorem agrees_named {acc : Specifiers} {type : CType} {sc : Scope}
    (hspecs : Agrees Resembles (specifiers stop { acc with named := some type } sc ts)
      (specifiers stop' { acc with named := some type } sc ts')) {m m' : Nat}
    {f : Reads ts (Specifiers × Scope) → Except SourceError (Step m (Specifiers × Scope))}
    {f' : Reads ts' (Specifiers × Scope) → Except SourceError (Step m' (Specifiers × Scope))}
    (hf : ∀ v r hlt r' hlt', Resembles r r' → Agrees Resembles (f ⟨v, r, hlt⟩) (f' ⟨v, r', hlt'⟩)) :
    Agrees Resembles
      (refuseSecond stop acc ts >>= fun _ =>
        specifiers stop { acc with named := some type } sc ts >>= f)
      (refuseSecond stop' acc ts' >>= fun _ =>
        specifiers stop' { acc with named := some type } sc ts' >>= f') := by
  refine agrees_check (fun c hc => ?_) fun _ => agrees_bind hspecs hf
  unfold refuseSecond at hc ⊢
  split at hc
  · cases hc
  · rename_i hn
    rw [if_neg hn]

mutual

theorem agrees_specifiers (acc : Specifiers) (sc : Scope) {ts ts' : List Token}
    (h : Resembles ts ts') :
    Agrees Resembles (specifiers stop acc sc ts) (specifiers stop' acc sc ts') := by
  obtain ⟨front, h'⟩ := h
  rcases h'.cases with ⟨rfl, rfl⟩ | ⟨k, l, l', r, r', rfl, rfl, hr⟩
  · unfold specifiers
    exact agrees_ok rfl h'.resembles
  · unfold specifiers
    cases hadd : acc.add? sc k with
    | some acc' =>
      have hr := hr (by rintro rfl; cases hadd) (by rintro rfl; cases hadd)
      dsimp only
      exact agrees_bind (agrees_specifiers acc' sc hr.resembles)
        fun _ _ _ _ _ hr₁ => agrees_ok rfl hr₁
    | none =>
      dsimp only
      split
      · rename_i key
        refine agrees_bind (agrees_recordSpecifier key l l' sc (hr nofun nofun))
          fun (type, sc₁) r₁ h₁ r₁' _ hr₁ => ?_
        exact agrees_named (agrees_specifiers _ sc₁ hr₁) fun _ _ _ _ _ hr₂ => agrees_ok rfl hr₂
      · refine agrees_bind (agrees_enumSpecifier (hr nofun nofun).resembles)
          fun (type, sc₁) r₁ h₁ r₁' _ hr₁ => ?_
        exact agrees_named (agrees_specifiers _ sc₁ hr₁) fun _ _ _ _ _ hr₂ => agrees_ok rfl hr₂
      · exact agrees_ok rfl h'.resembles
termination_by (ts.length, 0)
decreasing_by all_goals subst_vars; simp only [Prod.lex_def, List.length_cons]; omega

theorem agrees_recordSpecifier (key : RecordKey) (l l' : Location) (sc : Scope)
    {ts ts' : List Token} (h : Refilled .plain ts ts') :
    Agrees Resembles (recordSpecifier stop key l sc ts) (recordSpecifier stop' key l' sc ts') := by
  have h₁ := (optionalName ts).short
  obtain ⟨hv, front, hplain, hr⟩ := h.optionalName
  obtain rfl := hplain rfl
  unfold recordSpecifier
  dsimp only
  rw [hv, hr.resembles.startsWith_eq, hr.resembles.startsWith_eq]
  split
  · exact agrees_error
  rename_i id sc₁ htag
  split
  · refine agrees_bind (hr.agrees_optionalBases key) fun bases r₂ h₂ r₂' _ hr₂ => ?_
    refine agrees_bind (hr₂.agrees_expect nofun fun _ => rfl) fun _ r₃ h₃ r₃' _ hr₃ => ?_
    have hlt : r₃.length < r₂.length := h₃
    refine agrees_bind (agrees_members key key.access _ hr₃.resembles)
      fun (list, sc₃) r₄ _ r₄' _ hr₄ => ?_
    exact agrees_bind (agrees_expect hr₄ nofun nofun) fun _ _ _ _ _ hr₅ => agrees_ok rfl hr₅
  · exact agrees_ok rfl hr.resembles
termination_by (ts.length, 0)
decreasing_by all_goals simp only [Prod.lex_def]; omega

theorem agrees_members (key : RecordKey) (access : Option Access) (sc : Scope) {ts ts' : List Token}
    (h : Resembles ts ts') :
    Agrees Resembles (members stop key access sc ts) (members stop' key access sc ts') := by
  rcases h.cases with ⟨rfl, rfl⟩ | ⟨k, l, l', r, r', rfl, rfl, hr⟩
  · unfold members
    exact agrees_error
  · unfold members
    dsimp only
    split
    · exact agrees_ok rfl h
    · refine agrees_bind (agrees_labelColon (hr nofun nofun) key l l') fun _ r₁ h₁ r₁' _ hr₁ => ?_
      have hlt : r₁.length < r.length := h₁
      exact agrees_bind (agrees_members key _ sc hr₁) fun _ _ _ _ _ hr₂ => agrees_ok rfl hr₂
    · exact agrees_bind (agrees_members key access sc (hr nofun nofun))
        fun _ _ _ _ _ hr₂ => agrees_ok rfl hr₂
    · refine agrees_bind (agrees_specifiers {} sc h) fun (specs, sc₁) r₁ h₁ r₁' _ hr₁ => ?_
      dsimp only
      refine agrees_check (fun _ hb => resolve_eq hb _) fun base => ?_
      refine agrees_bind (agrees_memberGroup hr₁ (agrees_memberList base access sc₁ hr₁))
        fun (own, sc₂) r₂ h₂ r₂' _ hr₂ => ?_
      refine agrees_bind (agrees_expect hr₂ nofun nofun) fun _ r₃ h₃ r₃' _ hr₃ => ?_
      have hlt : r₃.length < r₂.length := h₃
      exact agrees_bind (agrees_members key access sc₂ hr₃)
        fun _ _ _ _ _ hr₄ => agrees_ok rfl hr₄
termination_by (ts.length, 5)
decreasing_by all_goals subst_vars; simp only [Prod.lex_def, List.length_cons, true_and] at *; omega

theorem agrees_memberList (base : CType) (access : Option Access) (sc : Scope)
    {ts ts' : List Token} (h : Resembles ts ts') :
    Agrees Resembles (memberList stop base access sc ts)
      (memberList stop' base access sc ts') := by
  unfold memberList
  refine agrees_bind (agrees_memberDeclarator h (agrees_declarator sc h))
    fun (d, sc₁) r₁ h₁ r₁' _ hr₁ => ?_
  refine agrees_bind (agrees_optionalWidth hr₁) fun width r₂ h₂ r₂' _ hr₂ => ?_
  dsimp only
  rcases hr₂.take? (m := .comma) nofun nofun with ⟨hc, hc'⟩ | ⟨r₃, r₃', h₃, _, hc, hc', hr₃⟩
  · rw [hc, hc']
    exact agrees_ok rfl hr₂
  · rw [hc, hc']
    exact agrees_bind (agrees_memberList base access sc₁ hr₃)
      fun _ _ _ _ _ hr₄ => agrees_ok rfl hr₄
termination_by (ts.length, 3)
decreasing_by all_goals simp only [Prod.lex_def, true_and]; omega

theorem agrees_declarator (sc : Scope) {ts ts' : List Token} (h : Resembles ts ts') :
    Agrees Resembles (declarator stop sc ts) (declarator stop' sc ts') := by
  have h₁ := (pointerRun ts).short
  obtain ⟨hv, hr₁⟩ := h.pointerRun
  unfold declarator
  refine agrees_bind (agrees_declaratorCore sc hr₁) fun (inner, sc₁) r₂ h₂ r₂' _ hr₂ => ?_
  refine agrees_bind (agrees_suffixRun sc₁ hr₂) fun (ds, sc₂) r₃ _ r₃' _ hr₃ => ?_
  exact agrees_ok (by simp only [hv]) hr₃
termination_by (ts.length, 1)
decreasing_by all_goals simp only [Prod.lex_def]; omega

theorem agrees_declaratorCore (sc : Scope) {ts ts' : List Token} (h : Resembles ts ts') :
    Agrees Resembles (declaratorCore stop sc ts) (declaratorCore stop' sc ts') := by
  unfold declaratorCore
  rcases h.takeNested? sc with ⟨hn, hn'⟩ | ⟨r₁, r₁', h₁, _, hn, hn', hr₁⟩
  · rw [hn, hn']
    obtain ⟨hv, hr⟩ := h.optionalName
    dsimp only
    rw [hv]
    exact agrees_ok rfl hr
  · rw [hn, hn']
    refine agrees_bind (agrees_declarator sc hr₁) fun _ r₂ _ r₂' _ hr₂ => ?_
    exact agrees_bind (agrees_expect hr₂ nofun nofun) fun _ _ _ _ _ hr₃ => agrees_ok rfl hr₃
termination_by (ts.length, 0)
decreasing_by all_goals simp only [Prod.lex_def]; omega

theorem agrees_suffixRun (sc : Scope) {ts ts' : List Token} (h : Resembles ts ts') :
    Agrees Resembles (suffixRun stop sc ts) (suffixRun stop' sc ts') := by
  unfold suffixRun
  rcases h.take? (m := .bracketOpen) nofun nofun with ⟨hb, hb'⟩ | ⟨r₁, r₁', h₁, _, hb, hb', hr₁⟩
  · rw [hb, hb']
    dsimp only
    rcases h.take? (m := .parenOpen) nofun nofun with ⟨hp, hp'⟩ | ⟨r₁, r₁', h₁, _, hp, hp', hr₁⟩
    · rw [hp, hp']
      exact agrees_ok rfl h
    · rw [hp, hp']
      refine agrees_bind (agrees_functionSuffix sc hr₁)
        fun (params, variadic, sc₁) r₂ h₂ r₂' _ hr₂ => ?_
      exact agrees_bind (agrees_suffixRun sc₁ hr₂) fun _ _ _ _ _ hr₃ => agrees_ok rfl hr₃
  · rw [hb, hb']
    refine agrees_bind (agrees_arraySuffix hr₁) fun size r₂ h₂ r₂' _ hr₂ => ?_
    exact agrees_bind (agrees_suffixRun sc hr₂) fun _ _ _ _ _ hr₃ => agrees_ok rfl hr₃
termination_by (ts.length, 0)
decreasing_by all_goals simp only [Prod.lex_def]; omega

theorem agrees_functionSuffix (sc : Scope) {ts ts' : List Token} (h : Resembles ts ts') :
    Agrees Resembles (functionSuffix stop sc ts) (functionSuffix stop' sc ts') := by
  unfold functionSuffix
  rcases h.takeNoParameters? with ⟨hn, hn'⟩ | ⟨_, r₁, r₁', _, _, hn, hn', hr₁⟩
  · rw [hn, hn']
    refine agrees_bind (agrees_parameters sc h) fun _ r₁ _ r₁' _ hr₁ => ?_
    exact agrees_bind (agrees_expect hr₁ nofun nofun) fun _ _ _ _ _ hr₂ => agrees_ok rfl hr₂
  · rw [hn, hn']
    exact agrees_ok rfl hr₁
termination_by (ts.length, 4)
decreasing_by all_goals simp only [Prod.lex_def, true_and]; omega

theorem agrees_parameters (sc : Scope) {ts ts' : List Token} (h : Resembles ts ts') :
    Agrees Resembles (parameters stop sc ts) (parameters stop' sc ts') := by
  unfold parameters
  rcases h.take? (m := .ellipsis) nofun nofun with ⟨he, he'⟩ | ⟨r₁, r₁', _, _, he, he', hr₁⟩
  · rw [he, he']
    refine agrees_bind (agrees_specifiers {} sc h) fun (specs, sc₁) r₁ h₁ r₁' _ hr₁ => ?_
    refine agrees_check (fun _ hb => resolve_eq hb _) fun base => ?_
    refine agrees_bind (agrees_parameterDeclarator hr₁ (agrees_declarator sc₁ hr₁))
      fun (d, sc₂) r₂ h₂ r₂' _ hr₂ => ?_
    dsimp only
    rcases hr₂.take? (m := .comma) nofun nofun with ⟨hc, hc'⟩ | ⟨r₃, r₃', h₃, _, hc, hc', hr₃⟩
    · rw [hc, hc']
      exact agrees_ok rfl hr₂
    · rw [hc, hc']
      exact agrees_bind (agrees_parameters sc₂ hr₃) fun _ _ _ _ _ hr₄ => agrees_ok rfl hr₄
  · rw [he, he']
    exact agrees_ok rfl hr₁
termination_by (ts.length, 3)
decreasing_by all_goals simp only [Prod.lex_def, true_and]; omega

end

/-! ## 3. Declarations -/

theorem agrees_declaratorList (base : CType) (storage : Option StorageClass) (sc : Scope)
    {ts ts' : List Token} (h : Resembles ts ts') :
    AgreesUpTo SayTheSame Resembles (declaratorList stop base storage sc ts)
      (declaratorList stop' base storage sc ts') := by
  unfold declaratorList
  refine agrees_bind (agrees_declarator sc h) fun (d, sc₁) r₁ h₁ r₁' _ hr₁ => ?_
  dsimp only
  cases d.name with
  | none => exact agrees_error
  | some name =>
    dsimp only
    rw [hr₁.startsWith_eq]
    split
    · exact agrees_bind (agrees_skipBody hr₁) fun _ _ _ _ _ hr₂ => agrees_ok ⟨rfl, rfl⟩ hr₂
    · refine agrees_bind (agrees_skipInitializer hr₁) fun _ r₂ h₂ r₂' _ hr₂ => ?_
      have hlt : r₂.length < r₁.length + 1 := h₂
      dsimp only
      rcases hr₂.take? (m := .comma) nofun nofun with ⟨hc, hc'⟩ | ⟨r₃, r₃', h₃, _, hc, hc', hr₃⟩
      · rw [hc, hc']
        exact agrees_bind (agrees_expect hr₂ nofun nofun)
          fun _ _ _ _ _ hr₃ => agrees_ok ⟨rfl, rfl⟩ hr₃
      · rw [hc, hc']
        exact agrees_bind_upTo (agrees_declaratorList base storage _ hr₃)
          fun _ _ _ _ _ _ hv hr₄ => agrees_ok (sayTheSame_cons rfl hv) hr₄
termination_by ts.length

theorem agrees_externalDeclaration (sc : Scope) (h : Resembles ts ts') :
    AgreesUpTo SayTheSame Resembles (externalDeclaration stop sc ts)
      (externalDeclaration stop' sc ts') := by
  unfold externalDeclaration
  rcases h.take? (m := .semicolon) nofun nofun with ⟨hs, hs'⟩ | ⟨r, r', _, _, hs, hs', hr⟩
  · rw [hs, hs']
    refine agrees_bind (agrees_specifiers {} sc h) fun (specs, sc₁) r₁ h₁ r₁' _ hr₁ => ?_
    dsimp only
    refine agrees_check (fun _ hb => resolve_eq hb _) fun base => ?_
    rcases hr₁.take? (m := .semicolon) nofun nofun with ⟨hc, hc'⟩ | ⟨r₂, r₂', _, _, hc, hc', hr₂⟩
    · rw [hc, hc']
      exact agrees_bind_upTo (agrees_declaratorList base specs.storage sc₁ hr₁)
        fun _ _ _ _ _ _ hv hr₂ => agrees_ok hv hr₂
    · rw [hc, hc']
      exact agrees_ok ⟨rfl, rfl⟩ hr₂
  · rw [hs, hs']
    exact agrees_ok ⟨rfl, rfl⟩ hr

/-- **Two texts that differ in skipped text say the same:** what `Resembles` is read as `SayTheSame`
says. -/
theorem declarations_refilled {sc : Scope} {ts ts' : List Token} (h : Resembles ts ts')
    {v : List Declaration × Scope} (hv : declarations stop sc ts = .ok v) :
    ∃ v', declarations stop' sc ts' = .ok v' ∧ SayTheSame v v' := by
  unfold declarations at hv ⊢
  rw [h.isEmpty_eq]
  split at hv
  · rename_i hempty
    cases hv
    exact ⟨_, if_pos hempty, rfl, rfl⟩
  · rename_i hempty
    rw [if_neg hempty]
    obtain ⟨⟨own, sc₁⟩, r, hlt, hown, hv⟩ := ok_of_bind hv
    obtain ⟨⟨list, sc₂⟩, hlist, hv⟩ := ok_of_check hv
    cases hv
    obtain ⟨_, _, ⟨⟨⟨own', sc₁'⟩, r', hlt'⟩, hown', rfl, rfl⟩, ⟨hcontent, rfl⟩, hr⟩ :=
      agrees_externalDeclaration sc h _ hown
    have hshort : r.length < ts.length := hlt
    obtain ⟨⟨list', sc₂'⟩, hlist', hrest, rfl⟩ := declarations_refilled hr hlist
    refine ⟨(own' ++ list', sc₂'), ?_, ?_, rfl⟩
    · have hrun : (declarations stop' sc₁' r').bind (fun v => .ok (own' ++ v.1, v.2)) =
          .ok (own' ++ list', sc₂') := by
        rw [hlist']
        rfl
      rw [hown']
      exact hrun
    · rw [List.map_append, List.map_append, hcontent, hrest]
termination_by ts.length

end Counted

/-! ## 4. Sources -/

/-- The tokens of the two sources differ in skipped text (`Refilled`). -/
def DifferInSkipped (source source' : String) : Prop :=
  ∃ ts stop ts' stop', tokenize source.toUTF8.toList = .ok (ts, stop) ∧
    tokenize source'.toUTF8.toList = .ok (ts', stop') ∧ Refilled .plain ts ts'

theorem DifferInSkipped.symm {source source' : String} (h : DifferInSkipped source source') :
    DifferInSkipped source' source := by
  obtain ⟨ts, stop, ts', stop', hts, hts', h⟩ := h
  exact ⟨ts', stop', ts, stop, hts', hts, h.symm⟩

theorem parseSource_refilled {source source' : String} (h : DifferInSkipped source source')
    {ctx : Context} {v : List Declaration × Scope} (hv : parseSource source ctx = .ok v) :
    ∃ v', parseSource source' ctx = .ok v' ∧ SayTheSame v v' := by
  obtain ⟨ts, stop, ts', stop', hts, hts', h⟩ := h
  rw [parseSource, parseBytes, hts] at hv
  rw [parseSource, parseBytes, hts']
  exact declarations_refilled h.resembles hv

/-- **Skipped text is skipped exactly, and has no influence.** Where the brackets have their
partners (`Bracketed`), a body ends with its own brace, and an initializer in front of its comma or
semicolon. Sources that `DifferInSkipped`, in the bodies of functions, in enumerations or in
initializers, are both refused or `SayTheSame`. -/
theorem skipped_exactly :
    (∀ (stop : Location) (o c : Token) (W R : List Token), o.kind = .mark .braceOpen →
      Bracketed true W → c.kind = .mark .braceClose →
        Gives (skipBody stop (o :: (W ++ c :: R))) () R) ∧
    (∀ (stop : Location) (e t : Token) (W R : List Token), e.kind = .mark .equals →
      Bracketed false W → t.kind = .mark .comma ∨ t.kind = .mark .semicolon →
        Gives (skipInitializer stop (e :: (W ++ t :: R))) () (t :: R)) ∧
    ∀ source source', DifferInSkipped source source' → ∀ ctx,
      (∀ v, parseSource source ctx = .ok v →
        ∃ v', parseSource source' ctx = .ok v' ∧ SayTheSame v v') ∧
      ∀ v', parseSource source' ctx = .ok v' →
        ∃ v, parseSource source ctx = .ok v ∧ SayTheSame v v' := by
  refine ⟨fun stop o c W R ho hW hc => gives_skipBody ho hW hc R,
    fun stop e t W R he hW ht => gives_skipInitializer he hW (TokenKind.isSeparator_iff.2 ht) R,
    fun source source' h ctx => ⟨fun v hv => parseSource_refilled h hv, fun v' hv' => ?_⟩⟩
  obtain ⟨v, hv, hsame⟩ := parseSource_refilled h.symm hv'
  exact ⟨v, hv, hsame.1.symm, hsame.2.symm⟩

/-- An initializer, a body and enumerators, with the marks that end them inside of literals. -/
def filledSource : String := "char c = ';', f() \x7b g(\"\x7d\"); \x7d enum \x7b A = 1 \x7d e;"

/-- The same declarations with other contents. -/
def emptiedSource : String := "char c = (0, 1), f() \x7b \x7d enum \x7b \x7d e;"

theorem skipped_exactly_filled :
    DifferInSkipped filledSource emptiedSource ∧ ∃ v v',
      parseSource filledSource = .ok v ∧ parseSource emptiedSource = .ok v' ∧ SayTheSame v v' ∧
      v.1.map Declaration.content = [(some "c", .builtin .none "char", none),
        (some "f", .function .none (.builtin .none "char") [] false, none),
        (some "e", .enumeration .none ⟨0⟩, none)] := by
  have htokens : tokenize filledSource.toUTF8.toList = .ok
      ([⟨.keyword (.builtin .char), ⟨1, 1⟩⟩, ⟨.ident "c", ⟨1, 6⟩⟩, ⟨.mark .equals, ⟨1, 8⟩⟩,
        ⟨.charLit 59, ⟨1, 10⟩⟩, ⟨.mark .comma, ⟨1, 13⟩⟩, ⟨.ident "f", ⟨1, 15⟩⟩,
        ⟨.mark .parenOpen, ⟨1, 16⟩⟩, ⟨.mark .parenClose, ⟨1, 17⟩⟩, ⟨.mark .braceOpen, ⟨1, 19⟩⟩,
        ⟨.ident "g", ⟨1, 21⟩⟩, ⟨.mark .parenOpen, ⟨1, 22⟩⟩, ⟨.stringLit [125], ⟨1, 23⟩⟩,
        ⟨.mark .parenClose, ⟨1, 26⟩⟩, ⟨.mark .semicolon, ⟨1, 27⟩⟩, ⟨.mark .braceClose, ⟨1, 29⟩⟩,
        ⟨.keyword .enumeration, ⟨1, 31⟩⟩, ⟨.mark .braceOpen, ⟨1, 36⟩⟩, ⟨.ident "A", ⟨1, 38⟩⟩,
        ⟨.mark .equals, ⟨1, 40⟩⟩, ⟨.intLit 1, ⟨1, 42⟩⟩, ⟨.mark .braceClose, ⟨1, 44⟩⟩,
        ⟨.ident "e", ⟨1, 46⟩⟩, ⟨.mark .semicolon, ⟨1, 47⟩⟩], ⟨1, 48⟩) := by
    decide +kernel
  have htokens' : tokenize emptiedSource.toUTF8.toList = .ok
      ([⟨.keyword (.builtin .char), ⟨1, 1⟩⟩, ⟨.ident "c", ⟨1, 6⟩⟩, ⟨.mark .equals, ⟨1, 8⟩⟩,
        ⟨.mark .parenOpen, ⟨1, 10⟩⟩, ⟨.intLit 0, ⟨1, 11⟩⟩, ⟨.mark .comma, ⟨1, 12⟩⟩,
        ⟨.intLit 1, ⟨1, 14⟩⟩, ⟨.mark .parenClose, ⟨1, 15⟩⟩, ⟨.mark .comma, ⟨1, 16⟩⟩,
        ⟨.ident "f", ⟨1, 18⟩⟩, ⟨.mark .parenOpen, ⟨1, 19⟩⟩, ⟨.mark .parenClose, ⟨1, 20⟩⟩,
        ⟨.mark .braceOpen, ⟨1, 22⟩⟩, ⟨.mark .braceClose, ⟨1, 24⟩⟩,
        ⟨.keyword .enumeration, ⟨1, 26⟩⟩, ⟨.mark .braceOpen, ⟨1, 31⟩⟩,
        ⟨.mark .braceClose, ⟨1, 33⟩⟩, ⟨.ident "e", ⟨1, 35⟩⟩, ⟨.mark .semicolon, ⟨1, 36⟩⟩],
        ⟨1, 37⟩) := by
    decide +kernel
  have hliteral (t : Token) (ht : t.kind.isBracket = false) (hs : t.kind.isSeparator = false) :
      Bracketed false [t] := .token ht (.inr hs) .nil
  have hpair : Bracketed false [⟨.mark .parenOpen, ⟨1, 10⟩⟩, ⟨.intLit 0, ⟨1, 11⟩⟩,
      ⟨.mark .comma, ⟨1, 12⟩⟩, ⟨.intLit 1, ⟨1, 14⟩⟩, ⟨.mark .parenClose, ⟨1, 15⟩⟩] :=
    @Bracketed.group _ _ _ _ _ [_, _, _] [] rfl rfl rfl
      (.token rfl (.inl rfl) (.token rfl (.inl rfl) (.token rfl (.inl rfl) .nil))) .nil
  have hcall : Bracketed true [⟨.ident "g", ⟨1, 21⟩⟩, ⟨.mark .parenOpen, ⟨1, 22⟩⟩,
      ⟨.stringLit [125], ⟨1, 23⟩⟩, ⟨.mark .parenClose, ⟨1, 26⟩⟩, ⟨.mark .semicolon, ⟨1, 27⟩⟩] :=
    .token rfl (.inl rfl) (@Bracketed.group _ _ _ _ _ [_] [_] rfl rfl rfl
      (.token rfl (.inl rfl) .nil) (.token rfl (.inl rfl) .nil))
  have hvalue : Bracketed true [⟨.ident "A", ⟨1, 38⟩⟩, ⟨.mark .equals, ⟨1, 40⟩⟩,
      ⟨.intLit 1, ⟨1, 42⟩⟩] :=
    .token rfl (.inl rfl) (.token rfl (.inl rfl) (.token rfl (.inl rfl) .nil))
  have hdiffer : DifferInSkipped filledSource emptiedSource := by
    refine ⟨_, _, _, _, htokens, htokens', .keep rfl (.keep rfl ?_)⟩
    refine @Refilled.initializer _ _ _ _ _ [_] [_, _, _, _, _] _ _ rfl rfl
      (hliteral _ rfl rfl) hpair rfl (.keep rfl (.keep rfl (.keep rfl (.keep rfl ?_))))
    refine @Refilled.braces _ _ _ _ _ [_, _, _, _, _] [] _ _ nofun rfl rfl hcall .nil rfl rfl
      (.keep rfl ?_)
    exact @Refilled.braces _ _ _ _ _ [_, _, _] [] _ _ nofun rfl rfl hvalue .nil rfl rfl
      (.of_kinds rfl)
  have hv : parseSource filledSource = .ok ([⟨some "c", .builtin .none "char", none, ⟨1, 6⟩⟩,
      ⟨some "f", .function .none (.builtin .none "char") [] false, none, ⟨1, 15⟩⟩,
      ⟨some "e", .enumeration .none ⟨0⟩, none, ⟨1, 46⟩⟩], ⟨[], ⟨[], [⟨none⟩]⟩⟩) := by
    rw [parseSource, parseBytes, htokens]
    cbv
  obtain ⟨v', hv', hsame⟩ := (skipped_exactly.2.2 _ _ hdiffer {}).1 _ hv
  exact ⟨hdiffer, _, v', hv, hv', hsame, rfl⟩

end TypeLedger
