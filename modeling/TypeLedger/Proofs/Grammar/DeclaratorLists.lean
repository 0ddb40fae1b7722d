import TypeLedger.Proofs.Grammar.Influence
import TypeLedger.Proofs.Grammar.SpecifierSequences
import TypeLedger.Proofs.Grammar.Tails

/-!
# Lists of declarators, and their members one by one

* `InitDeclarator`: the text of a declarator and of its initializer. `sharing` lists some of them
  behind one sequence of specifiers, and `separately` gives each a declaration of its own.
* `ItemsRead`: what the declarators of a list are read as, one behind the other. A list comes to
  this (`yields_declaratorList_iff`), and so does a declaration with its specifiers
  (`yields_sharing_iff`).
* `outcome_separately`: both texts have one outcome. The specifiers are read again in the scope that
  the earlier declarators have left.
-/

namespace TypeLedger

/-! ## 1. Texts -/

/-- A declarator and what its name is initialized with. Brackets have their partners. Outside of
them stand no mark that ends a declarator and no body, and in the initializer no comma or
semicolon. -/
structure InitDeclarator where
  text : List TokenKind
  value : Option (List TokenKind) := none
  begins : text.head?.any TokenKind.beginsItem = true
  nested_text : nested TokenKind.inDeclarator [] text = true
  nested_value : (value.all fun W => nested (!·.isSeparator) [] W) = true

namespace InitDeclarator

/-- The tokens behind the declarator. -/
def tail (d : InitDeclarator) : List TokenKind :=
  match d.value with
  | some W => .mark .equals :: W
  | none => []

def kinds (d : InitDeclarator) : List TokenKind := d.text ++ d.tail

/-- The name stands behind the keyword of classes (`classKey`) somewhere in the declarator. -/
def NamesClass (d : InitDeclarator) (n : String) : Prop :=
  [.keyword (.record .classKey), .ident n] <:+: d.text

instance (d : InitDeclarator) (n : String) : Decidable (d.NamesClass n) :=
  inferInstanceAs (Decidable (_ <:+: _))

/-- The declarator begins with the name. -/
def BeginsWith (d : InitDeclarator) (n : String) : Prop := d.text.head? = some (.ident n)

end InitDeclarator

/-- Declarators behind one sequence of specifiers, with commas between. -/
def sharing (S : List TokenKind) (ds : List InitDeclarator) : List TokenKind :=
  S ++ ([.mark .comma].intercalate (ds.map InitDeclarator.kinds) ++ [.mark .semicolon])

/-- A declaration with these specifiers for each declarator, against `sharing`. -/
def separately (S : List TokenKind) (ds : List InitDeclarator) : List TokenKind :=
  ds.flatMap fun d => sharing S [d]

/-- The name, the type and the storage class that a declaration gives. -/
abbrev Content := Option String × CType × Option StorageClass

/-- What declarations say (`Declaration.content`) and the scope that they leave, if they are
accepted. -/
def outcome (e : Except SourceError (List Declaration × Scope)) : Option (List Content × Scope) :=
  match e with
  | .ok (ds, sc) => some (ds.map Declaration.content, sc)
  | .error _ => none

variable {n : Nat} {stop stop' : Location} {sc sc₁ sc₂ : Scope} {base : CType}
  {storage : Option StorageClass} {S : List TokenKind} {d : InitDeclarator}
  {ds : List InitDeclarator}
  {t : Token} {R r : List Token} {cs : List Content}

/-! ## 2. One declarator -/

/-- A token that goes on with a declarator is no mark that stands behind one. -/
theorem ne_mark_of_inDeclarator {m : Mark} (ht : t.kind.inDeclarator = true)
    (hm : (TokenKind.mark m).inDeclarator = false) : t.kind ≠ .mark m := by
  intro hk
  rw [hk, hm] at ht
  cases ht

/-- An initializer is passed over up to the mark behind it. -/
theorem skipUntil?_of_nested {groups : List Mark} {W : List TokenKind}
    (h : nested (!·.isSeparator) groups W = true) (ht : t.kind.isSeparator = true) :
    skipUntil? TokenKind.isSeparator groups.length (placed W ++ t :: R) = some (t :: R) := by
  induction W generalizing groups with
  | nil =>
    obtain rfl : groups = [] := List.isEmpty_iff.1 h
    rw [placed_nil, List.nil_append, skipUntil?, if_pos ⟨rfl, ht⟩]
  | cons k W ih =>
    rw [nested, Bool.and_eq_true, Option.any_eq_true] at h
    obtain ⟨hk, groups', hg, h⟩ := h
    have hne : ¬(groups.length = 0 ∧ k.isSeparator = true) := by
      rintro ⟨hnil, hsep⟩
      simp [List.length_eq_zero_iff.1 hnil, hsep] at hk
    have hclose : ∀ m, k = .mark m → m.closes = true → groups ≠ [] := by
      rintro m rfl hm rfl
      cases TokenKind.of_groups?_close hm hg
    rw [← List.append_nil groups] at hg
    obtain ⟨own, hown, hlen⟩ := TokenKind.groups?_append hg hclose
    rw [List.append_nil] at hown
    rw [placed_cons, List.cons_append, skipUntil?, if_neg hne, ← hlen, hown]
    exact ih h

namespace InitDeclarator

theorem heads_placed (d : InitDeclarator) (R : List Token) :
    Heads (·.beginsItem = true) (placed d.text ++ R) := by
  have h := d.begins
  cases hk : d.text with
  | nil =>
    rw [hk] at h
    cases h
  | cons k ks =>
    rw [hk] at h
    exact heads_cons.2 h

theorem heads_tail (d : InitDeclarator) (ht : t.kind.isSeparator = true) (R : List Token) :
    Heads (·.endsItem = true) (placed d.tail ++ t :: R) := by
  unfold tail
  cases d.value with
  | some W => exact heads_cons.2 rfl
  | none =>
    refine heads_cons.2 ?_
    rcases TokenKind.isSeparator_iff.1 ht with h | h <;> rw [h] <;> rfl

/-- The initializer, if there is one, is passed over. -/
theorem gives_tail (d : InitDeclarator) (ht : t.kind.isSeparator = true) (R : List Token) :
    Gives (skipInitializer stop (placed d.tail ++ t :: R)) () (t :: R) := by
  have hW := d.nested_value
  unfold tail
  cases hi : d.value with
  | some W =>
    rw [hi] at hW
    exact gives_skipInitializer_of_skipUntil? rfl (skipUntil?_of_nested hW ht)
  | none =>
    refine gives_skipInitializer_none fun he => ?_
    rw [he] at ht
    cases ht

theorem nested_placed (d : InitDeclarator) :
    nested TokenKind.inDeclarator [] ((placed d.text).map Token.kind) = true := by
  rw [map_kind_placed]
  exact d.nested_text

variable [Counting]

/-- The declarator by itself is read with a name. -/
structure Reads (stop : Location) (sc : Scope) (d : InitDeclarator) (x : String) (v : Declarator)
    (sc₁ : Scope) : Prop where
  gives : Gives (declarator stop sc (placed d.text)) (v, sc₁) []
  name : v.name = some x

variable {x : String} {v : Declarator}

/-- The only names that a declarator lets stand for another type are those of its classes. -/
theorem Reads.grows (h : d.Reads stop sc x v sc₁) : sc.Grows d.NamesClass sc₁ := by
  have hgrows := (gives_declarator_append d.nested_placed (X := []) nofun h.gives).2
  unfold Mentions at hgrows
  rwa [map_kind_placed] at hgrows

end InitDeclarator

/-! ## 3. Lists -/

theorem placed_list_cons (d d' : InitDeclarator) (ds : List InitDeclarator) (R : List Token) :
    placed ([.mark .comma].intercalate ((d :: d' :: ds).map InitDeclarator.kinds) ++
        [.mark .semicolon]) ++ R =
      placed d.kinds ++ ⟨.mark .comma, ⟨0, 0⟩⟩ ::
        (placed ([.mark .comma].intercalate ((d' :: ds).map InitDeclarator.kinds) ++
          [.mark .semicolon]) ++ R) := by
  rw [List.map_cons, List.map_cons, List.intercalate_cons_cons]
  simp only [placed_append, placed_cons, placed_nil, List.append_assoc,
    List.cons_append, List.nil_append]

theorem placed_list_single (d : InitDeclarator) (R : List Token) :
    placed ([.mark .comma].intercalate ([d].map InitDeclarator.kinds) ++ [.mark .semicolon]) ++ R =
      placed d.kinds ++ ⟨.mark .semicolon, ⟨0, 0⟩⟩ :: R := by
  rw [List.map_singleton, List.intercalate_singleton]
  simp only [placed_append, placed_cons, placed_nil, List.append_assoc, List.cons_append,
    List.nil_append]

theorem placed_sharing (S : List TokenKind) (ds : List InitDeclarator) (R : List Token) :
    placed (sharing S ds) ++ R = placed S ++
      (placed ([.mark .comma].intercalate (ds.map InitDeclarator.kinds) ++ [.mark .semicolon]) ++
        R) := by
  rw [sharing, placed_append, List.append_assoc]

/-- The list begins with its first declarator. -/
theorem placed_list_front (d : InitDeclarator) (ds : List InitDeclarator) (R : List Token) :
    ∃ R', placed ([.mark .comma].intercalate ((d :: ds).map InitDeclarator.kinds) ++
      [.mark .semicolon]) ++ R = placed d.text ++ R' := by
  cases ds with
  | nil =>
    rw [placed_list_single, InitDeclarator.kinds, placed_append, List.append_assoc]
    exact ⟨_, rfl⟩
  | cons d' ds =>
    rw [placed_list_cons, InitDeclarator.kinds, placed_append, List.append_assoc]
    exact ⟨_, rfl⟩

theorem sharing_ne_nil (S : List TokenKind) (ds : List InitDeclarator) (R : List Token) :
    placed (sharing S ds) ++ R ≠ [] := by
  simp [sharing]

/-- No declarator begins with a name (`BeginsWith`) that stands for a type where it is read: not in
the scope, and not as a class of an earlier declarator (`NamesClass`). -/
def NoTypeFirst (sc : Scope) (ds : List InitDeclarator) : Prop :=
  (∀ d ∈ ds, ∀ n, d.BeginsWith n → sc.typeName? n = none) ∧
    ds.Pairwise fun d d' => ∀ n, d'.BeginsWith n → ¬d.NamesClass n

theorem NoTypeFirst.tail (h : NoTypeFirst sc (d :: ds)) (hgrows : sc.Grows d.NamesClass sc₁) :
    NoTypeFirst sc₁ ds := by
  obtain ⟨hpair, hpairs⟩ := List.pairwise_cons.1 h.2
  refine ⟨fun d' hd' n hn => ?_, hpairs⟩
  rcases hgrows.names n with hsame | ⟨hclass, -⟩
  · rw [hsame]
    exact h.1 d' (List.mem_cons_of_mem _ hd') n hn
  · exact absurd hclass (hpair d' hd' n hn)

/-- The declarations say so, and leave this scope and these tokens. -/
def Yields (e : Except SourceError (Step n (List Declaration × Scope))) (cs : List Content)
    (sc : Scope) (r : List Token) : Prop :=
  ∃ own, Gives e (own, sc) r ∧ own.map Declaration.content = cs

section Counted

variable [Counting]

/-- What declarators are read as, each in the scope that the one in front of it leaves. -/
inductive ItemsRead (stop : Location) (base : CType) (storage : Option StorageClass) :
    Scope → List InitDeclarator → List Content → Scope → Prop
  | nil {sc : Scope} : ItemsRead stop base storage sc [] [] sc
  | cons {sc sc₁ sc₂ : Scope} {d : InitDeclarator} {ds : List InitDeclarator} {x : String}
    {v : Declarator} {cs : List Content} (hd : d.Reads stop sc x v sc₁)
    (h : ItemsRead stop base storage sc₁ ds cs sc₂) :
    ItemsRead stop base storage sc (d :: ds) ((some x, v.apply base, storage) :: cs) sc₂

/-- What stands behind a declarator and its initializer. -/
theorem of_gives_declaratorList {v : List Declaration × Scope} (hst : storage ≠ some .typeSynonym)
    (ht : t.kind.isSeparator = true)
    (h : Gives (declaratorList stop base storage sc (placed d.kinds ++ t :: R)) v r) :
    ∃ x w sc₁ own, d.Reads stop sc x w sc₁ ∧
      ((t.kind = .mark .comma ∧ ∃ list sc₂,
          Gives (declaratorList stop base storage sc₁ R) (list, sc₂) r ∧ v = (own :: list, sc₂)) ∨
        (t.kind = .mark .semicolon ∧ r = R ∧ v = ([own], sc₁))) ∧
      own.content = (some x, w.apply base, storage) := by
  unfold InitDeclarator.kinds at h
  rw [placed_append, List.append_assoc] at h
  unfold declaratorList at h
  obtain ⟨⟨⟨w, sc₁⟩, r₁, h₁⟩, hd, h⟩ := of_gives_bind h
  dsimp only at h
  cases hn : w.name with
  | none =>
    rw [hn] at h
    obtain ⟨s, hs, -⟩ := h
    cases hs
  | some x =>
    rw [hn] at h
    simp only [if_neg hst] at h
    rcases of_gives_declarator_append d.nested_placed (d.heads_tail ht R) ⟨_, hd, rfl, rfl⟩ with
      ⟨rfl, hd⟩ | ⟨t', r', rfl, ht'⟩
    · have hbrace : startsWith .braceOpen (placed d.tail ++ t :: R) = false :=
        startsWith_eq_false ((d.heads_tail ht R).ne_mark rfl)
      simp only [hbrace, Bool.and_false, Bool.false_eq_true, ↓reduceIte] at h
      obtain ⟨⟨_, r₂, h₂⟩, hskip, h⟩ := of_gives_bind h
      obtain ⟨-, rfl⟩ := (d.gives_tail ht R).unique ⟨_, hskip, rfl, rfl⟩
      rcases TokenKind.isSeparator_iff.1 ht with hcomma | hsemi
      · simp only [take?_of_kind hcomma] at h
        obtain ⟨⟨⟨list, sc₂⟩, r₃, h₃⟩, hlist, s, hs, rfl, rfl⟩ := of_gives_bind h
        cases hs
        exact ⟨x, w, sc₁, _, ⟨hd, hn⟩, .inl ⟨hcomma, list, sc₂, ⟨_, hlist, rfl, rfl⟩, rfl⟩, rfl⟩
      · have hne : t.kind ≠ .mark .comma := by
          rw [hsemi]
          decide
        simp only [take?_of_ne hne] at h
        obtain ⟨⟨_, r₃, h₃⟩, hexpect, s, hs, rfl, rfl⟩ := of_gives_bind h
        obtain ⟨-, rfl⟩ := (gives_expect hsemi).unique ⟨_, hexpect, rfl, rfl⟩
        cases hs
        exact ⟨x, w, sc₁, _, ⟨hd, hn⟩, .inr ⟨hsemi, rfl, rfl⟩, rfl⟩
    · -- a token of the declarator stands where the list asks for its end
      have hbrace : startsWith .braceOpen (t' :: r') = false :=
        startsWith_eq_false (heads_cons.2 (ne_mark_of_inDeclarator ht' rfl))
      have hskip : Gives (skipInitializer stop (t' :: r')) () (t' :: r') :=
        gives_skipInitializer_none (ne_mark_of_inDeclarator ht' rfl)
      have hcomma : t'.kind ≠ .mark .comma := ne_mark_of_inDeclarator ht' rfl
      simp only [hbrace, Bool.and_false, Bool.false_eq_true, ↓reduceIte] at h
      obtain ⟨⟨_, r₂, h₂⟩, hskip', h⟩ := of_gives_bind h
      obtain ⟨-, rfl⟩ := hskip.unique ⟨_, hskip', rfl, rfl⟩
      simp only [take?_of_ne hcomma] at h
      obtain ⟨⟨_, r₃, h₃⟩, hexpect, -⟩ := of_gives_bind h
      unfold expect at hexpect
      rw [take?_of_ne (ne_mark_of_inDeclarator ht' rfl)] at hexpect
      cases hexpect

/-- A declarator that is read by itself is read in a list. -/
theorem gives_declaratorList {x : String} {w : Declarator} {v : List Declaration × Scope}
    (hst : storage ≠ some .typeSynonym) (ht : t.kind.isSeparator = true)
    (hd : d.Reads stop sc x w sc₁) {own : Declaration}
    (hown : own = ⟨some x, w.apply base, storage, place stop (placed d.kinds ++ t :: R)⟩)
    (h : (t.kind = .mark .comma ∧ ∃ list sc₂,
          Gives (declaratorList stop base storage sc₁ R) (list, sc₂) r ∧ v = (own :: list, sc₂)) ∨
        (t.kind = .mark .semicolon ∧ r = R ∧ v = ([own], sc₁))) :
    Gives (declaratorList stop base storage sc (placed d.kinds ++ t :: R)) v r := by
  have hbrace : startsWith .braceOpen (placed d.tail ++ t :: R) = false :=
    startsWith_eq_false ((d.heads_tail ht R).ne_mark rfl)
  unfold InitDeclarator.kinds at hown ⊢
  rw [placed_append, List.append_assoc] at hown ⊢
  unfold declaratorList
  refine gives_bind (gives_declarator_append d.nested_placed (d.heads_tail ht R) hd.gives).1
    fun _ => ?_
  dsimp only
  split
  · rename_i hn
    rw [hd.name] at hn
    cases hn
  · rename_i x' hn
    obtain rfl : x = x' := Option.some.inj (hd.name.symm.trans hn)
    simp only [if_neg hst, hbrace, Bool.and_false, Bool.false_eq_true, ↓reduceIte]
    refine gives_bind (d.gives_tail ht R) fun _ => ?_
    rcases h with ⟨hcomma, list, sc₂, hlist, rfl⟩ | ⟨hsemi, rfl, rfl⟩
    · simp only [take?_of_kind hcomma]
      exact gives_bind hlist fun _ => ⟨_, rfl, by rw [hown], rfl⟩
    · have hne : t.kind ≠ .mark .comma := by
        rw [hsemi]
        decide
      simp only [take?_of_ne hne]
      exact gives_bind (gives_expect hsemi) fun _ => ⟨_, rfl, by rw [hown], rfl⟩

/-- **A list is read as its declarators are**, one behind the other (`ItemsRead`). -/
theorem yields_declaratorList_iff (hst : storage ≠ some .typeSynonym) (hne : ds ≠ []) :
    Yields (declaratorList stop base storage sc
        (placed
          ([.mark .comma].intercalate (ds.map InitDeclarator.kinds) ++ [.mark .semicolon]) ++ R))
        cs sc₂ r ↔
      r = R ∧ ItemsRead stop base storage sc ds cs sc₂ := by
  induction ds generalizing sc cs with
  | nil => exact absurd rfl hne
  | cons d ds ih =>
    cases ds with
    | nil =>
      rw [placed_list_single]
      constructor
      · rintro ⟨own, h, rfl⟩
        obtain ⟨x, w, sc₁, d', hd, ⟨hcomma, -⟩ | ⟨-, rfl, hv⟩, hcontent⟩ :=
          of_gives_declaratorList hst rfl h
        · cases hcomma
        · cases hv
          rw [List.map_singleton, hcontent]
          exact ⟨rfl, .cons hd .nil⟩
      · rintro ⟨rfl, h⟩
        cases h with
        | cons hd h =>
          cases h
          exact ⟨_, gives_declaratorList hst rfl hd rfl (.inr ⟨rfl, rfl, rfl⟩), rfl⟩
    | cons d' ds =>
      rw [placed_list_cons]
      constructor
      · rintro ⟨own, h, rfl⟩
        obtain ⟨x, w, sc₁, own₁, hd, ⟨-, list, sc₂', hlist, hv⟩ | ⟨hsemi, -⟩, hcontent⟩ :=
          of_gives_declaratorList hst rfl h
        · cases hv
          obtain ⟨hr, hitems⟩ := (ih (List.cons_ne_nil _ _)).1 ⟨list, hlist, rfl⟩
          rw [List.map_cons, hcontent]
          exact ⟨hr, .cons hd hitems⟩
        · cases hsemi
      · rintro ⟨hr, h⟩
        cases h with
        | cons hd h =>
          obtain ⟨list, hlist, rfl⟩ := (ih (List.cons_ne_nil _ _)).2 ⟨hr, h⟩
          exact ⟨_, gives_declaratorList hst rfl hd rfl (.inl ⟨rfl, list, _, hlist, rfl⟩), rfl⟩

/-! ## 4. Declarations -/

variable {tally : Tally} {specs : Specifiers}

/-- The first declarator is no specifier. -/
theorem heads_item (hS : Specifying {} S tally)
    (hspecs : Gives (specifiers stop {} sc (placed S)) (specs, sc₁) [])
    (hfirst : tally.typed = true ∨ NoTypeFirst sc₁ (d :: ds)) (R : List Token) :
    Heads (fun k => k.beginsItem = true ∧ specs.add? sc₁ k = none) (placed d.text ++ R) := by
  have hbegins := d.begins
  cases htext : d.text with
  | nil =>
    rw [htext] at hbegins
    cases hbegins
  | cons k text =>
    rw [htext] at hbegins
    refine heads_cons.2 ⟨hbegins, ?_⟩
    cases k with
    | ident n =>
      rw [Specifiers.add?]
      split
      · rename_i hempty
        rcases hfirst with htyped | hfirst
        · -- a type has been named, so there is no room for a name
          have htally : specs.tally = tally := tally_of_specifying hS rfl hspecs
          rw [← htally, Tally.typed, Specifiers.tally, hempty.2,
            Option.isNone_iff_eq_none.1 hempty.1] at htyped
          cases htyped
        · have hbegins : d.BeginsWith n := by rw [InitDeclarator.BeginsWith, htext, List.head?_cons]
          rw [hfirst.1 d List.mem_cons_self n hbegins]
          rfl
      · rfl
    | mark m => rfl
    | _ => cases hbegins

/-- Behind its `specifiers`, a declaration is a list of declarators. -/
theorem gives_externalDeclaration_iff {X : List Token} {v : List Declaration × Scope}
    (hS : Specifying {} S tally) (hX : Heads (·.beginsItem = true) X)
    (hspecs : Gives (specifiers stop {} sc (placed S ++ X)) (specs, sc₁) X) :
    Gives (externalDeclaration stop sc (placed S ++ X)) v r ↔
      ∃ base, specs.resolve ⟨0, 0⟩ = .ok base ∧
        Gives (declaratorList stop base specs.storage sc₁ X) v r := by
  have hfront : take? .semicolon (placed S ++ X) = none :=
    take?_eq_none ((hS.heads_append hX).imp fun _ h => h.2)
  have hbehind : take? .semicolon X = none :=
    take?_eq_none (hX.imp fun k hk hsemi => by
      rw [hsemi] at hk
      cases hk)
  unfold externalDeclaration
  rw [hfront]
  constructor
  · intro h
    obtain ⟨⟨⟨specs', sc₁'⟩, r₁, h₁⟩, hspecs', h⟩ := of_gives_bind h
    obtain ⟨hv, rfl⟩ := hspecs.unique ⟨_, hspecs', rfl, rfl⟩
    cases hv
    cases hbase : specs.resolve (place stop (placed S ++ X)) with
    | error e =>
      simp only [hbase] at h
      obtain ⟨s, hs, -⟩ := h
      cases hs
    | ok base =>
      simp only [hbase, hbehind] at h
      obtain ⟨s, hs, s', hs', rfl, rfl⟩ := of_gives_bind h
      cases hs'
      exact ⟨base, resolve_eq hbase _, s, hs, rfl, rfl⟩
  · rintro ⟨base, hbase, h⟩
    refine gives_bind hspecs fun _ => ?_
    simp only [resolve_eq hbase (place stop (placed S ++ X)), hbehind]
    exact gives_bind h fun _ => ⟨_, rfl, rfl, rfl⟩

/-- Declarators behind their `specifiers` are read if the specifiers name a type and the list is
read. -/
theorem yields_sharing_iff (hS : Specifying {} S tally)
    (hspecs : Gives (specifiers stop {} sc (placed S)) (specs, sc₁) [])
    (hfirst : tally.typed = true ∨ NoTypeFirst sc₁ (d :: ds)) :
    Yields (externalDeclaration stop sc (placed (sharing S (d :: ds)) ++ R)) cs sc₂ r ↔
      ∃ base, specs.resolve ⟨0, 0⟩ = .ok base ∧ r = R ∧
        ItemsRead stop base specs.storage sc₁ (d :: ds) cs sc₂ := by
  have hst : specs.storage ≠ some .typeSynonym := fun hst => by
    cases storage_of_specifying hS hspecs hst
  obtain ⟨R', hR'⟩ := placed_list_front d ds R
  have hX := heads_item hS hspecs hfirst R'
  rw [← hR'] at hX
  have hdeclaration {v : List Declaration × Scope} :=
    gives_externalDeclaration_iff (r := r) (v := v) hS
    (hX.imp fun _ h => h.1) (gives_specifiers_append hS hspecs hX)
  rw [placed_sharing]
  constructor
  · rintro ⟨own, h, hown⟩
    obtain ⟨base, hbase, hlist⟩ := hdeclaration.1 h
    exact ⟨base, hbase,
      (yields_declaratorList_iff hst (List.cons_ne_nil d ds)).1 ⟨own, hlist, hown⟩⟩
  · rintro ⟨base, hbase, hitems⟩
    obtain ⟨own, hlist, hown⟩ := (yields_declaratorList_iff hst (List.cons_ne_nil d ds)).2 hitems
    exact ⟨own, hdeclaration.2 ⟨base, hbase, hlist⟩, hown⟩

/-- A declaration that is read has read its `specifiers`, if their names stand for types. -/
theorem specifiers_of_yields (hS : Specifying {} S tally)
    (hnames : ∀ n ∈ bareNames S, (sc.typeName? n).isSome = true)
    (h : Yields (externalDeclaration stop sc (placed (sharing S (d :: ds)) ++ R)) cs sc₂ r) :
    ∃ specs sc₁, Gives (specifiers stop {} sc (placed S)) (specs, sc₁) [] := by
  obtain ⟨own, h, -⟩ := h
  obtain ⟨R', hR'⟩ := placed_list_front d ds R
  have hX := d.heads_placed R'
  rw [← hR'] at hX
  have hfront := (hS.heads_append hX).imp fun _ h => h.2
  rw [placed_sharing] at h
  unfold externalDeclaration at h
  rw [take?_eq_none hfront] at h
  obtain ⟨⟨v, r₁, h₁⟩, hspecs, -⟩ := of_gives_bind h
  obtain ⟨⟨specs, sc₁⟩, halone⟩ :=
    gives_specifiers_alone hS hnames rfl hX ⟨_, hspecs, rfl, rfl⟩
  exact ⟨specs, sc₁, halone⟩

/-! ## 5. Texts of declarations -/

/-- The `outcome` of a text is that of its first declaration, and of those behind it. -/
theorem outcome_declarations_iff {ts : List Token} (hne : ts ≠ [])
    {w : List Content × Scope} :
    outcome (declarations stop sc ts) = some w ↔
      ∃ cs sc₁ r w', Yields (externalDeclaration stop sc ts) cs sc₁ r ∧
        outcome (declarations stop sc₁ r) = some w' ∧ w = (cs ++ w'.1, w'.2) := by
  constructor
  · intro h
    cases hv : declarations stop sc ts with
    | error e =>
      rw [hv] at h
      cases h
    | ok v =>
      rw [hv] at h
      cases h
      unfold declarations at hv
      rw [if_neg (by simpa using hne)] at hv
      obtain ⟨⟨own, sc₁⟩, r, hlt, hown, hv⟩ := ok_of_bind hv
      obtain ⟨⟨list, sc₂⟩, hlist, hv⟩ := ok_of_check hv
      cases hv
      refine ⟨_, sc₁, r, (list.map Declaration.content, sc₂), ⟨own, ⟨_, hown, rfl, rfl⟩, rfl⟩,
        ?_, ?_⟩
      · rw [hlist]
        rfl
      · rw [List.map_append]
  · rintro ⟨cs, sc₁, r, w', ⟨own, hown, rfl⟩, hw', rfl⟩
    rw [declarations_of_gives hown]
    cases hlist : declarations stop sc₁ r with
    | error e =>
      rw [hlist] at hw'
      cases hw'
    | ok v =>
      rw [hlist] at hw'
      cases hw'
      simp only [outcome, Except.map, List.map_append]

theorem outcome_of_ok {ts us : List Token} (h : us.map Token.kind = ts.map Token.kind)
    (stop' : Location) {v : List Declaration × Scope} (hv : declarations stop sc ts = .ok v) :
    outcome (declarations stop' sc us) = some (v.1.map Declaration.content, v.2) := by
  have hus : Refilled .plain ts us := .of_kinds h
  obtain ⟨v', hv', hcontent, hsc⟩ : ∃ v', declarations stop' sc us = .ok v' ∧ SayTheSame v v' :=
    declarations_refilled hus.resembles hv
  rw [hv', ← hcontent, ← hsc]
  rfl

/-- Only the kinds of the tokens matter for the `outcome`. -/
theorem outcome_of_kinds {ts us : List Token} (h : us.map Token.kind = ts.map Token.kind)
    (stop stop' : Location) (sc : Scope) :
    outcome (declarations stop' sc us) = outcome (declarations stop sc ts) := by
  cases hts : declarations stop sc ts with
  | ok v => exact outcome_of_ok h stop' hts
  | error e =>
    cases hus : declarations stop' sc us with
    | error e' => rfl
    | ok v =>
      have hts' := outcome_of_ok h.symm stop hus
      rw [hts] at hts'
      cases hts'

/-- Declarators behind one sequence of `specifiers`, and the text behind them. -/
theorem outcome_sharing_iff (hS : Specifying {} S tally)
    (hspecs : Gives (specifiers stop {} sc (placed S)) (specs, sc₁) [])
    (hfirst : tally.typed = true ∨ NoTypeFirst sc₁ (d :: ds))
    {w : List Content × Scope} :
    outcome (declarations stop sc (placed (sharing S (d :: ds)) ++ R)) = some w ↔
      ∃ base, specs.resolve ⟨0, 0⟩ = .ok base ∧ ∃ cs sc₂ w',
        ItemsRead stop base specs.storage sc₁ (d :: ds) cs sc₂ ∧
          outcome (declarations stop sc₂ R) = some w' ∧ w = (cs ++ w'.1, w'.2) := by
  rw [outcome_declarations_iff (sharing_ne_nil S _ R)]
  constructor
  · rintro ⟨cs, sc₂, r, w', hyields, hw⟩
    obtain ⟨base, hbase, rfl, hitems⟩ := (yields_sharing_iff hS hspecs hfirst).1 hyields
    exact ⟨base, hbase, cs, sc₂, w', hitems, hw⟩
  · rintro ⟨base, hbase, cs, sc₂, w', hitems, hw⟩
    exact ⟨cs, sc₂, R, w', (yields_sharing_iff hS hspecs hfirst).2 ⟨base, hbase, rfl, hitems⟩, hw⟩

/-- The same declarators in `declarations` of their own. Behind each of them, its specifiers are
read again in the scope that it leaves. -/
theorem outcome_separately_iff (hS : Specifying {} S tally)
    (hspecs : Gives (specifiers stop {} sc (placed S)) (specs, sc₁) [])
    (hbare : ∀ n ∈ bareNames S, ∀ d' ∈ d :: ds, ¬d'.NamesClass n)
    (hfirst : tally.typed = true ∨ NoTypeFirst sc₁ (d :: ds))
    {w : List Content × Scope} :
    outcome (declarations stop sc (placed (separately S (d :: ds)) ++ R)) = some w ↔
      ∃ base, specs.resolve ⟨0, 0⟩ = .ok base ∧ ∃ cs sc₂ w',
        ItemsRead stop base specs.storage sc₁ (d :: ds) cs sc₂ ∧
          outcome (declarations stop sc₂ R) = some w' ∧ w = (cs ++ w'.1, w'.2) := by
  induction ds generalizing d sc sc₁ w with
  | nil =>
    have hone : separately S [d] = sharing S [d] := by
      rw [separately, List.flatMap_singleton]
    rw [hone]
    exact outcome_sharing_iff hS hspecs hfirst
  | cons d' ds ih =>
    have hsplit : placed (separately S (d :: d' :: ds)) ++ R =
        placed (sharing S [d]) ++ (placed (separately S (d' :: ds)) ++ R) := by
      rw [separately, List.flatMap_cons, placed_append, List.append_assoc, ← separately]
    have hone : tally.typed = true ∨ NoTypeFirst sc₁ [d] := hfirst.imp_right fun h =>
      ⟨fun d₁ hd₁ => h.1 d₁ (List.mem_singleton.1 hd₁ ▸ List.mem_cons_self),
        List.pairwise_singleton _ d⟩
    -- what the first declarator declares leaves the specifiers as they are
    have hagain {x : String} {v : Declarator} {sc₂ : Scope} (hd : d.Reads stop sc₁ x v sc₂) :
        Gives (specifiers stop {} sc₂ (placed S)) (specs, sc₂) [] :=
      gives_specifiers_again hS hspecs hd.grows fun n hn => hbare n hn d List.mem_cons_self
    have hrest : ∀ n ∈ bareNames S, ∀ d₁ ∈ d' :: ds, ¬d₁.NamesClass n :=
      fun n hn d₁ hd₁ => hbare n hn d₁ (List.mem_cons_of_mem _ hd₁)
    have hnext {x : String} {v : Declarator} {sc₂ : Scope} (hd : d.Reads stop sc₁ x v sc₂) :
        tally.typed = true ∨ NoTypeFirst sc₂ (d' :: ds) := hfirst.imp_right fun h => h.tail hd.grows
    rw [hsplit, outcome_sharing_iff hS hspecs hone]
    constructor
    · rintro ⟨base, hbase, cs, sc₂, w', hitems, hw', rfl⟩
      obtain ⟨⟩ | ⟨hd, ⟨⟩⟩ := hitems
      obtain ⟨base', hbase', cs, sc₃, w'', hitems, hw, rfl⟩ :=
        (ih (hagain hd) hrest (hnext hd)).1 hw'
      obtain rfl : base = base' := Except.ok.inj (hbase.symm.trans hbase')
      exact ⟨base, hbase, _, sc₃, w'', .cons hd hitems, hw, rfl⟩
    · rintro ⟨base, hbase, cs, sc₃, w', hitems, hw', rfl⟩
      obtain ⟨⟩ | ⟨hd, hitems⟩ := hitems
      exact ⟨base, hbase, _, _, _, .cons hd .nil,
        (ih (hagain hd) hrest (hnext hd)).2 ⟨base, hbase, _, sc₃, w', hitems, hw', rfl⟩, rfl⟩

/-- **A list of declarators declares what its declarators declare one by one.** `Specifying` says
that the specifiers have no body, no `typedef` and a tag for each record and each enumeration. They
stand in front of one or more declarators (`sharing`), or each declarator is given them in a
declaration of its own (`separately`). Both texts are refused, or both declare the same in the same
order and leave the same scope, whatever stands behind them. A name that the specifiers use by
itself (`bareNames`) must not stand behind the keyword of classes in a declarator, and the
specifiers have to name a type (`Tally.typed`), unless no declarator begins with the name of one
(`NoTypeFirst`). The words of a type may be counted in bytes as well as exactly; 256 of them in
bytes name no type (`Tally.typed_bytes`). -/
theorem outcome_separately (hS : Specifying {} S tally)
    (hnames : ∀ n ∈ bareNames S, (sc.typeName? n).isSome = true) (hne : ds ≠ [])
    (hbare : ∀ n ∈ bareNames S, ∀ d ∈ ds, ¬d.NamesClass n)
    (hfirst : tally.typed = true ∨ NoTypeFirst sc ds) {rest : List TokenKind} {ts us : List Token}
    (hts : ts.map Token.kind = sharing S ds ++ rest)
    (hus : us.map Token.kind = separately S ds ++ rest) :
    outcome (declarations stop' sc us) = outcome (declarations stop sc ts) := by
  have hts' : outcome (declarations stop sc ts) =
      outcome (declarations stop sc (placed (sharing S ds) ++ placed rest)) :=
    outcome_of_kinds (by rw [← placed_append, map_kind_placed, hts]) stop stop sc
  have hus' : outcome (declarations stop' sc us) =
      outcome (declarations stop sc (placed (separately S ds) ++ placed rest)) :=
    outcome_of_kinds (by rw [← placed_append, map_kind_placed, hus]) stop stop' sc
  rw [hts', hus']
  obtain ⟨d, ds, rfl⟩ := List.exists_cons_of_ne_nil hne
  by_cases hspecs : ∃ specs sc₁, Gives (specifiers stop {} sc (placed S)) (specs, sc₁) []
  · obtain ⟨specs, sc₁, hspecs⟩ := hspecs
    have hfirst₁ : tally.typed = true ∨ NoTypeFirst sc₁ (d :: ds) := by
      cases htyped : tally.typed with
      | true => exact .inl rfl
      | false =>
        obtain rfl : sc₁ = sc := scope_of_unnamed hS (Bool.or_eq_false_iff.1 htyped).1 hspecs
        rwa [htyped] at hfirst
    refine Option.ext fun w => ?_
    rw [outcome_separately_iff hS hspecs hbare hfirst₁, outcome_sharing_iff hS hspecs hfirst₁]
  · have hnone (ds : List InitDeclarator) (R : List Token) :
        outcome (declarations stop sc (placed (sharing S (d :: ds)) ++ R)) = none := by
      refine Option.eq_none_iff_forall_ne_some.2 fun w hw => ?_
      obtain ⟨cs, sc₁, r, w', hyields, -⟩ :=
        (outcome_declarations_iff (sharing_ne_nil S _ R)).1 hw
      exact hspecs (specifiers_of_yields hS hnames hyields)
    rw [separately, List.flatMap_cons, placed_append, List.append_assoc, hnone, hnone]

end Counted

/-- The scope that `typedef int T;` leaves. -/
def synonymScope : Scope := ⟨[("T", .synonym .none "T" (.builtin .none "int"))], {}⟩

/-- The declarator `*p(class C *)`. -/
def pointerItem : InitDeclarator where
  text := [.mark .star, .ident "p", .mark .parenOpen, .keyword (.record .classKey), .ident "C",
    .mark .star, .mark .parenClose]
  begins := rfl
  nested_text := rfl
  nested_value := rfl

/-- The declarator `q = { 1, 2 }`. -/
def listItem : InitDeclarator where
  text := [.ident "q"]
  value := some [.mark .braceOpen, .intLit 1, .mark .comma, .intLit 2, .mark .braceClose]
  begins := rfl
  nested_text := rfl
  nested_value := rfl

/-- `extern T *p(class C *), q = { 1, 2 };` and the two declarations that it stands for. -/
theorem outcome_separately_extern :
    Specifying {} [.keyword (.storage .external), .ident "T"] ⟨true, []⟩ ∧
    (∀ n ∈ bareNames [.keyword (.storage .external), .ident "T"],
      (synonymScope.typeName? n).isSome = true ∧ ∀ d ∈ [pointerItem, listItem], ¬d.NamesClass n) ∧
    outcome (declarations ⟨1, 1⟩ synonymScope (placed (separately
        [.keyword (.storage .external), .ident "T"] [pointerItem, listItem]))) =
      outcome (declarations ⟨1, 1⟩ synonymScope (placed (sharing
        [.keyword (.storage .external), .ident "T"] [pointerItem, listItem]))) ∧
    ∃ w, outcome (declarations ⟨1, 1⟩ synonymScope (placed (sharing
      [.keyword (.storage .external), .ident "T"] [pointerItem, listItem]))) = some w := by
  have hS : Specifying {} [.keyword (.storage .external), .ident "T"] ⟨true, []⟩ :=
    .modifier rfl (.name "T" rfl .nil)
  have hnames : ∀ n ∈ bareNames [.keyword (.storage .external), .ident "T"],
      (synonymScope.typeName? n).isSome = true := by decide
  have hbare : ∀ n ∈ bareNames [.keyword (.storage .external), .ident "T"],
      ∀ d ∈ [pointerItem, listItem], ¬d.NamesClass n := by decide
  have hrest (S : List TokenKind) : (placed S).map Token.kind = S ++ [] :=
    (map_kind_placed S).trans (List.append_nil S).symm
  refine ⟨hS, fun n hn => ⟨hnames n hn, hbare n hn⟩, ?_, ?_⟩
  · exact outcome_separately hS hnames (List.cons_ne_nil _ _) hbare (.inl rfl) (hrest _) (hrest _)
  · exact ⟨([(some "p", .function .none (.pointer .none .pointer
        (.synonym .none "T" (.builtin .none "int")))
        [.pointer .none .pointer (.record .none ⟨0⟩)] false,
        some .external), (some "q", .synonym .none "T" (.builtin .none "int"), some .external)],
      ⟨[("T", .synonym .none "T" (.builtin .none "int")), ("C", .record .none ⟨0⟩)],
        ⟨[⟨.classKey, some "C", none, []⟩], []⟩⟩), by cbv⟩

/-- The declarator that is nothing but a name. -/
def nameItem (n : String) : InitDeclarator where
  text := [.ident n]
  begins := rfl
  nested_text := rfl
  nested_value := rfl

/-- In `_Complex x, T;` the second name is declared, and in `_Complex x; _Complex T;` it is the
type. -/
theorem untyped_specifiers_apart :
    Specifying {} [.keyword .complex] {} ∧ bareNames [.keyword .complex] = [] ∧
    outcome (declarations ⟨1, 1⟩ synonymScope
        (placed (sharing [.keyword .complex] [nameItem "x", nameItem "T"]))) =
      some ([(some "x", .complex .none (.builtin .none "double"), none),
        (some "T", .complex .none (.builtin .none "double"), none)], synonymScope) ∧
    outcome (declarations ⟨1, 1⟩ synonymScope
        (placed (separately [.keyword .complex] [nameItem "x", nameItem "T"]))) =
      some ([(some "x", .complex .none (.builtin .none "double"), none),
        (none, .complex .none (.synonym .none "T" (.builtin .none "int")), none)], synonymScope) :=
  ⟨.modifier rfl .nil, rfl, by cbv, by cbv⟩

end TypeLedger
