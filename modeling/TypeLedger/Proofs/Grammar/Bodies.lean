import TypeLedger.Proofs.Grammar.Declarations
import TypeLedger.Proofs.Grammar.Tidy
import TypeLedger.Proofs.Printing.Lines

/-!
# Reading the bodies of records back

* `MemberDecl.Matches`, `BaseDecl.Matches`: what a member and a base class are read as.
* `MemberDecl.Shown`: a member whose line leaves something to read as a member.
* `RecordDecl.reread`: the record that the definition of a record is read as.
* `MemberDecl.Words`, `RecordDecl.Words`: tokens are the line of a member and the definition of a
  record, where parameters may have names.
* `reads_members` and `reads_bases`: the tokens of members and of base classes are read as they are.
* `gives_forward` and `reads_definition`: the tokens of a record's lines are read as one declaration
  each; the second completes the record.
-/

namespace TypeLedger

variable {stop : Location} {sc sc₁ sc₂ sc₃ : Scope} {l : Labels} {r : RecordId → Prop}
  {e : EnumId → Prop} {t : Token} {ts ts₁ ts₂ ts₃ : List Token}

/-! ## 1. Members and base classes under labels -/

/-- The second member is the first one, with its canonical type under labels (`CType.Matches`). -/
structure MemberDecl.Matches (l : Labels) (ctx : Context) (m m' : MemberDecl) : Prop where
  name : m'.name = m.name
  type : m.type.desugar.Matches l ctx m'.type.desugar
  access : m'.access = m.access
  bitWidth : m'.bitWidth = m.bitWidth

/-- The second base class is the first one under labels. -/
structure BaseDecl.Matches (l : Labels) (ctx : Context) (b b' : BaseDecl) : Prop where
  access : b'.access = b.access
  type : b.type.Matches l ctx b'.type
  isVirtual : b'.isVirtual = b.isVirtual

/-- The second record is the first one, with its canonical types under labels (`MemberDecl.Matches`,
`BaseDecl.Matches`). -/
structure RecordDecl.Matches (l : Labels) (ctx : Context) (d d' : RecordDecl) : Prop where
  key : d'.key = d.key
  complete : d'.isComplete = d.isComplete
  members : List.Forall₂ (MemberDecl.Matches l ctx) (d.members.getD []) (d'.members.getD [])
  bases : List.Forall₂ (BaseDecl.Matches l ctx) d.bases d'.bases

theorem MemberDecl.Matches.mono {ctx ctx' : Context} (h : ctx.Grows ctx') {m m' : MemberDecl}
    (hm : m.Matches l ctx m') : m.Matches l ctx' m' :=
  ⟨hm.name, hm.type.mono h, hm.access, hm.bitWidth⟩

theorem BaseDecl.Matches.mono {ctx ctx' : Context} (h : ctx.Grows ctx') {b b' : BaseDecl}
    (hb : b.Matches l ctx b') : b.Matches l ctx' b' :=
  ⟨hb.access, hb.type.mono h, hb.isVirtual⟩

namespace CType

def isRecord : CType → Bool
  | record .. => true
  | _ => false

end CType

namespace MemberDecl

/-- Something stands behind the specifiers of the member: its name, a declarator, or its width. A
colon right behind a record would open a body. -/
def Shown (m : MemberDecl) : Bool :=
  m.name.isSome || m.type.desugar.hasDeclarator || (m.bitWidth.isSome && !m.type.desugar.isRecord)

/-- The member is a bit field of a record, without a name and a declarator. The colon in its line
opens a body. -/
def OpensBody (m : MemberDecl) : Bool :=
  m.name.isNone && !m.type.desugar.hasDeclarator && m.bitWidth.isSome && m.type.desugar.isRecord

/-- The member has a line (`Listed`), which is read as a member (`Shown`). -/
def Kept (key : RecordKey) (m : MemberDecl) : Bool := m.Listed key && m.Shown

/-- The member that the line of the member is read as. Only the members of a class have an
access. -/
def reread (key : RecordKey) (m : MemberDecl) : MemberDecl :=
  ⟨m.name, m.type.desugar.emptied, if key = .classKey then m.access else none, m.bitWidth⟩

/-- A member that is shown opens no body. -/
theorem opensBody_of_shown {m : MemberDecl} (h : m.Shown = true) : m.OpensBody = false := by
  unfold OpensBody
  unfold Shown at h
  cases hn : m.name <;> cases hd : m.type.desugar.hasDeclarator <;> simp_all

/-- Neither shown nor opening a body, a member is nothing but its specifiers. -/
theorem bare_of_not_shown {m : MemberDecl} (hs : m.Shown = false) (hc : m.OpensBody = false) :
    m.name = none ∧ m.type.desugar.hasDeclarator = false ∧ m.bitWidth = none := by
  simp only [Shown, Bool.or_eq_false_iff, Option.isSome_eq_false_iff, Option.isNone_iff_eq_none]
    at hs
  obtain ⟨⟨hn, hd⟩, hw⟩ := hs
  refine ⟨hn, hd, ?_⟩
  rw [OpensBody, hn, hd] at hc
  cases hb : m.bitWidth with
  | none => rfl
  | some w =>
    rw [hb] at hw hc
    cases hr : m.type.desugar.isRecord <;> rw [hr] at hw hc
    · cases hw
    · cases hc

end MemberDecl

/-- The members that the lines of members are read as, behind this keyword. -/
def rereadMembers (key : RecordKey) (ms : List MemberDecl) : List MemberDecl :=
  (ms.filter (·.Kept key)).map (·.reread key)

theorem rereadMembers_cons_listed {key : RecordKey} {m : MemberDecl} (h : m.Listed key = true)
    (ms : List MemberDecl) :
    rereadMembers key (m :: ms) =
      ([m].filter MemberDecl.Shown).map (·.reread key) ++ rereadMembers key ms := by
  have hk : m.Kept key = m.Shown := by rw [MemberDecl.Kept, h, Bool.true_and]
  cases hs : m.Shown <;> simp [rereadMembers, hk, hs]

/-- The record that the definition of the record is read as. Only a class has base classes. -/
def RecordDecl.reread (d : RecordDecl) : RecordDecl :=
  { d with
    members := d.members.map (rereadMembers d.key)
    bases := if d.key = .classKey then d.bases else [] }

theorem RecordDecl.members_reread (d : RecordDecl) :
    d.reread.members.getD [] = rereadMembers d.key (d.members.getD []) := by
  cases hms : d.members <;> simp [reread, rereadMembers, hms]

/-! ## 2. Lines whose parameters may have names -/

/-- The tokens are the line of the member. -/
def MemberDecl.Words (l : Labels) (m : MemberDecl) (ks : List TokenKind) : Prop :=
  ∃ D, m.type.desugar.Words l (nameKinds m.name) D ∧
    ks = m.type.desugar.leaf.specifierKinds l ++
      (D ++ (widthKinds m.bitWidth ++ [.mark .semicolon]))

theorem MemberDecl.words_memberKinds (l : Labels) (m : MemberDecl) :
    m.Words l (memberKinds l m) := by
  refine ⟨_, CType.words_declaratorKinds l _ _, ?_⟩
  rw [memberKinds, CType.kinds, List.append_assoc]

/-- The tokens are the lines of the members of a class, where the label in force is that of
`current`. -/
def ClassWords (l : Labels) : Option Access → List MemberDecl → List TokenKind → Prop
  | _, [], ks => ks = []
  | current, m :: ms, ks =>
    match m.access with
    | none => ClassWords l current ms ks
    | some a => ∃ M rest, m.Words l M ∧ ClassWords l (some a) ms rest ∧
        ks = accessKinds current a ++ (M ++ rest)

/-- The tokens are the lines of the members of a struct or union. -/
def PlainWords (l : Labels) : List MemberDecl → List TokenKind → Prop
  | [], ks => ks = []
  | m :: ms, ks => ∃ M rest, m.Words l M ∧ PlainWords l ms rest ∧ ks = M ++ rest

/-- The tokens are the lines of the members of a record. -/
def MembersWords (l : Labels) : RecordKey → List MemberDecl → List TokenKind → Prop
  | .classKey, ms, ks => ClassWords l none ms ks
  | _, ms, ks => PlainWords l ms ks

/-- The tokens are the definition of the record. -/
def RecordDecl.Words (l : Labels) (id : RecordId) (d : RecordDecl) (ks : List TokenKind) : Prop :=
  ∃ M, MembersWords l d.key (d.members.getD []) M ∧
    ks = .keyword (.record (l.record id).1) :: .ident (l.record id).2 ::
      (basesKinds l d.key d.bases ++ .mark .braceOpen ::
        (M ++ [.mark .braceClose, .mark .semicolon]))

theorem classWords_classKinds (l : Labels) (current : Option Access) (ms : List MemberDecl) :
    ClassWords l current ms (classKinds l current ms) := by
  induction ms generalizing current with
  | nil => rfl
  | cons m ms ih =>
    rw [ClassWords, classKinds]
    cases m.access with
    | none => exact ih current
    | some a => exact ⟨_, _, m.words_memberKinds l, ih (some a), rfl⟩

theorem plainWords_memberKinds (l : Labels) (ms : List MemberDecl) :
    PlainWords l ms (ms.map (memberKinds l)).flatten := by
  induction ms with
  | nil => rfl
  | cons m ms ih => exact ⟨_, _, m.words_memberKinds l, ih, List.flatten_cons⟩

/-- The definition without names for parameters. -/
theorem RecordDecl.words_definitionKinds (l : Labels) (id : RecordId) (d : RecordDecl) :
    d.Words l id (definitionKinds l id d) := by
  refine ⟨membersKinds l d.key (d.members.getD []), ?_, rfl⟩
  cases d.key with
  | classKey => exact classWords_classKinds l none _
  | structKey | unionKey => exact plainWords_memberKinds l _

/-! ## 3. Single members -/

theorem gives_optionalWidth_none (h : Heads (· ≠ .mark .colon) ts) :
    Gives (optionalWidth stop ts) none ts := by
  unfold optionalWidth
  rw [take?_eq_none h]
  exact ⟨_, rfl, rfl, rfl⟩

theorem gives_bitWidth {w : UInt32} (h : t.kind = .intLit w.toUInt64) :
    Gives (bitWidth stop (t :: ts)) w ts := by
  obtain ⟨k, loc⟩ := t
  obtain rfl : k = .intLit w.toUInt64 := h
  have hlt : w.toUInt64.toNat < Text.size32 := by
    rw [UInt32.toNat_toUInt64]
    exact w.toNat_lt
  have hw : w.toUInt64.toUInt32 = w := by
    rw [← UInt32.toNat_inj, UInt64.toNat_toUInt32, UInt32.toNat_toUInt64]
    exact Nat.mod_eq_of_lt w.toNat_lt
  refine ⟨⟨w, ts, length_rest_lt _ _⟩, ?_, rfl, rfl⟩
  unfold bitWidth
  simp only [if_pos hlt, hw]

/-- The tokens of a width are read as the width. -/
theorem gives_optionalWidth {w : Option UInt32} {W : List Token} {semi : Token} {R : List Token}
    (hW : W.map Token.kind = widthKinds w) (hsemi : semi.kind = .mark .semicolon) :
    Gives (optionalWidth stop (W ++ semi :: R)) w (semi :: R) := by
  cases w with
  | none =>
    obtain rfl := List.map_eq_nil_iff.1 hW
    exact gives_optionalWidth_none (heads_cons.2 (by rw [hsemi]; decide))
  | some w =>
    obtain ⟨colon, W, rfl, hcolon, hW⟩ := List.map_eq_cons_iff.1 hW
    obtain ⟨n, W, rfl, hn, hnil⟩ := List.map_eq_cons_iff.1 hW
    obtain rfl := List.map_eq_nil_iff.1 hnil
    unfold optionalWidth
    rw [List.cons_append, take?_of_kind hcolon]
    exact gives_bind (gives_bitWidth hn) fun _ => ⟨_, rfl, rfl, rfl⟩

/-- A width or the semicolon behind a member ends its declarator. -/
theorem ends_width {w : Option UInt32} {W : List Token} {semi : Token} {R : List Token}
    (hW : W.map Token.kind = widthKinds w) (hsemi : semi.kind = .mark .semicolon) :
    Heads EndsDeclarator (W ++ semi :: R) := by
  cases w with
  | none =>
    obtain rfl := List.map_eq_nil_iff.1 hW
    exact heads_cons.2 ⟨_, hsemi, by decide⟩
  | some w =>
    obtain ⟨colon, W, rfl, hcolon, -⟩ := List.map_eq_cons_iff.1 hW
    exact heads_cons.2 ⟨_, hcolon, by decide⟩

/-- One member between specifiers and a semicolon. -/
theorem gives_memberGroup_one {base : CType} {access : Option Access} {d : Declarator}
    {w : Option UInt32} (hs : startsWith .semicolon ts = false)
    (hd : Gives (memberDeclarator stop sc ts) (d, sc₁) ts₁)
    (hw : Gives (optionalWidth stop ts₁) w ts₂) (hc : take? .comma ts₂ = none) :
    Gives (memberGroup stop base access sc ts) ([⟨d.name, d.apply base, access, w⟩], sc₁) ts₂ := by
  unfold memberGroup
  rw [hs]
  simp only [Bool.false_eq_true, ↓reduceIte]
  unfold memberList
  refine gives_bind hd fun _ => gives_bind hw fun _ => ?_
  simp only [hc]
  exact ⟨_, rfl, rfl, rfl⟩

/-- No member between specifiers and a semicolon right behind them. -/
theorem gives_memberGroup_none {base : CType} {access : Option Access}
    (hs : startsWith .semicolon ts = true) (ha : sc.isAnonymousRecord base = false) :
    Gives (memberGroup stop base access sc ts) ([], sc) ts := by
  unfold memberGroup
  rw [if_pos hs, ha]
  exact ⟨_, rfl, rfl, rfl⟩

/-- A group of members begins with a keyword that is no access. -/
theorem gives_members_group {key : RecordKey} {access : Option Access} {w : Keyword}
    {specs : Specifiers} {base : CType} {own list : List MemberDecl} {semi : Token}
    (hk : t.kind = .keyword w) (ha : ∀ a, w ≠ .access a)
    (hs : Gives (specifiers stop {} sc (t :: ts)) (specs, sc₁) ts₁)
    (hb : ∀ loc, specs.resolve loc = .ok base)
    (hg : Gives (memberGroup stop base access sc₁ ts₁) (own, sc₂) (semi :: ts₂))
    (hsemi : semi.kind = .mark .semicolon)
    (hm : Gives (members stop key access sc₂ ts₂) (list, sc₃) ts₃) :
    Gives (members stop key access sc (t :: ts)) (own ++ list, sc₃) ts₃ := by
  obtain ⟨k, loc⟩ := t
  obtain rfl : k = .keyword w := hk
  unfold members
  split
  · rename_i h; cases h
  · rename_i a h
    obtain rfl : w = .access a := by simpa using h
    exact absurd rfl (ha a)
  · rename_i h; cases h
  · refine gives_bind hs fun _ => ?_
    simp only [hb]
    exact gives_bind hg fun _ => gives_bind (gives_expect hsemi) fun _ =>
      gives_bind hm fun _ => ⟨_, rfl, rfl, rfl⟩

theorem gives_members_end {key : RecordKey} {access : Option Access}
    (h : t.kind = .mark .braceClose) :
    Gives (members stop key access sc (t :: ts)) ([], sc) (t :: ts) := by
  obtain ⟨k, loc⟩ := t
  obtain rfl : k = .mark .braceClose := h
  unfold members
  exact ⟨_, rfl, rfl, rfl⟩

/-- A label of a class changes the access in force. -/
theorem gives_members_label {access : Option Access} {a : Access} {colon : Token}
    {v : List MemberDecl × Scope} (hk : t.kind = .keyword (.access a))
    (hc : colon.kind = .mark .colon)
    (hm : Gives (members stop .classKey (some a) sc ts) v ts₁) :
    Gives (members stop .classKey access sc (t :: colon :: ts)) v ts₁ := by
  obtain ⟨k, loc⟩ := t
  obtain rfl : k = .keyword (.access a) := hk
  have hlabel : Gives (labelColon stop .classKey loc (colon :: ts)) () ts := gives_expect hc
  unfold members
  exact gives_bind hlabel fun _ => gives_bind hm fun _ => ⟨_, rfl, rfl, rfl⟩

theorem followsType_colon {t : CType} (h : t.isRecord = false) :
    FollowsType t (.mark .colon) := by
  cases t with
  | record q id => cases h
  | _ => exact (by decide : Mark.colon ≠ Mark.braceOpen)

/-- A record with a label has a name. -/
theorem isAnonymousRecord_of_matches {t t' : CType} (h : t.leaf.Matches l sc.context t') :
    sc.isAnonymousRecord t' = false := by
  generalize t.leaf = u at h
  cases u with
  | record q id =>
    obtain ⟨id', hid, rfl⟩ := h
    obtain ⟨d, hd, hn⟩ := Context.findRecord?_spec hid
    simp [Scope.isAnonymousRecord, hd, hn]
  | builtin q s =>
    obtain rfl := h
    rfl
  | enumeration q id =>
    obtain ⟨id', -, rfl⟩ := h
    rfl
  | pointer q k t | array q n t =>
    obtain ⟨t', -, rfl⟩ := h
    rfl
  | function q t ps v =>
    obtain ⟨t', ps', -, -, rfl⟩ := h
    rfl
  | _ => cases h

/-- **The tokens of a member that is `Shown` are read as the member.** They are its `Words`. -/
theorem reads_member {m : MemberDecl} (ht : m.type.desugar.Legible r e) (hm : m.Shown = true)
    (hsc : sc.Ready l r) :
    ∃ t' sc', sc.Widens sc' ∧ sc'.Ready l r ∧ m.type.desugar.emptied.Matches l sc'.context t' ∧
      ∀ stop key access T R list sc₂ rest, m.Words l (T.map Token.kind) →
        Gives (members stop key access sc' R) (list, sc₂) rest →
        Gives (members stop key access sc (T ++ R))
          (⟨m.name, t', access, m.bitWidth⟩ :: list, sc₂) rest := by
  obtain ⟨t', sc', hwidens, hready, hmatches, hreads⟩ := reads_words ht hsc
  refine ⟨t', sc', hwidens, hready, hmatches, fun stop key access T R list sc₂ rest hT hlist => ?_⟩
  obtain ⟨D, hD, hT⟩ := hT
  obtain ⟨S, T, rfl, hS, hT⟩ := List.map_eq_append_iff.1 hT
  obtain ⟨N, T, rfl, hN, hT⟩ := List.map_eq_append_iff.1 hT
  obtain ⟨W, T, rfl, hW, hT⟩ := List.map_eq_append_iff.1 hT
  obtain ⟨semi, T, rfl, hsemi, hnil⟩ := List.map_eq_cons_iff.1 hT
  obtain rfl := List.map_eq_nil_iff.1 hnil
  rw [← hN] at hD
  rw [List.append_assoc, List.append_assoc, List.append_assoc, List.singleton_append]
  -- without a name and a declarator there is a width, whose colon may follow the type
  have hcolon : N = [] → Heads (fun k => k = .mark .colon) (W ++ semi :: R) ∧
      FollowsType m.type.desugar.leaf (.mark .colon) := by
    rintro rfl
    have hno := hD.hasDeclarator_eq_false ht
    rw [MemberDecl.Shown, hD.name_eq_none ht, hno] at hm
    simp only [Option.isSome_none, Bool.or_self, Bool.false_or, Bool.and_eq_true,
      Bool.not_eq_true'] at hm
    obtain ⟨w, hw⟩ := Option.isSome_iff_exists.1 hm.1
    rw [hw] at hW
    obtain ⟨colon, W, rfl, hk, -⟩ := List.map_eq_cons_iff.1 hW
    rw [leaf_of_hasDeclarator_eq_false hno]
    exact ⟨heads_cons.2 hk, followsType_colon hm.2⟩
  obtain ⟨specs, base, d, sc₁, hs, hb, -, hd, hname, happly⟩ :=
    (hreads m.name).gives stop S N (W ++ semi :: R) hS hD (ends_width hW hsemi) fun hnil =>
      (hcolon hnil).1.imp fun k hk => hk ▸ (hcolon hnil).2
  obtain ⟨w, ks, hks, -, haccess⟩ := specifierKinds_eq_cons (l := l) ht
  rw [hks, List.map_eq_cons_iff] at hS
  obtain ⟨t, S, rfl, hk, -⟩ := hS
  have hstart : startsWith .semicolon (N ++ (W ++ semi :: R)) = false := by
    refine startsWith_eq_false (heads_append (fun k hk => ?_) fun hnil => ?_)
    · rcases hD.head?_name ht hk with ⟨n, -, rfl⟩ | ⟨mark, rfl, hmark⟩
      · simp
      · rintro hsemicolon
        obtain rfl : mark = .semicolon := by simpa using hsemicolon
        revert hmark
        decide
    · exact (hcolon hnil).1.imp fun k hk => by rw [hk]; decide
  have hcomma : take? .comma (semi :: R) = none := take?_of_ne (by rw [hsemi]; decide)
  have := gives_members_group hk haccess hs hb (gives_memberGroup_one hstart
    (gives_memberDeclarator hd) (gives_optionalWidth hW hsemi) hcomma) hsemi hlist
  rw [hname, happly] at this
  exact this

/-- **The tokens of a member that is nothing but specifiers are read as no member.** -/
theorem reads_bare {m : MemberDecl} (ht : m.type.desugar.Legible r e) (hs : m.Shown = false)
    (hc : m.OpensBody = false) (hsc : sc.Ready l r) :
    ∃ sc', sc.Widens sc' ∧ sc'.Ready l r ∧
      ∀ stop key access T R list sc₂ rest, m.Words l (T.map Token.kind) →
        Gives (members stop key access sc' R) (list, sc₂) rest →
        Gives (members stop key access sc (T ++ R)) (list, sc₂) rest := by
  obtain ⟨hname, hno, hwidth⟩ := MemberDecl.bare_of_not_shown hs hc
  have hleaf := leaf_of_hasDeclarator_eq_false hno
  obtain ⟨t', sc', hwidens, hready, hmatch, hspecs⟩ := reads_specifiers ht hsc
  refine ⟨sc', hwidens, hready, fun stop key access T R list sc₂ rest hT hlist => ?_⟩
  obtain ⟨D, hD, hT⟩ := hT
  obtain rfl : D = [] := by
    rw [hname] at hD
    cases hd : m.type.desugar <;> rw [hd] at hno hD <;> first | exact hD | cases hno
  rw [hwidth] at hT
  obtain ⟨S, N, rfl, hS, hN⟩ := List.map_eq_append_iff.1 hT
  obtain ⟨semi, N, rfl, hsemi, hnil⟩ := List.map_eq_cons_iff.1 hN
  obtain rfl := List.map_eq_nil_iff.1 hnil
  have hfollows : Heads (FollowsType m.type.desugar.leaf) (semi :: R) := by
    refine heads_cons.2 ?_
    rw [hsemi]
    cases m.type.desugar.leaf <;> simp [FollowsType]
  obtain ⟨specs, hgives, hres, -⟩ := hspecs stop S (semi :: R) hS hfollows
  obtain ⟨w, ks, hks, -, haccess⟩ := specifierKinds_eq_cons (l := l) ht
  rw [hks, List.map_eq_cons_iff] at hS
  obtain ⟨t, S, rfl, hk, -⟩ := hS
  rw [List.append_assoc]
  exact gives_members_group hk haccess hgives hres (gives_memberGroup_none
    (startsWith_of_kind hsemi) (isAnonymousRecord_of_matches hmatch)) hsemi hlist

/-- **The tokens of a member are read as the member, if it is `Shown`.** -/
theorem reads_line {m : MemberDecl} (ht : m.type.desugar.Legible r e)
    (hc : m.OpensBody = false) (hsc : sc.Ready l r) (key : RecordKey) {access : Option Access}
    (ha : (m.reread key).access = access) :
    ∃ own sc', sc.Widens sc' ∧ sc'.Ready l r ∧
      List.Forall₂ (MemberDecl.Matches l sc'.context)
        (([m].filter MemberDecl.Shown).map (·.reread key)) own ∧
      ∀ stop T R list sc₂ rest, m.Words l (T.map Token.kind) →
        Gives (members stop key access sc' R) (list, sc₂) rest →
        Gives (members stop key access sc (T ++ R)) (own ++ list, sc₂) rest := by
  cases hs : m.Shown with
  | true =>
    obtain ⟨t', sc', hwidens, hready, hmatch, hreads⟩ := reads_member ht hs hsc
    refine ⟨[⟨m.name, t', access, m.bitWidth⟩], sc', hwidens, hready, ?_,
      fun stop T R list sc₂ rest hT hlist => hreads stop key access T R list sc₂ rest hT hlist⟩
    rw [List.filter_cons_of_pos hs]
    refine .cons ⟨rfl, ?_, ha.symm, rfl⟩ .nil
    show (m.type.desugar.emptied).desugar.Matches l sc'.context t'.desugar
    rw [ht.desugar_emptied]
    exact hmatch.canonical
  | false =>
    obtain ⟨sc', hwidens, hready, hreads⟩ := reads_bare ht hs hc hsc
    refine ⟨[], sc', hwidens, hready, ?_,
      fun stop T R list sc₂ rest hT hlist => hreads stop key access T R list sc₂ rest hT hlist⟩
    rw [List.filter_cons_of_neg (by rw [hs]; decide)]
    exact .nil

/-! ## 4. All members -/

/-- The tokens of a list of members are read as the list, with the access in force for each. -/
def MembersRead (sc : Scope) (key : RecordKey) (access : Option Access)
    (words : List TokenKind → Prop) (ms' : List MemberDecl) (sc' : Scope) : Prop :=
  ∀ stop T close R, words (T.map Token.kind) → close.kind = .mark .braceClose →
    Gives (members stop key access sc (T ++ close :: R)) (ms', sc') (close :: R)

theorem membersRead_nil (key : RecordKey) (access : Option Access) :
    MembersRead sc key access (· = []) [] sc := by
  intro stop T close R hT hclose
  obtain rfl := List.map_eq_nil_iff.1 hT
  exact gives_members_end hclose

/-- **The members of a struct or union** are read as `rereadMembers` says. -/
theorem reads_plainMembers {ms : List MemberDecl} {key : RecordKey} (hkey : key ≠ .classKey)
    (ht : ∀ m ∈ ms, m.type.desugar.Legible r e) (hc : ∀ m ∈ ms, m.OpensBody = false)
    (hsc : sc.Ready l r) :
    ∃ ms' sc', sc.Widens sc' ∧ sc'.Ready l r ∧
      List.Forall₂ (MemberDecl.Matches l sc'.context) (rereadMembers key ms) ms' ∧
      MembersRead sc key none (PlainWords l ms) ms' sc' := by
  induction ms generalizing sc with
  | nil => exact ⟨[], sc, .refl sc, hsc, .nil, membersRead_nil key none⟩
  | cons m ms ih =>
    obtain ⟨htm, hts⟩ := List.forall_mem_cons.1 ht
    obtain ⟨hcm, hcs⟩ := List.forall_mem_cons.1 hc
    obtain ⟨own, sc₁, hw₁, hready₁, hmatch, hread⟩ :=
      reads_line htm hcm hsc key (if_neg hkey : (m.reread key).access = none)
    obtain ⟨ms', sc₂, hw₂, hready₂, hmatches, hreads⟩ := ih hts hcs hready₁
    refine ⟨own ++ ms', sc₂, hw₁.trans hw₂, hready₂, ?_, ?_⟩
    · rw [rereadMembers_cons_listed (by simp [MemberDecl.Listed, hkey])]
      exact List.rel_append (hmatch.imp fun _ _ h => h.mono hw₂.grows) hmatches
    · intro stop T close R hT hclose
      obtain ⟨_, _, hwords, hrest, hT⟩ := hT
      obtain ⟨M, S, rfl, rfl, rfl⟩ := List.map_eq_append_iff.1 hT
      rw [List.append_assoc]
      exact hread stop M _ ms' sc₂ _ hwords (hreads stop S close R hrest hclose)

/-- **The members of a class** are read as well. A label is read where the access changes, and in
front of the first member, where the access in force is private without a label. -/
theorem reads_classMembers {ms : List MemberDecl}
    (ht : ∀ m ∈ ms, m.access.isSome = true → m.type.desugar.Legible r e)
    (hc : ∀ m ∈ ms, m.access.isSome = true → m.OpensBody = false) (hsc : sc.Ready l r)
    {current access : Option Access} (ha : current = none ∨ current = access) :
    ∃ ms' sc', sc.Widens sc' ∧ sc'.Ready l r ∧
      List.Forall₂ (MemberDecl.Matches l sc'.context) (rereadMembers .classKey ms) ms' ∧
      MembersRead sc .classKey access (ClassWords l current ms) ms' sc' := by
  induction ms generalizing sc current access with
  | nil => exact ⟨[], sc, .refl sc, hsc, .nil, membersRead_nil .classKey access⟩
  | cons m ms ih =>
    obtain ⟨htm, hts⟩ := List.forall_mem_cons.1 ht
    obtain ⟨hcm, hcs⟩ := List.forall_mem_cons.1 hc
    cases hacc : m.access with
    | none =>
      -- a comment stands in its place
      have hnot : m.Kept .classKey = false := by
        rw [MemberDecl.Kept, MemberDecl.Listed, hacc]
        rfl
      rw [rereadMembers, List.filter_cons_of_neg (by rw [hnot]; decide)]
      simp only [ClassWords, hacc]
      exact ih hts hcs hsc ha
    | some a =>
      have hsome : m.access.isSome = true := by rw [hacc]; rfl
      obtain ⟨own, sc₁, hw₁, hready₁, hmatch, hread⟩ :=
        reads_line (htm hsome) (hcm hsome) hsc .classKey
          (hacc : (m.reread .classKey).access = some a)
      obtain ⟨ms', sc₂, hw₂, hready₂, hmatches, hreads⟩ :=
        ih hts hcs hready₁ (.inr rfl : some a = none ∨ some a = some a)
      refine ⟨own ++ ms', sc₂, hw₁.trans hw₂, hready₂, ?_, ?_⟩
      · rw [rereadMembers_cons_listed (by simp [MemberDecl.Listed, hacc])]
        exact List.rel_append (hmatch.imp fun _ _ h => h.mono hw₂.grows) hmatches
      intro stop T close R hT hclose
      simp only [ClassWords, hacc] at hT
      obtain ⟨_, _, hwords, hrest, hT⟩ := hT
      obtain ⟨A, S, rfl, hA, hS⟩ := List.map_eq_append_iff.1 hT
      obtain ⟨M, S, rfl, rfl, rfl⟩ := List.map_eq_append_iff.1 hS
      have hrest := hread stop M _ ms' sc₂ _ hwords (hreads stop S close R hrest hclose)
      rw [List.append_assoc, List.append_assoc]
      by_cases hcur : current = some a
      · rw [accessKinds, if_pos hcur] at hA
        obtain rfl := List.map_eq_nil_iff.1 hA
        obtain rfl : access = some a := by
          rcases ha with ha | ha
          · rw [ha] at hcur
            cases hcur
          · rw [← ha, hcur]
        exact hrest
      · rw [accessKinds, if_neg hcur] at hA
        obtain ⟨label, A, rfl, hlabel, hA⟩ := List.map_eq_cons_iff.1 hA
        obtain ⟨colon, A, rfl, hcolon, hnil⟩ := List.map_eq_cons_iff.1 hA
        obtain rfl := List.map_eq_nil_iff.1 hnil
        exact gives_members_label hlabel hcolon hrest

/-- Members of a class have an access; members of a struct or union have none, and these have no
base classes. -/
structure RecordDecl.Regular (d : RecordDecl) : Prop where
  labelled : d.key = .classKey → ∀ m ∈ d.members.getD [], m.access.isSome = true
  unlabelled : d.key ≠ .classKey → (∀ m ∈ d.members.getD [], m.access = none) ∧ d.bases = []

instance (d : RecordDecl) : Decidable d.Regular :=
  decidable_of_iff ((d.key = .classKey → ∀ m ∈ d.members.getD [], m.access.isSome = true) ∧
      (d.key ≠ .classKey → (∀ m ∈ d.members.getD [], m.access = none) ∧ d.bases = []))
    ⟨fun ⟨h, h'⟩ => ⟨h, h'⟩, fun h => ⟨h.labelled, h.unlabelled⟩⟩

/-- The lines of the record's members can be read, over the records `r` and the enumerations `e`:
no type is `_Complex`, and no colon opens a body. -/
structure RecordDecl.Legible (r : RecordId → Prop) (e : EnumId → Prop) (d : RecordDecl) :
    Prop where
  types : ∀ m ∈ d.members.getD [], m.Listed d.key = true → m.type.desugar.Legible r e
  closed : ∀ m ∈ d.members.getD [], m.Listed d.key = true → m.OpensBody = false
  bases : ∀ b ∈ d.bases, ∃ i, b.type = .record .none i ∧ r i

theorem reads_members {d : RecordDecl} (hd : d.Legible r e) (hsc : sc.Ready l r) :
    ∃ ms' sc', sc.Widens sc' ∧ sc'.Ready l r ∧
      List.Forall₂ (MemberDecl.Matches l sc'.context)
        (rereadMembers d.key (d.members.getD [])) ms' ∧
      MembersRead sc d.key d.key.access (MembersWords l d.key (d.members.getD [])) ms' sc' := by
  have hplain : d.key ≠ .classKey → ∀ m : MemberDecl, m.Listed d.key = true := fun h m => by
    simp [MemberDecl.Listed, h]
  have ht := hd.types
  have hc := hd.closed
  cases hk : d.key with
  | classKey =>
    rw [hk] at ht hc
    exact reads_classMembers ht hc hsc (.inl rfl)
  | structKey | unionKey =>
    have hkey : d.key ≠ .classKey := by rw [hk]; decide
    rw [← hk]
    have := reads_plainMembers (l := l) hkey (fun m hm => ht m hm (hplain hkey m))
      (fun m hm => hc m hm (hplain hkey m)) hsc
    rw [hk] at this ⊢
    exact this

/-! ## 5. Base classes -/

theorem Scope.Ready.recordType? (h : sc.Ready l r) {n : String} {id : RecordId}
    (hid : sc.context.findRecord? n = some id) : sc.recordType? n = some (.record .none id) := by
  unfold Scope.recordType?
  cases hn : sc.typeName? n with
  | none => simp [hid]
  | some t =>
    obtain ⟨id', rfl, hid'⟩ := h.classes n t hn
    rw [hid] at hid'
    obtain rfl := Option.some.inj hid'
    rfl

/-- The words in front of a base class. -/
theorem baseWords_base {b : BaseDecl} {V : List Token} {n : String} {u : Token}
    (ht : t.kind = .keyword (.access b.access))
    (hV : V.map Token.kind = if b.isVirtual then [.keyword .virtualBase] else [])
    (hu : u.kind = .ident n) :
    ∃ h, baseWords (t :: (V ++ u :: ts)) = ⟨(some b.access, b.isVirtual), u :: ts, h⟩ := by
  obtain ⟨kt, lt⟩ := t
  obtain rfl : kt = .keyword (.access b.access) := ht
  obtain ⟨ku, lu⟩ := u
  obtain rfl : ku = .ident n := hu
  cases hv : b.isVirtual with
  | false =>
    rw [hv] at hV
    obtain rfl := List.map_eq_nil_iff.1 hV
    exact ⟨_, rfl⟩
  | true =>
    rw [hv] at hV
    obtain ⟨⟨kv, lv⟩, V, rfl, hk, hnil⟩ := List.map_eq_cons_iff.1 hV
    obtain rfl := List.map_eq_nil_iff.1 hnil
    obtain rfl : kv = .keyword .virtualBase := hk
    exact ⟨_, rfl⟩

theorem gives_expectIdent {n : String} (h : t.kind = .ident n) :
    Gives (expectIdent stop (t :: ts)) n ts := by
  unfold expectIdent
  rw [takeIdent?_of_kind h]
  exact gives_ok

/-- The tokens of the last base class. -/
theorem gives_baseClause_last {b : BaseDecl} {B : List Token} {type : CType}
    (hB : B.map Token.kind = baseKinds l b) (ht : sc.recordType? (b.type.recordName l) = some type)
    (hc : take? .comma ts = none) :
    Gives (baseClause stop sc (B ++ ts)) [⟨type, b.access, b.isVirtual⟩] ts := by
  obtain ⟨t, S, rfl, hk, hS⟩ := List.map_eq_cons_iff.1 hB
  obtain ⟨V, N, rfl, hV, hN⟩ := List.map_eq_append_iff.1 hS
  obtain ⟨u, N, rfl, hu, hnil⟩ := List.map_eq_cons_iff.1 hN
  obtain rfl := List.map_eq_nil_iff.1 hnil
  rw [List.cons_append, List.append_assoc, List.singleton_append]
  obtain ⟨hlt, hwords⟩ := baseWords_base hk hV hu
  unfold baseClause
  generalize baseWords (t :: (V ++ u :: ts)) = words at hwords ⊢
  subst hwords
  refine gives_bind (gives_expectIdent hu) fun _ => ?_
  simp only [ht, hc]
  exact ⟨_, rfl, rfl, rfl⟩

/-- The tokens of a base class with more behind. -/
theorem gives_baseClause_cons {b : BaseDecl} {B : List Token} {type : CType} {comma : Token}
    {bs : List BaseDecl} (hB : B.map Token.kind = baseKinds l b)
    (ht : sc.recordType? (b.type.recordName l) = some type) (hc : comma.kind = .mark .comma)
    (hbs : Gives (baseClause stop sc ts) bs ts₁) :
    Gives (baseClause stop sc (B ++ comma :: ts)) (⟨type, b.access, b.isVirtual⟩ :: bs) ts₁ := by
  obtain ⟨t, S, rfl, hk, hS⟩ := List.map_eq_cons_iff.1 hB
  obtain ⟨V, N, rfl, hV, hN⟩ := List.map_eq_append_iff.1 hS
  obtain ⟨u, N, rfl, hu, hnil⟩ := List.map_eq_cons_iff.1 hN
  obtain rfl := List.map_eq_nil_iff.1 hnil
  rw [List.cons_append, List.append_assoc, List.singleton_append]
  obtain ⟨hlt, hwords⟩ := baseWords_base hk hV hu
  unfold baseClause
  generalize baseWords (t :: (V ++ u :: comma :: ts)) = words at hwords ⊢
  subst hwords
  refine gives_bind (gives_expectIdent hu) fun _ => ?_
  simp only [ht, take?_of_kind hc]
  exact gives_bind hbs fun _ => ⟨_, rfl, rfl, rfl⟩

/-- **The tokens of base classes are read as the base classes** by `baseClause`. -/
theorem reads_bases {bs : List BaseDecl} (hne : bs ≠ [])
    (hb : ∀ b ∈ bs, ∃ id, b.type = .record .none id ∧ r id) (hsc : sc.Ready l r) :
    ∃ bs', List.Forall₂ (BaseDecl.Matches l sc.context) bs bs' ∧
      ∀ stop T R, T.map Token.kind = commaKinds (bs.map (baseKinds l)) →
        Heads (· ≠ .mark .comma) R → Gives (baseClause stop sc (T ++ R)) bs' R := by
  induction bs with
  | nil => exact absurd rfl hne
  | cons b bs ih =>
    obtain ⟨⟨id, hid, hrid⟩, hbs⟩ := List.forall_mem_cons.1 hb
    obtain ⟨id', hfind⟩ := hsc.found id hrid
    have hname : b.type.recordName l = (l.record id).2 := by rw [hid, CType.recordName]
    have htype : sc.recordType? (b.type.recordName l) = some (.record .none id') := by
      rw [hname, hsc.recordType? hfind]
    have hmatch : b.Matches l sc.context ⟨.record .none id', b.access, b.isVirtual⟩ :=
      ⟨rfl, by rw [hid]; exact ⟨id', hfind, rfl⟩, rfl⟩
    cases bs with
    | nil =>
      refine ⟨[_], .cons hmatch .nil, fun stop T R hT hR => ?_⟩
      exact gives_baseClause_last hT htype (take?_eq_none hR)
    | cons c cs =>
      obtain ⟨bs', hmatches, hreads⟩ := ih (by simp) hbs
      refine ⟨_ :: bs', .cons hmatch hmatches, fun stop T R hT hR => ?_⟩
      obtain ⟨B, S, rfl, hB, hS⟩ := List.map_eq_append_iff.1 hT
      obtain ⟨comma, S, rfl, hcomma, hS⟩ := List.map_eq_cons_iff.1 hS
      rw [List.append_assoc, List.cons_append]
      exact gives_baseClause_cons hB htype hcomma (hreads stop S R hS hR)

/-! ## 6. Records -/

/-- A record by itself, with a semicolon behind. -/
theorem gives_record {key : RecordKey} {id : RecordId} {semi : Token}
    (hk : t.kind = .keyword (.record key))
    (hrec : Gives (recordSpecifier stop key t.location sc ts) (.record .none id, sc₁) (semi :: ts₁))
    (hsemi : semi.kind = .mark .semicolon) :
    ∃ loc, Gives (externalDeclaration stop sc (t :: ts))
      ([⟨none, .record .none id, none, loc⟩], sc₁) ts₁ := by
  have hend : Heads (EndsSpecifiers { named := some (.record .none id) }) (semi :: ts₁) :=
    heads_cons.2 (by rw [hsemi]; trivial)
  have hspecs : Gives (specifiers stop {} sc (t :: ts)) ({ named := some (.record .none id) }, sc₁)
      (semi :: ts₁) := gives_specifiers_record hk rfl hrec (gives_specifiers_end hend)
  have hres : ∀ loc, Specifiers.resolve { named := some (.record .none id) } loc =
      .ok (.record .none id) := fun _ => rfl
  refine ⟨t.location, ?_⟩
  unfold externalDeclaration
  rw [take?_of_ne (by rw [hk]; simp)]
  refine gives_bind hspecs fun _ => ?_
  simp only [hres, take?_of_kind hsemi]
  exact ⟨_, rfl, rfl, rfl⟩

/-- A record that is named for the first time. -/
theorem gives_recordSpecifier_new {key : RecordKey} {name : String} {loc : Location}
    (ht : t.kind = .ident name)
    (hr : Heads (fun k => k ≠ .mark .braceOpen ∧ k ≠ .mark .colon) ts)
    (hid : sc.context.findRecord? name = none) :
    Gives (recordSpecifier stop key loc sc (t :: ts))
      (.record .none ⟨sc.context.records.length⟩,
        nameClass { sc with context := (sc.context.declareRecord key (some name)).2 } key
          (some name) ⟨sc.context.records.length⟩) ts := by
  have hn : optionalName (t :: ts) =
      ⟨some name, ts, lt_succ_of_length_lt (length_rest_lt t ts)⟩ := by
    unfold optionalName
    rw [takeIdent?_of_kind ht]
  unfold recordSpecifier
  simp only [hn, startsWith_eq_false (hr.imp fun _ h => h.1),
    startsWith_eq_false (hr.imp fun _ h => h.2), tagged, hid]
  exact ⟨_, rfl, rfl, rfl⟩

/-- **The line of a record is read as a new record** by `externalDeclaration`; its tokens are
`forwardKinds`. -/
theorem gives_forward {id : RecordId} {T R : List Token}
    (hid : sc.context.findRecord? (l.record id).2 = none)
    (hT : T.map Token.kind = forwardKinds l id) :
    ∃ loc, Gives (externalDeclaration stop sc (T ++ R))
      ([⟨none, .record .none ⟨sc.context.records.length⟩, none, loc⟩],
        nameClass { sc with
            context := (sc.context.declareRecord (l.record id).1 (some (l.record id).2)).2 }
          (l.record id).1 (some (l.record id).2) ⟨sc.context.records.length⟩) R := by
  obtain ⟨t, T, rfl, hk, hT⟩ := List.map_eq_cons_iff.1 hT
  obtain ⟨name, T, rfl, hname, hT⟩ := List.map_eq_cons_iff.1 hT
  obtain ⟨semi, T, rfl, hsemi, hnil⟩ := List.map_eq_cons_iff.1 hT
  obtain rfl := List.map_eq_nil_iff.1 hnil
  have hr : Heads (fun k => k ≠ .mark .braceOpen ∧ k ≠ .mark .colon) (semi :: R) :=
    heads_cons.2 (by rw [hsemi]; decide)
  exact gives_record hk (gives_recordSpecifier_new hname hr hid) hsemi

/-- A record that has a body. -/
theorem gives_recordSpecifier_body {key : RecordKey} {name : String} {loc : Location}
    {id : RecordId} {bases : List BaseDecl} {list : List MemberDecl} {bo bc : Token}
    (ht : t.kind = .ident name) (hid : sc.context.findRecord? name = some id)
    (hinc : (sc.context.record? id).any RecordDecl.isComplete = false)
    (hopen : (startsWith .braceOpen ts || startsWith .colon ts) = true)
    (hb : Gives (optionalBases stop key (nameClass sc key (some name) id) ts) bases (bo :: ts₁))
    (hbo : bo.kind = .mark .braceOpen)
    (hm : Gives (members stop key key.access (nameClass sc key (some name) id) ts₁) (list, sc₁)
      (bc :: ts₂))
    (hbc : bc.kind = .mark .braceClose) :
    Gives (recordSpecifier stop key loc sc (t :: ts))
      (.record .none id, { sc₁ with context := sc₁.context.completeRecord id list bases }) ts₂ := by
  have hn : optionalName (t :: ts) =
      ⟨some name, ts, lt_succ_of_length_lt (length_rest_lt t ts)⟩ := by
    unfold optionalName
    rw [takeIdent?_of_kind ht]
  unfold recordSpecifier
  generalize optionalName (t :: ts) = named at hn ⊢
  subst hn
  simp only [hopen, tagged, hid, hinc, Bool.false_eq_true, and_false, ↓reduceIte]
  exact gives_bind hb fun _ => gives_bind (gives_expect hbo) fun _ =>
    gives_bind hm fun _ => gives_bind (gives_expect hbc) fun _ => ⟨_, rfl, rfl, rfl⟩

/-- The tokens between the name of a record and its brace. Only a class states its base classes. -/
theorem reads_optionalBases (key : RecordKey) {bs : List BaseDecl}
    (hb : ∀ b ∈ bs, ∃ id, b.type = .record .none id ∧ r id) (hsc : sc.Ready l r) :
    ∃ bs', List.Forall₂ (BaseDecl.Matches l sc.context) (if key = .classKey then bs else []) bs' ∧
      ∀ stop T bo R, T.map Token.kind = basesKinds l key bs → bo.kind = .mark .braceOpen →
        (startsWith .braceOpen (T ++ bo :: R) || startsWith .colon (T ++ bo :: R)) = true ∧
        Gives (optionalBases stop key sc (T ++ bo :: R)) bs' (bo :: R) := by
  by_cases hnone : key ≠ .classKey ∨ bs = []
  · have hempty : (if key = .classKey then bs else []) = [] ∧ basesKinds l key bs = [] := by
      rcases hnone with h | rfl
      · exact ⟨if_neg h, by cases key <;> first | rfl | exact absurd rfl h⟩
      · exact ⟨ite_self _, by cases key <;> rfl⟩
    rw [hempty.1, hempty.2]
    refine ⟨[], .nil, fun stop T bo R hT hbo => ?_⟩
    obtain rfl := List.map_eq_nil_iff.1 hT
    refine ⟨by rw [List.nil_append, startsWith_of_kind hbo]; rfl, ?_⟩
    unfold optionalBases
    rw [List.nil_append, take?_of_ne (by rw [hbo]; decide)]
    exact ⟨_, rfl, rfl, rfl⟩
  · obtain ⟨hkey, hne⟩ := not_or.1 hnone
    obtain rfl : key = .classKey := not_not.1 hkey
    obtain ⟨bs', hmatches, hreads⟩ := reads_bases hne hb hsc
    rw [if_pos rfl]
    refine ⟨bs', hmatches, fun stop T bo R hT hbo => ?_⟩
    cases bs with
    | nil => exact absurd rfl hne
    | cons b bs =>
      obtain ⟨colon, T, rfl, hcolon, hT⟩ := List.map_eq_cons_iff.1 hT
      refine ⟨by rw [List.cons_append, startsWith_of_kind hcolon, Bool.or_true], ?_⟩
      unfold optionalBases
      rw [List.cons_append, take?_of_kind hcolon]
      exact gives_bind (hreads stop T (bo :: R) hT (heads_cons.2 (by rw [hbo]; decide)))
        fun _ => ⟨_, rfl, rfl, rfl⟩

/-- **The definition of a record is read as its body** by `members` and `baseClause`, where it is
`Legible`. -/
theorem reads_definition {id id' : RecordId} {d : RecordDecl} (hd : d.Legible r e)
    (hkey : (l.record id).1 = d.key) (hsc : sc.Ready l r)
    (hid : sc.context.findRecord? (l.record id).2 = some id')
    (hinc : (sc.context.record? id').any RecordDecl.isComplete = false) :
    ∃ ms' bs' sc', sc.Widens sc' ∧ sc'.Ready l r ∧
      List.Forall₂ (MemberDecl.Matches l sc'.context) (d.reread.members.getD []) ms' ∧
      List.Forall₂ (BaseDecl.Matches l sc'.context) d.reread.bases bs' ∧
      ∀ stop T R, d.Words l id (T.map Token.kind) →
        ∃ loc, Gives (externalDeclaration stop sc (T ++ R))
          ([⟨none, .record .none id', none, loc⟩],
            { sc' with context := sc'.context.completeRecord id' ms' bs' }) R := by
  obtain ⟨hw₁, hready₁⟩ := hsc.nameClass d.key hid
  obtain ⟨bs', hbases, hbgives⟩ := reads_optionalBases d.key hd.bases hready₁
  obtain ⟨ms', sc', hw₂, hready₂, hmembers, hmgives⟩ := reads_members hd hready₁
  refine ⟨ms', bs', sc', hw₁.trans hw₂, hready₂, by rwa [d.members_reread],
    hbases.imp fun _ _ h => h.mono hw₂.grows, fun stop T R hT => ?_⟩
  obtain ⟨_, hwords, hT⟩ := hT
  obtain ⟨t, T, rfl, hk, hT⟩ := List.map_eq_cons_iff.1 hT
  obtain ⟨name, T, rfl, hname, hT⟩ := List.map_eq_cons_iff.1 hT
  obtain ⟨B, T, rfl, hB, hT⟩ := List.map_eq_append_iff.1 hT
  obtain ⟨bo, T, rfl, hbo, hT⟩ := List.map_eq_cons_iff.1 hT
  obtain ⟨M, T, rfl, rfl, hend⟩ := List.map_eq_append_iff.1 hT
  obtain ⟨bc, T, rfl, hbc, hend⟩ := List.map_eq_cons_iff.1 hend
  obtain ⟨semi, T, rfl, hsemi, hnil⟩ := List.map_eq_cons_iff.1 hend
  obtain rfl := List.map_eq_nil_iff.1 hnil
  have heq : t :: name :: (B ++ bo :: (M ++ [bc, semi])) ++ R =
      t :: name :: (B ++ bo :: (M ++ bc :: semi :: R)) := by simp
  obtain ⟨hopen, hbg⟩ := hbgives stop B bo (M ++ bc :: semi :: R) hB hbo
  have hmg := hmgives stop M bc (semi :: R) hwords hbc
  rw [hkey] at hk
  rw [heq]
  exact gives_record hk (gives_recordSpecifier_body hname hid hinc hopen hbg hbo hmg hbc) hsemi

end TypeLedger
