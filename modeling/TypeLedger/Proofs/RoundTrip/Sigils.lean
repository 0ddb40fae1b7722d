import TypeLedger.Proofs.Printing.Tokens
import TypeLedger.Proofs.RoundTrip.Declaration
import TypeLedger.Proofs.RoundTrip.Generation

/-!
# Sigils there and back

* `Sigil.Spells`: tokens that spell sigils, with the qualifiers of each in any order.
  `gives_sigils`: a declarator made of such tokens and a name has these sigils.
* `declare_sigils`: a registered type is declared with its sigils around the name, as a lexer fuses
  them; two types over the same are told apart by their ampersands only.
* `sigils_declared`: a declaration of a source with sigils in front of the name, from its tokens to
  the tokens of its rendering.
* `ampersands_run_together`: a reference to a reference is rendered as another reference.
-/

namespace TypeLedger

/-! ## 1. Sigils of a source -/

/-- The qualifiers that some words name. -/
def Qualifiers.ofWords (ws : List Qualifier) : Qualifiers :=
  ws.foldr (fun w q => w.alone.union q) .none

namespace Sigil

/-- The tokens spell the sigils: each has its mark, and its qualifiers in any order behind it. -/
inductive Spells : List TokenKind → List Sigil → Prop
  | nil : Spells [] []
  | cons {ks : List TokenKind} {cs : List Sigil} {k : PointerKind} (hk : k ≠ .member)
    (ws : List Qualifier) (h : Spells ks cs) :
    Spells (.mark k.mark :: (ws.map (fun w => .keyword (.qualifier w)) ++ ks))
      (⟨k, .ofWords ws⟩ :: cs)

theorem Spells.plain {ks : List TokenKind} {cs : List Sigil} (h : Spells ks cs) : Plain cs := by
  induction h with
  | nil => exact List.forall_mem_nil _
  | cons hk _ _ ih => exact List.forall_mem_cons.2 ⟨hk, ih⟩

/-- The derivation of a declarator that a sigil stands for. -/
def derivation (c : Sigil) : Derivation := .pointer c.kind c.quals

/-- The pointers in front of a declarator are the sigils. -/
theorem Spells.pointerRun {ks : List TokenKind} {cs : List Sigil} (h : Spells ks cs)
    {T R : List Token} (hT : T.map Token.kind = ks)
    (hq : Heads (fun k => isQualifierKind k = false) R)
    (hp : Heads (fun k => isPointerKind k = false) R) :
    (pointerRun (T ++ R)).value = cs.map derivation ∧
      (TypeLedger.pointerRun (T ++ R)).rest = R := by
  induction h generalizing T with
  | nil =>
    obtain rfl := List.map_eq_nil_iff.1 hT
    exact pointerRun_of_heads hp
  | @cons ks cs k hk ws h ih =>
    obtain ⟨t, T, rfl, ht, hT⟩ := List.map_eq_cons_iff.1 hT
    obtain ⟨Q, T, rfl, hQ, hT⟩ := List.map_eq_append_iff.1 hT
    obtain ⟨hv, hr⟩ := ih hT
    have hnq : Heads (fun k => isQualifierKind k = false) (T ++ R) := by
      refine heads_append ?_ fun _ => hq
      rw [hT]
      cases h with
      | nil => exact fun _ h => nomatch h
      | cons _ _ _ => exact fun _ h => Option.some.inj h ▸ rfl
    obtain ⟨hqv, hqr⟩ := qualifierRun_members hQ hnq
    obtain ⟨hpv, hpr⟩ := pointerRun_cons (Q ++ (T ++ R)) ht (pointerKind?_mark hk)
    rw [List.cons_append, List.append_assoc]
    rw [hqv, hqr, hv] at hpv
    rw [hqr, hr] at hpr
    exact ⟨hpv, hpr⟩

/-- **A declarator of sigils and a name** is accepted, and has the sigils that its tokens spell
(`Spells`). -/
theorem gives_sigils (stop : Location) (sc : Scope) {ks : List TokenKind} {cs : List Sigil}
    (h : Spells ks cs) {T R : List Token} (hT : T.map Token.kind = ks) {name : Token} {x : String}
    (hname : name.kind = .ident x)
    (hR : Heads (fun k => k ≠ .mark .bracketOpen ∧ k ≠ .mark .parenOpen) R) :
    Gives (declarator stop sc (T ++ name :: R))
      (⟨some x, (cs.map derivation).reverse⟩, sc) R := by
  have hrun := h.pointerRun hT (R := name :: R) (heads_cons.2 (by rw [hname]; rfl))
    (heads_cons.2 (by rw [hname]; rfl))
  obtain ⟨hv, hr⟩ := hrun
  have hcore : Gives (declaratorCore stop sc (TypeLedger.pointerRun (T ++ name :: R)).rest)
      (⟨some x, []⟩, sc) R := by
    rw [hr]
    exact gives_declaratorCore_name hname
  have := gives_declarator hcore (gives_suffixRun_nil hR)
  rwa [hv] at this

end Sigil

namespace CType

/-- Sigils in front of a declarator put pointers around the type. -/
theorem desugar_applyAll (t : CType) (cs : List Sigil) :
    (Derivation.applyAll t (cs.map Sigil.derivation).reverse).desugar =
      Derivation.applyAll t.desugar (cs.map Sigil.derivation).reverse := by
  rw [← List.map_reverse]
  induction cs.reverse with
  | nil => rfl
  | cons c cs ih =>
    show pointer c.quals c.kind (Derivation.applyAll t (cs.map Sigil.derivation)).desugar = _
    rw [ih]
    rfl

theorem pointed_applyAll (t : CType) (cs : List Sigil) :
    (Derivation.applyAll t (cs.map Sigil.derivation).reverse).pointed = t.pointed := by
  rw [← List.map_reverse]
  induction cs.reverse with
  | nil => rfl
  | cons c cs ih => exact ih

theorem sigils_applyAll (t : CType) (cs : List Sigil) :
    (Derivation.applyAll t (cs.map Sigil.derivation).reverse).sigils = t.sigils ++ cs := by
  have hrev : ∀ ds : List Sigil, (Derivation.applyAll t (ds.map Sigil.derivation)).sigils =
      t.sigils ++ ds.reverse := by
    intro ds
    induction ds with
    | nil => exact (List.append_nil _).symm
    | cons c ds ih =>
      show (Derivation.applyAll t (ds.map Sigil.derivation)).sigils ++ [c] = _
      rw [ih, List.reverse_cons, List.append_assoc]
  rw [← List.map_reverse, hrev, List.reverse_reverse]

/-- No declaration has a pointer to a member. -/
theorem Spelt.plain_sigils {V : Vocabulary} {ctx : Context} {t : CType} (h : t.Spelt V ctx) :
    Sigil.Plain t.sigils := by
  induction h with
  | pointer hk _ ih =>
    intro c hc
    rcases List.mem_append.1 hc with hc | hc
    · exact ih c hc
    · rw [List.mem_singleton.1 hc]
      exact hk
  | _ => exact List.forall_mem_nil _

/-- Types over the same are `wrapped` in the same way if they have the same ampersands. -/
theorem wrapped_eq_of_parted {t u : CType} (hp : t.pointed = u.pointed)
    (h : Sigil.parted t.sigils = Sigil.parted u.sigils) (name : String) :
    t.wrapped name = u.wrapped name := by
  have hempty : t.sigils.isEmpty = u.sigils.isEmpty := by
    rw [← Sigil.isEmpty_parted, h, Sigil.isEmpty_parted]
  rw [wrapped, wrapped, isEnclosed, isEnclosed, hp, hempty, Sigil.row_eq_of_parted h]

/-- Nothing stands around a name whose type is no pointer. -/
theorem wrappedKinds_of_ne {t : CType} (h : ∀ q k u, t ≠ .pointer q k u) (name : List TokenKind) :
    t.wrappedKinds (Sigil.fused t.sigils) name = name := by
  have hnil := (pointed_of_ne h).2
  rw [wrappedKinds, isEnclosed, hnil, List.isEmpty_nil, Bool.not_true, Bool.and_false]
  exact List.append_nil name

/-- Types over the same that are wrapped in the same tokens have the same ampersands. -/
theorem fused_eq_of_wrappedKinds {t u : CType} (hp : t.pointed = u.pointed)
    (ht : Sigil.Plain t.sigils) (hu : Sigil.Plain u.sigils) {x : String}
    (h : t.wrappedKinds (Sigil.fused t.sigils) [.ident x] =
      u.wrappedKinds (Sigil.fused u.sigils) [.ident x]) :
    Sigil.fused t.sigils = Sigil.fused u.sigils := by
  -- what stands in parentheses does not begin with the name, as what has no sigils does
  have hbare : ∀ {t u : CType}, t.pointed = u.pointed → t.isEnclosed = true →
      u.isEnclosed = false → t.wrappedKinds (Sigil.fused t.sigils) [.ident x] ≠
        u.wrappedKinds (Sigil.fused u.sigils) [.ident x] := by
    intro t u hp htight hloose he
    have hnil : u.sigils = [] := by
      rw [isEnclosed, Bool.and_eq_true] at htight
      rw [isEnclosed, ← hp, htight.1, Bool.true_and, Bool.not_eq_false'] at hloose
      exact List.isEmpty_iff.1 hloose
    rw [wrappedKinds, wrappedKinds, htight, hloose, hnil] at he
    cases he
  have hinj := Sigil.rowKinds_injective (Sigil.plain_fused ht) (Sigil.plain_fused hu)
  cases htight : t.isEnclosed with
  | true =>
    cases hutight : u.isEnclosed with
    | true =>
      rw [wrappedKinds, wrappedKinds, htight, hutight] at h
      exact hinj (List.append_cancel_left (List.append_cancel_right (List.append_cancel_right h)))
    | false => exact absurd h (hbare hp htight hutight)
  | false =>
    cases hutight : u.isEnclosed with
    | true => exact absurd h.symm (hbare hp.symm hutight htight)
    | false =>
      rw [wrappedKinds, wrappedKinds, htight, hutight] at h
      exact hinj (List.append_cancel_left (List.append_cancel_right (List.append_cancel_right h)))

end CType

/-! ## 2. Rendering -/

/-- The text has these tokens. -/
def TokensOf (text : String) (ks : List TokenKind) : Prop :=
  ∃ ts stop, tokenize (Text.bytes text) = .ok (ts, stop) ∧ ts.map Token.kind = ks

theorem Spelled.tokensOf {s : String} {ks : List TokenKind} (h : Spelled s ks) : TokensOf s ks :=
  kinds_of_lexes h.lexes

namespace Registry

variable {V : Vocabulary} {r : Registry} {env : Environment} {tagOf : TypeId → Tag} {k₀ k : Naming}

/-- One computation declares all types over the same: it is given the name with the sigils of each
around it, and puts the same tokens in front of this and behind it. -/
theorem declareWith_over (hp : r.Plain) (hl : r.Loaded env tagOf k₀) (hctx : r.context.Tidy V)
    (hk : k.Distinct k₀.namer.taken) {c : CType} (hc : r.SpeltIn V c)
    (hne : ∀ q p u, c ≠ .pointer q p u) {x : String} (hx : isIdentifier x = true) :
    ∃ (m : String → StateM Naming String) (front behind : List TokenKind),
      ∀ u, r.SpeltIn V u → u.pointed = c →
        env.declareWith [] .none (r.ledger.idOf u) x = m (u.wrapped x) ∧
        Spelled (env.declareWith [] .none (r.ledger.idOf u) x k).1
          (front ++ u.wrappedKinds (Sigil.fused u.sigils) [.ident x] ++ behind) := by
  obtain ⟨m, hm, hd⟩ := (sets_spelt hp hl hctx hc hne : r.SetsBare env k₀.namer.taken c) c.quals
  obtain ⟨front, behind, hf⟩ := hm.frames k hk
  refine ⟨m, front, behind, fun u hu hup => ?_⟩
  have hdeclare : env.declareWith [] .none (r.ledger.idOf u) x = m (u.wrapped x) := by
    obtain ⟨path, hpath, he⟩ := declareWith_pointed hp.kept hl.toShows hu .none (clear_nil r _)
    rw [Qualifiers.none_union, CType.withQuals_quals, hup] at he
    rw [hup] at hpath
    rw [he, hd path hpath]
  have hamp := noAmp_identifier hx
  refine ⟨hdeclare, ?_⟩
  rw [hdeclare]
  exact hf _ _ (fun h => CType.noAmp_wrapped u hamp (by rw [hup]; exact h))
    (CType.spelled_wrapped u (spelled_identifier hx) hamp)

/-- **A registered type is declared with its `sigils` around the name,** as a lexer fuses them; all
else is the declaration of the name with what it points at in the end. Two types over the same are
declared in the same way if and only if they have the same ampersands. -/
theorem declare_sigils (hp : r.Plain) (hl : r.Loaded env tagOf k₀) (hctx : r.context.Tidy V)
    (hk : k₀.Follows k) {t t' : CType} (ht : t.Spelt V r.context) (ht' : t'.Spelt V r.context)
    (hkt : r.ledger.Known t) (hkt' : r.ledger.Known t')
    (hsame : t'.desugar.pointed = t.desugar.pointed) {x : String} (hx : isIdentifier x = true) :
    (∃ front behind,
      TokensOf (env.declare (r.ledger.idOf t.desugar.pointed) x k).1
        (front ++ [.ident x] ++ behind) ∧
      TokensOf (env.declare (r.ledger.idOf t) x k).1
        (front ++ t.desugar.wrappedKinds (Sigil.fused t.desugar.sigils) [.ident x] ++ behind)) ∧
    ((env.declare (r.ledger.idOf t') x k).1 = (env.declare (r.ledger.idOf t) x k).1 ↔
      Sigil.parted t'.desugar.sigils = Sigil.parted t.desugar.sigils) := by
  have hdistinct : k.Distinct k₀.namer.taken :=
    (Naming.distinct_of_given_nil hl.given fun _ hm => hm).follows hk
  have hspelt : ∀ u : CType, u.Spelt V r.context → r.ledger.Known u → r.SpeltIn V u.desugar :=
    fun u hu hku =>
      ⟨hu.desugar, CType.hasSugar_desugar u, (hp.kept.sound.idOf_desugar hku).2⟩
  have hs := hspelt t ht hkt
  have hs' := hspelt t' ht' hkt'
  have hcore := hs.pointed hp.kept hl.toShows
  have hne := t.desugar.pointed_ne_pointer
  obtain ⟨m, front, behind, hover⟩ := declareWith_over hp hl hctx hdistinct hcore hne hx
  obtain ⟨-, hcoreTokens⟩ := hover _ hcore (CType.pointed_of_ne hne).1
  obtain ⟨hdeclare, htokens⟩ := hover _ hs rfl
  obtain ⟨hdeclare', htokens'⟩ := hover _ hs' hsame
  rw [CType.wrappedKinds_of_ne hne] at hcoreTokens
  rw [(hp.kept.sound.idOf_desugar hkt).1, (hp.kept.sound.idOf_desugar hkt').1]
  refine ⟨⟨front, behind, hcoreTokens.tokensOf, htokens.tokensOf⟩, fun he => ?_, fun hparted => ?_⟩
  · have htext : (env.declareWith [] .none (r.ledger.idOf t'.desugar) x k).1 =
      (env.declareWith [] .none (r.ledger.idOf t.desugar) x k).1 := he
    rw [htext] at htokens'
    have hkinds := htokens'.lexes.unique htokens.lexes
    exact Sigil.fused_eq_iff.1 (CType.fused_eq_of_wrappedKinds hsame hs'.spelt.plain_sigils
      hs.spelt.plain_sigils (List.append_cancel_left (List.append_cancel_right hkinds)))
  · show (env.declareWith [] .none (r.ledger.idOf t'.desugar) x k).1 =
      (env.declareWith [] .none (r.ledger.idOf t.desugar) x k).1
    rw [hdeclare', hdeclare, CType.wrapped_eq_of_parted hsame hparted]

/-- Two types over the same that are registered one behind the other are declared from the loaded
table with their sigils, and in the same way if and only if they have the same ampersands. -/
theorem register_declare_sigils {ctx : Context} (hctx : ctx.Tidy V) {t t' : CType}
    (ht : t.Spelt V ctx) (ht' : t'.Spelt V ctx) (hsame : t'.desugar.pointed = t.desugar.pointed)
    {x : String} (hx : isIdentifier x = true) (detail : Detail) :
    ∃ id r id' r' env k₀,
      Registry.register t { context := ctx, detail } = (id, r) ∧ r.register t' = (id', r') ∧
      Environment.ofEntries r'.table.types {} = (.ok env, k₀) ∧
      ∀ k, k₀.Follows k →
        (∃ front behind,
          TokensOf (env.declare (r'.ledger.idOf t.desugar.pointed) x k).1
            (front ++ [.ident x] ++ behind) ∧
          TokensOf (env.declare id x k).1
            (front ++ t.desugar.wrappedKinds (Sigil.fused t.desugar.sigils) [.ident x]
              ++ behind)) ∧
        ((env.declare id' x k).1 = (env.declare id x k).1 ↔
          Sigil.parted t'.desugar.sigils = Sigil.parted t.desugar.sigils) := by
  have hfresh : ({ context := ctx, detail } : Registry).Fresh := ⟨rfl, rfl, rfl, rfl, rfl⟩
  have hplain : ({ context := ctx, detail } : Registry).Plain :=
    ⟨hfresh.kept, rfl, rfl, rfl, rfl⟩
  have hp := hplain.register t
  have hp' := hp.register t'
  obtain ⟨-, hlater, hkt, hid⟩ := Registry.register_kept hplain.kept t
  obtain ⟨-, hlater', hkt', hid'⟩ := Registry.register_kept hp.kept t'
  obtain ⟨env, k₀, tagOf, hload, hl⟩ := Registry.loaded_ofEntries hp'
  refine ⟨_, _, _, _, env, k₀, rfl, rfl, hload, fun k hk => ?_⟩
  have hboth := declare_sigils hp' hl hctx hk ht ht' (hkt.mono hlater'.ledger) hkt' hsame hx
  rw [hlater'.idOf_eq hp.kept hp'.kept hkt] at hboth
  exact hboth

/-- What points at a builtin type is declared with its `spelling` in front of the sigils. -/
theorem declare_over_builtin (hp : r.Plain) (hl : r.Loaded env tagOf k₀) {t : CType}
    (h : r.SpeltIn V t) {q : Qualifiers} {s : String} (ht : t.pointed = .builtin q s) (x : String)
    (k : Naming) :
    (env.declare (r.ledger.idOf t) x k).1 = Fragment.ofWords [q.spelling, s, t.wrapped x] := by
  have hcore := h.pointed hp.kept hl.toShows
  obtain ⟨path, hc, he⟩ := declareWith_pointed hp.kept hl.toShows h .none (clear_nil r _)
  rw [Qualifiers.none_union, CType.withQuals_quals, ht] at he
  rw [ht] at hcore hc
  show (env.declareWith [] .none (r.ledger.idOf t) x k).1 = _
  rw [he, hcore.declareWith_builtin hp.kept hl.toShows _ hc]
  rfl

end Registry

/-! ## 3. From a source to its rendering -/

variable {ctx : Context} {stop : Location} {bytes : List UInt8} {front ts T R : List Token}
  {ds : List Declaration} {sc sc₁ : Scope} {specs : Specifiers} {base : CType} {ks : List TokenKind}
  {cs : List Sigil} {name semi : Token} {x : String}

/-- The tokens of a declaration do not begin with its semicolon. -/
theorem no_semicolon_of_sigils
    (hspecs : Gives (specifiers stop {} sc ts) (specs, sc₁) (T ++ name :: R))
    (hcs : Sigil.Spells ks cs) (hT : T.map Token.kind = ks) (hname : name.kind = .ident x) :
    take? .semicolon ts = none := by
  cases hs : startsWith .semicolon ts with
  | false =>
    cases ts with
    | nil => rfl
    | cons t ts =>
      refine take?_of_ne fun hk => ?_
      rw [startsWith_of_kind hk] at hs
      cases hs
  | true =>
    obtain ⟨t, ts, rfl, ht⟩ := startsWith_iff.1 hs
    have hend : Gives (specifiers stop {} sc (t :: ts)) ({}, sc) (t :: ts) :=
      gives_specifiers_end (heads_cons.2 (by rw [ht]; trivial))
    obtain ⟨-, hrest⟩ := hspecs.unique hend
    cases hcs with
    | nil =>
      obtain rfl := List.map_eq_nil_iff.1 hT
      obtain ⟨rfl, -⟩ := List.cons.inj hrest
      rw [hname] at ht
      cases ht
    | @cons _ _ k hk ws h =>
      obtain ⟨u, T, rfl, hu, -⟩ := List.map_eq_cons_iff.1 hT
      obtain ⟨rfl, -⟩ := List.cons.inj hrest
      rw [hu] at ht
      cases k <;> cases ht

/-- **Sigils from a source to its rendering.** The tokens of a source go on, behind declarations,
with specifiers, sigils, a name and a semicolon. This is accepted as a declaration of the name,
whose type has these sigils around what the specifiers name. The type is registered, and the table
is loaded; its declaration has, in front of the name, the sigils as a lexer fuses them. They are the
same if and only if no single ampersand without qualifiers stands directly in front of a reference
(`Apart`); and another type over the same is declared in the same way if and only if it has the same
ampersands. -/
theorem sigils_declared (hctx : ctx.Read) (htokens : tokenize bytes = .ok (front ++ ts, stop))
    (hfront : declarations stop { context := ctx } front = .ok (ds, sc))
    (hspecs : Gives (specifiers stop {} sc ts) (specs, sc₁) (T ++ name :: semi :: R))
    (hbase : specs.resolve (place stop ts) = .ok base) (hcs : Sigil.Spells (T.map Token.kind) cs)
    (hname : name.kind = .ident x) (hsemi : semi.kind = .mark .semicolon) (detail : Detail) :
    ∃ t loc sc₂, Gives (externalDeclaration stop sc ts)
        ([⟨some x, t, specs.storage, loc⟩], sc₂) R ∧
      t.desugar.pointed = base.desugar.pointed ∧
      t.desugar.sigils = base.desugar.sigils ++ cs ∧
      ∀ t' : CType, t'.Spelt .all sc₂.context → t'.desugar.pointed = t.desugar.pointed →
        ∃ id r id' r' env k₀,
          Registry.register t { context := sc₂.context, detail } = (id, r) ∧
          r.register t' = (id', r') ∧
          Environment.ofEntries r'.table.types {} = (.ok env, k₀) ∧
          ∀ k, k₀.Follows k →
            (∃ front behind,
              TokensOf (env.declare (r'.ledger.idOf t.desugar.pointed) x k).1
                (front ++ [.ident x] ++ behind) ∧
              TokensOf (env.declare id x k).1
                (front ++ t.desugar.wrappedKinds (Sigil.fused t.desugar.sigils) [.ident x]
                  ++ behind)) ∧
            (Sigil.fused t.desugar.sigils = t.desugar.sigils ↔ Sigil.Apart t.desugar.sigils) ∧
            ((env.declare id' x k).1 = (env.declare id x k).1 ↔
              Sigil.parted t'.desugar.sigils = Sigil.parted t.desugar.sigils) := by
  have hworded := worded_tokenize htokens
  have hstart : Scope.Tidy .all { context := ctx } := ⟨hctx.tidy, fun n t hn => (nomatch hn)⟩
  obtain ⟨hleads, -⟩ := tidy_declarations hstart
    (Vocabulary.covers_all fun t ht => hworded t (List.mem_append_left _ ht)) hfront
  have hcovers : Vocabulary.all.Covers ts :=
    Vocabulary.covers_all fun t ht => hworded t (List.mem_append_right _ ht)
  have hnone := no_semicolon_of_sigils hspecs hcs rfl hname
  have hspelt : base.Spelt .all sc₁.context ∧ sc₁.context.Tidy .all ∧ isIdentifier x = true := by
    obtain ⟨s, hs, hv, hr⟩ := hspecs
    have hkept := ensures_specifiers stop hleads.tidy (spelt_no_specifiers _) hcovers s hs
    rw [hv, hr] at hkept
    obtain ⟨⟨hl, hspecs⟩, hw⟩ := hkept
    exact ⟨spelt_resolve hspecs hbase, hl.tidy.context,
      hw.ident name (List.mem_append_right _ List.mem_cons_self) x hname⟩
  obtain ⟨hbaseSpelt, htidy, hx⟩ := hspelt
  let d : Declarator := ⟨some x, (cs.map Sigil.derivation).reverse⟩
  have hd : Gives (declarator stop sc₁ (T ++ name :: semi :: R)) (d, sc₁) (semi :: R) :=
    Sigil.gives_sigils stop sc₁ hcs rfl hname (heads_cons.2 (by rw [hsemi]; decide))
  have hlist := gives_declaratorList_single base specs.storage hd rfl hsemi
  obtain ⟨sc₂, hsc₂⟩ : ∃ sc₂, sc₂ = if specs.storage = some .typeSynonym then
      sc₁.nameType x (.synonym .none x (d.apply base)) else sc₁ := ⟨_, rfl⟩
  have hcontext : sc₂.context = sc₁.context := by
    rw [hsc₂]
    split <;> rfl
  have hpointed : (d.apply base).desugar.pointed = base.desugar.pointed :=
    (congrArg CType.pointed (CType.desugar_applyAll base cs)).trans (CType.pointed_applyAll _ cs)
  have hsigils : (d.apply base).desugar.sigils = base.desugar.sigils ++ cs :=
    (congrArg CType.sigils (CType.desugar_applyAll base cs)).trans (CType.sigils_applyAll _ cs)
  have ht : (d.apply base).Spelt .all sc₁.context := by
    refine spelt_applyAll hbaseSpelt fun e he => ?_
    obtain ⟨c, hc, rfl⟩ := List.mem_map.1 (List.mem_reverse.1 he)
    exact hcs.plain c hc
  refine ⟨d.apply base, place stop (T ++ name :: semi :: R), sc₂, ?_, hpointed, hsigils, ?_⟩
  · rw [hsc₂]
    unfold externalDeclaration
    rw [hnone]
    refine gives_bind hspecs fun _ => ?_
    simp only [hbase, no_semicolon_of_named hd rfl]
    exact gives_bind hlist fun _ => ⟨_, rfl, rfl, rfl⟩
  · intro t' ht' hsame
    rw [hcontext] at ht' ⊢
    obtain ⟨id, r, id', r', env, k₀, hr, hr', hload, hboth⟩ :=
      Registry.register_declare_sigils htidy ht ht' hsame hx detail
    exact ⟨id, r, id', r', env, k₀, hr, hr', hload, fun k hk =>
      ⟨(hboth k hk).1, Sigil.fused_eq_self_iff _, (hboth k hk).2⟩⟩

/-- The tokens of `typedef int * const & R;`. -/
def referenceFront : List Token :=
  [⟨.keyword (.storage .typeSynonym), ⟨1, 1⟩⟩, ⟨.keyword (.builtin .int), ⟨1, 9⟩⟩,
    ⟨.mark .star, ⟨1, 13⟩⟩, ⟨.keyword (.qualifier .constant), ⟨1, 15⟩⟩, ⟨.mark .amp, ⟨1, 21⟩⟩,
    ⟨.ident "R", ⟨1, 23⟩⟩, ⟨.mark .semicolon, ⟨1, 24⟩⟩]

/-- The tokens of `R && * x;` behind it. -/
def referenceTokens : List Token :=
  [⟨.ident "R", ⟨1, 26⟩⟩, ⟨.mark .ampAmp, ⟨1, 28⟩⟩, ⟨.mark .star, ⟨1, 31⟩⟩, ⟨.ident "x", ⟨1, 33⟩⟩,
    ⟨.mark .semicolon, ⟨1, 34⟩⟩]

/-- A reference to a constant pointer. -/
def constantReference : CType :=
  .pointer .none .lvalueReference (.pointer ⟨true, false, false⟩ .pointer (.builtin .none "int"))

/-- A pointer to an rvalue reference to a reference: the three ampersands fuse in another way. -/
theorem sigils_declared_reference :
    ∃ t loc sc,
      Gives (externalDeclaration ⟨1, 35⟩ ⟨[("R", .synonym .none "R" constantReference)], {}⟩
        referenceTokens) ([⟨some "x", t, none, loc⟩], sc) [] ∧
      t.desugar.sigils = [⟨.pointer, ⟨true, false, false⟩⟩, ⟨.lvalueReference, .none⟩,
        ⟨.rvalueReference, .none⟩, ⟨.pointer, .none⟩] ∧
      ∃ id r id' r' env k₀ front behind,
        Registry.register t { context := sc.context } = (id, r) ∧
        r.register (.builtin .none "int") = (id', r') ∧
        Environment.ofEntries r'.table.types {} = (.ok env, k₀) ∧
        TokensOf (env.declare id "x" k₀).1 (front ++ [.mark .star, .keyword (.qualifier .constant),
          .mark .ampAmp, .mark .amp, .mark .star, .ident "x"] ++ behind) := by
  have htokens : tokenize (Text.bytes "typedef int * const & R; R && * x;") =
      .ok (referenceFront ++ referenceTokens, ⟨1, 35⟩) := by
    decide +kernel
  have hfront : declarations ⟨1, 35⟩ {} referenceFront =
      .ok ([⟨some "R", constantReference, some .typeSynonym, ⟨1, 13⟩⟩],
        ⟨[("R", .synonym .none "R" constantReference)], {}⟩) := by
    cbv
  have hspecs : Gives (specifiers ⟨1, 35⟩ {} ⟨[("R", .synonym .none "R" constantReference)], {}⟩
      referenceTokens) ({ named := some (.synonym .none "R" constantReference) },
        ⟨[("R", .synonym .none "R" constantReference)], {}⟩) (referenceTokens.drop 1) :=
    gives_specifiers_add _ rfl (gives_specifiers_end (heads_cons.2 trivial))
  have hcs : Sigil.Spells [.mark .ampAmp, .mark .star]
      [⟨.rvalueReference, .ofWords []⟩, ⟨.pointer, .ofWords []⟩] :=
    .cons (k := .rvalueReference) (by decide) []
      (.cons (k := .pointer) (by decide) [] .nil)
  obtain ⟨t, loc, sc, hgives, hpointed, hsigils, hrender⟩ := sigils_declared .empty htokens hfront
    (T := [⟨.mark .ampAmp, ⟨1, 28⟩⟩, ⟨.mark .star, ⟨1, 31⟩⟩]) (R := [])
    hspecs rfl hcs rfl rfl .quiet
  obtain ⟨id, r, id', r', env, k₀, hr, hr', henv, htext⟩ := hrender (.builtin .none "int")
    (.builtin ⟨[.int], rfl⟩) hpointed.symm
  obtain ⟨⟨front, behind, -, hdeclare⟩, -, -⟩ := htext k₀ .refl
  refine ⟨t, loc, sc, hgives, hsigils, id, r, id', r', env, k₀, front, behind, hr, hr', henv, ?_⟩
  rw [CType.wrappedKinds, CType.isEnclosed, hpointed, hsigils] at hdeclare
  exact hdeclare

/-- A reference to a reference, and a reference of the other kind. -/
def ampersandDeclarations : List Declaration :=
  [⟨some "x", .pointer .none .lvalueReference (.pointer .none .lvalueReference
      (.builtin .none "int")), none, ⟨1, 5⟩⟩,
    ⟨some "y", .pointer .none .rvalueReference (.builtin .none "int"), none, ⟨1, 16⟩⟩]

/-- **Two ampersands run together.** A reference to a reference is declared with the tokens of
another reference, in the same text. -/
theorem ampersands_run_together :
    parseSource "int & & x; int && y;" = .ok (ampersandDeclarations, {}) ∧
      ∃ env k₀,
        let r := (registerAll { context := {} } ampersandDeclarations).2
        Environment.ofEntries r.table.types {} = (.ok env, k₀) ∧
        (∀ d ∈ ampersandDeclarations,
          (env.declare (r.ledger.idOf d.type) "x" k₀).1 = "int &&x") ∧
        TokensOf "int &&x" [.keyword (.builtin .int), .mark .ampAmp, .ident "x"] := by
  have htokens : tokenize "int & & x; int && y;".toUTF8.toList =
      .ok ([⟨.keyword (.builtin .int), ⟨1, 1⟩⟩, ⟨.mark .amp, ⟨1, 5⟩⟩, ⟨.mark .amp, ⟨1, 7⟩⟩,
        ⟨.ident "x", ⟨1, 9⟩⟩, ⟨.mark .semicolon, ⟨1, 10⟩⟩, ⟨.keyword (.builtin .int), ⟨1, 12⟩⟩,
        ⟨.mark .ampAmp, ⟨1, 16⟩⟩, ⟨.ident "y", ⟨1, 19⟩⟩, ⟨.mark .semicolon, ⟨1, 20⟩⟩],
        ⟨1, 21⟩) := by
    decide +kernel
  have hparse : parseSource "int & & x; int && y;" = .ok (ampersandDeclarations, {}) := by
    rw [parseSource, parseBytes, htokens]
    cbv
  have hfresh : ({ context := {} } : Registry).Fresh := ⟨rfl, rfl, rfl, rfl, rfl⟩
  have hplain : ({ context := {} } : Registry).Plain := ⟨hfresh.kept, rfl, rfl, rfl, rfl⟩
  obtain ⟨-, -, hknown, -⟩ := Registry.registerAll_spec hplain.unrenamed ampersandDeclarations
  have hp := hplain.registerAll ampersandDeclarations
  obtain ⟨env, k₀, tagOf, hload, hl⟩ := Registry.loaded_ofEntries hp
  have hint : (CType.builtin .none "int").Spelt .all {} := .builtin ⟨[.int], rfl⟩
  refine ⟨hparse, env, k₀, hload, fun d hd => ?_, ?_⟩
  · have hk := hknown d hd
    simp only [ampersandDeclarations, List.mem_cons, List.not_mem_nil, or_false] at hd
    rcases hd with rfl | rfl
    · exact Registry.declare_over_builtin (V := .all) hp hl
        ⟨.pointer (by decide) (.pointer (by decide) hint), rfl, hk⟩ rfl "x" k₀
    · exact Registry.declare_over_builtin (V := .all) hp hl
        ⟨.pointer (by decide) hint, rfl, hk⟩ rfl "x" k₀
  · have hword : Spelled "int" [.keyword (.builtin .int)] := BuiltinWord.spelled_word .int
    have hname : Spelled "x" [.ident "x"] := spelled_identifier (by decide)
    exact (hword.append (spelled_space (Spelled.mark .ampAmp (fun h => by cases h) hname))
      (clean_space _)).tokensOf

end TypeLedger
