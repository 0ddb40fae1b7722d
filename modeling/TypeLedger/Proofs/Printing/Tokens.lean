import TypeLedger.Proofs.Printing.Fresh
import TypeLedger.Proofs.Printing.Sigils
import TypeLedger.Proofs.Printing.Steps
import TypeLedger.Proofs.Tables.Transfer

/-!
# The tokens around a declarator

* `SetsTokens`: a computation puts the same tokens in front of every declarator, and the same behind
  it.
* `declareWith_pointed`: the declaration of a pointer is that of what it points at in the end, with
  the sigils around the name.
* `sets_spelt`: the declaration of a registered type that is no pointer sets tokens around the
  declarator, whatever the type and wherever the way is clear.
-/

namespace TypeLedger

/-! ## 1. Tokens in front and behind -/

/-- Over namings whose names are identifiers, the computation asks for names and puts the same
tokens in front of every declarator, and the same behind it. A `tight` one is only given declarators
that begin with no ampersand. -/
structure SetsTokens (taken : List String) (tight : Bool) (m : String → StateM Naming String) :
    Prop where
  asks : ∀ d, Asks (m d)
  frames : ∀ k : Naming, k.Distinct taken → ∃ front behind : List TokenKind,
    ∀ d ks, (tight = true → NoAmp d) → Spelled d ks → Spelled (m d k).1 (front ++ ks ++ behind)

namespace SetsTokens

variable {taken : List String} {tight tight' : Bool} {m : String → StateM Naming String}

theorem words (ws : List String) {kss : List (List TokenKind)} (h : List.Forall₂ Spelled ws kss) :
    SetsTokens taken tight fun d => pure (Fragment.ofWords (ws ++ [d])) := by
  refine ⟨fun d => asks_pure _, fun k _ => ⟨kss.flatten, [], fun d ks _ hd => ?_⟩⟩
  have := spelled_ofWords (List.rel_append h (.cons hd .nil))
  show Spelled (Fragment.ofWords (ws ++ [d])) _
  simpa using this

theorem incomplete : SetsTokens taken tight fun d => pure (Fragment.incomplete d) := by
  have hword : Spelled "INCOMPLETE_TYPE" [.ident "INCOMPLETE_TYPE"] :=
    spelled_identifier (by decide)
  refine ⟨fun d => asks_pure _, fun k _ =>
    ⟨[.ident "INCOMPLETE_TYPE", .mark .star], [], fun d ks _ hd => ?_⟩⟩
  have htext : Fragment.incomplete d = "INCOMPLETE_TYPE" ++ (" " ++ ("*" ++ d)) := by
    have hsplit : "INCOMPLETE_TYPE *" = "INCOMPLETE_TYPE" ++ (" " ++ "*") := by decide
    show "INCOMPLETE_TYPE *" ++ d = _
    rw [hsplit, String.append_assoc, String.append_assoc]
  have hstar := Spelled.mark .star (fun h => nomatch h) hd
  have := hword.append (spelled_space hstar) (clean_space _)
  rw [List.append_nil]
  show Spelled (Fragment.incomplete d) _
  rw [htext]
  exact this

theorem bind {α : Type} {x : StateM Naming α} {P : α → Prop} {m : α → String → StateM Naming String}
    (hx : Asks x) (hP : ∀ k : Naming, k.Distinct taken → P (x k).1) (hm : ∀ a d, Asks (m a d))
    (h : ∀ a, P a → SetsTokens taken tight (m a)) :
    SetsTokens taken tight fun d => x >>= fun a => m a d :=
  ⟨fun d => asks_bind hx fun a => hm a d,
    fun k hk => (h (x k).1 (hP k hk)).frames (x k).2 (hk.follows (hx k))⟩

theorem comp (h : SetsTokens taken tight m) {f : String → String}
    (ha : ∀ d, (tight' = true → NoAmp d) → tight = true → NoAmp (f d))
    (hf : ∃ front behind : List TokenKind, ∀ d ks, (tight' = true → NoAmp d) → Spelled d ks →
      Spelled (f d) (front ++ ks ++ behind)) : SetsTokens taken tight' fun d => m (f d) := by
  refine ⟨fun d => h.asks _, fun k hk => ?_⟩
  obtain ⟨front, behind, hf⟩ := hf
  obtain ⟨front', behind', hm⟩ := h.frames k hk
  refine ⟨front' ++ front, behind ++ behind', fun d ks hd hs => ?_⟩
  have := hm (f d) _ (ha d hd) (hf d ks hd hs)
  simpa only [List.append_assoc] using this

end SetsTokens

/-- A tag that is an identifier, or none yet, is answered with an identifier. -/
theorem isIdentifier_name {taken : List String} {k : Naming} (hk : k.Distinct taken) {tag : Tag}
    (h : ∀ n, tag = .named n → isIdentifier n = true) :
    isIdentifier (Naming.name tag k).1 = true := by
  cases tag with
  | named n => exact h n rfl
  | anonymous s =>
    have hlookup : (Naming.name (.anonymous s) k).2.given.lookup s =
        some (Naming.name (.anonymous s) k).1 := Naming.current?_name (.anonymous s) k
    exact ((hk.name (.anonymous s)).made s _ hlookup).2.2

theorem setsTokens_tagged {taken : List String} {tight : Bool} (quals : Qualifiers)
    {keyword : String} {ks : List TokenKind} (hkeyword : Spelled keyword ks) {tag : Tag}
    (h : ∀ n, tag = .named n → isIdentifier n = true) :
    SetsTokens taken tight (Environment.taggedDeclaration quals keyword tag) :=
  .bind (asks_name tag) (fun _ hk => isIdentifier_name hk h) (fun _ _ => asks_pure _) fun n hn =>
    .words [quals.spelling, keyword, n] (.cons quals.spelled_spelling
      (.cons hkeyword (.cons (spelled_identifier hn) .nil)))

namespace CType

theorem nodes_pointed_le (t : CType) : t.pointed.nodes ≤ t.nodes := by
  induction t using CType.pointed.induct with
  | case1 q k t ih => exact Nat.le_succ_of_le ih
  | case2 t ht => rw [(pointed_of_ne ht).1]

end CType

namespace Registry

variable {V : Vocabulary} {r : Registry} {env : Environment} {tagOf : TypeId → Tag} {k₀ : Naming}
  {t : CType} {q : Qualifiers}

/-! ## 2. Through pointers -/

section

variable (hp : r.Kept) (hl : r.Shows env tagOf)

include hp hl

theorem SpeltIn.pointed (h : r.SpeltIn V t) : r.SpeltIn V t.pointed := by
  induction t using CType.pointed.induct with
  | case1 q k t ih => exact ih (h.pointee hp hl)
  | case2 t ht =>
    rw [(CType.pointed_of_ne ht).1]
    exact h

/-- **The declaration of a pointer is that of what it points at in the end,** with the sigils around
the name (`CType.pointed`). The induction goes from the name inwards. -/
theorem declareWith_pointed (h : r.SpeltIn V t) (q : Qualifiers) {path : List TypeId}
    (hc : r.Clear path t.rank) :
    ∃ path', r.Clear path' (2 * t.pointed.nodes) ∧
      ∀ d, env.declareWith path q (r.ledger.idOf t) d =
        env.declareWith path' (t.withQuals (q.union t.quals)).pointed.quals
          (r.ledger.idOf t.pointed.unqualified) ((t.withQuals (q.union t.quals)).wrapped d) := by
  obtain ⟨path₁, hc₁, hd₁⟩ := h.declareWith_unqualified hp hl q hc
  induction t using CType.pointed.induct generalizing q path path₁ with
  | case1 p k t ih =>
    have ht := h.pointee hp hl
    obtain ⟨path₂, hc₂, hd₂⟩ := h.declareWith_pointer hp hl (q.union p) hc₁
    obtain ⟨path₃, hc₃, hd₃⟩ := ht.declareWith_unqualified hp hl .none hc₂
    obtain ⟨path', hc', hd'⟩ := ih ht .none hc₂ path₃ hc₃ hd₃
    rw [Qualifiers.none_union, CType.withQuals_quals] at hd'
    refine ⟨path', hc', fun d => ?_⟩
    rw [hd₁ d]
    exact (hd₂ d).trans ((hd' _).trans (by rw [← CType.wrapped_pointer]; rfl))
  | case2 t hnp =>
    have hself : ∀ p, (t.withQuals p).pointed = t.withQuals p ∧ (t.withQuals p).sigils = [] :=
      fun p => CType.pointed_of_ne fun q k u he => by
        cases t <;> first | exact absurd rfl (hnp _ _ _) | cases he
    have hpointed := (CType.pointed_of_ne hnp).1
    refine ⟨path₁, by rwa [hpointed], fun d => ?_⟩
    have hwrapped : (t.withQuals (q.union t.quals)).wrapped d = d := by
      rw [CType.wrapped, CType.isEnclosed, (hself _).2, List.isEmpty_nil, Bool.not_true,
        Bool.and_false, if_neg Bool.false_ne_true]
      rfl
    rw [hd₁ d, hwrapped, (hself _).1, CType.quals_withQuals, hpointed]

end

/-! ## 3. Every declaration sets tokens -/

/-- Wherever the way is clear for the type without its qualifiers, its declaration is one
computation, which sets tokens around the declarator. -/
def SetsBare (r : Registry) (env : Environment) (taken : List String) (t : CType) : Prop :=
  ∀ q : Qualifiers, ∃ m : String → StateM Naming String, SetsTokens taken t.isTight m ∧
    ∀ path, r.Clear path (2 * t.nodes) →
      ∀ d, env.declareWith path q (r.ledger.idOf t.unqualified) d = m d

/-- Wherever the way is clear for the type, its declaration is one computation, which sets tokens
around the declarator. -/
def Sets (r : Registry) (env : Environment) (taken : List String) (t : CType) : Prop :=
  ∀ q : Qualifiers, ∃ m : String → StateM Naming String, SetsTokens taken true m ∧
    ∀ path, r.Clear path t.rank → ∀ d, env.declareWith path q (r.ledger.idOf t) d = m d

variable {taken : List String}

theorem isTight_withQuals (t : CType) (p : Qualifiers) :
    (t.withQuals p).pointed.isTight = t.pointed.isTight := by
  cases t <;> rfl

/-- A name for a row's aggregate is an identifier. -/
theorem Loaded.ident_tag (hl : r.Loaded env tagOf k₀) {row : Row} (hm : row ∈ r.ledger.rows)
    {name : Option String} (ht : r.context.tagName? row.type = some name)
    (hi : ∀ n, name = some n → isIdentifier n = true) :
    ∀ n, tagOf row.id = .named n → isIdentifier n = true := by
  intro n hn
  cases name with
  | some m =>
    have hne : m ≠ "" := by
      rintro rfl
      exact absurd (hi "" rfl) (by decide)
    have htag := (hl.named row hm m hne ht).1
    obtain rfl := Tag.named.inj (htag.symm.trans hn)
    exact hi m rfl
  | none =>
    obtain ⟨s, hs⟩ := hl.anonymous row hm ht
    cases hs.symm.trans hn

section

variable (hp : r.Plain) (hl : r.Loaded env tagOf k₀)

include hp hl

/-- A declaration `Sets` tokens if the declaration of what the type points at does. -/
theorem sets_of_pointed (h : r.SpeltIn V t) (hb : r.SetsBare env taken t.pointed) :
    r.Sets env taken t := by
  intro q
  obtain ⟨m, hm, hd⟩ := hb (t.withQuals (q.union t.quals)).pointed.quals
  refine ⟨fun d => m ((t.withQuals (q.union t.quals)).wrapped d), hm.comp ?_ ?_, ?_⟩
  · intro d ha ht
    exact CType.noAmp_wrapped _ (ha rfl) ((isTight_withQuals t _).trans ht)
  · exact ⟨_, _, fun d ks ha hs =>
      CType.spelled_wrapped (t.withQuals (q.union t.quals)) hs (ha rfl)⟩
  · intro path hc d
    obtain ⟨path', hc', he⟩ := declareWith_pointed hp.kept hl.toShows h q hc
    rw [he, hd path' hc']

omit hp hl in
/-- Parameters without names are declared one after the other, as texts that lex. -/
theorem sets_params {ts : List CType} (h : ∀ t ∈ ts, r.Sets env taken t) :
    ∃ x : StateM Naming (List String), Asks x ∧
      (∀ k : Naming, k.Distinct taken → ∃ kss, List.Forall₂ Spelled (x k).1 kss) ∧
      ∀ path, (∀ t ∈ ts, r.Clear path t.rank) →
        env.declareParams path (ts.map fun t => ⟨r.ledger.idOf t, none⟩) = x := by
  induction ts with
  | nil =>
    refine ⟨pure [], asks_pure _, fun k _ => ⟨[], .nil⟩, fun path _ => ?_⟩
    rw [List.map_nil, Environment.declareParams]
  | cons t ts ih =>
    obtain ⟨m, hm, hd⟩ := h t List.mem_cons_self .none
    obtain ⟨x, hx, hspelled, he⟩ := ih fun u hu => h u (List.mem_cons_of_mem _ hu)
    refine ⟨m "" >>= fun text => x >>= fun texts => pure (text :: texts),
      asks_bind (hm.asks "") fun _ => asks_bind hx fun _ => asks_pure _, fun k hk => ?_,
      fun path hc => ?_⟩
    · obtain ⟨front, behind, hf⟩ := hm.frames k hk
      obtain ⟨kss, hkss⟩ := hspelled (m "" k).2 (hk.follows (hm.asks "" k))
      exact ⟨_, .cons (hf "" [] (fun _ => noAmp_empty) spelled_empty) hkss⟩
    · have htext := hd path (hc t List.mem_cons_self) ""
      rw [List.map_cons, Environment.declareParams,
        he path fun u hu => hc u (List.mem_cons_of_mem _ hu)]
      show (env.declareWith path .none (r.ledger.idOf t) "" >>= _) = _
      rw [htext]

theorem setsBare_builtin {s : String} (h : r.SpeltIn V (.builtin q s)) :
    r.SetsBare env taken (.builtin q s) := by
  intro p
  have hs : ∃ ws, BuiltinWord.canonical? ws = some s := by
    cases h.spelt with
    | builtin hs => exact hs
  exact ⟨_, .words [p.spelling, s] (.cons p.spelled_spelling (.cons (spelled_builtin hs) .nil)),
    fun path hc d => h.declareWith_builtin hp.kept hl.toShows p hc d⟩

theorem setsBare_record (hctx : r.context.Tidy V) {id : RecordId}
    (h : r.SpeltIn V (.record q id)) : r.SetsBare env taken (.record q id) := by
  obtain ⟨row, hm, d, hrt, hd, -, hdeclare⟩ := h.declareWith_record hp.kept hl.toShows
  have hname : r.context.tagName? row.type = some d.name := by
    rw [hrt, Context.tagName?]
    simp [CType.quals, Context.classify, hd, Qualifiers.none, Qualifiers.isEmpty]
  have hident := hl.ident_tag hm hname fun n hn => V.isIdentifier n (hctx.tags id _ n hd hn).2
  exact fun p => ⟨_, setsTokens_tagged p d.key.spelled_word hident, fun path hc => hdeclare p hc⟩

theorem setsBare_enumeration (hctx : r.context.Tidy V) {id : EnumId}
    (h : r.SpeltIn V (.enumeration q id)) : r.SetsBare env taken (.enumeration q id) := by
  obtain ⟨row, hm, hrt, -, hdeclare⟩ := h.declareWith_enumeration hp.kept hl.toShows
  have hname : r.context.tagName? row.type = some ((r.context.enum? id).bind EnumDecl.name) := by
    rw [hrt, Context.tagName?]
    rfl
  have hident := hl.ident_tag hm hname fun n hn => by
    obtain ⟨d, hd, hdn⟩ := Option.bind_eq_some_iff.1 hn
    exact V.isIdentifier n (hctx.enumTags id d n hd hdn).2
  exact fun p => ⟨_, setsTokens_tagged p spelled_enum hident, fun path hc => hdeclare p hc⟩

theorem setsBare_complex (h : r.SpeltIn V (.complex q t)) :
    r.SetsBare env taken (.complex q t) :=
  fun p => ⟨_, .incomplete, fun _ hc d => h.declareWith_complex hp.kept hl.toShows p hc d⟩

theorem setsBare_array {n : ArraySize} (h : r.SpeltIn V (.array q n t))
    (ht : r.Sets env taken t) : r.SetsBare env taken (.array q n t) := by
  intro p
  obtain ⟨m, hm, hd⟩ := ht p
  refine ⟨fun d => m (Environment.arrayDeclarator n d), hm.comp
    (fun d ha _ => noAmp_arrayDeclarator n (ha rfl))
    ⟨[], arrayKinds n, fun d ks _ hs => spelled_arrayDeclarator n hs⟩, fun path hc d => ?_⟩
  obtain ⟨path', hc', hstep⟩ := h.declareWith_array hp.kept hl.toShows p hc
  rw [hstep, hd path' hc']

theorem setsBare_function {ps : List CType} {v : Bool} (h : r.SpeltIn V (.function q t ps v))
    (ht : r.Sets env taken t) (hps : ∀ p ∈ ps, r.Sets env taken p) :
    r.SetsBare env taken (.function q t ps v) := by
  intro p
  obtain ⟨m, hm, hd⟩ := ht .none
  obtain ⟨x, hx, hspelled, he⟩ := sets_params hps
  refine ⟨fun d => x >>= fun texts => m (Environment.functionDeclarator texts v d),
    .bind (P := fun texts => ∃ kss, List.Forall₂ Spelled texts kss) hx hspelled
      (fun _ _ => hm.asks _) fun texts ⟨kss, hkss⟩ => hm.comp
      (fun d ha _ => noAmp_functionDeclarator v (ha rfl))
      ⟨[], functionKinds kss v, fun d ks _ hs => spelled_functionDeclarator v hs hkss⟩,
    fun path hc d => ?_⟩
  obtain ⟨path', hc', hcs, hstep⟩ := h.declareWith_function hp.kept hl.toShows p hc
  rw [hstep, he path' hcs]
  exact congrArg (x >>= ·) (funext fun texts => hd path' hc' _)

/-- **The declaration of a registered type sets tokens around the declarator** (`SetsBare`). The
induction is on the size of the type; what an array, a function or a pointer leads to is smaller. -/
theorem sets_spelt (hctx : r.context.Tidy V) {t : CType} (h : r.SpeltIn V t)
    (hnp : ∀ q k u, t ≠ .pointer q k u) : r.SetsBare env taken t := by
  have sub : ∀ c : CType, r.SpeltIn V c → c.nodes < t.nodes → r.Sets env taken c :=
    fun c hc hlt => sets_of_pointed hp hl hc
      (sets_spelt hctx (hc.pointed hp.kept hl.toShows) c.pointed_ne_pointer)
  cases h.spelt with
  | builtin hs => exact setsBare_builtin hp hl h
  | record hid => exact setsBare_record hp hl hctx h
  | enumeration hid => exact setsBare_enumeration hp hl hctx h
  | pointer hk ht => exact absurd rfl (hnp _ _ _)
  | array ht =>
    exact setsBare_array hp hl h (sub _ (h.element hp.kept hl.toShows) (Nat.lt_succ_self _))
  | function ht hps =>
    obtain ⟨hst, hsps⟩ := h.signature hp.kept hl.toShows
    refine setsBare_function hp hl h (sub _ hst (by rw [CType.nodes]; omega)) fun p hm =>
      sub p (hsps p hm) ?_
    have := CType.nodes_le_nodesAll hm
    rw [CType.nodes]
    omega
  | synonym ht => cases h.canonical
  | complex hV ht => exact setsBare_complex hp hl h
termination_by t.nodes
decreasing_by exact Nat.lt_of_le_of_lt c.nodes_pointed_le hlt

end

end Registry

end TypeLedger
