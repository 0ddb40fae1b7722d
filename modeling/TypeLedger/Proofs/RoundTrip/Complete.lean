import Mathlib
import TypeLedger.Proofs.Grammar.Keeps
import TypeLedger.Proofs.Printing.Closed
import TypeLedger.Proofs.RoundTrip.Generation

/-!
# Sources without complex types

* `render_free`: a source without complex types is listed in a table whose types all resolve, and
  the table is rendered without a placeholder.
-/

namespace TypeLedger

/-- **A source is listed and rendered without a placeholder,** if no word of it asks for a complex
type and none of its identifiers has the placeholder in it (`Free`). What its declarations, members
and base clauses refer to resolves (`Resolves`, `Closed`): every identifier met has a record and is
never met again on the way. -/
theorem render_free (files : Files) {s : Settings} (hr : s.renames = none)
    (ht : s.noTable = false) {source : String} {ds : List Declaration} {sc : Scope}
    (hp : parseSource source = .ok (ds, sc)) {ts : List Token} {stop : Location}
    (hts : tokenize source.toUTF8.toList = .ok (ts, stop))
    (hcomplex : ∀ t ∈ ts, t.kind ≠ .keyword .complex)
    (hnames : ∀ t ∈ ts, ∀ n, t.kind = .ident n → Free n) :
    ∃ g env k text,
      (generateFrom files s source).result.1 = .ok g ∧
      Environment.ofEntries g.table.types {} = (.ok env, k) ∧
      (∀ d ∈ ds, env.Resolves [] ((registered s ds sc).ledger.idOf d.type)) ∧
      (∀ symbol ∈ g.table.globals, env.Resolves [] symbol.type) ∧ env.Closed ∧
      (∀ s', (render s' g.table).result.1 = .ok text) ∧ Free text := by
  obtain ⟨hw, hctx, hds⟩ := tidy_parseSource hp hts
  obtain ⟨hu, hcontext, hknown, -⟩ := registered_unrenamed s ds sc
  obtain ⟨env, k, tagOf, hof, ho⟩ := Registry.opened_ofEntries hu {}
  have hV : ¬ (Vocabulary.ofTokens ts hw).complex := fun ⟨t, hm, hk⟩ => hcomplex t hm hk
  have hident : ∀ n, (Vocabulary.ofTokens ts hw).ident n → Free n :=
    fun n ⟨t, hm, hk⟩ => hnames t hm n hk
  rw [← hcontext] at hctx hds
  have hadded : (registered s ds sc).added = {} := Registry.added_registerAll _ ds
  have hgiven : (registered s ds sc).ledger.naming.given = [] := Registry.given_registerAll _ ds
  have hclosed := ho.closed hu hctx hV hadded
  have hfree := ho.free hu hctx hgiven hident
  have hresolves : ∀ d ∈ ds, env.Resolves [] ((registered s ds sc).ledger.idOf d.type) :=
    fun d hd => Registry.resolves_of_known hu.kept ho.toShows hV (hds d hd).type (hknown d hd)
  have hsymbols : ∀ symbol ∈ (registered s ds sc).symbols (globalsOf ds),
      env.Resolves [] symbol.type ∧ Free (symbol.name.getD "") := by
    intro symbol hm
    obtain ⟨⟨n, t⟩, hg, rfl⟩ := List.mem_map.1 hm
    obtain ⟨d, hd, hn, rfl⟩ := exists_of_mem_globalsOf hg
    exact ⟨hresolves d hd, hident n ((hds d hd).name n hn)⟩
  have hnone : k.Free := Naming.free_of_given_nil ho.tags.given
  have hlines := (Environment.answers_lines hfree hclosed hsymbols k hnone).2
  let table : Table :=
    ⟨(registered s ds sc).table.types, (registered s ds sc).symbols (globalsOf ds)⟩
  exact ⟨_, env, k, _, (generateFrom_yields files hr ht hp).result, hof, hresolves,
    fun symbol hm => (hsymbols symbol hm).1, hclosed,
    fun s' => (render_yields (t := table) s' hof).result, free_linesText hlines⟩

/-- A class and a struct that refer to each other, and a class with a base. -/
def mutualSource : String :=
  "class N \x7b struct P *p; \x7d; struct P \x7b int (*f)(N &, ...); \x7d; "
    ++ "class D : public N \x7b\x7d d;"

def mutualTokens : List Token :=
  [⟨.keyword (.record .classKey), ⟨1, 1⟩⟩, ⟨.ident "N", ⟨1, 7⟩⟩, ⟨.mark .braceOpen, ⟨1, 9⟩⟩,
    ⟨.keyword (.record .structKey), ⟨1, 11⟩⟩, ⟨.ident "P", ⟨1, 18⟩⟩, ⟨.mark .star, ⟨1, 20⟩⟩,
    ⟨.ident "p", ⟨1, 21⟩⟩, ⟨.mark .semicolon, ⟨1, 22⟩⟩, ⟨.mark .braceClose, ⟨1, 24⟩⟩,
    ⟨.mark .semicolon, ⟨1, 25⟩⟩, ⟨.keyword (.record .structKey), ⟨1, 27⟩⟩, ⟨.ident "P", ⟨1, 34⟩⟩,
    ⟨.mark .braceOpen, ⟨1, 36⟩⟩, ⟨.keyword (.builtin .int), ⟨1, 38⟩⟩, ⟨.mark .parenOpen, ⟨1, 42⟩⟩,
    ⟨.mark .star, ⟨1, 43⟩⟩, ⟨.ident "f", ⟨1, 44⟩⟩, ⟨.mark .parenClose, ⟨1, 45⟩⟩,
    ⟨.mark .parenOpen, ⟨1, 46⟩⟩, ⟨.ident "N", ⟨1, 47⟩⟩, ⟨.mark .amp, ⟨1, 49⟩⟩,
    ⟨.mark .comma, ⟨1, 50⟩⟩, ⟨.mark .ellipsis, ⟨1, 52⟩⟩, ⟨.mark .parenClose, ⟨1, 55⟩⟩,
    ⟨.mark .semicolon, ⟨1, 56⟩⟩, ⟨.mark .braceClose, ⟨1, 58⟩⟩, ⟨.mark .semicolon, ⟨1, 59⟩⟩,
    ⟨.keyword (.record .classKey), ⟨1, 61⟩⟩, ⟨.ident "D", ⟨1, 67⟩⟩, ⟨.mark .colon, ⟨1, 69⟩⟩,
    ⟨.keyword (.access .pub), ⟨1, 71⟩⟩, ⟨.ident "N", ⟨1, 78⟩⟩, ⟨.mark .braceOpen, ⟨1, 80⟩⟩,
    ⟨.mark .braceClose, ⟨1, 81⟩⟩, ⟨.ident "d", ⟨1, 83⟩⟩, ⟨.mark .semicolon, ⟨1, 84⟩⟩]

def mutualDeclarations : List Declaration :=
  [⟨none, .record .none ⟨0⟩, none, ⟨1, 1⟩⟩, ⟨none, .record .none ⟨1⟩, none, ⟨1, 27⟩⟩,
    ⟨some "d", .record .none ⟨2⟩, none, ⟨1, 83⟩⟩]

def mutualScope : Scope where
  names := [("N", .record .none ⟨0⟩), ("D", .record .none ⟨2⟩)]
  context :=
    ⟨[⟨.classKey, some "N",
        some [⟨some "p", .pointer .none .pointer (.record .none ⟨1⟩), some .priv, none⟩], []⟩,
      ⟨.structKey, some "P",
        some [⟨some "f", .pointer .none .pointer (.function .none (.builtin .none "int")
          [.pointer .none .lvalueReference (.record .none ⟨0⟩)] true), none, none⟩], []⟩,
      ⟨.classKey, some "D", some [], [⟨.record .none ⟨0⟩, .pub, false⟩]⟩], []⟩

theorem tokenize_mutual : tokenize mutualSource.toUTF8.toList = .ok (mutualTokens, ⟨1, 85⟩) := by
  decide +kernel

theorem parse_mutual : parseSource mutualSource = .ok (mutualDeclarations, mutualScope) := by
  rw [parseSource, parseBytes, tokenize_mutual]
  cbv

theorem render_free_mutual :
    ∃ g env k text,
      (generateFrom (fun _ => .error "") { input := "input.h", label := true }
        mutualSource).result.1 = .ok g ∧
      Environment.ofEntries g.table.types {} = (.ok env, k) ∧
      (∀ d ∈ mutualDeclarations, env.Resolves []
        ((registered { input := "input.h", label := true } mutualDeclarations
          mutualScope).ledger.idOf d.type)) ∧
      (∀ symbol ∈ g.table.globals, env.Resolves [] symbol.type) ∧ env.Closed ∧
      (∀ s', (render s' g.table).result.1 = .ok text) ∧ Free text := by
  have hfree : ∀ t ∈ mutualTokens, ∀ n, t.kind = .ident n → Free n := by
    have hnames : Free "N" ∧ Free "P" ∧ Free "p" ∧ Free "f" ∧ Free "D" ∧ Free "d" := by
      decide +kernel
    simp [mutualTokens, hnames]
  exact render_free (fun _ => .error "") rfl rfl parse_mutual tokenize_mutual (by decide) hfree

end TypeLedger
