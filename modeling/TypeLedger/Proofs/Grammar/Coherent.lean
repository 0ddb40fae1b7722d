import Mathlib
import TypeLedger.Proofs.Grammar.Keeps

/-!
# Records and their keywords

* A record has the keyword of the first mention of its tag. What stands in its body follows the
  keyword at the definition.
* `fits_parseSource`: where the tag stands behind one keyword only, the members and the bases of the
  record are such as stand behind its keyword.
* `class_with_bare_member`: behind another keyword, a class gets a member without an access.
-/

namespace TypeLedger

/-- The keyword stands in front of the name somewhere among the tokens. -/
def Mentions (ts : List Token) (key : RecordKey) (n : String) : Prop :=
  [.keyword (.record key), .ident n] <:+: ts.map Token.kind

instance (ts : List Token) (key : RecordKey) (n : String) : Decidable (Mentions ts key n) :=
  inferInstanceAs (Decidable (_ <:+: _))

variable {source : String} {ds : List Declaration} {sc : Scope} {ts : List Token} {stop : Location}
  {id : RecordId} {d : RecordDecl}

/-- The keyword of a record stands in front of its tag. -/
theorem mentions_key (h : parseSource source = .ok (ds, sc))
    (hts : tokenize source.toUTF8.toList = .ok (ts, stop)) (hd : sc.context.record? id = some d)
    {n : String} (hn : d.name = some n) : Mentions ts d.key n := by
  obtain ⟨hw, hctx, -⟩ := tidy_parseSource h hts
  exact (hctx.records id d hd).tagged n hn

/-- **Records are coherent where their tags are.** If the tag of a record stands behind one keyword
only (`Mentions`), or the record has none, then it is as `RecordKey.Fits` says: the members of a
class have an access each, those of a struct or a union have none, and a struct or a union has no
bases. -/
theorem fits_parseSource (h : parseSource source = .ok (ds, sc))
    (hts : tokenize source.toUTF8.toList = .ok (ts, stop)) (hd : sc.context.record? id = some d)
    (hone : ∀ n, d.name = some n →
      ∀ key key', Mentions ts key n → Mentions ts key' n → key = key') :
    d.key.Fits (d.members.getD []) d.bases := by
  obtain ⟨hw, hctx, -⟩ := tidy_parseSource h hts
  have htidy := hctx.records id d hd
  cases hms : d.members with
  | none =>
    rw [htidy.incomplete hms]
    exact ⟨fun m hm => (nomatch hm), fun _ => rfl⟩
  | some ms =>
    obtain ⟨key, hfits, hnone, hsome⟩ := htidy.body ms hms
    have hkey : key = d.key := by
      cases hn : d.name with
      | none => exact hnone hn
      | some n => exact hone n hn key d.key (hsome n hn) (mentions_key h hts hd hn)
    rw [hkey] at hfits
    exact hfits

/-- A class that is mentioned before its body, which has a base. -/
def derivedSource : String :=
  "class C; class B \x7b C *c; \x7d; class C : public B \x7b int x; \x7d;"

def derivedTokens : List Token :=
  [⟨.keyword (.record .classKey), ⟨1, 1⟩⟩, ⟨.ident "C", ⟨1, 7⟩⟩, ⟨.mark .semicolon, ⟨1, 8⟩⟩,
    ⟨.keyword (.record .classKey), ⟨1, 10⟩⟩, ⟨.ident "B", ⟨1, 16⟩⟩, ⟨.mark .braceOpen, ⟨1, 18⟩⟩,
    ⟨.ident "C", ⟨1, 20⟩⟩, ⟨.mark .star, ⟨1, 22⟩⟩, ⟨.ident "c", ⟨1, 23⟩⟩,
    ⟨.mark .semicolon, ⟨1, 24⟩⟩, ⟨.mark .braceClose, ⟨1, 26⟩⟩, ⟨.mark .semicolon, ⟨1, 27⟩⟩,
    ⟨.keyword (.record .classKey), ⟨1, 29⟩⟩, ⟨.ident "C", ⟨1, 35⟩⟩, ⟨.mark .colon, ⟨1, 37⟩⟩,
    ⟨.keyword (.access .pub), ⟨1, 39⟩⟩, ⟨.ident "B", ⟨1, 46⟩⟩, ⟨.mark .braceOpen, ⟨1, 48⟩⟩,
    ⟨.keyword (.builtin .int), ⟨1, 50⟩⟩, ⟨.ident "x", ⟨1, 54⟩⟩, ⟨.mark .semicolon, ⟨1, 55⟩⟩,
    ⟨.mark .braceClose, ⟨1, 57⟩⟩, ⟨.mark .semicolon, ⟨1, 58⟩⟩]

theorem tokenize_derived :
    tokenize derivedSource.toUTF8.toList = .ok (derivedTokens, ⟨1, 59⟩) := by
  decide +kernel

/-- The class as its body leaves it. -/
def derivedRecord : RecordDecl where
  key := .classKey
  name := some "C"
  members := some [⟨some "x", .builtin .none "int", some .priv, none⟩]
  bases := [⟨.record .none ⟨1⟩, .pub, false⟩]

theorem parse_derived : ∃ ds sc, parseSource derivedSource = .ok (ds, sc) ∧
    sc.context.record? ⟨0⟩ = some derivedRecord := by
  let c : MemberDecl :=
    ⟨some "c", .pointer .none .pointer (.record .none ⟨0⟩), some .priv, none⟩
  refine ⟨[⟨none, .record .none ⟨0⟩, none, ⟨1, 1⟩⟩, ⟨none, .record .none ⟨1⟩, none, ⟨1, 10⟩⟩,
    ⟨none, .record .none ⟨0⟩, none, ⟨1, 29⟩⟩],
    ⟨[("C", .record .none ⟨0⟩), ("B", .record .none ⟨1⟩)],
      ⟨[derivedRecord, ⟨.classKey, some "B", some [c], []⟩], []⟩⟩, ?_, rfl⟩
  rw [parseSource, parseBytes, tokenize_derived]
  cbv

theorem fits_derived :
    ∃ ds sc, parseSource derivedSource = .ok (ds, sc) ∧
      tokenize derivedSource.toUTF8.toList = .ok (derivedTokens, ⟨1, 59⟩) ∧
      sc.context.record? ⟨0⟩ = some derivedRecord ∧
      derivedRecord.key.Fits (derivedRecord.members.getD []) derivedRecord.bases := by
  obtain ⟨ds, sc, hparse, hd⟩ := parse_derived
  refine ⟨ds, sc, hparse, tokenize_derived, hd, fits_parseSource hparse tokenize_derived hd ?_⟩
  intro n hn
  obtain rfl := Option.some.inj hn
  have hclass : ∀ key, Mentions derivedTokens key "C" → key = .classKey := by
    intro key
    cases key <;> decide
  intro key key' hkey hkey'
  rw [hclass key hkey, hclass key' hkey']

/-! ## A class behind another keyword -/

/-- A class whose body stands behind the keyword of structs. -/
def mixedSource : String := "class S; struct S \x7b int x; \x7d;"

/-- **A class is given a member without an access** if its body stands behind the keyword of
structs: the keyword of the record is that of the first mention, and `RecordKey.Fits` fails. -/
theorem class_with_bare_member :
    ∃ ds sc d, parseSource mixedSource = .ok (ds, sc) ∧ sc.context.record? ⟨0⟩ = some d ∧
      d.key = .classKey ∧ (∃ m ∈ d.members.getD [], m.access = none) ∧
      ¬ d.key.Fits (d.members.getD []) d.bases := by
  have htokens : tokenize mixedSource.toUTF8.toList = .ok
      ([⟨.keyword (.record .classKey), ⟨1, 1⟩⟩, ⟨.ident "S", ⟨1, 7⟩⟩, ⟨.mark .semicolon, ⟨1, 8⟩⟩,
        ⟨.keyword (.record .structKey), ⟨1, 10⟩⟩, ⟨.ident "S", ⟨1, 17⟩⟩,
        ⟨.mark .braceOpen, ⟨1, 19⟩⟩, ⟨.keyword (.builtin .int), ⟨1, 21⟩⟩, ⟨.ident "x", ⟨1, 25⟩⟩,
        ⟨.mark .semicolon, ⟨1, 26⟩⟩, ⟨.mark .braceClose, ⟨1, 28⟩⟩,
        ⟨.mark .semicolon, ⟨1, 29⟩⟩], ⟨1, 30⟩) := by
    decide +kernel
  let m : MemberDecl := ⟨some "x", .builtin .none "int", none, none⟩
  refine ⟨[⟨none, .record .none ⟨0⟩, none, ⟨1, 1⟩⟩, ⟨none, .record .none ⟨0⟩, none, ⟨1, 10⟩⟩],
    ⟨[("S", .record .none ⟨0⟩)], ⟨[⟨.classKey, some "S", some [m], []⟩], []⟩⟩, _, ?_, rfl, rfl,
    ⟨m, List.mem_singleton_self m, rfl⟩, fun h => ?_⟩
  · rw [parseSource, parseBytes, htokens]
    cbv
  · have haccess := (h.access m (List.mem_singleton_self m)).2 rfl
    cases haccess

end TypeLedger
