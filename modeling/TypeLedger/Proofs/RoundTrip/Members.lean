import Mathlib
import TypeLedger.Proofs.RoundTrip.Program

/-!
# Definitions there and back

* `MemberDecl.face`: what a member is called, and how wide it is.
* `definition_reread`: in the rendering of any source's table, the lines up to the definition of a
  record are read as a program with this record. Its members are those that the definition shows, in
  order; none is lost if and only if every member is kept.
* `anonymous_member_is_lost`: a member that is nothing but a struct without a tag is not kept. The
  struct has a name by then, and the line of the member only mentions it.
-/

namespace TypeLedger

/-! ## 1. Members in order -/

/-- What a member is called, and how wide it is. -/
def MemberDecl.face (m : MemberDecl) : Option String × Option UInt32 := (m.name, m.bitWidth)

variable {V : Vocabulary} {l : Labels} {ctx : Context}

/-- Members that match have the same faces. -/
theorem faces_of_matches {ms ms' : List MemberDecl}
    (h : List.Forall₂ (MemberDecl.Matches l ctx) ms ms') :
    ms'.map MemberDecl.face = ms.map MemberDecl.face := by
  have hfaces : List.Forall₂ (fun m m' => m.face = m'.face) ms ms' :=
    h.imp fun m m' hm => Prod.ext hm.name.symm hm.bitWidth.symm
  have heq := List.forall₂_map_left_iff.2 (List.forall₂_map_right_iff.2 hfaces)
  rw [List.forall₂_eq_eq_eq] at heq
  exact heq.symm

/-- The members that stated members are read as are those that are `Kept`. -/
theorem faces_reread {ms : List MemberDecl} (h : ∀ m ∈ ms, m.type.Spelt V ctx) (key : RecordKey) :
    (rereadMembers key (ms.map MemberDecl.stated)).map MemberDecl.face =
      (ms.filter (·.Kept key)).map MemberDecl.face := by
  have hkept : ms.filter ((MemberDecl.Kept key) ∘ MemberDecl.stated) = ms.filter (·.Kept key) :=
    List.filter_congr fun m hm => MemberDecl.kept_stated (h m hm) key
  rw [rereadMembers, List.filter_map, hkept, List.map_map, List.map_map]
  rfl

/-- **What a record is read as** (`reread`) has the members that are `Kept`, in order. -/
theorem RecordDecl.faces_reread {d d' : RecordDecl}
    (h : ∀ m ∈ d.members.getD [], m.type.Spelt V ctx) {ctx' : Context}
    (hm : d.stated.reread.Matches l ctx' d') :
    (d'.members.getD []).map MemberDecl.face =
      ((d.members.getD []).filter (·.Kept d.key)).map MemberDecl.face := by
  rw [faces_of_matches hm.members, members_reread, members_stated]
  exact TypeLedger.faces_reread h d.key

/-- No member is lost if and only if every member is `Kept`. -/
theorem RecordDecl.length_members_iff {d d' : RecordDecl}
    (h : (d'.members.getD []).map MemberDecl.face =
      ((d.members.getD []).filter (·.Kept d.key)).map MemberDecl.face) :
    (d'.members.getD []).length = (d.members.getD []).length ↔
      ∀ m ∈ d.members.getD [], m.Kept d.key = true := by
  have hlength := congrArg List.length h
  rw [List.length_map, List.length_map] at hlength
  rw [hlength, List.length_filter_eq_length_iff]

/-- A member that is nothing but a record without a tag is not `Kept`. -/
theorem MemberDecl.not_kept_of_anonymous {sc : Scope} {m : MemberDecl} (hn : m.name = none)
    (hw : m.bitWidth = none) (ht : sc.isAnonymousRecord m.type = true) (key : RecordKey) :
    m.Kept key = false := by
  have hdeclarator : m.type.desugar.hasDeclarator = false := by
    cases htype : m.type with
    | record q id => rfl
    | _ => rw [htype] at ht; cases ht
  rw [Kept, Shown, hn, hw, hdeclarator, Option.isSome_none, Option.isSome_none, Bool.false_and,
    Bool.or_self, Bool.or_self, Bool.and_false]

/-! ## 2. The lines up to a definition -/

namespace Registry

variable {r : Registry} {env : Environment} {tagOf : TypeId → Tag} {k₀ : Naming}

/-- The lines are read as a program that has the record under its label, with the members that are
kept, in order: with all of them if and only if all are kept. -/
def Rereads (r : Registry) (l : Labels) (id : RecordId) (lines : List String) : Prop :=
  ∃ ds sc id' d', parseSource (linesText lines) = .ok (ds, sc) ∧
    sc.context.findRecord? (l.record id).2 = some id' ∧ sc.context.record? id' = some d' ∧
    (r.context.decl id).stated.reread.Matches l sc.context d' ∧
    (d'.members.getD []).map MemberDecl.face = (((r.context.decl id).members.getD []).filter
      (·.Kept (r.context.decl id).key)).map MemberDecl.face ∧
    ((d'.members.getD []).length = ((r.context.decl id).members.getD []).length ↔
      ∀ m ∈ (r.context.decl id).members.getD [], m.Kept (r.context.decl id).key = true)

/-- Somewhere in the `rendering` stands the definition of the record, and the lines up to it are
read as the record, provided that the definitions among them can be read. -/
def RereadsIn (r : Registry) (l : Labels) (id : RecordId) (rendering : Rendering) : Prop :=
  ∃ before text after, rendering.definitions =
      before ++ (r.ledger.idOf (.record .none id), text) :: after ∧
    ((∀ a, r.HasRecord a → (a = id ∨ r.ledger.idOf (.record .none a) ∈ before.map Prod.fst) →
        (r.context.decl a).Readable) →
      r.Rereads l id (rendering.forwards.map Prod.snd ++ before.map Prod.snd ++ [text]))

/-- **The lines of records are read as the last of those defined** (`Rereads`). -/
theorem rereads_recordTexts (hp : r.Plain) (hl : r.Loaded env tagOf k₀) (hctx : r.context.Tidy V)
    (hn : r.Names l) {done : List RecordId} {id : RecordId}
    (hids : ∀ a ∈ done ++ [id], r.HasRecord a) (honce : (done ++ [id]).Nodup)
    (hc : (r.context.decl id).isComplete = true)
    (hd : ∀ a ∈ done ++ [id], (r.context.decl a).Readable) :
    r.Rereads l id (r.recordTexts l (done ++ [id])) := by
  have hid : id ∈ done ++ [id] := List.mem_append_right _ (List.mem_singleton_self id)
  obtain ⟨sc, hbodied, hreads⟩ := reads_records hp hl hctx hn hids hd honce
  obtain ⟨ds, -, hparse⟩ :=
    parse_spelled (spelled_lines (spelled_recordTexts hp hl hctx hn hids hd)) hreads
  obtain ⟨id', d', hfind, hrecord, hmatch⟩ := hbodied.matches (hids id hid)
    (hn.key_decl (hids id hid)) (fun _ => (RecordDecl.isComplete_reread _).trans hc)
    fun hnot => absurd (List.mem_reverse.2 hid) hnot
  have hspelt : ∀ m ∈ (r.context.decl id).members.getD [], m.type.Spelt V r.context :=
    fun m hm => ((hids id hid).members_said hp hl hctx m hm).1.spelt
  have hfaces := RecordDecl.faces_reread hspelt hmatch
  exact ⟨ds, sc, id', d', hparse, hfind, hrecord, hmatch, hfaces,
    RecordDecl.length_members_iff hfaces⟩

/-- **In the `rendering` of a registry every record with a body is read** (`RereadsIn`), as far as
its definition goes. -/
theorem rereadsIn_rendering (hp : r.Plain) (hl : r.Loaded env tagOf k₀) (hctx : r.context.Tidy V)
    (hn : r.Names l) {order : List RecordId} (honce : order.Nodup)
    (horder : ∀ id, id ∈ order ↔ r.HasRecord id ∧ (r.context.decl id).isComplete = true)
    (globals : List (String × CType)) {id : RecordId} (hid : id ∈ order) :
    r.RereadsIn l id (r.rendering l order globals) := by
  obtain ⟨done, rest, rfl⟩ := List.append_of_mem hid
  let line := fun a => (r.ledger.idOf (.record .none a),
    definitionText l a (r.context.decl a).stated)
  have hsplit : done ++ id :: rest = (done ++ [id]) ++ rest := by simp
  have hknown : ∀ a ∈ done ++ [id], r.HasRecord a := fun a ha =>
    ((horder a).1 (hsplit ▸ List.mem_append_left rest ha)).1
  refine ⟨done.map line, _, rest.map line, List.map_append, fun hd => ?_⟩
  rw [forwards_rendering, List.map_map, List.append_assoc]
  have htexts : r.records.map (forwardText l) ++ (done.map (Prod.snd ∘ line) ++ [(line id).2]) =
      r.recordTexts l (done ++ [id]) := by
    rw [recordTexts, List.map_append]
    rfl
  rw [htexts]
  refine rereads_recordTexts hp hl hctx hn hknown
    (List.Nodup.of_append_left (hsplit ▸ honce)) ((horder id).1 hid).2
    fun a ha => hd a (hknown a ha) ?_
  rcases List.mem_append.1 ha with ha | ha
  · refine .inr ?_
    rw [List.map_map]
    exact List.mem_map_of_mem ha
  · exact .inl (List.mem_singleton.1 ha)

end Registry

/-! ## 3. Sources -/

/-- The table of a source is rendered under labels, and every record with a body is read. -/
theorem Registry.rereadsIn_registered {s : Settings} (hl : s.label = false) {source : String}
    {ds : List Declaration} {sc : Scope} (hp : parseSource source = .ok (ds, sc)) :
    ∃ env k l, Environment.ofEntries (registered s ds sc).table.types {} = (.ok env, k) ∧
      (registered s ds sc).Names l ∧
      (registered s ds sc).NamedBy ⟨(registered s ds sc).table.types,
        (registered s ds sc).symbols (globalsOf ds)⟩ l ∧
      ∀ id, (registered s ds sc).HasRecord id → (sc.context.decl id).isComplete = true →
        (registered s ds sc).RereadsIn l id
          (renderEnvironment env ((registered s ds sc).symbols (globalsOf ds)) k).1 := by
  obtain ⟨htidy, -, -⟩ := tidy_parseBytes Context.tidy_empty hp
  obtain ⟨hplain, hcontext, -, -⟩ := registered_spec hl ds sc
  have hctx : (registered s ds sc).context.Tidy .all := hcontext.symm ▸ htidy
  obtain ⟨env₀, k₀, tagOf, -, hloaded⟩ := Registry.loaded_ofEntries hplain
  obtain ⟨env, k, l, order, hload, hn, hnamed, honce, horder, htext⟩ :=
    Registry.render_rendering hplain hctx (fun g hg => (said_globals hl hp g hg).1)
      (t := ⟨(registered s ds sc).table.types, (registered s ds sc).symbols (globalsOf ds)⟩) rfl rfl
  refine ⟨env, k, l, hload, hn, hnamed, fun id hid hc => ?_⟩
  rw [← hcontext] at hc
  exact htext ▸ Registry.rereadsIn_rendering hplain hloaded hctx hn honce horder (globalsOf ds)
    ((horder id).2 ⟨hid, hc⟩)

/-- **Definitions go there and back.** A source is read, listed in a table and rendered; `Names`
gives each record of the registry its label, and `NamedBy` says that the table has it. The lines up
to the definition of a record are read as a program that has the record (`RereadsIn`), with the
members that are `Kept`, in order; it has as many as before if and only if all are kept. None is
that is nothing but a record without a tag. -/
theorem definition_reread (files : Files) {s : Settings} (hr : s.renames = none)
    (hl : s.label = false) (ht : s.noTable = false) {source : String} {ds : List Declaration}
    {sc : Scope} (hp : parseSource source = .ok (ds, sc)) :
    ∃ g env k l,
      (generateFrom files s source).result.1 = .ok g ∧
      Environment.ofEntries g.table.types {} = (.ok env, k) ∧
      (registered s ds sc).Names l ∧ (registered s ds sc).NamedBy g.table l ∧
      ∀ id, (registered s ds sc).HasRecord id → (sc.context.decl id).isComplete = true →
        (registered s ds sc).RereadsIn l id (renderEnvironment env g.table.globals k).1 ∧
        ∀ m ∈ (sc.context.decl id).members.getD [], m.name = none → m.bitWidth = none →
          sc.isAnonymousRecord m.type = true → m.Kept (sc.context.decl id).key = false := by
  obtain ⟨env, k, l, hload, hn, hnamed, hreread⟩ := Registry.rereadsIn_registered hl hp
  exact ⟨_, env, k, l, (generateFrom_yields files hr ht hp).result, hload, hn, hnamed,
    fun id hid hc => ⟨hreread id hid hc, fun m _ hname hwidth hanonymous =>
      MemberDecl.not_kept_of_anonymous hname hwidth hanonymous _⟩⟩

/-! ## 4. A member that is lost -/

/-- A struct one of whose members is a struct without a tag and without a name. -/
def anonymousSource : String := "struct S \x7b struct \x7b int a; \x7d; int b; \x7d s;"

def anonymousDeclarations : List Declaration := [⟨some "s", .record .none ⟨0⟩, none, ⟨1, 40⟩⟩]

def anonymousScope : Scope where
  context :=
    ⟨[⟨.structKey, some "S",
        some [⟨none, .record .none ⟨1⟩, none, none⟩, ⟨some "b", .builtin .none "int", none, none⟩],
        []⟩,
      ⟨.structKey, none, some [⟨some "a", .builtin .none "int", none, none⟩], []⟩], []⟩

theorem parse_anonymous :
    parseSource anonymousSource = .ok (anonymousDeclarations, anonymousScope) := by
  have htokens : tokenize anonymousSource.toUTF8.toList = .ok
      ([⟨.keyword (.record .structKey), ⟨1, 1⟩⟩, ⟨.ident "S", ⟨1, 8⟩⟩, ⟨.mark .braceOpen, ⟨1, 10⟩⟩,
        ⟨.keyword (.record .structKey), ⟨1, 12⟩⟩, ⟨.mark .braceOpen, ⟨1, 19⟩⟩,
        ⟨.keyword (.builtin .int), ⟨1, 21⟩⟩, ⟨.ident "a", ⟨1, 25⟩⟩, ⟨.mark .semicolon, ⟨1, 26⟩⟩,
        ⟨.mark .braceClose, ⟨1, 28⟩⟩, ⟨.mark .semicolon, ⟨1, 29⟩⟩,
        ⟨.keyword (.builtin .int), ⟨1, 31⟩⟩, ⟨.ident "b", ⟨1, 35⟩⟩, ⟨.mark .semicolon, ⟨1, 36⟩⟩,
        ⟨.mark .braceClose, ⟨1, 38⟩⟩, ⟨.ident "s", ⟨1, 40⟩⟩, ⟨.mark .semicolon, ⟨1, 41⟩⟩],
        ⟨1, 42⟩) := by
    decide +kernel
  rw [parseSource, parseBytes, htokens]
  cbv

theorem definition_reread_anonymous :
    ∃ g env k l,
      (generateFrom (fun _ => .error "") { input := "input.h" } anonymousSource).result.1 = .ok g ∧
      Environment.ofEntries g.table.types {} = (.ok env, k) ∧
      (registered { input := "input.h" } anonymousDeclarations anonymousScope).Names l ∧
      (registered { input := "input.h" } anonymousDeclarations anonymousScope).NamedBy g.table l ∧
      ∀ id, (registered { input := "input.h" } anonymousDeclarations anonymousScope).HasRecord id →
        (anonymousScope.context.decl id).isComplete = true →
        (registered { input := "input.h" } anonymousDeclarations anonymousScope).RereadsIn l id
          (renderEnvironment env g.table.globals k).1 ∧
        ∀ m ∈ (anonymousScope.context.decl id).members.getD [], m.name = none → m.bitWidth = none →
          anonymousScope.isAnonymousRecord m.type = true →
            m.Kept (anonymousScope.context.decl id).key = false :=
  definition_reread (fun _ => .error "") rfl rfl rfl parse_anonymous

/-- **A struct without a tag is lost as a member.** The struct has two members, one without a name
and of a struct without a tag; the lines up to its definition are read as a struct with the other
one only. -/
theorem anonymous_member_is_lost :
    parseSource anonymousSource = .ok (anonymousDeclarations, anonymousScope) ∧
      (∀ d ∈ anonymousScope.context.records, d.isComplete = true ∧ ∀ m ∈ d.members.getD [],
        m.name.isSome = true ∨ m.bitWidth.isSome = true ∨
          anonymousScope.isAnonymousRecord m.type = true) ∧
      ((anonymousScope.context.decl ⟨0⟩).members.getD []).length = 2 ∧
      ∃ g env k before text after ds' sc' id' d',
        (generateFrom (fun _ => .error "") { input := "input.h" } anonymousSource).result.1 =
          .ok g ∧
        Environment.ofEntries g.table.types {} = (.ok env, k) ∧
        (renderEnvironment env g.table.globals k).1.definitions =
          before ++ ((registered { input := "input.h" } anonymousDeclarations
            anonymousScope).ledger.idOf (.record .none ⟨0⟩), text) :: after ∧
        parseSource (linesText ((renderEnvironment env g.table.globals k).1.forwards.map Prod.snd ++
          before.map Prod.snd ++ [text])) = .ok (ds', sc') ∧
        sc'.context.findRecord? "S" = some id' ∧ sc'.context.record? id' = some d' ∧
        (d'.members.getD []).map MemberDecl.face = [(some "b", none)] := by
  let s : Settings := { input := "input.h" }
  let r := registered s anonymousDeclarations anonymousScope
  obtain ⟨-, hcontext, hknown, -⟩ :=
    registered_spec (s := s) rfl anonymousDeclarations anonymousScope
  have hd : r.context.record? ⟨0⟩ = anonymousScope.context.records[0]? := by rw [hcontext]; rfl
  have hid : r.HasRecord ⟨0⟩ := ⟨by rw [hd]; rfl, hknown _ (List.mem_singleton_self _)⟩
  obtain ⟨env, k, l, hload, hn, -, hreread⟩ :=
    Registry.rereadsIn_registered (s := s) rfl parse_anonymous
  obtain ⟨before, text, after, hdefinitions, hread⟩ := hreread ⟨0⟩ hid rfl
  have hreadable : ∀ d ∈ anonymousScope.context.records, d.Readable := by decide
  obtain ⟨ds', sc', id', d', hparse, hfind, hrecord, -, hfaces, -⟩ := hread fun a ha _ => by
    obtain ⟨d, hda⟩ := Option.isSome_iff_exists.1 ha.1
    rw [Context.decl_eq hda]
    rw [hcontext] at hda
    exact hreadable d (List.mem_of_getElem? hda)
  have hlabel : (l.record ⟨0⟩).2 = "S" := hn.tag ⟨0⟩ _ "S" hd hid.2 rfl
  rw [hlabel] at hfind
  rw [hcontext] at hfaces
  exact ⟨parse_anonymous, by decide, rfl, _, env, k, before, text, after, ds', sc', id', d',
    (generateFrom_yields _ rfl rfl parse_anonymous).result, hload, hdefinitions, hparse, hfind,
    hrecord, hfaces⟩

end TypeLedger
