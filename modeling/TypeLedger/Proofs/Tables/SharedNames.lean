import TypeLedger.Proofs.Printing.Asking
import TypeLedger.Proofs.Tables.Entries

/-!
# A registry and an environment that share their naming

* `Naming.Grows`: a naming has come from another, in which all names were kept.
* `SharedUse`: one use of a registry, or of the environment over its table that makes up its names
  from the same state. `Registry.sharedAnswers` are the names that a sequence of uses answers.
* `SharedUse.grows` is the step, `Registry.grows_afterShared` the run.
* `Registry.shared_names_eq_iff`: registry and environment answer the same name for an aggregate if
  and only if the aggregate had its name when the table was taken.
-/

namespace TypeLedger

namespace Naming

/-- All names were kept, and no two of them have become equal. -/
structure Grows (k k' : Naming) : Prop where
  current? : ∀ t n, k.current? t = some n → k'.current? t = some n
  distinct : k.Distinct [] → k'.Distinct []

theorem Grows.refl (k : Naming) : k.Grows k := ⟨fun _ _ h => h, fun h => h⟩

theorem Grows.trans {k₁ k₂ k₃ : Naming} (h : k₁.Grows k₂) (h' : k₂.Grows k₃) : k₁.Grows k₃ :=
  ⟨fun t n hn => h'.current? t n (h.current? t n hn), fun hd => h'.distinct (h.distinct hd)⟩

theorem Follows.grows {k k' : Naming} (h : k.Follows k') : k.Grows k' :=
  ⟨fun _ _ hn => h.current? hn, fun hd => hd.follows h⟩

/-- To reserve names gives none. -/
theorem grows_of_given_eq {k k' : Naming} (hg : k'.given = k.given)
    (ht : ∀ n ∈ k.namer.taken, n ∈ k'.namer.taken) : k.Grows k' := by
  refine ⟨fun t n hn => ?_, fun hd => hd.mono hg ht⟩
  cases t with
  | named m => exact hn
  | anonymous s => exact (congrArg (List.lookup s) hg).trans hn

end Naming

/-- A registration keeps all names. -/
theorem Ledger.grows_register {ctx : Context} {detail : Detail} (t : CType) (l : Ledger) :
    l.naming.Grows (l.register ctx detail t).naming := by
  refine settle_keeps (P := fun l' => l.naming.Grows l'.naming) (fun l' n h => ?_)
    (fun s l' h => ?_) (fun s l' h => ?_) _ (Naming.Grows.refl _)
  · rw [naming_note]
    exact h
  · rw [show (l'.enterSynonym ctx detail s).naming = l'.naming from naming_note _ _ _]
    exact h
  · refine h.trans ?_
    unfold enter
    split
    · obtain ⟨hg, ht, -⟩ := tagFor_spec l'.naming (ctx.tagName? s)
      unfold enterRow
      rw [naming_note]
      exact Naming.grows_of_given_eq hg ht
    · exact Naming.Grows.refl _

/-! ## 1. Shared uses -/

/-- One use of a `Registry`, or of an `Environment` over its table. -/
inductive SharedUse
  | registry (call : Registry.Call)
  | aggregateName (id : TypeId)
  | declare (id : TypeId) (name : String)

namespace Registry

/-- The registry with another state of the naming that it shares. -/
def withNaming (r : Registry) (k : Naming) : Registry :=
  { r with ledger := { r.ledger with naming := k } }

/-- The name that an aggregate has so far (`Naming.current?`). -/
def nameSoFar? (r : Registry) (id : TypeId) : Option String :=
  ((r.row? id).bind Row.tag).bind r.ledger.naming.current?

end Registry

namespace SharedUse

/-- The registry behind a use of it or of the environment, which takes its names from the naming of
the registry. -/
def run (env : Environment) : SharedUse → Registry → Registry
  | registry c, r => c.run r
  | aggregateName id, r => r.withNaming (env.aggregateName? id r.ledger.naming).2
  | declare id name, r => r.withNaming (env.declare id name r.ledger.naming).2

/-- The name of an aggregate that a use answers. -/
def answer? (env : Environment) : SharedUse → Registry → Option String
  | registry (.nameOf id), r => (r.nameOf id).1
  | aggregateName id, r => (env.aggregateName? id r.ledger.naming).1
  | _, _ => none

end SharedUse

namespace Registry

/-- The registry behind a sequence of uses. -/
def afterShared (env : Environment) (r : Registry) (uses : List SharedUse) : Registry :=
  uses.foldl (fun r u => u.run env r) r

/-- The names that the uses of a sequence answer. -/
def sharedAnswers (env : Environment) (r : Registry) : List SharedUse → List (Option String)
  | [] => []
  | u :: us => u.answer? env r :: sharedAnswers env (u.run env r) us

theorem sharedAnswers_getElem? (env : Environment) (r : Registry) (uses : List SharedUse)
    (i : Nat) : (sharedAnswers env r uses)[i]? =
      (uses[i]?).map fun u => u.answer? env (r.afterShared env (uses.take i)) := by
  induction uses generalizing r i with
  | nil => simp [sharedAnswers]
  | cons u us ih =>
    cases i with
    | zero => simp [sharedAnswers, afterShared]
    | succ i => simp [sharedAnswers, ih, afterShared]

/-! ## 2. Names stay -/

theorem kept_withNaming {r : Registry} (h : r.Kept) (k : Naming) :
    (r.withNaming k).Kept ∧ r.Later (r.withNaming k) :=
  ⟨⟨h.sound.congr rfl rfl rfl rfl, h.closed⟩,
    rfl, rfl, ⟨fun _ _ ht => ht, List.prefix_rfl, List.prefix_rfl⟩⟩

/-- A call keeps all names. -/
theorem grows_call (c : Call) (r : Registry) :
    r.ledger.naming.Grows (c.run r).ledger.naming := by
  cases c with
  | register t => exact Ledger.grows_register t r.ledger
  | typeName t => exact Ledger.grows_register t r.ledger
  | addInheritance d b a v =>
    exact (Ledger.grows_register d r.ledger).trans (Ledger.grows_register b _)
  | nameOf id =>
    show r.ledger.naming.Grows (r.nameOf id).2.ledger.naming
    unfold nameOf
    split
    · exact (Naming.Follows.name .refl _).grows
    · exact Naming.Grows.refl _

/-- **Every use keeps the registry and all names** (`Grows`). -/
theorem grows_sharedUse {r : Registry} (h : r.Kept) (env : Environment) (u : SharedUse) :
    (u.run env r).Kept ∧ r.Later (u.run env r) ∧
      r.ledger.naming.Grows (u.run env r).ledger.naming := by
  cases u with
  | registry c =>
    obtain ⟨hk, hl⟩ := c.kept h
    exact ⟨hk, hl, grows_call c r⟩
  | aggregateName id =>
    obtain ⟨hk, hl⟩ := kept_withNaming h (env.aggregateName? id r.ledger.naming).2
    exact ⟨hk, hl, (env.asks_aggregateName? id _).grows⟩
  | declare id name =>
    obtain ⟨hk, hl⟩ := kept_withNaming h (env.declare id name r.ledger.naming).2
    exact ⟨hk, hl, (env.asks_declareWith [] .none id name _).grows⟩

/-- **Every sequence of uses keeps the registry and all names** (`Grows`). -/
theorem grows_afterShared {r : Registry} (h : r.Kept) (env : Environment)
    (uses : List SharedUse) : (r.afterShared env uses).Kept ∧ r.Later (r.afterShared env uses) ∧
      r.ledger.naming.Grows (r.afterShared env uses).ledger.naming := by
  induction uses generalizing r with
  | nil => exact ⟨h, .refl r, .refl _⟩
  | cons u us ih =>
    obtain ⟨hk, hl, hg⟩ := grows_sharedUse h env u
    obtain ⟨hk', hl', hg'⟩ := ih hk
    exact ⟨hk', hl.trans hl', hg.trans hg'⟩

/-- What a use answers in a sequence is answered by the registry behind the uses in front of it, and
the uses behind it keep all names. -/
theorem sharedAnswer_stays {r : Registry} (h : r.Kept) {env : Environment}
    {uses : List SharedUse} {i : Nat} {u : SharedUse} {n : String} (hi : uses[i]? = some u)
    (ha : (sharedAnswers env r uses)[i]? = some (some n)) :
    ∃ r', r'.Kept ∧ r.Later r' ∧ u.answer? env r' = some n ∧
      (u.run env r').ledger.naming.Grows (r.afterShared env uses).ledger.naming := by
  rw [sharedAnswers_getElem?, hi, Option.map_some, Option.some.injEq] at ha
  obtain ⟨hk, hl, -⟩ := grows_afterShared h env (uses.take i)
  refine ⟨_, hk, hl, ha, ?_⟩
  have hsplit : uses = uses.take i ++ u :: uses.drop (i + 1) := by
    obtain ⟨hlt, hget⟩ := List.getElem?_eq_some_iff.1 hi
    rw [← hget, List.getElem_cons_drop, List.take_append_drop]
  have hrun : r.afterShared env uses =
      (u.run env (r.afterShared env (uses.take i))).afterShared env (uses.drop (i + 1)) := by
    conv => lhs; rw [hsplit, afterShared, List.foldl_append]
    rfl
  rw [hrun]
  exact (grows_afterShared (grows_sharedUse hk env u).1 env _).2.2

/-- Rows stay where registrations follow. -/
theorem Later.row? {r r' : Registry} (hl : r.Later r') (h' : r'.Kept) {row : Row}
    (hm : row ∈ r.ledger.rows) : r'.row? row.id = some row :=
  h'.row?_of_mem (hl.ledger.rows.subset hm)

/-- Only what has a tag has a name. -/
theorem tag_of_nameOf {r : Registry} (h : r.Kept) {row : Row} (hm : row ∈ r.ledger.rows)
    {env : Environment} {uses : List SharedUse} {i : Nat} {n : String}
    (hi : uses[i]? = some (.registry (.nameOf row.id)))
    (ha : (sharedAnswers env r uses)[i]? = some (some n)) : ∃ tag, row.tag = some tag := by
  obtain ⟨r', hk', hl', hans, -⟩ := sharedAnswer_stays h hi ha
  cases ht : row.tag with
  | some tag => exact ⟨tag, rfl⟩
  | none =>
    rw [SharedUse.answer?, Registry.nameOf, hl'.row? hk' hm, Option.bind_some, ht] at hans
    cases hans

/-- The name that the registry answers for the row of an aggregate is the current one of its tag
from then on. -/
theorem current?_of_nameOf {r : Registry} (h : r.Kept) {row : Row} (hm : row ∈ r.ledger.rows)
    {tag : Tag} (ht : row.tag = some tag) {env : Environment} {uses : List SharedUse} {i : Nat}
    {n : String} (hi : uses[i]? = some (.registry (.nameOf row.id)))
    (ha : (sharedAnswers env r uses)[i]? = some (some n)) :
    (r.afterShared env uses).ledger.naming.current? tag = some n := by
  obtain ⟨r', hk', hl', hans, hg⟩ := sharedAnswer_stays h hi ha
  have hrow : (r'.row? row.id).bind Row.tag = some tag := by
    rw [hl'.row? hk' hm, Option.bind_some, ht]
  refine hg.current? tag n ?_
  rw [SharedUse.answer?, Registry.nameOf, hrow] at hans
  rw [SharedUse.run, Call.run, Registry.nameOf, hrow]
  obtain rfl := Option.some.inj hans
  exact Naming.current?_name tag _

/-- The name that the environment answers for an aggregate is the current one of its tag from then
on. -/
theorem current?_of_aggregateName {r : Registry} (h : r.Kept) {env : Environment} {id : TypeId}
    {tag : Tag} (hb : (env.body? id).bind TypeBody.tag? = some tag) {uses : List SharedUse}
    {i : Nat} {n : String} (hi : uses[i]? = some (.aggregateName id))
    (ha : (sharedAnswers env r uses)[i]? = some (some n)) :
    (r.afterShared env uses).ledger.naming.current? tag = some n := by
  obtain ⟨r', -, -, hans, hg⟩ := sharedAnswer_stays h hi ha
  refine hg.current? tag n ?_
  rw [SharedUse.answer?, Environment.aggregateName?, hb] at hans
  rw [SharedUse.run, withNaming, Environment.aggregateName?, hb]
  obtain rfl := Option.some.inj hans
  exact Naming.current?_name tag _

/-! ## 3. When the names agree -/

/-- **Registry and environment answer the same name for an aggregate if and only if the aggregate
had its name when the table was taken** (`nameSoFar?`). Whatever is asked of the two in between
(`SharedUse`), and in whatever order: an aggregate without a name then is given one for each of the
two, and these differ. -/
theorem shared_names_eq_iff {r : Registry} (hr : r.Fresh) (hn : r.renames = none)
    (hk : r.ledger.naming.Orderly) (calls : List Call) :
    ∃ env k, Environment.ofEntries (r.after calls).table.types (r.after calls).ledger.naming =
        (.ok env, k) ∧
      ∀ (uses : List SharedUse) (i j : Nat) (id : TypeId) (n n' : String),
        id ∈ (r.after calls).ids →
        uses[i]? = some (.registry (.nameOf id)) → uses[j]? = some (.aggregateName id) →
        (sharedAnswers env ((r.after calls).withNaming k) uses)[i]? = some (some n) →
        (sharedAnswers env ((r.after calls).withNaming k) uses)[j]? = some (some n') →
        (n = n' ↔ ((r.after calls).nameSoFar? id).isSome = true) := by
  obtain ⟨hkept, hlater⟩ := kept_after hr.kept calls
  have h : (r.after calls).Unrenamed := ⟨hkept, hlater.renames.trans hn⟩
  have hnamed := named_after (hr.named hk) calls
  generalize r.after calls = r₁ at *
  obtain ⟨env, k, tagOf, hof, ho⟩ := opened_ofEntries h r₁.ledger.naming
  refine ⟨env, k, hof, fun uses i j id n n' hid hi hj hni hnj => ?_⟩
  obtain ⟨row, hm, rfl⟩ := List.mem_map.1 hid
  have hkept' := (kept_withNaming hkept k).1
  obtain ⟨tag, ht⟩ := tag_of_nameOf hkept' hm hi hni
  have hb := hkept.tag?_of_row hm ht
  have hbody : (env.body? row.id).bind TypeBody.tag? = some (tagOf row.id) := by
    rw [Environment.body?_of_lookup (ho.row row hm), Option.bind_some]
    show ((r₁.body row).reread _ _ _).tag? = _
    rw [TypeBody.tag?_reread, hb, Option.map_some]
  have hsoFar : r₁.nameSoFar? row.id = r₁.ledger.naming.current? tag := by
    rw [nameSoFar?, hkept.row?_of_mem hm, Option.bind_some, ht, Option.bind_some]
  -- the names that the two sides have in the end
  have hcur := current?_of_nameOf hkept' hm ht hi hni
  have hcur' := current?_of_aggregateName hkept' hbody hj hnj
  have hopen : r₁.ledger.naming.Grows k :=
    Naming.grows_of_given_eq ho.tags.given fun m hmem => ho.tags.keeps m hmem
  obtain ⟨-, -, hgrows⟩ := grows_afterShared hkept' env uses
  rw [hsoFar]
  rcases ho.tagOf_cases h hnamed.naming hm hb with ⟨m, hc, htag⟩ | ⟨hc, s', htag, hle⟩
  · have hm₁ := hgrows.current? tag m (hopen.current? tag m hc)
    rw [hcur] at hm₁
    rw [htag] at hcur'
    rw [hc, Option.isSome_some, Option.some.inj hm₁, ← Option.some.inj hcur']
    exact iff_of_true rfl rfl
  · rw [hc]
    refine iff_of_false (fun he => ?_) (by decide)
    subst he
    cases tag with
    | named m => cases hc
    | anonymous s =>
      have hd := hgrows.distinct (hopen.distinct hnamed.naming.toDistinct)
      rw [htag] at hcur'
      obtain rfl := hd.injective s s' n hcur hcur'
      have := hnamed.rows row hm _ ht s rfl
      omega

/-- A struct without a tag. -/
def untaggedContext : Context where
  records := [⟨.structKey, none, some [⟨some "x", .builtin .none "int", none, none⟩], []⟩]

/-- A registry that takes down the struct, and knows nothing yet. -/
def untaggedRegistry : Registry := ⟨untaggedContext, {}, {}, none, false, .quiet⟩

def untaggedCalls : List Call := [.register (.record .none ⟨0⟩)]

/-- The ledger that knows the struct. -/
def untaggedLedger : Ledger :=
  (Ledger.settleFor untaggedContext .quiet 2 [.visit (.record .none ⟨0⟩)] {}).get rfl

theorem after_untagged : untaggedRegistry.after untaggedCalls =
    ⟨untaggedContext, untaggedLedger, {}, none, false, .quiet⟩ := by
  have hrun : Ledger.register untaggedContext .quiet (.record .none ⟨0⟩) {} = untaggedLedger :=
    Ledger.register_eq_of_settleFor 2 rfl
  simp only [untaggedRegistry, untaggedCalls, after, List.foldl, Call.run, register, hrun]

/-- A struct that had no name when its table was taken is never called alike by the two. -/
theorem shared_names_eq_iff_untagged :
    ∃ env k, Environment.ofEntries (untaggedRegistry.after untaggedCalls).table.types
        (untaggedRegistry.after untaggedCalls).ledger.naming = (.ok env, k) ∧
      ∀ (uses : List SharedUse) (i j : Nat) (n n' : String),
        uses[i]? = some (.registry (.nameOf ⟨"Struct0"⟩)) →
        uses[j]? = some (.aggregateName ⟨"Struct0"⟩) →
        (sharedAnswers env ((untaggedRegistry.after untaggedCalls).withNaming k) uses)[i]? =
          some (some n) →
        (sharedAnswers env ((untaggedRegistry.after untaggedCalls).withNaming k) uses)[j]? =
          some (some n') →
        n ≠ n' := by
  obtain ⟨env, k, hof, hnames⟩ := shared_names_eq_iff (r := untaggedRegistry)
    ⟨rfl, rfl, rfl, rfl, rfl⟩ rfl (Naming.orderly_of_given_nil rfl) untaggedCalls
  refine ⟨env, k, hof, fun uses i j n n' hi hj hni hnj he => ?_⟩
  have hid : ⟨"Struct0"⟩ ∈ (untaggedRegistry.after untaggedCalls).ids := by
    rw [after_untagged]
    decide
  have hhad := (hnames uses i j _ n n' hid hi hj hni hnj).1 he
  rw [after_untagged] at hhad
  revert hhad
  decide

/-- The environment, asked first, calls the struct by the first made-up name, and the registry by
the second. -/
theorem untagged_struct_has_two_names :
    ∃ env k, Environment.ofEntries (untaggedRegistry.after untaggedCalls).table.types
        (untaggedRegistry.after untaggedCalls).ledger.naming = (.ok env, k) ∧
      sharedAnswers env ((untaggedRegistry.after untaggedCalls).withNaming k)
        [.aggregateName ⟨"Struct0"⟩, .registry (.nameOf ⟨"Struct0"⟩)] =
          [some "__anon_1", some "__anon_2"] := by
  rw [after_untagged]
  exact ⟨_, _, rfl, by decide +kernel⟩

end Registry

end TypeLedger
