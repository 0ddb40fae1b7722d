import Mathlib.Data.List.Induction
import TypeLedger.Proofs.Tables.SharedNames

/-!
# Tags that entries share

A registry takes the tags that its source states when it registers their types, and makes up a name
when it is asked for one. So a name may be made up that a type registered later has in the source.

* `Ledger.Tagged`: the tags that rows have from the source are taken, and every serial number stands
  in one row. `Ledger.Tagged.enter` is the step, `Registry.tagged_after` the run.
* `Ledger.newcomers_register`: the rows that a registration adds have new serial numbers.
* `Registry.Kept.tag?_entry`: the entry of a row states the name that the row has so far.
* `Registry.tags_shared_iff`: an entry states the made-up name of another if and only if its type
  has that tag in the source, and was registered when the name was there already.
-/

namespace TypeLedger

namespace Ledger

variable {ctx : Context} {detail : Detail}

/-! ## 1. Tags of rows -/

/-- The tag of a type that is entered now is taken, or has a new serial number. -/
theorem tagFor_tag (k : Naming) (name : Option (Option String)) {t : Tag}
    (h : (tagFor k name).1 = some t) :
    (∀ n, t = .named n → n ∈ (tagFor k name).2.namer.taken) ∧
      ∀ s, t = .anonymous s → s = k.serials := by
  rcases name with _ | _ | m
  · cases h
  · obtain rfl := Option.some.inj h
    exact ⟨nofun, fun s hs => (Tag.anonymous.inj hs).symm⟩
  · unfold tagFor Naming.tag at h ⊢
    cases hm : m.isEmpty with
    | true =>
      simp only [Option.elim, hm, ↓reduceIte] at h ⊢
      obtain rfl := Option.some.inj h
      exact ⟨nofun, fun s hs => (Tag.anonymous.inj hs).symm⟩
    | false =>
      simp only [Option.elim, hm, Bool.false_eq_true, ↓reduceIte] at h ⊢
      obtain rfl := Option.some.inj h
      refine ⟨fun n hn => ?_, nofun⟩
      obtain rfl := Tag.named.inj hn
      exact List.mem_cons_self

/-- What a type that is entered now adds to the rows: one row, whose tag is taken or has a new
serial number; or nothing, and nothing happens to the naming. -/
theorem enter_cases (ctx : Context) (detail : Detail) (t : CType) (l : Ledger) :
    (∃ row, (l.enter ctx detail t).rows = l.rows ++ [row] ∧
      l.naming.serials ≤ (l.enter ctx detail t).naming.serials ∧
      (∀ n ∈ l.naming.namer.taken, n ∈ (l.enter ctx detail t).naming.namer.taken) ∧
      (∀ n, row.tag = some (.named n) → n ∈ (l.enter ctx detail t).naming.namer.taken) ∧
      ∀ s, row.tag = some (.anonymous s) → s = l.naming.serials) ∨
    ((l.enter ctx detail t).rows = l.rows ∧ (l.enter ctx detail t).naming = l.naming) := by
  unfold enter
  cases ctx.category? t with
  | none => exact .inr ⟨rfl, rfl⟩
  | some c =>
    have hnaming : (l.enterRow ctx detail c t).naming = (tagFor l.naming (ctx.tagName? t)).2 :=
      naming_note _ _ _
    obtain ⟨-, htaken, hserials, -⟩ := tagFor_spec l.naming (ctx.tagName? t)
    refine .inl ⟨newRow ctx c t l, rows_enterRow c, ?_, ?_, fun n hn => ?_, fun s hs => ?_⟩
    · rw [hnaming]
      exact hserials
    · rw [hnaming]
      exact htaken
    · rw [hnaming]
      exact (tagFor_tag l.naming _ hn).1 n rfl
    · exact (tagFor_tag l.naming _ hs).2 s rfl

/-- The tags that rows have from the source are taken, and every serial number stands in one row;
all that `Named` says. -/
structure Tagged (l : Ledger) : Prop extends Named l where
  taken : ∀ row ∈ l.rows, ∀ n, row.tag = some (.named n) → n ∈ l.naming.namer.taken
  injective : ∀ row ∈ l.rows, ∀ row' ∈ l.rows, ∀ s, row.tag = some (.anonymous s) →
    row'.tag = some (.anonymous s) → row.id = row'.id

theorem Tagged.congr {l l' : Ledger} (h : l.Tagged) (hr : l'.rows = l.rows)
    (hk : l'.naming = l.naming) : l'.Tagged := by
  refine ⟨h.toNamed.congr hr hk, ?_, ?_⟩
  · rw [hr, hk]
    exact h.taken
  · rw [hr]
    exact h.injective

/-- **A type that is entered has a tag that is taken now,** or a serial number that no row has yet
(`Tagged`). -/
theorem Tagged.enter {l : Ledger} (h : l.Tagged) (t : CType) : (l.enter ctx detail t).Tagged := by
  rcases enter_cases ctx detail t l with
    ⟨new, hr, -, hkeeps, hnamed, hserial⟩ | ⟨hr, hk⟩
  · have hmem : ∀ row ∈ (l.enter ctx detail t).rows, row ∈ l.rows ∨ row = new := by
      intro row hm
      rw [hr] at hm
      simpa using hm
    refine ⟨h.toNamed.enter t, fun row hm n hn => ?_, fun row hm row' hm' s hs hs' => ?_⟩
    · rcases hmem row hm with hm | rfl
      · exact hkeeps n (h.taken row hm n hn)
      · exact hnamed n hn
    · rcases hmem row hm with hm | rfl <;> rcases hmem row' hm' with hm' | rfl
      · exact h.injective row hm row' hm' s hs hs'
      · have hlt := h.rows row hm _ hs s rfl
        have hnew := hserial s hs'
        omega
      · have hlt := h.rows row' hm' _ hs' s rfl
        have hnew := hserial s hs
        omega
      · rfl
  · exact h.congr hr hk

theorem Tagged.register {l : Ledger} (h : l.Tagged) (t : CType) :
    (l.register ctx detail t).Tagged :=
  settle_keeps (P := Tagged) (fun _ _ hl => hl.congr (rows_note _ _ _) (naming_note _ _ _))
    (fun _ _ hl => hl.congr (rows_note _ _ _) (naming_note _ _ _)) (fun t _ hl => hl.enter t) _ h

/-- The rows that the second ledger has besides those of the first have serial numbers that were not
in use. -/
structure Newcomers (l l' : Ledger) : Prop where
  serials : l.naming.serials ≤ l'.naming.serials
  rows : ∀ row ∈ l'.rows, row ∈ l.rows ∨ ∀ s, row.tag = some (.anonymous s) → l.naming.serials ≤ s

theorem Newcomers.refl (l : Ledger) : l.Newcomers l := ⟨Nat.le_refl _, fun _ hm => .inl hm⟩

theorem Newcomers.trans {l₁ l₂ l₃ : Ledger} (h : l₁.Newcomers l₂) (h' : l₂.Newcomers l₃) :
    l₁.Newcomers l₃ := by
  refine ⟨Nat.le_trans h.serials h'.serials, fun row hm => ?_⟩
  rcases h'.rows row hm with hm | hnew
  · exact h.rows row hm
  · exact .inr fun s hs => Nat.le_trans h.serials (hnew s hs)

theorem newcomers_of_eq {l l' : Ledger} (hr : l'.rows = l.rows) (hk : l'.naming = l.naming) :
    l.Newcomers l' := by
  refine ⟨Nat.le_of_eq (congrArg Naming.serials hk).symm, fun row hm => .inl ?_⟩
  rwa [hr] at hm

theorem newcomers_enter (t : CType) (l : Ledger) : l.Newcomers (l.enter ctx detail t) := by
  rcases enter_cases ctx detail t l with
    ⟨new, hr, hserials, -, -, hserial⟩ | ⟨hr, hk⟩
  · refine ⟨hserials, fun row hm => ?_⟩
    rw [hr] at hm
    rcases List.mem_append.1 hm with hm | hm
    · exact .inl hm
    · obtain rfl := List.mem_singleton.1 hm
      exact .inr fun s hs => Nat.le_of_eq (hserial s hs).symm
  · exact newcomers_of_eq hr hk

theorem newcomers_register (t : CType) (l : Ledger) :
    l.Newcomers (l.register ctx detail t) :=
  settle_keeps (P := l.Newcomers)
    (fun _ _ hl => hl.trans (newcomers_of_eq (rows_note _ _ _) (naming_note _ _ _)))
    (fun _ _ hl => hl.trans (newcomers_of_eq (rows_note _ _ _) (naming_note _ _ _)))
    (fun t _ hl => hl.trans (newcomers_enter t _)) _ (.refl l)

end Ledger

namespace Registry

/-! ## 2. Behind a sequence of calls -/

theorem Fresh.tagged {r : Registry} (h : r.Fresh) (hk : r.ledger.naming.Orderly) :
    r.ledger.Tagged := by
  refine ⟨h.named hk, fun row hm => ?_, fun row hm => ?_⟩ <;>
  · rw [h.rows] at hm
    cases hm

/-- Asking for a name changes the naming only. -/
theorem rows_nameOf (r : Registry) (id : TypeId) :
    (r.nameOf id).2.ledger.rows = r.ledger.rows ∧
      r.ledger.naming.Follows (r.nameOf id).2.ledger.naming := by
  unfold nameOf
  split
  · exact ⟨rfl, .name .refl _⟩
  · exact ⟨rfl, .refl⟩

theorem tagged_nameOf {r : Registry} (h : r.ledger.Tagged) (id : TypeId) :
    (r.nameOf id).2.ledger.Tagged := by
  obtain ⟨hr, hk⟩ := rows_nameOf r id
  refine ⟨named_nameOf h.toNamed id, ?_, ?_⟩
  · rw [hr]
    exact fun row hm n hn => hk.taken (h.taken row hm n hn)
  · rw [hr]
    exact h.injective

theorem Call.tagged {r : Registry} (h : r.ledger.Tagged) (c : Call) : (c.run r).ledger.Tagged := by
  cases c with
  | register t => exact h.register t
  | typeName t => exact h.register t
  | addInheritance d b a v => exact Ledger.Tagged.register (Ledger.Tagged.register h d) b
  | nameOf id => exact tagged_nameOf h id

/-- **Behind every sequence of calls** the tags that rows have from the source are taken
(`Tagged`). -/
theorem tagged_after {r : Registry} (h : r.ledger.Tagged) (calls : List Call) :
    (r.after calls).ledger.Tagged := by
  induction calls generalizing r with
  | nil => exact h
  | cons c cs ih => exact ih (c.tagged h)

/-- A call asks for the name of a row, or gives no name; then the rows it adds have new serial
numbers. -/
theorem Call.cases_naming (c : Call) (r : Registry) :
    ((c.run r).ledger.rows = r.ledger.rows ∧
      r.ledger.naming.Follows (c.run r).ledger.naming) ∨
    ((c.run r).ledger.naming.given = r.ledger.naming.given ∧
      r.ledger.Newcomers (c.run r).ledger) := by
  cases c with
  | register t => exact .inr ⟨Ledger.given_register t _, Ledger.newcomers_register t _⟩
  | typeName t => exact .inr ⟨Ledger.given_register t _, Ledger.newcomers_register t _⟩
  | addInheritance d b a v =>
    exact .inr ⟨(Ledger.given_register b _).trans (Ledger.given_register d _),
      (Ledger.newcomers_register d _).trans (Ledger.newcomers_register b _)⟩
  | nameOf id => exact .inl (rows_nameOf r id)

/-! ## 3. The order of a name and a registration -/

theorem nameSoFar?_of_mem {r : Registry} (h : r.Kept) {row : Row} (hm : row ∈ r.ledger.rows)
    {tag : Tag} (ht : row.tag = some tag) :
    r.nameSoFar? row.id = r.ledger.naming.current? tag := by
  rw [nameSoFar?, h.row?_of_mem hm, Option.bind_some, ht, Option.bind_some]

/-- **A made-up name that is the tag of another type was there before that type.** The induction is
on the calls: one that gives a name gives none that is taken, and one that registers gives no
name. -/
theorem named_before {r : Registry} (hr : r.Fresh) (hk : r.ledger.naming.Orderly)
    (calls : List Call) {a b : Row} {s : Nat} {n : String}
    (ha : a ∈ (r.after calls).ledger.rows) (hb : b ∈ (r.after calls).ledger.rows)
    (hs : a.tag = some (.anonymous s))
    (hn : (r.after calls).ledger.naming.given.lookup s = some n) (ht : b.tag = some (.named n)) :
    ∃ i ≤ calls.length, (r.after (calls.take i)).nameSoFar? a.id = some n ∧
      b ∉ (r.after (calls.take i)).ledger.rows := by
  induction calls using List.reverseRecOn with
  | nil =>
    have hrows : (r.after []).ledger.rows = [] := hr.rows
    rw [hrows] at ha
    cases ha
  | append_singleton calls c ih =>
    obtain ⟨hkept, -⟩ := kept_after hr.kept calls
    have htagged := tagged_after (hr.tagged hk) calls
    rw [after_append] at ha hb hn
    generalize hr₁ : r.after calls = r₁ at *
    have hearlier : a ∈ r₁.ledger.rows → b ∈ r₁.ledger.rows →
        r₁.ledger.naming.given.lookup s = some n →
        ∃ i ≤ (calls ++ [c]).length, (r.after ((calls ++ [c]).take i)).nameSoFar? a.id = some n ∧
          b ∉ (r.after ((calls ++ [c]).take i)).ledger.rows := by
      intro ha hb hn
      obtain ⟨i, hi, hname, hnot⟩ := ih ha hb hn
      refine ⟨i, by rw [List.length_append]; omega, ?_⟩
      rw [List.take_append_of_le_length hi]
      exact ⟨hname, hnot⟩
    rcases c.cases_naming r₁ with ⟨hrows, hfollows⟩ | ⟨hgiven, hnew⟩
    · have ha' : a ∈ r₁.ledger.rows := hrows ▸ ha
      have hb' : b ∈ r₁.ledger.rows := hrows ▸ hb
      cases hold : r₁.ledger.naming.given.lookup s with
      | none => exact absurd (htagged.taken b hb' n ht) (hfollows.fresh_of_new hold hn)
      | some m =>
        have hm := hfollows.lookup hold
        obtain rfl := Option.some.inj (hm.symm.trans hn)
        exact hearlier ha' hb' hold
    · have hold : r₁.ledger.naming.given.lookup s = some n := hgiven ▸ hn
      have ha' : a ∈ r₁.ledger.rows := by
        refine (hnew.rows a ha).resolve_right fun hle => ?_
        have := hle s hs
        have := htagged.naming.serials s n hold
        omega
      by_cases hb' : b ∈ r₁.ledger.rows
      · exact hearlier ha' hb' hold
      · refine ⟨calls.length, by rw [List.length_append]; omega, ?_⟩
        rw [List.take_append_of_le_length (Nat.le_refl _), List.take_length, hr₁]
        exact ⟨(nameSoFar?_of_mem hkept ha' hs).trans hold, hb'⟩

/-- The entry of a row states the name that the row has so far. -/
theorem Kept.tag?_entry {r : Registry} (h : r.Kept) {row : Row} (hm : row ∈ r.ledger.rows) :
    (r.entry row).tag? = row.tag.bind r.ledger.naming.current? := by
  rw [entry, Entry.tag?_ofRecord]
  show (r.body row).tag?.bind _ = _
  cases ht : row.tag with
  | some tag => rw [h.tag?_of_row hm ht]
  | none =>
    cases hb : (r.body row).tag? with
    | none => rfl
    | some tag =>
      rw [(h.tag_of_body hm hb).1] at ht
      cases ht

/-- **When a made-up name stands in the table twice.** Behind any sequence of calls on a registry,
the entry of another type states the name that was made up for an aggregate if and only if that type
has this very tag in the source, and was registered when the aggregate had its name already
(`nameSoFar?`). -/
theorem tags_shared_iff {r : Registry} (hr : r.Fresh) (hk : r.ledger.naming.Orderly)
    (calls : List Call) {a b : Row} {s : Nat} {n : String}
    (ha : a ∈ (r.after calls).ledger.rows) (hb : b ∈ (r.after calls).ledger.rows)
    (hab : a.id ≠ b.id) (hs : a.tag = some (.anonymous s))
    (hn : ((r.after calls).entry a).tag? = some n) :
    ((r.after calls).entry b).tag? = some n ↔
      b.tag = some (.named n) ∧ ∃ i ≤ calls.length,
        (r.after (calls.take i)).nameSoFar? a.id = some n ∧
        b ∉ (r.after (calls.take i)).ledger.rows := by
  obtain ⟨hkept, -⟩ := kept_after hr.kept calls
  have htagged := tagged_after (hr.tagged hk) calls
  rw [hkept.tag?_entry ha, hs, Option.bind_some] at hn
  rw [hkept.tag?_entry hb]
  constructor
  · intro hbn
    obtain ⟨t, ht, hcur⟩ := Option.bind_eq_some_iff.1 hbn
    cases t with
    | named m =>
      obtain rfl := Option.some.inj hcur
      exact ⟨ht, named_before hr hk calls ha hb hs hn ht⟩
    | anonymous s' =>
      -- no two serial numbers have one name, and no two rows one serial number
      obtain rfl := htagged.naming.injective s s' n hn hcur
      exact absurd (htagged.injective a ha b hb s hs ht) hab
  · rintro ⟨ht, -⟩
    rw [ht]
    rfl

/-- A struct without a tag, and one that is called like the first name that is made up. -/
def latecomerContext : Context where
  records :=
    [⟨.structKey, none, some [⟨some "x", .builtin .none "int", none, none⟩], []⟩,
      ⟨.structKey, some "__anon_1", some [⟨some "y", .builtin .none "int", none, none⟩], []⟩]

/-- A registry that takes down the two structs, and knows nothing yet. -/
def latecomerRegistry : Registry := ⟨latecomerContext, {}, {}, none, false, .quiet⟩

/-- The second struct is registered when the first one has its name. -/
def latecomerCalls : List Call :=
  [.register (.record .none ⟨0⟩), .nameOf ⟨"Struct0"⟩, .register (.record .none ⟨1⟩)]

/-- The ledger that knows the first struct, which has no name. -/
def firstLedger : Ledger :=
  (Ledger.settleFor latecomerContext .quiet 2 [.visit (.record .none ⟨0⟩)] {}).get rfl

/-- The ledger in which the first struct has its name. -/
def namedLedger : Ledger :=
  { firstLedger with naming := (Naming.name (.anonymous 0) firstLedger.naming).2 }

/-- The ledger that knows both structs. -/
def latecomerLedger : Ledger :=
  (Ledger.settleFor latecomerContext .quiet 2 [.visit (.record .none ⟨1⟩)] namedLedger).get rfl

theorem after_latecomer : latecomerRegistry.after latecomerCalls =
    ⟨latecomerContext, latecomerLedger, {}, none, false, .quiet⟩ := by
  have hfirst : Ledger.register latecomerContext .quiet (.record .none ⟨0⟩) {} = firstLedger :=
    Ledger.register_eq_of_settleFor 2 rfl
  have hnamed : (nameOf ⟨"Struct0"⟩
      (⟨latecomerContext, firstLedger, {}, none, false, .quiet⟩ : Registry)).2 =
        ⟨latecomerContext, namedLedger, {}, none, false, .quiet⟩ := rfl
  have hlast : Ledger.register latecomerContext .quiet (.record .none ⟨1⟩) namedLedger =
      latecomerLedger := Ledger.register_eq_of_settleFor 2 rfl
  simp only [latecomerRegistry, latecomerCalls, after, List.foldl, Call.run, register, hfirst,
    hnamed, hlast]

/-- The second struct shares the made-up name of the first one, which was there before it. -/
theorem tags_shared_latecomer :
    ∃ a b, a.tag = some (.anonymous 0) ∧ b.tag = some (.named "__anon_1") ∧
      ((latecomerRegistry.after latecomerCalls).entry a).tag? = some "__anon_1" ∧
      ((latecomerRegistry.after latecomerCalls).entry b).tag? = some "__anon_1" ∧
      ∃ i ≤ 3, (latecomerRegistry.after (latecomerCalls.take i)).nameSoFar? a.id =
          some "__anon_1" ∧
        b ∉ (latecomerRegistry.after (latecomerCalls.take i)).ledger.rows := by
  obtain ⟨a, b, ha, hb, hab, hs, hn, hbn⟩ : ∃ a b : Row,
      a ∈ latecomerLedger.rows ∧ b ∈ latecomerLedger.rows ∧ a.id ≠ b.id ∧
      a.tag = some (.anonymous 0) ∧
      (entry ⟨latecomerContext, latecomerLedger, {}, none, false, .quiet⟩ a).tag? =
        some "__anon_1" ∧
      (entry ⟨latecomerContext, latecomerLedger, {}, none, false, .quiet⟩ b).tag? =
        some "__anon_1" :=
    ⟨latecomerLedger.rows[0], latecomerLedger.rows[1], by simp, by simp, by decide, rfl,
      by decide +kernel, by decide +kernel⟩
  rw [← after_latecomer] at hn hbn
  have hrows : (latecomerRegistry.after latecomerCalls).ledger.rows = latecomerLedger.rows :=
    congrArg (fun r => r.ledger.rows) after_latecomer
  rw [← hrows] at ha hb
  obtain ⟨ht, hbefore⟩ := (tags_shared_iff (r := latecomerRegistry) ⟨rfl, rfl, rfl, rfl, rfl⟩
    (Naming.orderly_of_given_nil rfl) latecomerCalls ha hb hab hs hn).1 hbn
  exact ⟨a, b, hs, ht, hn, hbn, hbefore⟩

/-- The struct without a tag and the one that is registered later have entries with one tag. -/
theorem latecomer_shares_made_up_name :
    (latecomerContext.records.map RecordDecl.name = [none, some "__anon_1"]) ∧
      (latecomerRegistry.after latecomerCalls).table.types.map
        (fun e => (e.type.text, e.tag?)) =
          [("Struct0", some "__anon_1"), ("Struct1", some "__anon_1")] := by
  rw [after_latecomer]
  exact ⟨rfl, by decide +kernel⟩

end Registry

end TypeLedger
