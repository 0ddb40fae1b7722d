import TypeLedger.Proofs.Layers.Built
import TypeLedger.Proofs.Registration.Stocked
import TypeLedger.Proofs.Tables.Growth

/-!
# The bases of a class, in its record and beside it

* `TypeBody.classBases?`: the bases that the record of a class holds; `Stocked.classBases?`: those
  in the stored record. `Fresh.bases_after`: those that a type declares come first, then those that
  calls have stated, in the order of the calls.
* `Layer.BasesAgree`: every class of a layer has the same bases in its record and beside it.
  `Layer.BasesAgree.accept` is the step of one entry, `Environment.Reached.basesAgree` is the run.
* `bases_agree` puts the two together.
-/

namespace TypeLedger

/-- The bases in the record of a class. -/
def TypeBody.classBases? : TypeBody → Option (List BaseEdge)
  | .aggregate .classKey _ _ _ bases => some bases
  | _ => none

/-- The canonical type is a class. -/
def Context.isClass (ctx : Context) (t : CType) : Bool :=
  (ctx.recordOf? t).any fun d => d.key == .classKey

namespace Registry

variable {r : Registry}

/-! ## 1. What a registry has stored -/

/-- The bases in the stored record of a class. -/
def Stocked.classBases? (f : Stocked) (id : TypeId) : Option (List BaseEdge) :=
  (f.record? id).bind fun record => record.body.classBases?

theorem classBases?_body (r : Registry) (row : Row) :
    (r.body row).classBases? =
      if r.context.isClass row.type then some (r.bases row.id) else none := by
  unfold body Context.isClass Context.recordOf?
  split
  · cases r.context.classify row.type with
    | record d => cases hd : d.key <;> simp [TypeBody.classBases?, hd]
    | _ => rfl
  · rfl

/-- The base that a call states for an identifier, by the identifiers of a ledger. -/
def Call.edgeFor? (l : Ledger) (id : TypeId) : Call → Option BaseEdge
  | addInheritance d b a v => if l.idOf d = id then some ⟨a, l.idOf b, v⟩ else none
  | _ => none

/-- One call states what `edgeFor?` says, also by the identifiers of any later ledger. -/
theorem Call.added_run (h : r.Kept) {r' : Registry} (h' : r'.Kept) (c : Call)
    (hl : (c.run r).Later r') (id : TypeId) :
    (c.run r).added.bases id = r.added.bases id ++ (c.edgeFor? r'.ledger id).toList := by
  cases c with
  | register t => exact (List.append_nil _).symm
  | typeName t => exact (List.append_nil _).symm
  | nameOf i =>
    show (r.nameOf i).2.added.bases id = _
    rw [(unchanged_nameOf r i).2.2]
    exact (List.append_nil _).symm
  | addInheritance d b a v =>
    obtain ⟨hd, -, hknown, hid⟩ := register_kept h d
    obtain ⟨hb, hlater, hknown', hid'⟩ := register_kept hd b
    have hl' : ((r.register d).2.register b).2.Later r' := ⟨hl.context, hl.renames, hl.ledger⟩
    have hderived : (r.register d).1 = r'.ledger.idOf d :=
      hid.trans ((hlater.trans hl').idOf_eq hd h' hknown).symm
    have hbase : ((r.register d).2.register b).1 = r'.ledger.idOf b :=
      hid'.trans (hl'.idOf_eq hb h' hknown').symm
    show (r.added.add (r.register d).1 ⟨a, ((r.register d).2.register b).1, v⟩).bases id = _
    rw [hderived, hbase]
    by_cases he : r'.ledger.idOf d = id
    · subst he
      rw [Inheritance.bases_add_self, edgeFor?, if_pos rfl]
      rfl
    · rw [Inheritance.bases_add_of_ne _ (Ne.symm he), edgeFor?, if_neg he]
      exact (List.append_nil _).symm

/-- **Calls state bases in their order** (`edgeFor?`). -/
theorem bases_added_after (h : r.Kept) (calls : List Call) (id : TypeId) :
    (r.after calls).added.bases id =
      r.added.bases id ++ calls.filterMap (Call.edgeFor? (r.after calls).ledger id) := by
  induction calls generalizing r with
  | nil => exact (List.append_nil _).symm
  | cons c cs ih =>
    obtain ⟨hk, -⟩ := c.kept h
    obtain ⟨hk', hl⟩ := kept_after hk cs
    have hcall : (c.run r).added.bases id =
        r.added.bases id ++ (c.edgeFor? (r.after (c :: cs)).ledger id).toList :=
      c.added_run h hk' hl id
    show ((c.run r).after cs).added.bases id = _
    rw [ih hk, hcall, List.append_assoc, List.filterMap_cons]
    cases c.edgeFor? (r.after (c :: cs)).ledger id <;> rfl

/-- **The bases of a class behind a sequence of calls:** those that it declares, then those that
calls have stated for it (`edgeFor?`). -/
theorem Fresh.bases_after (hr : r.Fresh) (calls : List Call) {id : TypeId} {record : TypeRecord}
    {bs : List BaseEdge} (hrec : (r.after calls).record? id = some record)
    (hbs : record.body.classBases? = some bs) :
    (r.after calls).bases id = bs ∧ ∃ t d, (r.after calls).lookup? t = some id ∧
      t.hasSugar = false ∧ r.context.recordOf? t = some d ∧ d.key = .classKey ∧
      bs = d.bases.map (r.after calls).ledger.edge ++
        calls.filterMap (Call.edgeFor? (r.after calls).ledger id) := by
  obtain ⟨hk, hl⟩ := kept_after hr.kept calls
  obtain ⟨row, hm, rfl, rfl⟩ | ⟨s, -, -, rfl⟩ := row_or_fundamental_of_record? hrec
  · have hbody : ((r.after calls).body row).classBases? = some bs := hbs
    rw [classBases?_body] at hbody
    split at hbody
    · rename_i hclass
      cases hbody
      rw [Context.isClass, Option.any_eq_true] at hclass
      obtain ⟨d, hd, hkey⟩ := hclass
      refine ⟨rfl, row.type, d, hk.sound.row_memo row hm, hk.sound.row_type row hm,
        hl.context ▸ hd, by simpa using hkey, ?_⟩
      rw [bases, declaredBases, hk.row?_of_mem hm, Option.elim_some, declaredIn_eq,
        Context.basesOf, hd, bases_added_after hr.kept, hr.added]
      rfl
    · cases hbody
  · cases hbs

end Registry

/-! ## 2. Environments -/

/-- Every class of the layer has the same bases in its record and beside it. -/
def Layer.BasesAgree (l : Layer) : Prop :=
  ∀ i record bs, l.records.lookup i = some record → record.body.classBases? = some bs →
    l.inheritance.bases i = bs

theorem Layer.basesAgree_empty : Layer.BasesAgree {} := fun _ _ _ h => nomatch h

theorem Layer.basesAgree_fundamental : Layer.fundamental.BasesAgree := by
  intro i record bs h hbs
  obtain ⟨p, -, hp⟩ := List.mem_map.1 (Keyed.mem_of_lookup h)
  cases hp
  cases hbs

/-- **An entry for a class states the same bases twice:** `BasesAgree` holds again, whatever was
there before. -/
theorem Layer.BasesAgree.accept {l : Layer} (h : l.BasesAgree) {e : Entry} {tag : Tag}
    {r : TypeRecord} {edges : List BaseEdge} (hr : e.readRecord tag = .ok (r, edges)) :
    (l.accept r edges).BasesAgree := by
  intro i record bs hi hbs
  by_cases he : i = r.id
  · subst he
    rw [Layer.accept, Keyed.lookup_set_self] at hi
    cases hi
    rw [Layer.accept, Inheritance.bases_replace_self]
    obtain ⟨-, -, complete, hbody⟩ := Entry.readAs_of_readRecord hr
    generalize r.body = body at hbody hbs
    cases hbody with
    | @aggregate key ms hms =>
      cases key with
      | classKey => exact Option.some.inj hbs
      | _ => cases hbs
    | _ => cases hbs
  · rw [Layer.accept, Keyed.lookup_set_of_ne he] at hi
    rw [Layer.accept, Inheritance.bases_replace_of_ne _ he]
    exact h i record bs hi hbs

namespace Environment

/-- In all layers the bases of classes agree. -/
def BasesAgree (env : Environment) : Prop := ∀ l ∈ env.layers, l.BasesAgree

variable {env : Environment}

theorem BasesAgree.add (h : env.BasesAgree) (es : List Entry) (k : Naming) :
    (env.add es k).1.1.BasesAgree := by
  induction es generalizing env k with
  | nil => exact h
  | cons e es ih =>
    rw [add_cons]
    cases hr : e.readRecord (k.tagEntry e).1 with
    | error f => exact h
    | ok v =>
      refine ih (fun l hl => ?_) _
      rcases List.mem_cons.1 hl with rfl | hl
      · exact (h env.top List.mem_cons_self).accept hr
      · exact h l (List.mem_cons_of_mem _ hl)

/-- **Entries keep the bases of classes in agreement** (`BasesAgree`), also those in front of one
with a fault. -/
theorem Reached.basesAgree (h : env.Reached) : env.BasesAgree := by
  induction h with
  | initial =>
    intro l hl
    obtain rfl := List.mem_singleton.1 hl
    exact Layer.basesAgree_fundamental
  | add _ es k ih => exact ih.add es k
  | @extend env env' _ es k he ih =>
    rw [← add_of_checked he]
    refine BasesAgree.add (fun l hl => ?_) es k
    rcases List.mem_cons.1 hl with rfl | hl
    · exact Layer.basesAgree_empty
    · exact ih l hl

/-- A record is found in the layer in which its bases are. -/
theorem basesIn_eq {ls : List Layer} (h : ∀ l ∈ ls, l.BasesAgree) {i : TypeId} {record : TypeRecord}
    {bs : List BaseEdge} (hi : lookupIn i ls = some record)
    (hbs : record.body.classBases? = some bs) : basesIn i ls = bs := by
  induction ls with
  | nil => cases hi
  | cons l ls ih =>
    rw [lookupIn] at hi
    rw [basesIn, Keyed.has]
    cases hl : l.records.lookup i with
    | some r =>
      rw [hl] at hi
      cases hi
      exact h l List.mem_cons_self i record bs hl hbs
    | none =>
      rw [hl] at hi
      exact ih (fun l' hl' => h l' (List.mem_cons_of_mem _ hl')) hi

end Environment

/-! ## 3. Both -/

namespace Registry

/-- **The bases of a class are the same in its record and beside it.** A `Stocked` registry, which
stores records and states bases beside them as it meets them, gives the same identifiers; behind
every sequence of calls the bases in the stored records (`classBases?`) are those of the classes,
those beside the records are the same, and both are the bases that the class declares and then those
that were stated late, in the order of the calls and as often as they were stated. In every
environment that is made of entries a class has the same bases in its record and beside it. -/
theorem bases_agree {r : Registry} (hr : r.Fresh) (calls : List Call) {env : Environment}
    (he : env.Reached) :
    let f := (Stocked.mk r {}).after calls
    f.registry = r.after calls ∧
      (∀ id, f.classBases? id =
        ((r.after calls).record? id).bind fun record => record.body.classBases?) ∧
      (∀ id bs, f.classBases? id = some bs → f.bases id = bs ∧
        (r.after calls).bases id = bs ∧ ∃ t d, (r.after calls).lookup? t = some id ∧
          t.hasSugar = false ∧ r.context.recordOf? t = some d ∧ d.key = .classKey ∧
          bs = d.bases.map (r.after calls).ledger.edge ++
            calls.filterMap (Call.edgeFor? (r.after calls).ledger id)) ∧
      ∀ id record bs, env.lookup? id = some record → record.body.classBases? = some bs →
        env.baseEdges id = bs := by
  intro f
  obtain ⟨hregistry, hkept⟩ : f.registry = r.after calls ∧ f.Kept :=
    Stocked.kept_after (Stocked.kept_fresh hr) calls
  have hrecords : ∀ id, f.classBases? id =
      ((r.after calls).record? id).bind fun record => record.body.classBases? := by
    intro id
    rw [Stocked.classBases?, hkept.record?_eq, hregistry]
  refine ⟨hregistry, hrecords, fun id bs hid => ?_,
    fun id record bs hi hbs => Environment.basesIn_eq he.basesAgree hi hbs⟩
  rw [hrecords, Option.bind_eq_some_iff] at hid
  obtain ⟨record, hrecord, hbs⟩ := hid
  obtain ⟨heq, hdeclared⟩ := hr.bases_after calls hrecord hbs
  exact ⟨(hkept.bases_eq id).trans (hregistry ▸ heq), heq, hdeclared⟩

/-- Two classes; the second has the first as a base. -/
def roundContext : Context where
  records := [⟨.classKey, some "Shape", some [], []⟩,
    ⟨.classKey, some "Round", some [], [⟨.record .none ⟨0⟩, .pub, false⟩]⟩]

/-- The base is stated once more, virtual, before the class is asked for its name. -/
def roundCalls : List Call :=
  [.register (.record .none ⟨1⟩),
    .addInheritance (.record .none ⟨1⟩) (.record .none ⟨0⟩) .priv true, .nameOf ⟨"Class0"⟩]

/-- A class with a base, then without, then an entry with a fault. -/
def roundEntries : List Entry :=
  [{ kind := "classType", type := ⟨"Class0"⟩, bases := [⟨"public", ⟨"Class1"⟩, none⟩] },
    { kind := "classType", type := ⟨"Class0"⟩ },
    { kind := "classType", type := ⟨"Class0"⟩, bases := [⟨"secret", ⟨"Class1"⟩, none⟩] }]

/-- The class has its base twice, in its record and beside it; in the environment the second entry
counts. -/
theorem bases_agree_round :
    ((Stocked.mk ⟨roundContext, {}, {}, none, false, .quiet⟩ {}).after roundCalls).classBases?
        ⟨"Class0"⟩ = some [⟨.pub, ⟨"Class1"⟩, false⟩, ⟨.priv, ⟨"Class1"⟩, true⟩] ∧
      ((Stocked.mk ⟨roundContext, {}, {}, none, false, .quiet⟩ {}).after roundCalls).bases
        ⟨"Class0"⟩ = [⟨.pub, ⟨"Class1"⟩, false⟩, ⟨.priv, ⟨"Class1"⟩, true⟩] ∧
      (Environment.initial.add roundEntries {}).1.2.isSome ∧
      (Environment.initial.add roundEntries {}).1.1.baseEdges ⟨"Class0"⟩ = [] := by
  let r : Registry := ⟨roundContext, {}, {}, none, false, .quiet⟩
  let env := (Environment.initial.add roundEntries {}).1.1
  let bs : List BaseEdge := [⟨.pub, ⟨"Class1"⟩, false⟩, ⟨.priv, ⟨"Class1"⟩, true⟩]
  let ledger := (Ledger.settleFor roundContext .quiet 2 [.visit (.record .none ⟨1⟩)] {}).get rfl
  obtain ⟨-, hrecords, hbooks, henv⟩ :=
    bases_agree (r := r) ⟨rfl, rfl, rfl, rfl, rfl⟩ roundCalls
      (Environment.Reached.initial.add roundEntries {})
  have hnew : Ledger.register roundContext .quiet (.record .none ⟨1⟩) {} = ledger :=
    Ledger.register_eq_of_settleFor 2 rfl
  have hderived : Ledger.register roundContext .quiet (.record .none ⟨1⟩) ledger = ledger :=
    Ledger.register_eq_of_settleFor 1 rfl
  have hbase : Ledger.register roundContext .quiet (.record .none ⟨0⟩) ledger = ledger :=
    Ledger.register_eq_of_settleFor 1 rfl
  have hrecord : ((r.after roundCalls).record? ⟨"Class0"⟩).bind
      (fun record => record.body.classBases?) = some bs := by
    simp only [r, roundCalls, after, List.foldl, Call.run, addInheritance, register, hnew, hderived,
      hbase]
    decide +kernel
  have hlookup := (hrecords ⟨"Class0"⟩).trans hrecord
  refine ⟨hlookup, (hbooks _ _ hlookup).1, by decide +kernel, ?_⟩
  exact henv ⟨"Class0"⟩ ⟨⟨"Class0"⟩, .none, .aggregate .classKey (.anonymous 1) false [] []⟩ []
    (by decide +kernel) rfl

end Registry

end TypeLedger
