import TypeLedger.Proofs.Printing.Fresh
import TypeLedger.Proofs.Registration.Calls

/-!
# Names behind registrations

* `Naming.Orderly`: names are given to serial numbers in use only, and no two of them are equal.
* `Ledger.settle_keeps`: what each step of a registration keeps, the whole registration keeps.
* `Registry.named_after`: behind any sequence of calls the naming is orderly, and the serial numbers
  of the rows are in use.
-/

namespace TypeLedger

namespace Naming

/-- Names have been made up for serial numbers in use only, and no two of them are equal. -/
structure Orderly (k : Naming) : Prop extends Distinct [] k where
  serials : ∀ s n, k.given.lookup s = some n → s < k.serials

theorem orderly_of_given_nil {k : Naming} (h : k.given = []) : k.Orderly := by
  refine ⟨distinct_of_given_nil h (List.forall_mem_nil _), fun s n hn => ?_⟩
  rw [h] at hn
  cases hn

/-- No made-up name is empty. -/
theorem Orderly.ne_empty {k : Naming} (h : k.Orderly) {s : Nat} {n : String}
    (hn : k.given.lookup s = some n) : n ≠ "" := by
  rintro rfl
  have hid := (h.made s "" hn).2.2
  revert hid
  decide

/-- More reserved names and more serial numbers do no harm. -/
theorem Orderly.mono {k k' : Naming} (h : k.Orderly) (hg : k'.given = k.given)
    (ht : ∀ n ∈ k.namer.taken, n ∈ k'.namer.taken) (hs : k.serials ≤ k'.serials) : k'.Orderly := by
  refine ⟨h.toDistinct.mono hg ht, fun s n hn => ?_⟩
  rw [hg] at hn
  exact Nat.lt_of_lt_of_le (h.serials s n hn) hs

/-- The serial number of a tag is in use. -/
def InUse (k : Naming) (t : Tag) : Prop := ∀ s, t = .anonymous s → s < k.serials

theorem Orderly.name {k : Naming} (h : k.Orderly) {t : Tag} (ht : k.InUse t) :
    (Naming.name t k).2.Orderly ∧ (Naming.name t k).2.serials = k.serials := by
  have hd := h.toDistinct.name t
  cases t with
  | named m => exact ⟨h, rfl⟩
  | anonymous s =>
    have hser : (Naming.name (.anonymous s) k).2.serials = k.serials := by
      unfold Naming.name
      simp only
      split <;> rfl
    refine ⟨⟨hd, fun u n hn => ?_⟩, hser⟩
    rw [hser]
    revert hn
    unfold Naming.name
    simp only
    split
    · exact h.serials u n
    · intro hn
      by_cases hus : u = s
      · subst hus
        exact ht u rfl
      · rw [List.lookup_cons, beq_eq_false_iff_ne.2 hus] at hn
        exact h.serials u n hn

end Naming

namespace Ledger

variable {ctx : Context} {detail : Detail}

/-! ## 1. Registering makes up no name -/

/-- The tag of a type that is entered now, and the naming behind it. -/
theorem tagFor_spec (k : Naming) (name : Option (Option String)) :
    (tagFor k name).2.given = k.given ∧ (∀ n ∈ k.namer.taken, n ∈ (tagFor k name).2.namer.taken) ∧
      k.serials ≤ (tagFor k name).2.serials ∧
      ∀ t, (tagFor k name).1 = some t → (tagFor k name).2.InUse t := by
  have htag : ∀ (k : Naming) (o : Option String), (k.tag o).2.given = k.given ∧
      (k.tag o).2.namer = k.namer ∧ k.serials ≤ (k.tag o).2.serials ∧
      (k.tag o).2.InUse (k.tag o).1 := by
    intro k o
    unfold Naming.tag
    split
    · split
      · exact ⟨rfl, rfl, Nat.le_succ _, fun s hs => by cases hs; exact Nat.lt_succ_self _⟩
      · exact ⟨rfl, rfl, Nat.le_refl _, fun s hs => nomatch hs⟩
    · exact ⟨rfl, rfl, Nat.le_succ _, fun s hs => by cases hs; exact Nat.lt_succ_self _⟩
  cases name with
  | none => exact ⟨rfl, fun n hn => hn, Nat.le_refl _, fun t ht => nomatch ht⟩
  | some o =>
    rw [tagFor]
    obtain ⟨hg, hn, hs, hu⟩ := htag (o.elim k k.reserve) o
    refine ⟨?_, ?_, ?_, fun t ht => ?_⟩
    · rw [hg]
      cases o <;> rfl
    · intro n hm
      rw [hn]
      cases o with
      | none => exact hm
      | some m => exact List.mem_cons_of_mem _ hm
    · refine Nat.le_trans ?_ hs
      cases o <;> exact Nat.le_refl _
    · obtain rfl := Option.some.inj ht
      exact hu

/-- What each step of a run keeps, the run keeps. -/
theorem settle_keeps {P : Ledger → Prop} (hnote : ∀ l n, P l → P (l.note detail n))
    (hsynonym : ∀ t l, P l → P (l.enterSynonym ctx detail t))
    (henter : ∀ t l, P l → P (l.enter ctx detail t)) {ts : List CType} {tasks : List Task}
    (covered : Covered (ctx.closure ts) tasks) {l : Ledger} (h : P l) :
    P (l.settle ctx detail ts tasks covered) := by
  fun_induction Ledger.settle ctx detail ts tasks covered l with
  | case1 l => exact h
  | case2 l t tasks _ _ ih => exact ih (hsynonym t l h)
  | case3 l t tasks _ hn _ ih => exact ih h
  | case4 l t tasks _ hn id hl _ ih => exact ih (hnote l _ h)
  | case5 l t tasks _ hn hl hs _ ih => exact ih h
  | case6 l t tasks _ hn hl hs _ ih => exact ih (henter t l h)

/-- The naming is `Orderly`, and the serial numbers of the rows are `InUse`. -/
structure Named (l : Ledger) : Prop where
  naming : l.naming.Orderly
  rows : ∀ row ∈ l.rows, ∀ t, row.tag = some t → l.naming.InUse t

theorem Named.congr {l l' : Ledger} (h : l.Named) (hr : l'.rows = l.rows)
    (hk : l'.naming = l.naming) : l'.Named := by
  refine ⟨hk ▸ h.naming, fun row hm => ?_⟩
  rw [hr] at hm
  rw [hk]
  exact h.rows row hm

theorem Named.note {l : Ledger} (h : l.Named) (n : Notice) : (l.note detail n).Named :=
  h.congr (rows_note _ _ _) (naming_note _ _ _)

theorem Named.enterSynonym {l : Ledger} (h : l.Named) (t : CType) :
    (l.enterSynonym ctx detail t).Named := by
  have hn : (l.note detail (.synonym (l.idOf t.desugar) (ctx.describe t))).Named := h.note _
  exact hn.congr rfl rfl

theorem Named.enter {l : Ledger} (h : l.Named) (t : CType) : (l.enter ctx detail t).Named := by
  unfold Ledger.enter
  split
  · rename_i c _
    obtain ⟨hg, ht, hs, hu⟩ := tagFor_spec l.naming (ctx.tagName? t)
    refine Named.note ⟨h.naming.mono hg ht hs, fun row hm u hru => ?_⟩ _
    rcases List.mem_append.1 hm with hm | hm
    · exact fun s he => Nat.lt_of_lt_of_le (h.rows row hm u hru s he) hs
    · obtain rfl := List.mem_singleton.1 hm
      exact hu u hru
  · exact h.congr rfl rfl

theorem Named.register {l : Ledger} (h : l.Named) (t : CType) :
    (l.register ctx detail t).Named :=
  settle_keeps (P := Named) (fun _ n hl => hl.note n) (fun t _ hl => hl.enterSynonym t)
    (fun t _ hl => hl.enter t) _ h

theorem given_enter (t : CType) (l : Ledger) :
    (l.enter ctx detail t).naming.given = l.naming.given := by
  unfold enter
  split
  · unfold enterRow
    rw [naming_note]
    exact (tagFor_spec _ _).1
  · rfl

/-- **A registration gives no name.** -/
theorem given_register (t : CType) (l : Ledger) :
    (l.register ctx detail t).naming.given = l.naming.given := by
  refine settle_keeps (P := fun l' => l'.naming.given = l.naming.given) (fun l' n h => ?_)
    (fun s l' h => ?_) (fun s l' h => ?_) _ rfl
  · rw [naming_note, h]
  · exact (congrArg Naming.given (naming_note _ _ _)).trans h
  · rw [given_enter, h]

end Ledger

namespace Registry

/-! ## 2. Behind a sequence of calls -/

theorem Fresh.named {r : Registry} (h : r.Fresh) (hk : r.ledger.naming.Orderly) :
    r.ledger.Named := by
  refine ⟨hk, fun row hm => ?_⟩
  rw [h.rows] at hm
  cases hm

theorem named_nameOf {r : Registry} (h : r.ledger.Named) (id : TypeId) :
    (r.nameOf id).2.ledger.Named := by
  unfold nameOf
  split
  · rename_i tag ht
    obtain ⟨row, hrow, htag⟩ := Option.bind_eq_some_iff.1 ht
    have huse := h.rows row (mem_of_row? hrow).1 tag htag
    obtain ⟨hk, hs⟩ := h.naming.name huse
    refine ⟨hk, fun row' hm t hrt s he => ?_⟩
    have hlt := h.rows row' hm t hrt s he
    exact hs ▸ hlt
  · exact h

theorem Call.named {r : Registry} (h : r.ledger.Named) (c : Call) : (c.run r).ledger.Named := by
  cases c with
  | register t => exact h.register t
  | typeName t => exact h.register t
  | addInheritance d b a v => exact Ledger.Named.register (Ledger.Named.register h d) b
  | nameOf id => exact named_nameOf h id

/-- **Every sequence of calls keeps the naming orderly** (`Named`). -/
theorem named_after {r : Registry} (h : r.ledger.Named) (calls : List Call) :
    (r.after calls).ledger.Named := by
  induction calls generalizing r with
  | nil => exact h
  | cons c cs ih => exact ih (c.named h)

end Registry

end TypeLedger
