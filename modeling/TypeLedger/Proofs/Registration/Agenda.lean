import TypeLedger.Proofs.Registration.Invariant
import TypeLedger.Registry

/-!
# Working off an agenda

* `Agenda`: the ledger is sound, every type that a row refers to is known or still on the agenda,
  and no type takes the identifier of its canonical form before that form is entered.
* `settle_spec`: the step lemma of each task keeps the agenda, so a run ends in a sound and closed
  ledger that knows every type that was to be visited.
* `Ledger.register_spec`: the same for one registration; `Registry.Kept` for any number of them.
* `settleFor`: a run with a count of its tasks, by which runs on given types are evaluated.
-/

namespace TypeLedger

namespace Ledger

variable {ctx : Context} {detail : Detail}

/-! ## 1. Agendas -/

/-- The type will have its identifier when the tasks are done. -/
def Promised (tasks : List Task) (t : CType) : Prop :=
  .visit t ∈ tasks ∨ .conclude t ∈ tasks

/-- When the turn of a type comes to take the identifier of its canonical form, the form is known,
or it is among the types `ahead` or visited further up. -/
def Prepared (l : Ledger) (ahead : List CType) : List Task → Prop
  | [] => True
  | .visit t :: tasks => Prepared l (t :: ahead) tasks
  | .conclude t :: tasks =>
    t.hasSugar = true ∧ (l.Known t.desugar ∨ t.desugar ∈ ahead) ∧ Prepared l ahead tasks

theorem Prepared.mono {l l' : Ledger} {tasks : List Task} :
    ∀ {ahead ahead' : List CType}, Prepared l ahead tasks →
      (∀ u : CType, u.hasSugar = false → l.Known u ∨ u ∈ ahead → l'.Known u ∨ u ∈ ahead') →
      Prepared l' ahead' tasks := by
  induction tasks with
  | nil => intro _ _ _ _; trivial
  | cons task tasks ih =>
    intro ahead ahead' h hu
    cases task with
    | visit t =>
      refine ih h fun u hs hm => ?_
      rcases hm with hm | hm
      · exact (hu u hs (.inl hm)).imp_right (List.mem_cons_of_mem _)
      · rcases List.mem_cons.1 hm with rfl | hm
        · exact .inr List.mem_cons_self
        · exact (hu u hs (.inr hm)).imp_right (List.mem_cons_of_mem _)
    | conclude t =>
      exact ⟨h.1, hu _ (CType.hasSugar_desugar t) h.2.1, ih h.2.2 hu⟩

theorem prepared_visits {l : Ledger} {ts : List CType} {tasks : List Task} :
    ∀ {ahead : List CType}, (∀ ahead', (∀ u, u ∈ ahead ∨ u ∈ ts → u ∈ ahead') →
      Prepared l ahead' tasks) → Prepared l ahead (ts.map Task.visit ++ tasks) := by
  induction ts with
  | nil => intro ahead h; exact h ahead fun u hu => by simpa using hu
  | cons t ts ih =>
    intro ahead h
    refine ih fun ahead' hm => h ahead' fun u hu => ?_
    rcases hu with hu | hu
    · exact hm u (.inl (List.mem_cons_of_mem _ hu))
    · rcases List.mem_cons.1 hu with rfl | hu
      · exact hm u (.inl List.mem_cons_self)
      · exact hm u (.inr hu)

/-- What holds between two steps: the ledger is sound, and what is missing is still to come. -/
structure Agenda (ctx : Context) (l : Ledger) (tasks : List Task) : Prop where
  sound : l.Sound ctx
  prepared : Prepared l [] tasks
  pending : ∀ row ∈ l.rows, ∀ c ∈ ctx.components row.type, l.Known c ∨ Promised tasks c

/-! ## 2. One task -/

/-- A step keeps the agenda: it forgets nothing, and what was to come is done or still to come. -/
structure Progress (ctx : Context) (l : Ledger) (tasks : List Task) (l' : Ledger)
    (tasks' : List Task) : Prop where
  agenda : Agenda ctx l' tasks'
  extends_ : l.Extends l'
  promise : ∀ t, Promised tasks t → l'.Known t ∨ Promised tasks' t

theorem promised_cons {task : Task} {tasks : List Task} {t : CType}
    (h : Promised (task :: tasks) t) :
    task = .visit t ∨ task = .conclude t ∨ Promised tasks t := by
  rcases h with h | h
  · rcases List.mem_cons.1 h with h | h
    · exact .inl h.symm
    · exact .inr (.inr (.inl h))
  · rcases List.mem_cons.1 h with h | h
    · exact .inr (.inl h.symm)
    · exact .inr (.inr (.inr h))

/-- A step that enters no row keeps the `Agenda` if it keeps the promises. -/
theorem Progress.ofRows {l l' : Ledger} {tasks tasks' : List Task} (h : Agenda ctx l tasks)
    (hs : l'.Sound ctx) (hp : Prepared l' [] tasks') (he : l.Extends l') (hr : l'.rows = l.rows)
    (hpr : ∀ t, Promised tasks t → l'.Known t ∨ Promised tasks' t) :
    Progress ctx l tasks l' tasks' := by
  refine ⟨⟨hs, hp, fun row hrow c hc => ?_⟩, he, hpr⟩
  rw [hr] at hrow
  rcases h.pending row hrow c hc with hk | hm
  · exact .inl (hk.mono he)
  · exact hpr c hm

/-- A type that is `Known` already is passed over. -/
theorem Progress.known {l l' : Ledger} {t : CType} {tasks : List Task}
    (h : Agenda ctx l (.visit t :: tasks)) (hk : l.Known t) (hs : l'.Sound ctx)
    (he : l.Extends l') (hr : l'.rows = l.rows) :
    Progress ctx l (.visit t :: tasks) l' tasks := by
  have hp : Prepared l [t] tasks := h.prepared
  refine .ofRows h hs (hp.mono fun u _ hu => ?_) he hr fun u hu => ?_
  · rcases hu with hu | hu
    · exact .inl (hu.mono he)
    · rw [List.mem_singleton] at hu
      exact .inl (hu ▸ hk.mono he)
  · rcases promised_cons hu with hu | hu | hu
    · cases hu
      exact .inl (hk.mono he)
    · cases hu
    · exact .inr hu

/-- A type with synonyms is taken up by its canonical form. -/
theorem Progress.desugar {l : Ledger} {t : CType} {tasks : List Task}
    (h : Agenda ctx l (.visit t :: tasks)) (hs : t.hasSugar = true) :
    Progress ctx l (.visit t :: tasks) l (.visit t.desugar :: .conclude t :: tasks) := by
  have hp : Prepared l [t] tasks := h.prepared
  refine .ofRows h h.sound ⟨hs, .inr List.mem_cons_self, hp.mono fun u hu hm => ?_⟩
    (.refl l) rfl fun u hu => ?_
  · rcases hm with hm | hm
    · exact .inl hm
    · rw [List.mem_singleton] at hm
      rw [hm, hs] at hu
      cases hu
  · rcases promised_cons hu with hu | hu | hu
    · cases hu
      exact .inr (.inr (List.mem_cons_of_mem _ List.mem_cons_self))
    · cases hu
    · exact .inr (hu.imp (fun hm => List.mem_cons_of_mem _ (List.mem_cons_of_mem _ hm))
        (fun hm => List.mem_cons_of_mem _ (List.mem_cons_of_mem _ hm)))

/-- A type with synonyms takes the identifier of its canonical form. -/
theorem Progress.conclude {l : Ledger} {t : CType} {tasks : List Task}
    (h : Agenda ctx l (.conclude t :: tasks)) :
    Progress ctx l (.conclude t :: tasks) (l.enterSynonym ctx detail t) tasks := by
  obtain ⟨hs, hk, hp⟩ := h.prepared
  have hk : l.Known t.desugar := by
    rcases hk with hk | hk
    · exact hk
    · cases hk
  obtain ⟨hsound, he⟩ :
      (l.enterSynonym ctx detail t).Sound ctx ∧ l.Extends (l.enterSynonym ctx detail t) :=
    h.sound.enterSynonym hs hk
  refine .ofRows h hsound (hp.mono fun u _ hu => hu.imp_left (·.mono he)) he
    (rows_note _ _ _) fun u hu => ?_
  rcases promised_cons hu with hu | hu | hu
  · cases hu
  · cases hu
    refine .inl (.inr ?_)
    rw [memo_enterSynonym, Keyed.lookup_set_self]
    rfl
  · exact .inr hu

/-- The rows behind the entry of a canonical type: at most that of the type is new. -/
theorem mem_rows_enter {l : Ledger} {t : CType} {row : Row}
    (h : row ∈ (l.enter ctx detail t).rows) : row ∈ l.rows ∨ row.type = t := by
  unfold enter at h
  split at h
  · rw [rows_enterRow] at h
    rcases List.mem_append.1 h with h | h
    · exact .inl h
    · rw [List.mem_singleton] at h
      exact .inr (by rw [h]; rfl)
  · exact .inl h

/-- **A canonical type is entered before the types it refers to,** which come next. -/
theorem Progress.enter {l : Ledger} {t : CType} {tasks : List Task}
    (h : Agenda ctx l (.visit t :: tasks)) (hn : t.isNull = false) (hl : l.memo.lookup t = none)
    (hs : t.hasSugar = false) :
    Progress ctx l (.visit t :: tasks) (l.enter ctx detail t)
      ((ctx.components t).map .visit ++ tasks) := by
  have he : l.Extends (l.enter ctx detail t) := extends_enter hl
  have hk : (l.enter ctx detail t).Known t := known_of_lookup lookup_enter_self
  have hpr : ∀ u, Promised (.visit t :: tasks) u →
      (l.enter ctx detail t).Known u ∨ Promised ((ctx.components t).map .visit ++ tasks) u := by
    intro u hu
    rcases promised_cons hu with hu | hu | hu
    · cases hu
      exact .inl hk
    · cases hu
    · exact .inr (hu.imp (List.mem_append_right _) (List.mem_append_right _))
  refine ⟨⟨h.sound.enter hl hn hs, ?_, fun row hrow c hc => ?_⟩, he, hpr⟩
  · have hp : Prepared l [t] tasks := h.prepared
    refine prepared_visits fun ahead _ => hp.mono fun u _ hu => ?_
    rcases hu with hu | hu
    · exact .inl (hu.mono he)
    · rw [List.mem_singleton] at hu
      exact .inl (hu ▸ hk)
  · rcases mem_rows_enter hrow with hrow | rfl
    · rcases h.pending row hrow c hc with hm | hm
      · exact .inl (hm.mono he)
      · exact hpr c hm
    · exact .inr (.inl (List.mem_append_left _ (List.mem_map_of_mem hc)))

/-! ## 3. A whole run -/

/-- What a run leaves behind. -/
structure Settled (ctx : Context) (l : Ledger) (tasks : List Task) (l' : Ledger) : Prop where
  sound : l'.Sound ctx
  closed : l'.Closed ctx
  extends_ : l.Extends l'
  known : ∀ t, Promised tasks t → l'.Known t

theorem Progress.settled {l l' l'' : Ledger} {tasks tasks' : List Task}
    (h : Progress ctx l tasks l' tasks') (h' : Settled ctx l' tasks' l'') :
    Settled ctx l tasks l'' := by
  refine ⟨h'.sound, h'.closed, h.extends_.trans h'.extends_, fun t ht => ?_⟩
  rcases h.promise t ht with hk | hp
  · exact hk.mono h'.extends_
  · exact h'.known t hp

/-- **A run ends in a sound and closed ledger that knows all it was asked for.** The induction is on
the run; `Agenda` is what carries it. -/
theorem settle_spec (ts : List CType) (tasks : List Task)
    (covered : Covered (ctx.closure ts) tasks) (l : Ledger) (h : Agenda ctx l tasks) :
    Settled ctx l tasks (l.settle ctx detail ts tasks covered) := by
  fun_induction settle ctx detail ts tasks covered l with
  | case1 l =>
    refine ⟨h.sound, fun row hrow c hc => ?_, .refl l, fun t ht => ?_⟩
    · rcases h.pending row hrow c hc with hk | hp | hp
      · exact hk
      · cases hp
      · cases hp
    · rcases ht with ht | ht <;> cases ht
  | case2 l t tasks _ _ ih =>
    have hp : Progress ctx l _ (l.enterSynonym ctx detail t) tasks := .conclude h
    exact hp.settled (ih hp.agenda)
  | case3 l t tasks _ hn _ ih =>
    have hp := Progress.known h (.inl hn) h.sound (.refl l) rfl
    exact hp.settled (ih hp.agenda)
  | case4 l t tasks _ hn id hl _ ih =>
    have hs := h.sound.note detail (.hit id (ctx.describe t))
    have hp := Progress.known h (known_of_lookup hl) hs (extends_note _ _ _) (rows_note _ _ _)
    exact hp.settled (ih hp.agenda)
  | case5 l t tasks _ hn hl hs _ ih =>
    have hp := Progress.desugar h hs
    exact hp.settled (ih hp.agenda)
  | case6 l t tasks _ hn hl hs _ ih =>
    have hp : Progress ctx l _ (l.enter ctx detail t) ((ctx.components t).map .visit ++ tasks) :=
      .enter h (by simpa using hn) hl (by simpa using hs)
    exact hp.settled (ih hp.agenda)

/-- **One registration** keeps a ledger `Sound` and `Closed`, forgets nothing and makes the type
known. -/
theorem register_spec {l : Ledger} (t : CType) (hs : l.Sound ctx) (hc : l.Closed ctx) :
    Settled ctx l [.visit t] (l.register ctx detail t) :=
  settle_spec _ _ _ l ⟨hs, trivial, fun row hrow c h => .inl (hc row hrow c h)⟩

/-! ## 4. Runs step by step -/

/-- Works off an agenda on which at most `n` tasks come up. -/
def settleFor (ctx : Context) (detail : Detail) : Nat → List Task → Ledger → Option Ledger
  | _, [], l => some l
  | 0, _ :: _, _ => none
  | n + 1, .conclude t :: tasks, l => settleFor ctx detail n tasks (l.enterSynonym ctx detail t)
  | n + 1, .visit t :: tasks, l =>
    if t.isNull then settleFor ctx detail n tasks l
    else
      match l.memo.lookup t with
      | some id => settleFor ctx detail n tasks (l.note detail (.hit id (ctx.describe t)))
      | none =>
        if t.hasSugar then settleFor ctx detail n (.visit t.desugar :: .conclude t :: tasks) l
        else settleFor ctx detail n ((ctx.components t).map .visit ++ tasks) (l.enter ctx detail t)

/-- A run that has been counted is the run. -/
theorem settle_eq_of_settleFor {ts : List CType} {tasks : List Task}
    (covered : Covered (ctx.closure ts) tasks) {l l' : Ledger} {n : Nat}
    (h : settleFor ctx detail n tasks l = some l') :
    l.settle ctx detail ts tasks covered = l' := by
  fun_induction settle ctx detail ts tasks covered l generalizing n with
  | case1 l =>
    rw [settleFor] at h
    exact Option.some.inj h
  | case2 l t tasks _ _ ih =>
    cases n with
    | zero => cases h
    | succ n => exact ih h
  | case3 l t tasks _ hn _ ih =>
    cases n with
    | zero => cases h
    | succ n =>
      rw [settleFor, if_pos hn] at h
      exact ih h
  | case4 l t tasks _ hn id hl _ ih =>
    cases n with
    | zero => cases h
    | succ n =>
      rw [settleFor, if_neg hn, hl] at h
      exact ih h
  | case5 l t tasks _ hn hl hs _ ih =>
    cases n with
    | zero => cases h
    | succ n =>
      simp only [settleFor, if_neg hn, hl, if_pos hs] at h
      exact ih h
  | case6 l t tasks _ hn hl hs _ ih =>
    cases n with
    | zero => cases h
    | succ n =>
      simp only [settleFor, if_neg hn, hl, if_neg hs] at h
      exact ih h

theorem register_eq_of_settleFor {t : CType} {l : Ledger} (n : Nat)
    (h : (settleFor ctx detail n [.visit t] l).isSome = true) :
    l.register ctx detail t = (settleFor ctx detail n [.visit t] l).get h :=
  settle_eq_of_settleFor _ (Option.some_get h).symm

end Ledger

end TypeLedger
