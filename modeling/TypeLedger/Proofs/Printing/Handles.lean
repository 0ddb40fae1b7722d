import Mathlib.Data.List.Nodup
import Mathlib.Data.List.Perm.Subperm
import Mathlib.Logic.Function.Basic
import Mathlib.Order.Bounds.Defs
import TypeLedger.Proofs.Printing.Fresh

/-!
# Namers that are shared

* `Namer.Search` is the search for a free number, one number after the other.
* `Sharing`: namers, the handles that lead to them, and slots for names. A handle may be copied;
  what is done through it is seen through all that lead to the same namer.
* `Namer.Step` is all that one action does to one namer (`step_act`). `Namer.Tracks` is what a step
  keeps: a namer has taken what was reserved with it and what it has made up, and its number has not
  passed over anything else.
* `fresh_names`: what a namer makes up is new, whatever is done through which handle.
-/

namespace TypeLedger

namespace Namer

/-! ## 1. The search for a free number -/

/-- From `n`, numbers with taken names are passed over, up to `m`. -/
inductive Search (taken : List String) : Nat → Nat → Prop
  | found {n : Nat} (h : numbered (n + 1) ∉ taken) : Search taken n (n + 1)
  | pass {n m : Nat} (h : numbered (n + 1) ∈ taken) (hs : Search taken (n + 1) m) :
    Search taken n m

/-- **The `Search` comes to an end** at `freeNumber`. The induction is on how many numbers are
passed over, all of which are below the free one. -/
theorem search_freeNumber (taken : List String) (n : Nat) :
    Search taken n (freeNumber taken n) := by
  obtain ⟨hlt, hfree⟩ := freeNumber_spec taken n
  have hbetween : ∀ i, n < i → i < freeNumber taken n → numbered i ∈ taken :=
    fun _ hi hi' => taken_of_lt_freeNumber hi hi'
  generalize freeNumber taken n = m at hlt hfree hbetween
  obtain ⟨d, rfl⟩ : ∃ d, m = n + d + 1 := ⟨m - n - 1, by omega⟩
  induction d generalizing n with
  | zero => exact .found hfree
  | succ d ih =>
    have he : n + (d + 1) + 1 = n + 1 + d + 1 := by omega
    rw [he] at hfree hbetween ⊢
    exact .pass (hbetween (n + 1) (by omega) (by omega))
      (ih (n + 1) (by omega) hfree fun i hi hi' => hbetween i (by omega) hi')

/-! ## 2. One namer -/

/-- What may be done to a namer, with the names that it makes up and those that are reserved. -/
inductive Step (k : Namer) : List String → List String → Namer → Prop
  | rest : Step k [] [] k
  | fresh : Step k [k.fresh.1] [] k.fresh.2
  | reserve (name : String) : Step k [] [name] (k.reserve name)

/-- The namer has made up the names `made`, all different, and the names `reserved` were reserved
with it. These are taken, and every number so far has one of these names. -/
structure Tracks (k : Namer) (made reserved : List String) : Prop where
  taken : ∀ n, n ∈ k.taken ↔ n ∈ made ∨ n ∈ reserved
  nodup : made.Nodup
  passed : ∀ m, 0 < m → m ≤ k.issued → numbered m ∈ k.taken

theorem tracks_new : Tracks {} [] [] where
  taken := fun _ => ⟨nofun, nofun⟩
  nodup := List.nodup_nil
  passed := fun _ hpos hle => absurd hle (Nat.not_le_of_lt hpos)

variable {k k' : Namer} {made reserved ms rs : List String}

/-- Names stay taken, the number never goes down, and what is made up was not taken. -/
theorem Step.grows (h : k.Step ms rs k') :
    (∀ n ∈ k.taken, n ∈ k'.taken) ∧ k.issued ≤ k'.issued ∧ ∀ n ∈ ms, n ∉ k.taken := by
  cases h with
  | rest => exact ⟨fun _ hn => hn, Nat.le_refl _, fun _ hn => nomatch hn⟩
  | fresh =>
    obtain ⟨hlt, hfree⟩ := freeNumber_spec k.taken k.issued
    refine ⟨fun _ hn => List.mem_cons_of_mem _ hn, Nat.le_of_lt hlt, fun n hn => ?_⟩
    rw [List.mem_singleton.1 hn]
    exact hfree
  | reserve name =>
    exact ⟨fun _ hn => List.mem_cons_of_mem _ hn, Nat.le_refl _, fun _ hn => nomatch hn⟩

/-- **A step keeps the account** (`Tracks`). -/
theorem Step.tracks (h : k.Step ms rs k') (ht : k.Tracks made reserved) :
    k'.Tracks (made ++ ms) (reserved ++ rs) := by
  cases h with
  | rest => rwa [List.append_nil, List.append_nil]
  | reserve name =>
    rw [List.append_nil]
    refine ⟨fun n => ?_, ht.nodup, fun m hpos hle => List.mem_cons_of_mem _ (ht.passed m hpos hle)⟩
    rw [Namer.reserve, List.mem_cons, ht.taken, List.mem_append, List.mem_singleton, or_comm,
      or_assoc]
  | fresh =>
    obtain ⟨-, hfree⟩ := freeNumber_spec k.taken k.issued
    have hnew : k.fresh.1 ∉ made := fun hm => hfree ((ht.taken _).2 (.inl hm))
    rw [List.append_nil]
    refine ⟨fun n => ?_, ?_, fun m hpos hle => ?_⟩
    · show n ∈ k.fresh.1 :: k.taken ↔ _
      rw [List.mem_cons, ht.taken, List.mem_append, List.mem_singleton, ← or_assoc,
        or_comm (b := n ∈ made)]
    · exact ht.nodup.append (List.nodup_singleton _) fun n hn hm =>
        hnew (List.mem_singleton.1 hm ▸ hn)
    · -- a number up to the new one is this one, was passed over just now, or was there before
      show numbered m ∈ k.fresh.1 :: k.taken
      by_cases hold : m ≤ k.issued
      · exact List.mem_cons_of_mem _ (ht.passed m hpos hold)
      · by_cases he : m = freeNumber k.taken k.issued
        · exact he ▸ List.mem_cons_self
        · exact List.mem_cons_of_mem _
            (taken_of_lt_freeNumber (by omega) (Nat.lt_of_le_of_ne hle he))

/-- The number is not above those of the names that were made up or reserved. -/
theorem Tracks.issued_le (h : k.Tracks made reserved) :
    k.issued ≤ made.length + reserved.length := by
  let names := (List.range k.issued).map fun i => numbered (i + 1)
  have hnodup : names.Nodup := List.nodup_range.map fun i j he =>
    Nat.succ.inj (numbered_injective he)
  have hsub : names ⊆ made ++ reserved := by
    intro n hn
    obtain ⟨i, hi, rfl⟩ := List.mem_map.1 hn
    rw [List.mem_append, ← h.taken]
    exact h.passed (i + 1) (Nat.succ_pos i) (List.mem_range.1 hi)
  have hlength := (hnodup.subperm hsub).length_le
  rwa [List.length_map, List.length_range, List.length_append] at hlength

/-- **What comes next** (`Namer.fresh`) is the name of the least number that is above and free. -/
theorem Tracks.isLeast_fresh (h : k.Tracks made reserved) :
    IsLeast {n | k.issued < n ∧ numbered n ∉ made ∧ numbered n ∉ reserved} k.fresh.2.issued := by
  obtain ⟨hlt, hfree⟩ := freeNumber_spec k.taken k.issued
  have hiff : ∀ n, numbered n ∉ k.taken ↔ numbered n ∉ made ∧ numbered n ∉ reserved := fun n => by
    rw [h.taken, not_or]
  refine ⟨⟨hlt, (hiff _).1 hfree⟩, fun n hn => Nat.le_of_not_lt fun hn' => ?_⟩
  exact (hiff n).2 hn.2 (taken_of_lt_freeNumber hn.1 hn')

end Namer

/-- A tag of a naming is named as a slot is: with the name that it has, or else a made-up one. -/
theorem Naming.name_slot (t : Tag) (k : Naming) :
    (Naming.name t k).1 = (k.namer.nameOr (k.current? t)).1 ∧
      (Naming.name t k).2.namer = (k.namer.nameOr (k.current? t)).2 := by
  cases hc : k.current? t with
  | some name =>
    rw [Naming.name_of_current? hc]
    exact ⟨rfl, rfl⟩
  | none =>
    cases t with
    | named name => cases hc
    | anonymous serial =>
      have hs : k.given.lookup serial = none := hc
      simp only [Naming.name, hs]
      exact ⟨rfl, rfl⟩

/-! ## 3. Handles and slots -/

/-- Namers, the handles that lead to them, and slots for names, which may be empty. -/
structure Sharing where
  namers : Nat → Namer := fun _ => {}
  /-- The number of the namer that each handle leads to. -/
  handles : List Nat
  slots : List (Option String)

/-- What may be done with the handles and slots of a `Sharing`. -/
inductive Action
  | copyHandle (handle : Nat)
  | newSlot (name : Option String)
  | copySlot (slot : Nat)
  | fresh (handle : Nat)
  | reserve (handle : Nat) (name : String)
  | assign (slot handle : Nat)

namespace Sharing

/-- Does something to the namer that a handle leads to, if there is such a handle. -/
def through {α : Type} (handle : Nat) (f : Namer → α × Namer) :
    StateM Sharing (Option α) := fun w =>
  match w.handles[handle]? with
  | some j =>
    let (a, k) := f (w.namers j)
    (some a, { w with namers := Function.update w.namers j k })
  | none => (none, w)

/-- The name in a slot. An empty slot is given a name by the namer that the handle leads to. -/
def assign (s h : Nat) : StateM Sharing (Option String) := fun w =>
  match w.slots[s]? with
  | some slot =>
    let done := through h (·.nameOr slot) w
    (done.1, { done.2 with slots := if done.1.isSome then w.slots.set s done.1 else w.slots })
  | none => (none, w)

/-- One action, with the name that it answers. -/
def act : Action → StateM Sharing (Option String)
  | .copyHandle h => fun w => (none, { w with handles := w.handles ++ w.handles[h]?.toList })
  | .newSlot name => fun w => (none, { w with slots := w.slots ++ [name.filter (!·.isEmpty)] })
  | .copySlot s => fun w => (none, { w with slots := w.slots ++ w.slots[s]?.toList })
  | .fresh h => through h Namer.fresh
  | .reserve h name => fun w => (none, (through h (fun k => ((), k.reserve name)) w).2)
  | .assign s h => assign s h

/-- Handles that lead to namers none of which has been used, and slots. -/
def start (handles : List Nat) (slots : List (Option String)) : Sharing := { handles, slots }

/-- A sequence of actions. -/
def acts (w : Sharing) (as : List Action) : Sharing := as.foldl (fun w a => (act a w).2) w

/-- The names that a namer makes up in an action. -/
def made (w : Sharing) (j : Nat) : Action → List String
  | .fresh h => if w.handles[h]? = some j then (act (.fresh h) w).1.toList else []
  | .assign s h =>
    if w.handles[h]? = some j ∧ w.slots[s]? = some none then (act (.assign s h) w).1.toList else []
  | _ => []

/-- The names that are reserved with a namer in an action. -/
def reserved (w : Sharing) (j : Nat) : Action → List String
  | .reserve h name => if w.handles[h]? = some j then [name] else []
  | _ => []

/-- The names that a namer makes up in a sequence of actions. -/
def madeIn (w : Sharing) (j : Nat) : List Action → List String
  | [] => []
  | a :: as => w.made j a ++ madeIn (act a w).2 j as

/-- The names that are reserved with a namer in a sequence of actions. -/
def reservedIn (w : Sharing) (j : Nat) : List Action → List String
  | [] => []
  | a :: as => w.reserved j a ++ reservedIn (act a w).2 j as

/-- What is done through a handle is done to the namer that it leads to, and to no other. -/
theorem namers_through {α : Type} (w : Sharing) (h j : Nat) (f : Namer → α × Namer) :
    (through h f w).2.namers j =
      if w.handles[h]? = some j then (f (w.namers j)).2 else w.namers j := by
  unfold through
  cases hj : w.handles[h]? with
  | none => rw [if_neg nofun]
  | some i =>
    by_cases he : i = j
    · subst he
      rw [if_pos rfl]
      exact Function.update_self _ _ _
    · rw [if_neg fun hs => he (Option.some.inj hs)]
      exact Function.update_of_ne (Ne.symm he) _ _

theorem answer_through {α : Type} {w : Sharing} {h j : Nat} (hj : w.handles[h]? = some j)
    (f : Namer → α × Namer) : (through h f w).1 = some (f (w.namers j)).1 := by
  unfold through
  rw [hj]

theorem assign_of_none {w : Sharing} {s : Nat} (hs : w.slots[s]? = none) (h : Nat) :
    assign s h w = (none, w) := by
  unfold assign
  rw [hs]

theorem namers_assign {w : Sharing} {s : Nat} {slot : Option String} (hs : w.slots[s]? = some slot)
    (h : Nat) : (assign s h w).2.namers = (through h (·.nameOr slot) w).2.namers := by
  unfold assign
  rw [hs]

theorem answer_assign {w : Sharing} {s h j : Nat} {slot : Option String}
    (hs : w.slots[s]? = some slot) (hj : w.handles[h]? = some j) :
    (assign s h w).1 = some ((w.namers j).nameOr slot).1 := by
  unfold assign
  rw [hs]
  exact answer_through hj _

theorem slots_assign {w : Sharing} {s h j : Nat} {slot : Option String}
    (hs : w.slots[s]? = some slot) (hj : w.handles[h]? = some j) :
    (assign s h w).2.slots = w.slots.set s (some ((w.namers j).nameOr slot).1) := by
  unfold assign
  rw [hs]
  show (if (through h (·.nameOr slot) w).1.isSome = true then _ else _) = _
  rw [answer_through hj]
  rfl

/-- **What one action does to one namer:** it makes up a name, a name is `reserved` with it, or the
action leaves it alone. -/
theorem step_act (w : Sharing) (j : Nat) (a : Action) :
    (w.namers j).Step (w.made j a) (w.reserved j a) ((act a w).2.namers j) := by
  cases a with
  | copyHandle | newSlot | copySlot => exact .rest
  | fresh h =>
    show (w.namers j).Step _ [] ((through h Namer.fresh w).2.namers j)
    rw [namers_through, made]
    by_cases hj : w.handles[h]? = some j
    · rw [if_pos hj, if_pos hj, act, answer_through hj]
      exact .fresh
    · rw [if_neg hj, if_neg hj]
      exact .rest
  | reserve h name =>
    show (w.namers j).Step [] _ ((through h (fun k => ((), k.reserve name)) w).2.namers j)
    rw [namers_through, reserved]
    by_cases hj : w.handles[h]? = some j
    · rw [if_pos hj, if_pos hj]
      exact .reserve name
    · rw [if_neg hj, if_neg hj]
      exact .rest
  | assign s h =>
    show (w.namers j).Step _ [] ((assign s h w).2.namers j)
    rw [made]
    cases hs : w.slots[s]? with
    | none =>
      rw [assign_of_none hs, if_neg nofun]
      exact .rest
    | some slot =>
      rw [namers_assign hs, namers_through]
      by_cases hj : w.handles[h]? = some j
      · rw [if_pos hj]
        cases slot with
        | some name =>
          rw [if_neg fun hc => nomatch hc.2]
          exact .rest
        | none =>
          rw [if_pos ⟨hj, rfl⟩, act, answer_assign hs hj]
          exact .fresh
      · rw [if_neg hj, if_neg fun hc => hj hc.1]
        exact .rest

theorem through_of_none {α : Type} {w : Sharing} {h : Nat} (hj : w.handles[h]? = none)
    (f : Namer → α × Namer) : through h f w = (none, w) := by
  unfold through
  rw [hj]

theorem slots_through {α : Type} (w : Sharing) (h : Nat) (f : Namer → α × Namer) :
    (through h f w).2.slots = w.slots := by
  unfold through
  cases w.handles[h]? with
  | none => rfl
  | some j => rfl

/-- **A slot that has a name answers it** to `assign`, and nothing happens. -/
theorem assign_of_named {w : Sharing} {s h j : Nat} {name : String}
    (hs : w.slots[s]? = some (some name)) (hj : w.handles[h]? = some j) :
    act (.assign s h) w = (some name, w) := by
  have hthrough : through h (·.nameOr (some name)) w = (some name, w) := by
    unfold through
    rw [hj]
    show (some name, { w with namers := Function.update w.namers j (w.namers j) }) = _
    rw [Function.update_eq_self]
  show assign s h w = _
  unfold assign
  rw [hs]
  show ((through h (·.nameOr (some name)) w).1, _) = _
  rw [hthrough]
  show (some name, { w with slots := w.slots.set s (some name) }) = _
  obtain ⟨hlt, he⟩ := List.getElem?_eq_some_iff.1 hs
  rw [← he, List.set_getElem_self]

/-- A slot that has a name keeps it. -/
theorem slot_act {w : Sharing} {s : Nat} {name : String} (hs : w.slots[s]? = some (some name))
    (a : Action) : (act a w).2.slots[s]? = some (some name) := by
  have hlt := (List.getElem?_eq_some_iff.1 hs).1
  cases a with
  | copyHandle => exact hs
  | newSlot | copySlot => exact (List.getElem?_append_left hlt).trans hs
  | fresh h => exact (congrArg (·[s]?) (slots_through w h Namer.fresh)).trans hs
  | reserve h n => exact (congrArg (·[s]?) (slots_through w h _)).trans hs
  | assign s' h =>
    show (assign s' h w).2.slots[s]? = _
    cases hs' : w.slots[s']? with
    | none => rwa [assign_of_none hs']
    | some slot =>
      cases hj : w.handles[h]? with
      | none =>
        unfold assign
        rw [hs']
        show (if (through h (·.nameOr slot) w).1.isSome = true then _ else w.slots)[s]? = _
        rw [through_of_none hj]
        exact hs
      | some j =>
        rw [slots_assign hs' hj]
        by_cases he : s' = s
        · subst he
          obtain rfl := Option.some.inj (hs'.symm.trans hs)
          exact List.getElem?_set_self hlt
        · rw [List.getElem?_set_ne he, hs]

/-! ## 4. Sequences of actions -/

/-- What a sequence of actions keeps of one namer: its account, with what was made up and `reserved`
on the way. -/
theorem tracks_acts (as : List Action) {w : Sharing} {j : Nat} {made reserved : List String}
    (h : (w.namers j).Tracks made reserved) :
    ((w.acts as).namers j).Tracks (made ++ w.madeIn j as) (reserved ++ w.reservedIn j as) := by
  induction as generalizing w made reserved with
  | nil => rwa [madeIn, reservedIn, List.append_nil, List.append_nil]
  | cons a as ih =>
    rw [madeIn, reservedIn, ← List.append_assoc, ← List.append_assoc]
    exact ih ((step_act w j a).tracks h)

/-- Names stay taken, the number never goes down, and what is made up on the way was not taken. -/
theorem grows_acts (as : List Action) (w : Sharing) (j : Nat) :
    (∀ n ∈ (w.namers j).taken, n ∈ ((w.acts as).namers j).taken) ∧
      (w.namers j).issued ≤ ((w.acts as).namers j).issued ∧
      ∀ n ∈ w.madeIn j as, n ∉ (w.namers j).taken := by
  induction as generalizing w with
  | nil => exact ⟨fun _ hn => hn, Nat.le_refl _, fun _ hn => nomatch hn⟩
  | cons a as ih =>
    obtain ⟨htaken, hle, hnew⟩ := (step_act w j a).grows
    obtain ⟨htaken', hle', hnew'⟩ := ih (act a w).2
    refine ⟨fun n hn => htaken' n (htaken n hn), Nat.le_trans hle hle', fun n hn => ?_⟩
    rw [madeIn] at hn
    rcases List.mem_append.1 hn with hn | hn
    · exact hnew n hn
    · exact fun hm => hnew' n hn (htaken n hm)

theorem slot_acts (as : List Action) {w : Sharing} {s : Nat} {name : String}
    (hs : w.slots[s]? = some (some name)) : (w.acts as).slots[s]? = some (some name) := by
  induction as generalizing w with
  | nil => exact hs
  | cons a as ih => exact ih (slot_act hs a)

/-- **Made-up names are new.** There are handles to unused namers, and slots; then `Sharing` takes
actions in any order, through any handles; then others. Between the two, any handle that leads to
the namer `j` may be asked for a name: the search ends, and answers the name of the least number
above the namer's that was neither made up nor reserved; an empty slot is given the same one. The
number is not above how many names there are of these, and never goes down. All names that the namer
makes up are different, and the later ones were not reserved before. A slot with a name keeps it,
and asking it changes nothing. The tags of a `Naming` are such slots. -/
theorem fresh_names (handles : List Nat) (slots : List (Option String)) (as bs : List Action)
    (j : Nat) :
    let w := (start handles slots).acts as
    let w' := w.acts bs
    let made := (start handles slots).madeIn j as
    let reserved := (start handles slots).reservedIn j as
    (∀ h, w.handles[h]? = some j → ∃ n,
      Namer.Search (w.namers j).taken (w.namers j).issued n ∧
      (act (.fresh h) w).1 = some (Namer.numbered n) ∧
      ((act (.fresh h) w).2.namers j).issued = n ∧
      IsLeast {m | (w.namers j).issued < m ∧ Namer.numbered m ∉ made ∧ Namer.numbered m ∉ reserved}
        n ∧
      ∀ s, w.slots[s]? = some none →
        (act (.assign s h) w).1 = some (Namer.numbered n) ∧
        ((act (.assign s h) w).2.namers j).issued = n ∧
        (act (.assign s h) w).2.slots[s]? = some (some (Namer.numbered n))) ∧
      (w.namers j).issued ≤ made.length + reserved.length ∧
      (w.namers j).issued ≤ (w'.namers j).issued ∧
      (made ++ w.madeIn j bs).Nodup ∧ (∀ n ∈ w.madeIn j bs, n ∉ reserved) ∧
      (∀ s name, w.slots[s]? = some (some name) →
        w'.slots[s]? = some (some name) ∧
        ∀ h' j', w'.handles[h']? = some j' → act (.assign s h') w' = (some name, w')) ∧
      ∀ t k, (Naming.name t k).1 = (k.namer.nameOr (k.current? t)).1 ∧
        (Naming.name t k).2.namer = (k.namer.nameOr (k.current? t)).2 ∧
        (Naming.name t k).2.current? t = some (Naming.name t k).1 := by
  intro w w' made reserved
  have htracks : (w.namers j).Tracks made reserved :=
    tracks_acts (w := start handles slots) as Namer.tracks_new
  obtain ⟨-, hle, hnew⟩ := grows_acts bs w j
  refine ⟨fun h hj => ⟨(w.namers j).fresh.2.issued, Namer.search_freeNumber _ _,
      answer_through hj _, ?_, htracks.isLeast_fresh, fun s hs => ⟨answer_assign hs hj, ?_, ?_⟩⟩,
    htracks.issued_le, hle, (tracks_acts bs htracks).nodup,
    fun n hn hr => hnew n hn ((htracks.taken n).2 (.inr hr)),
    fun s name hs => ⟨slot_acts bs hs, fun h' j' hj' => assign_of_named (slot_acts bs hs) hj'⟩,
    fun t k => ⟨(Naming.name_slot t k).1, (Naming.name_slot t k).2, Naming.current?_name t k⟩⟩
  · show ((through h Namer.fresh w).2.namers j).issued = _
    rw [namers_through, if_pos hj]
  · show ((assign s h w).2.namers j).issued = _
    rw [namers_assign hs, namers_through, if_pos hj]
    rfl
  · show (assign s h w).2.slots[s]? = _
    rw [slots_assign hs hj]
    exact List.getElem?_set_self (List.getElem?_eq_some_iff.1 hs).1

/-- Two handles to one namer and a slot. A name is reserved through each handle, then one is made up
through the first and one for the slot through the second. -/
def twoHandles : List Action :=
  [.copyHandle 0, .reserve 0 "__anon_1", .reserve 1 "__anon_3", .fresh 0, .assign 0 1]

/-- The reserved names are passed over, and the slot keeps its name. -/
theorem fresh_names_two_handles :
    ((start [0] [none]).acts twoHandles).handles[1]? = some 0 ∧
      ((start [0] [none]).acts twoHandles).slots[0]? = some (some "__anon_4") ∧
      (start [0] [none]).madeIn 0 twoHandles = ["__anon_2", "__anon_4"] ∧
      (act (.fresh 1) ((start [0] [none]).acts twoHandles)).1 = some (Namer.numbered 5) ∧
      act (.assign 0 0) ((start [0] [none]).acts (twoHandles ++ [.fresh 1])) =
        (some "__anon_4", (start [0] [none]).acts (twoHandles ++ [.fresh 1])) := by
  have hhandle : ((start [0] [none]).acts twoHandles).handles[1]? = some 0 := by decide +kernel
  have hslot : ((start [0] [none]).acts twoHandles).slots[0]? = some (some "__anon_4") := by
    decide +kernel
  obtain ⟨hfresh, -, -, -, -, hkeep, -⟩ := fresh_names [0] [none] twoHandles [.fresh 1] 0
  obtain ⟨n, -, hn, hissued, -⟩ := hfresh 1 hhandle
  obtain rfl : n = 5 := hissued.symm.trans (by decide +kernel)
  refine ⟨hhandle, hslot, by decide +kernel, hn, ?_⟩
  rw [acts, List.foldl_append]
  exact (hkeep 0 "__anon_4" hslot).2 0 0 (by decide +kernel)

end Sharing

end TypeLedger
