import TypeLedger.Proofs.Identifier
import TypeLedger.Registry.Ledger

/-!
# What every ledger keeps

* `Ledger.Extends`: a later ledger knows what an earlier one knows, with the same identifiers.
* `Ledger.Sound`: memo, rows, counters and fundamental types fit together. A canonical type with an
  identifier has a row of its own or is fundamental; a type with synonyms has the identifier of its
  canonical form; the rows of a category are numbered without a gap.
* `Ledger.Closed`: what the record of a row refers to is known. A single step does not keep this,
  since a type is entered before the types it refers to; a whole agenda does.
-/

namespace TypeLedger

namespace Ledger

/-! ## 1. Knowing a type -/

/-- A list is a prefix of what it is equal to. -/
theorem prefix_of_eq {α : Type} {as bs : List α} (h : bs = as) : as <+: bs := h ▸ List.prefix_rfl

/-- The type has an identifier, or it is the absence of a type and needs none. -/
def Known (l : Ledger) (t : CType) : Prop :=
  t.isNull = true ∨ (l.memo.lookup t).isSome = true

theorem known_of_lookup {l : Ledger} {t : CType} {id : TypeId} (h : l.memo.lookup t = some id) :
    l.Known t := .inr (by rw [h]; rfl)

theorem Known.lookup {l : Ledger} {t : CType} (h : l.Known t) (hn : t.isNull = false) :
    l.memo.lookup t = some (l.idOf t) := by
  rcases h with h | h
  · rw [hn] at h; cases h
  · obtain ⟨id, hid⟩ := Option.isSome_iff_exists.1 h
    rw [idOf, hid]
    rfl

theorem idOf_of_lookup {l : Ledger} {t : CType} {id : TypeId} (h : l.memo.lookup t = some id) :
    l.idOf t = id := by
  rw [idOf, h]; rfl

/-- The later ledger knows what the earlier one knows. -/
structure Extends (l l' : Ledger) : Prop where
  memo : ∀ t id, l.memo.lookup t = some id → l'.memo.lookup t = some id
  rows : l.rows <+: l'.rows
  fundamentals : l.fundamentals <+: l'.fundamentals

theorem Extends.refl (l : Ledger) : l.Extends l :=
  ⟨fun _ _ h => h, List.prefix_rfl, List.prefix_rfl⟩

theorem Extends.trans {l₁ l₂ l₃ : Ledger} (h : l₁.Extends l₂) (h' : l₂.Extends l₃) :
    l₁.Extends l₃ :=
  ⟨fun t id ht => h'.memo t id (h.memo t id ht), h.rows.trans h'.rows,
    h.fundamentals.trans h'.fundamentals⟩

theorem Known.mono {l l' : Ledger} {t : CType} (h : l.Known t) (hl : l.Extends l') :
    l'.Known t := by
  rcases h with h | h
  · exact .inl h
  · obtain ⟨id, hid⟩ := Option.isSome_iff_exists.1 h
    exact known_of_lookup (hl.memo t id hid)

theorem Extends.idOf_eq {l l' : Ledger} (hl : l.Extends l') {t : CType} {id : TypeId}
    (h : l.memo.lookup t = some id) : l'.idOf t = l.idOf t := by
  rw [idOf_of_lookup h, idOf_of_lookup (hl.memo t id h)]

/-! ## 2. Sound ledgers -/

/-- The tag of an aggregate that is declared with the name, if it has one. An empty name counts as
none. -/
def TagFits (name : Option String) : Tag → Prop
  | .named n => name = some n ∧ n.isEmpty = false
  | .anonymous _ => name.getD "" = ""

/-- A row has a tag exactly if its type is told apart by one. -/
def RowTagFits : Option (Option String) → Option Tag → Prop
  | none, none => True
  | some name, some tag => TagFits name tag
  | _, _ => False

/-- Memo, rows, counters and fundamental types of a ledger fit together. -/
structure Sound (ctx : Context) (l : Ledger) : Prop where
  not_null : ∀ t id, l.memo.lookup t = some id → t.isNull = false
  synonym : ∀ t id, l.memo.lookup t = some id → t.hasSugar = true →
    id = l.idOf t.desugar ∧ l.Known t.desugar
  entered : ∀ t id c, l.memo.lookup t = some id → t.hasSugar = false → ctx.category? t = some c →
    ∃ row ∈ l.rows, row.type = t ∧ row.id = id
  fundamental : ∀ t id, l.memo.lookup t = some id → t.hasSugar = false → ctx.category? t = none →
    id = Fundamental.idOfSpelling t.builtinSpelling ∧ Keyed.has id l.fundamentals = true
  row_memo : ∀ row ∈ l.rows, l.memo.lookup row.type = some row.id
  row_type : ∀ row ∈ l.rows, row.type.hasSugar = false
  row_category : ∀ row ∈ l.rows, ctx.category? row.type = some row.category
  row_tag : ∀ row ∈ l.rows, RowTagFits (ctx.tagName? row.type) row.tag
  /-- The rows of a category have the numbers from zero on, in this order. -/
  numbered : ∀ c, (l.rows.filter fun row => row.category == c).map Row.id =
    (List.range (l.counters.count c)).map c.id
  spelt : ∀ p ∈ l.fundamentals, p.1 = Fundamental.idOfSpelling p.2 ∧
    Fundamental.isFundamental p.1 = true

theorem sound_empty (ctx : Context) : Sound ctx {} where
  not_null := by intro t id h; cases h
  synonym := by intro t id h; cases h
  entered := by intro t id c h; cases h
  fundamental := by intro t id h; cases h
  row_memo := by intro row h; cases h
  row_type := by intro row h; cases h
  row_category := by intro row h; cases h
  row_tag := by intro row h; cases h
  numbered := by intro c; rfl
  spelt := by intro p h; cases h

/-- What the records of the rows refer to (`components`) is `Known`. -/
def Closed (ctx : Context) (l : Ledger) : Prop :=
  ∀ row ∈ l.rows, ∀ c ∈ ctx.components row.type, l.Known c

/-! ## 3. Notices change nothing -/

@[simp] theorem rows_note (l : Ledger) (detail : Detail) (n : Notice) :
    (l.note detail n).rows = l.rows := by
  unfold note; split <;> rfl

@[simp] theorem counters_note (l : Ledger) (detail : Detail) (n : Notice) :
    (l.note detail n).counters = l.counters := by
  unfold note; split <;> rfl

@[simp] theorem fundamentals_note (l : Ledger) (detail : Detail) (n : Notice) :
    (l.note detail n).fundamentals = l.fundamentals := by
  unfold note; split <;> rfl

@[simp] theorem naming_note (l : Ledger) (detail : Detail) (n : Notice) :
    (l.note detail n).naming = l.naming := by
  unfold note; split <;> rfl

theorem extends_note (l : Ledger) (detail : Detail) (n : Notice) :
    l.Extends (l.note detail n) :=
  ⟨fun t id h => by rwa [memo_note], prefix_of_eq (rows_note l detail n),
    prefix_of_eq (fundamentals_note l detail n)⟩

/-- Two ledgers that agree in what soundness looks at are `Sound` together. -/
theorem Sound.congr {ctx : Context} {l l' : Ledger} (h : l.Sound ctx) (hm : l'.memo = l.memo)
    (hr : l'.rows = l.rows) (hc : l'.counters = l.counters)
    (hf : l'.fundamentals = l.fundamentals) : l'.Sound ctx := by
  constructor
  case not_null => rw [hm]; exact h.not_null
  case synonym => simpa only [hm, idOf, Known] using h.synonym
  case entered => rw [hm, hr]; exact h.entered
  case fundamental => rw [hm, hf]; exact h.fundamental
  case row_memo => rw [hm, hr]; exact h.row_memo
  case row_type => rw [hr]; exact h.row_type
  case row_category => rw [hr]; exact h.row_category
  case row_tag => rw [hr]; exact h.row_tag
  case numbered => rw [hr, hc]; exact h.numbered
  case spelt => rw [hf]; exact h.spelt

theorem Sound.note {ctx : Context} {l : Ledger} (h : l.Sound ctx) (detail : Detail)
    (n : Notice) : (l.note detail n).Sound ctx :=
  h.congr (memo_note l detail n) (rows_note l detail n) (counters_note l detail n)
    (fundamentals_note l detail n)

/-! ## 4. One step -/

section Step

variable {ctx : Context} {detail : Detail} {l : Ledger} {t : CType}

/-- The row that a canonical type of a category is given now. -/
def newRow (ctx : Context) (c : Category) (t : CType) (l : Ledger) : Row :=
  ⟨(l.counters.next c).1, c, t, (tagFor l.naming (ctx.tagName? t)).1⟩

theorem memo_enterRow (c : Category) :
    (l.enterRow ctx detail c t).memo = Keyed.set t (newRow ctx c t l).id l.memo :=
  memo_note _ _ _

theorem rows_enterRow (c : Category) :
    (l.enterRow ctx detail c t).rows = l.rows ++ [newRow ctx c t l] :=
  rows_note _ _ _

theorem counters_enterRow (c : Category) :
    (l.enterRow ctx detail c t).counters = (l.counters.next c).2 :=
  counters_note _ _ _

theorem fundamentals_enterRow (c : Category) :
    (l.enterRow ctx detail c t).fundamentals = l.fundamentals :=
  fundamentals_note _ _ _

theorem rowTagFits_tagFor (k : Naming) (name : Option (Option String)) :
    RowTagFits name (tagFor k name).1 := by
  rcases name with _ | _ | n
  · trivial
  · rfl
  · unfold tagFor Naming.tag
    cases hn : n.isEmpty with
    | true =>
      simp only [hn, ↓reduceIte]
      exact String.isEmpty_iff.1 hn
    | false =>
      simp only [hn, Bool.false_eq_true, ↓reduceIte]
      exact ⟨rfl, hn⟩

/-- What is known stays known, and nothing else becomes known, when one type is given an
identifier. -/
theorem lookup_of_set {l' : Ledger} {id : TypeId} (hm : l'.memo = Keyed.set t id l.memo)
    {s : CType} {i : TypeId} (h : l'.memo.lookup s = some i) :
    (s = t ∧ i = id) ∨ (s ≠ t ∧ l.memo.lookup s = some i) := by
  rw [hm] at h
  by_cases hs : s = t
  · subst hs
    rw [Keyed.lookup_set_self] at h
    exact .inl ⟨rfl, (Option.some.inj h).symm⟩
  · rw [Keyed.lookup_set_of_ne hs] at h
    exact .inr ⟨hs, h⟩

theorem lookup_set_of_none {l' : Ledger} {id : TypeId} (hm : l'.memo = Keyed.set t id l.memo)
    (hl : l.memo.lookup t = none) {s : CType} {i : TypeId} (h : l.memo.lookup s = some i) :
    l'.memo.lookup s = some i := by
  have hs : s ≠ t := by
    rintro rfl
    rw [hl] at h
    cases h
  rw [hm, Keyed.lookup_set_of_ne hs, h]

theorem lookup_enter_self :
    (l.enter ctx detail t).memo.lookup t = some ((l.enter ctx detail t).idOf t) := by
  obtain ⟨id, hid⟩ := memo_enter ctx detail t l
  rw [idOf, hid, Keyed.lookup_set_self]
  rfl

theorem extends_enter (hl : l.memo.lookup t = none) : l.Extends (l.enter ctx detail t) := by
  obtain ⟨id, hid⟩ := memo_enter ctx detail t l
  refine ⟨fun s i h => lookup_set_of_none hid hl h, ?_, ?_⟩
  · unfold enter
    split
    · rw [rows_enterRow]
      exact List.prefix_append _ _
    · exact List.prefix_rfl
  · unfold enter
    split
    · exact prefix_of_eq (fundamentals_enterRow ..)
    · simp only [enterFundamental]
      split
      · exact List.prefix_rfl
      · exact List.prefix_append _ _

/-- The absence of a type is never entered, so it has the null identifier. -/
theorem idOf_of_isNull (hn : ∀ t id, l.memo.lookup t = some id → t.isNull = false) {t : CType}
    (h : t.isNull = true) : l.idOf t = .null := by
  cases hl : l.memo.lookup t with
  | none => rw [idOf, hl]; rfl
  | some id =>
    have := hn t id hl
    rw [h] at this
    cases this

/-- No absence of a type becomes known when a type is given an identifier. -/
theorem Sound.not_null_of_set {l' : Ledger} {id : TypeId} (h : l.Sound ctx) (hn : t.isNull = false)
    (hm : l'.memo = Keyed.set t id l.memo) (s : CType) (i : TypeId)
    (hi : l'.memo.lookup s = some i) : s.isNull = false := by
  rcases lookup_of_set hm hi with ⟨rfl, -⟩ | ⟨-, hi⟩
  · exact hn
  · exact h.not_null s i hi

/-- A `Known` type keeps its identifier. -/
theorem Sound.idOf_eq {ctx' : Context} {l' : Ledger} (h : l.Sound ctx) (h' : l'.Sound ctx')
    (he : l.Extends l') (hk : l.Known t) : l'.idOf t = l.idOf t := by
  cases hn : t.isNull with
  | false => exact he.idOf_eq (hk.lookup hn)
  | true => rw [idOf_of_isNull h.not_null hn, idOf_of_isNull h'.not_null hn]

/-- A `Known` type with synonyms keeps the identifier of its canonical form. -/
theorem Sound.synonym_extends {l' : Ledger} (h : l.Sound ctx) (he : l.Extends l')
    (hn' : ∀ t id, l'.memo.lookup t = some id → t.isNull = false) {s : CType} {i : TypeId}
    (hs : l.memo.lookup s = some i) (hsugar : s.hasSugar = true) :
    i = l'.idOf s.desugar ∧ l'.Known s.desugar := by
  obtain ⟨hi, hk⟩ := h.synonym s i hs hsugar
  refine ⟨?_, hk.mono he⟩
  cases hn : s.desugar.isNull with
  | false => rw [hi, he.idOf_eq (hk.lookup hn)]
  | true => rw [hi, idOf_of_isNull h.not_null hn, idOf_of_isNull hn' hn]

theorem filter_append_row (rows : List Row) (row : Row) (c : Category) :
    (rows ++ [row]).filter (fun r => r.category == c) =
      rows.filter (fun r => r.category == c) ++ if row.category = c then [row] else [] := by
  rw [List.filter_append]
  by_cases h : row.category = c <;> simp [h]

/-- The new row takes the number behind those of its category, and no other category sees it. -/
theorem Sound.numbered_enterRow (h : l.Sound ctx) (c d : Category) :
    ((l.enterRow ctx detail c t).rows.filter fun row => row.category == d).map Row.id =
      (List.range ((l.enterRow ctx detail c t).counters.count d)).map d.id := by
  rw [rows_enterRow, counters_enterRow, filter_append_row, List.map_append, h.numbered d]
  by_cases hd : c = d
  · subst hd
    have hif : (newRow ctx c t l).category = c := rfl
    rw [if_pos hif, Counters.count_next_self, List.range_succ, List.map_append]
    rfl
  · have hif : (newRow ctx c t l).category ≠ d := hd
    rw [if_neg hif, Counters.count_next_of_ne _ (Ne.symm hd), List.map_nil, List.append_nil]

/-- Entering a canonical type of a category keeps a ledger `Sound`. -/
theorem Sound.enterRow {c : Category} (h : l.Sound ctx) (hl : l.memo.lookup t = none)
    (hn : t.isNull = false) (hs : t.hasSugar = false) (hc : ctx.category? t = some c) :
    (l.enterRow ctx detail c t).Sound ctx := by
  have he : l.Extends (l.enterRow ctx detail c t) := by
    have hx : l.Extends (l.enter ctx detail t) := extends_enter hl
    rwa [enter, hc] at hx
  have hm : (l.enterRow ctx detail c t).memo = Keyed.set t (newRow ctx c t l).id l.memo :=
    memo_enterRow c
  have hr : (l.enterRow ctx detail c t).rows = l.rows ++ [newRow ctx c t l] := rows_enterRow c
  have hrow : newRow ctx c t l ∈ (l.enterRow ctx detail c t).rows := by
    rw [hr]
    exact List.mem_append_right _ (List.mem_singleton_self _)
  have hnull := h.not_null_of_set hn hm
  -- what holds of the rows that there were and of the new one holds of all
  have hrows : ∀ {P : Row → Prop}, (∀ row ∈ l.rows, P row) → P (newRow ctx c t l) →
      ∀ row ∈ (l.enterRow ctx detail c t).rows, P row := by
    intro P hold hnew
    rw [hr, List.forall_mem_append, List.forall_mem_singleton]
    exact ⟨hold, hnew⟩
  constructor
  case not_null => exact hnull
  case synonym =>
    intro s i hi hsugar
    rcases lookup_of_set hm hi with ⟨rfl, -⟩ | ⟨-, hi⟩
    · rw [hs] at hsugar; cases hsugar
    · exact h.synonym_extends he hnull hi hsugar
  case entered =>
    intro s i d hi hsugar hd
    rcases lookup_of_set hm hi with ⟨rfl, rfl⟩ | ⟨-, hi⟩
    · exact ⟨_, hrow, rfl, rfl⟩
    · obtain ⟨row, hmem, ht, hid⟩ := h.entered s i d hi hsugar hd
      exact ⟨row, he.rows.subset hmem, ht, hid⟩
  case fundamental =>
    intro s i hi hsugar hd
    rw [fundamentals_enterRow]
    rcases lookup_of_set hm hi with ⟨rfl, -⟩ | ⟨-, hi⟩
    · rw [hc] at hd; cases hd
    · exact h.fundamental s i hi hsugar hd
  case row_memo =>
    refine hrows (fun row hrow => he.memo _ _ (h.row_memo row hrow)) ?_
    rw [hm]
    exact Keyed.lookup_set_self _ _ _
  case row_type => exact hrows h.row_type hs
  case row_category => exact hrows h.row_category hc
  case row_tag => exact hrows h.row_tag (rowTagFits_tagFor _ _)
  case numbered => exact h.numbered_enterRow c
  case spelt =>
    rw [fundamentals_enterRow]
    exact h.spelt

/-- A canonical type without a category is a fundamental one. -/
theorem builtin_of_category?_eq_none (h : ctx.category? t = none) :
    ∃ s, t = .builtin .none s ∧ Fundamental.isFundamental (Fundamental.idOfSpelling s) = true := by
  unfold Context.category? at h
  split at h
  · rename_i hq
    cases t with
    | builtin q s =>
      simp only [Context.classify] at h
      split at h
      · rename_i hf
        have hq' : q = .none := (Qualifiers.isEmpty_iff q).1 hq
        exact ⟨s, by rw [hq'], hf⟩
      · cases h
    | record q id =>
      simp only [Context.classify] at h
      cases hr : ctx.record? id with
      | none => simp [hr] at h
      | some d => cases hk : d.key <;> simp [hr, hk] at h
    | _ => simp [Context.classify] at h
  · cases h

theorem fundamentals_enterFundamental (s : String) :
    (l.enterFundamental (.builtin .none s)).fundamentals =
      if Keyed.has (Fundamental.idOfSpelling s) l.fundamentals then l.fundamentals
      else l.fundamentals ++ [(Fundamental.idOfSpelling s, s)] := rfl

theorem has_enterFundamental {s : String} {i : TypeId}
    (h : Keyed.has i l.fundamentals = true ∨ i = Fundamental.idOfSpelling s) :
    Keyed.has i (l.enterFundamental (.builtin .none s)).fundamentals = true := by
  rw [fundamentals_enterFundamental]
  by_cases hk : Keyed.has (Fundamental.idOfSpelling s) l.fundamentals = true
  · rw [if_pos hk]
    rcases h with h | rfl
    · exact h
    · exact hk
  · rw [if_neg hk, Keyed.has, List.lookup_append]
    rcases h with h | rfl
    · simp only [Keyed.has] at h
      simp [h]
    · simp

/-- Entering a fundamental type keeps a ledger `Sound`. -/
theorem Sound.enterFundamental (h : l.Sound ctx) (hl : l.memo.lookup t = none)
    (hc : ctx.category? t = none) : (l.enterFundamental t).Sound ctx := by
  obtain ⟨spelling, rfl, hf⟩ := builtin_of_category?_eq_none hc
  have he : l.Extends (l.enterFundamental (.builtin .none spelling)) := by
    have hx : l.Extends (l.enter ctx .quiet (.builtin .none spelling)) := extends_enter hl
    rwa [enter, hc] at hx
  have hm : (l.enterFundamental (.builtin .none spelling)).memo =
      Keyed.set (.builtin .none spelling) (Fundamental.idOfSpelling spelling) l.memo := rfl
  have hnull := h.not_null_of_set rfl hm
  constructor
  case not_null => exact hnull
  case synonym =>
    intro s i hi hsugar
    rcases lookup_of_set hm hi with ⟨rfl, -⟩ | ⟨-, hi⟩
    · cases hsugar
    · exact h.synonym_extends he hnull hi hsugar
  case entered =>
    intro s i d hi hsugar hd
    rcases lookup_of_set hm hi with ⟨rfl, rfl⟩ | ⟨-, hi⟩
    · rw [hc] at hd; cases hd
    · exact h.entered s i d hi hsugar hd
  case fundamental =>
    intro s i hi hsugar hd
    rcases lookup_of_set hm hi with ⟨rfl, rfl⟩ | ⟨-, hi⟩
    · exact ⟨rfl, has_enterFundamental (.inr rfl)⟩
    · obtain ⟨hid, hk⟩ := h.fundamental s i hi hsugar hd
      exact ⟨hid, has_enterFundamental (.inl hk)⟩
  case row_memo => exact fun row hrow => he.memo _ _ (h.row_memo row hrow)
  case row_type => exact h.row_type
  case row_category => exact h.row_category
  case row_tag => exact h.row_tag
  case numbered => exact h.numbered
  case spelt =>
    intro p hp
    rw [fundamentals_enterFundamental] at hp
    by_cases hk : Keyed.has (Fundamental.idOfSpelling spelling) l.fundamentals = true
    · rw [if_pos hk] at hp
      exact h.spelt p hp
    · rw [if_neg hk] at hp
      rcases List.mem_append.1 hp with hp | hp
      · exact h.spelt p hp
      · rw [List.mem_singleton] at hp
        subst hp
        exact ⟨rfl, hf⟩

/-- **Entering a canonical type keeps a ledger `Sound`.** -/
theorem Sound.enter (h : l.Sound ctx) (hl : l.memo.lookup t = none) (hn : t.isNull = false)
    (hs : t.hasSugar = false) : (l.enter ctx detail t).Sound ctx := by
  unfold Ledger.enter
  split
  · rename_i c hc
    exact h.enterRow hl hn hs hc
  · rename_i hc
    exact h.enterFundamental hl hc

/-- **Giving a type with synonyms the identifier of its canonical form keeps a ledger `Sound`,** and
what was known stays known, even if the type itself was known. -/
theorem Sound.enterSynonym (h : l.Sound ctx) (hs : t.hasSugar = true) (hk : l.Known t.desugar) :
    (l.enterSynonym ctx detail t).Sound ctx ∧ l.Extends (l.enterSynonym ctx detail t) := by
  have hm := memo_enterSynonym ctx detail t l
  have hr : (l.enterSynonym ctx detail t).rows = l.rows := rows_note _ _ _
  have hf : (l.enterSynonym ctx detail t).fundamentals = l.fundamentals := fundamentals_note _ _ _
  have hn : t.isNull = false := by
    cases t <;> first | rfl | cases hs
  have he : l.Extends (l.enterSynonym ctx detail t) := by
    refine ⟨fun s i hi => ?_, prefix_of_eq hr, prefix_of_eq hf⟩
    by_cases hst : s = t
    · subst hst
      rw [hm, Keyed.lookup_set_self, (h.synonym s i hi hs).1]
    · rw [hm, Keyed.lookup_set_of_ne hst, hi]
  have hnull := h.not_null_of_set hn hm
  refine ⟨?_, he⟩
  constructor
  case not_null => exact hnull
  case synonym =>
    intro s i hi hsugar
    rcases lookup_of_set hm hi with ⟨rfl, rfl⟩ | ⟨-, hi⟩
    · refine ⟨?_, hk.mono he⟩
      cases hd : s.desugar.isNull with
      | false => exact (he.idOf_eq (hk.lookup hd)).symm
      | true => rw [idOf_of_isNull h.not_null hd, idOf_of_isNull hnull hd]
    · exact h.synonym_extends he hnull hi hsugar
  case entered =>
    intro s i c hi hsugar hc
    rw [hr]
    rcases lookup_of_set hm hi with ⟨rfl, -⟩ | ⟨-, hi⟩
    · rw [hs] at hsugar; cases hsugar
    · exact h.entered s i c hi hsugar hc
  case fundamental =>
    intro s i hi hsugar hc
    rw [hf]
    rcases lookup_of_set hm hi with ⟨rfl, -⟩ | ⟨-, hi⟩
    · rw [hs] at hsugar; cases hsugar
    · exact h.fundamental s i hi hsugar hc
  case row_memo =>
    intro row hrow
    rw [hr] at hrow
    exact he.memo _ _ (h.row_memo row hrow)
  case row_type => rw [hr]; exact h.row_type
  case row_category => rw [hr]; exact h.row_category
  case row_tag => rw [hr]; exact h.row_tag
  case numbered =>
    have hcount : (l.enterSynonym ctx detail t).counters = l.counters := counters_note _ _ _
    rw [hr, hcount]
    exact h.numbered
  case spelt => rw [hf]; exact h.spelt

end Step

end Ledger

end TypeLedger
