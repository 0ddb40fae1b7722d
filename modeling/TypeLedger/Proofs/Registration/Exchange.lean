import TypeLedger.Proofs.Tables.SharedTags
import Mathlib.Logic.Equiv.Defs

/-!
# Ledgers that know the same types

What a run makes known depends on the types that it is asked for. Their order decides only which
number each of them gets.

* `Ledger.settle_within`: a run stays within any set of types that holds what its types lead to, if
  it is asked for types of the set. What a sound and closed ledger knows is such a set.
* `Ledger.Peers`: two sound ledgers that know the same types. They have given out equally many
  identifiers of each category.
* `Peers.exchange`: the permutation of identifiers that takes that of a type in the first ledger to
  that of the same type in the second. It keeps categories and moves nothing but numbered
  identifiers.
* `Peers.tag`: the tags of a type differ in the serial number only.
* `Ledger.SpellingsKnown`: fundamental types that have been met are remembered with their spellings.
-/

namespace TypeLedger

/-- A tag with `g` put on its serial number. -/
def Tag.renumbered (g : Nat → Nat) : Tag → Tag
  | named name => named name
  | anonymous serial => anonymous (g serial)

namespace Ledger

variable {ctx : Context} {detail : Detail} {l l' : Ledger}

/-! ## 1. What a run can make known -/

/-- A set of types that holds what its types lead to: the canonical form of each, and the components
of those that are canonical. -/
structure Hereditary (ctx : Context) (P : CType → Prop) : Prop where
  desugar : ∀ t, P t → P t.desugar
  component : ∀ t, P t → t.isNull = false → t.hasSugar = false → ∀ c ∈ ctx.components t, P c

theorem promised_tail {task : Task} {tasks : List Task} {t : CType} (h : Promised tasks t) :
    Promised (task :: tasks) t :=
  h.imp (List.mem_cons_of_mem _) (List.mem_cons_of_mem _)

/-- **A run stays within a set of types** that holds what its types lead to (`Hereditary`). -/
theorem settle_within {P : CType → Prop} (hP : Hereditary ctx P) {ts : List CType}
    {tasks : List Task} (covered : Covered (ctx.closure ts) tasks)
    (ht : ∀ t, Promised tasks t → P t) (hl : ∀ t id, l.memo.lookup t = some id → P t) :
    ∀ t id, (l.settle ctx detail ts tasks covered).memo.lookup t = some id → P t := by
  fun_induction settle ctx detail ts tasks covered l with
  | case1 l => exact hl
  | case2 l t tasks _ _ ih =>
    have htP : P t := ht t (.inr List.mem_cons_self)
    refine ih (fun s hs => ht s (promised_tail hs)) fun s id hs => ?_
    rcases lookup_of_set (memo_enterSynonym ctx detail t l) hs with ⟨rfl, -⟩ | ⟨-, hs⟩
    · exact htP
    · exact hl s id hs
  | case3 l t tasks _ hn _ ih => exact ih (fun s hs => ht s (promised_tail hs)) hl
  | case4 l t tasks _ hn id hlt _ ih =>
    refine ih (fun s hs => ht s (promised_tail hs)) ?_
    rwa [memo_note]
  | case5 l t tasks _ hn hlt hs _ ih =>
    have htP : P t := ht t (.inl List.mem_cons_self)
    refine ih (fun s hs' => ?_) hl
    rcases promised_cons hs' with hs' | hs' | hs'
    · cases hs'
      exact hP.desugar t htP
    · cases hs'
    · rcases promised_cons hs' with hs' | hs' | hs'
      · cases hs'
      · cases hs'
        exact htP
      · exact ht s (promised_tail hs')
  | case6 l t tasks _ hn hlt hs _ ih =>
    have htP : P t := ht t (.inl List.mem_cons_self)
    refine ih (fun s hs' => ?_) fun s id hs' => ?_
    · rcases hs' with hs' | hs'
      · rcases List.mem_append.1 hs' with hs' | hs'
        · obtain ⟨c, hc, he⟩ := List.mem_map.1 hs'
          cases he
          exact hP.component t htP (by simpa using hn) (by simpa using hs) s hc
        · exact ht s (.inl (List.mem_cons_of_mem _ hs'))
      · rcases List.mem_append.1 hs' with hs' | hs'
        · obtain ⟨c, -, he⟩ := List.mem_map.1 hs'
          cases he
        · exact ht s (.inr (List.mem_cons_of_mem _ hs'))
    · obtain ⟨i, hi⟩ := memo_enter ctx detail t l
      rcases lookup_of_set hi hs' with ⟨rfl, -⟩ | ⟨-, hs'⟩
      · exact htP
      · exact hl s id hs'

/-- What a sound and `Closed` ledger knows holds what its types lead to. -/
theorem Sound.hereditary (h : l.Sound ctx) (hc : l.Closed ctx) : Hereditary ctx l.Known := by
  refine ⟨fun t ht => (h.idOf_desugar ht).2, fun t ht hn hs c hm => ?_⟩
  cases h.standing hs ht with
  | null hn' _ => rw [hn] at hn'; cases hn'
  | row row hrow hrt _ => exact hc row hrow c (hrt ▸ hm)
  | fundamental s hts _ _ _ =>
    subst hts
    cases hm

/-! ## 2. Peers -/

/-- Two sound ledgers that know the same types. -/
structure Peers (ctx : Context) (l l' : Ledger) : Prop where
  left : l.Sound ctx
  right : l'.Sound ctx
  known : ∀ t, l.Known t ↔ l'.Known t

theorem Peers.symm (h : Peers ctx l l') : Peers ctx l' l :=
  ⟨h.right, h.left, fun t => (h.known t).symm⟩

/-- The type of a row has a row of the same category with the peer. -/
theorem Peers.row (h : Peers ctx l l') {row : Row} (hm : row ∈ l.rows) :
    ∃ row' ∈ l'.rows, row'.type = row.type ∧ row'.category = row.category ∧
      row'.id = l'.idOf row.type := by
  have hmemo := h.left.row_memo row hm
  have hn := h.left.not_null _ _ hmemo
  have hcat := h.left.row_category row hm
  have hl := ((h.known row.type).1 (known_of_lookup hmemo)).lookup hn
  obtain ⟨row', hm', ht, hid⟩ := h.right.entered _ _ _ hl (h.left.row_type row hm) hcat
  refine ⟨row', hm', ht, ?_, hid⟩
  have hcat' := h.right.row_category row' hm'
  rw [ht, hcat] at hcat'
  exact (Option.some.inj hcat').symm

/-- The types of the rows of a category. -/
def typesOf (l : Ledger) (c : Category) : List CType :=
  (l.rows.filter fun row => row.category == c).map Row.type

theorem mem_typesOf {c : Category} {t : CType} :
    t ∈ l.typesOf c ↔ ∃ row ∈ l.rows, row.category = c ∧ row.type = t := by
  simp only [typesOf, List.mem_map, List.mem_filter, beq_iff_eq, and_assoc]

/-- The identifiers of the types of a category, in their order, are those from zero on. -/
theorem Sound.map_idOf_typesOf (h : l.Sound ctx) (c : Category) :
    (l.typesOf c).map l.idOf = (List.range (l.counters.count c)).map c.id := by
  rw [← h.numbered c, typesOf, List.map_map]
  refine List.map_congr_left fun row hm => ?_
  exact idOf_of_lookup (h.row_memo row (List.mem_of_mem_filter hm))

theorem Sound.nodup_typesOf (h : l.Sound ctx) (c : Category) : (l.typesOf c).Nodup := by
  have hids : ((l.typesOf c).map l.idOf).Nodup := by
    rw [h.map_idOf_typesOf]
    exact nodup_map_range_id _ _
  exact hids.of_map

/-- **Ledgers that are `Peers` have given out equally many identifiers** of each category. -/
theorem Peers.count_eq (h : Peers ctx l l') (c : Category) :
    l.counters.count c = l'.counters.count c := by
  have hmem : ∀ {l l' : Ledger}, Peers ctx l l' → ∀ t ∈ l.typesOf c, t ∈ l'.typesOf c := by
    intro l l' h t ht
    obtain ⟨row, hm, rfl, rfl⟩ := mem_typesOf.1 ht
    obtain ⟨row', hm', ht', hc', -⟩ := h.row hm
    exact mem_typesOf.2 ⟨row', hm', hc', ht'⟩
  have hperm : (l.typesOf c).Perm (l'.typesOf c) :=
    (List.perm_ext_iff_of_nodup (h.left.nodup_typesOf c) (h.right.nodup_typesOf c)).2
      fun t => ⟨hmem h t, hmem h.symm t⟩
  have hlen : ∀ {l : Ledger}, l.Sound ctx → (l.typesOf c).length = l.counters.count c := by
    intro l h
    have := congrArg List.length (h.map_idOf_typesOf c)
    simpa using this
  rw [← hlen h.left, ← hlen h.right, hperm.length_eq]

/-- The identifiers of the rows are the numbered ones up to the counters. -/
theorem Sound.row_id_iff (h : l.Sound ctx) {id : TypeId} :
    (∃ row ∈ l.rows, row.id = id) ↔ ∃ c n, n < l.counters.count c ∧ id = c.id n := by
  have hids : ∀ c i, (∃ row ∈ l.rows, row.category = c ∧ row.id = i) ↔
      ∃ n < l.counters.count c, i = c.id n := by
    intro c i
    have hm := Iff.of_eq (congrArg (i ∈ ·) (h.numbered c))
    simpa only [List.mem_map, List.mem_filter, beq_iff_eq, List.mem_range, and_assoc,
      eq_comm (a := i)] using hm
  constructor
  · rintro ⟨row, hm, hid⟩
    obtain ⟨n, hn, hi⟩ := (hids row.category id).1 ⟨row, hm, rfl, hid⟩
    exact ⟨row.category, n, hn, hi⟩
  · rintro ⟨c, n, hn, hi⟩
    obtain ⟨row, hm, -, hid⟩ := (hids c id).2 ⟨n, hn, hi⟩
    exact ⟨row, hm, hid⟩

theorem Peers.row_id_iff (h : Peers ctx l l') {id : TypeId} :
    (∃ row ∈ l.rows, row.id = id) ↔ ∃ row ∈ l'.rows, row.id = id := by
  simp only [h.left.row_id_iff, h.right.row_id_iff, h.count_eq]

/-! ## 3. The exchange of identifiers -/

/-- What the second ledger calls the type of a row of the first. What is no identifier of a row
stays as it is. -/
def exchanged (l l' : Ledger) (id : TypeId) : TypeId :=
  match l.rows.find? fun row => row.id == id with
  | some row => l'.idOf row.type
  | none => id

theorem Sound.exchanged_row (h : l.Sound ctx) (l' : Ledger) {row : Row} (hm : row ∈ l.rows) :
    l.exchanged l' row.id = l'.idOf row.type := by
  unfold exchanged
  split
  · rename_i row' hf
    have hid : row'.id = row.id := by simpa using List.find?_some hf
    rw [h.row_unique (List.mem_of_find?_eq_some hf) hm hid]
  · rename_i hf
    have := List.find?_eq_none.1 hf row hm
    simp at this

theorem exchanged_of_ne {id : TypeId} (h : ¬∃ row ∈ l.rows, row.id = id) (l' : Ledger) :
    l.exchanged l' id = id := by
  unfold exchanged
  split
  · rename_i row hf
    have hid : row.id = id := by simpa using List.find?_some hf
    exact absurd ⟨row, List.mem_of_find?_eq_some hf, hid⟩ h
  · rfl

/-- To go there and back changes nothing. -/
theorem Peers.exchanged_exchanged (h : Peers ctx l l') (id : TypeId) :
    l'.exchanged l (l.exchanged l' id) = id := by
  by_cases hid : ∃ row ∈ l.rows, row.id = id
  · obtain ⟨row, hm, rfl⟩ := hid
    obtain ⟨row', hm', ht, -, hid'⟩ := h.row hm
    rw [h.left.exchanged_row l' hm, ← hid', h.right.exchanged_row l hm', ht,
      idOf_of_lookup (h.left.row_memo row hm)]
  · rw [exchanged_of_ne hid, exchanged_of_ne (fun hid' => hid (h.row_id_iff.2 hid'))]

/-- The permutation that puts the identifiers of the second ledger in the place of those of the
first. -/
def Peers.exchange (h : Peers ctx l l') : Equiv.Perm TypeId where
  toFun := l.exchanged l'
  invFun := l'.exchanged l
  left_inv := h.exchanged_exchanged
  right_inv := h.symm.exchanged_exchanged

theorem Peers.exchange_row (h : Peers ctx l l') {row : Row} (hm : row ∈ l.rows) :
    h.exchange row.id = l'.idOf row.type :=
  h.left.exchanged_row l' hm

/-- What is not numbered is not moved. -/
theorem Peers.exchange_of_ne (h : Peers ctx l l') {id : TypeId}
    (hid : ∀ c n, Category.id c n ≠ id) : h.exchange id = id := by
  refine exchanged_of_ne ?_ l'
  rintro ⟨row, hm, rfl⟩
  obtain ⟨n, hn⟩ := h.left.id_of_mem_rows hm
  exact hid _ _ hn.symm

/-- **The `exchange` keeps categories.** -/
theorem Peers.exchange_numbered (h : Peers ctx l l') (c : Category) (n : Nat) :
    ∃ m, h.exchange (c.id n) = c.id m := by
  by_cases hid : ∃ row ∈ l.rows, row.id = c.id n
  · obtain ⟨row, hm, hrow⟩ := hid
    obtain ⟨row', hm', -, hc', hid'⟩ := h.row hm
    obtain ⟨k, hk⟩ := h.left.id_of_mem_rows hm
    obtain ⟨m, hm''⟩ := h.right.id_of_mem_rows hm'
    have hc : c = row.category := (Category.id_inj.1 (hrow.symm.trans hk)).1
    refine ⟨m, ?_⟩
    rw [← hrow, h.exchange_row hm, ← hid', hm'', hc', hc]
  · exact ⟨n, exchanged_of_ne hid l'⟩

/-- **The `exchange` takes the identifier of a type to that of the same type.** -/
theorem Peers.exchange_idOf (h : Peers ctx l l') {t : CType} (hk : l.Known t) :
    h.exchange (l.idOf t) = l'.idOf t := by
  obtain ⟨hid, hkd⟩ := h.left.idOf_desugar hk
  rw [hid, (h.right.idOf_desugar ((h.known t).1 hk)).1]
  have hs := CType.hasSugar_desugar t
  generalize t.desugar = u at hkd hs
  cases h.left.standing hs hkd with
  | null hn hnull =>
    rw [hnull, idOf_of_isNull h.right.not_null hn]
    exact h.exchange_of_ne Category.id_ne_null
  | row row hm ht hrid => rw [← hrid, h.exchange_row hm, ht]
  | fundamental s hts hsid hf _ =>
    subst hts
    have hk' : l'.memo.lookup (.builtin .none s) = some (l'.idOf (.builtin .none s)) :=
      ((h.known _).1 hkd).lookup rfl
    have hcat : ctx.category? (.builtin .none s) = none := by
      rw [hsid] at hf
      exact if_pos hf
    rw [hsid, (h.right.fundamental _ _ hk' rfl hcat).1]
    refine h.exchange_of_ne fun c n he => ?_
    rw [← hsid] at he
    rw [← he, Fundamental.not_isFundamental_id] at hf
    cases hf

/-! ## 4. Serial numbers -/

/-- The tag of the type of a row. -/
def tagOf? (l : Ledger) (t : CType) : Option Tag :=
  (l.rows.find? fun row => row.type == t).bind Row.tag

/-- What the second ledger has for the serial number of a type of the first. -/
def exchangedSerial (l l' : Ledger) (s : Nat) : Nat :=
  match (l.rows.find? fun row => row.tag == some (.anonymous s)).bind fun row =>
    l'.tagOf? row.type with
  | some (.anonymous s') => s'
  | _ => s

theorem Sound.row_of_type (h : l.Sound ctx) {a b : Row} (ha : a ∈ l.rows) (hb : b ∈ l.rows)
    (ht : a.type = b.type) : a = b := by
  refine h.row_unique ha hb ?_
  have hla := h.row_memo a ha
  rw [ht, h.row_memo b hb] at hla
  exact (Option.some.inj hla).symm

theorem Sound.tagOf?_row (h : l.Sound ctx) {row : Row} (hm : row ∈ l.rows) :
    l.tagOf? row.type = row.tag := by
  unfold tagOf?
  cases hf : l.rows.find? fun row' => row'.type == row.type with
  | none =>
    have := List.find?_eq_none.1 hf row hm
    simp at this
  | some row' =>
    have ht : row'.type = row.type := by simpa using List.find?_some hf
    rw [h.row_of_type (List.mem_of_find?_eq_some hf) hm ht, Option.bind_some]

theorem exchangedSerial_row (hl : l.Tagged) {l' : Ledger} (h : l.Sound ctx) {row : Row}
    (hm : row ∈ l.rows) {s s' : Nat} (ht : row.tag = some (.anonymous s))
    (ht' : l'.tagOf? row.type = some (.anonymous s')) : l.exchangedSerial l' s = s' := by
  unfold exchangedSerial
  cases hf : l.rows.find? fun row' => row'.tag == some (.anonymous s) with
  | none =>
    have := List.find?_eq_none.1 hf row hm
    simp [ht] at this
  | some row' =>
    have htag : row'.tag = some (.anonymous s) := by simpa using List.find?_some hf
    have hm' := List.mem_of_find?_eq_some hf
    have hrow := h.row_unique hm' hm (hl.injective row' hm' row hm s htag ht)
    rw [Option.bind_some, hrow, ht']

/-- Two tags that fit one name differ in the serial number only. -/
theorem TagFits.eq_or {name : Option String} {t t' : Tag} (h : TagFits name t)
    (h' : TagFits name t') :
    (∃ n, t = .named n ∧ t' = .named n) ∨ ∃ s s', t = .anonymous s ∧ t' = .anonymous s' := by
  have hempty : ∀ {n : String}, name = some n → name.getD "" = "" → n.isEmpty = true := by
    rintro n rfl rfl
    rfl
  cases t with
  | named n =>
    cases t' with
    | named n' => exact .inl ⟨n, rfl, by rw [Option.some.inj (h'.1.symm.trans h.1)]⟩
    | anonymous s' => exact absurd (hempty h.1 h') (by rw [h.2]; decide)
  | anonymous s =>
    cases t' with
    | named n' => exact absurd (hempty h'.1 h) (by rw [h'.2]; decide)
    | anonymous s' => exact .inr ⟨s, s', rfl, rfl⟩

/-- **The tags of one type** in two ledgers differ in the serial number only (`exchangedSerial`). -/
theorem Peers.tag (h : Peers ctx l l') (hl : l.Tagged) {row row' : Row} (hm : row ∈ l.rows)
    (hm' : row' ∈ l'.rows) (ht : row'.type = row.type) :
    row'.tag = row.tag.map (Tag.renumbered (l.exchangedSerial l')) := by
  have hfit := h.left.row_tag row hm
  have hfit' := h.right.row_tag row' hm'
  have hof := h.right.tagOf?_row hm'
  rw [ht] at hfit' hof
  cases htag : row.tag with
  | none =>
    cases htag' : row'.tag with
    | none => rfl
    | some t' =>
      rw [htag] at hfit
      rw [htag'] at hfit'
      cases hname : ctx.tagName? row.type <;> rw [hname] at hfit hfit'
      · exact hfit'.elim
      · exact hfit.elim
  | some t =>
    rw [htag] at hfit
    cases hname : ctx.tagName? row.type with
    | none => rw [hname] at hfit; exact hfit.elim
    | some name =>
      rw [hname] at hfit hfit'
      cases htag' : row'.tag with
      | none => rw [htag'] at hfit'; exact hfit'.elim
      | some t' =>
        rw [htag'] at hfit' hof
        rcases TagFits.eq_or hfit hfit' with ⟨n, rfl, rfl⟩ | ⟨s, s', rfl, rfl⟩
        · rfl
        · rw [Option.map_some, Tag.renumbered, exchangedSerial_row hl h.left hm htag hof]

/-- Serial numbers of two types stay apart. -/
theorem Peers.exchangedSerial_inj (h : Peers ctx l l') (hl : l.Tagged) (hl' : l'.Tagged)
    {a b : Row} (ha : a ∈ l.rows) (hb : b ∈ l.rows) {s t : Nat}
    (hs : a.tag = some (.anonymous s)) (ht : b.tag = some (.anonymous t))
    (he : l.exchangedSerial l' s = l.exchangedSerial l' t) : s = t := by
  obtain ⟨a', ha', hat, -⟩ := h.row ha
  obtain ⟨b', hb', hbt, -⟩ := h.row hb
  have hs' := h.tag hl ha ha' hat
  have ht' := h.tag hl hb hb' hbt
  rw [hs, Option.map_some, Tag.renumbered, he] at hs'
  rw [ht, Option.map_some, Tag.renumbered] at ht'
  have hrow := h.right.row_unique ha' hb' (hl'.injective a' ha' b' hb' _ hs' ht')
  have hab : a = b := h.left.row_of_type ha hb (by rw [← hat, ← hbt, hrow])
  rw [hab, ht] at hs
  exact (Tag.anonymous.inj (Option.some.inj hs)).symm

/-! ## 5. Fundamental types -/

/-- The identifiers of fundamental types that have been met are remembered with their spellings. -/
def SpellingsKnown (l : Ledger) : Prop :=
  ∀ p ∈ l.fundamentals, p.1 = Fundamental.idOfSpelling p.2 ∧
    Fundamental.isFundamental p.1 = true ∧ l.memo.lookup (.builtin .none p.2) = some p.1

theorem SpellingsKnown.congr {l' : Ledger} (h : l.SpellingsKnown)
    (hf : l'.fundamentals = l.fundamentals) (hm : ∀ s id,
      Fundamental.isFundamental (Fundamental.idOfSpelling s) = true →
      l.memo.lookup (.builtin .none s) = some id → id = Fundamental.idOfSpelling s →
        l'.memo.lookup (.builtin .none s) = some id) : l'.SpellingsKnown := by
  intro p hp
  rw [hf] at hp
  obtain ⟨hid, hfund, hl⟩ := h p hp
  exact ⟨hid, hfund, hm p.2 p.1 (hid ▸ hfund) hl hid⟩

theorem SpellingsKnown.enterSynonym (h : l.SpellingsKnown) (t : CType) :
    (l.enterSynonym ctx detail t).SpellingsKnown := by
  refine h.congr (fundamentals_note _ _ _) fun s id _ hl _ => ?_
  rw [memo_enterSynonym]
  by_cases hs : CType.builtin .none s = t
  · subst hs
    rw [Keyed.lookup_set_self]
    exact congrArg some (idOf_of_lookup hl)
  · rw [Keyed.lookup_set_of_ne hs, hl]

/-- **A type that is entered** is a fundamental one and is remembered, or touches none of them. -/
theorem SpellingsKnown.enter (h : l.SpellingsKnown) (t : CType) :
    (l.enter ctx detail t).SpellingsKnown := by
  unfold Ledger.enter
  split
  · rename_i c hc
    refine h.congr (fundamentals_enterRow c) fun s id hf hl _ => ?_
    rw [memo_enterRow, Keyed.lookup_set_of_ne, hl]
    rintro rfl
    have hnone : ctx.category? (.builtin .none s) = none := if_pos hf
    rw [hnone] at hc
    cases hc
  · rename_i hc
    obtain ⟨s, rfl, hs⟩ := builtin_of_category?_eq_none hc
    have hmemo : (l.enterFundamental (.builtin .none s)).memo =
        Keyed.set (.builtin .none s) (Fundamental.idOfSpelling s) l.memo := rfl
    have hold : ∀ p ∈ l.fundamentals, p.1 = Fundamental.idOfSpelling p.2 ∧
        Fundamental.isFundamental p.1 = true ∧
        (l.enterFundamental (.builtin .none s)).memo.lookup (.builtin .none p.2) = some p.1 := by
      intro p hp
      obtain ⟨hid, hfund, hl⟩ := h p hp
      refine ⟨hid, hfund, ?_⟩
      rw [hmemo]
      by_cases he : p.2 = s
      · rw [he, Keyed.lookup_set_self, hid, he]
      · rw [Keyed.lookup_set_of_ne (fun h => he (CType.builtin.inj h).2), hl]
    intro p hp
    rw [fundamentals_enterFundamental] at hp
    split at hp
    · exact hold p hp
    · rcases List.mem_append.1 hp with hp | hp
      · exact hold p hp
      · obtain rfl := List.mem_singleton.1 hp
        exact ⟨rfl, hs, by rw [hmemo, Keyed.lookup_set_self]⟩

theorem SpellingsKnown.register (h : l.SpellingsKnown) (t : CType) :
    (l.register ctx detail t).SpellingsKnown :=
  settle_keeps (P := SpellingsKnown)
    (fun _ _ hl => hl.congr (fundamentals_note _ _ _) fun s id _ hl _ => by rwa [memo_note])
    (fun t _ hl => hl.enterSynonym t) (fun t _ hl => hl.enter t) _ h

end Ledger

end TypeLedger
