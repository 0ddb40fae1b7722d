import TypeLedger.Proofs.Printing.Written
import Mathlib.Data.List.Chain

/-!
# Sigils in a row

* A `Sigil` is a way of pointing with its qualifiers. A declarator writes its sigils in a row in
  front of the name, without a space behind a sigil that has no qualifiers.
* `fused`: what a lexer makes of the row. Two ampersands side by side are one token, wherever they
  come from.
* `spelled_row`: the row lexes to the tokens of the fused sigils.
* `fused_eq_self_iff`: the tokens are those of the sigils if and only if no single ampersand without
  qualifiers stands directly in front of a reference. `fused_eq_iff`: two rows have the same tokens
  if and only if they have the same ampersands.
-/

namespace TypeLedger

/-- A way of pointing, with its qualifiers. -/
structure Sigil where
  kind : PointerKind
  quals : Qualifiers
deriving DecidableEq, Repr

namespace Sigil

/-! ## 1. Ampersands -/

/-- The sigil with one ampersand for each ampersand. The qualifiers stand behind the last one. -/
def parts (c : Sigil) : List Sigil :=
  match c.kind with
  | .rvalueReference => [⟨.lvalueReference, .none⟩, ⟨.lvalueReference, c.quals⟩]
  | _ => [c]

/-- The sigils with one ampersand for each ampersand. -/
def parted (cs : List Sigil) : List Sigil := cs.flatMap parts

/-- The sigil is a single ampersand with nothing behind it. -/
def isBare (c : Sigil) : Bool := c.kind == .lvalueReference && c.quals.isEmpty

/-- Two ampersands side by side are taken together, from the left. -/
def joined : List Sigil → List Sigil
  | c :: d :: cs =>
    if c.isBare && d.kind == .lvalueReference then ⟨.rvalueReference, d.quals⟩ :: joined cs
    else c :: joined (d :: cs)
  | cs => cs

/-- The sigils that a lexer finds in a row. -/
def fused (cs : List Sigil) : List Sigil := joined (parted cs)

/-- The first sigil runs into the second: there is nothing between two ampersands. -/
def RunsInto (c d : Sigil) : Prop := c.isBare = true ∧ d.kind.isReference = true

instance (c d : Sigil) : Decidable (c.RunsInto d) := inferInstanceAs (Decidable (_ ∧ _))

/-- No sigil runs into the next one. -/
def Apart (cs : List Sigil) : Prop := cs.IsChain fun c d => ¬ c.RunsInto d

theorem parted_cons (c : Sigil) (cs : List Sigil) : parted (c :: cs) = c.parts ++ parted cs :=
  List.flatMap_cons

theorem parts_eq_self {c : Sigil} (h : c.kind ≠ .rvalueReference) : c.parts = [c] := by
  unfold parts
  split
  · rename_i hk
    exact absurd hk h
  · rfl

theorem isBare_iff {c : Sigil} : c.isBare = true ↔ c = ⟨.lvalueReference, .none⟩ := by
  obtain ⟨k, q⟩ := c
  simp [isBare, Qualifiers.isEmpty_iff]

theorem joined_cons_of_not_bare {c : Sigil} (h : c.isBare = false) (cs : List Sigil) :
    joined (c :: cs) = c :: joined cs := by
  cases cs with
  | nil => simp [joined]
  | cons d cs => simp [joined, h]

theorem joined_cons_of_not_ampersand {c d : Sigil} (h : d.kind ≠ .lvalueReference)
    (cs : List Sigil) : joined (c :: d :: cs) = c :: joined (d :: cs) := by
  simp [joined, h]

theorem joined_bare {c d : Sigil} (hc : c.isBare = true) (hd : d.kind = .lvalueReference)
    (cs : List Sigil) : joined (c :: d :: cs) = ⟨.rvalueReference, d.quals⟩ :: joined cs := by
  simp [joined, hc, hd]

/-! ## 2. What fuses -/

/-- In front of what it does not run into, a sigil stays what it is. -/
theorem fused_cons {c : Sigil} {cs : List Sigil} (h : ∀ d ∈ cs.head?, ¬ c.RunsInto d) :
    fused (c :: cs) = c :: fused cs := by
  obtain ⟨k, q⟩ := c
  rw [fused, parted_cons]
  by_cases hk : k = .rvalueReference
  · subst hk
    exact joined_bare rfl rfl _
  · rw [parts_eq_self hk]
    show joined (_ :: parted cs) = _
    by_cases hb : isBare ⟨k, q⟩ = true
    · cases cs with
      | nil => rfl
      | cons d cs =>
        have hd : d.kind.isReference ≠ true := fun hr => h d rfl ⟨hb, hr⟩
        have hdk : d.kind ≠ .rvalueReference ∧ d.kind ≠ .lvalueReference := by
          constructor <;> intro he <;> rw [he] at hd <;> exact hd rfl
        rw [fused, parted_cons, parts_eq_self hdk.1]
        exact joined_cons_of_not_ampersand hdk.2 _
    · exact joined_cons_of_not_bare (Bool.eq_false_iff.2 hb) _

/-- In front of a reference, a bare ampersand becomes a part of another sigil. -/
theorem fused_cons_ne {c d : Sigil} (h : c.RunsInto d) (cs : List Sigil) :
    ∀ rest, fused (c :: d :: cs) ≠ c :: rest := by
  intro rest he
  obtain ⟨hc, hd⟩ := h
  obtain rfl := isBare_iff.1 hc
  obtain ⟨k, q⟩ := d
  have hhead : ∃ q' rest', fused (⟨.lvalueReference, .none⟩ :: ⟨k, q⟩ :: cs) =
      ⟨.rvalueReference, q'⟩ :: rest' := by
    cases k with
    | lvalueReference => exact ⟨q, _, joined_bare rfl rfl _⟩
    | rvalueReference => exact ⟨.none, _, joined_bare rfl rfl _⟩
    | _ => cases hd
  obtain ⟨q', rest', hf⟩ := hhead
  rw [hf] at he
  cases he

/-- **The sigils are found again if and only if none runs into the next one** (`Apart`). -/
theorem fused_eq_self_iff (cs : List Sigil) : fused cs = cs ↔ Apart cs := by
  induction cs with
  | nil => exact ⟨fun _ => .nil, fun _ => rfl⟩
  | cons c cs ih =>
    rw [Apart, List.isChain_cons]
    by_cases h : ∀ d ∈ cs.head?, ¬ c.RunsInto d
    · rw [fused_cons h, List.cons.injEq, ih]
      exact ⟨fun hc => ⟨h, hc.2⟩, fun hc => ⟨rfl, hc.2⟩⟩
    · refine ⟨fun hf => absurd hf ?_, fun hc => absurd hc.1 h⟩
      cases cs with
      | nil => exact absurd (fun d hd => nomatch hd) h
      | cons d cs =>
        have hd : c.RunsInto d := by
          by_contra hn
          exact h fun e he => Option.some.inj he ▸ hn
        exact fused_cons_ne hd cs _

/-- Taking ampersands together keeps the ampersands. -/
theorem parted_joined {cs : List Sigil} (h : ∀ c ∈ cs, c.kind ≠ .rvalueReference) :
    parted (joined cs) = cs := by
  induction cs using joined.induct with
  | case1 c d cs hcd ih =>
    obtain ⟨hc, hd⟩ := Bool.and_eq_true_iff.1 hcd
    obtain rfl := isBare_iff.1 hc
    have hdk := beq_iff_eq.1 hd
    rw [joined_bare hc hdk, parted_cons, ih fun e he =>
      h e (List.mem_cons_of_mem _ (List.mem_cons_of_mem _ he))]
    obtain ⟨k, q⟩ := d
    obtain rfl : k = .lvalueReference := hdk
    rfl
  | case2 c d cs hcd ih =>
    rw [joined, if_neg hcd, parted_cons, ih fun e he => h e (List.mem_cons_of_mem _ he),
      parts_eq_self (h c List.mem_cons_self)]
    rfl
  | case3 cs hcs =>
    cases cs with
    | nil => rfl
    | cons c cs =>
      cases cs with
      | nil =>
        show parted [c] = [c]
        rw [parted_cons, parts_eq_self (h c List.mem_cons_self)]
        rfl
      | cons d cs => exact absurd rfl (hcs c d cs)

theorem parts_kind {c d : Sigil} (h : d ∈ c.parts) : d.kind ≠ .rvalueReference := by
  unfold parts at h
  split at h
  · simp only [List.mem_cons, List.not_mem_nil, or_false] at h
    rcases h with rfl | rfl <;> rintro ⟨⟩
  · rename_i hk
    rw [List.mem_singleton.1 h]
    exact hk

theorem parted_fused (cs : List Sigil) : parted (fused cs) = parted cs := by
  refine parted_joined fun d hd => ?_
  obtain ⟨c, -, hdc⟩ := List.mem_flatMap.1 hd
  exact parts_kind hdc

theorem isEmpty_parted (cs : List Sigil) : (parted cs).isEmpty = cs.isEmpty := by
  cases cs with
  | nil => rfl
  | cons c cs =>
    rw [parted_cons, parts]
    split <;> rfl

/-- **Two rows fuse to the same sigils if and only if they have the same ampersands** (`parted`). -/
theorem fused_eq_iff {cs ds : List Sigil} : fused cs = fused ds ↔ parted cs = parted ds := by
  refine ⟨fun h => ?_, fun h => by rw [fused, h]; rfl⟩
  rw [← parted_fused cs, h, parted_fused]

/-! ## 3. Texts -/

/-- The sigil with a declarator behind it. -/
def text (c : Sigil) (name : String) : String := pointerText false c.kind c.quals name

/-- The sigils in a row with a declarator behind them. -/
def row (cs : List Sigil) (name : String) : String := cs.foldr text name

theorem row_append (cs ds : List Sigil) (name : String) :
    row (cs ++ ds) name = row cs (row ds name) :=
  List.foldr_append

theorem beside_append {a b : String} (hb : b ≠ "") (d : String) :
    Fragment.beside (a ++ b) d = a ++ Fragment.beside b d := by
  have hbe : b.isEmpty = false := by simpa using hb
  have hab : (a ++ b).isEmpty = false := by
    rw [Bool.eq_false_iff]
    intro h
    exact hb (String.append_eq_empty_iff.1 (String.isEmpty_iff.1 h)).2
  unfold Fragment.beside
  rw [hbe, hab]
  cases d.isEmpty with
  | true => rfl
  | false => simp only [Bool.false_eq_true, ↓reduceIte, String.append_assoc]

/-- Two ampersands are written like one behind another. -/
theorem row_parts (c : Sigil) (name : String) : row c.parts name = c.text name := by
  obtain ⟨k, q⟩ := c
  cases k with
  | rvalueReference =>
    have hamp : ("&" : String) ++ "&" = "&&" := by decide
    show text ⟨.lvalueReference, .none⟩ (text ⟨.lvalueReference, q⟩ name) = _
    have hne : "&" ++ q.spelling ≠ "" := fun h =>
      absurd (String.append_eq_empty_iff.1 h).1 (by decide)
    show "&" ++ (if q.isEmpty then "&" ++ name else Fragment.beside ("&" ++ q.spelling) name) =
      if q.isEmpty then "&&" ++ name else Fragment.beside ("&&" ++ q.spelling) name
    rw [← hamp]
    split
    · rw [String.append_assoc]
    · rw [String.append_assoc, beside_append hne]
  | _ => rfl

theorem row_parted (cs : List Sigil) (name : String) : row (parted cs) name = row cs name := by
  induction cs with
  | nil => rfl
  | cons c cs ih =>
    rw [parted_cons, row_append, ih, row_parts]
    rfl

/-- Rows with the same ampersands are the same text. -/
theorem row_eq_of_parted {cs ds : List Sigil} (h : parted cs = parted ds) (name : String) :
    row cs name = row ds name := by
  rw [← row_parted cs, h, row_parted]

/-! ## 4. Tokens -/

/-- The tokens of a sigil. -/
def kinds (c : Sigil) : List TokenKind := .mark c.kind.mark :: c.quals.kinds

/-- The tokens of sigils. -/
def rowKinds (cs : List Sigil) : List TokenKind := cs.flatMap kinds

variable {name : String} {ks : List TokenKind}

theorem rowKinds_cons (c : Sigil) (cs : List Sigil) : rowKinds (c :: cs) = c.kinds ++ rowKinds cs :=
  List.flatMap_cons

theorem spelled_text (c : Sigil) (hn : Spelled name ks) (ha : c.isBare = true → NoAmp name) :
    Spelled (c.text name) (c.kinds ++ ks) :=
  spelled_pointerText hn fun hk hq =>
    ha (isBare_iff.2 (congrArg₂ Sigil.mk hk hq : (⟨c.kind, c.quals⟩ : Sigil) = _))

/-- **What a lexer finds in a `row` of single ampersands and other sigils** is `joined`. The
induction takes two ampersands at a time where they stand side by side. -/
theorem spelled_joined {cs : List Sigil} (h : ∀ c ∈ cs, c.kind ≠ .rvalueReference)
    (hn : Spelled name ks) (ha : NoAmp name) :
    Spelled (row cs name) (rowKinds (joined cs) ++ ks) := by
  induction cs using joined.induct with
  | case1 c d cs hcd ih =>
    have ih := ih fun e he => h e (List.mem_cons_of_mem _ (List.mem_cons_of_mem _ he))
    obtain ⟨hc, hd⟩ := Bool.and_eq_true_iff.1 hcd
    obtain rfl := isBare_iff.1 hc
    obtain ⟨k, q⟩ := d
    obtain rfl : k = .lvalueReference := beq_iff_eq.1 hd
    have htext : row (⟨.lvalueReference, .none⟩ :: ⟨.lvalueReference, q⟩ :: cs) name =
        text ⟨.rvalueReference, q⟩ (row cs name) :=
      row_parts ⟨.rvalueReference, q⟩ (row cs name)
    rw [htext, joined_bare hc rfl, rowKinds_cons, List.append_assoc]
    exact spelled_text ⟨.rvalueReference, q⟩ ih fun h => absurd h (by simp [isBare])
  | case2 c d cs hcd ih =>
    rw [joined, if_neg hcd, rowKinds_cons, List.append_assoc]
    refine spelled_text c (ih fun e he => h e (List.mem_cons_of_mem _ he)) fun hbare => ?_
    have hd : d.kind ≠ .lvalueReference := by simpa [hbare] using hcd
    have hd' := h d (List.mem_cons_of_mem _ List.mem_cons_self)
    show NoAmp (pointerText false d.kind d.quals (row cs name))
    refine noAmp_pointerText (.inr ?_)
    cases hk : d.kind <;> first | rfl | exact absurd hk hd | exact absurd hk hd'
  | case3 cs hcs =>
    cases cs with
    | nil => exact hn
    | cons c cs =>
      cases cs with
      | nil =>
        show Spelled (c.text name) (rowKinds [c] ++ ks)
        rw [rowKinds_cons]
        simpa [rowKinds] using spelled_text c hn fun _ => ha
      | cons d cs => exact absurd rfl (hcs c d cs)

/-- **A `row` lexes to the tokens of the `fused` sigils.** -/
theorem spelled_row (cs : List Sigil) (hn : Spelled name ks) (ha : NoAmp name) :
    Spelled (row cs name) (rowKinds (fused cs) ++ ks) := by
  rw [← row_parted]
  refine spelled_joined (fun d hd => ?_) hn ha
  obtain ⟨c, -, hdc⟩ := List.mem_flatMap.1 hd
  exact parts_kind hdc

/-- No sigil is that of a pointer to a member, which is written like a pointer. -/
def Plain (cs : List Sigil) : Prop := ∀ c ∈ cs, c.kind ≠ .member

theorem plain_fused {cs : List Sigil} (h : Plain cs) : Plain (fused cs) := by
  have hparted : Plain (parted cs) := by
    intro d hd
    obtain ⟨c, hc, hdc⟩ := List.mem_flatMap.1 hd
    unfold parts at hdc
    split at hdc
    · simp only [List.mem_cons, List.not_mem_nil, or_false] at hdc
      rcases hdc with rfl | rfl <;> rintro ⟨⟩
    · rw [List.mem_singleton.1 hdc]
      exact h c hc
  rw [fused]
  generalize parted cs = ds at hparted
  induction ds using joined.induct with
  | case1 c d ds hcd ih =>
    obtain ⟨hc, hd⟩ := Bool.and_eq_true_iff.1 hcd
    rw [joined_bare hc (beq_iff_eq.1 hd)]
    refine List.forall_mem_cons.2 ⟨by rintro ⟨⟩, ih fun e he => ?_⟩
    exact hparted e (List.mem_cons_of_mem _ (List.mem_cons_of_mem _ he))
  | case2 c d ds hcd ih =>
    rw [joined, if_neg hcd]
    exact List.forall_mem_cons.2 ⟨hparted c List.mem_cons_self,
      ih fun e he => hparted e (List.mem_cons_of_mem _ he)⟩
  | case3 ds hds =>
    cases ds with
    | nil => exact hparted
    | cons c ds =>
      cases ds with
      | nil => exact hparted
      | cons d ds => exact absurd rfl (hds c d ds)

/-- The token is a keyword. -/
def isKeywordKind : TokenKind → Bool
  | .keyword _ => true
  | _ => false

theorem takeWhile_kinds (q : Qualifiers) (cs : List Sigil) :
    (q.kinds ++ rowKinds cs).takeWhile isKeywordKind = q.kinds := by
  have hq : ∀ k ∈ q.kinds, isKeywordKind k = true := by
    intro k hk
    obtain ⟨w, -, rfl⟩ := List.mem_map.1 hk
    rfl
  have hcs : (rowKinds cs).takeWhile isKeywordKind = [] := by
    cases cs <;> rfl
  rw [List.takeWhile_append_of_pos hq, hcs, List.append_nil]

theorem quals_eq_of_kinds {p q : Qualifiers} (h : p.kinds = q.kinds) : p = q := by
  have hw : ∀ w : Qualifier, .keyword (.qualifier w) ∈ p.kinds ↔
      .keyword (.qualifier w) ∈ q.kinds := fun w => by rw [h]
  have hc := hw .constant
  have hv := hw .volatile
  have hr := hw .restrict
  simp only [Qualifiers.kinds, Qualifiers.members, List.mem_map, List.mem_append] at hc hv hr
  obtain ⟨_, _, _⟩ := p
  obtain ⟨_, _, _⟩ := q
  simp_all

theorem mark_injective {j k : PointerKind} (hj : j ≠ .member) (hk : k ≠ .member)
    (h : j.mark = k.mark) : j = k := by
  cases j <;> cases k <;> first | rfl | exact absurd rfl hj | exact absurd rfl hk | cases h

/-- **Different rows have different tokens** (`rowKinds`), if they are `Plain`. -/
theorem rowKinds_injective {cs ds : List Sigil} (hc : Plain cs) (hd : Plain ds)
    (h : rowKinds cs = rowKinds ds) : cs = ds := by
  induction cs generalizing ds with
  | nil =>
    cases ds with
    | nil => rfl
    | cons d ds => cases h
  | cons c cs ih =>
    cases ds with
    | nil => cases h
    | cons d ds =>
      obtain ⟨hck, hcs⟩ := List.forall_mem_cons.1 hc
      obtain ⟨hdk, hds⟩ := List.forall_mem_cons.1 hd
      rw [rowKinds_cons, rowKinds_cons, kinds, kinds, List.cons_append, List.cons_append,
        List.cons.injEq] at h
      obtain ⟨hmark, hrest⟩ := h
      have hkind := mark_injective hck hdk (TokenKind.mark.inj hmark)
      have hquals : c.quals = d.quals := by
        refine quals_eq_of_kinds ?_
        rw [← takeWhile_kinds c.quals cs, hrest, takeWhile_kinds]
      rw [hquals] at hrest
      obtain ⟨_, _⟩ := c
      obtain ⟨_, _⟩ := d
      obtain rfl := hkind
      obtain rfl := hquals
      rw [ih hcs hds (List.append_cancel_left hrest)]

end Sigil

/-! ## 5. The sigils of a type -/

namespace CType

/-- The sigils of a declarator of the type, in the order in which they stand in front of the name:
the outermost pointer is next to the name. -/
def sigils : CType → List Sigil
  | pointer q k t => t.sigils ++ [⟨k, q⟩]
  | _ => []

/-- What a type points at in the end. -/
def pointed : CType → CType
  | pointer _ _ t => t.pointed
  | t => t

/-- The sigils of the type stand in parentheses: an array or a function would bind tighter. -/
def isEnclosed (t : CType) : Bool := t.pointed.isTight && !t.sigils.isEmpty

/-- The declarator of a type around a name: its sigils, in parentheses where they need them. -/
def wrapped (t : CType) (name : String) : String :=
  if t.isEnclosed then "(" ++ Sigil.row t.sigils name ++ ")" else Sigil.row t.sigils name

/-- The tokens of a declarator around the tokens `ks` of a name, where the lexer finds the sigils
`cs`. -/
def wrappedKinds (t : CType) (cs : List Sigil) (ks : List TokenKind) : List TokenKind :=
  (if t.isEnclosed then [.mark .parenOpen] else []) ++ Sigil.rowKinds cs ++ ks ++
    if t.isEnclosed then [.mark .parenClose] else []

/-- What is no pointer has no sigils and points at nothing else. -/
theorem pointed_of_ne {t : CType} (h : ∀ q k u, t ≠ .pointer q k u) :
    t.pointed = t ∧ t.sigils = [] := by
  cases t <;> first | exact ⟨rfl, rfl⟩ | exact absurd rfl (h _ _ _)

theorem pointed_ne_pointer (t : CType) : ∀ q k u, t.pointed ≠ .pointer q k u := by
  induction t using pointed.induct with
  | case1 q k t ih => exact ih
  | case2 t ht =>
    rw [(pointed_of_ne ht).1]
    exact ht

theorem ne_pointer_of_isTight {t : CType} (h : t.isTight = true) : ∀ q k u, t ≠ .pointer q k u := by
  rintro q k u rfl
  cases h

theorem pointed_of_sigils {t : CType} (h : t.sigils = []) : t.pointed = t := by
  cases t <;> first | rfl | exact absurd h (by simp [sigils])

/-- A pointer is one more sigil next to the name. -/
theorem wrapped_pointer (q : Qualifiers) (k : PointerKind) (t : CType) (name : String) :
    (pointer q k t).wrapped name = t.wrapped (pointerText t.isTight k q name) := by
  have hrow : Sigil.row (t.sigils ++ [⟨k, q⟩]) name =
      Sigil.row t.sigils (pointerText false k q name) := Sigil.row_append _ _ _
  have hne : (t.sigils ++ [⟨k, q⟩] : List Sigil).isEmpty = false := by simp
  rw [wrapped, wrapped, isEnclosed, isEnclosed, pointed, sigils, hrow, hne]
  cases ht : t.isTight with
  | true =>
    obtain ⟨hp, hs⟩ := pointed_of_ne (ne_pointer_of_isTight ht)
    rw [hp, ht, hs]
    rfl
  | false =>
    cases hs : t.sigils with
    | nil =>
      rw [pointed_of_sigils hs, ht]
      rfl
    | cons c cs => rfl

theorem spelled_wrapped (t : CType) {name : String} {ks : List TokenKind} (hn : Spelled name ks)
    (ha : NoAmp name) : Spelled (t.wrapped name) (t.wrappedKinds (Sigil.fused t.sigils) ks) := by
  have hrow := Sigil.spelled_row t.sigils hn ha
  unfold wrapped wrappedKinds
  split
  · have := Spelled.mark .parenOpen (fun h => by cases h)
      (hrow.append (spelled_mark .parenClose) (clean_mark (by decide)))
    rw [← String.append_assoc] at this
    simpa [Mark.spelling] using this
  · simpa using hrow

/-- Where parentheses could be missed, the declarator begins with no ampersand. -/
theorem noAmp_wrapped (t : CType) {name : String} (ha : NoAmp name) (h : t.pointed.isTight = true) :
    NoAmp (t.wrapped name) := by
  rw [wrapped, isEnclosed, h, Bool.true_and]
  split
  · rw [String.append_assoc]
    exact noAmp_mark_append (m := .parenOpen) (by decide) _
  · rename_i hs
    have hnil : t.sigils = [] := by simpa using hs
    rw [hnil]
    exact ha

end CType

end TypeLedger
