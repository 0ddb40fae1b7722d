import TypeLedger.Pipeline
import TypeLedger.Proofs.Numeral
import TypeLedger.Proofs.Printing.Naming

/-!
# Texts without a placeholder

* `Free`: a text without the word that stands in place of a type that is not known. The word is made
  of letters and underscores, so pieces that are free make a free text if any other character stands
  between them (`free_around`).
* `Answers`: a computation that asks for names answers such a value, as long as the names made up so
  far are free. `answers_pure`, `answers_bind` and `answers_name` put such computations together.
-/

namespace TypeLedger

/-! ## 1. Words in lists -/

section

variable {α : Type} {w a b m : List α} {c : α}

/-- A word at the beginning of a list ends in front of what it does not contain. -/
theorem prefix_of_prefix_append_cons (h : w <+: a ++ c :: b) (hc : c ∉ w) : w <+: a := by
  have hac : a ++ [c] <+: a ++ c :: b := ⟨b, by rw [List.append_assoc]; rfl⟩
  rcases List.prefix_or_prefix_of_prefix h hac with hw | hw
  · rcases List.prefix_concat_iff.1 hw with rfl | hw
    · exact absurd (List.mem_append_right a (List.mem_singleton_self c)) hc
    · exact hw
  · exact absurd (hw.subset (List.mem_append_right a (List.mem_singleton_self c))) hc

/-- A word stands on one side of what it does not contain. -/
theorem infix_of_infix_append_cons (h : w <:+: a ++ c :: b) (hc : c ∉ w) :
    w <:+: a ∨ w <:+: b := by
  induction a with
  | nil =>
    rcases List.infix_cons_iff.1 h with hp | hi
    · have hnil : w <+: [] := prefix_of_prefix_append_cons (a := []) hp hc
      exact .inl hnil.isInfix
    · exact .inr hi
  | cons d a ih =>
    rcases List.infix_cons_iff.1 h with hp | hi
    · have hda : w <+: d :: a := prefix_of_prefix_append_cons (a := d :: a) hp hc
      exact .inl hda.isInfix
    · rcases ih hi with ha | hb
      · exact .inl (ha.trans (List.suffix_cons d a).isInfix)
      · exact .inr hb

/-- A word stands on one side of some elements none of which it contains. -/
theorem infix_of_infix_around (h : w <:+: a ++ (m ++ b)) (hm : ∀ c ∈ m, c ∉ w) (hne : m ≠ []) :
    w <:+: a ∨ w <:+: b := by
  induction m generalizing a with
  | nil => exact absurd rfl hne
  | cons c m ih =>
    obtain ⟨hc, hms⟩ := List.forall_mem_cons.1 hm
    rcases infix_of_infix_append_cons h hc with ha | hb
    · exact .inl ha
    · cases m with
      | nil => exact .inr hb
      | cons d m =>
        rcases ih (a := []) hb hms (List.cons_ne_nil d m) with hnil | hb
        · exact .inl (hnil.trans (List.nil_infix))
        · exact .inr hb

end

/-! ## 2. Free texts -/

/-- The word that stands in place of a type that is not known. -/
def placeholder : String := "INCOMPLETE_TYPE"

/-- The `placeholder` stands nowhere in the text. -/
def Free (s : String) : Prop := ¬ placeholder.toList <:+: s.toList

instance (s : String) : Decidable (Free s) := inferInstanceAs (Decidable (¬ _ <:+: _))

/-- The text is made of characters that do not occur in the word. -/
def Apart (s : String) : Prop := s ≠ "" ∧ ∀ c ∈ s.toList, c ∉ placeholder.toList

instance (s : String) : Decidable (Apart s) :=
  have : Decidable (∀ c ∈ s.toList, c ∉ placeholder.toList) := List.decidableBAll _ _
  inferInstanceAs (Decidable (_ ∧ _))

theorem not_free_incomplete (name : String) : ¬ Free (Fragment.incomplete name) := by
  have hword : placeholder.toList <:+: "INCOMPLETE_TYPE *".toList := by decide
  have htext : (Fragment.incomplete name).toList = "INCOMPLETE_TYPE *".toList ++ name.toList :=
    String.toList_append
  intro h
  refine h (hword.trans ?_)
  rw [htext]
  exact (List.prefix_append _ _).isInfix

theorem free_empty : Free "" := by decide

variable {a b m s : String}

/-- Free texts stay free around what is `Apart`. -/
theorem free_around (ha : Free a) (hm : Apart m) (hb : Free b) : Free (a ++ m ++ b) := by
  intro h
  have htext : (a ++ m ++ b).toList = a.toList ++ (m.toList ++ b.toList) := by
    rw [String.toList_append, String.toList_append, List.append_assoc]
  rw [htext] at h
  have hne : m.toList ≠ [] := fun he => hm.1 (String.toList_eq_nil_iff.1 he)
  rcases infix_of_infix_around h hm.2 hne with h | h
  · exact ha h
  · exact hb h

theorem Free.apart_append (hm : Apart m) (hb : Free b) : Free (m ++ b) := by
  have := free_around free_empty hm hb
  rwa [String.empty_append] at this

theorem Free.append_apart (ha : Free a) (hm : Apart m) : Free (a ++ m) := by
  have := free_around ha hm free_empty
  rwa [String.append_empty] at this

theorem Apart.free (hm : Apart m) : Free m := by
  have := free_empty.append_apart hm
  rwa [String.empty_append] at this

/-- No digit occurs in the word. -/
theorem apart_toString (n : Nat) : Apart (toString n) := by
  constructor
  · intro h
    have hlist := congrArg String.toList h
    rw [toList_toString] at hlist
    exact Nat.toDigits_ne_nil hlist
  · intro c hc
    have hd := isDigit_of_mem_toString hc
    have hall : placeholder.toList.all (fun c => !c.isDigit) = true := by decide
    intro hm
    have hno := List.all_eq_true.1 hall c hm
    rw [hd] at hno
    cases hno

theorem free_beside (ha : Free a) (hb : Free b) : Free (Fragment.beside a b) := by
  unfold Fragment.beside
  split
  · exact ha
  · split
    · exact hb
    · exact free_around ha (by decide) hb

theorem free_ofWords {ws : List String} (h : ∀ w ∈ ws, Free w) : Free (Fragment.ofWords ws) := by
  have hfold : ∀ a, Free a → Free (ws.foldl Fragment.beside a) := by
    induction ws with
    | nil => exact fun a ha => ha
    | cons w ws ih =>
      obtain ⟨hw, hws⟩ := List.forall_mem_cons.1 h
      exact fun a ha => ih hws _ (free_beside ha hw)
  exact hfold "" free_empty

theorem free_join {pieces : List String} (h : ∀ p ∈ pieces, Free p) :
    Free (Fragment.join ", " pieces) := by
  induction pieces with
  | nil => exact free_empty
  | cons p ps ih =>
    obtain ⟨hp, hps⟩ := List.forall_mem_cons.1 h
    cases ps with
    | nil =>
      rw [Fragment.join, String.intercalate_singleton]
      exact hp
    | cons q qs =>
      rw [Fragment.join, String.intercalate_cons_cons]
      exact free_around hp (by decide) (ih hps)

/-- Lines are `Free` if each is. -/
theorem free_linesText {lines : List String} (h : ∀ l ∈ lines, Free l) :
    Free (linesText lines) := by
  induction lines with
  | nil => exact free_empty
  | cons l ls ih =>
    obtain ⟨hl, hls⟩ := List.forall_mem_cons.1 h
    have htext : linesText (l :: ls) = l ++ "\n" ++ linesText ls := by
      rw [linesText, List.map_cons, String.join_cons]
      rfl
    rw [htext]
    exact free_around hl (by decide) (ih hls)

/-! ## 3. Declarators -/

theorem free_spelling (q : Qualifiers) : Free q.spelling := by
  obtain ⟨c, v, r⟩ := q
  cases c <;> cases v <;> cases r <;> decide +kernel

theorem free_word (k : RecordKey) : Free k.word := by
  cases k <;> decide +kernel

theorem free_accessWord (a : Access) : Free a.word := by
  cases a <;> decide +kernel

theorem apart_sigil (k : PointerKind) : Apart k.sigil := by
  cases k <;> decide +kernel

theorem free_pointerDeclarator (env : Environment) (k : PointerKind) (q : Qualifiers)
    (pointee : TypeId) {name : String} (hn : Free name) :
    Free (env.pointerDeclarator k q pointee name) := by
  have hinner : Free (if q.isEmpty then k.sigil ++ name
      else Fragment.beside (k.sigil ++ q.spelling) name) := by
    split
    · exact hn.apart_append (apart_sigil k)
    · exact free_beside ((free_spelling q).apart_append (apart_sigil k)) hn
  rw [Environment.pointerDeclarator]
  split
  · exact (hinner.apart_append (by decide +kernel)).append_apart (by decide +kernel)
  · exact hinner

theorem free_arrayDeclarator (n : ArraySize) {name : String} (hn : Free name) :
    Free (Environment.arrayDeclarator n name) := by
  cases n with
  | fixed count =>
    have hcount : Apart (toString count) := apart_toString count.toNat
    have hopen : Free (name ++ "[" ++ toString count) :=
      (hn.append_apart (by decide +kernel)).append_apart hcount
    exact hopen.append_apart (by decide +kernel)
  | unknown => exact hn.append_apart (by decide +kernel)

theorem free_functionDeclarator {params : List String} (hp : ∀ p ∈ params, Free p) (v : Bool)
    {name : String} (hn : Free name) :
    Free (Environment.functionDeclarator params v name) := by
  have hall : ∀ p ∈ params ++ (if v then ["..."] else []), Free p := by
    intro p hm
    rcases List.mem_append.1 hm with hm | hm
    · exact hp p hm
    · split at hm
      · rw [List.mem_singleton.1 hm]
        decide +kernel
      · cases hm
  exact (free_around hn (by decide +kernel) (free_join hall)).append_apart (by decide +kernel)

/-! ## 4. Names -/

/-- The names made up so far are `Free`. -/
def Naming.Free (k : Naming) : Prop := ∀ s n, k.given.lookup s = some n → TypeLedger.Free n

/-- The name of the tag, if it has one, is `Free`. -/
def Tag.Free (t : Tag) : Prop := ∀ n, t = .named n → TypeLedger.Free n

instance (t : Tag) : Decidable t.Free :=
  match t with
  | .named n =>
    decidable_of_iff (TypeLedger.Free n) ⟨fun h _ hm => Tag.named.inj hm ▸ h, fun h => h n rfl⟩
  | .anonymous _ => isTrue fun _ h => nomatch h

theorem free_numbered (n : Nat) : Free (Namer.numbered n) := by
  have hhead : Free "__anon_" := by decide +kernel
  exact hhead.append_apart (apart_toString n)

theorem Naming.free_of_given_nil {k : Naming} (h : k.given = []) : k.Free := by
  intro s n hn
  rw [h] at hn
  cases hn

variable {α β : Type}

/-- The computation answers such a value and makes up free names only, as long as the names made up
so far are free. -/
def Answers (m : StateM Naming α) (p : α → Prop) : Prop :=
  ∀ k : Naming, k.Free → (m k).2.Free ∧ p (m k).1

theorem answers_pure {p : α → Prop} {x : α} (h : p x) : Answers (pure x) p :=
  fun _ hk => ⟨hk, h⟩

theorem answers_bind {p : α → Prop} {q : β → Prop} {m : StateM Naming α}
    {g : α → StateM Naming β} (hm : Answers m p) (hg : ∀ x, p x → Answers (g x) q) :
    Answers (m >>= g) q := by
  intro k hk
  obtain ⟨hk', hx⟩ := hm k hk
  exact hg (m k).1 hx (m k).2 hk'

theorem answers_name {t : Tag} (ht : t.Free) : Answers (Naming.name t) Free := by
  intro k hk
  cases t with
  | named n => exact ⟨hk, ht n rfl⟩
  | anonymous s =>
    unfold Naming.name
    simp only
    split
    · rename_i n hn
      exact ⟨hk, hk s n hn⟩
    · have hfresh : Free k.namer.fresh.1 := free_numbered _
      refine ⟨fun u n hn => ?_, hfresh⟩
      rw [List.lookup_cons] at hn
      split at hn
      · obtain rfl := Option.some.inj hn
        exact hfresh
      · exact hk u n hn

theorem answers_mapM {p : β → Prop} {m : α → StateM Naming β} {as : List α}
    (h : ∀ a ∈ as, Answers (m a) p) : Answers (as.mapM m) fun bs => ∀ b ∈ bs, p b := by
  induction as with
  | nil => exact answers_pure fun _ hb => nomatch hb
  | cons a as ih =>
    obtain ⟨ha, has⟩ := List.forall_mem_cons.1 h
    rw [List.mapM_cons]
    exact answers_bind ha fun b hb => answers_bind (ih has) fun bs hbs =>
      answers_pure (List.forall_mem_cons.2 ⟨hb, hbs⟩)

end TypeLedger
