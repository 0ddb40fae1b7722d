import TypeLedger.Proofs.Printing.Asking
import TypeLedger.Proofs.Printing.Placeholder

/-!
# What stands around a declarator

* `Frames`: a function puts the same text in front of every declarator, and the same behind it.
  `FramesIn` says so of a computation that asks for names.
* `framesIn_declareWith`: the declaration of an identifier frames the declarator that it is given.
* So no declarator is lost (`FramesIn.keeps`), and different ones make different declarations
  (`FramesIn.injective`).
-/

namespace TypeLedger

/-! ## 1. Frames -/

/-- The function puts the same text in front of every declarator, and the same behind it. The empty
declarator is left out: what stands beside it needs no space. -/
def Frames (f : String → String) : Prop :=
  ∃ front behind, ∀ d, d ≠ "" → f d = front ++ d ++ behind

theorem Frames.ne_empty {f : String → String} (h : Frames f) {d : String} (hd : d ≠ "") :
    f d ≠ "" := by
  obtain ⟨front, behind, hf⟩ := h
  rw [hf d hd]
  intro he
  exact hd (String.append_eq_empty_iff.1 (String.append_eq_empty_iff.1 he).1).2

theorem Frames.comp {f g : String → String} (hg : Frames g) (hf : Frames f) :
    Frames fun d => g (f d) := by
  have hne := fun d => hf.ne_empty (d := d)
  obtain ⟨front, behind, hf⟩ := hf
  obtain ⟨front', behind', hg⟩ := hg
  refine ⟨front' ++ front, behind ++ behind', fun d hd => ?_⟩
  show g (f d) = _
  rw [hg _ (hne d hd), hf d hd]
  simp only [String.append_assoc]

theorem frames_front (front : String) : Frames fun d => front ++ d :=
  ⟨front, "", fun _ _ => String.append_empty.symm⟩

theorem frames_behind (behind : String) : Frames fun d => d ++ behind :=
  ⟨"", behind, fun _ _ => by rw [String.empty_append]⟩

theorem frames_beside (a : String) : Frames (Fragment.beside a) := by
  refine ⟨if a = "" then "" else a ++ " ", "", fun d hd => ?_⟩
  have hb : d.isEmpty = false := by simpa using hd
  rw [Fragment.beside, hb, String.append_empty]
  by_cases ha : a = ""
  · subst ha
    rfl
  · have hb : a.isEmpty = false := by simpa using ha
    rw [hb, if_neg ha]
    rfl

/-- The last word of several stands behind the others. -/
theorem frames_ofWords (ws : List String) : Frames fun d => Fragment.ofWords (ws ++ [d]) := by
  have hlast : (fun d => Fragment.ofWords (ws ++ [d])) = Fragment.beside (Fragment.ofWords ws) := by
    funext d
    rw [Fragment.ofWords, List.foldl_append]
    rfl
  rw [hlast]
  exact frames_beside _

theorem frames_incomplete : Frames Fragment.incomplete := frames_front _

/-! ## 2. Declarators -/

theorem frames_pointerDeclarator (env : Environment) (kind : PointerKind) (quals : Qualifiers)
    (pointee : TypeId) : Frames (env.pointerDeclarator kind quals pointee) := by
  have hinner : Frames fun d => if quals.isEmpty then kind.sigil ++ d
      else Fragment.beside (kind.sigil ++ quals.spelling) d := by
    cases quals.isEmpty with
    | true => exact frames_front _
    | false => exact frames_beside _
  unfold Environment.pointerDeclarator
  cases env.bindsTighter Environment.parenthesisDepth pointee with
  | true => exact (frames_behind ")").comp ((frames_front "(").comp hinner)
  | false => exact hinner

theorem frames_arrayDeclarator (size : ArraySize) : Frames (Environment.arrayDeclarator size) := by
  cases size with
  | fixed n =>
    exact (frames_behind "]").comp ((frames_behind (toString n)).comp (frames_behind "["))
  | unknown => exact frames_behind "[]"

theorem frames_functionDeclarator (params : List String) (variadic : Bool) :
    Frames (Environment.functionDeclarator params variadic) :=
  (frames_behind ")").comp ((frames_behind _).comp (frames_behind "("))

/-! ## 3. Declarations -/

/-- The computation puts the same text in front of every declarator, and the same behind it. Which
names it asks for does not depend on the declarator. -/
def FramesIn (m : String → StateM Naming String) : Prop :=
  ∀ k, ∃ front behind k', ∀ d, d ≠ "" → m d k = (front ++ d ++ behind, k')

theorem framesIn_pure {f : String → String} (h : Frames f) : FramesIn fun d => pure (f d) := by
  intro k
  obtain ⟨front, behind, hf⟩ := h
  exact ⟨front, behind, k, fun d hd => congrArg (·, k) (hf d hd)⟩

theorem framesIn_bind {α : Type} (x : StateM Naming α) {m : α → String → StateM Naming String}
    (h : ∀ a, FramesIn (m a)) : FramesIn fun d => x >>= fun a => m a d :=
  fun k => h (x k).1 (x k).2

theorem framesIn_ite (b : Bool) {m m' : String → StateM Naming String} (h : FramesIn m)
    (h' : FramesIn m') : FramesIn fun d => if b then m d else m' d := by
  cases b with
  | true => exact h
  | false => exact h'

theorem FramesIn.comp {m : String → StateM Naming String} (h : FramesIn m) {f : String → String}
    (hf : Frames f) : FramesIn fun d => m (f d) := by
  intro k
  have hne := fun d => hf.ne_empty (d := d)
  obtain ⟨front, behind, hf⟩ := hf
  obtain ⟨front', behind', k', hm⟩ := h k
  refine ⟨front' ++ front, behind ++ behind', k', fun d hd => ?_⟩
  show m (f d) k = _
  rw [hm _ (hne d hd), hf d hd]
  simp only [String.append_assoc]

namespace FramesIn

variable {m : String → StateM Naming String} (h : FramesIn m) (k : Naming) {d d' : String}
include h

/-- **No declarator is lost** in what `Frames` it. -/
theorem keeps (d : String) : d.toList <:+: (m d k).1.toList := by
  by_cases hd : d = ""
  · subst hd
    exact List.nil_infix
  · obtain ⟨front, behind, k', hm⟩ := h k
    rw [hm d hd, String.toList_append, String.toList_append]
    exact ⟨_, _, rfl⟩

/-- **Different declarators make different declarations** if they are framed (`Frames`). -/
theorem injective (hd : d ≠ "") (hd' : d' ≠ "") (he : (m d k).1 = (m d' k).1) : d = d' := by
  obtain ⟨front, behind, k', hm⟩ := h k
  rw [hm d hd, hm d' hd'] at he
  have hlist := congrArg String.toList he
  simp only [String.toList_append] at hlist
  exact String.toList_inj.1 (List.append_cancel_left (List.append_cancel_right hlist))

end FramesIn

namespace Environment

theorem framesIn_taggedDeclaration (quals : Qualifiers) (keyword : String) (tag : Tag) :
    FramesIn (taggedDeclaration quals keyword tag) :=
  framesIn_bind _ fun aggregate =>
    framesIn_pure (frames_ofWords [quals.spelling, keyword, aggregate])

/-- **The declaration of an identifier frames the declarator that it is given** (`FramesIn`). The
induction is on the records not yet met; the parameters of a function do not depend on the
declarator. -/
theorem framesIn_declareWith (env : Environment) (path : List TypeId) (quals : Qualifiers)
    (id : TypeId) : FramesIn (env.declareWith path quals id) := by
  have hincomplete := framesIn_pure frames_incomplete
  have hcut : env.lookup? id = none ∨ id ∈ path → FramesIn (env.declareWith path quals id) := by
    intro h
    have heq : env.declareWith path quals id = fun d => pure (Fragment.incomplete d) :=
      funext fun d => declareWith_incomplete h
    rwa [heq]
  cases hr : env.lookup? id with
  | none => exact hcut (.inl hr)
  | some record =>
    by_cases hp : id ∈ path
    · exact hcut (.inr hp)
    · have hlt := unseen_cons_lt hr hp
      have heq : env.declareWith path quals id = _ := funext fun d => declareWith_eq hr hp
      rw [heq]
      cases record.body with
      | reserved s => exact framesIn_pure (frames_ofWords [_, s])
      | qualified base => exact framesIn_ite _ (framesIn_declareWith env _ _ base) hincomplete
      | pointer kind pointee =>
        exact framesIn_ite _ ((framesIn_declareWith env _ _ pointee).comp
          (frames_pointerDeclarator _ _ _ _)) hincomplete
      | function result params variadic =>
        exact framesIn_ite _ (framesIn_bind _ fun texts =>
          (framesIn_declareWith env _ _ result).comp
            (frames_functionDeclarator texts variadic)) hincomplete
      | array size element =>
        exact framesIn_ite _ ((framesIn_declareWith env _ _ element).comp
          (frames_arrayDeclarator size)) hincomplete
      | aggregate key tag => exact framesIn_taggedDeclaration _ _ tag
      | enumeration tag => exact framesIn_taggedDeclaration _ _ tag
      | other => exact hincomplete
termination_by env.unseen path

end Environment

end TypeLedger
