import TypeLedger.Proofs.Lexing.Spelled
import TypeLedger.Proofs.Numeral
import TypeLedger.Proofs.Printing.Naming

/-!
# Made-up names

* `Namer.freeNumber_spec`: a made-up name is not taken. It is an identifier.
* `Naming.Follows.fresh_of_new`: a name that is given on the way was not taken before.
* `Naming.Distinct`: no name that was given is reserved, and no two are equal. Asking for names
  keeps it (`Distinct.follows`).
* `Naming.nameAll` gives all of some tags their names.
-/

namespace TypeLedger

namespace Namer

/-! ## 1. Names by number -/

theorem toList_numbered (n : Nat) :
    (numbered n).toList = "__anon_".toList ++ (toString n).toList := by
  rw [numbered, String.toList_append]

theorem numbered_injective {m n : Nat} (h : numbered m = numbered n) : m = n := by
  have hl := congrArg String.toList h
  rw [toList_numbered, toList_numbered] at hl
  exact toString_injective (String.ext (List.append_cancel_left hl))

theorem isIdentifier_numbered (n : Nat) : isIdentifier (numbered n) = true := by
  have hdigits : ∀ c ∈ (toString n).toList, isWordChar c = true :=
    fun c hc => isWordChar_of_isDigit (isDigit_of_mem_toString hc)
  have hword : isWord (numbered n) = true := by
    have hl : (numbered n).toList = '_' :: ("_anon_".toList ++ (toString n).toList) :=
      toList_numbered n
    have hanon : "_anon_".toList.all isWordChar = true := by decide
    unfold isWord
    rw [hl]
    simp only [Bool.and_eq_true, List.all_append]
    exact ⟨by decide, hanon, List.all_eq_true.2 hdigits⟩
  -- no reserved word begins like a made-up name
  have hkeyword : Keyword.ofWord? (numbered n) = none := by
    have hall : ∀ p ∈ Keyword.spellings, ¬ "__anon_".toList <+: p.1.toList := by decide
    rw [Keyword.ofWord?, List.lookup_eq_none_iff]
    intro p hp
    rw [bne_iff_ne]
    rintro he
    refine hall p hp ?_
    rw [← he, toList_numbered]
    exact List.prefix_append _ _
  rw [isIdentifier, hword, hkeyword]
  rfl

/-- **A made-up name is not taken:** `freeNumber` passes over taken ones. The induction is on the
taken names: one that is passed over goes with its number, and later numbers have other names. -/
theorem freeNumber_spec (taken : List String) (n : Nat) :
    n < freeNumber taken n ∧ numbered (freeNumber taken n) ∉ taken := by
  induction taken, n using freeNumber.induct with
  | case1 taken n h ih =>
    obtain ⟨hlt, hnot⟩ := ih
    rw [freeNumber, if_pos h]
    refine ⟨by omega, fun hm => hnot ((List.mem_erase_of_ne fun he => ?_).2 hm)⟩
    have := numbered_injective he
    omega
  | case2 taken n h =>
    rw [freeNumber, if_neg h]
    exact ⟨Nat.lt_succ_self n, h⟩

/-- **Every number that `freeNumber` passes over has a taken name.** -/
theorem taken_of_lt_freeNumber {taken : List String} {n m : Nat} (hlt : n < m)
    (hm : m < freeNumber taken n) : numbered m ∈ taken := by
  induction taken, n using freeNumber.induct with
  | case1 taken n h ih =>
    rw [freeNumber, if_pos h] at hm
    by_cases he : m = n + 1
    · rwa [he]
    · exact List.mem_of_mem_erase (ih (by omega) hm)
  | case2 taken n h =>
    rw [freeNumber, if_neg h] at hm
    omega

/-- Names that are taken besides make no difference, unless the one that is made up is among
them. -/
theorem freeNumber_of_subset {taken taken' : List String} (h : ∀ m ∈ taken, m ∈ taken') {n : Nat}
    (hfree : numbered (freeNumber taken n) ∉ taken') :
    freeNumber taken' n = freeNumber taken n := by
  obtain ⟨hlt, -⟩ := freeNumber_spec taken n
  obtain ⟨hlt', hfree'⟩ := freeNumber_spec taken' n
  rcases Nat.lt_trichotomy (freeNumber taken' n) (freeNumber taken n) with hl | he | hl
  · exact absurd (h _ (taken_of_lt_freeNumber hlt' hl)) hfree'
  · exact he
  · exact absurd (taken_of_lt_freeNumber hlt hl) hfree

end Namer

namespace Naming

/-! ## 2. Names given -/

theorem Follows.lookup {k k' : Naming} (h : k.Follows k') {s : Nat} {n : String}
    (hn : k.given.lookup s = some n) : k'.given.lookup s = some n :=
  h.current? (u := .anonymous s) hn

/-- Asking for names never makes a name free again. -/
theorem Follows.taken {k k' : Naming} (h : k.Follows k') {n : String}
    (hn : n ∈ k.namer.taken) : n ∈ k'.namer.taken := by
  induction h with
  | refl => exact hn
  | name _ t ih =>
    cases t with
    | named m => exact ih
    | anonymous s =>
      unfold Naming.name
      dsimp only
      split
      · exact ih
      · exact List.mem_cons_of_mem _ ih

/-- What asking for one name adds to the names given: that name, if the tag had none. It is taken
then. -/
theorem lookup_given_name {t : Tag} {k : Naming} {s : Nat} {n : String}
    (h : (Naming.name t k).2.given.lookup s = some n) :
    k.given.lookup s = some n ∨
      (t = .anonymous s ∧ n = Namer.numbered (Namer.freeNumber k.namer.taken k.namer.issued) ∧
        n ∈ (Naming.name t k).2.namer.taken) := by
  cases t with
  | named m => exact .inl h
  | anonymous u =>
    unfold Naming.name at h ⊢
    dsimp only at h ⊢
    split at h
    · exact .inl h
    · by_cases hu : s = u
      · subst hu
        rw [List.lookup_cons, beq_self_eq_true] at h
        obtain rfl := Option.some.inj h
        exact .inr ⟨rfl, rfl, List.mem_cons_self⟩
      · rw [List.lookup_cons, beq_eq_false_iff_ne.2 hu] at h
        exact .inl h

/-- **A name given on the way (`Naming.Follows`) was not taken before.** -/
theorem Follows.fresh_of_new {k k' : Naming} (h : k.Follows k') {s : Nat} {n : String}
    (hs : k.given.lookup s = none) (hn : k'.given.lookup s = some n) : n ∉ k.namer.taken := by
  induction h with
  | refl =>
    rw [hs] at hn
    cases hn
  | name hf t ih =>
    rcases lookup_given_name hn with hold | ⟨-, rfl, -⟩
    · exact ih hold
    · exact fun hm => (Namer.freeNumber_spec _ _).2 (hf.taken hm)

/-- Each name that has been given is made up and taken, but was not among the names `reserved`; and
no two of them are equal. -/
structure Distinct (reserved : List String) (k : Naming) : Prop where
  made : ∀ s n, k.given.lookup s = some n →
    n ∈ k.namer.taken ∧ n ∉ reserved ∧ isIdentifier n = true
  injective : ∀ s s' n, k.given.lookup s = some n → k.given.lookup s' = some n → s = s'
  reserved_taken : ∀ n ∈ reserved, n ∈ k.namer.taken

/-- Where no name has been given, none disturbs those that are taken. -/
theorem distinct_of_given_nil {reserved : List String} {k : Naming} (h : k.given = [])
    (hr : ∀ n ∈ reserved, n ∈ k.namer.taken) : k.Distinct reserved := by
  refine ⟨fun s n hn => ?_, fun s s' n hn => ?_, hr⟩
  · rw [h] at hn
    cases hn
  · rw [h] at hn
    cases hn

/-- To take more names does no harm. -/
theorem Distinct.mono {reserved : List String} {k k' : Naming} (h : k.Distinct reserved)
    (hg : k'.given = k.given) (ht : ∀ n ∈ k.namer.taken, n ∈ k'.namer.taken) :
    k'.Distinct reserved := by
  refine ⟨fun s n hn => ?_, fun s s' n hn hn' => ?_, fun n hn => ht n (h.reserved_taken n hn)⟩
  · rw [hg] at hn
    obtain ⟨htaken, hrest⟩ := h.made s n hn
    exact ⟨ht n htaken, hrest⟩
  · rw [hg] at hn hn'
    exact h.injective s s' n hn hn'

/-- Asking for a name gives none that is taken. -/
theorem Distinct.name {reserved : List String} {k : Naming} (h : k.Distinct reserved) (t : Tag) :
    (Naming.name t k).2.Distinct reserved := by
  obtain ⟨-, hfree⟩ := Namer.freeNumber_spec k.namer.taken k.namer.issued
  have htaken : ∀ n ∈ k.namer.taken, n ∈ (Naming.name t k).2.namer.taken :=
    fun n hn => (Follows.name .refl t).taken hn
  refine ⟨fun u n hn => ?_, fun u u' n hn hn' => ?_, fun n hn => htaken n (h.reserved_taken n hn)⟩
  · rcases lookup_given_name hn with hold | ⟨-, rfl, hm⟩
    · obtain ⟨hm, hrest⟩ := h.made u n hold
      exact ⟨htaken n hm, hrest⟩
    · exact ⟨hm, fun hr => hfree (h.reserved_taken _ hr), Namer.isIdentifier_numbered _⟩
  · rcases lookup_given_name hn with hold | ⟨ht, hnew, -⟩ <;>
      rcases lookup_given_name hn' with hold' | ⟨ht', hnew', -⟩
    · exact h.injective u u' n hold hold'
    · exact absurd (hnew' ▸ (h.made u n hold).1) hfree
    · exact absurd (hnew ▸ (h.made u' n hold').1) hfree
    · exact Tag.anonymous.inj (ht.symm.trans ht')

theorem Distinct.follows {reserved : List String} {k k' : Naming} (h : k.Distinct reserved)
    (hk : k.Follows k') : k'.Distinct reserved := by
  induction hk with
  | refl => exact h
  | name _ t ih => exact ih.name t

/-- All of some tags are given their names. -/
def nameAll (tags : List Tag) (k : Naming) : Naming := tags.foldl (fun k t => (name t k).2) k

theorem follows_nameAll (tags : List Tag) (k : Naming) : k.Follows (nameAll tags k) := by
  induction tags generalizing k with
  | nil => exact .refl
  | cons t tags ih => exact (Follows.name .refl t).trans (ih _)

theorem current?_nameAll {tags : List Tag} {t : Tag} (ht : t ∈ tags) (k : Naming) :
    ∃ n, (nameAll tags k).current? t = some n := by
  induction tags generalizing k with
  | nil => cases ht
  | cons u tags ih =>
    rcases List.mem_cons.1 ht with rfl | ht
    · exact ⟨_, (follows_nameAll tags _).current? (current?_name t k)⟩
    · exact ih ht _

end Naming

end TypeLedger
