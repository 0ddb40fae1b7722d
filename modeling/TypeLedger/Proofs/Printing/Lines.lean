import TypeLedger.Environment.Define
import TypeLedger.Proofs.Printing.Written

/-!
# Lines as texts and as tokens

* `forwardText`, `definitionText` and `symbolText` are the lines for a record, for its definition
  and for a global symbol, under labels; `forwardKinds`, `definitionKinds` and `symbolKinds` are
  their tokens.
* `spelled_forwardText`, `spelled_definitionText` and `spelled_symbolText`: the lines lex to the
  tokens.
-/

namespace TypeLedger

/-! ## 1. Texts -/

/-- The declaration of a record without its body. -/
def forwardText (l : Labels) (id : RecordId) : String :=
  Fragment.beside (l.record id).1.word ((l.record id).2 ++ ";")

/-- The width of a bit field. -/
def widthText (w : Option UInt32) : String := w.elim "" fun w => ": " ++ toString w

/-- The declaration of a member. -/
def memberText (l : Labels) (m : MemberDecl) : String :=
  Fragment.beside (m.type.desugar.written l (m.name.getD "")) (widthText m.bitWidth) ++ ";"

/-- The label of an access, unless it is in force. -/
def accessText (current : Option Access) (a : Access) : List String :=
  if current = some a then [] else [a.word ++ ":"]

/-- The member has a line. In a class, one without an access has none, only a comment in its
place. -/
def MemberDecl.Listed (key : RecordKey) (m : MemberDecl) : Bool :=
  key != .classKey || m.access.isSome

/-- The members of a class, where the label in force is that of `current`. -/
def classTexts (l : Labels) (current : Option Access) : List MemberDecl → List String
  | [] => []
  | m :: ms =>
    match m.access with
    | none => Environment.ignoredMember :: classTexts l current ms
    | some a => accessText current a ++ memberText l m :: classTexts l (some a) ms

/-- The members of a record. -/
def membersTexts (l : Labels) : RecordKey → List MemberDecl → List String
  | .classKey, ms => classTexts l none ms
  | _, ms => ms.map (memberText l)

/-- What a record is called. -/
def CType.recordName (l : Labels) : CType → String
  | record _ id => (l.record id).2
  | _ => ""

/-- A base class. -/
def baseText (l : Labels) (b : BaseDecl) : String :=
  Fragment.ofWords [b.access.word, if b.isVirtual then "virtual" else "", b.type.recordName l]

/-- What stands between the name of a class and its brace. -/
def basesTexts (l : Labels) : RecordKey → List BaseDecl → List String
  | .classKey, bs =>
    let text := Fragment.join ", " (bs.map (baseText l))
    if text.isEmpty then [] else [":", text]
  | _, _ => []

/-- The definition of a record. -/
def definitionText (l : Labels) (id : RecordId) (d : RecordDecl) : String :=
  Fragment.ofWords ([(l.record id).1.word, (l.record id).2] ++ basesTexts l d.key d.bases ++
    ["\x7b"] ++ membersTexts l d.key (d.members.getD []) ++ ["\x7d;"])

/-- The declaration of a global symbol. -/
def symbolText (l : Labels) (s : String × CType) : String := s.2.desugar.written l s.1 ++ ";"

/-- The declaration of a record says what it is called. -/
theorem forwardText_injective {l l' : Labels} {id : RecordId}
    (hk : (l.record id).1 = (l'.record id).1) (h : forwardText l id = forwardText l' id) :
    (l.record id).2 = (l'.record id).2 := by
  have hbeside : ∀ l : Labels, forwardText l id =
      (l.record id).1.word ++ " " ++ ((l.record id).2 ++ ";") := by
    intro l
    have hword : (l.record id).1.word.isEmpty = false := by
      cases (l.record id).1 <;> rfl
    have hname : ((l.record id).2 ++ ";").isEmpty = false := by
      rw [Bool.eq_false_iff, ne_eq, String.isEmpty_iff]
      simp
    rw [forwardText, Fragment.beside, hname, hword]
    rfl
  rw [hbeside, hbeside, hk, String.append_right_inj, String.append_left_inj] at h
  exact h

/-! ## 2. Tokens -/

/-- The tokens of a name, if there is one. -/
def nameKinds (name : Option String) : List TokenKind := (name.map TokenKind.ident).toList

def forwardKinds (l : Labels) (id : RecordId) : List TokenKind :=
  [.keyword (.record (l.record id).1), .ident (l.record id).2, .mark .semicolon]

def widthKinds : Option UInt32 → List TokenKind
  | none => []
  | some w => [.mark .colon, .intLit w.toUInt64]

def memberKinds (l : Labels) (m : MemberDecl) : List TokenKind :=
  m.type.desugar.kinds l (nameKinds m.name) ++ (widthKinds m.bitWidth ++ [.mark .semicolon])

def accessKinds (current : Option Access) (a : Access) : List TokenKind :=
  if current = some a then [] else [.keyword (.access a), .mark .colon]

/-- The tokens of the members of a class. -/
def classKinds (l : Labels) (current : Option Access) : List MemberDecl → List TokenKind
  | [] => []
  | m :: ms =>
    match m.access with
    | none => classKinds l current ms
    | some a => accessKinds current a ++ (memberKinds l m ++ classKinds l (some a) ms)

/-- The tokens of the members of a record. -/
def membersKinds (l : Labels) : RecordKey → List MemberDecl → List TokenKind
  | .classKey, ms => classKinds l none ms
  | _, ms => (ms.map (memberKinds l)).flatten

def baseKinds (l : Labels) (b : BaseDecl) : List TokenKind :=
  .keyword (.access b.access) ::
    ((if b.isVirtual then [.keyword .virtualBase] else []) ++ [.ident (b.type.recordName l)])

/-- The tokens between the name of a record and its brace. -/
def basesKinds (l : Labels) : RecordKey → List BaseDecl → List TokenKind
  | .classKey, b :: bs => .mark .colon :: commaKinds ((b :: bs).map (baseKinds l))
  | _, _ => []

def definitionKinds (l : Labels) (id : RecordId) (d : RecordDecl) : List TokenKind :=
  .keyword (.record (l.record id).1) :: .ident (l.record id).2 ::
    (basesKinds l d.key d.bases ++ .mark .braceOpen ::
      (membersKinds l d.key (d.members.getD []) ++ [.mark .braceClose, .mark .semicolon]))

def symbolKinds (l : Labels) (g : String × CType) : List TokenKind :=
  g.2.desugar.kinds l [.ident g.1] ++ [.mark .semicolon]

/-! ## 3. Lines lex to their tokens -/

theorem Access.spelled_word (a : Access) : Spelled a.word [.keyword (.access a)] := by
  cases a <;> exact spelled_keyword (by decide) (by decide)

theorem spelled_virtual (isVirtual : Bool) :
    Spelled (if isVirtual then "virtual" else "")
      (if isVirtual then [.keyword .virtualBase] else []) := by
  cases isVirtual with
  | false => exact spelled_empty
  | true => exact spelled_keyword (by decide) (by decide)

/-- A text with a semicolon behind. -/
theorem Spelled.semicolon {s : String} {ks : List TokenKind} (h : Spelled s ks) :
    Spelled (s ++ ";") (ks ++ [.mark .semicolon]) := by
  have hc : Clean (Text.bytes Mark.semicolon.spelling) := clean_mark (by decide)
  exact h.append (spelled_mark .semicolon) hc

theorem spelled_nameKinds {name : Option String} (h : ∀ n, name = some n → isIdentifier n = true) :
    Spelled (name.getD "") (nameKinds name) := by
  cases name with
  | none => exact spelled_empty
  | some n => exact spelled_identifier (h n rfl)

theorem noAmp_name {name : Option String} (h : ∀ n, name = some n → isIdentifier n = true) :
    NoAmp (name.getD "") := by
  cases name with
  | none => exact noAmp_empty
  | some n => exact noAmp_identifier (h n rfl)

theorem spelled_widthText (w : Option UInt32) : Spelled (widthText w) (widthKinds w) := by
  cases w with
  | none => exact spelled_empty
  | some w =>
    have hcolon : (": " : String) = Mark.colon.spelling ++ " " := by decide
    have hw : toString w = toString w.toUInt64 := by
      show toString w.toNat = toString w.toUInt64.toNat
      rw [UInt32.toNat_toUInt64]
    have hn : widthText (some w) = Mark.colon.spelling ++ (" " ++ toString w.toUInt64) := by
      rw [widthText, Option.elim, hcolon, hw, String.append_assoc]
    rw [hn]
    exact Spelled.mark .colon (fun h => by cases h) (spelled_space (spelled_numeral _))

section

variable {l : Labels} {rp : RecordId → Prop} {ep : EnumId → Prop}
  (hr : ∀ id, rp id → isIdentifier (l.record id).2 = true)
  (he : ∀ id, ep id → isIdentifier (l.enumeration id) = true)

/-- The declaration of a record without its body. -/
theorem spelled_forwardText {id : RecordId} (h : isIdentifier (l.record id).2 = true) :
    Spelled (forwardText l id) (forwardKinds l id) :=
  (l.record id).1.spelled_word.beside (spelled_identifier h).semicolon

include hr he

theorem spelled_memberText {m : MemberDecl} (ht : m.type.desugar.Legible rp ep)
    (hn : ∀ n, m.name = some n → isIdentifier n = true) :
    Spelled (memberText l m) (memberKinds l m) := by
  have ht' := CType.spelled_written hr he ht (spelled_nameKinds hn) fun _ => noAmp_name hn
  have := (ht'.beside (spelled_widthText m.bitWidth)).semicolon
  rwa [List.append_assoc] at this

omit hr he in
theorem spelled_ignoredMember : Spelled Environment.ignoredMember [] := by
  have hsplit : Environment.ignoredMember =
      "/*" ++ (" Ignored a member with no access specifier " ++ "*/") := by decide
  rw [hsplit]
  refine spelled_comment ?_
  rw [Text.bytes_of_isAscii (by decide)]
  decide +kernel

/-- The members of a class lex to their tokens. A comment has none. -/
theorem spelled_classTexts {ms : List MemberDecl}
    (h : ∀ m ∈ ms, m.access.isSome = true → m.type.desugar.Legible rp ep ∧
      ∀ n, m.name = some n → isIdentifier n = true) (current : Option Access) :
    ∃ kss, List.Forall₂ Spelled (classTexts l current ms) kss ∧
      kss.flatten = classKinds l current ms := by
  induction ms generalizing current with
  | nil => exact ⟨[], .nil, rfl⟩
  | cons m ms ih =>
    obtain ⟨hmem, hms⟩ := List.forall_mem_cons.1 h
    cases hacc : m.access with
    | none =>
      obtain ⟨kss, hkss, hflat⟩ := ih hms current
      refine ⟨[] :: kss, ?_, ?_⟩
      · rw [classTexts, hacc]
        exact .cons spelled_ignoredMember hkss
      · rw [classKinds, hacc]
        exact hflat
    | some a =>
      obtain ⟨ht, hn⟩ := hmem (by rw [hacc]; rfl)
      obtain ⟨kss, hkss, hflat⟩ := ih hms (some a)
      have hm := spelled_memberText hr he ht hn
      rw [classTexts, classKinds, hacc]
      dsimp only
      by_cases hc : current = some a
      · refine ⟨memberKinds l m :: kss, ?_, ?_⟩
        · rw [accessText, if_pos hc]
          exact .cons hm hkss
        · simp [accessKinds, hc, hflat]
      · refine ⟨[.keyword (.access a), .mark .colon] :: memberKinds l m :: kss, ?_, ?_⟩
        · rw [accessText, if_neg hc]
          have hcolon : Clean (Text.bytes Mark.colon.spelling) := clean_mark (by decide)
          exact .cons (a.spelled_word.append (spelled_mark .colon) hcolon) (.cons hm hkss)
        · simp [accessKinds, hc, hflat]

theorem spelled_membersTexts {key : RecordKey} {ms : List MemberDecl}
    (h : ∀ m ∈ ms, m.Listed key = true → m.type.desugar.Legible rp ep ∧
      ∀ n, m.name = some n → isIdentifier n = true) :
    ∃ kss, List.Forall₂ Spelled (membersTexts l key ms) kss ∧
      kss.flatten = membersKinds l key ms := by
  have hplain : key ≠ .classKey →
      List.Forall₂ Spelled (ms.map (memberText l)) (ms.map (memberKinds l)) := by
    intro hkey
    rw [List.forall₂_map_left_iff, List.forall₂_map_right_iff, List.forall₂_same]
    intro m hm
    obtain ⟨ht, hn⟩ := h m hm (by simp [MemberDecl.Listed, hkey])
    exact spelled_memberText hr he ht hn
  cases key with
  | classKey => exact spelled_classTexts hr he h none
  | structKey => exact ⟨_, hplain (by decide), rfl⟩
  | unionKey => exact ⟨_, hplain (by decide), rfl⟩

omit hr he in
theorem spelled_basesTexts (key : RecordKey) {bs : List BaseDecl}
    (h : ∀ b ∈ bs, isIdentifier (b.type.recordName l) = true) :
    ∃ kss, List.Forall₂ Spelled (basesTexts l key bs) kss ∧
      kss.flatten = basesKinds l key bs := by
  cases key with
  | structKey => exact ⟨[], .nil, rfl⟩
  | unionKey => exact ⟨[], .nil, rfl⟩
  | classKey =>
    have hall : List.Forall₂ Spelled (bs.map (baseText l)) (bs.map (baseKinds l)) := by
      rw [List.forall₂_map_left_iff, List.forall₂_map_right_iff, List.forall₂_same]
      intro b hb
      have := spelled_ofWords (.cons b.access.spelled_word (.cons (spelled_virtual b.isVirtual)
        (.cons (spelled_identifier (h b hb)) .nil)))
      simpa [baseKinds, baseText] using this
    have hjoin := spelled_join hall
    cases bs with
    | nil => exact ⟨[], .nil, rfl⟩
    | cons b bs =>
      refine ⟨[[.mark .colon], commaKinds ((b :: bs).map (baseKinds l))], ?_, by simp [basesKinds]⟩
      rw [basesTexts]
      split
      · rename_i hempty
        rw [String.isEmpty_iff.1 hempty] at hjoin
        have := hjoin.eq_nil
        cases bs <;> cases this
      · exact .cons (spelled_mark .colon) (.cons hjoin .nil)

/-- **The `definitionText` of a record lexes to its tokens.** -/
theorem spelled_definitionText {id : RecordId} {d : RecordDecl}
    (hid : isIdentifier (l.record id).2 = true)
    (hm : ∀ m ∈ d.members.getD [], m.Listed d.key = true → m.type.desugar.Legible rp ep ∧
      ∀ n, m.name = some n → isIdentifier n = true)
    (hb : ∀ b ∈ d.bases, isIdentifier (b.type.recordName l) = true) :
    Spelled (definitionText l id d) (definitionKinds l id d) := by
  obtain ⟨bss, hbss, hbflat⟩ := spelled_basesTexts d.key hb
  obtain ⟨mss, hmss, hmflat⟩ := spelled_membersTexts hr he hm
  have hhead : List.Forall₂ Spelled [(l.record id).1.word, (l.record id).2]
      [[.keyword (.record (l.record id).1)], [.ident (l.record id).2]] :=
    .cons (l.record id).1.spelled_word (.cons (spelled_identifier hid) .nil)
  have hopen : List.Forall₂ Spelled ["\x7b"] [[.mark .braceOpen]] :=
    .cons (spelled_mark .braceOpen) .nil
  have hclose : List.Forall₂ Spelled ["\x7d;"] [[.mark .braceClose, .mark .semicolon]] :=
    .cons ((spelled_mark .braceClose).semicolon) .nil
  have hall := spelled_ofWords (List.rel_append (List.rel_append (List.rel_append
    (List.rel_append hhead hbss) hopen) hmss) hclose)
  simpa [definitionText, definitionKinds, ← hbflat, ← hmflat] using hall

/-- The declaration of a global symbol. -/
theorem spelled_symbolText {g : String × CType} (ht : g.2.desugar.Legible rp ep)
    (hg : isIdentifier g.1 = true) : Spelled (symbolText l g) (symbolKinds l g) :=
  (CType.spelled_written hr he ht (spelled_identifier hg)
    fun _ => noAmp_identifier hg).semicolon

end

end TypeLedger
