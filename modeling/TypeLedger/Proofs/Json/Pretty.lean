import TypeLedger.Json.Read

/-!
# JSON values read back

* `Obtains`: a reader has read a value and left some characters.
* `readPieces_escape`: a character is read back from the form in which it stands in a string.
* `obtains_value`: a value is read back in front of anything that may stand behind a value. The
  proof is one recursion over the value, its items and its fields.
* `parse?_pretty`: a value is read back from its text.
-/

namespace TypeLedger.Json

variable {α β : Type} {cs ds rest : List Char} {c d : Char} {j : Json} {v : α}

/-! ## 1. Readers -/

/-- The reader has read `v` and left `rest`. -/
def Obtains (e : Option (Read cs α)) (v : α) (rest : List Char) : Prop :=
  ∃ h, e = some ⟨v, rest, h⟩

theorem obtains_bind {e : Option (Read cs α)} {f : Read cs α → Option (Read ds β)} {w : β}
    {behind : List Char} (he : Obtains e v behind) (hf : ∀ h, Obtains (f ⟨v, behind, h⟩) w rest) :
    Obtains (e >>= f) w rest := by
  obtain ⟨h, rfl⟩ := he
  exact hf h

theorem skipSpace_cons (h : isSpace c = false) : skipSpace (c :: cs) = c :: cs :=
  List.dropWhile_cons_of_neg (by rw [h]; exact Bool.false_ne_true)

theorem skipSpace_space (cs : List Char) : skipSpace (' ' :: cs) = skipSpace cs := rfl

theorem skipSpace_indent (level : Nat) (cs : List Char) :
    skipSpace (indent level ++ cs) = skipSpace cs := by
  refine List.dropWhile_append_of_pos fun c hc => ?_
  rcases List.mem_cons.1 hc with rfl | hc
  · rfl
  · rw [List.eq_of_mem_replicate hc]
    rfl

theorem obtains_spaced {f : (cs : List Char) → Option (Read cs α)}
    (h : Obtains (f (skipSpace cs)) v rest) : Obtains (spaced f cs) v rest := by
  obtain ⟨hlt, he⟩ := h
  refine ⟨Nat.lt_of_lt_of_le hlt (length_skipSpace cs), ?_⟩
  rw [spaced, he]
  rfl

theorem obtains_take (h : skipSpace cs = c :: rest) : Obtains (spaced (take? c) cs) () rest := by
  refine obtains_spaced ?_
  rw [h]
  exact ⟨_, if_pos rfl⟩

theorem take_none (h : skipSpace cs = d :: rest) (hd : d ≠ c) : spaced (take? c) cs = none := by
  have ht : take? c (skipSpace cs) = none := by
    rw [h]
    exact if_neg hd
  rw [spaced, ht]
  rfl

/-! ## 2. Strings -/

theorem readPieces_char (hq : c ≠ '"') (hb : c ≠ '\\') (hc : ¬c.toNat < 0x20) (cs : List Char) :
    readPieces (c :: cs) = (readPieces cs).map fun p => (.char c :: p.1, p.2) := by
  rw [readPieces.eq_def]
  split
  · cases ‹_ = _›
  · cases ‹_ = _›
    exact absurd rfl hq
  · cases ‹_ = _›
    exact absurd rfl hb
  · cases ‹_ = _›
    exact absurd rfl hb
  · cases ‹_ = _›
    exact absurd rfl hb
  · rename_i heq
    cases heq
    rw [if_neg hc]
    cases readPieces cs <;> rfl

theorem readPieces_letter {e : Char} (he : letter? e = some c) (cs : List Char) :
    readPieces ('\\' :: e :: cs) = (readPieces cs).map fun p => (.char c :: p.1, p.2) := by
  have hu : e ≠ 'u' := by
    rintro rfl
    cases he
  rw [readPieces.eq_def]
  split
  · cases ‹_ = _›
  · cases ‹_ = _›
  · cases ‹_ = _›
    exact absurd rfl hu
  · cases ‹_ = _›
  · rename_i heq
    cases heq
    rw [he]
    cases readPieces cs <;> rfl
  · rename_i hne heq
    cases heq
    exact (hne _ _ rfl rfl).elim

theorem readPieces_unit {n : Nat} {a b d e : Char} (hn : Text.value? 16 [a, b, d, e] = some n)
    (cs : List Char) : readPieces ('\\' :: 'u' :: a :: b :: d :: e :: cs) =
      (readPieces cs).map fun p => (.ofUnit n :: p.1, p.2) := by
  rw [readPieces, hn]
  cases readPieces cs <;> rfl

theorem value?_control : ∀ n < 0x20,
    Text.value? 16 ['0', '0', hexDigit (n / 16), hexDigit (n % 16)] = some n := by
  decide

/-- **A character is read back from the form in which it stands in a string:** `readPieces` undoes
`escape`. -/
theorem readPieces_escape (c : Char) (cs : List Char) :
    readPieces (escape c ++ cs) = (readPieces cs).map fun p => (.char c :: p.1, p.2) := by
  unfold escape
  -- the seven characters with a letter of their own
  iterate 7
    split
    · subst c
      exact readPieces_letter rfl cs
  split
  · rename_i hc
    have hunit : Piece.ofUnit c.toNat = .char c := by
      rw [Piece.ofUnit, if_neg (by omega), Char.ofNat_toNat]
    rw [← hunit]
    exact readPieces_unit (value?_control _ hc) cs
  · rename_i hq hb _ _ _ _ _ hc
    exact readPieces_char hq hb hc cs

theorem readPieces_string (l : List Char) (rest : List Char) :
    readPieces (l.flatMap escape ++ '"' :: rest) = some (l.map .char, rest) := by
  induction l with
  | nil => rfl
  | cons c l ih =>
    rw [List.flatMap_cons, List.append_assoc, readPieces_escape, ih]
    rfl

theorem assemble_chars (l : List Char) : assemble (l.map .char) = some l := by
  induction l with
  | nil => rfl
  | cons c l ih =>
    rw [List.map_cons, assemble, ih]
    rfl

theorem obtains_readString {ps : List Piece} (h : readPieces cs = some (ps, rest)) :
    Obtains (readString ('"' :: cs)) ((assemble ps).map String.ofList) rest := by
  rw [readString]
  split
  · rename_i ps' rest' h'
    rw [h] at h'
    cases h'
    exact ⟨_, rfl⟩
  · rename_i h'
    rw [h] at h'
    cases h'

/-- **A string is read back** from its `quote`, half of a surrogate pair as no text. -/
theorem obtains_quote (t : Text) (rest : List Char) :
    Obtains (readString (quote t ++ rest)) t rest := by
  cases t with
  | none =>
    have hunit : Text.value? 16 ['d', '8', '0', '0'] = some 0xd800 := by decide
    exact obtains_readString (readPieces_unit hunit ('"' :: rest))
  | some s =>
    have h := obtains_readString (readPieces_string s.toList rest)
    rw [assemble_chars, Option.map_some, String.ofList_toList] at h
    have hq : quote (some s) ++ rest = '"' :: (s.toList.flatMap escape ++ '"' :: rest) := by
      simp [quote]
    rwa [hq]

theorem readString_none (h : c ≠ '"') (cs : List Char) : readString (c :: cs) = none := by
  rw [readString]
  rintro inner hc
  exact h (List.cons.inj hc).1

/-! ## 3. Values that hold no other -/

/-- What may stand behind a value. -/
def Ends (cs : List Char) : Prop := cs = [] ∨ ∃ c rest, cs = c :: rest ∧ (c = ',' ∨ c = '\n')

theorem number?_zero (h : Ends rest) : number? ('0' :: rest) = some rest := by
  rcases h with rfl | ⟨c, rest, rfl, rfl | rfl⟩ <;> rfl

theorem obtains_number (h : Ends rest) : Obtains (readNumber ('0' :: rest)) .number rest := by
  have hn := number?_zero h
  unfold readNumber
  split
  · rename_i rest' h'
    rw [hn] at h'
    cases h'
    exact ⟨_, rfl⟩
  · rename_i h'
    rw [hn] at h'
    cases h'

theorem obtains_word {word : List Char} (h : word ≠ []) (j : Json) (rest : List Char) :
    Obtains (readWord word j (word ++ rest)) j rest := by
  unfold readWord
  rw [dif_pos ⟨h, List.prefix_append _ _⟩]
  simp only [List.drop_left]
  exact ⟨_, rfl⟩

theorem readWord_none {word : List Char} (h : c ≠ d) (j : Json) (cs : List Char) :
    readWord (c :: word) j (d :: cs) = none :=
  dif_neg fun hw => h (List.cons_prefix_cons.1 hw.2).1

theorem obtains_first {e : Option (Read cs α)} (h : Obtains e v rest) (e' : Option (Read cs α)) :
    Obtains (e <|> e') v rest := by
  obtain ⟨hlt, rfl⟩ := h
  exact ⟨hlt, rfl⟩

theorem obtains_second {e e' : Option (Read cs α)} (he : e = none) (h : Obtains e' v rest) :
    Obtains (e <|> e') v rest := by
  rw [he]
  exact h

theorem scalar_text (t : Text) (rest : List Char) :
    Obtains (readScalar (quote t ++ rest)) (.text t) rest := by
  obtain ⟨hlt, he⟩ := obtains_quote t rest
  refine obtains_first ⟨hlt, ?_⟩ _
  rw [he]
  rfl

/-- Where no string stands, a word or a number does. -/
theorem scalar_of_not_string (hc : c ≠ '"')
    (h : Obtains (readWord ['n', 'u', 'l', 'l'] .null (c :: cs)
      <|> readWord ['t', 'r', 'u', 'e'] (.bool true) (c :: cs)
      <|> readWord ['f', 'a', 'l', 's', 'e'] (.bool false) (c :: cs)
      <|> readNumber (c :: cs)) j rest) : Obtains (readScalar (c :: cs)) j rest := by
  refine obtains_second ?_ h
  rw [readString_none hc]
  rfl

theorem scalar_null (rest : List Char) :
    Obtains (readScalar ('n' :: 'u' :: 'l' :: 'l' :: rest)) .null rest := by
  refine scalar_of_not_string (by decide) ?_
  exact obtains_first (obtains_word (List.cons_ne_nil 'n' ['u', 'l', 'l']) .null rest) _

theorem scalar_true (rest : List Char) :
    Obtains (readScalar ('t' :: 'r' :: 'u' :: 'e' :: rest)) (.bool true) rest := by
  refine scalar_of_not_string (by decide) ?_
  refine obtains_second (readWord_none (by decide) _ _) ?_
  exact obtains_first (obtains_word (List.cons_ne_nil 't' ['r', 'u', 'e']) (.bool true) rest) _

theorem scalar_false (rest : List Char) :
    Obtains (readScalar ('f' :: 'a' :: 'l' :: 's' :: 'e' :: rest)) (.bool false) rest := by
  refine scalar_of_not_string (by decide) ?_
  refine obtains_second (readWord_none (by decide) _ _) ?_
  refine obtains_second (readWord_none (by decide) _ _) ?_
  exact obtains_first
    (obtains_word (List.cons_ne_nil 'f' ['a', 'l', 's', 'e']) (.bool false) rest) _

theorem scalar_number (h : Ends rest) : Obtains (readScalar ('0' :: rest)) .number rest := by
  refine scalar_of_not_string (by decide) ?_
  refine obtains_second (readWord_none (by decide) _ _) ?_
  refine obtains_second (readWord_none (by decide) _ _) ?_
  refine obtains_second (readWord_none (by decide) _ _) ?_
  exact obtains_number h

/-! ## 4. Arrays and objects -/

section Steps

variable {behind es gs : List Char} {js : List Json} {k : Text} {fs : List (Text × Json)}

/-- A value that begins with no bracket and no brace holds no other. -/
theorem obtains_of_scalar (hcs : skipSpace cs = c :: ds) (ha : c ≠ '[') (ho : c ≠ '\x7b')
    (h : Obtains (readScalar (c :: ds)) j rest) : Obtains (readValue cs) j rest := by
  unfold readValue
  rw [take_none hcs ha, take_none hcs ho]
  refine obtains_spaced ?_
  rwa [hcs]

theorem obtains_array (hcs : skipSpace cs = '[' :: ds) (h : Obtains (readArray ds) js rest) :
    Obtains (readValue cs) (.array js) rest := by
  obtain ⟨_, hopen⟩ := obtains_take hcs
  unfold readValue
  rw [hopen]
  exact obtains_bind h fun _ => ⟨_, rfl⟩

theorem obtains_array_nil (hcs : skipSpace cs = ']' :: rest) : Obtains (readArray cs) [] rest := by
  obtain ⟨_, hclose⟩ := obtains_take hcs
  unfold readArray
  rw [hclose]
  exact ⟨_, rfl⟩

theorem obtains_array_items (hcs : skipSpace cs = c :: ds) (hc : c ≠ ']')
    (h : Obtains (readItems cs) js rest) : Obtains (readArray cs) js rest := by
  unfold readArray
  rw [take_none hcs hc]
  exact h

theorem obtains_last_item (h : Obtains (readValue cs) j behind)
    (hclose : skipSpace behind = ']' :: rest) : Obtains (readItems cs) [j] rest := by
  obtain ⟨_, hclose⟩ := obtains_take hclose
  unfold readItems
  refine obtains_bind h fun _ => ?_
  dsimp only
  rw [hclose]
  exact ⟨_, rfl⟩

theorem obtains_item (h : Obtains (readValue cs) j behind) (hcomma : skipSpace behind = ',' :: ds)
    (hitems : Obtains (readItems ds) js rest) : Obtains (readItems cs) (j :: js) rest := by
  have hclose : spaced (take? ']') behind = none := take_none hcomma (by decide)
  unfold readItems
  refine obtains_bind h fun _ => ?_
  dsimp only
  rw [hclose]
  refine obtains_bind (obtains_take hcomma) fun _ => ?_
  exact obtains_bind hitems fun _ => ⟨_, rfl⟩

theorem obtains_object (hcs : skipSpace cs = '\x7b' :: ds)
    (h : Obtains (readObject ds) fs rest) : Obtains (readValue cs) (.object fs) rest := by
  have hbracket : spaced (take? '[') cs = none := take_none hcs (by decide)
  obtain ⟨_, hopen⟩ := obtains_take hcs
  unfold readValue
  rw [hbracket, hopen]
  exact obtains_bind h fun _ => ⟨_, rfl⟩

theorem obtains_object_nil (hcs : skipSpace cs = '\x7d' :: rest) :
    Obtains (readObject cs) [] rest := by
  obtain ⟨_, hclose⟩ := obtains_take hcs
  unfold readObject
  rw [hclose]
  exact ⟨_, rfl⟩

theorem obtains_object_fields (hcs : skipSpace cs = c :: ds) (hc : c ≠ '\x7d')
    (h : Obtains (readFields cs) fs rest) : Obtains (readObject cs) fs rest := by
  unfold readObject
  rw [take_none hcs hc]
  exact h

/-- A name, a colon and a value. -/
theorem obtains_last_field (hk : Obtains (spaced readString cs) k behind)
    (hcolon : skipSpace behind = ':' :: ds) (h : Obtains (readValue ds) j es)
    (hclose : skipSpace es = '\x7d' :: rest) : Obtains (readFields cs) [(k, j)] rest := by
  obtain ⟨_, hclose⟩ := obtains_take hclose
  unfold readFields
  refine obtains_bind hk fun _ => ?_
  refine obtains_bind (obtains_take hcolon) fun _ => ?_
  refine obtains_bind h fun _ => ?_
  dsimp only
  rw [hclose]
  exact ⟨_, rfl⟩

theorem obtains_field (hk : Obtains (spaced readString cs) k behind)
    (hcolon : skipSpace behind = ':' :: ds) (h : Obtains (readValue ds) j es)
    (hcomma : skipSpace es = ',' :: gs) (hfields : Obtains (readFields gs) fs rest) :
    Obtains (readFields cs) ((k, j) :: fs) rest := by
  have hclose : spaced (take? '\x7d') es = none := take_none hcomma (by decide)
  unfold readFields
  refine obtains_bind hk fun _ => ?_
  refine obtains_bind (obtains_take hcolon) fun _ => ?_
  refine obtains_bind h fun _ => ?_
  dsimp only
  rw [hclose]
  refine obtains_bind (obtains_take hcomma) fun _ => ?_
  exact obtains_bind hfields fun _ => ⟨_, rfl⟩

end Steps

/-! ## 5. What is written -/

theorem quote_eq_cons (t : Text) : ∃ cs, quote t = '"' :: cs := by
  cases t with
  | none => exact ⟨_, rfl⟩
  | some s => exact ⟨s.toList.flatMap escape ++ ['"'], by simp [quote]⟩

theorem write_array_append (level : Nat) (j : Json) (js : List Json) (tail : List Char) :
    write level (.array (j :: js)) ++ tail = '[' :: (indent (level + 1) ++ (write (level + 1) j ++
      (writeItems (level + 1) js ++ (indent level ++ ']' :: tail)))) := by
  rw [write]
  simp only [List.append_assoc, List.cons_append, List.nil_append]

theorem write_object_append (level : Nat) (f : Text × Json) (fs : List (Text × Json))
    (tail : List Char) :
    write level (.object (f :: fs)) ++ tail = '\x7b' :: (indent (level + 1) ++
      (writeField (level + 1) f ++ (writeFields (level + 1) fs ++
        (indent level ++ '\x7d' :: tail)))) := by
  rw [write]
  simp only [List.append_assoc, List.cons_append, List.nil_append]

/-- A value begins with a character that is no blank and closes no array. -/
theorem write_eq_cons (level : Nat) (j : Json) :
    ∃ c cs, write level j = c :: cs ∧ isSpace c = false ∧ c ≠ ']' := by
  match j with
  | .null => exact ⟨'n', _, by rw [write], by decide⟩
  | .bool true => exact ⟨'t', _, by rw [write], by decide⟩
  | .bool false => exact ⟨'f', _, by rw [write], by decide⟩
  | .number => exact ⟨'0', _, by rw [write], by decide⟩
  | .text t =>
    obtain ⟨cs, hq⟩ := quote_eq_cons t
    exact ⟨'"', cs, by rw [write, hq], by decide⟩
  | .array [] => exact ⟨'[', _, by rw [write], by decide⟩
  | .array (j :: js) =>
    have hw := write_array_append level j js []
    rw [List.append_nil] at hw
    exact ⟨'[', _, hw, by decide⟩
  | .object [] => exact ⟨'\x7b', _, by rw [write], by decide⟩
  | .object (f :: fs) =>
    have hw := write_object_append level f fs []
    rw [List.append_nil] at hw
    exact ⟨'\x7b', _, hw, by decide⟩

theorem skipSpace_write (level : Nat) (j : Json) (cs : List Char) :
    skipSpace (write level j ++ cs) = write level j ++ cs := by
  obtain ⟨c, ds, hw, hc, -⟩ := write_eq_cons level j
  rw [hw, List.cons_append, skipSpace_cons hc]

theorem skipSpace_quote (t : Text) (cs : List Char) :
    skipSpace (quote t ++ cs) = quote t ++ cs := by
  obtain ⟨ds, hq⟩ := quote_eq_cons t
  rw [hq, List.cons_append, skipSpace_cons (by decide)]

theorem skipSpace_close {c : Char} (hc : isSpace c = false) (level : Nat) (cs : List Char) :
    skipSpace (indent level ++ c :: cs) = c :: cs := by
  rw [skipSpace_indent, skipSpace_cons hc]

theorem ends_items (level outer : Nat) (js : List Json) (cs : List Char) :
    Ends (writeItems level js ++ (indent outer ++ cs)) := by
  cases js with
  | nil => exact .inr ⟨_, _, rfl, .inr rfl⟩
  | cons j js =>
    rw [writeItems]
    exact .inr ⟨_, _, rfl, .inl rfl⟩

theorem ends_fields (level outer : Nat) (fs : List (Text × Json)) (cs : List Char) :
    Ends (writeFields level fs ++ (indent outer ++ cs)) := by
  cases fs with
  | nil => exact .inr ⟨_, _, rfl, .inr rfl⟩
  | cons f fs =>
    rw [writeFields]
    exact .inr ⟨_, _, rfl, .inl rfl⟩

theorem skipSpace_writeItems (level : Nat) (j : Json) (js : List Json) (cs : List Char) :
    skipSpace (writeItems level (j :: js) ++ cs) =
      ',' :: (indent level ++ (write level j ++ (writeItems level js ++ cs))) := by
  rw [writeItems]
  simp only [List.append_assoc, List.cons_append, List.nil_append]
  exact skipSpace_cons (by decide)

theorem skipSpace_writeFields (level : Nat) (f : Text × Json) (fs : List (Text × Json))
    (cs : List Char) : skipSpace (writeFields level (f :: fs) ++ cs) =
      ',' :: (indent level ++ (writeField level f ++ (writeFields level fs ++ cs))) := by
  rw [writeFields]
  simp only [List.append_assoc, List.cons_append, List.nil_append]
  exact skipSpace_cons (by decide)

theorem writeField_append (level : Nat) (f : Text × Json) (cs : List Char) :
    writeField level f ++ cs = quote f.1 ++ ':' :: ' ' :: (write level f.2 ++ cs) := by
  rw [writeField]
  simp only [List.append_assoc, List.cons_append, List.nil_append]

theorem obtains_name {level : Nat} {k : Text} (h : skipSpace cs = writeField level (k, j) ++ ds) :
    Obtains (spaced readString cs) k (':' :: ' ' :: (write level j ++ ds)) := by
  refine obtains_spaced ?_
  rw [h, writeField_append]
  exact obtains_quote k _

/-! ## 6. Values -/

mutual

/-- **A value is read back** by `readValue` in front of what may stand behind a value. -/
theorem obtains_value (level : Nat) (j : Json) {cs tail : List Char}
    (hcs : skipSpace cs = write level j ++ tail) (ht : Ends tail) :
    Obtains (readValue cs) j tail := by
  match j with
  | .null =>
    rw [write] at hcs
    exact obtains_of_scalar hcs (by decide) (by decide) (scalar_null tail)
  | .bool true =>
    rw [write] at hcs
    exact obtains_of_scalar hcs (by decide) (by decide) (scalar_true tail)
  | .bool false =>
    rw [write] at hcs
    exact obtains_of_scalar hcs (by decide) (by decide) (scalar_false tail)
  | .number =>
    rw [write] at hcs
    exact obtains_of_scalar hcs (by decide) (by decide) (scalar_number ht)
  | .text t =>
    have hscalar := scalar_text t tail
    obtain ⟨ds, hq⟩ := quote_eq_cons t
    rw [write, hq] at hcs
    rw [hq] at hscalar
    exact obtains_of_scalar hcs (by decide) (by decide) hscalar
  | .array [] =>
    rw [write] at hcs
    exact obtains_array hcs (obtains_array_nil (skipSpace_cons (by decide)))
  | .array (j :: js) =>
    rw [write_array_append] at hcs
    obtain ⟨c, ds, hw, hspace, hc⟩ := write_eq_cons (level + 1) j
    have hfirst : skipSpace (indent (level + 1) ++ (write (level + 1) j ++
        (writeItems (level + 1) js ++ (indent level ++ ']' :: tail)))) = write (level + 1) j ++
        (writeItems (level + 1) js ++ (indent level ++ ']' :: tail)) := by
      rw [hw, List.cons_append, skipSpace_close hspace]
    refine obtains_array hcs (obtains_array_items (hfirst.trans (by rw [hw]; rfl)) hc ?_)
    exact obtains_items (level + 1) level j js hfirst
  | .object [] =>
    rw [write] at hcs
    exact obtains_object hcs (obtains_object_nil (skipSpace_cons (by decide)))
  | .object ((k, j) :: fs) =>
    rw [write_object_append] at hcs
    obtain ⟨ds, hq⟩ := quote_eq_cons k
    have hfirst : skipSpace (indent (level + 1) ++ (writeField (level + 1) (k, j) ++
        (writeFields (level + 1) fs ++ (indent level ++ '\x7d' :: tail)))) =
        writeField (level + 1) (k, j) ++
          (writeFields (level + 1) fs ++ (indent level ++ '\x7d' :: tail)) := by
      rw [writeField_append, hq, List.cons_append, skipSpace_close (by decide)]
    refine obtains_object hcs (obtains_object_fields (c := '"')
      (hfirst.trans (by rw [writeField_append, hq]; rfl)) (by decide) ?_)
    exact obtains_fields (level + 1) level k j fs hfirst
termination_by sizeOf j

theorem obtains_items (level outer : Nat) (j : Json) (js : List Json) {cs tail : List Char}
    (hcs : skipSpace cs =
      write level j ++ (writeItems level js ++ (indent outer ++ ']' :: tail))) :
    Obtains (readItems cs) (j :: js) tail := by
  have hj := obtains_value level j hcs (ends_items level outer js _)
  match js with
  | [] => exact obtains_last_item hj (skipSpace_close (by decide) outer tail)
  | j' :: js =>
    refine obtains_item hj (skipSpace_writeItems level j' js _) ?_
    exact obtains_items level outer j' js (by rw [skipSpace_indent, skipSpace_write])
termination_by sizeOf (j :: js)

theorem obtains_fields (level outer : Nat) (k : Text) (j : Json) (fs : List (Text × Json))
    {cs tail : List Char} (hcs : skipSpace cs =
      writeField level (k, j) ++ (writeFields level fs ++ (indent outer ++ '\x7d' :: tail))) :
    Obtains (readFields cs) ((k, j) :: fs) tail := by
  have hk := obtains_name hcs
  have hj := obtains_value level j (by rw [skipSpace_space, skipSpace_write])
    (ends_fields level outer fs ('\x7d' :: tail))
  match fs with
  | [] =>
    exact obtains_last_field hk (skipSpace_cons (by decide)) hj
      (skipSpace_close (by decide) outer tail)
  | (k', j') :: fs =>
    refine obtains_field hk (skipSpace_cons (by decide)) hj
      (skipSpace_writeFields level (k', j') fs _) ?_
    refine obtains_fields level outer k' j' fs ?_
    rw [skipSpace_indent, writeField_append, skipSpace_quote]
termination_by sizeOf ((k, j) :: fs)

end

/-- **A value is read back from its text:** `parse?` undoes `pretty`. -/
theorem parse?_pretty (j : Json) : parse? j.pretty = some j := by
  have hcs : skipSpace j.pretty.toList = write 0 j ++ [] := by
    rw [pretty, String.toList_ofList, ← skipSpace_write, List.append_nil]
  obtain ⟨_, he⟩ := obtains_value 0 j hcs (.inl rfl)
  rw [parse?, he]
  rfl

end TypeLedger.Json
