import TypeLedger.Proofs.Lexing.Numbers
import TypeLedger.Proofs.Lexing.Scanned

/-!
# The items of a string literal

* `Escape` and `StringItem`: what a string literal is made of. Each has its bytes and its value, and
  `Fits` says in front of which bytes it may stand: a run of digits takes all the digits there are.
* `StringBody`: the grammar of a string literal, from behind its opening quote.
* `scanEscape_eq_ok_iff`, `scanString_eq_ok_iff`: the scans accept what the grammar says and nothing
  else.
* `scan_string`: the same of a literal with its quote.
-/

namespace TypeLedger

/-! ## 1. The grammar -/

/-- A digit of a base. -/
def isDigitOf (base : Nat) (b : UInt8) : Bool := (Text.digit? base (byteChar b)).isSome

/-- The byte that some digits stand for, their value modulo 256. -/
def byteOf (base : Nat) (digits : List UInt8) : UInt8 :=
  UInt8.ofNat (Text.positional base (digits.map byteChar))

/-- The letters behind a backslash, and the bytes they stand for. -/
def letterEscapes : List (Char × UInt8) :=
  [('n', 0x0a), ('t', 0x09), ('r', 0x0d), ('a', 0x07), ('b', 0x08), ('f', 0x0c), ('v', 0x0b),
   ('\\', asciiByte '\\'), ('\'', asciiByte '\''), ('"', asciiByte '"'), ('?', asciiByte '?')]

/-- What stands behind a backslash. -/
inductive Escape
  | letter (c : Char) (value : UInt8)
  | hexadecimal (digits : List UInt8)
  | octal (digits : List UInt8)

namespace Escape

def bytes : Escape → List UInt8
  | letter c _ => [asciiByte c]
  | hexadecimal digits => asciiByte 'x' :: digits
  | octal digits => digits

def value : Escape → UInt8
  | letter _ v => v
  | hexadecimal digits => byteOf 16 digits
  | octal digits => byteOf 8 digits

/-- The escape may stand in front of these bytes. Hexadecimal digits are as many as there are, octal
ones up to three. -/
def Fits (rest : List UInt8) : Escape → Prop
  | letter c v => (c, v) ∈ letterEscapes
  | hexadecimal digits => digits ≠ [] ∧ (∀ d ∈ digits, isDigitOf 16 d = true) ∧
      ∀ b ∈ rest.head?, isDigitOf 16 b = false
  | octal digits => digits ≠ [] ∧ digits.length ≤ 3 ∧ (∀ d ∈ digits, isDigitOf 8 d = true) ∧
      (digits.length < 3 → ∀ b ∈ rest.head?, isDigitOf 8 b = false)

end Escape

/-- An item of a string literal. -/
inductive StringItem
  | plain (b : UInt8)
  /-- A backslash in front of a line feed, which joins the lines. -/
  | joined
  | escape (e : Escape)

namespace StringItem

def bytes : StringItem → List UInt8
  | plain b => [b]
  | joined => [asciiByte '\\', lineFeed]
  | escape e => asciiByte '\\' :: e.bytes

/-- The bytes that the item adds to the literal. -/
def value : StringItem → List UInt8
  | plain b => [b]
  | joined => []
  | escape e => [e.value]

/-- The item may stand in front of these bytes. -/
def Fits (rest : List UInt8) : StringItem → Prop
  | plain b => b ≠ asciiByte '"' ∧ b ≠ asciiByte '\\' ∧ b ≠ lineFeed
  | joined => True
  | escape e => e.Fits rest

end StringItem

/-- The items of a string literal, from behind its opening quote: they go up to the first quote that
is no part of an item, and `rest` is left behind it. -/
inductive StringBody (rest : List UInt8) : List StringItem → List UInt8 → Prop
  | close : StringBody rest [] (asciiByte '"' :: rest)
  | item {i : StringItem} {is : List StringItem} {bs : List UInt8} (hi : i.Fits bs)
      (h : StringBody rest is bs) : StringBody rest (i :: is) (i.bytes ++ bs)

/-! ## 2. Runs of digits -/

section Runs

variable {p : UInt8 → Bool} {q bs : List UInt8}

/-- A run takes all bytes of its class. -/
theorem takeWhile_eq_iff : bs.takeWhile p = q ↔
    ∃ rest, bs = q ++ rest ∧ (∀ b ∈ q, p b = true) ∧ ∀ b ∈ rest.head?, p b = false := by
  constructor
  · rintro rfl
    refine ⟨bs.dropWhile p, List.takeWhile_append_dropWhile.symm,
      List.all_eq_true.1 List.all_takeWhile, fun b hb => ?_⟩
    have hhead := List.head?_dropWhile_not p bs
    rw [Option.mem_def.1 hb] at hhead
    exact hhead
  · rintro ⟨rest, rfl, hq, hrest⟩
    rw [List.takeWhile_append_of_pos hq]
    cases rest with
    | nil => exact List.append_nil q
    | cons b rest =>
      rw [List.takeWhile_cons_of_neg (by rw [hrest b rfl]; exact nofun), List.append_nil]

/-- A run of at most `m` bytes takes all bytes of its class up to this number. -/
theorem takeWhile_take_eq_iff {m : Nat} : (bs.take m).takeWhile p = q ↔
    ∃ rest, bs = q ++ rest ∧ q.length ≤ m ∧ (∀ b ∈ q, p b = true) ∧
      (q.length < m → ∀ b ∈ rest.head?, p b = false) := by
  rw [takeWhile_eq_iff]
  constructor
  · rintro ⟨rest, htake, hq, hrest⟩
    have hlength : q.length ≤ m := by
      have := congrArg List.length htake
      rw [List.length_take, List.length_append] at this
      omega
    have hfront : bs.take q.length = q := by
      rw [← Nat.min_eq_left hlength, ← List.take_take, htake, List.take_left]
    have hbehind : rest = (bs.drop q.length).take (m - q.length) := by
      rw [← List.drop_take, htake, List.drop_left]
    refine ⟨bs.drop q.length, ?_, hlength, hq, fun hlt b hb => hrest b ?_⟩
    · conv => lhs; rw [← List.take_append_drop q.length bs, hfront]
    · rw [hbehind, List.head?_take, if_neg (Nat.sub_ne_zero_of_lt hlt)]
      exact hb
  · rintro ⟨rest, rfl, hlength, hq, hrest⟩
    refine ⟨rest.take (m - q.length), ?_, hq, fun b hb => ?_⟩
    · rw [List.take_append, List.take_of_length_le hlength]
    · rw [List.head?_take] at hb
      split at hb
      · cases hb
      · exact hrest (by omega) b hb

end Runs

/-! ## 3. Escapes -/

theorem isOctalByte_eq : isOctalByte = isDigitOf 8 := by
  funext b
  refine forall_byte (p := fun b => isOctalByte b = isDigitOf 8 b) ?_ b
  decide +kernel

theorem isSome_hexByte? (b : UInt8) : (hexByte? b).isSome = isDigitOf 16 b := by
  rw [hexByte?, Option.isSome_map, isDigitOf]

/-- Digits that are added one by one, modulo 256, come to their value modulo 256. -/
theorem foldl_eq_byteOf (base : Nat) {f : UInt8 → UInt8} {digits : List UInt8}
    (h : ∀ d ∈ digits, f d = UInt8.ofNat ((Text.digitValue (byteChar d)).getD 0)) :
    digits.foldl (fun v d => v * UInt8.ofNat base + f d) 0 = byteOf base digits := by
  induction digits using List.reverseRecOn with
  | nil => rfl
  | append_singleton digits d ih =>
    obtain ⟨hdigits, hd⟩ := List.forall_mem_append.1 h
    rw [List.foldl_append, ih hdigits, List.foldl_cons, List.foldl_nil, hd d List.mem_cons_self,
      byteOf, byteOf, List.map_append, List.map_singleton, Text.positional_concat, UInt8.ofNat_add,
      UInt8.ofNat_mul]

theorem hexEscape_eq {digits : List UInt8} (h : ∀ d ∈ digits, isDigitOf 16 d = true) :
    hexEscape digits = byteOf 16 digits := by
  refine foldl_eq_byteOf 16 fun d hd => ?_
  obtain ⟨v, hv⟩ := Option.isSome_iff_exists.1 (h d hd)
  rw [hexByte?, hv, (Text.digit?_eq_some_iff.1 hv).2]
  rfl

theorem octalEscape_eq {digits : List UInt8} (h : ∀ d ∈ digits, isDigitOf 8 d = true) :
    octalEscape digits = byteOf 8 digits := by
  refine foldl_eq_byteOf 8 fun d hd => ?_
  refine forall_byte (p := fun d => isDigitOf 8 d = true →
    d - asciiByte '0' = UInt8.ofNat ((Text.digitValue (byteChar d)).getD 0)) ?_ d (h d hd)
  decide +kernel

/-- The letters are those of the table. -/
theorem letterEscape?_eq_some_iff {b v : UInt8} :
    letterEscape? b = some v ↔ ∃ c, (c, v) ∈ letterEscapes ∧ b = asciiByte c := by
  constructor
  · intro h
    have hfind : letterEscape? b =
        (letterEscapes.find? fun e => asciiByte e.1 == b).map Prod.snd := by
      refine forall_byte (p := fun b => letterEscape? b =
        (letterEscapes.find? fun e => asciiByte e.1 == b).map Prod.snd) ?_ b
      decide +kernel
    rw [hfind] at h
    obtain ⟨⟨c, v⟩, he, rfl⟩ := Option.map_eq_some_iff.1 h
    refine ⟨c, List.mem_of_find?_eq_some he, ?_⟩
    have hb := List.find?_some he
    exact (beq_iff_eq.1 hb).symm
  · rintro ⟨c, hc, rfl⟩
    have hall : ∀ e ∈ letterEscapes, letterEscape? (asciiByte e.1) = some e.2 := by decide
    exact hall _ hc

/-- What is read behind a backslash is an escape, and it ends where the grammar says. -/
theorem exists_of_scanEscape {bs : List UInt8} {v : UInt8} {n : Nat} (h : scanEscape bs = .ok v n) :
    ∃ (e : Escape) (rest : List UInt8), bs = e.bytes ++ rest ∧ e.Fits rest ∧ v = e.value ∧
      n = e.bytes.length := by
  unfold scanEscape at h
  split at h
  · cases h
  rename_i b bs
  split at h
  · rename_i w hw
    obtain ⟨rfl, rfl⟩ := scanned_ok_inj h
    obtain ⟨c, hc, rfl⟩ := letterEscape?_eq_some_iff.1 hw
    exact ⟨.letter c w, bs, rfl, hc, rfl, rfl⟩
  split at h
  · rename_i hx
    subst hx
    dsimp only at h
    simp only [isSome_hexByte?] at h
    obtain ⟨rest, hbs, hd, hrest⟩ := takeWhile_eq_iff.1 (rfl : bs.takeWhile (isDigitOf 16) = _)
    split at h
    · cases h
    · rename_i hne
      obtain ⟨rfl, rfl⟩ := scanned_ok_inj h
      refine ⟨.hexadecimal (bs.takeWhile (isDigitOf 16)), rest, congrArg _ hbs,
        ⟨fun hnil => hne (List.isEmpty_iff.2 hnil), hd, hrest⟩, hexEscape_eq hd, Nat.add_comm _ _⟩
  split at h
  · rename_i hoctal
    obtain ⟨rfl, rfl⟩ := scanned_ok_inj h
    rw [isOctalByte_eq] at hoctal ⊢
    obtain ⟨rest, hbs, hlength, hd, hrest⟩ :=
      takeWhile_take_eq_iff.1 (rfl : (bs.take 2).takeWhile (isDigitOf 8) = _)
    have hall : ∀ d ∈ b :: (bs.take 2).takeWhile (isDigitOf 8), isDigitOf 8 d = true :=
      List.forall_mem_cons.2 ⟨hoctal, hd⟩
    refine ⟨.octal (b :: (bs.take 2).takeWhile (isDigitOf 8)), rest, congrArg _ hbs,
      ⟨List.cons_ne_nil _ _, Nat.succ_le_succ hlength, hall,
        fun hlt => hrest (Nat.lt_of_succ_lt_succ hlt)⟩, octalEscape_eq hall, rfl⟩
  · cases h

/-- An octal digit is none of the letters, and begins no hexadecimal escape. -/
theorem letterEscape?_of_octal {b : UInt8} (h : isDigitOf 8 b = true) :
    letterEscape? b = none ∧ b ≠ asciiByte 'x' := by
  refine forall_byte (p := fun b => isDigitOf 8 b = true →
    letterEscape? b = none ∧ b ≠ asciiByte 'x') ?_ b h
  decide +kernel

/-- An escape is read in front of what it may stand in front of. -/
theorem Escape.Fits.scanEscape {e : Escape} {rest : List UInt8} (h : e.Fits rest) :
    scanEscape (e.bytes ++ rest) = .ok e.value e.bytes.length := by
  cases e with
  | letter c v =>
    rw [Escape.bytes, List.singleton_append, TypeLedger.scanEscape,
      letterEscape?_eq_some_iff.2 ⟨c, h, rfl⟩]
    rfl
  | hexadecimal digits =>
    obtain ⟨hne, hd, hrest⟩ := h
    have hrun : (digits ++ rest).takeWhile (isDigitOf 16) = digits :=
      takeWhile_eq_iff.2 ⟨rest, rfl, hd, hrest⟩
    have hx : letterEscape? (asciiByte 'x') = none := by decide
    rw [Escape.bytes, List.cons_append, TypeLedger.scanEscape, hx]
    simp only [isSome_hexByte?, hrun, if_true]
    rw [if_neg (by simpa using hne), hexEscape_eq hd, List.length_cons, Nat.add_comm]
    rfl
  | octal digits =>
    obtain ⟨hne, hlength, hd, hrest⟩ := h
    obtain ⟨b, digits, rfl⟩ := List.exists_cons_of_ne_nil hne
    have hb := hd b List.mem_cons_self
    have hrun : ((digits ++ rest).take 2).takeWhile (isDigitOf 8) = digits :=
      takeWhile_take_eq_iff.2 ⟨rest, rfl, Nat.le_of_succ_le_succ hlength,
        fun d h => hd d (List.mem_cons_of_mem b h), fun hlt => hrest (Nat.succ_lt_succ hlt)⟩
    obtain ⟨hletter, hx⟩ := letterEscape?_of_octal hb
    rw [Escape.bytes, List.cons_append, TypeLedger.scanEscape, hletter]
    simp only [if_neg hx, isOctalByte_eq, hrun, hb, if_true]
    rw [octalEscape_eq hd]
    rfl

/-- **An escape is read up to where the grammar ends it** (`Escape.Fits`). -/
theorem scanEscape_eq_ok_iff {bs : List UInt8} {v : UInt8} {n : Nat} : scanEscape bs = .ok v n ↔
    ∃ (e : Escape) (rest : List UInt8), bs = e.bytes ++ rest ∧ e.Fits rest ∧ v = e.value ∧
      n = e.bytes.length := by
  refine ⟨exists_of_scanEscape, ?_⟩
  rintro ⟨e, rest, rfl, hfits, rfl, rfl⟩
  exact hfits.scanEscape

/-! ## 4. Strings -/

/-- No escape begins with a line feed, so that a backslash in front of one joins the lines. -/
theorem Escape.Fits.head_ne {e : Escape} {rest : List UInt8} (h : e.Fits rest) :
    (e.bytes ++ rest).head? ≠ some lineFeed := by
  cases e with
  | letter c v =>
    have hall : ∀ e ∈ letterEscapes, asciiByte e.1 ≠ lineFeed := by decide
    exact fun hb => hall _ h (Option.some.inj hb)
  | hexadecimal digits => exact fun hb => absurd (Option.some.inj hb) (by decide)
  | octal digits =>
    obtain ⟨b, digits, rfl⟩ := List.exists_cons_of_ne_nil h.1
    rintro hb
    obtain rfl := Option.some.inj hb
    exact absurd (h.2.2.1 _ List.mem_cons_self) (by decide)

/-- **An item is read in front of the items behind it** (`StringItem.Fits`). -/
theorem scanString_item {i : StringItem} {bs v : List UInt8} {n : Nat} (hi : i.Fits bs)
    (h : scanString bs = .ok v n) :
    scanString (i.bytes ++ bs) = .ok (i.value ++ v) (i.bytes.length + n) := by
  cases i with
  | plain b =>
    obtain ⟨hquote, hslash, hfeed⟩ := hi
    rw [StringItem.bytes, List.singleton_append, scanString, if_neg hquote, if_neg hfeed,
      if_neg hslash, h]
    rfl
  | joined =>
    rw [StringItem.bytes, List.cons_append, List.singleton_append, scanString, if_neg (by decide),
      if_neg (by decide), if_pos rfl, if_pos List.head?_cons, List.drop_one, List.tail_cons, h]
    rfl
  | escape e =>
    have he := Escape.Fits.scanEscape hi
    rw [StringItem.bytes, List.cons_append, scanString, if_neg (by decide), if_neg (by decide),
      if_pos rfl, if_neg (Escape.Fits.head_ne hi), he]
    simp only [Scanned.ok, List.drop_left]
    rw [h, List.length_cons, Nat.add_comm e.bytes.length]
    rfl

/-- What the grammar accepts is read, up to what is left behind it. -/
theorem StringBody.scanString {rest bs : List UInt8} {is : List StringItem}
    (h : StringBody rest is bs) : ∃ n, scanString bs = .ok (is.flatMap StringItem.value) n ∧
      n + rest.length = bs.length := by
  induction h with
  | close =>
    refine ⟨1, ?_, Nat.add_comm _ _⟩
    rw [TypeLedger.scanString, if_pos rfl]
    rfl
  | @item i is bs hi _ ih =>
    obtain ⟨n, hs, hn⟩ := ih
    refine ⟨i.bytes.length + n, scanString_item hi hs, ?_⟩
    rw [Nat.add_assoc, hn, List.length_append]

/-- What is read is accepted by the grammar. The induction is on the scan, which reads one item at a
time. -/
theorem exists_of_scanString {bs v : List UInt8} {n : Nat} (h : scanString bs = .ok v n) :
    ∃ rest is, StringBody rest is bs ∧ v = is.flatMap StringItem.value ∧
      n + rest.length = bs.length := by
  fun_induction scanString bs generalizing v n with
  | case1 => cases h
  | case2 bs =>
    obtain ⟨rfl, rfl⟩ := scanned_ok_inj h
    exact ⟨bs, [], .close, rfl, Nat.add_comm _ _⟩
  | case3 => cases h
  | case4 bs hhead _ _ ih =>
    obtain ⟨v', m, hs, rfl, rfl⟩ := Scanned.eq_ok_of_behind h
    obtain ⟨rest, is, hbody, rfl, hm⟩ := ih hs
    obtain ⟨bs, rfl⟩ : ∃ r, bs = lineFeed :: r := List.head?_eq_some_iff.1 hhead
    refine ⟨rest, .joined :: is, .item trivial hbody, rfl, ?_⟩
    rw [List.drop_one, List.tail_cons] at hm
    rw [Nat.add_assoc, hm, Nat.add_comm]
    rfl
  | case5 => cases h
  | case6 bs hhead escape w he =>
    rename_i ih
    obtain ⟨v', m, hs, rfl, rfl⟩ := Scanned.eq_ok_of_behind h
    obtain ⟨rest, is, hbody, rfl, hm⟩ := ih hs
    have hescape : scanEscape bs = .ok w escape.width := congrArg (Scanned.mk · escape.width) he
    obtain ⟨e, behind, rfl, hfits, rfl, hwidth⟩ := scanEscape_eq_ok_iff.1 hescape
    rw [hwidth, List.drop_left] at hbody hm
    refine ⟨rest, .escape e :: is, .item hfits hbody, rfl, ?_⟩
    rw [List.length_cons, List.length_append, ← hm]
    omega
  | case7 b bs hquote hfeed hslash ih =>
    obtain ⟨v', m, hs, rfl, rfl⟩ := Scanned.eq_ok_of_behind h
    obtain ⟨rest, is, hbody, rfl, hm⟩ := ih hs
    refine ⟨rest, .plain b :: is, .item ⟨hquote, hslash, hfeed⟩ hbody, rfl, ?_⟩
    rw [List.length_cons, ← hm]
    omega

/-- **A string is read exactly if the grammar accepts it** (`StringBody`), up to where its items
end. -/
theorem scanString_eq_ok_iff {bs v : List UInt8} {n : Nat} : scanString bs = .ok v n ↔
    ∃ rest is, StringBody rest is bs ∧ v = is.flatMap StringItem.value ∧
      n + rest.length = bs.length := by
  refine ⟨exists_of_scanString, ?_⟩
  rintro ⟨rest, is, hbody, rfl, hn⟩
  obtain ⟨m, hs, hm⟩ := hbody.scanString
  obtain rfl : m = n := by omega
  exact hs

/-- **A string literal is read exactly if it is a sequence of items up to its closing quote**
(`StringBody`). The token has the values of the items (`StringItem.value`), one behind the other,
and what is left stands behind the quote. -/
theorem scan_string (bs : List UInt8) (k : TokenKind) (n : Nat) :
    scanToken (asciiByte '"') bs = .ok k n ↔
      ∃ rest is, StringBody rest is bs ∧ k = .stringLit (is.flatMap StringItem.value) ∧
        n + rest.length = bs.length + 1 := by
  have hplain : scanToken (asciiByte '"') bs = (scanString bs).behind 1 .stringLit := by
    have hquote : scanPlain (asciiByte '"') bs = (scanString bs).behind 1 .stringLit := by
      rw [scanPlain, if_pos rfl]
    unfold scanToken
    split
    · rw [if_neg fun hw => absurd hw.1 (by decide), hquote]
    · exact hquote
  rw [hplain]
  constructor
  · intro h
    obtain ⟨v, m, hs, rfl, rfl⟩ := Scanned.eq_ok_of_behind h
    obtain ⟨rest, is, hbody, rfl, hm⟩ := scanString_eq_ok_iff.1 hs
    exact ⟨rest, is, hbody, rfl, by omega⟩
  · rintro ⟨rest, is, hbody, rfl, hn⟩
    obtain ⟨m, hs, hm⟩ := hbody.scanString
    obtain rfl : n = 1 + m := by omega
    rw [hs]
    rfl

/-- A hexadecimal escape takes three digits here and keeps the lower two, and an octal one leaves
the eight alone. -/
example : (scanToken (asciiByte '"') "\\x141\\1018\\\n\";".toUTF8.toList).outcome =
    .ok (.stringLit "AA8".toUTF8.toList) := by decide +kernel

end TypeLedger
