import PycListing.Text.Quoted
import Mathlib.Data.List.Basic

/-! # Reading quoted literals

A quoted literal is read by the rules of the language: its first character is the quote, a
backslash starts an escape, and the first quote that is not escaped ends it. Inside a literal a
character is spelled in one of three ways (`PycListing.Text.spelling_escapeChar`). What is read from
a literal that was written is its content, and what follows the literal is left
(`PycListing.Text.readQuoted_quoteChars`). No quote but the last one ends the literal
(`PycListing.Text.closingAt_flatMap_escapeChar`), and it shows no control character
(`PycListing.Text.plain_of_mem_quoteChars`).
-/

namespace PycListing.Text

/-! ## Reading -/

def hexDigit? (c : Char) : Option Nat :=
  if c.isDigit then some (c.toNat - '0'.toNat)
  else if 'a' ≤ c && c ≤ 'f' then some (c.toNat - 'a'.toNat + 10)
  else if 'A' ≤ c && c ≤ 'F' then some (c.toNat - 'A'.toNat + 10)
  else none

/-- The character that two hexadecimal digits name. -/
def hexChar? (high low : Char) : Option Char :=
  match hexDigit? high, hexDigit? low with
  | some high, some low => some (Char.ofNat (16 * high + low))
  | _, _ => none

/-- The character that a backslash and another character stand for. -/
def escaped? : Char → Option Char
  | '\\' => some '\\'
  | 'n' => some '\n'
  | 'r' => some '\r'
  | 't' => some '\t'
  | '\'' => some '\''
  | '"' => some '"'
  | _ => none

/-- A character in front of a content that was read. -/
def prepend : Option Char → Option (List Char × List Char) → Option (List Char × List Char)
  | some c, some (content, rest) => some (c :: content, rest)
  | _, _ => none

/-- The content up to the first quote that is not escaped, and what follows the quote. -/
def readTo (quote : Char) : List Char → Option (List Char × List Char)
  | [] => none
  | c :: rest =>
    if c = quote then some ([], rest)
    else if c = '\\' then
      match rest with
      | 'x' :: high :: low :: rest => prepend (hexChar? high low) (readTo quote rest)
      | c :: rest => prepend (escaped? c) (readTo quote rest)
      | [] => none
    else prepend (some c) (readTo quote rest)

/-- The content of a quoted literal, and what follows the literal. -/
def readQuoted : List Char → Option (List Char × List Char)
  | [] => none
  | quote :: rest => if quote = '\'' ∨ quote = '"' then readTo quote rest else none

/-- Where the first quote stands that is not escaped. A backslash that is not escaped itself escapes
the character behind it, whatever that is. -/
def closingAt (quote : Char) : List Char → Option Nat
  | [] => none
  | c :: rest =>
    if c = quote then some 0
    else if c = '\\' then
      match rest with
      | [] => none
      | _ :: rest => (closingAt quote rest).map (· + 2)
    else (closingAt quote rest).map (· + 1)

/-! ## What was written -/

theorem hexDigit?_digitChar {digit : Nat} (small : digit < 16) :
    hexDigit? (Nat.digitChar digit) = some digit := by
  have all : ∀ digit : Fin 16, hexDigit? (Nat.digitChar digit) = some digit.val := by decide
  exact all ⟨digit, small⟩

theorem toList_hex_two {n : Nat} (small : n < 256) :
    (hex 2 n).toList = [Nat.digitChar (n / 16), Nat.digitChar (n % 16)] := by
  have below : n / 16 < 16 := by omega
  by_cases single : n < 16
  · have zero : n / 16 = 0 := by omega
    have same : n % 16 = n := Nat.mod_eq_of_lt single
    simp only [hex, Nat.toDigits_of_lt_base single, zero, same, String.toList_ofList]
    rfl
  · have two : 16 ≤ n := by omega
    simp only [hex, Nat.toDigits_of_base_le (by decide : 1 < 16) two,
      Nat.toDigits_of_lt_base below, String.toList_ofList]
    rfl

theorem hexChar?_toNat {c : Char} (small : c.toNat < 256) :
    hexChar? (Nat.digitChar (c.toNat / 16)) (Nat.digitChar (c.toNat % 16)) = some c := by
  have high : c.toNat / 16 < 16 := by omega
  have low : c.toNat % 16 < 16 := Nat.mod_lt _ (by decide)
  simp only [hexChar?, hexDigit?_digitChar high, hexDigit?_digitChar low, Nat.div_add_mod,
    Char.ofNat_toNat]

variable {plain : Char → Bool} {quote c mark : Char} {rest : List Char}

/-- How a character is spelled inside a literal: by a letter or sign behind a backslash, as itself,
or by its number. -/
inductive Spelling (plain : Char → Bool) (quote c : Char) : List Char → Prop where
  | marked {mark : Char} (names : escaped? mark = some c) : Spelling plain quote c ['\\', mark]
  | itself (stands : plain c = true) (other : c ≠ quote) (noEscape : c ≠ '\\')
      (noBreak : c ≠ '\n') : Spelling plain quote c [c]
  | number (small : c.toNat < 256) : Spelling plain quote c
      ['\\', 'x', Nat.digitChar (c.toNat / 16), Nat.digitChar (c.toNat % 16)]

theorem spelling_escapeChar (isQuote : quote = '\'' ∨ quote = '"')
    (small : plain c = false → c.toNat < 256) :
    Spelling plain quote c (escapeChar plain quote c) := by
  unfold escapeChar
  by_cases backslash : c = '\\'
  · rw [if_pos backslash, backslash]
    exact .marked rfl
  rw [if_neg backslash]
  by_cases newline : c = '\n'
  · rw [if_pos newline, newline]
    exact .marked rfl
  rw [if_neg newline]
  by_cases carriage : c = '\r'
  · rw [if_pos carriage, carriage]
    exact .marked rfl
  rw [if_neg carriage]
  by_cases tab : c = '\t'
  · rw [if_pos tab, tab]
    exact .marked rfl
  rw [if_neg tab]
  by_cases same : c = quote
  · rw [if_pos same, same]
    rcases isQuote with rfl | rfl
    · exact .marked rfl
    · exact .marked rfl
  rw [if_neg same]
  cases stands : plain c with
  | true => exact .itself stands same backslash newline
  | false =>
      rw [toList_hex_two (small stands)]
      exact .number (small stands)

theorem quote_ne_backslash (isQuote : quote = '\'' ∨ quote = '"') : quote ≠ '\\' := by
  rcases isQuote with rfl | rfl <;> decide

/-- The letters and signs behind backslashes are printable, and none of them is the `x` that a
number stands behind. -/
theorem mark_of_escaped? (names : escaped? mark = some c) :
    mark ≠ 'x' ∧ plainInBytes mark = true := by
  unfold escaped? at names
  split at names
  case h_7 => cases names
  all_goals exact ⟨by decide, rfl⟩

theorem plainInBytes_digitChar {digit : Nat} (small : digit < 16) :
    plainInBytes (Nat.digitChar digit) = true := by
  have all : ∀ digit : Fin 16, plainInBytes (Nat.digitChar digit) = true := by decide
  exact all ⟨digit, small⟩

/-! ## What is read -/

theorem readTo_quote : readTo quote (quote :: rest) = some ([], rest) := by
  rw [readTo.eq_def]
  exact if_pos rfl

theorem readTo_plain (other : c ≠ quote) (noEscape : c ≠ '\\') :
    readTo quote (c :: rest) = prepend (some c) (readTo quote rest) := by
  rw [readTo.eq_def]
  simp only [other, noEscape, if_false]

theorem readTo_escape (noEscape : quote ≠ '\\') (other : c ≠ 'x') :
    readTo quote ('\\' :: c :: rest) = prepend (escaped? c) (readTo quote rest) := by
  rw [readTo.eq_def]
  simp only [noEscape.symm, if_false, if_true]
  split
  · rename_i same
    exact absurd (List.cons.inj same).1 other
  · rename_i same
    obtain ⟨rfl, rfl⟩ := List.cons.inj same
    rfl
  · rename_i same
    cases same

theorem readTo_hex (noEscape : quote ≠ '\\') {high low : Char} :
    readTo quote ('\\' :: 'x' :: high :: low :: rest) =
      prepend (hexChar? high low) (readTo quote rest) := by
  rw [readTo.eq_def]
  simp only [noEscape.symm, if_false, if_true]

/-- A character is read back from how it is written inside a literal. -/
theorem readTo_escapeChar (isQuote : quote = '\'' ∨ quote = '"')
    (small : plain c = false → c.toNat < 256) :
    readTo quote (escapeChar plain quote c ++ rest) = prepend (some c) (readTo quote rest) := by
  have noEscape := quote_ne_backslash isQuote
  have spelling := spelling_escapeChar isQuote small
  generalize escapeChar plain quote c = spelled at spelling
  cases spelling with
  | marked names =>
      rw [← names]
      exact readTo_escape noEscape (mark_of_escaped? names).1
  | itself _ other backslash => exact readTo_plain other backslash
  | number small =>
      rw [← hexChar?_toNat small]
      exact readTo_hex noEscape

theorem readTo_flatMap_escapeChar (isQuote : quote = '\'' ∨ quote = '"') {content : List Char}
    (small : ∀ c ∈ content, plain c = false → c.toNat < 256) :
    readTo quote (content.flatMap (escapeChar plain quote) ++ quote :: rest) =
      some (content, rest) := by
  induction content with
  | nil => exact readTo_quote
  | cons c content ih =>
      obtain ⟨first, others⟩ := List.forall_mem_cons.mp small
      rw [List.flatMap_cons, List.append_assoc, readTo_escapeChar isQuote first, ih others]
      rfl

theorem quoteFor_eq (content : List Char) : quoteFor content = '\'' ∨ quoteFor content = '"' := by
  unfold quoteFor
  split
  · exact .inr rfl
  · exact .inl rfl

/-- **Quoted literals read back.** What is read from the literal of some characters is these
characters, whatever follows the literal. -/
theorem readQuoted_quoteChars {content : List Char}
    (small : ∀ c ∈ content, plain c = false → c.toNat < 256) (rest : List Char) :
    readQuoted (quoteChars plain content ++ rest) = some (content, rest) := by
  have isQuote := quoteFor_eq content
  simp only [quoteChars, List.cons_append, List.append_assoc, List.nil_append, readQuoted, isQuote,
    if_true]
  exact readTo_flatMap_escapeChar isQuote small

/-! ## The closing quote -/

theorem closingAt_escaped (noEscape : quote ≠ '\\') :
    closingAt quote ('\\' :: c :: rest) = (closingAt quote rest).map (· + 2) := by
  rw [closingAt.eq_def]
  simp only [noEscape.symm, if_false, if_true]

theorem closingAt_plain (other : c ≠ quote) (noEscape : c ≠ '\\') :
    closingAt quote (c :: rest) = (closingAt quote rest).map (· + 1) := by
  rw [closingAt.eq_def]
  simp only [other, noEscape, if_false]

/-- A character inside a literal does not end it. -/
theorem closingAt_escapeChar (isQuote : quote = '\'' ∨ quote = '"')
    (small : plain c = false → c.toNat < 256) :
    closingAt quote (escapeChar plain quote c ++ rest) =
      (closingAt quote rest).map (· + (escapeChar plain quote c).length) := by
  have noEscape := quote_ne_backslash isQuote
  have spelling := spelling_escapeChar isQuote small
  generalize escapeChar plain quote c = spelled at spelling
  cases spelling with
  | marked => exact closingAt_escaped noEscape
  | itself _ other backslash => exact closingAt_plain other backslash
  | number small =>
      -- The two digits stand behind the escape, and neither of them is a quote or a backslash.
      have digit {n : Nat} (below : n < 16) :
          Nat.digitChar n ≠ quote ∧ Nat.digitChar n ≠ '\\' := by
        have all : ∀ n : Fin 16, Nat.digitChar n ≠ '\'' ∧ Nat.digitChar n ≠ '"' ∧
            Nat.digitChar n ≠ '\\' := by decide
        obtain ⟨single, double, backslash⟩ := all ⟨n, below⟩
        rcases isQuote with rfl | rfl
        · exact ⟨single, backslash⟩
        · exact ⟨double, backslash⟩
      have high := digit (n := c.toNat / 16) (by omega)
      have low := digit (Nat.mod_lt c.toNat (by decide : 0 < 16))
      simp only [List.cons_append, List.nil_append, closingAt_escaped noEscape,
        closingAt_plain high.1 high.2, closingAt_plain low.1 low.2, Option.map_map]
      rfl

/-- The first quote that is not escaped stands behind the whole content. -/
theorem closingAt_flatMap_escapeChar (isQuote : quote = '\'' ∨ quote = '"') {content : List Char}
    (small : ∀ c ∈ content, plain c = false → c.toNat < 256) :
    closingAt quote (content.flatMap (escapeChar plain quote) ++ quote :: rest) =
      some (content.flatMap (escapeChar plain quote)).length := by
  induction content with
  | nil =>
      rw [closingAt.eq_def]
      exact if_pos rfl
  | cons c content ih =>
      obtain ⟨first, others⟩ := List.forall_mem_cons.mp small
      rw [List.flatMap_cons, List.append_assoc, closingAt_escapeChar isQuote first, ih others,
        Option.map_some, List.length_append, Nat.add_comm]

/-! ## The characters of a literal -/

/-- A literal shows only characters that may stand as themselves, where the printable ASCII ones are
among these. -/
theorem plain_of_mem_quoteChars {content : List Char}
    (visible : ∀ c, plainInBytes c = true → plain c = true)
    (small : ∀ c ∈ content, plain c = false → c.toNat < 256) :
    ∀ c ∈ quoteChars plain content, plain c = true := by
  have isQuote := quoteFor_eq content
  have quotePlain : plain (quoteFor content) = true := by
    refine visible _ ?_
    rcases isQuote with same | same <;> rw [same] <;> rfl
  refine List.forall_mem_cons.mpr ⟨quotePlain, List.forall_mem_append.mpr
    ⟨List.forall_mem_flatMap.mpr fun c member => ?_, List.forall_mem_singleton.mpr quotePlain⟩⟩
  have spelling := spelling_escapeChar isQuote (small c member)
  generalize escapeChar plain (quoteFor content) c = spelled at spelling
  have backslash : plain '\\' = true := visible _ rfl
  cases spelling with
  | marked names =>
      simp only [List.forall_mem_cons, List.not_mem_nil, false_imp_iff, implies_true, and_true]
      exact ⟨backslash, visible _ (mark_of_escaped? names).2⟩
  | itself stands => exact List.forall_mem_singleton.mpr stands
  | number small =>
      simp only [List.forall_mem_cons, List.not_mem_nil, false_imp_iff, implies_true, and_true]
      exact ⟨backslash, visible _ rfl, visible _ (plainInBytes_digitChar (by omega)),
        visible _ (plainInBytes_digitChar (Nat.mod_lt _ (by decide)))⟩

/-! ## Texts and byte strings -/

theorem plainInText_of_plainInBytes {c : Char} (printable : plainInBytes c = true) :
    plainInText c = true := by
  simp only [plainInBytes, plainInText, Bool.and_eq_true, decide_eq_true_eq, bne_iff_ne]
    at printable ⊢
  omega

theorem toNat_lt_of_not_plainInText {c : Char} (control : plainInText c = false) :
    c.toNat < 256 := by
  simp only [plainInText, Bool.and_eq_false_iff, decide_eq_false_iff_not, bne_eq_false_iff_eq]
    at control
  omega

theorem readQuoted_quoteText (text : String) (rest : List Char) :
    readQuoted ((quoteText text).toList ++ rest) = some (text.toList, rest) := by
  rw [quoteText, String.toList_ofList]
  exact readQuoted_quoteChars (fun _ _ => toNat_lt_of_not_plainInText) rest

theorem toNat_ofNat_toNat (byte : UInt8) : (Char.ofNat byte.toNat).toNat = byte.toNat := by
  have valid : byte.toNat.isValidChar := .inl (Nat.lt_trans byte.toNat_lt (by decide))
  rw [Char.ofNat, dif_pos valid]
  rfl

theorem toNat_lt_of_mem_map_ofNat {bytes : List UInt8} {c : Char}
    (member : c ∈ bytes.map fun byte => Char.ofNat byte.toNat) : c.toNat < 256 := by
  obtain ⟨byte, _, rfl⟩ := List.mem_map.mp member
  rw [toNat_ofNat_toNat]
  exact byte.toNat_lt

theorem readQuoted_quoteBytes (bytes : List UInt8) (rest : List Char) :
    readQuoted ((quoteBytes bytes).toList ++ rest) =
      some (bytes.map fun byte => Char.ofNat byte.toNat, rest) := by
  rw [quoteBytes, String.toList_ofList]
  exact readQuoted_quoteChars (fun _ member _ => toNat_lt_of_mem_map_ofNat member) rest

theorem ofNat_toNat_injective : Function.Injective fun byte : UInt8 => Char.ofNat byte.toNat := by
  intro first second same
  have numbers := congrArg Char.toNat same
  dsimp only at numbers
  rwa [toNat_ofNat_toNat, toNat_ofNat_toNat, UInt8.toNat_inj] at numbers

/-! ## Evaluation -/

theorem quoteFor_eq_double_iff {content : List Char} :
    quoteFor content = '"' ↔ '\'' ∈ content ∧ '"' ∉ content := by
  simp [quoteFor]

/-- The literal of some characters: its quotes, where it ends, what is read from it and which
characters it shows. -/
theorem quoteChars_evaluates {content : List Char}
    (visible : ∀ c, plainInBytes c = true → plain c = true)
    (small : ∀ c ∈ content, plain c = false → c.toNat < 256) :
    ∃ quote body, quoteChars plain content = quote :: (body ++ [quote]) ∧
      closingAt quote (body ++ [quote]) = some body.length ∧
      readQuoted (quoteChars plain content) = some (content, []) ∧
      (quote = '\'' ∨ quote = '"') ∧ (quote = '"' ↔ '\'' ∈ content ∧ '"' ∉ content) ∧
      ∀ c ∈ quoteChars plain content, plain c = true := by
  have read := readQuoted_quoteChars small []
  rw [List.append_nil] at read
  exact ⟨_, _, rfl, closingAt_flatMap_escapeChar (quoteFor_eq content) small, read,
    quoteFor_eq content, quoteFor_eq_double_iff, plain_of_mem_quoteChars visible small⟩

theorem mem_map_ofNat_iff {bytes : List UInt8} (byte : UInt8) :
    Char.ofNat byte.toNat ∈ bytes.map (fun byte => Char.ofNat byte.toNat) ↔ byte ∈ bytes :=
  List.mem_map_of_injective ofNat_toNat_injective

/-- **Quoted literals evaluate to what they quote**, texts and byte strings alike. A literal is read
back as its content, with nothing left behind it. It stands between two quotes, and the second one
is the first that is not escaped. The quotes are double ones exactly if the content holds an
apostrophe and no double quote. The literal of a text shows no ASCII control character, and that of
a byte string only printable ASCII characters. -/
theorem quoted_evaluate (text : String) (bytes : List UInt8) :
    (∃ quote body, (quoteText text).toList = quote :: (body ++ [quote]) ∧
      closingAt quote (body ++ [quote]) = some body.length ∧
      readQuoted (quoteText text).toList = some (text.toList, []) ∧
      (quote = '\'' ∨ quote = '"') ∧
      (quote = '"' ↔ '\'' ∈ text.toList ∧ '"' ∉ text.toList) ∧
      ∀ c ∈ (quoteText text).toList, 0x20 ≤ c.toNat ∧ c.toNat ≠ 0x7f) ∧
    ∃ quote body content, (quoteBytes bytes).toList = quote :: (body ++ [quote]) ∧
      closingAt quote (body ++ [quote]) = some body.length ∧
      readQuoted (quoteBytes bytes).toList = some (content, []) ∧
      content.map Char.toNat = bytes.map UInt8.toNat ∧
      (quote = '\'' ∨ quote = '"') ∧
      (quote = '"' ↔ 0x27 ∈ bytes ∧ 0x22 ∉ bytes) ∧
      ∀ c ∈ (quoteBytes bytes).toList, 0x20 ≤ c.toNat ∧ c.toNat ≤ 0x7e := by
  constructor
  · have small : ∀ c ∈ text.toList, plainInText c = false → c.toNat < 256 :=
      fun _ _ => toNat_lt_of_not_plainInText
    obtain ⟨quote, body, written, closes, read, isQuote, double, shown⟩ :=
      quoteChars_evaluates (fun _ => plainInText_of_plainInBytes) small
    rw [quoteText, String.toList_ofList]
    refine ⟨quote, body, written, closes, read, isQuote, double, fun c member => ?_⟩
    simpa only [plainInText, Bool.and_eq_true, decide_eq_true_eq, bne_iff_ne] using shown c member
  · have small : ∀ c ∈ bytes.map fun byte => Char.ofNat byte.toNat,
        plainInBytes c = false → c.toNat < 256 := fun _ member _ => toNat_lt_of_mem_map_ofNat member
    obtain ⟨quote, body, written, closes, read, isQuote, double, shown⟩ :=
      quoteChars_evaluates (fun _ => id) small
    rw [quoteBytes, String.toList_ofList]
    refine ⟨quote, body, _, written, closes, read, ?_, isQuote, ?_, fun c member => ?_⟩
    · rw [List.map_map]
      exact List.map_congr_left fun byte _ => toNat_ofNat_toNat byte
    · exact double.trans
        (and_congr (mem_map_ofNat_iff 0x27) (not_congr (mem_map_ofNat_iff 0x22)))
    · have stands := shown c member
      simp only [plainInBytes, Bool.and_eq_true, decide_eq_true_eq] at stands
      omega

/-- Of both quotes the apostrophe encloses, and is escaped. -/
example : quoteText "'\"\x01" = "'\\'\"\\x01'" := by decide

end PycListing.Text
