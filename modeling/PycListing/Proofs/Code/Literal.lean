import PycListing.Code.Literal
import PycListing.Proofs.Code.Within
import PycListing.Proofs.Text.Numeral
import PycListing.Proofs.Text.Quoted

/-! # Literals are unambiguous

Values that hold no float, no complex number and no unit are told apart by their literals
(`PycListing.Value.literal_inj`). A literal can be followed by the end of the text or by one of
the marks of an enclosing literal (`PycListing.Value.Ends`); two literals with such a rest that
read the same belong to one value, and leave the same rest. The induction is on the parts of one
of the values; the first character of a literal tells its form.
-/

namespace PycListing.Value

open Text (isNumeral isNumeral_of_mem toString_append_inj toString_int_ne_nil)

/-! ## Values without floats and units -/

/-- A value other than a float, a complex number or a unit. Long integers are those of the legacy
era, in decimal. -/
def Plain (era : Era) : Value → Prop
  | .long text => era = .legacy ∧ ∃ n : Int, text = toString n
  | .float _ => False
  | .complex _ _ => False
  | .code _ => False
  | _ => True

/-- A value that has only plain values within it, itself included. -/
def AllPlain (era : Era) (value : Value) : Prop :=
  ∀ inner, Within inner value → inner.Plain era

variable {era : Era}

theorem AllPlain.itself {value : Value} (plain : value.AllPlain era) : value.Plain era :=
  plain value .itself

theorem AllPlain.part {whole part : Value} (plain : whole.AllPlain era)
    (member : part ∈ whole.parts) : part.AllPlain era :=
  fun inner within => plain inner (.part member within)

theorem AllPlain.of_parts {value : Value} (plain : value.Plain era)
    (parts : ∀ part ∈ value.parts, part.AllPlain era) : value.AllPlain era := by
  intro inner within
  rcases within_iff.mp within with rfl | ⟨part, member, inPart⟩
  · exact plain
  · exact parts part member inner inPart

/-! ## What follows a literal -/

/-- The marks that can follow a literal inside another one. -/
def marks : List Char :=
  [',', ')', ']', '\x7d', ':']

theorem forall_mem_marks {good : Char → Prop} :
    (∀ c ∈ marks, good c) ↔ good ',' ∧ good ')' ∧ good ']' ∧ good '\x7d' ∧ good ':' := by
  simp only [marks, List.forall_mem_cons, List.not_mem_nil, false_imp_iff, implies_true, and_true]

/-- The rest of a text behind a literal. -/
def Ends (rest : List Char) : Prop :=
  ∀ c ∈ rest.head?, c ∈ marks

theorem ends_nil : Ends [] :=
  nofun

theorem ends_cons {c : Char} (mark : c ∈ marks) (rest : List Char) : Ends (c :: rest) := by
  rintro _ ⟨⟩
  exact mark

/-- A rest that starts with a character of some kind is no end, if no mark is of this kind. -/
theorem Ends.not_cons {c : Char} {rest : List Char} (ends : Ends (c :: rest)) (other : c ∉ marks) :
    False :=
  other (ends c rfl)

theorem Ends.not_numeral {rest : List Char} (ends : Ends rest) :
    ∀ c ∈ rest.head?, isNumeral c = false := by
  have apart : ∀ c ∈ marks, isNumeral c = false := forall_mem_marks.mpr (by decide)
  exact fun c front => apart c (ends c front)

/-! ## Texts of values -/

def text (era : Era) (value : Value) : List Char :=
  (value.literal era).toList

def pairText (era : Era) (pair : Value × Value) : List Char :=
  text era pair.1 ++ ':' :: ' ' :: text era pair.2

/-- Texts one after another, with a comma and a blank between them. -/
def listed (texts : List (List Char)) : List Char :=
  [',', ' '].intercalate texts

theorem toList_commaSeparated (items : List Value) :
    (commaSeparated (literals era items)).toList = listed (items.map (text era)) := by
  have same : (literals era items).map String.toList = items.map (text era) := by
    induction items with
    | nil => rfl
    | cons item items ih =>
        rw [literals, List.map_cons, ih]
        rfl
  rw [commaSeparated, String.toList_intercalate, same]
  rfl

theorem toList_enclosed (front back : String) (items : List Value) :
    (front ++ commaSeparated (literals era items) ++ back).toList =
      front.toList ++ (listed (items.map (text era)) ++ back.toList) := by
  rw [String.toList_append, String.toList_append, toList_commaSeparated, List.append_assoc]

theorem toList_commaSeparated_pairs (pairs : List (Value × Value)) :
    (commaSeparated (pairLiterals era pairs)).toList = listed (pairs.map (pairText era)) := by
  have same : (pairLiterals era pairs).map String.toList = pairs.map (pairText era) := by
    induction pairs with
    | nil => rfl
    | cons pair pairs ih =>
        rw [pairLiterals, List.map_cons, ih, String.toList_append, String.toList_append,
          List.append_assoc]
        rfl
  rw [commaSeparated, String.toList_intercalate, same]
  rfl

theorem length_literals (items : List Value) : (literals era items).length = items.length := by
  induction items with
  | nil => rfl
  | cons item items ih => rw [literals, List.length_cons, List.length_cons, ih]

theorem isEmpty_literals (items : List Value) : (literals era items).isEmpty = items.isEmpty := by
  cases items <;> rfl

/-- What closes the literal of a tuple. -/
def tupleEnd (items : List Value) : List Char :=
  if items.length = 1 then [',', ')'] else [')']

/-! ## The grammar of literals -/

/-- What the first character of a literal tells of it. -/
inductive Form where
  | null
  | none
  | true
  | false
  | stopIteration
  | ellipsis
  | number
  | quoted
  | markedBytes
  | markedText
  | tuple
  | list
  | braces
  | setCall
  | frozensetCall
  /-- No literal has this form. -/
  | other
  deriving DecidableEq

def formOf (c : Char) : Form :=
  if isNumeral c then .number
  else match c with
    | '<' => .null
    | 'N' => .none
    | 'T' => .true
    | 'F' => .false
    | 'S' => .stopIteration
    | 'E' => .ellipsis
    | '\'' => .quoted
    | '"' => .quoted
    | 'b' => .markedBytes
    | 'u' => .markedText
    | '(' => .tuple
    | '[' => .list
    | '\x7b' => .braces
    | 's' => .setCall
    | 'f' => .frozensetCall
    | _ => .other

/-- **The grammar of literals.** How the literal of a plain value is put together, with its
form. -/
inductive Spelled (era : Era) : Form → Value → List Char → Prop where
  | null : Spelled era .null .null "<NULL>".toList
  | none : Spelled era .none .none "None".toList
  | true : Spelled era .true (.bool true) "True".toList
  | false : Spelled era .false (.bool false) "False".toList
  | stopIteration : Spelled era .stopIteration .stopIteration "StopIteration".toList
  | ellipsis : Spelled era .ellipsis .ellipsis "Ellipsis".toList
  | int (n : Int) : Spelled era .number (.int n) (toString n).toList
  | long (legacy : era = .legacy) (n : Int) :
      Spelled era .number (.long (toString n)) ((toString n).toList ++ ['L'])
  | markedBytes (modern : era = .modern) (content : List UInt8) :
      Spelled era .markedBytes (.bytes content) ('b' :: (Text.quoteBytes content).toList)
  | bytes (legacy : era = .legacy) (content : List UInt8) :
      Spelled era .quoted (.bytes content) (Text.quoteBytes content).toList
  | markedText (legacy : era = .legacy) (content : String) :
      Spelled era .markedText (.str content) ('u' :: (Text.quoteText content).toList)
  | text (modern : era = .modern) (content : String) :
      Spelled era .quoted (.str content) (Text.quoteText content).toList
  | tuple (items : List Value) :
      Spelled era .tuple (.tuple items) ('(' :: (listed (items.map (text era)) ++ tupleEnd items))
  | list (items : List Value) :
      Spelled era .list (.list items) ('[' :: (listed (items.map (text era)) ++ [']']))
  | dict (pairs : List (Value × Value)) :
      Spelled era .braces (.dict pairs) ('\x7b' :: (listed (pairs.map (pairText era)) ++ ['\x7d']))
  | emptySet : Spelled era .setCall (.set []) "set()".toList
  | set (modern : era = .modern) {items : List Value} (some : items ≠ []) :
      Spelled era .braces (.set items) ('\x7b' :: (listed (items.map (text era)) ++ ['\x7d']))
  | legacySet (legacy : era = .legacy) {items : List Value} (some : items ≠ []) :
      Spelled era .setCall (.set items)
        ("set([".toList ++ (listed (items.map (text era)) ++ [']', ')']))
  | emptyFrozenset : Spelled era .frozensetCall (.frozenset []) "frozenset()".toList
  | frozenset (modern : era = .modern) {items : List Value} (some : items ≠ []) :
      Spelled era .frozensetCall (.frozenset items)
        ("frozenset(\x7b".toList ++ (listed (items.map (text era)) ++ ['\x7d', ')']))
  | legacyFrozenset (legacy : era = .legacy) {items : List Value} (some : items ≠ []) :
      Spelled era .frozensetCall (.frozenset items)
        ("frozenset([".toList ++ (listed (items.map (text era)) ++ [']', ')']))

theorem toList_setLiteral {items : List Value} (some : items ≠ []) :
    (setLiteral era (literals era items)).toList = match era with
      | .modern => '\x7b' :: (listed (items.map (text era)) ++ ['\x7d'])
      | .legacy => "set([".toList ++ (listed (items.map (text era)) ++ [']', ')']) := by
  have filled : ¬(literals era items).isEmpty = Bool.true := by
    rwa [isEmpty_literals, List.isEmpty_iff]
  cases era with
  | modern =>
      rw [setLiteral, if_neg filled]
      exact toList_enclosed _ _ items
  | legacy =>
      rw [setLiteral, if_neg filled]
      exact toList_enclosed _ _ items

theorem toList_frozensetLiteral {items : List Value} (some : items ≠ []) :
    (frozensetLiteral era (literals era items)).toList = match era with
      | .modern => "frozenset(\x7b".toList ++ (listed (items.map (text era)) ++ ['\x7d', ')'])
      | .legacy => "frozenset([".toList ++ (listed (items.map (text era)) ++ [']', ')']) := by
  have filled : ¬(literals era items).isEmpty = Bool.true := by
    rwa [isEmpty_literals, List.isEmpty_iff]
  cases era with
  | modern =>
      rw [frozensetLiteral, if_neg filled]
      exact toList_enclosed _ _ items
  | legacy =>
      rw [frozensetLiteral, if_neg filled]
      exact toList_enclosed _ _ items

/-- The literal of a plain value is put together by the grammar. -/
theorem exists_spelled {value : Value} (plain : value.Plain era) :
    ∃ form, Spelled era form value (text era value) := by
  cases value with
  | null => exact ⟨_, .null⟩
  | none => exact ⟨_, .none⟩
  | bool b => cases b with
    | true => exact ⟨_, .true⟩
    | false => exact ⟨_, .false⟩
  | stopIteration => exact ⟨_, .stopIteration⟩
  | ellipsis => exact ⟨_, .ellipsis⟩
  | int n => exact ⟨_, .int n⟩
  | long digits =>
      obtain ⟨rfl, n, rfl⟩ := plain
      have same : text .legacy (.long (toString n)) = (toString n).toList ++ ['L'] := by
        change (toString n ++ "L").toList = _
        rw [String.toList_append]
        rfl
      rw [same]
      exact ⟨_, .long rfl n⟩
  | bytes content =>
      cases era with
      | modern =>
          have same : text .modern (.bytes content) = 'b' :: (Text.quoteBytes content).toList := by
            change ("b" ++ Text.quoteBytes content).toList = _
            rw [String.toList_append]
            rfl
          rw [same]
          exact ⟨_, .markedBytes rfl content⟩
      | legacy =>
          have same : text .legacy (.bytes content) = (Text.quoteBytes content).toList := by
            change ("" ++ Text.quoteBytes content).toList = _
            rw [String.empty_append]
          rw [same]
          exact ⟨_, .bytes rfl content⟩
  | str content =>
      cases era with
      | modern =>
          have same : text .modern (.str content) = (Text.quoteText content).toList := by
            change ("" ++ Text.quoteText content).toList = _
            rw [String.empty_append]
          rw [same]
          exact ⟨_, .text rfl content⟩
      | legacy =>
          have same : text .legacy (.str content) = 'u' :: (Text.quoteText content).toList := by
            change ("u" ++ Text.quoteText content).toList = _
            rw [String.toList_append]
            rfl
          rw [same]
          exact ⟨_, .markedText rfl content⟩
  | tuple items =>
      have same : text era (.tuple items) =
          '(' :: (listed (items.map (text era)) ++ tupleEnd items) := by
        change (tupleLiteral (literals era items)).toList = _
        rw [tupleLiteral, toList_enclosed, length_literals, apply_ite String.toList]
        rfl
      rw [same]
      exact ⟨_, .tuple items⟩
  | list items =>
      have same : text era (.list items) = '[' :: (listed (items.map (text era)) ++ [']']) := by
        change ("[" ++ commaSeparated (literals era items) ++ "]").toList = _
        exact toList_enclosed _ _ items
      rw [same]
      exact ⟨_, .list items⟩
  | dict pairs =>
      have same : text era (.dict pairs) =
          '\x7b' :: (listed (pairs.map (pairText era)) ++ ['\x7d']) := by
        change ("\x7b" ++ commaSeparated (pairLiterals era pairs) ++ "\x7d").toList = _
        rw [String.toList_append, String.toList_append, toList_commaSeparated_pairs]
        rfl
      rw [same]
      exact ⟨_, .dict pairs⟩
  | set items =>
      by_cases empty : items = []
      · subst empty
        exact ⟨_, .emptySet⟩
      · have same : text era (.set items) = _ := toList_setLiteral empty
        rw [same]
        cases era with
        | modern => exact ⟨_, .set rfl empty⟩
        | legacy => exact ⟨_, .legacySet rfl empty⟩
  | frozenset items =>
      by_cases empty : items = []
      · subst empty
        exact ⟨_, .emptyFrozenset⟩
      · have same : text era (.frozenset items) = _ := toList_frozensetLiteral empty
        rw [same]
        cases era with
        | modern => exact ⟨_, .frozenset rfl empty⟩
        | legacy => exact ⟨_, .legacyFrozenset rfl empty⟩
  | float => cases plain
  | complex => cases plain
  | code => cases plain

/-- The first character of a literal shows its form. -/
theorem Spelled.shows {form : Form} {value : Value} {chars : List Char}
    (spelled : Spelled era form value chars) : ∃ c rest, chars = c :: rest ∧ formOf c = form := by
  have quoted (plain : Char → Bool) (content : List Char) :
      ∃ c rest, Text.quoteChars plain content = c :: rest ∧ formOf c = .quoted := by
    refine ⟨_, _, rfl, ?_⟩
    rcases Text.quoteFor_eq content with single | double
    · rw [single]
      rfl
    · rw [double]
      rfl
  have number (n : Int) : ∃ c rest, (toString n).toList = c :: rest ∧ formOf c = .number := by
    obtain ⟨c, rest, split⟩ := List.exists_cons_of_ne_nil (toString_int_ne_nil n)
    have numeral : isNumeral c = Bool.true := isNumeral_of_mem (split ▸ List.mem_cons_self)
    exact ⟨c, rest, split, if_pos numeral⟩
  cases spelled with
  | int n => exact number n
  | long _ n =>
      obtain ⟨c, rest, split, shown⟩ := number n
      exact ⟨c, rest ++ ['L'], by rw [split, List.cons_append], shown⟩
  | bytes _ content =>
      rw [Text.quoteBytes, String.toList_ofList]
      exact quoted _ _
  | text _ content =>
      rw [Text.quoteText, String.toList_ofList]
      exact quoted _ _
  | _ => exact ⟨_, _, rfl, rfl⟩

theorem Spelled.form_eq {form another : Form} {value second : Value}
    {chars others rest more : List Char} (spelled : Spelled era form value chars)
    (otherSpelled : Spelled era another second others) (same : chars ++ rest = others ++ more) :
    form = another := by
  obtain ⟨c, front, rfl, rfl⟩ := spelled.shows
  obtain ⟨d, back, rfl, rfl⟩ := otherSpelled.shows
  rw [(List.cons.inj same).1]

theorem Spelled.form_ne_other {form : Form} {value : Value} {chars : List Char}
    (spelled : Spelled era form value chars) : form ≠ .other := by
  cases spelled <;> exact nofun

/-- No literal starts like what can follow one. -/
theorem not_ends {value : Value} (plain : value.Plain era) (rest : List Char) :
    ¬Ends (text era value ++ rest) := by
  obtain ⟨form, spelled⟩ := exists_spelled plain
  obtain ⟨c, more, split, shown⟩ := spelled.shows
  intro ends
  rw [split] at ends
  have apart : ∀ c ∈ marks, formOf c = .other := forall_mem_marks.mpr (by decide)
  exact spelled.form_ne_other (shown.symm.trans (apart c (ends c rfl)))

/-! ## Texts that are told apart -/

/-- The texts of two things, with what can follow them, are the same only for the same things. -/
def Apart {α : Type} (write : α → List Char) (first second : α) : Prop :=
  ∀ {rest more : List Char}, Ends rest → Ends more → write first ++ rest = write second ++ more →
    first = second ∧ rest = more

theorem Apart.symm {α : Type} {write : α → List Char} {first second : α}
    (apart : Apart write first second) : Apart write second first := by
  intro rest more ends otherEnds same
  obtain ⟨rfl, rfl⟩ := apart otherEnds ends same.symm
  exact ⟨rfl, rfl⟩

/-- A rest that does not go on with another item. -/
def Closes (rest : List Char) : Prop :=
  Ends rest ∧ ∀ more, rest ≠ ',' :: ' ' :: more

theorem closes_cons {c : Char} (mark : c ∈ marks) (closing : c ≠ ',') (rest : List Char) :
    Closes (c :: rest) :=
  ⟨ends_cons mark rest, fun _ same => closing (List.cons.inj same).1⟩

theorem closes_tupleEnd (items : List Value) (rest : List Char) :
    Closes (tupleEnd items ++ rest) := by
  unfold tupleEnd
  split
  · refine ⟨ends_cons (by decide) _, fun more same => ?_⟩
    have second := (List.cons.inj (List.cons.inj same).2).1
    cases second
  · exact closes_cons (by decide) (by decide) rest

/-- What follows the first of some texts in a sequence of them. -/
def behind (texts : List (List Char)) (rest : List Char) : List Char :=
  if texts.isEmpty then rest else ',' :: ' ' :: (listed texts ++ rest)

theorem listed_cons_append (first : List Char) (texts : List (List Char)) (rest : List Char) :
    listed (first :: texts) ++ rest = first ++ behind texts rest := by
  cases texts with
  | nil => exact congrArg (· ++ rest) (List.append_nil first)
  | cons second texts =>
      rw [listed, List.intercalate_cons_cons, List.append_assoc, List.append_assoc]
      rfl

theorem ends_behind {rest : List Char} (ends : Ends rest) (texts : List (List Char)) :
    Ends (behind texts rest) := by
  unfold behind
  split
  · exact ends
  · exact ends_cons (by decide) _

theorem behind_ne_colon {c : Char} {texts : List (List Char)} {rest more : List Char}
    (noColon : c ≠ ':') : behind texts (c :: rest) ≠ ':' :: more := by
  unfold behind
  split
  · exact fun same => noColon (List.cons.inj same).1
  · have noComma : ',' ≠ ':' := by decide
    exact fun same => noComma (List.cons.inj same).1

/-- A sequence of texts is told apart if its items are. The induction is on the items of one of
the two sequences, and compares them from the front. -/
theorem listed_inj {α : Type} {write : α → List Char} {items others : List α}
    (apart : ∀ item ∈ items, ∀ another ∈ others, Apart write item another)
    (proper : ∀ item ∈ items ++ others, ∀ rest, ¬Ends (write item ++ rest))
    {rest more : List Char} (closes : Closes rest) (otherCloses : Closes more)
    (same : listed (items.map write) ++ rest = listed (others.map write) ++ more) :
    items = others ∧ rest = more := by
  induction items generalizing others with
  | nil =>
      cases others with
      | nil => exact ⟨rfl, same⟩
      | cons another others =>
          rw [List.map_cons, listed_cons_append] at same
          change rest = _ at same
          exact absurd (same ▸ closes.1) (proper another List.mem_cons_self _)
  | cons item items ih =>
      cases others with
      | nil =>
          rw [List.map_cons, listed_cons_append] at same
          change _ = more at same
          exact absurd (same ▸ otherCloses.1) (proper item List.mem_cons_self _)
      | cons another others =>
          rw [List.map_cons, List.map_cons, listed_cons_append, listed_cons_append] at same
          obtain ⟨rfl, follows⟩ := apart item List.mem_cons_self another List.mem_cons_self
            (ends_behind closes.1 _) (ends_behind otherCloses.1 _) same
          simp only [behind, List.isEmpty_map] at follows
          have apartRest : ∀ left ∈ items, ∀ right ∈ others, Apart write left right :=
            fun left inItems right inOthers => apart left (.tail _ inItems) right (.tail _ inOthers)
          have properRest : ∀ left ∈ items ++ others, ∀ rest, ¬Ends (write left ++ rest) := by
            intro left member
            rw [List.mem_append] at member
            apply proper left
            simp only [List.mem_append, List.mem_cons]
            tauto
          cases items with
          | nil =>
              cases others with
              | nil => exact ⟨rfl, follows⟩
              | cons next others => exact absurd follows (closes.2 _)
          | cons next items =>
              cases others with
              | nil => exact absurd follows.symm (otherCloses.2 _)
              | cons next' others =>
                  have inner := (List.cons.inj (List.cons.inj follows).2).2
                  obtain ⟨equal, left⟩ := ih apartRest properRest inner
                  exact ⟨congrArg (item :: ·) equal, left⟩

/-- The entries of a dict are told apart if their keys and their values are. -/
theorem apart_pairText {first second : Value × Value} (keys : Apart (text era) first.1 second.1)
    (values : Apart (text era) first.2 second.2) : Apart (pairText era) first second := by
  intro rest more ends otherEnds same
  rw [pairText, pairText, List.append_assoc, List.append_assoc] at same
  obtain ⟨key, tail⟩ := keys (ends_cons (by decide) _) (ends_cons (by decide) _) same
  have inner := (List.cons.inj (List.cons.inj tail).2).2
  obtain ⟨value, left⟩ := values ends otherEnds inner
  exact ⟨Prod.ext key value, left⟩

/-- The entries of a dict are not the items of a set. -/
theorem listed_pairs_ne {pairs : List (Value × Value)} {items : List Value} (some : items ≠ [])
    (apart : ∀ pair ∈ pairs, ∀ item ∈ items, Apart (text era) pair.1 item)
    (plain : ∀ item ∈ items, item.Plain era) {rest more : List Char} :
    listed (pairs.map (pairText era)) ++ '\x7d' :: rest ≠
      listed (items.map (text era)) ++ '\x7d' :: more := by
  intro same
  obtain ⟨item, items, rfl⟩ := List.exists_cons_of_ne_nil some
  rw [List.map_cons, listed_cons_append] at same
  cases pairs with
  | nil =>
      change '\x7d' :: rest = _ at same
      have ends : Ends ('\x7d' :: rest) := ends_cons (by decide) rest
      exact not_ends (plain item List.mem_cons_self) _ (same ▸ ends)
  | cons pair pairs =>
      rw [List.map_cons, listed_cons_append, pairText, List.append_assoc] at same
      have closing : Ends ('\x7d' :: more) := ends_cons (by decide) more
      obtain ⟨_, tail⟩ := apart pair List.mem_cons_self item List.mem_cons_self
        (ends_cons (by decide) _) (ends_behind closing _) same
      exact behind_ne_colon (by decide) tail.symm

/-! ## Unique readability -/

theorem quoteText_append_inj {content another : String} {rest more : List Char}
    (same : (Text.quoteText content).toList ++ rest = (Text.quoteText another).toList ++ more) :
    content = another ∧ rest = more := by
  have read := congrArg Text.readQuoted same
  rw [Text.readQuoted_quoteText, Text.readQuoted_quoteText, Option.some.injEq, Prod.mk.injEq]
    at read
  exact ⟨String.toList_inj.mp read.1, read.2⟩

theorem quoteBytes_append_inj {content another : List UInt8} {rest more : List Char}
    (same : (Text.quoteBytes content).toList ++ rest = (Text.quoteBytes another).toList ++ more) :
    content = another ∧ rest = more := by
  have read := congrArg Text.readQuoted same
  rw [Text.readQuoted_quoteBytes, Text.readQuoted_quoteBytes, Option.some.injEq, Prod.mk.injEq]
    at read
  exact ⟨Text.ofNat_toNat_injective.list_map read.1, read.2⟩

/-- A number of at most 64 bits is not a long one, which goes on with its mark. -/
theorem toString_append_ne_long {n m : Int} {rest more : List Char} (ends : Ends rest) :
    (toString n).toList ++ rest ≠ (toString m).toList ++ ['L'] ++ more := by
  intro same
  rw [List.append_assoc] at same
  have moreOut : ∀ c ∈ ('L' :: more).head?, isNumeral c = Bool.false := by
    rintro _ ⟨⟩
    rfl
  obtain ⟨_, rfl⟩ := toString_append_inj ends.not_numeral moreOut same
  have noMark : 'L' ∉ marks := by decide
  exact ends.not_cons noMark

theorem append_cons_ne (front : List Char) {c d : Char} (differ : c ≠ d) {rest more : List Char} :
    front ++ c :: rest ≠ front ++ d :: more :=
  fun same => differ (List.cons.inj (List.append_cancel_left same)).1

section Sequences

variable {items others : List Value} {close another rest more : List Char}

/-- Sequences of values between what opens and what closes them, given that their items are told
apart. -/
theorem enclosed_inj (front : List Char)
    (apart : ∀ item ∈ items, ∀ other ∈ others, Apart (text era) item other)
    (plain : ∀ item ∈ items ++ others, item.Plain era) (closes : Closes (close ++ rest))
    (otherCloses : Closes (another ++ more))
    (same : front ++ (listed (items.map (text era)) ++ close) ++ rest =
      front ++ (listed (others.map (text era)) ++ another) ++ more) :
    items = others ∧ close ++ rest = another ++ more := by
  simp only [List.append_assoc] at same
  exact listed_inj apart (fun item member => not_ends (plain item member)) closes otherCloses
    (List.append_cancel_left same)

end Sequences

theorem key_mem_parts {pair : Value × Value} {pairs : List (Value × Value)} (member : pair ∈ pairs) :
    pair.1 ∈ (Value.dict pairs).parts :=
  mem_parts_dict.mpr ⟨pair, member, .inl rfl⟩

theorem value_mem_parts {pair : Value × Value} {pairs : List (Value × Value)}
    (member : pair ∈ pairs) : pair.2 ∈ (Value.dict pairs).parts :=
  mem_parts_dict.mpr ⟨pair, member, .inr rfl⟩

/-- Dicts are told apart if their keys and values are. -/
theorem dict_inj {pairs others : List (Value × Value)} {rest more : List Char}
    (apart : ∀ part ∈ (Value.dict pairs).parts, ∀ other ∈ (Value.dict others).parts,
      Apart (text era) part other)
    (plain : ∀ part ∈ (Value.dict pairs).parts ++ (Value.dict others).parts, part.Plain era)
    (same : '\x7b' :: (listed (pairs.map (pairText era)) ++ ['\x7d']) ++ rest =
      '\x7b' :: (listed (others.map (pairText era)) ++ ['\x7d']) ++ more) :
    pairs = others ∧ rest = more := by
  have inner := (List.cons.inj same).2
  rw [List.append_eq, List.append_eq, List.append_assoc, List.append_assoc] at inner
  have entries : ∀ pair ∈ pairs, ∀ entry ∈ others, Apart (pairText era) pair entry :=
    fun pair member entry inOthers => apart_pairText
      (apart _ (key_mem_parts member) _ (key_mem_parts inOthers))
      (apart _ (value_mem_parts member) _ (value_mem_parts inOthers))
  have proper : ∀ pair ∈ pairs ++ others, ∀ rest, ¬Ends (pairText era pair ++ rest) := by
    intro pair member rest
    rw [pairText, List.append_assoc]
    refine not_ends (plain _ ?_) _
    rw [List.mem_append] at member ⊢
    exact member.imp key_mem_parts key_mem_parts
  have closing (rest : List Char) : Closes ('\x7d' :: rest) :=
    closes_cons (by decide) (by decide) rest
  obtain ⟨rfl, left⟩ := listed_inj entries proper (closing rest) (closing more) inner
  exact ⟨rfl, (List.cons.inj left).2⟩

/-- A dict is not a set, though both stand in braces. -/
theorem dict_ne_set {pairs : List (Value × Value)} {items : List Value} (some : items ≠ [])
    (apart : ∀ part ∈ (Value.dict pairs).parts, ∀ item ∈ items, Apart (text era) part item)
    (plain : ∀ item ∈ items, item.Plain era) {rest more : List Char} :
    '\x7b' :: (listed (pairs.map (pairText era)) ++ ['\x7d']) ++ rest ≠
      '\x7b' :: (listed (items.map (text era)) ++ ['\x7d']) ++ more := by
  intro same
  have inner := (List.cons.inj same).2
  rw [List.append_eq, List.append_eq, List.append_assoc, List.append_assoc] at inner
  exact listed_pairs_ne some (fun pair member => apart _ (key_mem_parts member)) plain inner

/-- Two spellings of one form are told apart, if the parts of one value are from those of the
other. -/
theorem apart_of_spelled {form : Form} {value another : Value} {chars others : List Char}
    (spelled : Spelled era form value chars) (otherSpelled : Spelled era form another others)
    (apart : ∀ part ∈ value.parts, ∀ other ∈ another.parts, Apart (text era) part other)
    (plain : ∀ part ∈ value.parts ++ another.parts, part.Plain era) {rest more : List Char}
    (ends : Ends rest) (otherEnds : Ends more) (same : chars ++ rest = others ++ more) :
    value = another ∧ rest = more := by
  have closing {c : Char} {rest : List Char} (mark : c ∈ marks) (noComma : c ≠ ',') :
      Closes (c :: rest) := closes_cons mark noComma rest
  cases spelled with
  | null | none | true | false | stopIteration | ellipsis =>
      cases otherSpelled
      exact ⟨rfl, List.append_cancel_left same⟩
  | int n =>
      cases otherSpelled with
      | int m =>
          obtain ⟨rfl, left⟩ := toString_append_inj ends.not_numeral otherEnds.not_numeral same
          exact ⟨rfl, left⟩
      | long => exact absurd same (toString_append_ne_long ends)
  | long legacy n =>
      cases otherSpelled with
      | int => exact absurd same.symm (toString_append_ne_long otherEnds)
      | long _ m =>
          rw [List.append_assoc, List.append_assoc] at same
          have markOut {rest : List Char} : ∀ c ∈ (['L'] ++ rest).head?, isNumeral c = Bool.false := by
            rintro _ ⟨⟩
            rfl
          obtain ⟨rfl, left⟩ := toString_append_inj markOut markOut same
          exact ⟨rfl, List.append_cancel_left left⟩
  | markedBytes _ content =>
      cases otherSpelled with
      | markedBytes =>
          obtain ⟨rfl, left⟩ := quoteBytes_append_inj (List.cons.inj same).2
          exact ⟨rfl, left⟩
  | bytes legacy content =>
      cases otherSpelled with
      | bytes =>
          obtain ⟨rfl, left⟩ := quoteBytes_append_inj same
          exact ⟨rfl, left⟩
      | text modern =>
          rw [legacy] at modern
          cases modern
  | markedText _ content =>
      cases otherSpelled with
      | markedText =>
          obtain ⟨rfl, left⟩ := quoteText_append_inj (List.cons.inj same).2
          exact ⟨rfl, left⟩
  | text modern content =>
      cases otherSpelled with
      | text =>
          obtain ⟨rfl, left⟩ := quoteText_append_inj same
          exact ⟨rfl, left⟩
      | bytes legacy =>
          rw [modern] at legacy
          cases legacy
  | tuple items =>
      cases otherSpelled with
      | tuple others =>
          obtain ⟨rfl, left⟩ := enclosed_inj ['('] apart plain
            (closes_tupleEnd items rest) (closes_tupleEnd others more) same
          exact ⟨rfl, List.append_cancel_left left⟩
  | list items =>
      cases otherSpelled with
      | list others =>
          obtain ⟨rfl, left⟩ := enclosed_inj ['['] apart plain (closing (by decide) (by decide))
            (closing (by decide) (by decide)) same
          exact ⟨rfl, List.append_cancel_left left⟩
  | dict pairs =>
      cases otherSpelled with
      | dict others =>
          obtain ⟨rfl, left⟩ := dict_inj apart plain same
          exact ⟨rfl, left⟩
      | set _ some =>
          refine absurd same (dict_ne_set some apart fun item member => ?_)
          exact plain item (List.mem_append_right _ member)
  | emptySet =>
      cases otherSpelled with
      | emptySet => exact ⟨rfl, List.append_cancel_left same⟩
      | legacySet => exact absurd same (append_cons_ne ['s', 'e', 't', '('] (by decide))
  | set modern some =>
      cases otherSpelled with
      | set _ _ =>
          obtain ⟨rfl, left⟩ := enclosed_inj ['\x7b'] apart plain
            (closing (by decide) (by decide)) (closing (by decide) (by decide)) same
          exact ⟨rfl, List.append_cancel_left left⟩
      | dict pairs =>
          refine absurd same.symm (dict_ne_set some (fun part member item inItems => ?_) ?_)
          · exact Apart.symm (apart item inItems part member)
          · exact fun item member => plain item (List.mem_append_left _ member)
  | legacySet legacy some =>
      cases otherSpelled with
      | emptySet => exact absurd same (append_cons_ne ['s', 'e', 't', '('] (by decide))
      | legacySet =>
          obtain ⟨rfl, left⟩ := enclosed_inj _ apart plain
            (closing (by decide) (by decide)) (closing (by decide) (by decide)) same
          exact ⟨rfl, List.append_cancel_left left⟩
  | emptyFrozenset =>
      cases otherSpelled with
      | emptyFrozenset => exact ⟨rfl, List.append_cancel_left same⟩
      | frozenset =>
          exact absurd same (append_cons_ne ("frozenset(".toList) (by decide))
      | legacyFrozenset =>
          exact absurd same (append_cons_ne ("frozenset(".toList) (by decide))
  | frozenset modern some =>
      cases otherSpelled with
      | emptyFrozenset => exact absurd same (append_cons_ne ("frozenset(".toList) (by decide))
      | frozenset =>
          obtain ⟨rfl, left⟩ := enclosed_inj _ apart plain
            (closing (by decide) (by decide)) (closing (by decide) (by decide)) same
          exact ⟨rfl, List.append_cancel_left left⟩
      | legacyFrozenset legacy =>
          rw [modern] at legacy
          cases legacy
  | legacyFrozenset legacy some =>
      cases otherSpelled with
      | emptyFrozenset => exact absurd same (append_cons_ne ("frozenset(".toList) (by decide))
      | frozenset modern =>
          rw [legacy] at modern
          cases modern
      | legacyFrozenset =>
          obtain ⟨rfl, left⟩ := enclosed_inj _ apart plain
            (closing (by decide) (by decide)) (closing (by decide) (by decide)) same
          exact ⟨rfl, List.append_cancel_left left⟩

/-- **Unique readability.** The literals of plain values are told apart, whatever follows them. The
induction is on the parts of one of the values. -/
theorem apart_text {value another : Value} (plain : value.AllPlain era)
    (otherPlain : another.AllPlain era) : Apart (text era) value another := by
  induction value using parts_induction generalizing another with
  | step value ih =>
  intro rest more ends otherEnds same
  obtain ⟨form, spelled⟩ := exists_spelled plain.itself
  obtain ⟨otherForm, otherSpelled⟩ := exists_spelled otherPlain.itself
  obtain rfl := spelled.form_eq otherSpelled same
  refine apart_of_spelled spelled otherSpelled (fun part member other inOther => ?_) ?_ ends
    otherEnds same
  · exact ih part member (plain.part member) (otherPlain.part inOther)
  · intro part member
    rcases List.mem_append.mp member with inValue | inOther
    · exact (plain.part inValue).itself
    · exact (otherPlain.part inOther).itself

/-- **Literals are unambiguous.** In each era, two values with the same literal are the same, if
neither holds a float, a complex number or a unit at any depth, and the long integers in them are
those of the legacy era. -/
theorem literal_inj {value another : Value} (plain : value.AllPlain era)
    (otherPlain : another.AllPlain era) :
    value.literal era = another.literal era ↔ value = another := by
  refine ⟨fun same => ?_, fun same => same ▸ rfl⟩
  have texts : text era value ++ [] = text era another ++ [] := by rw [text, text, same]
  exact (apart_text plain otherPlain ends_nil ends_nil texts).1

/-- A set is not a dict, though both stand in braces. -/
theorem literal_inj_set_dict :
    let first : Value := .set [.int 1, .tuple [.str "a", .bytes [0x61]]]
    let second : Value := .dict [(.int 1, .tuple [.str "a", .bytes [0x61]])]
    first.AllPlain .modern ∧ second.AllPlain .modern ∧
      first.literal .modern ≠ second.literal .modern := by
  have atom {value : Value} (plain : value.Plain .modern) (noParts : value.parts = []) :
      value.AllPlain .modern := .of_parts plain (noParts ▸ List.forall_mem_nil _)
  have pair : (Value.tuple [.str "a", .bytes [0x61]]).AllPlain .modern := by
    refine .of_parts trivial (List.forall_mem_cons.mpr ⟨atom trivial rfl, ?_⟩)
    exact List.forall_mem_cons.mpr ⟨atom trivial rfl, List.forall_mem_nil _⟩
  have both : ∀ part ∈ [Value.int 1, .tuple [.str "a", .bytes [0x61]]], part.AllPlain .modern :=
    List.forall_mem_cons.mpr ⟨atom trivial rfl,
      List.forall_mem_cons.mpr ⟨pair, List.forall_mem_nil _⟩⟩
  have first : (Value.set [.int 1, .tuple [.str "a", .bytes [0x61]]]).AllPlain .modern :=
    .of_parts trivial both
  have second : (Value.dict [(.int 1, .tuple [.str "a", .bytes [0x61]])]).AllPlain .modern :=
    .of_parts trivial both
  exact ⟨first, second, mt (literal_inj first second).mp nofun⟩

end PycListing.Value
