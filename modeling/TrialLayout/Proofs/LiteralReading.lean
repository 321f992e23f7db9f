import Mathlib.Tactic.SplitIfs
import TrialLayout.Proofs.Emission
import TrialLayout.Proofs.Literals

/-!
# Reading literals back

A literal is read from left to right: a backslash and what belongs to it stand for one character,
or for none, any other character stands for itself, and the first quote without a backslash ends
the literal. A backslash takes in as many digits as follow it. So what stands behind a number
matters: it must not begin with a digit (`NoDigit`), which is what the empty escape is for.

* `readLiteral`: the text that a literal stands for, and what is left behind it.
* `readBody_escape`: one escaped character is read back, whatever follows that begins with no
  digit.

Result: `literals_read_back`.
-/

namespace TrialLayout

namespace Text

/-! ## The reader -/

/-- The character that has a code point. -/
def charOfCode? (code : Nat) : Option Char :=
  if code.isValidChar then some (Char.ofNat code) else none

/-- The character that a backslash and a letter or mark stand for. -/
def unescape? (quote c : Char) : Option Char :=
  if c = '\\' then some '\\'
  else if c = 'n' then some '\n'
  else if c = 't' then some '\t'
  else if c = 'r' then some '\r'
  else if c = quote then some quote
  else none

/-- What a backslash in front of a text stands for, and what is left of the text. All digits that
follow belong to it. -/
def readEscape (quote : Char) : List Char → Option (List Char × List Char)
  | [] => none
  | c :: rest =>
      if c.isDigit then
        let code := Nat.ofDigitChars 10 ((c :: rest).takeWhile Char.isDigit) 0
        (charOfCode? code).map fun d => ([d], (c :: rest).dropWhile Char.isDigit)
      else if c = '&' then some ([], rest)
      else (unescape? quote c).map fun d => ([d], rest)

theorem length_of_readEscape {quote : Char} {text here left : List Char}
    (read : readEscape quote text = some (here, left)) : left.length < text.length := by
  cases text with
  | nil => cases read
  | cons c rest =>
    rw [readEscape] at read
    split at read
    next digit =>
      obtain ⟨d, -, same⟩ := Option.map_eq_some_iff.mp read
      cases same
      rw [List.dropWhile_cons_of_pos digit]
      exact Nat.lt_succ_of_le (List.dropWhile_suffix _).length_le
    next =>
      split at read
      · cases read
        exact Nat.lt_succ_self _
      · obtain ⟨d, -, same⟩ := Option.map_eq_some_iff.mp read
        cases same
        exact Nat.lt_succ_self _

/-- What a literal stands for behind its opening quote, and what is left behind its closing one. -/
def readBody (quote : Char) : List Char → Option (List Char × List Char)
  | [] => none
  | c :: rest =>
      if c = quote then some ([], rest)
      else if c = '\\' then
        match _ : readEscape quote rest with
        | none => none
        | some (here, left) => (readBody quote left).map fun (more, left) => (here ++ more, left)
      else (readBody quote rest).map fun (more, left) => (c :: more, left)
termination_by text => text.length
decreasing_by
  · exact Nat.lt_succ_of_lt (length_of_readEscape ‹_›)
  · exact Nat.lt_succ_self _

/-- What a literal stands for, and what is left behind it. -/
def readLiteral (quote : Char) : List Char → Option (List Char × List Char)
  | [] => none
  | c :: rest => if c = quote then readBody quote rest else none

/-! ## Reading one character -/

/-- The marks that a literal stands between. -/
def IsQuote (quote : Char) : Prop := quote = '"' ∨ quote = '\''

/-- A text that does not begin with a digit. -/
def NoDigit (text : List Char) : Prop := text.head?.any Char.isDigit = false

variable {quote c : Char} {text here left : List Char}

theorem readBody_quote (quote : Char) (text : List Char) :
    readBody quote (quote :: text) = some ([], text) := by
  rw [readBody, if_pos rfl]

theorem readBody_plain (open' : c ≠ quote) (plain : c ≠ '\\') (text : List Char) :
    readBody quote (c :: text) =
      (readBody quote text).map fun (more, left) => (c :: more, left) := by
  rw [readBody, if_neg open', if_neg plain]

theorem readBody_backslash (open' : '\\' ≠ quote)
    (read : readEscape quote text = some (here, left)) :
    readBody quote ('\\' :: text) =
      (readBody quote left).map fun (more, left) => (here ++ more, left) := by
  rw [readBody, if_neg open', if_pos rfl]
  split
  next failed => cases failed.symm.trans read
  next here' left' read' =>
    cases read'.symm.trans read
    rfl

/-- All digits of a number are taken in, and nothing else. -/
theorem readEscape_digits {digits : List Char} (nonempty : digits ≠ [])
    (each : ∀ d ∈ digits, d.isDigit = true) (next : NoDigit left) :
    readEscape quote (digits ++ left) =
      (charOfCode? (Nat.ofDigitChars 10 digits 0)).map fun d => ([d], left) := by
  have stop : left.takeWhile Char.isDigit = [] ∧ left.dropWhile Char.isDigit = left := by
    cases left with
    | nil => exact ⟨rfl, rfl⟩
    | cons c rest =>
      have other : c.isDigit = false := next
      simp [other]
  have taken : (digits ++ left).takeWhile Char.isDigit = digits := by
    rw [List.takeWhile_append_of_pos each, stop.1, List.append_nil]
  have dropped : (digits ++ left).dropWhile Char.isDigit = left := by
    rw [List.dropWhile_append_of_pos each, stop.2]
  cases digits with
  | nil => exact absurd rfl nonempty
  | cons d rest =>
    rw [List.cons_append] at taken dropped ⊢
    rw [readEscape, if_pos (each d List.mem_cons_self), taken, dropped]

theorem charOfCode?_toNat (c : Char) : charOfCode? c.toNat = some c := by
  have valid : c.toNat.isValidChar := c.valid
  rw [charOfCode?, if_pos valid, Char.ofNat_toNat]

/-- A character by number is read back. -/
theorem readEscape_number (c : Char) (next : NoDigit left) :
    readEscape quote (c.toNat.repr.toList ++ left) = some ([c], left) := by
  rw [Nat.toList_repr, readEscape_digits (Nat.toDigits_ne_nil) (fun d mem =>
    Nat.isDigit_of_mem_toDigits (by decide) (by decide) mem) next,
    Nat.ofDigitChars_toDigits (by decide) (by decide), charOfCode?_toNat]
  rfl

/-- A letter or mark behind a backslash is read back. -/
theorem readEscape_mark {mark : Char} (letter : mark.isDigit = false ∧ mark ≠ '&')
    (stands : unescape? quote mark = some c) (left : List Char) :
    readEscape quote (mark :: left) = some ([c], left) := by
  rw [readEscape, if_neg (by simp [letter.1]), if_neg letter.2, stands]
  rfl

/-- How a character is written in a literal: by a letter or mark, by number, or as it stands. -/
theorem escape_cases (isQuote : IsQuote quote) (c : Char) :
    (∃ mark, escape quote c = ['\\', mark] ∧ unescape? quote mark = some c ∧
      mark.isDigit = false ∧ mark ≠ '&' ∧ isControl mark = false) ∨
    (escape quote c = '\\' :: c.toNat.repr.toList ∧ isNumbered c = true) ∨
    (escape quote c = [c] ∧ c ≠ quote ∧ c ≠ '\\' ∧ isControl c = false) := by
  unfold escape
  split_ifs with backslash newline tab carriage same control
  · subst backslash
    exact .inl ⟨'\\', rfl, rfl, by decide⟩
  · subst newline
    exact .inl ⟨'n', rfl, rfl, by decide⟩
  · subst tab
    exact .inl ⟨'t', rfl, rfl, by decide⟩
  · subst carriage
    exact .inl ⟨'r', rfl, rfl, by decide⟩
  · subst same
    exact .inl ⟨c, rfl, by rcases isQuote with rfl | rfl <;> decide⟩
  · exact .inr (.inl ⟨rfl, by simp [isNumbered, control, newline, tab, carriage]⟩)
  · exact .inr (.inr ⟨rfl, same, backslash, Bool.eq_false_iff.mpr control⟩)

/-- An escaped character is read back. -/
theorem readBody_escape (isQuote : IsQuote quote) (c : Char)
    (next : isNumbered c = true → NoDigit text) :
    readBody quote (escape quote c ++ text) =
      (readBody quote text).map fun (more, left) => (c :: more, left) := by
  have open' : '\\' ≠ quote := by rcases isQuote with rfl | rfl <;> decide
  obtain ⟨mark, shape, stands, letter, other, -⟩ | ⟨shape, numbered⟩ |
    ⟨shape, notQuote, plain, -⟩ := escape_cases isQuote c
  · rw [shape]
    exact readBody_backslash open' (readEscape_mark ⟨letter, other⟩ stands text)
  · rw [shape]
    exact readBody_backslash open' (readEscape_number c (next numbered))
  · rw [shape]
    exact readBody_plain notQuote plain text

theorem readBody_emptyEscape (open' : '\\' ≠ quote) (text : List Char) :
    readBody quote ('\\' :: '&' :: text) = readBody quote text := by
  have read : readEscape quote ('&' :: text) = some ([], text) := rfl
  rw [readBody_backslash open' read]
  simp

/-! ## Reading literals -/

/-- An escaped character begins with a digit only if it is one. -/
theorem noDigit_escape (isQuote : IsQuote quote) (other : c.isDigit = false) (text : List Char) :
    NoDigit (escape quote c ++ text) := by
  obtain ⟨mark, shape, -⟩ | ⟨shape, -⟩ | ⟨shape, -⟩ := escape_cases isQuote c
  · rw [shape]
    rfl
  · rw [shape]
    rfl
  · rw [shape]
    exact other

theorem readBody_escapeString (s left : List Char) :
    readBody '"' (escapeString s ++ '"' :: left) = some (s, left) := by
  induction s with
  | nil => exact readBody_quote '"' left
  | cons c rest ih =>
    have isQuote : IsQuote '"' := .inl rfl
    rw [escapeString, List.append_assoc, List.append_assoc]
    have step {text : List Char} (read : readBody '"' text = some (rest, left))
        (next : isNumbered c = true → NoDigit text) :
        readBody '"' (escape '"' c ++ text) = some (c :: rest, left) := by
      rw [readBody_escape isQuote c next, read]
      rfl
    unfold digitGuard
    split
    next guarded =>
      refine step ?_ fun _ => rfl
      exact (readBody_emptyEscape (by decide) _).trans ih
    next free =>
      refine step ih fun numbered => ?_
      simp only [numbered, Bool.true_and, Bool.not_eq_true] at free
      cases rest with
      | nil => rfl
      | cons d more =>
        rw [escapeString, List.append_assoc, List.append_assoc]
        exact noDigit_escape isQuote free _

theorem readLiteral_stringLiteral (s r : String) :
    readLiteral '"' (stringLiteral s ++ r).toList = some (s.toList, r.toList) := by
  have shape : (stringLiteral s ++ r).toList =
      '"' :: (escapeString s.toList ++ '"' :: r.toList) := by
    simp [stringLiteral]
  rw [shape, readLiteral, if_pos rfl, readBody_escapeString]

theorem readLiteral_charLiteral (c : Char) (r : String) :
    readLiteral '\'' (charLiteral c ++ r).toList = some ([c], r.toList) := by
  have shape : (charLiteral c ++ r).toList = '\'' :: (escape '\'' c ++ '\'' :: r.toList) := by
    simp [charLiteral]
  have next : NoDigit ('\'' :: r.toList) := rfl
  rw [shape, readLiteral, if_pos rfl, readBody_escape (.inr rfl) c fun _ => next, readBody_quote]
  rfl

/-! ## No control characters -/

theorem isControl_of_isDigit {d : Char} (digit : d.isDigit = true) : isControl d = false := by
  rw [Char.isDigit, Bool.and_eq_true, decide_eq_true_eq, decide_eq_true_eq] at digit
  have low : 48 ≤ d.toNat := digit.1
  have high : d.toNat ≤ 57 := digit.2
  simp only [isControl, Bool.or_eq_false_iff, Bool.and_eq_false_iff, decide_eq_false_iff_not]
  omega

theorem all_escape (isQuote : IsQuote quote) (c : Char) :
    (escape quote c).all (!isControl ·) = true := by
  obtain ⟨mark, shape, -, -, -, printable⟩ | ⟨shape, -⟩ | ⟨shape, -, -, printable⟩ :=
    escape_cases isQuote c
  · simp only [shape, List.all_cons, List.all_nil, printable]
    rfl
  · rw [shape, List.all_cons, Nat.toList_repr, Bool.and_eq_true, List.all_eq_true]
    refine ⟨by decide, fun d mem => ?_⟩
    rw [isControl_of_isDigit (Nat.isDigit_of_mem_toDigits (by decide) (by decide) mem)]
    rfl
  · simp [shape, printable]

theorem all_escapeString (s : List Char) : (escapeString s).all (!isControl ·) = true := by
  induction s with
  | nil => rfl
  | cons c rest ih =>
    have guarded : (digitGuard c rest).all (!isControl ·) = true := by
      unfold digitGuard
      split <;> rfl
    simp only [escapeString, List.all_append, all_escape (.inl rfl) c, guarded, ih, Bool.and_self]

theorem all_stringLiteral (s : String) : (stringLiteral s).toList.all (!isControl ·) = true := by
  have quoted : ('"' :: escapeString s.toList ++ ['"']).all (!isControl ·) = true := by
    rw [List.cons_append, List.all_cons, List.all_append, all_escapeString]
    rfl
  rw [stringLiteral, String.toList_ofList]
  exact quoted

theorem all_charLiteral (c : Char) : (charLiteral c).toList.all (!isControl ·) = true := by
  rw [charLiteral, String.toList_ofList, List.cons_append, List.all_cons, List.all_append,
    all_escape (.inr rfl)]
  rfl

end Text

/-! ## Main statement -/

/-- Writes a text in one piece: the pending indentation, and the text as it stands. -/
def Printer.writePiece (p : Printer) (content : String) : Printer :=
  { p.settle with
    output := p.settle.output ++ content
    column := p.settle.column + content.length }

theorem Printer.write_eq_writePiece (p : Printer) {content : String} (nonempty : content ≠ "")
    (oneLine : Text.OneLine content) : p.write content = p.writePiece content := by
  rw [write_settle p nonempty oneLine, write_of_inLine p.settle_atLineStart oneLine]
  rfl

open Text

/-- Literals read back, whatever they stand for and whatever follows them: reading a literal gives
exactly the text, or the character, that it was made of, and leaves exactly what follows it. So
different texts have different literals. No literal contains a control character, a newline among
them, and so a printer writes it in one piece. -/
theorem literals_read_back :
    (∀ s r : String, readLiteral '"' (stringLiteral s ++ r).toList = some (s.toList, r.toList)) ∧
    (∀ (c : Char) (r : String),
      readLiteral '\'' (charLiteral c ++ r).toList = some ([c], r.toList)) ∧
    Function.Injective stringLiteral ∧ Function.Injective charLiteral ∧
    (∀ s : String, (stringLiteral s).toList.all (!isControl ·) = true ∧
      ∀ p : Printer, p.write (stringLiteral s) = p.writePiece (stringLiteral s)) ∧
    ∀ c : Char, (charLiteral c).toList.all (!isControl ·) = true ∧
      ∀ p : Printer, p.write (charLiteral c) = p.writePiece (charLiteral c) := by
  refine ⟨readLiteral_stringLiteral, readLiteral_charLiteral, ?_, ?_,
    fun s => ⟨all_stringLiteral s, fun p => ?_⟩, fun c => ⟨all_charLiteral c, fun p => ?_⟩⟩
  · intro s t same
    have read := readLiteral_stringLiteral s ""
    rw [same, readLiteral_stringLiteral] at read
    exact String.toList_inj.mp (congrArg Prod.fst (Option.some.inj read)).symm
  · intro c d same
    have read := readLiteral_charLiteral c ""
    rw [same, readLiteral_charLiteral] at read
    cases read
    rfl
  · exact p.write_eq_writePiece (by simp [stringLiteral, ← String.toList_inj])
      (stringLiteral_oneLine s)
  · exact p.write_eq_writePiece (by simp [charLiteral, ← String.toList_inj])
      (charLiteral_oneLine c)

end TrialLayout
