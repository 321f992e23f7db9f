import TrialLayout.Text.Literal
import TrialLayout.Tree.Shape

/-!
# Tokens

The tokens of a tree are read off the tree alone, in source order: names, literals, keywords,
operators, separators, and the marks around and between them. No thresholds and no layout
enter.

`Woven` says that a text consists of given tokens in order, each in one piece, with nothing
but spaces and newlines around them, and that two tokens stand next to each other without a
gap only if one of the two is a mark.
-/

namespace TrialLayout

/-! ## Definitions -/

/-- Delimiters that come in pairs. -/
inductive Delimiter where
  | paren
  | unboxed
  | bracket
  | brace
deriving DecidableEq, Repr

/-- A token. All but words are marks. -/
inductive Token where
  /-- A name, a literal, a keyword, an operator or a separator. -/
  | word (text : String)
  | opening (delimiter : Delimiter)
  | closing (delimiter : Delimiter)
  | comma
  /-- The minus in front of a negated operand. -/
  | minus
  /-- The backslash of a lambda. -/
  | backslash
  /-- The mark in front of a quoted value name. -/
  | quote
  /-- The mark in front of a quoted type name. -/
  | typeQuote
  /-- The mark on either side of an identifier used as an operator. -/
  | backtick
  /-- The dot after the binders of a quantifier. -/
  | dot
deriving DecidableEq, Repr

namespace Token

/-- The characters of a token. -/
def text : Token → String
  | word text => text
  | opening .paren => "("
  | opening .unboxed => "(#"
  | opening .bracket => "["
  | opening .brace => "\x7b"
  | closing .paren => ")"
  | closing .unboxed => "#)"
  | closing .bracket => "]"
  | closing .brace => "\x7d"
  | comma => ","
  | minus => "-"
  | backslash => "\\"
  | quote => "'"
  | typeQuote => "''"
  | backtick => "`"
  | dot => "."

/-- A mark may touch the token before it and the token after it. -/
def isMark : Token → Bool
  | word _ => false
  | _ => true

end Token

/-- The characters that stand between tokens. -/
def Text.IsGap (c : Char) : Prop := c = ' ' ∨ c = '\n'

instance (c : Char) : Decidable (Text.IsGap c) := inferInstanceAs (Decidable (_ ∨ _))

/-- `Woven free tokens text free'`: the text consists of the tokens in order, with gaps around
them. The flags say whether a token may follow without a gap, before the text and after it: it
may after a gap and after a mark, and a mark always may.

* `done`: nothing is left. The flag after the text may be understated.
* `gap`: one more space or newline.
* `token`: one token in one piece. -/
inductive Woven : Bool → List Token → List Char → Bool → Prop
  | done {free free' : Bool} : (free' = true → free = true) → Woven free [] [] free'
  | gap {free free' : Bool} {tokens : List Token} {text : List Char} (c : Char) :
      Text.IsGap c → Woven true tokens text free' → Woven free tokens (c :: text) free'
  | token {free free' : Bool} {tokens : List Token} {text : List Char} (t : Token) :
      free = true ∨ t.isMark = true → Woven t.isMark tokens text free' →
      Woven free (t :: tokens) (t.text.toList ++ text) free'

/-! ## Tokens of types -/

/-- The delimiter of a tuple. -/
def Boxity.delimiter : Boxity → Delimiter
  | boxed => .paren
  | unboxed => .unboxed

/-- Lists of tokens with a comma between each two. -/
def commaSeparated (items : List (List Token)) : List Token := [Token.comma].intercalate items

/-- Lists of tokens between delimiters, with a comma between each two. -/
def enclosed (delimiter : Delimiter) (items : List (List Token)) : List Token :=
  .opening delimiter :: commaSeparated items ++ [.closing delimiter]

/-- The tokens of an operator. -/
def Op.tokens : Op String → List Token
  | symbol name => [.word name]
  | quoted name => [.backtick, .word name, .backtick]

/-- The tokens of a quantifier; without binders there is none. -/
def binderTokens : List String → List Token
  | [] => []
  | binders => .word "forall" :: binders.map .word ++ [.dot]

/-- The tokens of the assertions of a class context: one bare, several in parentheses. -/
def assertionTokens : List (List Token) → List Token
  | [single] => single
  | several => enclosed .paren several

/-- The tokens of a class context with its arrow; without assertions there is none. -/
def contextTokens : List (List Token) → List Token
  | [] => []
  | assertions => assertionTokens assertions ++ [.word "=>"]

mutual

/-- The tokens of a type. -/
def Ty.tokens : Ty → List Token
  | .con name => [.word name]
  | .var name => [.word name]
  | .app func arg => func.tokens ++ arg.tokens
  | .arrow arg result => arg.tokens ++ .word "->" :: result.tokens
  | .tuple boxity items => enclosed boxity.delimiter (Ty.tokensOf items)
  | .list element => enclosed .bracket [element.tokens]
  | .paren inner => enclosed .paren [inner.tokens]
  | .quantified binders context body =>
      binderTokens binders ++ contextTokens (Ty.tokensOf context) ++ body.tokens

/-- The tokens of each of several types. -/
def Ty.tokensOf : List Ty → List (List Token)
  | [] => []
  | t :: rest => t.tokens :: Ty.tokensOf rest

end

/-! ## Tokens of expressions and declarations -/

mutual

/-- The tokens of an expression. -/
def Expr.tokens : Expr → List Token
  | .var name => [.word name]
  | .con name => [.word name]
  | .int value => [.word value.repr]
  | .frac digits => [.word digits]
  | .char value => [.word (Text.charLiteral value)]
  | .string value => [.word (Text.stringLiteral value)]
  | .varQuote name => [.quote, .word name]
  | .typeQuote name => [.typeQuote, .word name]
  | .wildcard => [.word "_"]
  | .app func arg => func.tokens ++ arg.tokens
  | .binary left op right => left.tokens ++ op.tokens ++ right.tokens
  | .neg operand => .minus :: operand.tokens
  | .leftSection operand op => enclosed .paren [operand.tokens ++ op.tokens]
  | .rightSection op operand => enclosed .paren [op.tokens ++ operand.tokens]
  | .lambda params body =>
      .backslash :: (Expr.tokensOf params).flatten ++ .word "->" :: body.tokens
  | .tuple boxity items => enclosed boxity.delimiter (Expr.tokensOf items)
  | .list items => enclosed .bracket (Expr.tokensOf items)
  | .paren inner => enclosed .paren [inner.tokens]
  | .cond condition yes no =>
      .word "if" :: condition.tokens ++ .word "then" :: yes.tokens ++ .word "else" :: no.tokens
  | .caseOf scrutinee alts =>
      .word "case" :: scrutinee.tokens ++ .word "of" :: (Alt.tokensOf alts).flatten
  | .block stmts => .word "do" :: (Stmt.tokensOf stmts).flatten
  | .letIn decls body =>
      .word "let" :: (Decl.tokensOf decls).flatten ++ .word "in" :: body.tokens
  | .record con fields => .word con :: enclosed .brace (Field.tokensOf fields)
  | .update record fields => record.tokens ++ enclosed .brace (Field.tokensOf fields)
  | .annot expr type => expr.tokens ++ .word "::" :: type.tokens

/-- The tokens of each of several expressions. -/
def Expr.tokensOf : List Expr → List (List Token)
  | [] => []
  | e :: rest => e.tokens :: Expr.tokensOf rest

/-- The tokens of a right-hand side whose bodies stand behind `separator`. -/
def Rhs.tokens (separator : String) : Rhs → List Token
  | .plain body => .word separator :: body.tokens
  | .guarded branches => (Branch.tokensOf separator branches).flatten

/-- The tokens of a guarded branch. -/
def Branch.tokens (separator : String) : Branch → List Token
  | .mk guards body =>
      .word "|" :: commaSeparated (Expr.tokensOf guards) ++ .word separator :: body.tokens

/-- The tokens of each of several guarded branches. -/
def Branch.tokensOf (separator : String) : List Branch → List (List Token)
  | [] => []
  | b :: rest => b.tokens separator :: Branch.tokensOf separator rest

/-- The tokens of an alternative. -/
def Alt.tokens : Alt → List Token
  | .mk pattern rhs => pattern.tokens ++ rhs.tokens "->"

/-- The tokens of each of several alternatives. -/
def Alt.tokensOf : List Alt → List (List Token)
  | [] => []
  | a :: rest => a.tokens :: Alt.tokensOf rest

/-- The tokens of a statement. -/
def Stmt.tokens : Stmt → List Token
  | .bind pattern expr => pattern.tokens ++ .word "<-" :: expr.tokens
  | .expr expr => expr.tokens
  | .decls decls => .word "let" :: (Decl.tokensOf decls).flatten

/-- The tokens of each of several statements. -/
def Stmt.tokensOf : List Stmt → List (List Token)
  | [] => []
  | s :: rest => s.tokens :: Stmt.tokensOf rest

/-- The tokens of a declaration. -/
def Decl.tokens : Decl → List Token
  | .signature names type =>
      commaSeparated (names.map fun name => [.word name]) ++ .word "::" :: type.tokens
  | .function name params rhs =>
      .word name :: (Expr.tokensOf params).flatten ++ rhs.tokens "="
  | .pattern pattern rhs => pattern.tokens ++ rhs.tokens "="

/-- The tokens of each of several declarations. -/
def Decl.tokensOf : List Decl → List (List Token)
  | [] => []
  | d :: rest => d.tokens :: Decl.tokensOf rest

/-- The tokens of a record field. -/
def Field.tokens : Field → List Token
  | .mk name value => .word name :: .word "=" :: value.tokens

/-- The tokens of each of several record fields. -/
def Field.tokensOf : List Field → List (List Token)
  | [] => []
  | f :: rest => f.tokens :: Field.tokensOf rest

end

/-- The tokens of a module. -/
def Module.tokens (m : Module) : List Token := (Decl.tokensOf m).flatten

/-! ## Weaving -/

namespace Woven

/-- Where a token may follow less freely, it may follow more freely. -/
theorem free_mono {a b c : Bool} {tokens : List Token} {text : List Char}
    (h : Woven b tokens text c) (hab : b = true → a = true) : Woven a tokens text c := by
  cases h with
  | done hc => exact done (fun hc' => hab (hc hc'))
  | gap ch hch rest => exact gap ch hch rest
  | token t ht rest => exact token t (ht.imp_left hab) rest

theorem append {a b c : Bool} {first second : List Token} {x y : List Char}
    (hx : Woven a first x b) (hy : Woven b second y c) :
    Woven a (first ++ second) (x ++ y) c := by
  induction hx with
  | done hba => exact hy.free_mono hba
  | gap ch hch _ ih => exact gap ch hch (ih hy)
  | token t ht _ ih =>
    rw [List.cons_append, List.append_assoc]
    exact token t ht (ih hy)

/-- The flag after a text may be understated. -/
theorem end_false {a b : Bool} {tokens : List Token} {text : List Char}
    (h : Woven a tokens text b) : Woven a tokens text false := by
  have stop : Woven b [] [] false := done (by simp)
  simpa using h.append stop

theorem word (a : Bool) (text : String) (ha : a = true) :
    Woven a [.word text] text.toList false := by
  have woven : Woven a [.word text] (text.toList ++ []) false := token _ (.inl ha) (done id)
  rwa [List.append_nil] at woven

theorem mark (a : Bool) {t : Token} (ht : t.isMark = true) : Woven a [t] t.text.toList true := by
  have woven : Woven a [t] (t.text.toList ++ []) true := token t (.inr ht) (done fun _ => ht)
  rwa [List.append_nil] at woven

theorem space (a : Bool) : Woven a [] [' '] true := gap ' ' (.inl rfl) (done id)

theorem newline (a : Bool) : Woven a [] ['\n'] true := gap '\n' (.inr rfl) (done id)

/-- Indentation in front of a text changes nothing. -/
theorem indentation {a b : Bool} {tokens : List Token} {text : List Char}
    (h : Woven a tokens text b) (n : Nat) :
    Woven a tokens (List.replicate n ' ' ++ text) b := by
  induction n with
  | zero => exact h
  | succ n ih =>
    rw [List.replicate_succ, List.cons_append]
    exact gap ' ' (.inl rfl) (ih.free_mono fun _ => rfl)

/-- What is left of a woven text without its gaps is what is left of its tokens. -/
theorem filter_gaps {a b : Bool} {tokens : List Token} {text : List Char}
    (h : Woven a tokens text b) :
    text.filter (fun c => ¬ Text.IsGap c) =
      tokens.flatMap fun t => t.text.toList.filter fun c => ¬ Text.IsGap c := by
  induction h with
  | done _ => rfl
  | gap c hc _ ih => rw [List.filter_cons_of_neg (by simpa using hc), ih]
  | token t _ _ ih => rw [List.filter_append, ih, List.flatMap_cons]

end Woven

end TrialLayout
