import TrialLayout.Proofs.Weaving

/-!
# Renderings keep the tokens of a tree

The layout rules are followed through types, expressions, statements, alternatives,
declarations and modules: each of them weaves the tokens of its tree. An expression is
followed from each of the sides its surroundings look at it (`Forms.Weaves`): by itself, as a
statement, and as the spine of an application.

Result: `rendering_weaves_tokens`.
-/

namespace TrialLayout

open Text (OneLine)

/-! ## Brackets, separators and operators -/

theorem Boxity.brackets (b : Boxity) : Brackets b.opening b.closing b.delimiter := by
  cases b with
  | boxed =>
    exact ⟨.mark true (t := .opening .paren) rfl,
      (Spells.mark false (t := .closing .paren) rfl).end_false⟩
  | unboxed =>
    exact ⟨(Spells.mark true (t := .opening .unboxed) rfl).append (.space true),
      ((Spells.space false).append (.mark true (t := .closing .unboxed) rfl)).end_false⟩

theorem Boxity.unit_spells (b : Boxity) : Spells true (enclosed b.delimiter []) b.unit false := by
  cases b with
  | boxed =>
    exact (Spells.mark true (t := .opening .paren) rfl).append
      (Spells.mark true (t := .closing .paren) rfl).end_false
  | unboxed =>
    exact ((Spells.mark true (t := .opening .unboxed) rfl).append (.space true)).append
      (Spells.mark true (t := .closing .unboxed) rfl).end_false

theorem parenBrackets : Brackets "(" ")" .paren := Boxity.brackets .boxed

theorem bracketBrackets : Brackets "[" "]" .bracket :=
  ⟨.mark true (t := .opening .bracket) rfl,
    (Spells.mark false (t := .closing .bracket) rfl).end_false⟩

theorem braceBrackets : Brackets "\x7b" "\x7d" .brace :=
  ⟨.mark true (t := .opening .brace) rfl, (Spells.mark false (t := .closing .brace) rfl).end_false⟩

theorem equalsSeparator : Separator " = " "=" := ⟨.separator "=" (by decide)⟩

theorem arrowSeparator : Separator " -> " "->" := ⟨.separator "->" (by decide)⟩

theorem bindSeparator : Separator " <- " "<-" := ⟨.separator "<-" (by decide)⟩

theorem Op.spelling_spells {op : Op String} (h : OneLine op.name) :
    Spells true op.tokens op.spelling false := by
  cases op with
  | symbol name => exact .word h
  | quoted name =>
    exact ((Spells.mark true (t := .backtick) rfl).append (.word h)).append
      (Spells.mark false (t := .backtick) rfl).end_false

/-- One text between brackets. -/
theorem Brackets.enclose {opening closing text : String} {delimiter : Delimiter}
    {items : List (List Token)} (hb : Brackets opening closing delimiter)
    (h : Spells true (commaSeparated items) text false) :
    Spells true (enclosed delimiter items) (opening ++ text ++ closing) false :=
  (hb.opening_spells.append h).append hb.closing_spells

/-! ## Types -/

namespace Ty

theorem binders_spell {binders : List String} (h : ∀ binder ∈ binders, OneLine binder) :
    Spells true (binders.map .word) (" ".intercalate binders) false := by
  have words : List.Forall₂ (fun text tokens => Spells true tokens text false) binders
      (binders.map fun binder => [.word binder]) := by
    rw [List.forall₂_map_right_iff, List.forall₂_same]
    exact fun binder mem => .word (h binder mem)
  have spelled := Spells.intercalate (.space false) words
  rw [intercalate_nil_eq_flatten] at spelled
  rwa [← List.flatMap_def, ← List.map_eq_flatMap] at spelled

theorem quantifier_spells {binders : List String} (h : ∀ binder ∈ binders, OneLine binder)
    (nonempty : binders ≠ []) :
    Spells true (binderTokens binders) ("forall " ++ " ".intercalate binders ++ ".") true := by
  have forallWord : Spells true [.word "forall"] "forall " true := .keyword "forall" (by decide)
  have spelled := (forallWord.append (binders_spell h)).append (.mark false (t := .dot) rfl)
  cases binders with
  | nil => exact absurd rfl nonempty
  | cons binder rest => exact spelled

mutual

/-- A type on one line spells its tokens. -/
theorem inline_spells : (t : Ty) → t.EveryName OneLine → Spells true t.tokens t.inline false
  | con name, h => .word h
  | var name, h => .word h
  | app func arg, h => by
      have spaced : Spells true func.tokens (func.inline ++ " ") true := by
        simpa using (func.inline_spells h.1).append (.space false)
      exact spaced.append (arg.inline_spells h.2)
  | arrow arg result, h => by
      have arrowed : Spells false [.word "->"] " -> " true := arrowSeparator.spells
      have spelled := ((arg.inline_spells h.1).append arrowed).append (result.inline_spells h.2)
      rwa [List.append_assoc] at spelled
  | tuple boxity items, h => by
      rw [inline, tokens]
      split
      · next empty =>
        rw [List.isEmpty_iff.mp empty]
        exact boxity.unit_spells
      · exact boxity.brackets.enclose (.intercalate (.comma false) (inlineAll_spell items h))
  | list element, h => bracketBrackets.enclose (by
      simpa [commaSeparated] using element.inline_spells h)
  | paren inner, h => parenBrackets.enclose (by
      simpa [commaSeparated] using inner.inline_spells h)
  | quantified binders context body, h => by
      obtain ⟨hb, hc, hbody⟩ := h
      have assertions := inlineAll_spell context hc
      have quantifier : Spells true (binderTokens binders)
          (if binders.isEmpty then "" else "forall " ++ " ".intercalate binders ++ ". ") true := by
        split
        · next empty =>
          rw [List.isEmpty_iff.mp empty]
          exact .empty true
        · next nonempty =>
          have spelled := (quantifier_spells hb (by simpa using nonempty)).append (.space true)
          rw [List.append_nil, String.append_assoc] at spelled
          exact spelled
      rw [inline, tokens]
      refine (quantifier.append ?_).append (body.inline_spells hbody)
      have implies : Spells false [.word "=>"] " => " true := .separator "=>" (by decide)
      generalize inlineAll context = texts at assertions ⊢
      generalize tokensOf context = parts at assertions ⊢
      cases assertions with
      | nil => exact .empty true
      | cons first rest =>
        cases rest with
        | nil => exact first.append implies
        | cons second more =>
          have spelled := (parenBrackets.enclose
            (.intercalate (.comma false) (.cons first (.cons second more)))).append implies
          rw [String.append_assoc] at spelled
          exact spelled

/-- Several types, each on one line, spell their tokens. -/
theorem inlineAll_spell : (ts : List Ty) → EveryNameIn OneLine ts →
    List.Forall₂ (fun text tokens => Spells true tokens text false) (inlineAll ts) (tokensOf ts)
  | [], _ => .nil
  | t :: rest, h => .cons (t.inline_spells h.1) (inlineAll_spell rest h.2)

end

/-- The tokens of a type are those of its arrow components with arrows between them. -/
theorem tokens_arrows : (t : Ty) →
    t.tokens = [Token.word "->"].intercalate (t.arrows.map tokens)
  | arrow arg result => by
      rw [arrows, List.map_cons, intercalate_cons_eq, tokens, result.tokens_arrows]
      cases h : result.arrows with
      | nil => cases result <;> simp [arrows] at h
      | cons first rest => simp [intercalate_cons_eq]
  | con _ | var _ | app .. | tuple .. | list _ | paren _ | quantified .. => by simp [arrows]

theorem arrows_everyName {P : String → Prop} : (t : Ty) → t.EveryName P →
    ∀ c ∈ t.arrows, c.EveryName P
  | arrow arg result, h => by
      intro c mem
      rcases List.mem_cons.mp mem with rfl | inResult
      · exact h.1
      · exact result.arrows_everyName h.2 c inResult
  | con _, h | var _, h | app .., h | tuple .., h | list _, h | paren _, h | quantified .., h => by
      intro c mem
      rw [List.mem_singleton.mp mem]
      exact h

theorem chain_weaves (t : Ty) (h : t.EveryName OneLine) : t.chain.WeavesItem t.tokens := by
  refine .attempt .small (.text (t.inline_spells h)) ?_
  rw [tokens_arrows]
  refine .stacked (.keyword "->" (by decide)) ?_
  rw [List.forall₂_map_left_iff, List.forall₂_map_right_iff, List.forall₂_same]
  intro c mem
  exact .text (c.inline_spells (t.arrows_everyName h c mem))

theorem binderLine_weaves {binders : List String} (h : ∀ binder ∈ binders, OneLine binder) :
    (binderLine binders).Weaves true (binderTokens binders) true := by
  unfold binderLine
  split
  · next empty =>
    rw [List.isEmpty_iff.mp empty]
    exact .empty
  · next nonempty =>
    have line := (Layout.Weaves.text (quantifier_spells h (by simpa using nonempty))).seq .newline
    rwa [List.append_nil] at line

theorem contextText_spells {context : List Ty} (h : EveryNameIn OneLine context) :
    Spells true (assertionTokens (tokensOf context)) (contextText context) false := by
  match context, h with
  | [single], h => exact single.inline_spells h.1
  | [], h => exact parenBrackets.enclose (.intercalate (.comma false) .nil)
  | first :: second :: rest, h =>
    exact parenBrackets.enclose
      (.intercalate (.comma false) (inlineAll_spell (first :: second :: rest) h))

/-- The type of a signature: what follows the quantifier and the context is a chain. -/
theorem signatureLayout_weaves (t : Ty) (h : t.EveryName OneLine) :
    t.signatureLayout.WeavesItem t.tokens := by
  unfold signatureLayout
  split
  · next binders body =>
    obtain ⟨hb, -, hbody⟩ := h
    rw [tokens, tokensOf, contextTokens, List.append_nil]
    exact (binderLine_weaves hb).seq (body.chain_weaves hbody)
  · next binders context body nonempty =>
    obtain ⟨hb, hc, hbody⟩ := h
    have assertions := (binderLine_weaves hb).seq (.text (contextText_spells hc))
    have implied : (Layout.depend (.text "=> ") body.chain).WeavesItem
        (.word "=>" :: body.tokens) :=
      (Layout.Weaves.text (.keyword "=>" (by decide))).depend (body.chain_weaves hbody)
    have whole := (assertions.seq .newline).seq (implied.shift (-3))
    have split : contextTokens (tokensOf context) =
        assertionTokens (tokensOf context) ++ [.word "=>"] := by
      cases context with
      | nil => exact absurd rfl nonempty
      | cons first rest => rfl
    rw [tokens, split]
    simpa using whole
  · exact t.chain_weaves h

end Ty

/-! ## Forms -/

/-- An expression weaves its tokens from whichever side it is looked at. -/
structure Forms.Weaves (forms : Forms) (tokens : List Token) : Prop where
  whole : forms.whole.WeavesItem tokens
  statement : forms.statement.WeavesItem tokens
  spine : ∃ head parts, tokens = head ++ parts.flatten ∧ forms.head.WeavesItem head ∧
    List.Forall₂ (fun arg tokens => arg.layout.WeavesItem tokens) forms.args parts

namespace Forms.Weaves

theorem uniform {l : Layout} {tokens : List Token} (h : l.WeavesItem tokens) :
    (Forms.uniform l).Weaves tokens :=
  ⟨h, h, tokens, [], by simp, h, .nil⟩

theorem apply {func : Forms} {arg : Layout} {flat : Bool} {tokens more : List Token}
    (hf : func.Weaves tokens) (ha : arg.WeavesItem more) :
    (func.apply ⟨arg, flat⟩).Weaves (tokens ++ more) := by
  obtain ⟨head, parts, rfl, hhead, hargs⟩ := hf.spine
  have args : List.Forall₂ (fun arg tokens => arg.layout.WeavesItem tokens)
      (func.args ++ [⟨arg, flat⟩]) (parts ++ [more]) :=
    List.rel_append hargs (.cons ha .nil)
  have tokens : head ++ parts.flatten ++ more = head ++ (parts ++ [more]).flatten := by simp
  have whole : (func.apply ⟨arg, flat⟩).whole.WeavesItem (head ++ parts.flatten ++ more) := by
    rw [whole_apply, tokens]
    exact .application hhead args
  exact ⟨whole, whole, head, parts ++ [more], tokens, hhead, args_apply func _ ▸ args⟩

theorem ofOperation {flat : Bool} {left right : Layout} {op : String}
    {first middle second : List Token} (hl : left.WeavesItem first)
    (ho : Spells true middle op false) (hr : right.WeavesItem second) :
    (Forms.ofOperation flat left op right).Weaves (first ++ middle ++ second) := by
  have whole : (Layout.operation flat left op right .seq).WeavesItem (first ++ middle ++ second) :=
    .operation (fun hx hy => hx.seq hy) hl ho hr
  have statement : (Layout.operation flat left op right .resume).WeavesItem
      (first ++ middle ++ second) :=
    .operation (fun hx hy => hx.resume hy) hl ho hr
  exact ⟨whole, statement, _, [], by simp, whole, .nil⟩

end Forms.Weaves

/-! ## Trees -/

open Layout (WeavesItem)

theorem Decl.signatureLayout_weaves {names : List String} {type : Ty}
    (hn : ∀ name ∈ names, OneLine name) (ht : type.EveryName OneLine) :
    (Decl.signatureLayout names type).WeavesItem
      (commaSeparated (names.map fun name => [.word name]) ++ .word "::" :: type.tokens) := by
  have words : List.Forall₂ (fun text tokens => Spells true tokens text false) names
      (names.map fun name => [.word name]) := by
    rw [List.forall₂_map_right_iff, List.forall₂_same]
    exact fun name mem => .word (hn name mem)
  have colons : Spells false [.word "::"] " :: " true := .separator "::" (by decide)
  have left := (Spells.intercalate (.comma false) words).append colons
  have whole := (Layout.Weaves.text left).depend (type.signatureLayout_weaves ht)
  rwa [List.append_assoc] at whole

mutual

/-- Every expression weaves its tokens. Each case follows the layout rule of its shape; the
parts are woven by induction. -/
theorem Expr.forms_weave : (e : Expr) → e.EveryName OneLine → e.forms.Weaves e.tokens
  | .var _, h => .uniform (.text (.word h))
  | .con _, h => .uniform (.text (.word h))
  | .int value, _ => .uniform (.text (.word (Text.int_repr_oneLine value)))
  | .frac _, h => .uniform (.text (.word h))
  | .char value, _ => .uniform (.text (.word (Text.charLiteral_oneLine value)))
  | .string value, _ => .uniform (.text (.word (Text.stringLiteral_oneLine value)))
  | .varQuote _, h => .uniform (.text ((Spells.mark true (t := .quote) rfl).append (.word h)))
  | .typeQuote _, h => .uniform (.text ((Spells.mark true (t := .typeQuote) rfl).append (.word h)))
  | .wildcard, _ => .uniform (.text (.word (by decide)))
  | .app func arg, h => (func.forms_weave h.1).apply (arg.forms_weave h.2).whole
  | .binary left op right, h =>
      .ofOperation (left.forms_weave h.1).whole (op.spelling_spells h.2.1)
        (right.forms_weave h.2.2).whole
  | .neg operand, h =>
      .uniform ((Layout.Weaves.text (.mark true (t := .minus) rfl)).seq
        (operand.forms_weave h).whole)
  | .leftSection operand op, h => by
      have inner : (operand.forms.whole ++ .space ++ .text op.spelling).WeavesItem
          (operand.tokens ++ op.tokens) := by
        simpa using ((operand.forms_weave h.1).whole.seq .space).seq
          (.text (op.spelling_spells h.2))
      have whole := (Layout.Weaves.text parenBrackets.opening_spells).depend
        (inner.seq (.text parenBrackets.closing_spells))
      exact .uniform (by simpa [Expr.tokens, enclosed, commaSeparated] using whole)
  | .rightSection op operand, h => by
      have head : (Layout.text "(" ++ .text op.spelling ++ .space).Weaves true
          (.opening .paren :: op.tokens) true := by
        simpa using ((Layout.Weaves.text parenBrackets.opening_spells).seq
          (.text (op.spelling_spells h.1))).seq .space
      have whole := head.depend ((operand.forms_weave h.2).whole.seq
        (.text parenBrackets.closing_spells))
      exact .uniform (by simpa [Expr.tokens, enclosed, commaSeparated] using whole)
  | .lambda params body, h => by
      have named := Layout.Weaves.spaced (Expr.layouts_weave params h.1)
      have bound := Layout.Weaves.attach arrowSeparator body.isFlat
        ((body.forms_weave h.2).whole.shift 1)
      exact .uniform ((Layout.Weaves.text (.mark true (t := .backslash) rfl)).depend
        (named.seq bound))
  | .tuple boxity items, h => by
      refine .uniform ?_
      split
      · next empty =>
        rw [Expr.tokens, List.isEmpty_iff.mp empty]
        exact .text boxity.unit_spells
      · exact .bracketed boxity.brackets (Expr.layouts_weave items h)
  | .list items, h => by
      refine .uniform ?_
      split
      · next empty =>
        rw [Expr.tokens, List.isEmpty_iff.mp empty]
        exact .text (bracketBrackets.enclose (.intercalate (.comma false) .nil))
      · exact .bracketedWhole bracketBrackets (Expr.layouts_weave items h)
  | .paren inner, h => by
      have whole := (Layout.Weaves.text parenBrackets.opening_spells).depend
        ((inner.forms_weave h).whole.seq (.text parenBrackets.closing_spells))
      exact .uniform (by simpa [Expr.tokens, enclosed, commaSeparated] using whole)
  | .cond condition yes no, h => by
      have hc := (condition.forms_weave h.1).whole
      have hy := (yes.forms_weave h.2.1).whole
      have hn := (no.forms_weave h.2.2).whole
      have ifs : Spells true [.word "if"] "if " true := .keyword "if" (by decide)
      have inline := (((((Layout.Weaves.text ifs).seq hc).seq
        (.text (.separator "then" (by decide)))).seq hy).seq
        (.text (.separator "else" (by decide)))).seq hn
      have thens := (Layout.Weaves.text (.keyword "then" (by decide))).depend hy
      have elses := (Layout.Weaves.text (.keyword "else" (by decide))).depend hn
      have broken := (Layout.Weaves.text ifs).depend
        ((((hc.seq .newline).seq thens).seq .newline).seq elses)
      refine .uniform (.attempt .line ?_ ?_)
      · simpa [Expr.tokens] using inline
      · simpa [Expr.tokens] using broken
  | .caseOf scrutinee alts, h => by
      have scrutinized := (Layout.Weaves.text (.keyword "case" (by decide))).depend
        (scrutinee.forms_weave h.1).whole
      have whole := (scrutinized.seq (.text (.spaced false "of" (by decide)))).seq
        (Layout.Weaves.step (.underneath (Alt.layouts_weave alts h.2)))
      exact .uniform (by simpa [Expr.tokens] using whole)
  | .block stmts, h =>
      .uniform ((Layout.Weaves.text (.keyword "do" (by decide))).depend
        (.lined (Stmt.layouts_weave stmts h)))
  | .letIn decls body, h => by
      have bound := (Layout.Weaves.text (.keyword "let" (by decide))).depend
        (.lined (Decl.layouts_weave decls h.1))
      have whole := (bound.seq .newline).seq
        ((Layout.Weaves.text (.keyword "in" (by decide))).depend
          (body.forms_weave h.2).whole)
      exact .uniform (by simpa [Expr.tokens] using whole)
  | .record con fields, h => by
      have whole := ((Layout.Weaves.text (.word h.1)).seq .space).seq
        (.bracketed braceBrackets (Field.layouts_weave fields h.2))
      exact .uniform (by simpa [Expr.tokens] using whole)
  | .update record fields, h => by
      have whole := ((record.forms_weave h.1).whole.seq .space).seq
        (.bracketed braceBrackets (Field.layouts_weave fields h.2))
      exact .uniform (by simpa [Expr.tokens] using whole)
  | .annot expr type, h => by
      have left := (expr.forms_weave h.1).whole.seq
        (.text (.separator "::" (by decide)))
      have whole := left.depend (.text (type.inline_spells h.2))
      exact .uniform (by simpa [Expr.tokens] using whole)

theorem Expr.layouts_weave : (es : List Expr) → Expr.EveryNameIn OneLine es →
    List.Forall₂ WeavesItem (Expr.layouts es) (Expr.tokensOf es)
  | [], _ => .nil
  | e :: rest, h => .cons (e.forms_weave h.1).whole (Expr.layouts_weave rest h.2)

theorem Rhs.layout_weaves {separator word : String} (hs : Separator separator word) :
    (r : Rhs) → r.EveryName OneLine →
    (r.layout separator).Weaves false (r.tokens word) false
  | .plain body, h => .step (.attach hs body.isFlat (body.forms_weave h).whole)
  | .guarded branches, h => .step (.underneath (Branch.layouts_weave hs branches h))

theorem Branch.layout_weaves {separator word : String} (hs : Separator separator word) :
    (b : Branch) → b.EveryName OneLine → (b.layout separator).WeavesItem (b.tokens word)
  | .mk guards body, h => by
      have spaced : List.Forall₂ (fun l tokens => l.Weaves false tokens false)
          ((Expr.layouts guards).map (Layout.space ++ ·)) (Expr.tokensOf guards) := by
        rw [List.forall₂_map_left_iff]
        exact (Expr.layouts_weave guards h.1).imp fun _ _ guarded => Layout.Weaves.space.seq guarded
      have behind := (Layout.Weaves.stacked (.mark true (t := .comma) rfl) spaced).seq
        (.attach hs body.isFlat ((body.forms_weave h.2).whole.shift 1))
      exact (Layout.Weaves.text (.word (by decide))).seq (behind.shift 1)

theorem Branch.layouts_weave {separator word : String} (hs : Separator separator word) :
    (bs : List Branch) → Branch.EveryNameIn OneLine bs →
    List.Forall₂ WeavesItem (Branch.layouts separator bs) (Branch.tokensOf word bs)
  | [], _ => .nil
  | b :: rest, h => .cons (b.layout_weaves hs h.1) (Branch.layouts_weave hs rest h.2)

theorem Alt.layout_weaves : (a : Alt) → a.EveryName OneLine → a.layout.WeavesItem a.tokens
  | .mk pattern rhs, h => (pattern.forms_weave h.1).whole.seq (rhs.layout_weaves arrowSeparator h.2)

theorem Alt.layouts_weave : (as : List Alt) → Alt.EveryNameIn OneLine as →
    List.Forall₂ WeavesItem (Alt.layouts as) (Alt.tokensOf as)
  | [], _ => .nil
  | a :: rest, h => .cons (a.layout_weaves h.1) (Alt.layouts_weave rest h.2)

theorem Stmt.layout_weaves : (s : Stmt) → s.EveryName OneLine → s.layout.WeavesItem s.tokens
  | .bind pattern expr, h =>
      (pattern.forms_weave h.1).whole.seq
        (.step (.attach bindSeparator expr.isFlat (expr.forms_weave h.2).whole))
  | .expr expr, h => (expr.forms_weave h).statement
  | .decls decls, h =>
      (Layout.Weaves.text (.keyword "let" (by decide))).depend
        (.lined (Decl.layouts_weave decls h))

theorem Stmt.layouts_weave : (ss : List Stmt) → Stmt.EveryNameIn OneLine ss →
    List.Forall₂ WeavesItem (Stmt.layouts ss) (Stmt.tokensOf ss)
  | [], _ => .nil
  | s :: rest, h => .cons (s.layout_weaves h.1) (Stmt.layouts_weave rest h.2)

theorem Decl.layout_weaves : (d : Decl) → d.EveryName OneLine → d.layout.WeavesItem d.tokens
  | .signature _ _, h => Decl.signatureLayout_weaves h.1 h.2
  | .function name params rhs, h => by
      have head := (Layout.Weaves.text (.word h.1)).seq
        (.concat_space (Expr.layouts_weave params h.2.1))
      exact head.seq (rhs.layout_weaves equalsSeparator h.2.2)
  | .pattern pattern rhs, h =>
      (pattern.forms_weave h.1).whole.seq (rhs.layout_weaves equalsSeparator h.2)

theorem Decl.layouts_weave : (ds : List Decl) → Decl.EveryNameIn OneLine ds →
    List.Forall₂ WeavesItem (Decl.layouts ds) (Decl.tokensOf ds)
  | [], _ => .nil
  | d :: rest, h => .cons (d.layout_weaves h.1) (Decl.layouts_weave rest h.2)

theorem Field.layout_weaves : (f : Field) → f.EveryName OneLine → f.layout.WeavesItem f.tokens
  | .mk _ value, h =>
      (Layout.Weaves.text (.word h.1)).seq
        (.attach equalsSeparator value.isFlat (value.forms_weave h.2).whole)

theorem Field.layouts_weave : (fs : List Field) → Field.EveryNameIn OneLine fs →
    List.Forall₂ WeavesItem (Field.layouts fs) (Field.tokensOf fs)
  | [], _ => .nil
  | f :: rest, h => .cons (f.layout_weaves h.1) (Field.layouts_weave rest h.2)

end

/-! ## Modules -/

namespace Module

theorem gap_weaves (previous : Decl) : (gap previous).Weaves false [] true := by
  unfold gap
  split
  · exact .newline
  · exact Layout.Weaves.newline.seq .newline

theorem layoutAfter_weaves (previous : Decl) (ds : List Decl) (h : Decl.EveryNameIn OneLine ds) :
    (layoutAfter previous ds).Weaves false (Decl.tokensOf ds).flatten false := by
  induction ds generalizing previous with
  | nil => exact .empty
  | cons d rest ih =>
    exact ((gap_weaves previous).seq (d.layout_weaves h.1)).seq (ih d h.2)

theorem layout_weaves (m : Module) (h : Decl.EveryNameIn OneLine m) :
    (layout m).WeavesItem (tokens m) := by
  cases m with
  | nil => exact Layout.Weaves.empty.end_false
  | cons d rest => exact (d.layout_weaves h.1).seq (layoutAfter_weaves d rest h.2)

end Module

/-! ## Main statement -/

/-- A layout keeps tokens: whatever the thresholds and wherever it is run, it appends a text
woven of them; and the texts of any two runs are the same up to their gaps. -/
def Layout.KeepsTokens (l : Layout) (tokens : List Token) : Prop :=
  (∀ cfg p, ∃ text, (l.run cfg p).output.toList = p.output.toList ++ text ∧
    Woven true tokens text false) ∧
  ∀ cfg cfg' p p' text text',
    (l.run cfg p).output.toList = p.output.toList ++ text →
    (l.run cfg' p').output.toList = p'.output.toList ++ text' →
    text.filter (fun c => ¬ Text.IsGap c) = text'.filter (fun c => ¬ Text.IsGap c)

theorem Layout.WeavesItem.keepsTokens {l : Layout} {tokens : List Token}
    (h : l.WeavesItem tokens) : l.KeepsTokens tokens := by
  refine ⟨h, ?_⟩
  intro cfg cfg' p p' text text' run run'
  obtain ⟨x, hx, woven⟩ := h cfg p
  obtain ⟨y, hy, woven'⟩ := h cfg' p'
  have same : text = x := List.append_cancel_left (run.symm.trans hx)
  have same' : text' = y := List.append_cancel_left (run'.symm.trans hy)
  rw [same, same', woven.filter_gaps, woven'.filter_gaps]

/-- No layout loses, duplicates, reorders or splits a token. The tokens are read off the tree;
the thresholds need not be valid, and the printer may be any. -/
theorem rendering_weaves_tokens :
    (∀ e : Expr, e.EveryName OneLine → e.layout.KeepsTokens e.tokens) ∧
    (∀ d : Decl, d.EveryName OneLine → d.layout.KeepsTokens d.tokens) ∧
    (∀ m : Module, Decl.EveryNameIn OneLine m → m.layout.KeepsTokens m.tokens) :=
  ⟨fun e h => (e.forms_weave h).whole.keepsTokens, fun d h => (d.layout_weaves h).keepsTokens,
    fun m h => (m.layout_weaves h).keepsTokens⟩

/-- The binding `x = y + z` has one text on one line and another one below a limit of six columns.
Both are woven of the same five tokens and are the same up to their gaps. The right-hand side and
the module that holds nothing but the binding keep their tokens too. -/
theorem rendering_weaves_tokens_binding :
    let sum : Expr := .binary (.var "y") (.symbol "+") (.var "z")
    let d : Decl := .pattern (.var "x") (.plain sum)
    let tokens : List Token := [.word "x", .word "=", .word "y", .word "+", .word "z"]
    let line := "x = y + z"
    let lines := "x = y +\n    z"
    (d.layout.run {} .start).output = line ∧
    (d.layout.run (.withColumnLimit 6) .start).output = lines ∧
    Woven true tokens line.toList false ∧ Woven true tokens lines.toList false ∧
    line.toList.filter (fun c => ¬ Text.IsGap c) = lines.toList.filter (fun c => ¬ Text.IsGap c) ∧
    sum.layout.KeepsTokens [.word "y", .word "+", .word "z"] ∧
    (Module.layout [d]).KeepsTokens tokens := by
  intro sum d tokens line lines
  have x : OneLine "x" := by decide
  have y : OneLine "y" := by decide
  have z : OneLine "z" := by decide
  have plus : OneLine "+" := by decide
  have short : (d.layout.run {} .start).output = line := by decide +kernel
  have broken : (d.layout.run (.withColumnLimit 6) .start).output = lines := by decide +kernel
  obtain ⟨exprs, decls, modules⟩ := rendering_weaves_tokens
  obtain ⟨woven, same⟩ := decls d ⟨x, y, plus, z⟩
  obtain ⟨a, shortText, shortWoven⟩ := woven {} .start
  obtain ⟨b, brokenText, brokenWoven⟩ := woven (.withColumnLimit 6) .start
  rw [short] at shortText
  rw [broken] at brokenText
  obtain rfl : line.toList = a := shortText
  obtain rfl : lines.toList = b := brokenText
  exact ⟨short, broken, shortWoven, brokenWoven,
    same {} (.withColumnLimit 6) .start .start _ _ (by rw [short]; rfl) (by rw [broken]; rfl),
    exprs sum ⟨y, plus, z⟩, modules [d] ⟨⟨x, y, plus, z⟩, trivial⟩⟩

end TrialLayout
