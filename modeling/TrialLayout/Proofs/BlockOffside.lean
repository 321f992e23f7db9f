import TrialLayout.Proofs.Breaking

/-!
# The offside rule for statements

A block begins with `do`, and its statements start at the column `c` behind it. What a
statement comes out as depends on that column only, and each statement but the first follows
a newline and `c` spaces (`block_output`). For the block to be read back as these statements,
every other line of a statement has to start past `c`.

This does not hold of every statement. An operator of the statement itself continues one step
past `c`, but an operator inside its left operand is broken at the base, which is `c`
(`nested_operator_not_offside`), and so are `in` and the commas of a collection.
`block_offside` gives the exact condition: statements that hang stay past `c` at every column
and under all thresholds whose sums stay within the widths (`Layout.InRange`), and the others stay
past `c` at no column past the column limit.
-/

namespace TrialLayout

open Printer Text

/-! ## The text of a block -/

/-- The statements of a block stand one below the other at the column behind `do`. -/
theorem Expr.block_output (cfg : Config) {stmts : List Stmt}
    (names : ∀ s ∈ stmts, s.EveryName Plain) {p : Printer} (consistent : p.Consistent) :
    ((Expr.block stmts).layout.run cfg p).output.toList =
      p.output.toList ++ p.pending ++ "do ".toList ++
        ('\n' :: List.replicate (p.effectiveColumn + 3) ' ').intercalate
          (stmts.map (·.layout.rendering cfg (p.effectiveColumn + 3))) := by
  obtain ⟨q, inLine, base, aligned, text, run⟩ := Layout.depend_text_run
    (show Plain "do " by decide).leads (.lined (Stmt.layouts stmts)) cfg consistent
  have base : q.indent = p.effectiveColumn + 3 := base
  show ((Layout.depend (.text "do ") (.lined (Stmt.layouts stmts))).run cfg p).output.toList = _
  rw [run, ← text, ← base, Stmt.layouts_eq_map]
  cases stmts with
  | nil => exact (List.append_nil _).symm
  | cons s rest =>
    have opens : ∀ item ∈ (s :: rest).map Stmt.layout, item.Opens (· ≠ '\n') := by
      intro item mem
      obtain ⟨other, inStmts, rfl⟩ := List.mem_map.mp mem
      exact Stmt.layout_opens_plain (names other inStmts)
    have pending : q.pending = [] := by simp [Printer.pending, inLine]
    have start : q.effectiveColumn = q.indent := by simp [effectiveColumn, inLine, aligned]
    rw [Layout.Opens.lined_output (by simp) opens cfg (.of_inLine inLine) start, pending,
      List.append_nil, List.map_map]
    rfl

/-! ## The exact condition -/

/-- The offside rule of a block, as far as it holds. At every column and under all thresholds
the statements start at the column `c` behind `do`. As long as no sum of a statement's run passes
the largest width, no line of it starts left of that column, and the lines of a statement that
hangs start right of it, its first line apart. Past the column limit this is so only for
statements that hang, whatever becomes of the sums. Every reachable printer is consistent. -/
theorem block_offside {cfg : Config} (valid : cfg.Valid) {stmts : List Stmt}
    (names : ∀ s ∈ stmts, s.EveryName Plain) {p : Printer} (consistent : p.Consistent) {c : Nat}
    (column : c = p.effectiveColumn + 3) :
    ((Expr.block stmts).layout.run cfg p).output.toList =
        p.output.toList ++ p.pending ++ "do ".toList ++
          ('\n' :: List.replicate c ' ').intercalate (stmts.map (·.layout.rendering cfg c)) ∧
      ∀ s ∈ stmts,
        (∃ first rest, first ≠ '\n' ∧ s.layout.rendering cfg c = first :: rest) ∧
        (s.layout.InRange cfg (.inside c) → ContinuesFrom c (s.layout.rendering cfg c)) ∧
        (s.layout.InRange cfg (.inside c) → s.hangs = true →
          ContinuesFrom (c + 1) (s.layout.rendering cfg c)) ∧
        (cfg.columnLimit < c → s.EveryName Unindented →
          ContinuesFrom (c + 1) (s.layout.rendering cfg c) → s.hangs = true) := by
  subst column
  refine ⟨Expr.block_output cfg names consistent, fun s mem => ⟨?_, fun range => ?_,
    fun range hangs => ?_, ?_⟩⟩
  · exact (Stmt.layout_opens_plain (names s mem)).rendering_cons cfg _
  · exact Layout.Hangs.rendering valid (p := .inside (p.effectiveColumn + 3)) (.of_inLine rfl) rfl
      (Stmt.layout_opens_plain (names s mem)) range
      (s.layout_hangs (names s mem) (.level s.hangs _))
  · exact Layout.Hangs.rendering valid (p := .inside (p.effectiveColumn + 3)) (.of_inLine rfl) rfl
      (Stmt.layout_opens_plain (names s mem)) range
      (s.layout_hangs (names s mem) (.inr ⟨hangs, Nat.le_refl _, Nat.le_refl _⟩))
  · intro limit unindented continues
    by_contra shape
    obtain ⟨text, appended, breaks⟩ :=
      Stmt.layout_breaks unindented (Bool.eq_false_iff.mpr shape) cfg
        (.inside (p.effectiveColumn + 3)) rfl limit (Nat.le_refl _) fun _ => rfl
    have rendered : s.layout.rendering cfg (p.effectiveColumn + 3) = text := appended
    rw [rendered] at continues
    exact breaks.not_continuesFrom continues

/-- The right operand of a statement stays past the column of its block. -/
theorem block_offside_operator :
    ContinuesFrom 4 ((Stmt.expr (.binary (.var "aVeryLongIdentifierName") (.symbol "+")
      (.var "anotherVeryLongIdentifierName"))).layout.rendering (.withColumnLimit 40) 3) := by
  have names : ∀ s ∈ [Stmt.expr (.binary (.var "aVeryLongIdentifierName") (.symbol "+")
      (.var "anotherVeryLongIdentifierName"))], s.EveryName Plain := by
    intro s mem
    rw [List.mem_singleton.mp mem]
    show Plain "aVeryLongIdentifierName" ∧ Plain "+" ∧ Plain "anotherVeryLongIdentifierName"
    decide
  obtain ⟨-, statements⟩ := @block_offside (.withColumnLimit 40) (by decide) _ names .start
    (fun _ => rfl) 3 rfl
  exact (statements _ List.mem_cons_self).2.2.1 (by decide) rfl

/-- An operator whose left operand is an operator again, as a statement. -/
def nestedOperator : Stmt :=
  .expr (.binary (.binary (.var "aVeryLongIdentifierName") (.symbol "+")
    (.var "anotherVeryLongIdentifierName")) (.symbol "+") (.var "c"))

/-- The left operand of a statement is broken at the column of its block, although the
thresholds are valid and no name is empty. -/
theorem nested_operator_not_offside :
    (Config.withColumnLimit 40).Valid ∧ nestedOperator.EveryName Plain ∧
      ((Expr.block [nestedOperator]).layout.run (.withColumnLimit 40) .start).output =
        "do aVeryLongIdentifierName +\n   anotherVeryLongIdentifierName + c" ∧
      ¬ContinuesFrom 4 (nestedOperator.layout.rendering (.withColumnLimit 40) 3) := by
  have a : Plain "aVeryLongIdentifierName" := by decide
  have b : Plain "anotherVeryLongIdentifierName" := by decide
  have c : Plain "c" := by decide
  have plus : Plain "+" := by decide
  exact ⟨by decide, ⟨⟨a, plus, b⟩, plus, c⟩, rfl, by decide⟩

end TrialLayout
