import TrialLayout.Proofs.LimitStability
import TrialLayout.Proofs.LineUniqueness
import TrialLayout.Proofs.Stacking

/-!
# Where the arguments of an application stand

Behind its head, an application places its arguments in one of three ways: on the line of the
head, one below the other behind the head, or one below the other as a block. In the last two each
argument comes out as its rendering at the column where all of them start, so that it depends on
no other argument (`Placement.text`).

* `Layout.stack_output`, `Layout.block_output`: the texts of stacked arguments.
* `Layout.accepts_stack_iff`: the whole stack is measured at once, by the number of its lines and
  by their ends. This measures each argument by itself, since the lines of a stack are as many as
  its items only if every item takes one.

Result: `arguments_placed`, which also says when each of the placements is chosen.
-/

namespace TrialLayout

open Printer Text

/-! ## Definitions -/

/-- Where the arguments of an application stand. -/
inductive Placement where
  /-- On the line of the head. -/
  | onLine
  /-- One below the other, behind the head. -/
  | hanging
  /-- One below the other, one step inside the base of the application. -/
  | block
deriving DecidableEq, Repr

/-- The text of the arguments behind a head that ends at `column`, in an application under
`base`. A block stands at `base + cfg.indentSpaces`, as long as that sum can be represented
(`Config.stepFrom_eq`). -/
def Placement.text (cfg : Config) (column base : Nat) (args : List Expr) : Placement → List Char
  | onLine => ' ' :: [' '].intercalate (args.map (·.oneLine.toList))
  | hanging =>
      ' ' :: ('\n' :: List.replicate (column + 1) ' ').intercalate
        (args.map (·.layout.rendering cfg (column + 1)))
  | block =>
      (args.map fun arg => '\n' :: List.replicate (cfg.stepFrom base) ' ' ++
        arg.layout.rendering cfg (cfg.stepFrom base)).flatten

/-- The arguments are tried on the line of the head: every one of them is flat, or the head is
short and at most one of them is not. -/
def Placement.Tried (short : Bool) (args : List Expr) : Prop :=
  args.countP (!·.isFlat) = 0 ∨ short = true ∧ args.countP (!·.isFlat) < 2

instance (short : Bool) (args : List Expr) : Decidable (Placement.Tried short args) :=
  inferInstanceAs (Decidable (_ ∨ _))

/-- The placement that is chosen behind a head that ends at `column`. -/
def Placement.chosen (cfg : Config) (short : Bool) (column : Nat) (args : List Expr) : Placement :=
  if Tried short args ∧
      (Layout.spaced (args.map Expr.layout)).FitsFrom cfg cfg.columnLimit (column + 1) then onLine
  else if short = true ∨ ∀ e ∈ args, e.layout.FitsFrom cfg cfg.tolerantLimit (column + 1) then
    hanging
  else block

/-! ## Lines of a stack -/

namespace Text

variable (n : Nat) (first : List Char) (rest : List (List Char))

/-- Between each two items stands one newline. -/
theorem count_intercalate_newline :
    (('\n' :: List.replicate n ' ').intercalate (first :: rest)).count '\n' =
      rest.length + (first :: rest).flatten.count '\n' := by
  have separator : ('\n' :: List.replicate n ' ').count '\n' = 1 := by
    simp [List.count_replicate]
  rw [intercalate_cons_eq, List.count_append, List.flatten_cons, List.count_append]
  induction rest with
  | nil => simp
  | cons second more ih =>
    rw [List.map_cons, List.flatten_cons, List.count_append, List.count_append, separator,
      List.flatten_cons, List.count_append, List.length_cons]
    omega

/-- Items of one line each are the lines of their stack. -/
theorem splitLines_intercalate_newline (h : ∀ item ∈ first :: rest, '\n' ∉ item) :
    splitLines (('\n' :: List.replicate n ' ').intercalate (first :: rest)) =
      first :: rest.map (List.replicate n ' ' ++ ·) := by
  rw [List.forall_mem_cons] at h
  have joined : ('\n' :: List.replicate n ' ').intercalate (first :: rest) =
      joinLines (first :: rest.map (List.replicate n ' ' ++ ·)) := by
    rw [joinLines, intercalate_cons_eq, intercalate_cons_eq, List.map_map]
    rfl
  rw [joined]
  refine splitLines_joinLines (by simp) (List.forall_mem_cons.mpr ⟨h.1, ?_⟩)
  refine List.forall_mem_map.mpr fun item mem => ?_
  rw [List.mem_append, not_or]
  exact ⟨by simp [List.mem_replicate], h.2 item mem⟩

end Text

/-! ## Layouts -/

namespace Layout

variable {P : Char → Prop} {items : List Layout} {cfg : Config} {q : Printer}

/-- Behind the space after a head, the column is the base. -/
theorem hang_start (inLine : q.atLineStart = false) :
    (q.space.setIndent (q.column + 1)).atLineStart = false ∧
      (q.space.setIndent (q.column + 1)).column = q.column + 1 ∧
      (q.space.setIndent (q.column + 1)).output.toList = q.output.toList ++ [' '] := by
  have written : q.space = { q with output := q.output ++ " ", column := q.column + 1 } :=
    write_of_inLine inLine (by decide)
  rw [written]
  exact ⟨inLine, rfl, String.toList_append⟩

theorem hang_output (l : Layout) (inLine : q.atLineStart = false) :
    ((hang l).run cfg q).output.toList =
      q.output.toList ++ ' ' :: l.rendering cfg (q.column + 1) := by
  obtain ⟨start, aligned, written⟩ := hang_start inLine
  show (l.run cfg (q.space.setIndent (q.column + 1))).output.toList = _
  rw [l.output_of_aligned cfg start aligned, written, List.append_assoc]
  rfl

theorem accepts_line_hang_iff (l : Layout) (inLine : q.atLineStart = false) :
    Fit.line.accepts cfg (q.trial ((hang l).run cfg)) = true ↔
      l.FitsFrom cfg cfg.columnLimit (q.column + 1) := by
  obtain ⟨start, aligned, -⟩ := hang_start inLine
  rw [accepts_line_iff, hang_stays]
  exact (accepts_line_iff l cfg _).symm.trans (l.accepts_line_iff_fitsFrom cfg start aligned)

/-- Items that start where the column is the base, one below the other. -/
theorem rendering_lined (nonempty : items ≠ []) (h : ∀ item ∈ items, item.Opens P) (cfg : Config)
    (column : Nat) :
    (lined items).rendering cfg column =
      ('\n' :: List.replicate column ' ').intercalate (items.map (rendering cfg column)) :=
  Opens.lined_output nonempty h cfg (p := .inside column) (.of_inLine rfl) rfl

/-- Items below a line that has just ended are items on lines of their own. -/
theorem run_lined_newline (nonempty : items ≠ []) (cfg : Config) (p : Printer) :
    (lined items).run cfg p.newline = (underneath items).run cfg p := by
  induction items generalizing p with
  | nil => exact absurd rfl nonempty
  | cons item rest ih =>
    cases rest with
    | nil => rfl
    | cons second more => exact ih (by simp) (item.run cfg p.newline)

/-- Items one below the other, one step inside the base. -/
theorem block_output (nonempty : items ≠ []) (h : ∀ item ∈ items, item.Opens P) :
    ((newline ++ step (lined items)).run cfg q).output.toList = q.output.toList ++
      (items.map fun item => '\n' :: List.replicate (cfg.stepFrom q.indent) ' ' ++
        item.rendering cfg (cfg.stepFrom q.indent)).flatten := by
  show ((lined items).run cfg
    (q.setIndent (cfg.stepFrom q.indent)).newline).output.toList = _
  rw [run_lined_newline nonempty, underneath_output h]
  rfl

/-- Items one below the other behind a head. -/
theorem stack_output (nonempty : items ≠ []) (h : ∀ item ∈ items, item.Opens P)
    (inLine : q.atLineStart = false) :
    ((hang (lined items)).run cfg q).output.toList = q.output.toList ++
      ' ' :: ('\n' :: List.replicate (q.column + 1) ' ').intercalate
        (items.map (rendering cfg (q.column + 1))) := by
  rw [hang_output _ inLine, rendering_lined nonempty h]

/-- Each item of one line ends as far behind the head as it is long. -/
theorem lineEnds_hang_lined (nonempty : items ≠ []) (h : ∀ item ∈ items, item.Opens P)
    (inLine : q.atLineStart = false)
    (single : ∀ item ∈ items, '\n' ∉ item.rendering cfg (q.column + 1)) :
    (q.trial ((hang (lined items)).run cfg)).lineEnds =
      items.map fun item => q.column + 1 + (item.rendering cfg (q.column + 1)).length := by
  have text : (q.trial ((hang (lined items)).run cfg)).candidate.output.toList =
      ' ' :: ('\n' :: List.replicate (q.column + 1) ' ').intercalate
        (items.map (rendering cfg (q.column + 1))) :=
    stack_output (q := q.snapshot) nonempty h inLine
  have start : (q.trial ((hang (lined items)).run cfg)).start.lineWidth = q.column :=
    lineWidth_of_inLine (p := q.snapshot) inLine
  cases items with
  | nil => exact absurd rfl nonempty
  | cons item rest =>
    rw [List.map_cons] at text
    rw [Trial.lineEnds, text, splitLines_cons_of_ne (by decide), splitLines_intercalate_newline,
      start]
    · simp [Function.comp_def]
      omega
    · rw [← List.map_cons, List.forall_mem_map]
      exact single

/-- A stack behind a head has as many lines as items exactly if each item takes one line. -/
theorem line_hang_lined_iff (nonempty : items ≠ []) (h : ∀ item ∈ items, item.Opens P)
    (inLine : q.atLineStart = false) :
    ((hang (lined items)).run cfg q).line + 1 = q.line + items.length ↔
      ∀ item ∈ items, '\n' ∉ item.rendering cfg (q.column + 1) := by
  obtain ⟨text, advances⟩ := (hang (lined items)).run_advances cfg q
  have shape : text = ' ' :: ('\n' :: List.replicate (q.column + 1) ' ').intercalate
      (items.map (rendering cfg (q.column + 1))) :=
    List.append_cancel_left (advances.output.symm.trans (stack_output nonempty h inLine))
  cases items with
  | nil => exact absurd rfl nonempty
  | cons item rest =>
    rw [advances.line, shape, List.count_cons_of_ne (by decide), List.map_cons,
      count_intercalate_newline, ← List.map_cons, List.length_map, List.length_cons]
    have none : ((item :: rest).map (rendering cfg (q.column + 1))).flatten.count '\n' = 0 ↔
        ∀ other ∈ item :: rest, '\n' ∉ other.rendering cfg (q.column + 1) := by
      rw [List.count_eq_zero, List.mem_flatten]
      simp
    rw [← none]
    omega

/-- A stack behind a head is kept exactly if each of its items fits within the tolerant limit. -/
theorem accepts_stack_iff (nonempty : items ≠ []) (h : ∀ item ∈ items, item.Opens P)
    (inLine : q.atLineStart = false) :
    (Fit.stack items.length).accepts cfg (q.trial ((hang (lined items)).run cfg)) = true ↔
      ∀ item ∈ items, item.FitsFrom cfg cfg.tolerantLimit (q.column + 1) := by
  have lines : (q.trial ((hang (lined items)).run cfg)).candidate.line + 1 =
      (q.trial ((hang (lined items)).run cfg)).start.line + items.length ↔
        ∀ item ∈ items, '\n' ∉ item.rendering cfg (q.column + 1) := by
    rw [trial_line]
    exact line_hang_lined_iff nonempty h inLine
  rw [Fit.accepts, Bool.and_eq_true, beq_iff_eq, lines]
  constructor
  · rintro ⟨single, ends⟩ item mem
    rw [lineEnds_hang_lined nonempty h inLine single, List.all_map, List.all_eq_true] at ends
    exact ⟨single item mem, of_decide_eq_true (ends item mem)⟩
  · intro tolerated
    have single : ∀ item ∈ items, '\n' ∉ item.rendering cfg (q.column + 1) :=
      fun item mem => (tolerated item mem).1
    rw [lineEnds_hang_lined nonempty h inLine single, List.all_map, List.all_eq_true]
    exact ⟨single, fun item mem => decide_eq_true (tolerated item mem).2⟩

/-- The line of several items is made of their lines. -/
theorem oneLine_joined (separator : String) (items : List Layout) :
    (joined (text separator) items).oneLine = separator.intercalate (items.map oneLine) := by
  induction items with
  | nil => rfl
  | cons item rest ih =>
    cases rest with
    | nil =>
      rw [List.map_singleton, String.intercalate_singleton]
      rfl
    | cons second more =>
      rw [List.map_cons, List.map_cons, String.intercalate_cons_cons, ← List.map_cons, ← ih]
      rfl

end Layout

/-! ## Applications -/

open Layout (hang spaced lined)

/-- The arguments of a spine have no names but those of the spine. -/
theorem Expr.args_everyName {N : String → Prop} : (e : Expr) → e.EveryName N →
    ∀ arg ∈ e.args, arg.EveryName N
  | .app func arg, h => by
      rw [args, List.forall_mem_append, List.forall_mem_singleton]
      exact ⟨func.args_everyName h.1, h.2⟩
  | .var _, _ | .con _, _ | .int _, _ | .frac _, _ | .char _, _ | .string _, _ | .varQuote _, _
  | .typeQuote _, _ | .wildcard, _ | .binary .., _ | .neg _, _ | .leftSection .., _
  | .rightSection .., _ | .lambda .., _ | .tuple .., _ | .list _, _ | .paren _, _ | .cond .., _
  | .caseOf .., _ | .block _, _ | .letIn .., _ | .record .., _ | .update .., _ | .annot .., _ =>
      List.forall_mem_nil _

/-- Arguments that stay on a line are their lines, with a space between each two. -/
theorem Expr.rendering_spaced {args : List Expr} {cfg : Config} {column : Nat}
    (oneLine : '\n' ∉ (spaced (args.map Expr.layout)).rendering cfg column) :
    (spaced (args.map Expr.layout)).rendering cfg column =
      [' '].intercalate (args.map (·.oneLine.toList)) := by
  have coherent : (spaced (args.map Expr.layout)).Coherent :=
    .joined .space (List.forall_mem_map.mpr fun e _ => e.forms_coherent.whole)
  have output : ((spaced (args.map Expr.layout)).run cfg (.inside column)).output.toList =
      (Printer.inside column).output.toList ++
        (spaced (args.map Expr.layout)).rendering cfg column := rfl
  have stays := (Layout.stays_iff output).mpr oneLine
  have written := coherent.run_eq_write cfg (.inside column) (.inl rfl) stays
  have line : (spaced (args.map Expr.layout)).oneLine =
      " ".intercalate (args.map Expr.oneLine) := by
    rw [spaced, Layout.space, Layout.oneLine_joined, List.map_map]
    rfl
  have noNewline : '\n' ∉ (spaced (args.map Expr.layout)).oneLine.toList := by
    rw [Layout.Stays, written, write_line] at stays
    exact List.count_eq_zero.mp (by omega)
  calc (spaced (args.map Expr.layout)).rendering cfg column
    _ = ((Printer.inside column).write (spaced (args.map Expr.layout)).oneLine).output.toList :=
      congrArg (·.output.toList) written
    _ = (spaced (args.map Expr.layout)).oneLine.toList := by
      rw [write_of_inLine rfl noNewline]
      simp [Printer.inside]
    _ = [' '].intercalate (args.map (·.oneLine.toList)) := by
      rw [line, String.toList_intercalate, List.map_map]
      rfl

/-- The order of the trials: on the line of the head, behind the head, and then the block. -/
theorem Expr.run_app (func arg : Expr) (cfg : Config) (p : Printer) :
    (Expr.app func arg).layout.run cfg p =
      let layouts := (func.args ++ [arg]).map Expr.layout
      let head := func.head.layout.run cfg p
      let short := (p.trial (func.head.layout.run cfg)).isShort cfg
      if Placement.Tried short (func.args ++ [arg]) ∧
          Fit.line.accepts cfg (head.trial ((hang (spaced layouts)).run cfg)) = true then
        (hang (spaced layouts)).run cfg head
      else if short = true ∨
          (Fit.stack layouts.length).accepts cfg
            (head.trial ((hang (lined layouts)).run cfg)) = true then
        (hang (lined layouts)).run cfg head
      else (Layout.newline ++ .step (lined layouts)).run cfg head := by
  have layouts : ((func.args ++ [arg]).map argument).map (·.layout) =
      (func.args ++ [arg]).map Expr.layout := by
    rw [List.map_map]
    rfl
  have flats : ((func.args ++ [arg]).map argument).countP (!·.flat) =
      (func.args ++ [arg]).countP (!·.isFlat) := by
    rw [List.countP_map]
    rfl
  rw [layout_app, Layout.application, Layout.run_byHead, layouts, flats, List.length_map,
    ← List.length_map Expr.layout]
  simp only
  cases (p.trial (func.head.layout.run cfg)).isShort cfg with
  | true =>
    rw [if_pos rfl, if_pos (c := true = true ∨ _) (.inl rfl)]
    by_cases few : (func.args ++ [arg]).countP (!·.isFlat) < 2
    · have tried : Placement.Tried true (func.args ++ [arg]) := .inr ⟨rfl, few⟩
      rw [if_pos few, Layout.onHeadLine, Layout.run_attempt]
      simp only [tried, true_and]
    · have refused : ¬Placement.Tried true (func.args ++ [arg]) := by
        rintro (none | ⟨-, some⟩)
        · omega
        · exact few some
      rw [if_neg few, if_neg fun both => refused both.1]
  | false =>
    simp only [Bool.false_eq_true, if_false, false_or]
    by_cases none : (func.args ++ [arg]).countP (!·.isFlat) = 0
    · have tried : Placement.Tried false (func.args ++ [arg]) := .inl none
      rw [if_pos none, Layout.onHeadLine, Layout.run_attempt, Layout.run_attempt]
      simp only [tried, true_and]
    · have refused : ¬Placement.Tried false (func.args ++ [arg]) := by
        rintro (all | ⟨short, -⟩)
        · exact none all
        · cases short
      rw [if_neg none, if_neg (c := Placement.Tried _ _ ∧ _) (fun both => refused both.1),
        Layout.run_attempt]

/-- Behind its head, an application appends the text of the placement that is chosen. -/
theorem Expr.app_output {func arg : Expr} (names : (Expr.app func arg).EveryName Plain)
    (cfg : Config) (p : Printer) (inLine : (func.head.layout.run cfg p).atLineStart = false) :
    let args := func.args ++ [arg]
    let head := func.head.layout.run cfg p
    let short := (p.trial (func.head.layout.run cfg)).isShort cfg
    ((Expr.app func arg).layout.run cfg p).output.toList = head.output.toList ++
      (Placement.chosen cfg short head.column args).text cfg head.column p.indent args := by
  intro args head short
  have opens : ∀ item ∈ args.map Expr.layout, item.Opens (· ≠ '\n') := by
    refine List.forall_mem_map.mpr fun e mem => (Expr.forms_open_plain ?_).whole
    exact (Expr.app func arg).args_everyName names e mem
  have some : args.map Expr.layout ≠ [] := by simp [args]
  have base : head.indent = p.indent := func.head.layout.run_indent cfg p
  have stack : (Fit.stack (args.map Expr.layout).length).accepts cfg
      (head.trial ((hang (lined (args.map Expr.layout))).run cfg)) = true ↔
        ∀ e ∈ args, e.layout.FitsFrom cfg cfg.tolerantLimit (head.column + 1) := by
    rw [Layout.accepts_stack_iff some opens inLine, List.forall_mem_map]
  have line : Fit.line.accepts cfg
      (head.trial ((hang (spaced (args.map Expr.layout))).run cfg)) = true ↔
        (spaced (args.map Expr.layout)).FitsFrom cfg cfg.columnLimit (head.column + 1) :=
    Layout.accepts_line_hang_iff _ inLine
  rw [Expr.run_app, Placement.chosen]
  simp only [← line, ← stack]
  by_cases kept : Placement.Tried short args ∧
      Fit.line.accepts cfg (head.trial ((hang (spaced (args.map Expr.layout))).run cfg)) = true
  · rw [if_pos kept, if_pos kept, Layout.hang_output _ inLine,
      Expr.rendering_spaced (line.mp kept.2).1]
    rfl
  · rw [if_neg kept, if_neg kept]
    split
    · rw [Layout.stack_output some opens inLine, List.map_map]
      rfl
    · rw [Layout.block_output some opens, List.map_map, base]
      rfl

/-! ## Choices -/

namespace Placement

variable {cfg : Config} {short : Bool} {column : Nat} {args : List Expr}

/-- Arguments on the line of the head end within the column limit. -/
theorem onLine_fits (onLine : chosen cfg short column args = .onLine) (base : Nat) :
    '\n' ∉ text cfg column base args .onLine ∧
      column + (text cfg column base args .onLine).length ≤ cfg.columnLimit := by
  have fits : (spaced (args.map Expr.layout)).FitsFrom cfg cfg.columnLimit (column + 1) := by
    unfold chosen at onLine
    split at onLine
    · next kept => exact kept.2
    · split at onLine <;> cases onLine
  obtain ⟨oneLine, within⟩ := fits
  have lines := Expr.rendering_spaced oneLine
  rw [lines] at oneLine within
  rw [text, List.mem_cons, not_or, List.length_cons]
  exact ⟨⟨by decide, oneLine⟩, by omega⟩

/-- Behind a long head, arguments that are not on its line hang exactly if each of them fits. -/
theorem hanging_iff (long : short = false) (other : chosen cfg short column args ≠ .onLine) :
    chosen cfg short column args = .hanging ↔
      ∀ e ∈ args, e.layout.FitsFrom cfg cfg.tolerantLimit (column + 1) := by
  unfold chosen at other ⊢
  split at other
  · exact absurd rfl other
  · next refused =>
    rw [if_neg refused]
    split
    · next stacked => exact ⟨fun _ => stacked.resolve_left (by simp [long]), fun _ => rfl⟩
    · next refused => exact ⟨nofun, fun fits => absurd (.inr fits) refused⟩

/-- A block stands one step inside the base. -/
theorem block_text {base : Nat} (room : base + cfg.indentSpaces ≤ maxWidth) :
    Placement.block.text cfg column base args =
      (args.map fun arg => '\n' :: List.replicate (base + cfg.indentSpaces) ' ' ++
        arg.layout.rendering cfg (base + cfg.indentSpaces)).flatten := by
  rw [text, Config.stepFrom_eq room]

/-- Behind a short head, arguments form no block. -/
theorem ne_block (isShort : short = true) : chosen cfg short column args ≠ .block := by
  unfold chosen
  split
  · exact nofun
  · rw [if_pos (.inl isShort)]
    exact nofun

end Placement

/-! ## Main statement -/

/-- The arguments of an application stand in one of three places, and in each of them a stacked
argument is what it would be by itself at that column.

After the head has been written, which ends inside a line, the arguments follow on its line, where
they end within the column limit; or one below the other behind the head; or one below the other,
one step inside the base, which is the sum of the two as long as that can be represented. After a
head that is not short, arguments that are not on its line hang behind it exactly if each of them
takes one line within the tolerant limit. After a short head they never form a block. -/
theorem arguments_placed {func arg : Expr} (names : (Expr.app func arg).EveryName Plain)
    (cfg : Config) (p : Printer) :
    let args := func.args ++ [arg]
    let head := func.head.layout.run cfg p
    let short := (p.trial (func.head.layout.run cfg)).isShort cfg
    let placement := Placement.chosen cfg short head.column args
    let text := placement.text cfg head.column p.indent args
    head.atLineStart = false ∧
      ((Expr.app func arg).layout.run cfg p).output.toList = head.output.toList ++ text ∧
      (placement = .onLine → '\n' ∉ text ∧ head.column + text.length ≤ cfg.columnLimit) ∧
      (short = false → placement ≠ .onLine → (placement = .hanging ↔
        ∀ e ∈ args, e.layout.FitsFrom cfg cfg.tolerantLimit (head.column + 1))) ∧
      (short = true → placement ≠ .block) ∧
      (placement = .block → p.indent + cfg.indentSpaces ≤ maxWidth →
        text = (args.map fun arg => '\n' :: List.replicate (p.indent + cfg.indentSpaces) ' ' ++
          arg.layout.rendering cfg (p.indent + cfg.indentSpaces)).flatten) := by
  intro args head short placement text
  have inLine : head.atLineStart = false := by
    have closes := (Expr.forms_close_plain names.1).head cfg p nofun
    rwa [func.forms_head] at closes
  refine ⟨inLine, Expr.app_output names cfg p inLine, fun onLine => ?_,
    fun long other => Placement.hanging_iff long other, Placement.ne_block, fun block room => ?_⟩
  · have fits := Placement.onLine_fits onLine p.indent
    rwa [← onLine] at fits
  · rw [← Placement.block_text room, ← block]

/-- A call whose second argument takes two lines. -/
def stepwiseCall : Expr :=
  .app (.app (.var "function") (.var "x")) (.block [.expr (.var "a"), .expr (.var "b")])

/-- Behind a head that is not short, the two lines of the second argument make a block of both. -/
theorem arguments_placed_stepwise :
    let args : List Expr := [.var "x", .block [.expr (.var "a"), .expr (.var "b")]]
    Placement.chosen { shortName := 4 } false 8 args = .block ∧
      (stepwiseCall.layout.run { shortName := 4 } .start).output.toList =
        "function".toList ++ Placement.block.text { shortName := 4 } 8 0 args ∧
      (stepwiseCall.layout.run { shortName := 4 } .start).output =
        "function\n  x\n  do a\n     b" := by
  intro args
  have function : Plain "function" := by decide
  have x : Plain "x" := by decide
  have a : Plain "a" := by decide
  have b : Plain "b" := by decide
  have names : stepwiseCall.EveryName Plain := ⟨⟨function, x⟩, a, b, trivial⟩
  have block : Placement.chosen { shortName := 4 } false 8 args = .block := by decide +kernel
  obtain ⟨-, output, -⟩ := arguments_placed names { shortName := 4 } .start
  exact ⟨block, output.trans (congrArg _ (congrArg _ block)), by decide +kernel⟩

end TrialLayout
