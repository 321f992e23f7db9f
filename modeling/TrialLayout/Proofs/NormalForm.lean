import TrialLayout.Proofs.Composition
import Mathlib.Data.List.DropRight

/-!
# Finished texts are normal forms

Finishing drops the longest tail of white space of every line, and finalizing in addition brings
the newlines at the end of the text down to one. What comes out is a normal form: written on a
fresh printer and finished in the same way, it comes out again.

* `TrimsTo p text rest`: `rest` is `text` without its longest tail of characters in a class. Both
  steps are of this kind, with white space as the class in the first and the newline in the second
  (`dropTail_trims`).
* A text is finished if no line of it ends in white space (`finish_of_trimmed`). Both results are
  (`trimmed_of_mem_finish`, `trimmed_of_mem_finalize`).
* On a fresh printer no indentation is pending, neither at the start nor after a newline, so the
  text that is written is the output (`Printer.write_output_of_margin`).

Result: `finished_text_reissues`.
-/

namespace TrialLayout

namespace Text

/-! ## Tails -/

/-- The text does not end in a character of the class `p`. -/
def Trimmed (p : Char → Bool) (text : List Char) : Prop :=
  ∀ c, text.getLast? = some c → p c = false

/-- `rest` is `text` without its longest tail of characters of the class `p`. -/
structure TrimsTo (p : Char → Bool) (text rest : List Char) : Prop where
  tail : ∃ tail, text = rest ++ tail ∧ ∀ c ∈ tail, p c = true
  trimmed : Trimmed p rest

variable {p : Char → Bool} {text : List Char}

theorem dropTail_trims (p : Char → Bool) (text : List Char) : TrimsTo p text (dropTail p text) where
  tail := dropTail_append p text
  trimmed := by
    intro c last
    obtain ⟨some, rfl⟩ := List.mem_getLast?_eq_getLast last
    exact Bool.eq_false_of_not_eq_true (List.rdropWhile_last_not p text some)

/-- Nothing is dropped from a text that does not end in the class. -/
theorem dropTail_of_trimmed (trimmed : Trimmed p text) : dropTail p text = text := by
  refine List.rdropWhile_eq_self_iff.mpr fun some => ?_
  rw [trimmed _ (List.getLast?_eq_getLast_of_ne_nil some)]
  exact Bool.false_ne_true

theorem dropTail_eq_nil_iff : dropTail p text = [] ↔ ∀ c ∈ text, p c = true :=
  List.rdropWhile_eq_nil_iff

/-- Another character of the class goes with the tail. -/
theorem dropTail_dropTail_append {c : Char} (hc : p c = true) (text : List Char) :
    dropTail p (dropTail p text ++ [c]) = dropTail p text := by
  have one : dropTail p (dropTail p text ++ [c]) = dropTail p (dropTail p text) :=
    List.rdropWhile_concat_pos p _ c hc
  rw [one, dropTail_of_trimmed (dropTail_trims p text).trimmed]

/-! ## Finished texts -/

theorem trimmed_of_mem_finish {text : String} {line : List Char}
    (mem : line ∈ splitLines (finish text).toList) : Trimmed isBlank line := by
  rw [splitLines_finish] at mem
  obtain ⟨whole, -, rfl⟩ := List.mem_map.mp mem
  exact (dropTail_trims isBlank whole).trimmed

/-- A text of which no line ends in white space is finished. -/
theorem finish_of_trimmed {text : String}
    (trimmed : ∀ line ∈ splitLines text.toList, Trimmed isBlank line) : finish text = text := by
  have same : (splitLines text.toList).map trimEnd = splitLines text.toList :=
    (List.map_congr_left fun line mem => dropTail_of_trimmed (trimmed line mem)).trans
      (List.map_id' _)
  rw [finish, same, joinLines_splitLines, String.ofList_toList]

theorem finish_finish (text : String) : finish (finish text) = finish text :=
  finish_of_trimmed fun _ => trimmed_of_mem_finish

/-! ## Final texts -/

theorem toList_finalize (text : String) :
    (finalize text).toList = dropTail (· == '\n') (finish text).toList ++ ['\n'] :=
  String.toList_ofList

/-- The lines of the final form are lines of the finished text, and an empty one. -/
theorem trimmed_of_mem_finalize {text : String} {line : List Char}
    (mem : line ∈ splitLines (finalize text).toList) : Trimmed isBlank line := by
  rw [toList_finalize, splitLines_append_newline] at mem
  rcases List.mem_append.mp mem with kept | last
  · obtain ⟨blank, shape⟩ := splitLines_dropTail (finish text).toList
    have mem : line ∈ splitLines (finish text).toList := by
      rw [shape]
      exact List.mem_append_left _ kept
    exact trimmed_of_mem_finish mem
  · rw [List.mem_singleton.mp last]
    exact fun c none => nomatch none

theorem finalize_finalize (text : String) : finalize (finalize text) = finalize text := by
  have finished : finish (finalize text) = finalize text :=
    finish_of_trimmed fun _ => trimmed_of_mem_finalize
  apply String.toList_inj.mp
  rw [toList_finalize, finished, toList_finalize, dropTail_dropTail_append rfl]

theorem joinLines_of_empty {lines : List (List Char)} (empty : ∀ line ∈ lines, line = []) :
    ∀ c ∈ joinLines lines, c = '\n' := by
  induction lines with
  | nil => exact fun c mem => nomatch mem
  | cons line rest ih =>
    rw [List.forall_mem_cons] at empty
    cases rest with
    | nil =>
      rw [empty.1]
      exact fun c mem => nomatch mem
    | cons next rest =>
      rw [joinLines_cons_cons, empty.1]
      exact List.forall_mem_cons.mpr ⟨rfl, ih empty.2⟩

/-- Of a text whose lines are all blank nothing is left but a newline. -/
theorem finalize_eq_newline_iff (text : String) :
    finalize text = "\n" ↔ ∀ line ∈ splitLines text.toList, ∀ c ∈ line, isBlank c = true := by
  have body : finalize text = "\n" ↔ ∀ c ∈ (finish text).toList, c = '\n' := by
    rw [← String.toList_inj, toList_finalize]
    show _ ++ ['\n'] = [] ++ ['\n'] ↔ _
    rw [List.append_left_inj, dropTail_eq_nil_iff]
    simp only [beq_iff_eq]
  rw [body]
  constructor
  · intro newlines line mem
    have lines := splitLines_of_newlines newlines
    rw [splitLines_finish] at lines
    have gone : trimEnd line ∈ List.replicate _ [] := lines ▸ List.mem_map_of_mem mem
    exact dropTail_eq_nil_iff.mp (List.eq_of_mem_replicate gone)
  · intro blank
    rw [← joinLines_splitLines (finish text).toList, splitLines_finish]
    refine joinLines_of_empty fun line mem => ?_
    obtain ⟨whole, inText, rfl⟩ := List.mem_map.mp mem
    exact dropTail_eq_nil_iff.mpr (blank whole inText)

end Text

/-! ## Writing at the margin -/

namespace Printer

/-- Without a base nothing is written but the text. -/
theorem write_output_of_margin {p : Printer} (margin : p.indent = 0) (content : String) :
    (p.write content).output.toList = p.output.toList ++ content.toList := by
  unfold write
  induction content.toList generalizing p with
  | nil => simp
  | cons c rest ih =>
    have one : (p.put c).output.toList = p.output.toList ++ [c] := by
      unfold put
      split
      next ends => simp [newline, ends]
      next => simp [push, pending, margin]
    have margin' : (p.put c).indent = 0 := by
      unfold put
      split
      · exact margin
      · exact p.settle_indent.trans margin
    rw [List.foldl_cons, ih margin', one, List.append_assoc, List.singleton_append]

/-- A fresh printer on which one text has been written. -/
def ofText (cfg : Config) (text : String) : Printer := (Script.write text .done).run cfg .start

theorem ofText_output (cfg : Config) (text : String) : (ofText cfg text).output = text := by
  apply String.toList_inj.mp
  exact write_output_of_margin (p := start) rfl text

theorem ofText_finish (cfg : Config) (p : Printer) : (ofText cfg p.finish).finish = p.finish := by
  rw [finish, ofText_output]
  exact Text.finish_finish p.output

theorem ofText_finalize (cfg : Config) (p : Printer) :
    (ofText cfg p.finalize).finalize = p.finalize := by
  rw [finalize, ofText_output]
  exact Text.finalize_finalize p.output

end Printer

/-! ## Formatted texts -/

theorem ok_of_withValid {cfg : Config} {format : Config → Except ReadError String}
    {text : String} (done : withValid cfg format = .ok text) : format cfg = .ok text := by
  unfold withValid at done
  split at done
  next => cases done
  next valid =>
    rw [(Config.validate_eq_ok_iff.mp valid).2] at done
    cases found : format cfg with
    | error e =>
      rw [found] at done
      cases done
    | ok text' =>
      rw [found] at done
      cases done
      rfl

namespace Forest

variable {f : Forest} {cfg : Config} {text : String}

theorem finish_of_exprText {id : ExprId} (done : f.exprText id cfg = .ok text) :
    ∃ p : Printer, p.finish = text := by
  obtain ⟨p, -, done⟩ := bind_eq_ok.mp done
  exact ⟨p, pure_eq_ok.mp done⟩

theorem finish_of_declText {d : DeclNode} (done : f.declText d cfg = .ok text) :
    ∃ p : Printer, p.finish = text := by
  obtain ⟨p, -, done⟩ := bind_eq_ok.mp done
  exact ⟨p, pure_eq_ok.mp done⟩

theorem finalize_of_moduleText {s : Span .decls} (done : f.moduleText s cfg = .ok text) :
    ∃ p : Printer, p.finalize = text := by
  obtain ⟨p, -, done⟩ := bind_eq_ok.mp done
  exact ⟨p, pure_eq_ok.mp done⟩

end Forest

open Text in
/-- Whatever a printer has put out, finishing it keeps the number of newlines and drops from each
line the longest tail of white space. Finalizing drops from the finished text the longest tail of
newlines and adds one, so that no line ends in white space, and nothing but a newline is left
exactly if all lines are blank. Each result comes out again if it is written at once on a fresh
printer and finished in the same way, and so does everything that is formatted. -/
theorem finished_text_reissues (p : Printer) (cfg : Config) :
    (p.finish.toList.count '\n' = p.output.toList.count '\n' ∧
      List.Forall₂ (TrimsTo isBlank) (splitLines p.output.toList) (splitLines p.finish.toList)) ∧
    (∃ body, TrimsTo (· == '\n') p.finish.toList body ∧ p.finalize.toList = body ++ ['\n']) ∧
    (∀ line ∈ splitLines p.finalize.toList, Trimmed isBlank line) ∧
    (p.finalize = "\n" ↔ ∀ line ∈ splitLines p.output.toList, ∀ c ∈ line, isBlank c = true) ∧
    (Printer.ofText cfg p.finish).finish = p.finish ∧
    (Printer.ofText cfg p.finalize).finalize = p.finalize ∧
    ∀ (f : Forest) (cfg' : Config) (text : String),
      (∀ id, f.formatExpr id = .ok text ∨ f.formatExprWith id cfg' = .ok text →
        (Printer.ofText cfg text).finish = text) ∧
      (∀ d, f.formatDecl d = .ok text → (Printer.ofText cfg text).finish = text) ∧
      (∀ s, f.formatModule s = .ok text ∨ f.formatModuleWith s cfg' = .ok text →
        (Printer.ofText cfg text).finalize = text) := by
  have lines : splitLines p.finish.toList = (splitLines p.output.toList).map trimEnd :=
    splitLines_finish p.output
  refine ⟨⟨?_, ?_⟩, ?_, fun _ => trimmed_of_mem_finalize, finalize_eq_newline_iff p.output,
    p.ofText_finish cfg, p.ofText_finalize cfg, fun f cfg' text => ⟨?_, ?_, ?_⟩⟩
  · have same := congrArg List.length lines
    rw [List.length_map, length_splitLines, length_splitLines] at same
    exact Nat.succ.inj same
  · rw [lines, List.forall₂_map_right_iff]
    exact List.forall₂_same.mpr fun line _ => dropTail_trims isBlank line
  · exact ⟨_, dropTail_trims (· == '\n') p.finish.toList, toList_finalize p.output⟩
  · rintro id (done | done)
    · obtain ⟨q, rfl⟩ := Forest.finish_of_exprText done
      exact q.ofText_finish cfg
    · obtain ⟨q, rfl⟩ := Forest.finish_of_exprText (ok_of_withValid done)
      exact q.ofText_finish cfg
  · intro d done
    obtain ⟨q, rfl⟩ := Forest.finish_of_declText done
    exact q.ofText_finish cfg
  · rintro s (done | done)
    · obtain ⟨q, rfl⟩ := Forest.finalize_of_moduleText done
      exact q.ofText_finalize cfg
    · obtain ⟨q, rfl⟩ := Forest.finalize_of_moduleText (ok_of_withValid done)
      exact q.ofText_finalize cfg

/-- A variable whose name has two lines with white space at their ends, and its definition. -/
def blotted : Forest where
  arena := { exprs := #[.var ⟨1⟩, .int 0], decls := #[.pattern ⟨0⟩ (.plain ⟨1⟩)] }
  names := .after .empty ["x \t\n\ty\r\n"]

/-- The newline at the end of the name stays in the expression. In the module the separator comes on
the line behind that newline, after its indentation. -/
theorem finished_text_reissues_blotted :
    blotted.formatExpr ⟨0⟩ = .ok "x\n\ty\n" ∧ (Printer.ofText {} "x\n\ty\n").finish = "x\n\ty\n" ∧
    blotted.formatModule ⟨0, 1⟩ = .ok "x\n\ty\n   = 0\n" ∧
    (Printer.ofText {} "x\n\ty\n   = 0\n").finalize = "x\n\ty\n   = 0\n" := by
  have expr : blotted.formatExpr ⟨0⟩ = .ok "x\n\ty\n" := rfl
  have module : blotted.formatModule ⟨0, 1⟩ = .ok "x\n\ty\n   = 0\n" := rfl
  obtain ⟨-, -, -, -, -, -, formatted⟩ := finished_text_reissues .start {}
  exact ⟨expr, (formatted blotted {} _).1 ⟨0⟩ (.inl expr), module,
    (formatted blotted {} _).2.2 ⟨0, 1⟩ (.inl module)⟩

end TrialLayout
