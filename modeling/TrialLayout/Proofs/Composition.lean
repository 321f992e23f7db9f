import TrialLayout.Proofs.Advance
import TrialLayout.Proofs.Lines
import TrialLayout.Proofs.Representation
import TrialLayout.Proofs.Totality

/-!
# Modules by their declarations

The text of a module is put together from the texts that its declarations have by themselves:
one newline follows a signature, two follow any other declaration, and the whole ends in
exactly one newline. What a declaration looks like depends neither on its neighbours nor on
its line.

* A gap brings the printer back to the state of a fresh one, but for the text above, because
  every layout leaves the base as it was (`gapAfter_run`). A declaration does not look at the
  text above (`Layout.run_positional`), so it appends what it writes on a fresh printer
  (`layoutAfter_output`).
* Trailing white space is dropped line by line, and a newline stands between two declarations,
  so finishing the whole finishes each (`finish_juxtapose`).

Result: `module_compositional`.
-/

namespace TrialLayout

open Text

/-! ## Texts one after another -/

/-- What stands between a declaration and the next one. -/
def DeclNode.separator : DeclNode → String
  | .signature .. => "\n"
  | .function .. | .pattern .. => "\n\n"

/-- The texts of declarations, with what stands between them. -/
def juxtapose : List (DeclNode × String) → String
  | [] => ""
  | [(_, text)] => text
  | (d, text) :: next :: rest => text ++ d.separator ++ juxtapose (next :: rest)

theorem finish_append_separator (d : DeclNode) (a b : String) :
    finish (a ++ d.separator ++ b) = finish a ++ d.separator ++ finish b := by
  cases d with
  | signature names type => exact finish_append_newline a b
  | function name params rhs | pattern pattern rhs =>
    have cut (x y : String) : x ++ "\n\n" ++ y = x ++ "\n" ++ ("" ++ "\n" ++ y) := by
      rw [String.append_assoc, String.append_assoc]
      rfl
    show finish (a ++ "\n\n" ++ b) = finish a ++ "\n\n" ++ finish b
    rw [cut, finish_append_newline, finish_append_newline, cut]
    rfl

/-- Finishing the whole finishes each part. -/
theorem finish_juxtapose (parts : List (DeclNode × String)) :
    finish (juxtapose parts) = juxtapose (parts.map (Prod.map id finish)) := by
  induction parts with
  | nil => rfl
  | cons part rest ih =>
    cases rest with
    | nil => rfl
    | cons next rest =>
      rw [juxtapose, finish_append_separator, ih]
      rfl

/-! ## What a module writes -/

theorem Printer.newline_eq_prepend {p : Printer} (base : p.indent = 0) :
    p.newline = start.prepend (p.output ++ "\n") (p.line + 1) := by
  have output : p.output.push '\n' = p.output ++ "\n" ++ "" := by
    simp [← String.toList_inj]
  unfold newline prepend start
  rw [output, base]
  rfl

namespace Forest

variable {f : Forest}

/-- After a gap the printer is a fresh one with the text so far above it. -/
theorem gapAfter_run (d : DeclNode) (cfg : Config) {p : Printer} (base : p.indent = 0) :
    ∃ lines, (gapAfter d).run cfg p = Printer.start.prepend (p.output ++ d.separator) lines := by
  cases d with
  | signature names type => exact ⟨_, Printer.newline_eq_prepend base⟩
  | function name params rhs | pattern pattern rhs =>
    refine ⟨p.line + 2, ?_⟩
    have output : p.newline.output ++ "\n" = p.output ++ "\n\n" := by
      simp [← String.toList_inj, Printer.newline]
    show p.newline.newline = Printer.start.prepend (p.output ++ "\n\n") (p.line + 2)
    rw [Printer.newline_eq_prepend (p := p.newline) base, output]
    rfl

/-- What follows a declaration whose text ends the output. -/
theorem layoutAfter_output (cfg : Config) {nodes : List DeclNode} {layouts : List Layout}
    (laid : List.Forall₂ (fun d l => f.declLayout d = .ok l) nodes layouts)
    (previous : DeclNode) :
    ∃ l, f.layoutAfter previous nodes = .ok l ∧
      ∀ (p : Printer) (above text : String), p.indent = 0 → p.output = above ++ text →
        (l.run cfg p).output =
          above ++ juxtapose ((previous, text) ::
            nodes.zip (layouts.map fun l => (l.run cfg .start).output)) := by
  -- `text` is what `previous` has written, so that the separator goes behind it
  induction laid generalizing previous with
  | nil => exact ⟨_, rfl, fun _ _ _ _ output => output⟩
  | @cons d l nodes layouts first later ih =>
    obtain ⟨rest, found, output⟩ := ih d
    refine ⟨gapAfter previous ++ l ++ rest, ?_, ?_⟩
    · rw [layoutAfter, first, found]
      rfl
    · intro p above text base written
      obtain ⟨lines, fresh⟩ := gapAfter_run previous cfg base
      have here : l.run cfg ((gapAfter previous).run cfg p) =
          (l.run cfg .start).prepend (p.output ++ previous.separator) lines := by
        rw [fresh]
        exact l.run_positional cfg .start _ _
      have base' : ((l.run cfg .start).prepend (p.output ++ previous.separator) lines).indent = 0 :=
        l.run_indent cfg .start
      show (rest.run cfg (l.run cfg ((gapAfter previous).run cfg p))).output = _
      rw [here, output _ _ _ base' rfl, written, String.append_assoc, String.append_assoc]
      show _ = above ++ (text ++ previous.separator ++ juxtapose _)
      rw [String.append_assoc]
      rfl

/-- A module writes what its declarations write on fresh printers. -/
theorem moduleLayout_output (cfg : Config) {s : Span .decls} {nodes : List DeclNode}
    {layouts : List Layout} (inside : f.arena.slice s = .ok nodes)
    (laid : List.Forall₂ (fun d l => f.declLayout d = .ok l) nodes layouts) :
    ∃ l, f.moduleLayout s = .ok l ∧ (l.run cfg .start).output =
      juxtapose (nodes.zip (layouts.map fun l => (l.run cfg .start).output)) := by
  cases laid with
  | nil => exact ⟨_, bind_eq_ok.mpr ⟨_, inside, rfl⟩, rfl⟩
  | @cons d first nodes layouts here later =>
    obtain ⟨rest, found, output⟩ := layoutAfter_output cfg later d
    refine ⟨first ++ rest, ?_, ?_⟩
    · exact bind_eq_ok.mpr ⟨_, inside, bind_eq_ok.mpr ⟨_, here, bind_eq_ok.mpr
        ⟨_, found, rfl⟩⟩⟩
    · have written : (first.run cfg .start).output = "" ++ (first.run cfg .start).output :=
        String.empty_append.symm
      exact (output _ _ _ (first.run_indent cfg .start) written).trans String.empty_append

theorem declText_eq {d : DeclNode} {l : Layout} (laid : f.declLayout d = .ok l) (cfg : Config) :
    f.declText d cfg = .ok (l.render cfg) := by
  rw [declText, printDecl, laid]
  rfl

theorem moduleText_eq {s : Span .decls} {nodes : List DeclNode} {layouts : List Layout}
    (inside : f.arena.slice s = .ok nodes)
    (laid : List.Forall₂ (fun d l => f.declLayout d = .ok l) nodes layouts) (cfg : Config) :
    f.moduleText s cfg =
      .ok (endWithNewline (juxtapose (nodes.zip (layouts.map (·.render cfg))))) := by
  obtain ⟨l, whole, output⟩ := moduleLayout_output cfg inside laid
  have finished : finish (l.run cfg .start).output =
      juxtapose (nodes.zip (layouts.map (·.render cfg))) := by
    rw [output, finish_juxtapose, ← List.zip_map_right, List.map_map]
    rfl
  rw [← finished, moduleText, printModule, whole]
  rfl

end Forest

theorem withValid_eq {cfg : Config} (valid : cfg.validate = .ok cfg)
    (format : Config → Except ReadError String) :
    withValid cfg format = (format cfg).mapError .read := by
  rw [withValid, valid]

/-- The text of a module is that of its declarations, each formatted by itself, with one newline
after a signature and two after any other declaration, ended by exactly one newline. -/
theorem module_compositional {f : Forest} (bounds : f.arena.InBounds)
    (acyclic : f.arena.Acyclic) {s : Span .decls} (inside : s.stop ≤ f.arena.decls.size)
    {cfg : Config} (valid : cfg.validate = .ok cfg) :
    ∃ nodes texts, f.arena.slice s = .ok nodes ∧
      List.Forall₂ (fun d text => f.declText d cfg = .ok text) nodes texts ∧
      f.formatModuleWith s cfg = .ok (endWithNewline (juxtapose (nodes.zip texts))) := by
  have holds : f.arena.Holds s := inside
  obtain ⟨m, done⟩ := Forest.readModule_succeeds bounds acyclic holds
  obtain ⟨nodes, found, done⟩ := bind_eq_ok.mp done
  have laid := mapM_eq_ok.mp (f.declLayout_shows.mapM done)
  refine ⟨nodes, (m.map Decl.layout).map (·.render cfg), found, ?_, ?_⟩
  · rw [List.forall₂_map_right_iff]
    exact laid.imp fun d l laid => Forest.declText_eq laid cfg
  · rw [Forest.formatModuleWith, withValid_eq valid, Forest.moduleText_eq found laid cfg]
    rfl

/-- `f :: T`, `f x = (x, f x)` and `x = f`, with `x` and `f` held once. -/
def pairing : Forest where
  arena :=
    { exprs := #[.var ⟨2⟩, .var ⟨1⟩, .app ⟨1⟩ ⟨0⟩, .tuple .boxed ⟨1, 2⟩]
      types := #[.con ⟨3⟩]
      exprLists := #[⟨0⟩, ⟨0⟩, ⟨2⟩]
      nameLists := #[⟨1⟩]
      decls := #[.signature ⟨0, 1⟩ ⟨0⟩, .function ⟨1⟩ ⟨0, 1⟩ (.plain ⟨3⟩),
        .pattern ⟨0⟩ (.plain ⟨1⟩)] }
  names := .after .empty ["f", "x", "T"]

theorem pairing_inBounds : pairing.arena.InBounds := by
  constructor
  · intro kind
    cases kind <;> decide
  · intro pool
    cases pool <;> decide

/-- The declarations stand above all expressions, the tuple above the lists of expressions, and
these above the items of the tuple. -/
theorem pairing_acyclic : pairing.arena.Acyclic := by
  let node : NodeKind → Nat → Nat
    | .expr, i => if i = 3 then 4 else i
    | .type, _ => 0
  let list : Pool → Nat
    | .exprs => 3
    | .decls => 5
    | _ => 0
  refine Arena.acyclic_of_rank node list ?_ ?_
  · intro kind
    cases kind <;> decide
  · intro pool
    cases pool <;> decide

/-- Three declarations under the default thresholds, and what they come out as. -/
theorem module_compositional_pairing :
    pairing.arena.InBounds ∧ pairing.arena.Acyclic ∧
    pairing.formatModuleWith ⟨0, 3⟩ {} = .ok "f :: T\nf x = (x, f x)\n\nx = f\n" ∧
    ∃ nodes texts, pairing.arena.slice (⟨0, 3⟩ : Span .decls) = .ok nodes ∧
      List.Forall₂ (fun d text => pairing.declText d {} = .ok text) nodes texts ∧
      pairing.formatModuleWith ⟨0, 3⟩ {} =
        .ok (endWithNewline (juxtapose (nodes.zip texts))) := by
  refine ⟨pairing_inBounds, pairing_acyclic, rfl, ?_⟩
  exact module_compositional pairing_inBounds pairing_acyclic (by decide) (by decide)

end TrialLayout
