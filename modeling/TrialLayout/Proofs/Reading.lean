import TrialLayout.Format
import Mathlib.Data.List.Forall2

/-!
# Reading and what the nodes show

Reading follows the handles of a forest to a tree; the layout rules for nodes follow the same
handles, but never see the tree. `Shows read render view` says that the second way loses
nothing: wherever `read` finds a tree, `render` gives the `view` of it. Here this is shown for
types (`typeText_shows`, `signatureTypeLayout_shows`) and for the questions that a rule asks of
an expression: whether it is a reference, whether it is flat, and what its spine is.

Both ways count the layers through which they have descended. The induction is on the depth of
the reading, and the other side may go as deep or deeper.
-/

namespace TrialLayout

/-! ## Results -/

section Results

variable {ε α β γ : Type}

theorem bind_eq_ok {x : Except ε α} {g : α → Except ε β} {b : β} :
    x >>= g = .ok b ↔ ∃ a, x = .ok a ∧ g a = .ok b := by
  cases x with
  | error e =>
    constructor
    · intro h
      cases h
    · rintro ⟨_, h, _⟩
      cases h
  | ok a =>
    constructor
    · exact fun h => ⟨a, rfl, h⟩
    · rintro ⟨_, ⟨⟩, h⟩
      exact h

theorem pure_eq_ok {a b : α} : (pure a : Except ε α) = .ok b ↔ a = b := by
  constructor
  · rintro ⟨⟩
    rfl
  · rintro rfl
    rfl

theorem mapM_eq_ok {g : α → Except ε β} {xs : List α} {ys : List β} :
    xs.mapM g = .ok ys ↔ List.Forall₂ (fun x y => g x = .ok y) xs ys := by
  induction xs generalizing ys with
  | nil =>
    rw [List.mapM_nil, pure_eq_ok, List.forall₂_nil_left_iff]
    exact eq_comm
  | cons x rest ih =>
    simp only [List.mapM_cons, bind_eq_ok, pure_eq_ok, ih, List.forall₂_cons_left_iff]
    constructor
    · rintro ⟨y, first, others, later, rfl⟩
      exact ⟨y, others, first, later, rfl⟩
    · rintro ⟨y, others, first, later, rfl⟩
      exact ⟨y, first, others, later, rfl⟩

theorem isEmpty_of_mapM {g : α → Except ε β} {xs : List α} {ys : List β}
    (done : xs.mapM g = .ok ys) : ys.isEmpty = xs.isEmpty := by
  cases mapM_eq_ok.mp done <;> rfl

/-- Wherever `read` succeeds, `render` gives the view of what was read. -/
def Shows (read : α → Except ε β) (render : α → Except ε γ) (view : β → γ) : Prop :=
  ∀ ⦃x y⦄, read x = .ok y → render x = .ok (view y)

theorem Shows.mapM {read : α → Except ε β} {render : α → Except ε γ} {view : β → γ}
    (shows : Shows read render view) :
    Shows (List.mapM read) (List.mapM render) (List.map view) := by
  intro xs ys done
  rw [mapM_eq_ok, List.forall₂_map_right_iff]
  exact (mapM_eq_ok.mp done).imp fun x y found => shows found

end Results

/-! ## Trees -/

theorem Ty.inlineAll_eq_map (ts : List Ty) : Ty.inlineAll ts = ts.map Ty.inline := by
  induction ts with
  | nil => rfl
  | cons t rest ih => rw [Ty.inlineAll, ih, List.map_cons]

theorem Ty.inline_quantified (binders : List String) (context : List Ty) (body : Ty) :
    (Ty.quantified binders context body).inline =
      (if binders.isEmpty then "" else "forall " ++ " ".intercalate binders ++ ". ") ++
        (if context.isEmpty then "" else Ty.contextText context ++ " => ") ++ body.inline := by
  match context with
  | [] => rfl
  | [single] => rfl
  | first :: second :: rest =>
    simp only [Ty.inline, Ty.inlineAll, Ty.contextText, List.isEmpty_cons, Bool.false_eq_true,
      if_false, String.append_assoc]
    rfl

theorem Ty.signatureLayout_quantified (binders : List String) {context : List Ty} (body : Ty)
    (some : context.isEmpty = false) :
    (Ty.quantified binders context body).signatureLayout =
      Ty.binderLine binders ++ .text (Ty.contextText context) ++ .newline ++
        .shift (-3) (.depend (.text "=> ") body.chain) := by
  cases context with
  | nil => cases some
  | cons t rest => rfl

/-! ## Ranges -/

namespace Arena

theorem slice_length {a : Arena} {k : Pool} {s : Span k} {items : List k.Item}
    (done : a.slice s = .ok items) : items.length = s.len := by
  unfold slice at done
  split at done
  next inside =>
    cases done
    unfold Span.stop at inside ⊢
    simp only [Array.length_toList, Array.size_extract]
    omega
  next => cases done

end Arena

namespace Forest

variable {f : Forest}

/-- Only a range without items is passed over. -/
theorem sliceUnlessEmpty_cases {k : Pool} {s : Span k} {items : List k.Item}
    (done : f.sliceUnlessEmpty s = .ok items) :
    (s.isEmpty = true ∧ items = []) ∨
      (s.isEmpty = false ∧ items.isEmpty = false ∧ f.arena.slice s = .ok items) := by
  unfold sliceUnlessEmpty at done
  split at done
  next empty =>
    cases done
    exact .inl ⟨empty, rfl⟩
  next nonempty =>
    have nonempty : s.isEmpty = false := Bool.eq_false_iff.mpr nonempty
    refine .inr ⟨nonempty, ?_, done⟩
    have length := Arena.slice_length done
    cases items with
    | nil => simp [Span.isEmpty, ← length] at nonempty
    | cons item rest => rfl

/-! ## Types -/

section TypeLayers

variable {read : TypeId → Except ReadError Ty} {text : TypeId → Except ReadError String}

theorem contextText_shows (shows : Shows read text Ty.inline) :
    Shows (List.mapM read) (contextText text) Ty.contextText := by
  intro ids ts done
  match ids with
  | [] =>
    cases done
    rfl
  | [single] =>
    simp only [List.mapM_cons, List.mapM_nil, bind_eq_ok, pure_eq_ok] at done
    obtain ⟨t, first, _, rfl, rfl⟩ := done
    exact shows first
  | first :: second :: rest =>
    have shown := shows.mapM done
    simp only [List.mapM_cons, bind_eq_ok, pure_eq_ok] at done
    obtain ⟨t, -, _, ⟨u, -, us, -, rfl⟩, rfl⟩ := done
    simp only [contextText, bind_eq_ok, pure_eq_ok]
    refine ⟨_, shown, ?_⟩
    rw [Ty.contextText, Ty.inlineAll_eq_map]
    simp

theorem binderText_eq {binders : Span .names} {names : List Name}
    (found : f.sliceUnlessEmpty binders = .ok names) :
    f.binderText binders =
      .ok (if (f.lookupAll names).isEmpty then ""
        else "forall " ++ " ".intercalate (f.lookupAll names) ++ ". ") := by
  rcases sliceUnlessEmpty_cases found with ⟨empty, rfl⟩ | ⟨nonempty, some, inside⟩
  · rw [binderText, empty]
    rfl
  · rw [binderText, nonempty, inside, lookupAll, List.isEmpty_map, some]
    rfl

theorem assertionText_eq (shows : Shows read text Ty.inline) {context : Span .types}
    {ids : List TypeId} {ts : List Ty} (found : f.sliceUnlessEmpty context = .ok ids)
    (done : ids.mapM read = .ok ts) :
    f.assertionText text context =
      .ok (if ts.isEmpty then "" else Ty.contextText ts ++ " => ") := by
  rcases sliceUnlessEmpty_cases found with ⟨empty, rfl⟩ | ⟨nonempty, some, inside⟩
  · cases done
    rw [assertionText, empty]
    rfl
  · rw [assertionText, nonempty, inside, isEmpty_of_mapM done, some]
    simp only [Bool.false_eq_true, if_false, bind_eq_ok, pure_eq_ok]
    exact ⟨ids, rfl, _, contextText_shows shows done, rfl⟩

theorem typeNodeText_shows (shows : Shows read text Ty.inline) :
    Shows (f.readTypeNode read) (f.typeNodeText text) Ty.inline := by
  intro node t done
  cases node with
  | con name | var name =>
    cases done
    rfl
  | app func arg | arrow arg result =>
    simp only [readTypeNode, bind_eq_ok, pure_eq_ok] at done
    obtain ⟨t, first, u, second, rfl⟩ := done
    rw [typeNodeText, shows first, shows second]
    rfl
  | list element | paren inner =>
    simp only [readTypeNode, bind_eq_ok, pure_eq_ok] at done
    obtain ⟨t, first, rfl⟩ := done
    rw [typeNodeText, shows first]
    rfl
  | tuple boxity items =>
    simp only [readTypeNode, bind_eq_ok, pure_eq_ok] at done
    obtain ⟨ids, inside, ts, done, rfl⟩ := done
    simp only [typeNodeText, bind_eq_ok]
    refine ⟨ids, inside, ?_⟩
    rw [shows.mapM done, ← isEmpty_of_mapM done, Ty.inline, Ty.inlineAll_eq_map]
    split <;> rfl
  | quantified binders context body =>
    simp only [readTypeNode, bind_eq_ok, pure_eq_ok] at done
    obtain ⟨names, inNames, ids, inContext, ts, done, t, last, rfl⟩ := done
    rw [typeNodeText, binderText_eq inNames, assertionText_eq shows inContext done, shows last,
      Ty.inline_quantified]
    rfl

/-- Only an arrow has several components. -/
theorem arrows_of_readTypeNode {node : TypeNode} {t : Ty}
    (done : f.readTypeNode read node = .ok t)
    (other : ∀ arg result, node ≠ .arrow arg result) : t.arrows = [t] := by
  cases node with
  | arrow arg result => exact absurd rfl (other arg result)
  | _ =>
    simp only [readTypeNode, bind_eq_ok, pure_eq_ok] at done
    grind [Ty.arrows]

/-- Only a quantified type has lines of its own in a signature. -/
theorem signatureLayout_of_readTypeNode {node : TypeNode} {t : Ty}
    (done : f.readTypeNode read node = .ok t)
    (other : ∀ binders context body, node ≠ .quantified binders context body) :
    t.signatureLayout = t.chain := by
  cases node with
  | quantified binders context body => exact absurd rfl (other binders context body)
  | _ =>
    simp only [readTypeNode, bind_eq_ok, pure_eq_ok] at done
    grind [Ty.signatureLayout]

end TypeLayers

theorem readTypeTo_succ {depth : Nat} {id : TypeId} {t : Ty} :
    f.readTypeTo (depth + 1) id = .ok t ↔
      ∃ node, f.arena.get id = .ok node ∧ f.readTypeNode (f.readTypeTo depth) node = .ok t :=
  bind_eq_ok

theorem typeTextTo_shows (f : Forest) {depth n : Nat} (enough : depth ≤ n) :
    Shows (f.readTypeTo depth) (f.typeTextTo n) Ty.inline := by
  induction depth generalizing n with
  | zero =>
    intro id t done
    cases done
  | succ depth ih =>
    intro id t done
    cases n with
    | zero => cases enough
    | succ n =>
      obtain ⟨node, here, done⟩ := readTypeTo_succ.mp done
      rw [typeTextTo, here]
      exact typeNodeText_shows (ih (Nat.le_of_succ_le_succ enough)) done

/-- A type on one line, found without reading it first. -/
theorem typeText_shows (f : Forest) : Shows f.readType f.typeText Ty.inline :=
  f.typeTextTo_shows (Nat.le_refl _)

/-- The components of an arrow stand along the right spine of its nodes. -/
theorem arrowsTo_of_readTypeTo {depth n : Nat} (enough : depth ≤ n)
    (bounded : depth ≤ f.arena.types.size + 1) {id : TypeId} {t : Ty}
    (done : f.readTypeTo depth id = .ok t) :
    ∃ ids, f.arena.arrowsTo n id = .ok ids ∧
      ids.mapM f.typeText = .ok (t.arrows.map Ty.inline) := by
  induction depth generalizing n id t with
  | zero => cases done
  | succ depth ih =>
    cases n with
    | zero => cases enough
    | succ n =>
      have whole : f.typeText id = .ok t.inline := f.typeTextTo_shows bounded done
      obtain ⟨node, here, done⟩ := readTypeTo_succ.mp done
      rw [Arena.arrowsTo, here]
      cases node with
      | arrow arg result =>
        simp only [readTypeNode, bind_eq_ok, pure_eq_ok] at done
        obtain ⟨t, first, u, last, rfl⟩ := done
        have bounded := Nat.le_of_succ_le bounded
        obtain ⟨ids, found, shown⟩ := ih (Nat.le_of_succ_le_succ enough) bounded last
        have first : f.typeText arg = .ok t.inline := f.typeTextTo_shows bounded first
        refine ⟨arg :: ids, bind_eq_ok.mpr ⟨_, rfl, bind_eq_ok.mpr ⟨ids, found, rfl⟩⟩, ?_⟩
        rw [List.mapM_cons, first, shown]
        rfl
      | _ =>
        refine ⟨[id], rfl, ?_⟩
        rw [arrows_of_readTypeNode done (by simp), List.mapM_cons, whole]
        rfl

theorem chainLayout_of_readTypeTo {depth : Nat} (bounded : depth ≤ f.arena.types.size + 1)
    {id : TypeId} {t : Ty} (done : f.readTypeTo depth id = .ok t) :
    f.chainLayout id = .ok t.chain := by
  obtain ⟨ids, found, shown⟩ := arrowsTo_of_readTypeTo bounded bounded done
  have whole : f.typeText id = .ok t.inline := f.typeTextTo_shows bounded done
  simp only [chainLayout, bind_eq_ok, pure_eq_ok]
  refine ⟨ids, found, _, shown, _, whole, ?_⟩
  rw [Ty.chain, List.map_map]
  rfl

theorem signatureTypeLayout_shows (f : Forest) :
    Shows f.readType f.signatureTypeLayout Ty.signatureLayout := by
  intro id t done
  have whole := chainLayout_of_readTypeTo (Nat.le_refl _) done
  obtain ⟨node, here, done⟩ := readTypeTo_succ.mp done
  rw [signatureTypeLayout, here]
  cases node with
  | quantified binders context body =>
    simp only [readTypeNode, bind_eq_ok, pure_eq_ok] at done
    obtain ⟨names, inNames, ids, inContext, ts, asserted, t, last, rfl⟩ := done
    have chain := chainLayout_of_readTypeTo (Nat.le_succ _) last
    refine bind_eq_ok.mpr ⟨_, rfl, bind_eq_ok.mpr ⟨names, inNames, ?_⟩⟩
    rcases sliceUnlessEmpty_cases inContext with ⟨empty, rfl⟩ | ⟨nonempty, some, inContext⟩
    · cases asserted
      simp only [empty, if_true, chain]
      rfl
    · have some := (isEmpty_of_mapM asserted).trans some
      have context := contextText_shows (f.typeTextTo_shows (Nat.le_succ _)) asserted
      simp only [nonempty, Bool.false_eq_true, if_false, chain]
      rw [Ty.signatureLayout_quantified _ _ some]
      exact bind_eq_ok.mpr ⟨ids, inContext, bind_eq_ok.mpr ⟨_, context, rfl⟩⟩
  | _ =>
    rw [signatureLayout_of_readTypeNode done (by simp)]
    exact whole

/-! ## Shapes -/

section Shapes

variable {read : ExprId → Except ReadError Expr} {node : ExprNode} {e : Expr}

theorem isReference_of_readExprNode (done : f.readExprNode read node = .ok e) :
    node.isReference = e.isReference := by
  cases node with
  | _ =>
    simp only [readExprNode, bind_eq_ok, pure_eq_ok] at done
    grind [Expr.isReference, ExprNode.isReference]

/-- Only an application has arguments. -/
theorem spine_of_readExprNode (done : f.readExprNode read node = .ok e)
    (other : ∀ func arg, node ≠ .app func arg) : e.head = e ∧ e.args = [] := by
  cases node with
  | app func arg => exact absurd rfl (other func arg)
  | _ =>
    simp only [readExprNode, bind_eq_ok, pure_eq_ok] at done
    grind [Expr.head, Expr.args]

/-- Only an operator looks different as a statement. -/
theorem statement_of_readExprNode (done : f.readExprNode read node = .ok e)
    (other : ∀ left op right, node ≠ .binary left op right) :
    e.forms.statement = e.layout := by
  cases node with
  | binary left op right => exact absurd rfl (other left op right)
  | _ =>
    simp only [readExprNode, bind_eq_ok, pure_eq_ok] at done
    grind [Expr.forms, Expr.layout, Forms.statement, Forms.apply]

theorem isFlatNode_of_readExprNode {child : ExprId → Except ReadError Bool}
    (reference : Shows read f.arena.isReference Expr.isReference)
    (flat : Shows read child Expr.isFlat) (done : f.readExprNode read node = .ok e) :
    f.arena.isFlatNode child node = .ok e.isFlat := by
  cases node with
  | lambda params body =>
    simp only [readExprNode, bind_eq_ok, pure_eq_ok] at done
    obtain ⟨_, -, body, readBody, rfl⟩ := done
    rw [Arena.isFlatNode, Expr.isFlat]
    exact flat readBody
  | app func arg =>
    simp only [readExprNode, bind_eq_ok, pure_eq_ok] at done
    obtain ⟨func, readFunc, arg, readArg, rfl⟩ := done
    rw [Arena.isFlatNode, reference readFunc, reference readArg, Expr.isFlat]
    cases func.isReference <;> rfl
  | binary left op right =>
    simp only [readExprNode, bind_eq_ok, pure_eq_ok] at done
    obtain ⟨left, readLeft, right, readRight, rfl⟩ := done
    rw [Arena.isFlatNode, flat readLeft, flat readRight, Expr.isFlat]
    cases left.isFlat <;> rfl
  | neg operand | leftSection operand op | rightSection op operand | paren operand =>
    simp only [readExprNode, bind_eq_ok, pure_eq_ok] at done
    obtain ⟨operand, readOperand, rfl⟩ := done
    rw [Arena.isFlatNode, Expr.isFlat]
    exact flat readOperand
  | list items =>
    simp only [readExprNode, bind_eq_ok, pure_eq_ok] at done
    obtain ⟨ids, found, es, done, rfl⟩ := done
    rw [Arena.isFlatNode, Expr.isFlat, isEmpty_of_mapM done]
    rcases sliceUnlessEmpty_cases found with ⟨empty, rfl⟩ | ⟨nonempty, some, -⟩
    · rw [empty]
      rfl
    · rw [nonempty, some]
  | _ =>
    simp only [readExprNode, bind_eq_ok, pure_eq_ok] at done
    grind [Expr.isFlat, Arena.isFlatNode]

end Shapes

theorem readExprTo_succ {depth : Nat} {id : ExprId} {e : Expr} :
    f.readExprTo (depth + 1) id = .ok e ↔
      ∃ node, f.arena.get id = .ok node ∧ f.readExprNode (f.readExprTo depth) node = .ok e :=
  bind_eq_ok

theorem isReference_shows (f : Forest) (depth : Nat) :
    Shows (f.readExprTo depth) f.arena.isReference Expr.isReference := by
  intro id e done
  cases depth with
  | zero => cases done
  | succ depth =>
    obtain ⟨node, here, done⟩ := readExprTo_succ.mp done
    rw [Arena.isReference, here, ← isReference_of_readExprNode done]
    rfl

theorem isFlatTo_shows (f : Forest) {depth n : Nat} (enough : depth ≤ n) :
    Shows (f.readExprTo depth) (f.arena.isFlatTo n) Expr.isFlat := by
  induction depth generalizing n with
  | zero =>
    intro id e done
    cases done
  | succ depth ih =>
    intro id e done
    cases n with
    | zero => cases enough
    | succ n =>
      obtain ⟨node, here, done⟩ := readExprTo_succ.mp done
      rw [Arena.isFlatTo, here]
      exact isFlatNode_of_readExprNode (f.isReference_shows depth)
        (ih (Nat.le_of_succ_le_succ enough)) done

/-- The head and the arguments of an application stand along the left spine of its nodes. They
are read at no greater depth than the application. -/
theorem spineTo_of_readExprTo {depth n : Nat} (enough : depth ≤ n) {id : ExprId} {e : Expr}
    (done : f.readExprTo depth id = .ok e) (rest : List ExprId) :
    ∃ head args, f.arena.spineTo n id rest = .ok (head, args ++ rest) ∧
      (∃ k ≤ depth, f.readExprTo k head = .ok e.head) ∧
      List.Forall₂ (fun arg x => ∃ k ≤ depth, f.readExprTo k arg = .ok x) args e.args := by
  induction depth generalizing n id e rest with
  | zero => cases done
  | succ depth ih =>
    cases n with
    | zero => cases enough
    | succ n =>
      have whole := done
      obtain ⟨node, here, done⟩ := readExprTo_succ.mp done
      rw [Arena.spineTo, here]
      cases node with
      | app func arg =>
        simp only [readExprNode, bind_eq_ok, pure_eq_ok] at done
        obtain ⟨func', readFunc, arg', readArg, rfl⟩ := done
        obtain ⟨head, args, found, ⟨k, le, first⟩, others⟩ :=
          ih (Nat.le_of_succ_le_succ enough) readFunc (arg :: rest)
        refine ⟨head, args ++ [arg], ?_, ⟨k, Nat.le_succ_of_le le, first⟩, ?_⟩
        · rw [List.append_assoc]
          exact found
        · refine List.rel_append (others.imp ?_) (.cons ⟨depth, Nat.le_succ _, readArg⟩ .nil)
          rintro arg x ⟨k, le, readArg⟩
          exact ⟨k, Nat.le_succ_of_le le, readArg⟩
      | _ =>
        obtain ⟨head, args⟩ := spine_of_readExprNode done (by simp)
        refine ⟨id, [], rfl, ⟨depth + 1, Nat.le_refl _, ?_⟩, ?_⟩
        · rw [head]
          exact whole
        · rw [args]
          exact .nil

end Forest

end TrialLayout
