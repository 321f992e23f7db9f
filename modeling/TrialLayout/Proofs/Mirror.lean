import TrialLayout.Arena.Render
import TrialLayout.Proofs.Intact

/-!
# Renderings and layouts

A rendering on demand is compared with making a layout first and then running it (`Render.of`).

* What a rule does to renderings it does to their layouts. `Mirrors` says this of one part and
  `MirrorsList` of the parts of a block. Where a trial and its fallback are made of the same
  parts, it does not matter that the fallback is looked at only when the trial is dropped
  (`attempt_of`).
* `Draws` joins the comparison with a condition that decides whether the layout can be made. It
  is closed under the ways in which rules are put together.
-/

namespace TrialLayout

namespace Render

variable {cfg : Config} {α : Type}

/-- A layout that is made first and then run. -/
def of (cfg : Config) (x : Except ReadError Layout) : Render := fun p => return (← x).run cfg p

theorem append_of (x y : Except ReadError Layout) :
    of cfg x ++ of cfg y = of cfg (do return (← x) ++ (← y)) := by
  funext p
  cases x <;> cases y <;> rfl

theorem depend_of (x y : Except ReadError Layout) :
    depend (of cfg x) (of cfg y) = of cfg (do return .depend (← x) (← y)) := by
  funext p
  cases x with
  | error e => rfl
  | ok left =>
    cases y with
    | error e => exact ite_self _
    | ok right => exact (apply_ite (Except.ok (ε := ReadError)) _ _ _).symm

theorem resume_of (x y : Except ReadError Layout) :
    resume cfg (of cfg x) (of cfg y) = of cfg (do return .resume (← x) (← y)) := by
  funext p
  cases x <;> cases y <;> rfl

theorem shift_of (delta : Int) (x : Except ReadError Layout) :
    shift delta (of cfg x) = of cfg (Layout.shift delta <$> x) := by
  funext p
  cases x <;> rfl

theorem step_of (x : Except ReadError Layout) : step cfg (of cfg x) = of cfg (.step <$> x) := by
  funext p
  cases x <;> rfl

theorem hang_of (x : Except ReadError Layout) : hang (of cfg x) = of cfg (.hang <$> x) := by
  funext p
  cases x <;> rfl

/-- If trial and fallback are made of the same parts, it does not matter that the fallback is
looked at only when the trial is dropped. -/
theorem attempt_of (fit : Fit) (x : Except ReadError α) (trial fallback : α → Layout) :
    attempt cfg fit (of cfg (trial <$> x)) (of cfg (fallback <$> x)) =
      of cfg ((fun a => .attempt fit (trial a) (fallback a)) <$> x) := by
  funext p
  cases x with
  | error e => rfl
  | ok a => exact (apply_ite (Except.ok (ε := ReadError)) _ _ _).symm

theorem byHead_of (x : Except ReadError Layout) (y : Except ReadError α) (short long : α → Layout) :
    byHead cfg (of cfg x) (of cfg (short <$> y)) (of cfg (long <$> y)) =
      of cfg (do let head ← x; let a ← y; return .byHead head (short a) (long a)) := by
  funext p
  cases x with
  | error e => rfl
  | ok head =>
    cases y with
    | error e => exact congrFun (ite_self _) _
    | ok a =>
      change (if (p.trial (head.run cfg)).isShort cfg then _ else _ : Render) _ =
        .ok ((if (p.trial (head.run cfg)).isShort cfg then _ else _ : Printer → Printer) _)
      split <;> rfl

theorem reading_of (source : Except ReadError α) (x : α → Except ReadError Layout) :
    (reading source fun a => of cfg (x a)) = of cfg (source >>= x) := by
  funext p
  cases source <;> rfl

/-! ## Blocks -/

/-- `op` does to a rendering what `lay` does to its layout. -/
def Mirrors (cfg : Config) (op : Render → Render) (lay : Layout → Layout) : Prop :=
  ∀ x, op (of cfg x) = of cfg (lay <$> x)

/-- `block` does to renderings what `lay` does to their layouts. -/
def MirrorsList (cfg : Config) (block : List Render → Render) (lay : List Layout → Layout) :
    Prop :=
  ∀ xs : List (Except ReadError Layout), block (xs.map (of cfg)) = of cfg (lay <$> xs.mapM id)

theorem Mirrors.id : Mirrors cfg id id := fun x => by rw [id_map]; rfl

theorem Mirrors.space_append : Mirrors cfg (space ++ ·) (.space ++ ·) := by
  intro x
  rw [map_eq_pure_bind]
  exact append_of (pure .space) x

theorem Mirrors.newline_append : Mirrors cfg (newline ++ ·) (.newline ++ ·) := by
  intro x
  rw [map_eq_pure_bind]
  exact append_of (pure .newline) x

theorem Mirrors.depend_text (content : String) :
    Mirrors cfg (depend (text content)) (.depend (.text content)) := by
  intro x
  rw [map_eq_pure_bind]
  exact depend_of (pure (.text content)) x

theorem Mirrors.append_text {op : Render → Render} {lay : Layout → Layout}
    (mirrors : Mirrors cfg op lay) (content : String) :
    Mirrors cfg (op · ++ text content) (lay · ++ .text content) := by
  intro x
  change op (of cfg x) ++ of cfg (pure (.text content)) = _
  rw [mirrors x, append_of]
  simp only [map_eq_pure_bind, bind_assoc, pure_bind]

theorem mapM_map {β γ : Type} (lay : β → γ) (read : α → Except ReadError β) (xs : List α) :
    xs.mapM (fun x => lay <$> read x) = List.map lay <$> xs.mapM read := by
  induction xs with
  | nil => rfl
  | cons x rest ih =>
    rw [List.mapM_cons, ih, List.mapM_cons]
    simp only [map_eq_pure_bind, bind_assoc, pure_bind, List.map_cons]

namespace MirrorsList

variable {block : List Render → Render} {lay : List Layout → Layout}

theorem map (mirrors : MirrorsList cfg block lay) {op : Render → Render}
    {layItem : Layout → Layout} (item : Mirrors cfg op layItem) :
    MirrorsList cfg (fun rs => block (rs.map op)) (fun ls => lay (ls.map layItem)) := by
  intro xs
  have inside : (xs.map (of cfg)).map op = (xs.map (layItem <$> ·)).map (of cfg) := by
    simp only [List.map_map]
    exact List.map_congr_left fun x _ => item x
  have layouts : (xs.map (layItem <$> ·)).mapM id = List.map layItem <$> xs.mapM id :=
    List.mapM_map.trans (mapM_map layItem id xs)
  simp only [inside, mirrors _, layouts, Functor.map_map]

theorem after (mirrors : MirrorsList cfg block lay) {op : Render → Render}
    {layAll : Layout → Layout} (all : Mirrors cfg op layAll) :
    MirrorsList cfg (fun rs => op (block rs)) (fun ls => layAll (lay ls)) := by
  intro xs
  simp only [mirrors xs, all _, Functor.map_map]

theorem attempt {trial fallback : List Render → Render}
    {layTrial layFallback : List Layout → Layout}
    (fit : Nat → Fit) (first : MirrorsList cfg trial layTrial)
    (second : MirrorsList cfg fallback layFallback) :
    MirrorsList cfg (fun rs => Render.attempt cfg (fit rs.length) (trial rs) (fallback rs))
      (fun ls => .attempt (fit ls.length) (layTrial ls) (layFallback ls)) := by
  intro xs
  simp only [first xs, second xs, List.length_map, attempt_of]
  cases done : xs.mapM id with
  | error e => rfl
  | ok ls =>
    rw [(mapM_eq_ok.mp done).length_eq]
    rfl

theorem concat : MirrorsList cfg concat Layout.concat := by
  intro xs
  induction xs with
  | nil => rfl
  | cons x rest ih =>
    simp only [List.map_cons, Render.concat, ih, append_of, List.mapM_cons, map_eq_pure_bind,
      bind_assoc, pure_bind, Layout.concat, id]

theorem joined {separator : Render} {laySeparator : Layout}
    (same : separator = of cfg (pure laySeparator)) :
    MirrorsList cfg (joined separator) (Layout.joined laySeparator) := by
  intro xs
  match xs with
  | [] => rfl
  | [x] =>
    simp only [List.map_cons, List.map_nil, Render.joined, List.mapM_cons, List.mapM_nil,
      map_eq_pure_bind, bind_assoc, pure_bind, Layout.joined, bind_pure, id]
  | x :: next :: rest =>
    have ih := joined same (next :: rest)
    rw [List.map_cons] at ih
    simp only [List.map_cons, Render.joined]
    rw [ih, same]
    simp only [append_of, List.mapM_cons, map_eq_pure_bind, bind_assoc, pure_bind, Layout.joined,
      id]

theorem spaced : MirrorsList cfg spaced Layout.spaced := joined rfl

theorem listed : MirrorsList cfg listed Layout.listed := joined rfl

theorem lined : MirrorsList cfg lined Layout.lined := joined rfl

theorem underneath : MirrorsList cfg underneath Layout.underneath :=
  concat.map .newline_append

theorem stacked (lead : String) : MirrorsList cfg (stacked lead) (Layout.stacked lead) := by
  intro xs
  cases xs with
  | nil => rfl
  | cons x rest =>
    have below : MirrorsList cfg
        (fun rs => shift (-(lead.length : Int)) (Render.underneath (rs.map (depend (text lead)))))
        (fun ls => .shift (-(lead.length : Int)) (.underneath (ls.map (.depend (.text lead))))) :=
      (underneath.map (.depend_text lead)).after (shift_of _)
    simp only [List.map_cons, Render.stacked, below rest, append_of, List.mapM_cons,
      map_eq_pure_bind, bind_assoc, pure_bind, Layout.stacked, id]

theorem row : MirrorsList cfg (row cfg) Layout.row := attempt (fun _ => .line) listed (stacked ",")

theorem bracketed (opening closing : String) :
    MirrorsList cfg (bracketed cfg opening closing) (Layout.bracketed opening closing) :=
  (row.after (Mirrors.id.append_text closing)).after (.depend_text opening)

theorem bracketedWhole (opening closing : String) :
    MirrorsList cfg (bracketedWhole cfg opening closing) (Layout.bracketedWhole opening closing) :=
  attempt (fun _ => .line)
    ((listed.after (Mirrors.id.append_text closing)).after (.depend_text opening))
    (((stacked ",").after (Mirrors.id.append_text closing)).after (.depend_text opening))

theorem hanging : MirrorsList cfg (fun rs => hang (Render.lined rs))
    (fun ls => .hang (.lined ls)) :=
  lined.after hang_of

theorem onHeadLine {fallback : List Render → Render} {layFallback : List Layout → Layout}
    (mirrors : MirrorsList cfg fallback layFallback) :
    MirrorsList cfg (fun rs => onHeadLine cfg rs (fallback rs))
      (fun ls => .onHeadLine ls (layFallback ls)) :=
  attempt (fun _ => .line) (spaced.after hang_of) mirrors

/-- The arguments behind a head that is not short. -/
theorem behindLong : MirrorsList cfg
    (fun rs => Render.attempt cfg (.stack rs.length) (hang (Render.lined rs))
      (newline ++ step cfg (Render.lined rs)))
    (fun ls => .attempt (.stack ls.length) (.hang (.lined ls))
      (.newline ++ .step (.lined ls))) :=
  attempt .stack hanging ((lined.after step_of).after .newline_append)

theorem ite {p : Prop} [Decidable p] {other : List Render → Render}
    {layOther : List Layout → Layout} (first : MirrorsList cfg block lay)
    (second : MirrorsList cfg other layOther) :
    MirrorsList cfg (fun rs => if p then block rs else other rs)
      (fun ls => if p then lay ls else layOther ls) := by
  split
  · exact first
  · exact second

/-- The items of a tuple. -/
theorem tuple (boxity : Boxity) :
    MirrorsList cfg
      (fun rs => if rs.isEmpty then text boxity.unit
        else Render.bracketed cfg boxity.opening boxity.closing rs)
      (fun ls => if ls.isEmpty then .text boxity.unit
        else .bracketed boxity.opening boxity.closing ls) := by
  intro xs
  cases xs with
  | nil => rfl
  | cons x rest =>
    refine (bracketed boxity.opening boxity.closing (x :: rest)).trans ?_
    simp only [List.mapM_cons, map_eq_pure_bind, bind_assoc, pure_bind, List.isEmpty_cons,
      Bool.false_eq_true, if_false]

end MirrorsList

theorem Mirrors.attach (separator : String) (flat : Bool) :
    Mirrors cfg (attach cfg separator flat) (Layout.attach separator flat) := by
  cases flat with
  | true => exact .depend_text separator
  | false =>
    intro x
    have broken : text separator ++ newline ++ of cfg x =
        of cfg ((Layout.text separator ++ Layout.newline ++ ·) <$> x) := by
      rw [map_eq_pure_bind]
      exact append_of (pure (.text separator ++ .newline)) x
    simp only [Render.attach, Bool.false_eq_true, if_false, broken, Mirrors.depend_text separator x]
    exact attempt_of .small x _ _

/-- Two operands and the operator between them; `broken` and `layBroken` arrange the broken
form. -/
theorem operation_of {broken : Render → Render → Render} {layBroken : Layout → Layout → Layout}
    (arranges : ∀ x y, broken (of cfg x) (of cfg y) = of cfg (do return layBroken (← x) (← y)))
    (flat : Bool) (x : Except ReadError Layout) (op : String) (y : Except ReadError Layout) :
    operation cfg flat (of cfg x) op (of cfg y) broken =
      of cfg (do return .operation flat (← x) op (← y) layBroken) := by
  have inLine : of cfg x ++ space ++ text op ++ space =
      of cfg ((· ++ .space ++ .text op ++ .space) <$> x) :=
    ((Mirrors.id.append_text " ").append_text op).append_text " " x
  have atEnd : of cfg x ++ space ++ text op ++ newline =
      of cfg ((· ++ .space ++ .text op ++ .newline) <$> x) := by
    refine (congrArg (· ++ newline) ((Mirrors.id.append_text " ").append_text op x)).trans ?_
    refine (append_of _ (pure .newline)).trans ?_
    simp only [map_eq_pure_bind, bind_assoc, pure_bind, id]
    rfl
  let parts : Except ReadError (Layout × Layout) := do return (← x, ← y)
  have breaking : broken (of cfg x ++ space ++ text op ++ newline) (of cfg y) =
      of cfg ((fun l => layBroken (l.1 ++ .space ++ .text op ++ .newline) l.2) <$> parts) := by
    rw [atEnd, arranges]
    simp only [parts, map_eq_pure_bind, bind_assoc, pure_bind]
  have fitting : depend (of cfg x ++ space ++ text op ++ space) (of cfg y) =
      of cfg ((fun l => .depend (l.1 ++ .space ++ .text op ++ .space) l.2) <$> parts) := by
    rw [inLine, depend_of]
    simp only [parts, map_eq_pure_bind, bind_assoc, pure_bind]
  have whole : operation cfg flat (of cfg x) op (of cfg y) broken =
      of cfg ((fun l => .operation flat l.1 op l.2 layBroken) <$> parts) := by
    cases flat with
    | false => exact breaking
    | true =>
      unfold operation
      rw [breaking, fitting]
      exact attempt_of .within parts _ _
  rw [whole]
  simp only [parts, map_eq_pure_bind, bind_assoc, pure_bind]

/-- What follows a head depends on the arguments and on whether they are flat. -/
theorem reading_flats {flats : Except ReadError (List Bool)}
    {xs : List (Except ReadError Layout)} {args : Except ReadError (List Layout.Argument)}
    (both : (do return (← flats, ← xs.mapM id)) =
      (fun as => (as.map (·.flat), as.map (·.layout))) <$> args)
    {block : List Bool → List Render → Render} {lay : List Bool → List Layout → Layout}
    (mirrors : ∀ bs, MirrorsList cfg (block bs) (lay bs)) :
    (reading flats fun bs => block bs (xs.map (of cfg))) =
      of cfg ((fun as => lay (as.map (·.flat)) (as.map (·.layout))) <$> args) := by
  have apart : (reading flats fun bs => block bs (xs.map (of cfg))) =
      of cfg (flats >>= fun bs => lay bs <$> xs.mapM id) := by
    rw [← reading_of]
    exact congrArg (reading flats) (funext fun bs => mirrors bs xs)
  have together := congrArg (fun parts => (fun l => lay l.1 l.2) <$> parts) both
  simp only [map_eq_pure_bind, bind_assoc, pure_bind] at apart together ⊢
  rw [apart, together]

/-- Whether the arguments are flat is asked for all of them when the head has been written; the
layout asks when it comes to each. -/
theorem application_of (x : Except ReadError Layout) {flats : Except ReadError (List Bool)}
    {xs : List (Except ReadError Layout)} {args : Except ReadError (List Layout.Argument)}
    (both : (do return (← flats, ← xs.mapM id)) =
      (fun as => (as.map (·.flat), as.map (·.layout))) <$> args) :
    application cfg (of cfg x) flats (xs.map (of cfg)) =
      of cfg (do return .application (← x) (← args)) := by
  have short := reading_flats both fun bs =>
    (@MirrorsList.onHeadLine cfg _ _ .hanging).ite (p := bs.countP (!·) < 2) .hanging
  have long := reading_flats both fun bs =>
    (@MirrorsList.onHeadLine cfg _ _ .behindLong).ite (p := bs.countP (!·) = 0) .behindLong
  refine (congrArg₂ (byHead cfg (of cfg x)) short long).trans ?_
  simp only [byHead_of, List.countP_map, List.length_map]
  rfl

end Render

/-! ## Drawing -/

/-- Rendering on demand does what running the layout does, and `P` decides whether that
succeeds. -/
structure Draws (cfg : Config) (r : Render) (x : Except ReadError Layout) (P : Prop) : Prop where
  same : r = .of cfg x
  decides : Decides x P

namespace Draws

variable {cfg : Config} {r r' : Render} {x y : Except ReadError Layout} {P Q : Prop}

theorem congr (draws : Draws cfg r x P) (layout : x = y) (needs : P ↔ Q) : Draws cfg r y Q :=
  ⟨layout ▸ draws.same, layout ▸ draws.decides.congr needs⟩

theorem text (content : String) : Draws cfg (.text content) (pure (.text content)) True :=
  ⟨rfl, .pure _⟩

theorem newline : Draws cfg .newline (pure .newline) True := ⟨rfl, .pure _⟩

theorem append (first : Draws cfg r x P) (second : Draws cfg r' y Q) :
    Draws cfg (r ++ r') (do return (← x) ++ (← y)) (P ∧ Q) where
  same := by rw [first.same, second.same, Render.append_of]
  decides := first.decides.bind fun _ _ => second.decides.map _

theorem depend (first : Draws cfg r x P) (second : Draws cfg r' y Q) :
    Draws cfg (.depend r r') (do return .depend (← x) (← y)) (P ∧ Q) where
  same := by rw [first.same, second.same, Render.depend_of]
  decides := first.decides.bind fun _ _ => second.decides.map _

theorem mirror {op : Render → Render} {lay : Layout → Layout} (draws : Draws cfg r x P)
    (mirrors : Render.Mirrors cfg op lay) : Draws cfg (op r) (do return lay (← x)) P where
  same := by rw [draws.same, mirrors x, map_eq_pure_bind]
  decides := draws.decides.map lay

theorem succeeds (draws : Draws cfg r x P) (holds : P) (p : Printer) :
    Succeeds (r p) ∧ Succeeds (do return (← x).run cfg p) := by
  have ran : Succeeds (do return (← x).run cfg p) :=
    (draws.decides.succeeds holds).bind fun _ _ => ⟨_, rfl⟩
  rw [draws.same]
  exact ⟨ran, ran⟩

/-- What is read first may need less than what follows. -/
theorem reading {α : Type} {source : Except ReadError α} {rule : α → Render}
    {lay : α → Except ReadError Layout} (within : Within source P)
    (next : ∀ a, source = .ok a → Draws cfg (rule a) (lay a) P) :
    Draws cfg (.reading source rule) (source >>= lay) P where
  same := by
    cases source with
    | error e => rfl
    | ok a => exact (next a rfl).same
  decides := within.bind_decides fun a found => (next a found).decides

theorem reading_text {α : Type} {source : Except ReadError α} (decides : Decides source P)
    (content : α → String) :
    Draws cfg (.reading source fun a => .text (content a))
      (do return .text (content (← source))) P where
  same := Render.reading_of source fun a => pure (.text (content a))
  decides := decides.map fun a => Layout.text (content a)

/-- A fallback that needs no more than its trial. -/
theorem attempt (fit : Fit) (trial : Draws cfg r x P) (fallback : r' = .of cfg y)
    (within : Within y P) :
    Draws cfg (.attempt cfg fit r r') (do return .attempt fit (← x) (← y)) P := by
  by_cases holds : P
  · obtain ⟨a, rfl⟩ := trial.decides.succeeds holds
    obtain ⟨b, rfl⟩ := within.succeeds holds
    refine ⟨?_, (Decides.pure _).congr (by simp [holds])⟩
    rw [trial.same, fallback]
    exact Render.attempt_of fit (pure ()) (fun _ => a) (fun _ => b)
  · have failed := trial.decides.fails holds
    subst failed
    refine ⟨?_, fun p => absurd p holds, fun _ => rfl⟩
    rw [trial.same]
    rfl

/-- The parts of a block. -/
theorem block {α : Type} {items : List α} {rule : α → Render} {lay : α → Except ReadError Layout}
    {R : α → Prop} {block : List Render → Render} {layBlock : List Layout → Layout}
    (mirrors : Render.MirrorsList cfg block layBlock)
    (each : ∀ item ∈ items, Draws cfg (rule item) (lay item) (R item)) :
    Draws cfg (block (items.map rule)) (do return layBlock (← items.mapM lay))
      (∀ item ∈ items, R item) where
  same := by
    have rules : items.map rule = (items.map lay).map (Render.of cfg) := by
      rw [List.map_map]
      exact List.map_congr_left fun item mem => (each item mem).same
    rw [rules, mirrors, List.mapM_map, map_eq_pure_bind]
    rfl
  decides := (Decides.mapM fun item mem => (each item mem).decides).map layBlock

end Draws

end TrialLayout
