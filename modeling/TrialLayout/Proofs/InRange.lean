import TrialLayout.Layout

/-!
# Runs within the largest width

A run forms sums: the column behind a text, the base one step or one column further right, a moved
base. Past the largest width a moved base is cut off and a step starts over from `0`, so that a
part may come to stand left of what it belongs to. Thresholds that `Config.validate` accepts can
lead there from the first columns on, since an indentation step may be nearly as wide as the widths
themselves.

`Layout.InRange` says that this does not happen: no sum that is formed on the way passes the
largest width, in trials neither, be they kept or dropped. It can be decided by running the layout.
-/

namespace TrialLayout

open Printer

namespace Layout

/-- No sum that the run forms passes the largest width, trials included. -/
def InRange (cfg : Config) : Layout → Printer → Prop
  | text content, p => p.effectiveColumn + content.length ≤ maxWidth
  | newline, _ => True
  | seq first second, p => InRange cfg first p ∧ InRange cfg second (first.run cfg p)
  | shift delta body, p =>
      p.indent + delta ≤ maxWidth ∧ InRange cfg body (p.setIndent (shifted p.indent delta))
  | step body, p =>
      p.indent + cfg.indentSpaces ≤ maxWidth ∧
        InRange cfg body (p.setIndent (cfg.stepFrom p.indent))
  | depend left right, p =>
      InRange cfg left p ∧ InRange cfg right (p.dependBase (left.run cfg p))
  | attempt fit trial fallback, p =>
      InRange cfg trial p ∧
        (¬fit.accepts cfg (p.trial (trial.run cfg)) → InRange cfg fallback p)
  | byHead head short long, p =>
      InRange cfg head p ∧
        ((p.trial (head.run cfg)).isShort cfg → InRange cfg short (head.run cfg p)) ∧
        (¬(p.trial (head.run cfg)).isShort cfg → InRange cfg long (head.run cfg p))
  | hang body, p =>
      p.effectiveColumn + 1 ≤ maxWidth ∧ InRange cfg body (p.space.setIndent (p.column + 1))
  | resume first rest, p =>
      InRange cfg first p ∧ p.effectiveColumn + cfg.indentSpaces ≤ maxWidth ∧
        InRange cfg rest ((first.run cfg p).setIndent (cfg.stepFrom p.effectiveColumn))

instance decidableInRange (cfg : Config) : (l : Layout) → (p : Printer) →
    Decidable (l.InRange cfg p)
  | text _, _ => Nat.decLe _ _
  | newline, _ => isTrue trivial
  | seq first second, p =>
      have := decidableInRange cfg first p
      have := decidableInRange cfg second (first.run cfg p)
      inferInstanceAs (Decidable (_ ∧ _))
  | shift delta body, p =>
      have := decidableInRange cfg body (p.setIndent (shifted p.indent delta))
      inferInstanceAs (Decidable (_ ∧ _))
  | step body, p =>
      have := decidableInRange cfg body (p.setIndent (cfg.stepFrom p.indent))
      inferInstanceAs (Decidable (_ ∧ _))
  | depend left right, p =>
      have := decidableInRange cfg left p
      have := decidableInRange cfg right (p.dependBase (left.run cfg p))
      inferInstanceAs (Decidable (_ ∧ _))
  | attempt _ trial fallback, p =>
      have := decidableInRange cfg trial p
      have := decidableInRange cfg fallback p
      inferInstanceAs (Decidable (_ ∧ (_ → _)))
  | byHead head short long, p =>
      have := decidableInRange cfg head p
      have := decidableInRange cfg short (head.run cfg p)
      have := decidableInRange cfg long (head.run cfg p)
      inferInstanceAs (Decidable (_ ∧ (_ → _) ∧ (_ → _)))
  | hang body, p =>
      have := decidableInRange cfg body (p.space.setIndent (p.column + 1))
      inferInstanceAs (Decidable (_ ∧ _))
  | resume first rest, p =>
      have := decidableInRange cfg first p
      have := decidableInRange cfg rest
        ((first.run cfg p).setIndent (cfg.stepFrom p.effectiveColumn))
      inferInstanceAs (Decidable (_ ∧ _ ∧ _))

end Layout

end TrialLayout
