import Mathlib.Data.List.Forall2
import TrialLayout.Proofs.Emission
import TrialLayout.Proofs.Literals
import TrialLayout.Proofs.Names
import TrialLayout.Proofs.Tokens

/-!
# Layouts keep the tokens

Whichever of its renderings a rule chooses, it writes the tokens of its tree, in order and in
one piece, with nothing but spaces and newlines between them. So a rendering can differ from
another one in its gaps only.

`Layout.Weaves` states this of one layout, for all thresholds and all printers at once. It is
closed under every way of putting layouts together; an attempt keeps it when both its
renderings weave the same tokens.
-/

namespace TrialLayout

open Printer

/-! ## Definitions -/

/-- A text without newlines that is woven of tokens. -/
def Spells (free : Bool) (tokens : List Token) (text : String) (free' : Bool) : Prop :=
  Text.OneLine text ∧ Woven free tokens text.toList free'

/-- Under all thresholds and from every printer, a layout appends a text woven of tokens. -/
def Layout.Weaves (free : Bool) (tokens : List Token) (l : Layout) (free' : Bool) : Prop :=
  ∀ cfg p, ∃ text, (l.run cfg p).output.toList = p.output.toList ++ text ∧
    Woven free tokens text free'

/-- A layout that may follow a gap or a mark, and be followed by anything but a word. -/
abbrev Layout.WeavesItem (l : Layout) (tokens : List Token) : Prop := l.Weaves true tokens false

/-- Brackets that stand for a delimiter. -/
structure Brackets (opening closing : String) (delimiter : Delimiter) : Prop where
  opening_spells : Spells true [.opening delimiter] opening true
  closing_spells : Spells false [.closing delimiter] closing false

/-- A separator with a space on either side of its word. -/
structure Separator (text word : String) : Prop where
  spells : Spells false [.word word] text true

/-! ## Texts -/

namespace Spells

theorem empty (a : Bool) : Spells a [] "" a := ⟨by decide, .done id⟩

theorem append {a b c : Bool} {first second : List Token} {x y : String}
    (hx : Spells a first x b) (hy : Spells b second y c) :
    Spells a (first ++ second) (x ++ y) c := by
  refine ⟨hx.1.append hy.1, ?_⟩
  rw [String.toList_append]
  exact hx.2.append hy.2

theorem end_false {a b : Bool} {tokens : List Token} {text : String}
    (h : Spells a tokens text b) : Spells a tokens text false :=
  ⟨h.1, h.2.end_false⟩

theorem word {text : String} (oneLine : Text.OneLine text) :
    Spells true [.word text] text false :=
  ⟨oneLine, .word true text rfl⟩

theorem mark (a : Bool) {t : Token} (ht : t.isMark = true) : Spells a [t] t.text true := by
  refine ⟨?_, .mark a ht⟩
  match t with
  | .opening d | .closing d => cases d <;> decide
  | .comma | .minus | .backslash | .quote | .typeQuote | .backtick | .dot => decide
  | .word _ => exact absurd ht Bool.false_ne_true

theorem space (a : Bool) : Spells a [] " " true := ⟨by decide, .space a⟩

/-- A keyword at the beginning of a line or after a gap, with a space after it. -/
theorem keyword (text : String) (oneLine : Text.OneLine text) :
    Spells true [.word text] (text ++ " ") true :=
  (word oneLine).append (space false)

/-- A keyword with a space before it. -/
theorem spaced (a : Bool) (text : String) (oneLine : Text.OneLine text) :
    Spells a [.word text] (" " ++ text) false :=
  (space a).append (word oneLine)

theorem separator {a : Bool} (text : String) (oneLine : Text.OneLine text) :
    Spells a [.word text] (" " ++ text ++ " ") true :=
  (spaced a text oneLine).append (space false)

/-- Texts with a separator between each two. -/
theorem intercalate {separator : String} {between : List Token}
    (hs : Spells false between separator true) {texts : List String}
    {items : List (List Token)}
    (h : List.Forall₂ (fun text tokens => Spells true tokens text false) texts items) :
    Spells true (between.intercalate items) (separator.intercalate texts) false := by
  induction h with
  | nil => exact (empty true).end_false
  | cons first rest ih =>
    cases rest with
    | nil => simpa using first
    | cons second more =>
      rw [String.intercalate_cons_cons, List.intercalate_cons_cons]
      exact (first.append hs).append ih

theorem comma (a : Bool) : Spells a [.comma] ", " true :=
  (mark a (t := .comma) rfl).append (space true)

end Spells

theorem intercalate_nil_eq_flatten {α : Type} (items : List (List α)) :
    ([] : List α).intercalate items = items.flatten := by
  induction items with
  | nil => rfl
  | cons first rest ih =>
    cases rest with
    | nil => simp
    | cons second more => rw [List.intercalate_cons_cons, ih]; simp

theorem intercalate_cons_eq {α : Type} (between first : List α) (rest : List (List α)) :
    between.intercalate (first :: rest) = first ++ (rest.map (between ++ ·)).flatten := by
  induction rest generalizing first with
  | nil => simp
  | cons second more ih => rw [List.intercalate_cons_cons, ih]; simp

/-! ## Layouts -/

namespace Layout

namespace Weaves

variable {a b c : Bool} {tokens first second : List Token} {l left right : Layout}

theorem end_false (h : l.Weaves a tokens b) : l.Weaves a tokens false := by
  intro cfg p
  obtain ⟨x, appended, woven⟩ := h cfg p
  exact ⟨x, appended, woven.end_false⟩

theorem free_mono (h : l.Weaves b tokens c) (hab : b = true → a = true) :
    l.Weaves a tokens c := by
  intro cfg p
  obtain ⟨x, appended, woven⟩ := h cfg p
  exact ⟨x, appended, woven.free_mono hab⟩

theorem text {content : String} (h : Spells a tokens content b) :
    (Layout.text content).Weaves a tokens b := by
  intro cfg p
  by_cases empty : content = ""
  · subst empty
    exact ⟨[], by simp [run], h.2⟩
  · refine ⟨p.pending ++ content.toList, ?_, ?_⟩
    · rw [run, write_settle p empty h.1, write_of_inLine p.settle_atLineStart h.1]
      simp
    · unfold pending
      split
      · exact h.2.indentation p.indent
      · exact h.2

theorem empty : Layout.empty.Weaves a [] a := text (.empty a)

theorem space : Layout.space.Weaves a [] true := text (.space a)

theorem newline : Layout.newline.Weaves a [] true := by
  intro cfg p
  exact ⟨['\n'], by simp [run, Printer.newline], .newline a⟩

theorem seq (hl : left.Weaves a first b) (hr : right.Weaves b second c) :
    (left ++ right).Weaves a (first ++ second) c := by
  intro cfg p
  obtain ⟨x, hx, wovenx⟩ := hl cfg p
  obtain ⟨y, hy, woveny⟩ := hr cfg (left.run cfg p)
  exact ⟨x ++ y, by rw [← List.append_assoc, ← hx]; exact hy, wovenx.append woveny⟩

theorem shift (delta : Int) (h : l.Weaves a tokens b) : (Layout.shift delta l).Weaves a tokens b :=
  fun cfg p => h cfg (p.setIndent (shifted p.indent delta))

theorem step (h : l.Weaves a tokens b) : (Layout.step l).Weaves a tokens b :=
  fun cfg p => h cfg (p.setIndent (cfg.stepFrom p.indent))

theorem depend (hl : left.Weaves a first b) (hr : right.Weaves b second c) :
    (Layout.depend left right).Weaves a (first ++ second) c := by
  intro cfg p
  obtain ⟨x, hx, wovenx⟩ := hl cfg p
  simp only [run, Printer.depend]
  -- the base under which the right part is run does not matter for its tokens
  split
  · obtain ⟨y, hy, woveny⟩ := hr cfg (left.run cfg p)
    exact ⟨x ++ y, by rw [← List.append_assoc, ← hx]; exact hy, wovenx.append woveny⟩
  · obtain ⟨y, hy, woveny⟩ := hr cfg ((left.run cfg p).setIndent (left.run cfg p).column)
    exact ⟨x ++ y, by rw [← List.append_assoc, ← hx]; exact hy, wovenx.append woveny⟩

theorem attempt (fit : Fit) (ht : left.Weaves a tokens b) (hf : right.Weaves a tokens b) :
    (Layout.attempt fit left right).Weaves a tokens b := by
  intro cfg p
  rw [run_attempt]
  split
  · exact ht cfg p
  · exact hf cfg p

theorem byHead {head : Layout} (hh : head.Weaves a first b) (hs : left.Weaves b second c)
    (hl : right.Weaves b second c) :
    (Layout.byHead head left right).Weaves a (first ++ second) c := by
  intro cfg p
  rw [run_byHead]
  split
  · exact (hh.seq hs) cfg p
  · exact (hh.seq hl) cfg p

theorem hang (h : l.Weaves true tokens b) : (Layout.hang l).Weaves a tokens b := by
  intro cfg p
  obtain ⟨x, hx, wovenx⟩ := (text (.space a)) cfg p
  obtain ⟨y, hy, woveny⟩ := h cfg ((p.write " ").setIndent (p.column + 1))
  exact ⟨x ++ y, by rw [← List.append_assoc, ← hx]; exact hy, wovenx.append woveny⟩

theorem resume (hl : left.Weaves a first b) (hr : right.Weaves b second c) :
    (Layout.resume left right).Weaves a (first ++ second) c := by
  intro cfg p
  obtain ⟨x, hx, wovenx⟩ := hl cfg p
  obtain ⟨y, hy, woveny⟩ :=
    hr cfg ((left.run cfg p).setIndent (cfg.stepFrom p.effectiveColumn))
  exact ⟨x ++ y, by rw [← List.append_assoc, ← hx]; exact hy, wovenx.append woveny⟩

/-! ## Sequences of items -/

variable {items : List Layout} {parts : List (List Token)}

theorem joined {separator : Layout} (hs : separator.Weaves false tokens true)
    (h : List.Forall₂ WeavesItem items parts) :
    (Layout.joined separator items).WeavesItem (tokens.intercalate parts) := by
  induction h with
  | nil => exact empty.end_false
  | cons first rest ih =>
    cases rest with
    | nil => simpa [Layout.joined] using first
    | cons second more =>
      rw [List.intercalate_cons_cons]
      exact (first.seq hs).seq ih

theorem listed (h : List.Forall₂ WeavesItem items parts) :
    (Layout.listed items).WeavesItem (commaSeparated parts) :=
  joined (text (.comma false)) h

theorem spaced (h : List.Forall₂ WeavesItem items parts) :
    (Layout.spaced items).WeavesItem parts.flatten := by
  rw [← intercalate_nil_eq_flatten]
  exact joined (text (.space false)) h

theorem lined (h : List.Forall₂ WeavesItem items parts) :
    (Layout.lined items).WeavesItem parts.flatten := by
  rw [← intercalate_nil_eq_flatten]
  exact joined newline h

theorem underneath (h : List.Forall₂ WeavesItem items parts) :
    (Layout.underneath items).Weaves false parts.flatten false := by
  induction h with
  | nil => exact empty
  | cons first _ ih => exact (newline.seq first).seq ih

/-- Items after one another, each with a space before it. -/
theorem concat_space (h : List.Forall₂ WeavesItem items parts) :
    (concat (items.map (Layout.space ++ ·))).Weaves false parts.flatten false := by
  induction h with
  | nil => exact empty
  | cons first _ ih => exact (space.seq first).seq ih

theorem stacked {lead : String} (hl : Spells true tokens lead true)
    (h : List.Forall₂ (fun l tokens => l.Weaves a tokens false) items parts) :
    (Layout.stacked lead items).Weaves a (tokens.intercalate parts) false := by
  cases h with
  | nil => exact empty.end_false
  | cons first rest =>
    rw [intercalate_cons_eq]
    refine first.seq (shift _ (underneath ?_))
    rw [List.forall₂_map_left_iff, List.forall₂_map_right_iff]
    exact rest.imp fun _ _ item => (text hl).depend (item.free_mono fun _ => rfl)

/-! ## Collections, bodies, applications, operators -/

theorem row (h : List.Forall₂ WeavesItem items parts) :
    (Layout.row items).WeavesItem (commaSeparated parts) :=
  attempt .line (listed h) (stacked (.mark true (t := .comma) rfl) h)

theorem bracketed {opening closing : String} {delimiter : Delimiter}
    (hb : Brackets opening closing delimiter) (h : List.Forall₂ WeavesItem items parts) :
    (Layout.bracketed opening closing items).WeavesItem (enclosed delimiter parts) :=
  (text hb.opening_spells).depend ((row h).seq (text hb.closing_spells))

theorem bracketedWhole {opening closing : String} {delimiter : Delimiter}
    (hb : Brackets opening closing delimiter) (h : List.Forall₂ WeavesItem items parts) :
    (Layout.bracketedWhole opening closing items).WeavesItem (enclosed delimiter parts) :=
  attempt .line
    ((text hb.opening_spells).depend ((listed h).seq (text hb.closing_spells)))
    ((text hb.opening_spells).depend
      ((stacked (.mark true (t := .comma) rfl) h).seq (text hb.closing_spells)))

theorem attach {separator word : String} (hs : Separator separator word) (flat : Bool)
    (h : l.WeavesItem tokens) :
    (Layout.attach separator flat l).Weaves false (.word word :: tokens) false := by
  have behind : (Layout.depend (.text separator) l).Weaves false (.word word :: tokens) false :=
    (text hs.spells).depend h
  have below : (Layout.text separator ++ .newline ++ l).Weaves false (.word word :: tokens) false :=
    ((text hs.spells).seq newline).seq h
  unfold Layout.attach
  split
  · exact behind
  · exact attempt .small behind below

theorem application {head : Layout} {args : List Argument} (hh : head.WeavesItem first)
    (h : List.Forall₂ (fun arg tokens => arg.layout.WeavesItem tokens) args parts) :
    (Layout.application head args).WeavesItem (first ++ parts.flatten) := by
  have layouts : List.Forall₂ WeavesItem (args.map (·.layout)) parts := by
    rwa [List.forall₂_map_left_iff]
  have hanging : (Layout.hang (.lined (args.map (·.layout)))).Weaves false parts.flatten false :=
    hang (lined layouts)
  have block : (Layout.newline ++ .step (.lined (args.map (·.layout)))).Weaves
      false parts.flatten false :=
    newline.seq (step (lined layouts))
  have stack : (Layout.attempt (.stack args.length) (.hang (.lined (args.map (·.layout))))
      (.newline ++ .step (.lined (args.map (·.layout))))).Weaves false parts.flatten false :=
    attempt _ hanging block
  have onLine {fallback : Layout} (hf : fallback.Weaves false parts.flatten false) :
      (onHeadLine (args.map (·.layout)) fallback).Weaves false parts.flatten false :=
    attempt .line (hang (spaced layouts)) hf
  refine hh.byHead ?_ ?_
  · split
    · exact onLine hanging
    · exact hanging
  · split
    · exact onLine stack
    · exact stack

/-- Both ways in which the broken form is arranged keep the tokens. -/
theorem operation {op : String} {middle : List Token} {flat : Bool}
    {broken : Layout → Layout → Layout}
    (hbroken : ∀ {x y : Layout} {u v : List Token},
      x.Weaves true u true → y.WeavesItem v → (broken x y).WeavesItem (u ++ v))
    (hl : left.WeavesItem first) (ho : Spells true middle op false)
    (hr : right.WeavesItem second) :
    (Layout.operation flat left op right broken).WeavesItem (first ++ middle ++ second) := by
  have head : (left ++ Layout.space ++ .text op).WeavesItem (first ++ middle) := by
    have spaced : (left ++ Layout.space).Weaves true first true := by
      simpa using hl.seq space
    exact spaced.seq (text ho)
  have breaking : (broken (left ++ Layout.space ++ .text op ++ .newline) right).WeavesItem
      (first ++ middle ++ second) := by
    refine hbroken ?_ hr
    simpa using head.seq newline
  unfold Layout.operation
  split
  · refine attempt .within (depend ?_ hr) breaking
    simpa using head.seq space
  · exact breaking

end Weaves

end Layout

end TrialLayout
