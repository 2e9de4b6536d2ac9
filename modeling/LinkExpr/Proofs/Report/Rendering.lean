import LinkExpr.Report
import Mathlib.Data.Nat.Notation

/-!
# What a Warning Shows

A warning is written in runs of text, each of which is made plain on its own. Of these runs only few
can hold characters that control a terminal: the message, the line of the source and the texts of
the remarks. All others are written as they are, so that a warning begins with its message, shows
the line that it is about with the mark below it, and ends with an empty line. What the line of the
source leaves open may reach into the margin of the mark, which is in the same run, but no further.

## Main results

* `plainRuns_place`: how the line around a place is shown.
* `Warning.render_eq_shown`: how a warning is shown.
-/

namespace LinkExpr

open Text.Terminal

/-! ### Plain runs -/

/-- The digits of a number control nothing. -/
theorem isPlain_toString (n : ℕ) : IsPlain (toString n) := by
  intro c hc
  rw [Nat.toString_eq_repr, Nat.toList_repr] at hc
  have hdigit := Nat.isDigit_of_mem_toDigits (by decide) (by decide) hc
  rw [Char.isDigit_iff_toNat] at hdigit
  have hdelete : c ≠ '\x7f' := by
    rintro rfl
    exact absurd hdigit (by decide)
  simp only [isControl, hdelete]
  grind

theorem isPlain_replicate {c : Char} (h : isControl c = false) (n : ℕ) :
    IsPlain (String.ofList (List.replicate n c)) := by
  intro d hd
  rw [String.toList_ofList] at hd
  rwa [List.eq_of_mem_replicate hd]

theorem isPlain_blanks (n : ℕ) : IsPlain (blanks n) := isPlain_replicate (by decide) n

@[simp] theorem plainRuns_nil : plainRuns [] = "" := rfl

@[simp] theorem plainRuns_cons (run : String) (runs : List String) :
    plainRuns (run :: runs) = plain run ++ plainRuns runs := by
  rw [plainRuns, List.map_cons, String.join_cons, plainRuns]

@[simp] theorem plainRuns_append (runs more : List String) :
    plainRuns (runs ++ more) = plainRuns runs ++ plainRuns more := by
  rw [plainRuns, List.map_append, String.join_append, plainRuns, plainRuns]

/-! ### Remarks -/

/-- A remark on a line of its own, behind a margin. -/
def Remark.shown (margin : String) (r : Remark) : String :=
  "\n" ++ margin ++ " = " ++ r.kind ++ ": " ++ plain r.text

/-- How a remark is shown. -/
theorem plainRuns_remark {margin : String} (hmargin : IsPlain margin) (r : Remark) :
    plainRuns (r.runs margin) = r.shown margin := by
  have hbreak : IsPlain ("\n" ++ margin ++ " ") :=
    ((by decide : IsPlain "\n").append hmargin).append (by decide)
  have hkind : plain r.kind = r.kind := by
    cases r with
    | note text => exact plain_eq_self (by decide : IsPlain "note")
    | help text => exact plain_eq_self (by decide : IsPlain "help")
  have htext : plain (": " ++ r.text) = ": " ++ plain r.text := plain_append (by decide) _
  simp (disch := decide) only [Remark.runs, Remark.shown, plainRuns_cons, plainRuns_nil,
    plain_eq_self hbreak, hkind, htext, plain_eq_self]
  rw [← String.toList_inj]
  simp

/-! ### Excerpts -/

/-- The line of an expression around a place, with the mark below it. -/
def Excerpt.shown (e : Excerpt) : String :=
  "\n --> expression:" ++ toString e.line ++ ":" ++ toString e.column ++ "\n" ++
    e.margin ++ " | \n" ++
    toString e.line ++ " | " ++ plain (e.lineText ++ "\n" ++ e.margin ++ " ") ++ "| " ++
      blanks (e.column - 1) ++ "^" ++ String.ofList (List.replicate (e.length - 1) '-')

/-- **How the line around a place is shown.** -/
theorem plainRuns_place (e : Excerpt) :
    plainRuns (e.runs Warning.expressionLabel) = e.shown := by
  have hmargin : IsPlain e.margin := isPlain_blanks _
  have hnumbers : IsPlain (Excerpt.place Warning.expressionLabel e) := by
    have hlabel : IsPlain (" " ++ Warning.expressionLabel ++ ":") := by decide
    have hcolon : IsPlain ":" := by decide
    exact ((hlabel.append (isPlain_toString e.line)).append hcolon).append
      (isPlain_toString e.column)
  have hplace : IsPlain (Excerpt.place Warning.expressionLabel e ++ "\n" ++ e.margin ++ " ") := by
    have hbreak : IsPlain "\n" := by decide
    have hblank : IsPlain " " := by decide
    exact ((hnumbers.append hbreak).append hmargin).append hblank
  have hline : plain (" " ++ e.lineText ++ "\n" ++ e.margin ++ " ") =
      " " ++ plain (e.lineText ++ "\n" ++ e.margin ++ " ") := by
    simp only [String.append_assoc]
    exact plain_append (by decide) _
  have hmark : IsPlain (" " ++ blanks (e.column - 1)) :=
    (by decide : IsPlain " ").append (isPlain_blanks _)
  have hdashes : IsPlain (String.ofList (List.replicate (e.length - 1) '-')) :=
    isPlain_replicate (by decide) _
  unfold Excerpt.shown
  simp (disch := decide) only [Excerpt.runs, plainRuns_cons, plainRuns_nil, plain_eq_self hplace,
    plain_eq_self (isPlain_toString e.line), hline, plain_eq_self hmark, plain_eq_self hdashes,
    plain_eq_self]
  rw [← String.toList_inj]
  simp [Excerpt.place, Warning.expressionLabel]

/-! ### Warnings -/

namespace Warning

/-- A warning about an expression: its message, the line it is about, the remarks on it, and an
empty line. -/
def shown : Warning → String
  | status m => "warning: " ++ plain m.message ++ "\n\n"
  | diagnostic d =>
      let place := match d.excerpt with
        | some e => e.shown
        | none => ""
      let margin := match d.excerpt with
        | some e => e.margin
        | none => " "
      "warning: " ++ plain d.message ++ place ++
        String.join (d.remarks.map (Remark.shown margin)) ++ "\n\n"

/-- Whether a warning that shows the line of a source takes it from the expression. -/
def IsOfExpression : Warning → Prop
  | status _ => True
  | diagnostic d => d.label = some expressionLabel

theorem plainRuns_message (message : String) :
    plainRuns (messageRuns message) = "warning: " ++ plain message := by
  have hmessage : plain (": " ++ message) = ": " ++ plain message := plain_append (by decide) _
  rw [messageRuns, plainRuns_cons, plainRuns_cons, plainRuns_nil,
    plain_eq_self (by decide : IsPlain "warning"), hmessage, String.append_empty,
    ← String.append_assoc]
  rfl

theorem plainRuns_remarks {margin : String} (hmargin : IsPlain margin) (remarks : List Remark) :
    plainRuns (remarks.flatMap (Remark.runs margin)) =
      String.join (remarks.map (Remark.shown margin)) := by
  induction remarks with
  | nil => rfl
  | cons r remarks ih =>
      rw [List.flatMap_cons, plainRuns_append, plainRuns_remark hmargin, ih, List.map_cons,
        String.join_cons]

/-- **How a warning is shown**, whatever its texts hold. -/
theorem render_eq_shown {w : Warning} (h : w.IsOfExpression) : w.render = w.shown := by
  have hend : plainRuns ["\n\n"] = "\n\n" := by decide
  cases w with
  | status m => rw [render, runs, plainRuns_append, plainRuns_message, hend, shown]
  | diagnostic d =>
      obtain ⟨label, message, excerpt, remarks⟩ := d
      obtain rfl : label = some expressionLabel := h
      cases excerpt with
      | none =>
          simp only [render, runs, shown, plainRuns_append, plainRuns_message, plainRuns_nil,
            plainRuns_remarks (by decide : IsPlain " "), hend]
      | some e =>
          have hmargin : IsPlain e.margin := isPlain_blanks _
          simp only [render, runs, shown, plainRuns_append, plainRuns_message, Option.getD_some,
            plainRuns_place, plainRuns_remarks hmargin, hend]

end Warning

end LinkExpr
