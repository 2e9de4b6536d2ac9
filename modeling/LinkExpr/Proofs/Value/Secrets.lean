import LinkExpr.Value.Linked
import Mathlib.Data.List.Forall2

/-!
# Secrets Stay Hidden

A host edits a linked value and displays it, step by step, while the declared type stays the same.
The context is put together anew for every step. For a password neither the values nor what is
displayed depends on these contexts, and nothing shows which literal is the secret.

The second fact is about two runs. Instead of running two sessions side by side, a session is
compared with one that knows nothing: every literal that is not empty is `redacted`, and every step
is made with the reader of an empty context. That session shows the same, and what it stores is
what the first one stores, redacted. Two sessions that differ in their secrets and contexts only are
compared with one and the same session.

## Main results

* `after_redacted`, `shown?_redacted`: a single step, without the secret and the context.
* `session_redacted`: a whole session, by induction on its steps.
* `alike_iff`: values are alike if they are the same when redacted.
* `secrets_stay_hidden`: sessions with different readers and different secrets.
-/

namespace LinkExpr

/-! ### Sessions -/

/-- What a host does with a linked value. -/
inductive Use
  /-- Assigns a literal. -/
  | assignValue (value : String)
  /-- Assigns an expression. -/
  | assignLink (expression : String)
  /-- Makes the value a link. -/
  | makeLink (expression : String)
  /-- Makes the value a link that begins as the literal text. -/
  | makeLinkFromLiteral
  /-- Makes the value a literal of what it stands for. -/
  | makePlain
  /-- Displays the value. -/
  | display
deriving DecidableEq, Repr

/-- The edit that a use makes, if it makes one. -/
def Use.edit? (type : ValueType) (r : Reader) : Use → Option Edit
  | assignValue value => some (.assignValue type value)
  | assignLink expression => some (.assignLink expression)
  | makeLink expression => some (.makeLink expression)
  | makeLinkFromLiteral => some (.makeLinkFromLiteral type)
  | makePlain => some (.makePlain type r)
  | display => none

/-- A use of a linked value, together with the reader at that time. -/
structure Step where
  reader : Reader
  use : Use

namespace Step

/-- The value after a step. -/
def after (type : ValueType) (v : LinkedValue) (s : Step) : LinkedValue :=
  match s.use.edit? type s.reader with
  | some edit => edit.apply v
  | none => v

/-- What a step displays, if it displays something. -/
def shown? (type : ValueType) (v : LinkedValue) (s : Step) : Option String :=
  match s.use with
  | .display => some (s.reader.display v type)
  | _ => none

end Step

/-- What there is to observe of a step: the value that it leaves, and what it displays. -/
structure Observation where
  state : LinkedValue
  shown? : Option String
deriving DecidableEq, Repr

/-- What there is to observe of one step after the other. -/
def session (type : ValueType) (v : LinkedValue) : List Step → List Observation
  | [] => []
  | s :: steps => ⟨s.after type v, s.shown? type v⟩ :: session type (s.after type v) steps

/-! ### Without the secret -/

/-- A literal of which only is left whether it is empty. -/
def redact (value : String) : String := if value = "" then "" else LinkedValue.mask

/-- A linked value without its secret. -/
def LinkedValue.redacted : LinkedValue → LinkedValue
  | literal value => literal (redact value)
  | link expression => link expression
  | unset => unset

/-- A use without its secret. -/
def Use.redacted : Use → Use
  | assignValue value => assignValue (redact value)
  | use => use

/-- A step without its secret, made where no name is known. -/
def Step.redacted (s : Step) : Step := ⟨⟨⟨.empty, []⟩, default⟩, s.use.redacted⟩

/-- What there is to observe of a step, without the secret. -/
def Observation.redacted (o : Observation) : Observation := { o with state := o.state.redacted }

section Redaction

variable {v : LinkedValue} {s : Step} {steps steps' : List Step} {a b : String}

/-- Redacted literals are the same if both or none of them are empty. -/
theorem redact_eq_iff : redact a = redact b ↔ (a = "" ↔ b = "") := by
  have hmask : LinkedValue.mask ≠ "" := by decide
  by_cases ha : a = "" <;> by_cases hb : b = "" <;> simp [redact, ha, hb, hmask, hmask.symm]

@[simp] theorem redact_redact : redact (redact a) = redact a := by
  have hmask : LinkedValue.mask ≠ "" := by decide
  rw [redact_eq_iff]
  by_cases ha : a = "" <;> simp [redact, ha, hmask]

/-- A password is displayed without looking at the context, or at more of the literal than is left
when it is redacted. -/
theorem display_redacted (r r' : Reader) (v : LinkedValue) :
    r.display v .password = r'.display v.redacted .password := by
  cases v with
  | unset | link expression => rfl
  | literal value =>
      change redact value = redact (redact value)
      rw [redact_redact]

/-- **A step over a password** leaves a value of which everything but the secret is known without
the secret and the context. -/
theorem after_redacted :
    (s.after .password v).redacted = s.redacted.after .password v.redacted := by
  obtain ⟨r, use⟩ := s
  -- every text is a password, so that an assignment is accepted whatever the literal is
  cases use with
  | makeLinkFromLiteral | makePlain => cases v <;> rfl
  | assignValue | assignLink | makeLink | display => rfl

/-- What a step over a password displays is known without them. -/
theorem shown?_redacted : s.shown? .password v = s.redacted.shown? .password v.redacted := by
  obtain ⟨r, use⟩ := s
  cases use with
  | display => exact congrArg some (display_redacted ..)
  | assignValue | assignLink | makeLink | makeLinkFromLiteral | makePlain => rfl

/-- **A session over a password**, redacted, is the session of the redacted steps. -/
theorem session_redacted (v : LinkedValue) (steps : List Step) :
    (session .password v steps).map Observation.redacted =
      session .password v.redacted (steps.map Step.redacted) := by
  induction steps generalizing v with
  | nil => rfl
  | cons s steps ih =>
      rw [session, List.map_cons, List.map_cons, session, ih, Observation.redacted,
        shown?_redacted, after_redacted]

/-! ### Without the context -/

/-- What a step over a password leaves does not depend on the reader. -/
theorem after_congr {s' : Step} (h : s.use = s'.use) (v : LinkedValue) :
    s.after .password v = s'.after .password v := by
  obtain ⟨r, use⟩ := s
  obtain ⟨r', use'⟩ := s'
  obtain rfl : use = use' := h
  cases use with
  | makePlain => cases v <;> rfl
  | assignValue | assignLink | makeLink | makeLinkFromLiteral | display => rfl

/-- What a step over a password displays does not depend on the reader. -/
theorem shown?_congr {s' : Step} (h : s.use = s'.use) (v : LinkedValue) :
    s.shown? .password v = s'.shown? .password v := by
  have hredacted : s.redacted = s'.redacted := by rw [Step.redacted, Step.redacted, h]
  rw [shown?_redacted, hredacted, ← shown?_redacted]

/-- **A session over a password** takes one course for all readers. -/
theorem session_congr (h : List.Forall₂ (fun s s' => s.use = s'.use) steps steps')
    (v : LinkedValue) : session .password v steps = session .password v steps' := by
  induction h generalizing v with
  | nil => rfl
  | cons huse _ ih => rw [session, session, after_congr huse, shown?_congr huse, ih]

end Redaction

/-! ### Two sessions -/

/-- Values of which one cannot be told from the other: equal links, two literals that are both empty
or both not empty, or no value at all. -/
inductive LinkedValue.Alike : LinkedValue → LinkedValue → Prop
  | unset : Alike .unset .unset
  | link (expression : String) : Alike (.link expression) (.link expression)
  | literal {a b : String} (h : a = "" ↔ b = "") : Alike (.literal a) (.literal b)

/-- Uses that differ at most in a literal that is not empty. -/
inductive Use.Alike : Use → Use → Prop
  | same (use : Use) : Alike use use
  | assignValue {a b : String} (ha : a ≠ "") (hb : b ≠ "") : Alike (.assignValue a) (.assignValue b)

/-- Values are alike if they are the same when redacted. -/
theorem alike_iff {v v' : LinkedValue} : v.Alike v' ↔ v.redacted = v'.redacted := by
  constructor
  · intro h
    cases h with
    | unset | link expression => rfl
    | literal hempty => exact congrArg LinkedValue.literal (redact_eq_iff.mpr hempty)
  · intro h
    cases v with
    | unset =>
        cases v' with
        | unset => exact .unset
        | literal | link => cases h
    | literal a =>
        cases v' with
        | literal b => exact .literal (redact_eq_iff.mp (LinkedValue.literal.inj h))
        | unset | link => cases h
    | link expression =>
        cases v' with
        | link other =>
            obtain rfl := LinkedValue.link.inj h
            exact .link expression
        | unset | literal => cases h

/-- Uses that are alike are the same when redacted. -/
theorem Use.Alike.redacted_eq {use use' : Use} (h : use.Alike use') :
    use.redacted = use'.redacted := by
  cases h with
  | same => rfl
  | assignValue ha hb => exact congrArg Use.assignValue (redact_eq_iff.mpr (iff_of_false ha hb))

/-- Values that are alike are displayed alike as passwords, whoever displays them. -/
theorem LinkedValue.Alike.display_eq {v v' : LinkedValue} (h : v.Alike v') (r r' : Reader) :
    r.display v .password = r'.display v' .password := by
  rw [display_redacted r r', alike_iff.mp h, ← display_redacted]

/-- What an observer of a password may find in common in two sessions. -/
structure Observation.Alike (o o' : Observation) : Prop where
  /-- The same is displayed. -/
  shown? : o.shown? = o'.shown?
  /-- The values are alike. -/
  state : o.state.Alike o'.state
  /-- The values would be displayed alike. -/
  display : ∀ r r' : Reader, r.display o.state .password = r'.display o'.state .password

/-- Observations are alike if they are the same when redacted. -/
theorem Observation.Alike.of_redacted_eq {o o' : Observation} (h : o.redacted = o'.redacted) :
    o.Alike o' := by
  have hshown : o.redacted.shown? = o'.redacted.shown? := congrArg _ h
  have hstate : o.redacted.state = o'.redacted.state := congrArg _ h
  exact ⟨hshown, alike_iff.mpr hstate, (alike_iff.mpr hstate).display_eq⟩

/-- **Secrets stay hidden.** A session over a password takes the same course whatever the readers
are. Two sessions that also differ in literals that are not empty, those that are assigned and the
one at the beginning, show the same at every step and hold values that are alike. -/
theorem secrets_stay_hidden (v : LinkedValue) (steps : List Step) :
    (∀ steps' : List Step, List.Forall₂ (fun s s' => s.use = s'.use) steps steps' →
      session .password v steps = session .password v steps') ∧
    ∀ (v' : LinkedValue) (steps' : List Step), v.Alike v' →
      List.Forall₂ (fun s s' => s.use.Alike s'.use) steps steps' →
        List.Forall₂ Observation.Alike (session .password v steps)
          (session .password v' steps') := by
  refine ⟨fun steps' h => session_congr h v, fun v' steps' hv hsteps => ?_⟩
  have hmap : steps.map Step.redacted = steps'.map Step.redacted := by
    rw [← List.forall₂_eq_eq_eq, List.forall₂_map_left_iff, List.forall₂_map_right_iff]
    exact hsteps.imp fun s s' h => congrArg (Step.mk _) h.redacted_eq
  have hsame : (session .password v steps).map Observation.redacted =
      (session .password v' steps').map Observation.redacted := by
    rw [session_redacted, session_redacted, alike_iff.mp hv, hmap]
  rw [← List.forall₂_eq_eq_eq, List.forall₂_map_left_iff, List.forall₂_map_right_iff] at hsame
  exact hsame.imp fun _ _ => Observation.Alike.of_redacted_eq

/-- A password becomes a link and a literal again, in two contexts and with two secrets. -/
theorem password_through_conversions :
    let nowhere : Reader := ⟨⟨.empty, []⟩, ⟨1⟩⟩
    let vault : Reader :=
      ⟨⟨.ofPlain ["P"], [(Scope.empty "vault").insert "P" "KEY" "swordfish"]⟩, ⟨8⟩⟩
    let steps (r : Reader) (secret : String) : List Step :=
      [.display, .makeLinkFromLiteral, .display, .assignValue secret, .display,
        .assignLink "\x7b\x7bP:KEY\x7d\x7d", .display, .makePlain, .display].map (Step.mk r)
    session .password (.literal "hunter2") (steps nowhere "letmein") =
        session .password (.literal "hunter2") (steps vault "letmein") ∧
      List.Forall₂ Observation.Alike
        (session .password (.literal "hunter2") (steps nowhere "letmein"))
        (session .password (.literal "tr0ub4dor") (steps vault "correct horse")) := by
  intro nowhere vault steps
  have hsame := secrets_stay_hidden (.literal "hunter2") (steps nowhere "letmein")
  refine ⟨hsame.1 (steps vault "letmein") ?_,
    hsame.2 (.literal "tr0ub4dor") (steps vault "correct horse") (.literal (by decide)) ?_⟩
  · exact List.forall₂_map_left_iff.mpr (List.forall₂_map_right_iff.mpr
      (List.forall₂_same.mpr fun _ _ => rfl))
  · simp only [steps, List.map_cons, List.map_nil, List.forall₂_cons]
    exact ⟨.same _, .same _, .same _, .assignValue (by decide) (by decide), .same _, .same _,
      .same _, .same _, .same _, .nil⟩

/-- Of a type that is not secret, the literal is displayed and copied into the link. -/
example (r : Reader) :
    session .string (.literal "hunter2") [⟨r, .display⟩, ⟨r, .makeLinkFromLiteral⟩] =
      [⟨.literal "hunter2", some "hunter2"⟩, ⟨.link "hunter2", none⟩] := rfl

end LinkExpr
