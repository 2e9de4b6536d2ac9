/-!
# Plain text for streams that are not terminals

Texts of users may hold characters that control a terminal. They are left out of what is written to
a stream that is not one, together with the sequences that they begin: escape and control sequences
as well as the strings that are sent to a device or its title. Blanks and line breaks stay; inside
an escape or control sequence they interrupt it, and text is shown until a control character
resumes it.

## Main results

* `plain_append`: a text without control characters stays as it is, whatever follows it.
-/

namespace LinkExpr.Text.Terminal

/-- The parts of sequences that are left out. -/
inductive Sequence
  /-- After the escape character. -/
  | escape
  /-- After an intermediate character of an escape sequence. -/
  | escapeTail
  /-- In a control sequence, up to its letter. -/
  | control
  /-- At the beginning of the head of a device string. -/
  | deviceHead
  /-- In the parameters of a device string. -/
  | deviceParameters
  /-- In the rest of the head of a device string. -/
  | deviceTail
  /-- In a string up to its terminator. -/
  | string
  /-- In an operating system command, such as the title of a window, up to the bell. -/
  | title
deriving DecidableEq, Repr

/-- The state of leaving sequences out. -/
inductive State
  /-- In text that is shown, which may have interrupted a sequence. -/
  | text (interrupted : Option Sequence)
  /-- In a sequence. -/
  | sequence (s : Sequence)
deriving DecidableEq, Repr

/-- The state outside of all sequences. -/
def State.ground : State := .text none

/-- Blanks and line breaks among the control characters. -/
def isBlankControl (c : Char) : Bool := c = '\t' || c = '\n' || c = '\x0c' || c = '\r'

/-- Other control characters. -/
def isControl (c : Char) : Bool := (c.toNat < 0x20 && !isBlankControl c) || c = '\x7f'

/-- Whether a code lies in a range. -/
def within (c low high : Char) : Bool := low ≤ c && c ≤ high

/-- Whether a character ends a string: one of the bytes after the first in its encoding is the
string terminator. -/
def endsString (c : Char) : Bool :=
  let n := c.toNat
  0x80 ≤ n && n % 64 = 0x1C || 0x800 ≤ n && n / 64 % 64 = 0x1C ||
    0x10000 ≤ n && n / 4096 % 64 = 0x1C

namespace Sequence

/-- Whether a blank or line break interrupts a sequence. -/
def isInterruptible : Sequence → Bool
  | escape | escapeTail | control => true
  | _ => false

/-- The sequence after a character of it; nothing if the character ends it. -/
def next? : Sequence → Char → Option Sequence
  | escape, c =>
      if c = '[' then some control
      else if c = ']' then some title
      else if c = 'P' then some deviceHead
      else if c = 'X' || c = '^' || c = '_' then some string
      else if within c ' ' '/' then some escapeTail
      else if within c '0' '~' then none
      else some escape
  | escapeTail, c => if within c '0' '~' then none else some escapeTail
  | control, c => if within c '@' '~' then none else some control
  | deviceHead, c =>
      if within c ' ' '/' then some deviceTail
      else if within c '0' '?' then some deviceParameters
      else if within c '@' '~' then some string
      else some deviceHead
  | deviceParameters, c =>
      if within c ' ' '/' then some deviceTail
      else if within c '<' '~' then some string
      else some deviceParameters
  | deviceTail, c => if within c '0' '~' then some string else some deviceTail
  | string, c => if endsString c then none else some string
  | title, c => if c = '\x07' then none else some title

end Sequence

namespace State

/-- The state after leaving a sequence for its next part, if there is one. -/
def ofSequence : Option Sequence → State
  | some s => sequence s
  | none => ground

/-- Whether a character is shown, and the state after it. -/
def step (state : State) (c : Char) : Bool × State :=
  if c = '\x1b' then (false, sequence .escape)
  else if c = '\x18' || c = '\x1a' then (false, ground)
  else match state with
    | text interrupted =>
        if isControl c then (false, ofSequence interrupted)
        else (true, text (if c.toNat < 0x80 then interrupted else none))
    | sequence s =>
        if s.isInterruptible && isBlankControl c then (true, text (some s))
        else (false, ofSequence (s.next? c))

end State

/-- The characters that are shown from a state on. -/
def shown : State → List Char → List Char
  | _, [] => []
  | state, c :: cs =>
      let (isShown, state) := state.step c
      if isShown then c :: shown state cs else shown state cs

/-- A text without control characters and the sequences they begin. -/
def plain (text : String) : String := String.ofList (shown .ground text.toList)

/-- A text without control characters other than blanks and line breaks. -/
def IsPlain (text : String) : Prop := ∀ c ∈ text.toList, isControl c = false

instance (text : String) : Decidable (IsPlain text) :=
  List.decidableBAll (fun c => isControl c = false) text.toList

theorem IsPlain.append {a b : String} (ha : IsPlain a) (hb : IsPlain b) : IsPlain (a ++ b) := by
  intro c hc
  rw [String.toList_append, List.mem_append] at hc
  exact hc.elim (ha c) (hb c)

theorem step_ground_of_not_control {c : Char} (h : isControl c = false) :
    State.ground.step c = (true, .ground) := by
  have hc (d : Char) (hd : isControl d = true) : c ≠ d := by
    rintro rfl
    simp [h] at hd
  simp [State.step, State.ground, h, hc '\x1b' (by decide), hc '\x18' (by decide),
    hc '\x1a' (by decide)]

/-- Characters that do not control the terminal are shown and leave no sequence open. -/
theorem shown_ground_append {cs : List Char} (h : ∀ c ∈ cs, isControl c = false)
    (rest : List Char) : shown .ground (cs ++ rest) = cs ++ shown .ground rest := by
  induction cs with
  | nil => rfl
  | cons c cs ih =>
      simp only [List.forall_mem_cons] at h
      simp [shown, step_ground_of_not_control h.1, ih h.2]

/-- A text without control characters stays as it is, whatever follows it. -/
theorem plain_append {text : String} (h : IsPlain text) (rest : String) :
    plain (text ++ rest) = text ++ plain rest := by
  simp [plain, shown_ground_append h]

/-- A text without control characters stays as it is. -/
theorem plain_eq_self {text : String} (h : IsPlain text) : plain text = text := by
  have hempty : plain "" = "" := rfl
  rw [← String.append_empty (s := text), plain_append h, hempty]

end LinkExpr.Text.Terminal
