import LinkExpr.Text.Offset

/-!
# Positions and spans

A `Position` is a place between two characters of a text, given by its byte offset, line and
column. A `Span` is a stretch of text between two positions; that its end does not come before its
start is part of the type.

## Main results

* `Position.precedes_advance`: moving over text never goes back, so every stretch of text has a
  span (`Span.covering`).
* `Span.slice?_covering`: the span laid over a part of a text cuts out exactly that part.
-/

namespace LinkExpr

open Text

variable {α : Type}

/-- A place in a text. Lines and columns count from one; a column counts code points. -/
structure Position where
  offset : Nat
  line : Nat
  column : Nat
deriving DecidableEq, Repr

namespace Position

/-- The place before the first character. -/
def start : Position := ⟨0, 1, 1⟩

/-- The place after one more character; a newline begins the next line. -/
def step (p : Position) (c : Char) : Position :=
  if c = '\n' then ⟨p.offset + c.utf8Size, p.line + 1, 1⟩
  else ⟨p.offset + c.utf8Size, p.line, p.column + 1⟩

/-- The place after some text. -/
def advance (p : Position) (cs : List Char) : Position :=
  cs.foldl step p

/-- One place does not come after another, neither by offset nor by line and column. -/
def Precedes (p q : Position) : Prop :=
  p.offset ≤ q.offset ∧ (p.line < q.line ∨ p.line = q.line ∧ p.column ≤ q.column)

instance (p q : Position) : Decidable (p.Precedes q) :=
  inferInstanceAs (Decidable (_ ∧ _))

@[simp] theorem advance_nil (p : Position) : p.advance [] = p := rfl

@[simp] theorem advance_cons (p : Position) (c : Char) (cs : List Char) :
    p.advance (c :: cs) = (p.step c).advance cs := rfl

@[simp] theorem advance_append (p : Position) (cs ds : List Char) :
    p.advance (cs ++ ds) = (p.advance cs).advance ds := by
  simp [advance]

theorem precedes_refl (p : Position) : p.Precedes p :=
  ⟨Nat.le_refl _, .inr ⟨rfl, Nat.le_refl _⟩⟩

theorem Precedes.trans {p q r : Position} (hpq : p.Precedes q) (hqr : q.Precedes r) :
    p.Precedes r := by
  unfold Precedes at *
  omega

theorem precedes_step (p : Position) (c : Char) : p.Precedes (p.step c) := by
  unfold Precedes step
  split <;> simp

/-- Moving over text never goes back. -/
theorem precedes_advance (p : Position) (cs : List Char) : p.Precedes (p.advance cs) := by
  induction cs generalizing p with
  | nil => exact precedes_refl p
  | cons c cs ih => exact (precedes_step p c).trans (ih _)

theorem offset_step (p : Position) (c : Char) : (p.step c).offset = p.offset + c.utf8Size := by
  unfold step
  split <;> rfl

/-- The offset moves by the size of the text. -/
@[simp] theorem offset_advance (p : Position) (cs : List Char) :
    (p.advance cs).offset = p.offset + byteSize cs := by
  induction cs generalizing p with
  | nil => simp
  | cons c cs ih => simp [ih, offset_step, Nat.add_assoc]

/-- The line moves by the number of newlines. -/
theorem line_advance (p : Position) (cs : List Char) :
    (p.advance cs).line = p.line + cs.count '\n' := by
  induction cs generalizing p with
  | nil => simp
  | cons c cs ih =>
      rw [advance_cons, ih, List.count_cons]
      by_cases h : c = '\n' <;> simp [step, h]
      omega

@[simp] theorem offset_start : start.offset = 0 := rfl

@[simp] theorem line_start : start.line = 1 := rfl

end Position

/-- Why two positions do not bound a span. -/
inductive SpanFault
  /-- The offset of the end is below the offset of the start. -/
  | offsets
  /-- The line and column of the end come before those of the start. -/
  | columns
deriving DecidableEq, Repr

/-- The wording of a refused span. -/
def SpanFault.message : SpanFault → String
  | .offsets => "start offset must be before end offset"
  | .columns => "start line and column must be before end line and column"

/-- A stretch of text; the end is the place after its last character. -/
structure Span where
  start : Position
  stop : Position
  ordered : start.Precedes stop
deriving DecidableEq

namespace Span

/-- The span between two positions; reversed offsets are noticed before reversed lines. -/
def between (start stop : Position) : Except SpanFault Span :=
  if ho : start.offset ≤ stop.offset then
    if hl : start.line < stop.line ∨ start.line = stop.line ∧ start.column ≤ stop.column then
      .ok ⟨start, stop, ho, hl⟩
    else .error .columns
  else .error .offsets

/-- The span that a text takes up when it begins at a position. -/
def covering (p : Position) (cs : List Char) : Span :=
  ⟨p, p.advance cs, p.precedes_advance cs⟩

/-- The number of bytes covered. -/
def size (s : Span) : Nat := s.stop.offset - s.start.offset

/-- A span that covers no text. -/
def isEmpty (s : Span) : Bool := s.size == 0

/-- The part of a text that lies in the span; `none` if the text has no such part. -/
def slice? (s : Span) (source : String) : Option String :=
  (Text.slice? source.toList s.start.offset s.stop.offset).map String.ofList

@[simp] theorem start_covering (p : Position) (cs : List Char) : (covering p cs).start = p := rfl

@[simp] theorem stop_covering (p : Position) (cs : List Char) :
    (covering p cs).stop = p.advance cs := rfl

theorem between_eq_ok (s : Span) : between s.start s.stop = .ok s := by
  have h := s.ordered
  simp [between, h.1, h.2]

/-- The span laid over a part of a text cuts out exactly that part. -/
theorem slice?_covering (before part after : List Char) :
    (covering (Position.start.advance before) part).slice?
      (String.ofList (before ++ part ++ after)) = some (String.ofList part) := by
  have := Text.slice?_append before part after
  simp [slice?] at this ⊢
  simp [this]

/-- The spans of consecutive texts, each beginning where the one before it ends. -/
def layout (raw : α → List Char) : Position → List α → List (α × Span)
  | _, [] => []
  | p, x :: xs => (x, covering p (raw x)) :: layout raw (p.advance (raw x)) xs

@[simp] theorem layout_nil (raw : α → List Char) (p : Position) : layout raw p [] = [] := rfl

@[simp] theorem layout_cons (raw : α → List Char) (p : Position) (x : α) (xs : List α) :
    layout raw p (x :: xs) = (x, covering p (raw x)) :: layout raw (p.advance (raw x)) xs := rfl

@[simp] theorem map_fst_layout (raw : α → List Char) (p : Position) (xs : List α) :
    (layout raw p xs).map Prod.fst = xs := by
  induction xs generalizing p with
  | nil => rfl
  | cons x xs ih => simp [ih]

theorem layout_append (raw : α → List Char) (p : Position) (xs ys : List α) :
    layout raw p (xs ++ ys) = layout raw p xs ++ layout raw (p.advance (xs.flatMap raw)) ys := by
  induction xs generalizing p with
  | nil => simp
  | cons x xs ih => simp [ih]

/-- An element of a layout begins where the text before it ends. -/
theorem mem_layout_iff {raw : α → List Char} {p : Position} {xs : List α} {x : α} {span : Span} :
    (x, span) ∈ layout raw p xs ↔ ∃ front back,
      xs = front ++ x :: back ∧ span = covering (p.advance (front.flatMap raw)) (raw x) := by
  constructor
  · intro h
    induction xs generalizing p with
    | nil => simp at h
    | cons y ys ih =>
        simp only [layout_cons, List.mem_cons, Prod.mk.injEq] at h
        rcases h with ⟨rfl, rfl⟩ | h
        · exact ⟨[], ys, rfl, rfl⟩
        · obtain ⟨front, back, rfl, rfl⟩ := ih h
          exact ⟨y :: front, back, rfl, by simp⟩
  · rintro ⟨front, back, rfl, rfl⟩
    simp [layout_append]

/-- The spans of a layout do not overlap and come in increasing order. -/
theorem pairwise_layout (raw : α → List Char) (p : Position) (xs : List α) :
    (layout raw p xs).Pairwise fun x y => x.2.stop.offset ≤ y.2.start.offset := by
  induction xs generalizing p with
  | nil => exact .nil
  | cons x xs ih =>
      refine List.pairwise_cons.mpr ⟨?_, ih _⟩
      rintro ⟨y, span⟩ hy
      obtain ⟨front, back, -, rfl⟩ := mem_layout_iff.mp hy
      simp

end Span

end LinkExpr
