import LinkExpr.Scan
import Mathlib.Data.Nat.Notation

/-!
# The Scanner

A scanner reads a text from left to right with a cursor. It keeps the literal text it has passed
as a pair of cursors, writes it down when a placeholder or the end comes, and every span and every
piece of text it writes is checked: a span between positions in the wrong order and a slice that is
not there are faults, which stop the scan.

Each turn of the scanner passes the text up to the next opening marker and looks at the range that
begins there. If the range holds a later opening marker, the turn ends at that marker; otherwise
the range is written down and the turn ends behind it. The primitives may refuse to read, and the
turn has a way on for each of them.

## Main results

* `range_shortens`, `turn_shortens`: a turn that does not end the scan leaves less text to scan.
* `loop_done`, `loop_next`: what the scanner does after a turn.
-/

namespace LinkExpr

open Text

namespace Scanner

/-! ### Reading at a cursor -/

/-- What is left to scan, and where it begins. -/
structure Cursor where
  position : Position
  rest : List Char

/-- The cursor behind the first characters of what is left. -/
def Cursor.skip (i : Cursor) (n : ℕ) : Cursor :=
  ⟨i.position.advance (i.rest.take n), i.rest.drop n⟩

/-- Passes the text before the first place where a character stands twice in a row. -/
def takeUntil? (c : Char) (i : Cursor) : Option (Cursor × List Char) :=
  (splitAtPair? c i.rest).map fun (before, _) => (i.skip before.length, before)

/-- Passes a character that stands twice in a row. -/
def tag? (c : Char) (i : Cursor) : Option Cursor :=
  match i.rest with
  | a :: b :: _ => if a = c ∧ b = c then some (i.skip 2) else none
  | _ => none

/-- Passes a number of characters. -/
def take? (n : ℕ) (i : Cursor) : Option Cursor :=
  if n ≤ i.rest.length then some (i.skip n) else none

/-- Passes all that is left. -/
def toEnd (i : Cursor) : Cursor := i.skip i.rest.length

/-- Passes the text up to the next opening marker, or all that is left if there is none. -/
def literalRun? (i : Cursor) : Option Cursor :=
  ((takeUntil? '{' i).map Prod.fst).or (some (toEnd i))

/-- Passes a range up to its first closing marker: the cursor behind it, the range as it is
written, and the text between its markers. -/
def delimited? (i : Cursor) : Option (Cursor × List Char × List Char) := do
  let inside ← tag? '{' i
  let (closing, content) ← takeUntil? '}' inside
  let behind ← tag? '}' closing
  return (behind, i.rest.take (i.rest.length - behind.rest.length), content)

/-! ### Checked output -/

/-- What can go wrong while a scan is written down. -/
inductive Panic
  /-- Two positions do not bound a span. -/
  | span (fault : SpanFault)
  /-- The text has no part between two offsets. -/
  | slice
deriving DecidableEq

/-- The part of a text between two offsets. -/
def sliceOf (cs : List Char) (start stop : ℕ) : Except Panic (List Char) :=
  match slice? cs start stop with
  | some part => .ok part
  | none => .error .slice

/-- The span between two cursors. -/
def spanFrom (start stop : Cursor) : Except Panic Span :=
  match Span.between start.position stop.position with
  | .ok span => .ok span
  | .error fault => .error (.span fault)

/-- The offset of the last opening marker of a text. -/
def lastOpen? (cs : List Char) : Option ℕ :=
  (splitAtLastPair? '{' cs).map fun (before, _) => byteSize before

/-- How many characters of a range come before its last opening marker, if any do. The offset of
the marker is counted in bytes, the way to it in characters. -/
def resync? (raw : List Char) : Except Panic (Option ℕ) := do
  let opening ← sliceOf raw 0 (byteSize raw - 2)
  match lastOpen? opening with
  | none | some 0 => return none
  | some (n + 1) =>
      let skipped ← sliceOf opening 0 (n + 1)
      return some skipped.length

/-- What a scanner has written down, and the literal text that it has passed since. -/
structure Builder where
  tokens : List Token
  malformed : List Malformed
  pending : Option (Cursor × Cursor)

namespace Builder

/-- Adds literal text between two cursors. -/
def pushLiteral (b : Builder) (start stop : Cursor) : Builder :=
  if start.position.offset = stop.position.offset then b
  else { b with pending := some ((b.pending.map Prod.fst).getD start, stop) }

@[simp] theorem tokens_pushLiteral (b : Builder) (start stop : Cursor) :
    (b.pushLiteral start stop).tokens = b.tokens := by
  rw [pushLiteral]
  split <;> rfl

@[simp] theorem malformed_pushLiteral (b : Builder) (start stop : Cursor) :
    (b.pushLiteral start stop).malformed = b.malformed := by
  rw [pushLiteral]
  split <;> rfl

/-- Writes the pending literal text down. -/
def flush (source : List Char) (b : Builder) : Except Panic Builder :=
  match b.pending with
  | none => return b
  | some (start, stop) => do
      let text ← sliceOf source start.position.offset stop.position.offset
      let span ← spanFrom start stop
      return { b with tokens := b.tokens ++ [.literal (String.ofList text) span], pending := none }

/-- Writes a placeholder down, after the literal text before it. -/
def pushPlaceholder (source : List Char) (b : Builder) (start stop : Cursor) (raw : List Char)
    (name : Name) : Except Panic Builder := do
  let b ← b.flush source
  let span ← spanFrom start stop
  return { b with tokens := b.tokens ++ [.placeholder ⟨name, String.ofList raw, span⟩] }

/-- Adds a report. -/
def report (b : Builder) (m : Malformed) : Builder :=
  { b with malformed := b.malformed ++ [m] }

/-- Reports a malformed range. -/
def pushMalformed (source : List Char) (b : Builder) (start stop : Cursor) (fault : Fault) :
    Except Panic Builder := do
  let span ← spanFrom start stop
  let raw ← sliceOf source start.position.offset stop.position.offset
  return b.report ⟨String.ofList raw, span, fault⟩

/-- Writes a range down: as a placeholder if its body reads as a name, and as a report and literal
text if not. -/
def pushRange (source : List Char) (b : Builder) (start stop : Cursor)
    (raw content : List Char) : Except Panic Builder :=
  match readBody content with
  | .ok name => b.pushPlaceholder source start stop raw name
  | .error fault => do
      let b ← b.pushMalformed source start stop fault
      return b.pushLiteral start stop

/-- Ends a scan. -/
def finish (source : List Char) (b : Builder) : Except Panic Scan := do
  let b ← b.flush source
  return ⟨b.tokens, b.malformed⟩

end Builder

/-! ### Turns -/

/-- How a turn ends. -/
inductive Turn
  /-- The scan is over. -/
  | done (b : Builder)
  /-- The next turn begins at a cursor. -/
  | next (b : Builder) (i : Cursor)

/-- Looks at the range that begins at a cursor. -/
def range (source : List Char) (b : Builder) (i : Cursor) : Except Panic Turn :=
  match delimited? i with
  | none => do
      let b ← b.pushMalformed source i (toEnd i) .unterminated
      return .done (b.pushLiteral i (toEnd i))
  | some (behind, raw, content) => do
      match ← resync? raw with
      | some n =>
          match take? n i with
          | none => return .done (b.pushLiteral i (toEnd i))
          | some inner => return .next (b.pushLiteral i inner) inner
      | none => return .next (← b.pushRange source i behind raw content) behind

/-- One turn: the literal text up to the next opening marker, and the range that begins there. -/
def turn (source : List Char) (b : Builder) (i : Cursor) : Except Panic Turn :=
  match literalRun? i with
  | none => return .done (b.pushLiteral i (toEnd i))
  | some opened =>
      if opened.rest = [] then return .done (b.pushLiteral i opened)
      else range source (b.pushLiteral i opened) opened

/-! ### Every turn makes progress -/

/-- A checked computation succeeds if both of its parts do. -/
theorem bind_eq_ok_iff {α β : Type} {x : Except Panic α} {f : α → Except Panic β} {b : β} :
    x >>= f = .ok b ↔ ∃ a, x = .ok a ∧ f a = .ok b := by
  cases x with
  | error fault => simp [bind, Except.bind]
  | ok a => simp [bind, Except.bind]

theorem pure_eq_ok_iff {α : Type} {a b : α} : (pure a : Except Panic α) = .ok b ↔ a = b :=
  ⟨fun h => Except.ok.inj h, fun h => congrArg Except.ok h⟩

theorem sliceOf_eq_ok_iff {cs part : List Char} {start stop : ℕ} :
    sliceOf cs start stop = .ok part ↔ slice? cs start stop = some part := by
  rw [sliceOf]
  cases slice? cs start stop with
  | none => simp
  | some part' => simp

@[simp] theorem length_rest_skip (i : Cursor) (n : ℕ) :
    (i.skip n).rest.length = i.rest.length - n :=
  List.length_drop

theorem skip_of_tag? {c : Char} {i j : Cursor} (h : tag? c i = some j) :
    j = i.skip 2 ∧ 2 ≤ i.rest.length := by
  rw [tag?] at h
  split at h
  · rename_i a b after hrest
    split at h
    · exact ⟨(Option.some.inj h).symm, by simp [hrest]⟩
    · cases h
  · cases h

theorem skip_of_takeUntil? {c : Char} {i j : Cursor} {before : List Char}
    (h : takeUntil? c i = some (j, before)) : j = i.skip before.length := by
  obtain ⟨⟨before', after⟩, -, heq⟩ := Option.map_eq_some_iff.mp h
  obtain ⟨rfl, rfl⟩ := Prod.mk.inj heq
  rfl

theorem skip_of_literalRun? {i j : Cursor} (h : literalRun? i = some j) :
    ∃ n, j = i.skip n := by
  rcases Option.or_eq_some_iff.mp h with hrun | ⟨-, hend⟩
  · obtain ⟨⟨j', before⟩, htake, rfl⟩ := Option.map_eq_some_iff.mp hrun
    exact ⟨before.length, skip_of_takeUntil? htake⟩
  · exact ⟨i.rest.length, (Option.some.inj hend).symm⟩

/-- Behind a range there is less text than at its beginning. -/
theorem length_lt_of_delimited? {i behind : Cursor} {raw content : List Char}
    (h : delimited? i = some (behind, raw, content)) : behind.rest.length < i.rest.length := by
  simp only [delimited?, Option.bind_eq_bind, Option.bind_eq_some_iff, Prod.exists,
    Option.pure_def, Option.some.injEq, Prod.mk.injEq] at h
  obtain ⟨inside, hopen, closing, content', hbody, behind', hclose, rfl, -, -⟩ := h
  obtain ⟨rfl, hlength⟩ := skip_of_tag? hopen
  obtain rfl := skip_of_takeUntil? hbody
  obtain ⟨rfl, -⟩ := skip_of_tag? hclose
  simp only [length_rest_skip]
  omega

/-- A range is only left unread if something comes before its last opening marker. -/
theorem pos_of_resync? {raw : List Char} {n : ℕ} (h : resync? raw = .ok (some n)) : 0 < n := by
  obtain ⟨opening, -, h⟩ := bind_eq_ok_iff.mp h
  split at h
  · cases pure_eq_ok_iff.mp h
  · cases pure_eq_ok_iff.mp h
  · rename_i m _
    obtain ⟨skipped, hskipped, hn⟩ := bind_eq_ok_iff.mp h
    obtain rfl := Option.some.inj (pure_eq_ok_iff.mp hn)
    obtain ⟨before, after, -, hbefore, hsize⟩ := slice?_eq_some_iff.mp
      (sliceOf_eq_ok_iff.mp hskipped)
    cases skipped with
    | nil =>
        rw [byteSize_nil] at hsize
        omega
    | cons c cs => simp

/-- The turn after a range begins with less text than the range. -/
theorem range_shortens {source : List Char} {b b' : Builder} {i j : Cursor}
    (hrest : i.rest ≠ []) (h : range source b i = .ok (.next b' j)) :
    j.rest.length < i.rest.length := by
  have hlength : 0 < i.rest.length := List.length_pos_iff.mpr hrest
  rw [range] at h
  split at h
  · obtain ⟨b'', -, h⟩ := bind_eq_ok_iff.mp h
    cases pure_eq_ok_iff.mp h
  · rename_i behind raw content hdelimited
    obtain ⟨n?, hresync, h⟩ := bind_eq_ok_iff.mp h
    split at h
    · rename_i n
      have hn := pos_of_resync? hresync
      split at h
      · cases pure_eq_ok_iff.mp h
      · rename_i inner hinner
        obtain ⟨-, rfl⟩ := Turn.next.inj (pure_eq_ok_iff.mp h)
        rw [take?] at hinner
        split at hinner
        · obtain rfl := Option.some.inj hinner
          rw [length_rest_skip]
          omega
        · cases hinner
    · obtain ⟨b'', -, h⟩ := bind_eq_ok_iff.mp h
      obtain ⟨-, rfl⟩ := Turn.next.inj (pure_eq_ok_iff.mp h)
      exact length_lt_of_delimited? hdelimited

/-- A turn that does not end the scan leaves less text to scan. -/
theorem turn_shortens {source : List Char} {b b' : Builder} {i j : Cursor}
    (h : turn source b i = .ok (.next b' j)) : j.rest.length < i.rest.length := by
  rw [turn] at h
  split at h
  · cases pure_eq_ok_iff.mp h
  · rename_i opened hopened
    obtain ⟨n, rfl⟩ := skip_of_literalRun? hopened
    split at h
    · cases pure_eq_ok_iff.mp h
    · rename_i hrest
      have hshort := range_shortens hrest h
      rw [length_rest_skip] at hshort
      omega

/-- Scans what is left, turn by turn. -/
def loop (source : List Char) (b : Builder) (i : Cursor) : Except Panic Scan :=
  if i.rest = [] then b.finish source
  else match _hturn : turn source b i with
    | .error fault => .error fault
    | .ok (.done b) => b.finish source
    | .ok (.next b j) => loop source b j
termination_by i.rest.length
decreasing_by exact turn_shortens _hturn

theorem loop_done {source : List Char} {b b' : Builder} {i : Cursor} (hrest : i.rest ≠ [])
    (hturn : turn source b i = .ok (.done b')) : loop source b i = b'.finish source := by
  rw [loop, if_neg hrest]
  split <;> simp_all

theorem loop_next {source : List Char} {b b' : Builder} {i j : Cursor} (hrest : i.rest ≠ [])
    (hturn : turn source b i = .ok (.next b' j)) : loop source b i = loop source b' j := by
  rw [loop, if_neg hrest]
  split <;> simp_all

/-- Scans a text from its beginning. -/
def run (source : String) : Except Panic Scan :=
  loop source.toList ⟨[], [], none⟩ ⟨.start, source.toList⟩

end Scanner

end LinkExpr
