import LinkExpr.Segment
import LinkExpr.Placeholder

/-!
# Scanning

Scanning takes a text apart into tokens, literal text and placeholders, and reports what looks
like a placeholder but is not one. It never fails: malformed ranges stay part of the literal text
around them.

The work is done in three steps. `segments` finds the ranges, `Piece.merge` joins all neighbours
that are not placeholders, and `Span.layout` gives every piece the place it takes up.

## Main results

* `Piece.raw_merge`: merging neither loses nor adds text.
* `raw_tokens`: the tokens of a text, one after the other, are the text.
-/

namespace LinkExpr

/-- How a segment reads: as a name, as a fault, or as neither. -/
def Segment.reading? : Segment → Option (Except Fault Name)
  | .text _ => none
  | .delimited body => some (readBody body)
  | .unterminated _ => some (.error .unterminated)

/-- The name a segment refers to, if it is a placeholder. -/
def Segment.name? (s : Segment) : Option Name :=
  match s.reading? with
  | some (.ok name) => some name
  | _ => none

/-- What is wrong with a segment, if it is malformed. -/
def Segment.fault? (s : Segment) : Option Fault :=
  match s.reading? with
  | some (.error fault) => some fault
  | _ => none

/-- A token before it has a place. -/
inductive Piece
  | literal (chars : List Char)
  | placeholder (name : Name) (chars : List Char)
deriving DecidableEq, Repr

namespace Piece

/-- A piece as it is written. -/
def raw : Piece → List Char
  | literal chars => chars
  | placeholder _ chars => chars

/-- Literal text as a piece, if there is any. -/
def ofLiteral (chars : List Char) : List Piece :=
  if chars = [] then [] else [.literal chars]

/-- Joins everything between two placeholders into one literal; `pending` is the literal text
that came before. -/
def merge (pending : List Char) : List Segment → List Piece
  | [] => ofLiteral pending
  | s :: rest =>
      match s.name? with
      | some name => ofLiteral pending ++ .placeholder name s.raw :: merge [] rest
      | none => merge (pending ++ s.raw) rest

/-- Text without a range of its own is literal text. -/
theorem merge_text (pending cs : List Char) (ss : List Segment) :
    merge pending (.text cs :: ss) = merge (pending ++ cs) ss := rfl

/-- A malformed segment is literal text. -/
theorem merge_malformed {x : Segment} {fault : Fault} (h : x.reading? = some (.error fault))
    (pending : List Char) (ss : List Segment) :
    merge pending (x :: ss) = merge (pending ++ x.raw) ss := by
  rw [merge, Segment.name?, h]

/-- A placeholder ends the literal text before it. -/
theorem merge_placeholder {x : Segment} {name : Name} (h : x.reading? = some (.ok name))
    (pending : List Char) (ss : List Segment) :
    merge pending (x :: ss) = ofLiteral pending ++ .placeholder name x.raw :: merge [] ss := by
  rw [merge, Segment.name?, h]

@[simp] theorem raw_ofLiteral (chars : List Char) : (ofLiteral chars).flatMap raw = chars := by
  unfold ofLiteral
  split <;> simp_all [raw]

/-- Merging neither loses nor adds text. -/
theorem raw_merge (pending : List Char) (ss : List Segment) :
    (merge pending ss).flatMap raw = pending ++ ss.flatMap Segment.raw := by
  induction ss generalizing pending with
  | nil => simp [merge]
  | cons s rest ih =>
      unfold merge
      split
      · simp [raw, ih]
      · simp [ih]

end Piece

/-- A token of a text. -/
inductive Token
  /-- Text that is copied as it is. -/
  | literal (text : String) (span : Span)
  /-- A placeholder. -/
  | placeholder (p : Placeholder)
deriving DecidableEq

namespace Token

/-- A piece in its place. -/
def ofPiece : Piece × Span → Token
  | (.literal chars, span) => .literal (String.ofList chars) span
  | (.placeholder name chars, span) => .placeholder ⟨name, String.ofList chars, span⟩

/-- A token as it is written. -/
def raw : Token → String
  | literal text _ => text
  | placeholder p => p.raw

/-- The place of a token. -/
def span : Token → Span
  | literal _ span => span
  | placeholder p => p.span

/-- The placeholder, if the token is one. -/
def placeholder? : Token → Option Placeholder
  | literal _ _ => none
  | placeholder p => some p

@[simp] theorem raw_ofPiece (x : Piece × Span) : (ofPiece x).raw = String.ofList x.1.raw := by
  obtain ⟨piece, span⟩ := x
  cases piece <;> rfl

@[simp] theorem span_ofPiece (x : Piece × Span) : (ofPiece x).span = x.2 := by
  obtain ⟨piece, span⟩ := x
  cases piece <;> rfl

end Token

/-- A malformed segment in its place. -/
def Malformed.ofSegment? : Segment × Span → Option Malformed
  | (s, span) => s.fault?.map fun fault => ⟨String.ofList s.raw, span, fault⟩

/-- The tokens of a text and what is malformed in it, both from left to right. -/
structure Scan where
  tokens : List Token
  malformed : List Malformed
deriving DecidableEq

/-- The pieces of a text. -/
def pieces (source : String) : List Piece :=
  Piece.merge [] (segments source.toList)

/-- Scans a text. -/
def scan (source : String) : Scan where
  tokens := (Span.layout Piece.raw .start (pieces source)).map Token.ofPiece
  malformed := (Span.layout Segment.raw .start (segments source.toList)).filterMap
    Malformed.ofSegment?

/-- The placeholders found by a scan. -/
def Scan.placeholders (s : Scan) : List Placeholder :=
  s.tokens.filterMap Token.placeholder?

/-- The placeholders of a text. -/
def placeholders (source : String) : List Placeholder :=
  (scan source).placeholders

/-- A text is a link if it has a placeholder. A text without an opening marker has none and is not
scanned. -/
def isLink (source : String) : Bool :=
  (splitAtPair? '{' source.toList).isSome && !(placeholders source).isEmpty

/-- The tokens of a text, one after the other, are the text. -/
theorem raw_tokens (source : String) :
    (scan source).tokens.flatMap (fun token => token.raw.toList) = source.toList := by
  simp only [scan, List.flatMap_map, Token.raw_ofPiece, String.toList_ofList]
  rw [← List.flatMap_map Prod.fst Piece.raw, Span.map_fst_layout]
  simp [pieces, Piece.raw_merge]

end LinkExpr
