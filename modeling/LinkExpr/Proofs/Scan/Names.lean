import LinkExpr.Proofs.Scan.Embedding
import Mathlib.Data.List.Infix
import Mathlib.Data.List.Pairwise

/-!
# Names and Their Placeholders

A name is displayed as the placeholder that refers to it. Reading the display gives the name back
if and only if the name is `Representable`: its parts are not empty, the colon that ends the code
is the first one, and no brace of the parts forms a marker, neither with another brace of its part
nor with the braces of the markers around them. The key may begin with a brace and the code may
end with one, since a colon stands between them.

The names that a scan finds are representable, so what is displayed for them is what was read. What
a scan takes for literal text holds no placeholder of its own: it would be one of the whole text.

## Main results

* `Name.representable_iff`: representable names are those whose body is clean and read as the name.
* `representable_of_mem_placeholders`: a scan finds representable names only.
* `placeholders_of_mem_literals`: literal text has no placeholder.
* `display_and_scan_are_inverse`: display after scan and scan after display.
-/

namespace LinkExpr

open Text

/-! ### Names that can be written -/

/-- What stands between the markers when a name is displayed. -/
def Name.body (name : Name) : List Char := name.code.toList ++ ':' :: name.key.toList

/-- A name that is read back from what it is displayed as. -/
structure Name.Representable (name : Name) : Prop where
  code_nonempty : name.code ≠ ""
  key_nonempty : name.key ≠ ""
  /-- The colon behind the code is the first one. -/
  code_separator : ':' ∉ name.code.toList
  /-- The code does not move the opening marker. -/
  code_head : name.code.toList.head? ≠ some '{'
  code_open : ¬ HasPair '{' name.code.toList
  code_close : ¬ HasPair '}' name.code.toList
  key_open : ¬ HasPair '{' name.key.toList
  key_close : ¬ HasPair '}' name.key.toList
  /-- The key does not move the closing marker. -/
  key_last : name.key.toList.getLast? ≠ some '}'

namespace Name

variable {name : Name}

theorem toList_toString (name : Name) :
    (toString name).toList = '{' :: '{' :: (name.body ++ ['}', '}']) := by
  change name.toString.toList = _
  simp [Name.toString, body]

/-- The opening marker and the body hold a further one only inside one of the parts, or where the
code meets the marker. -/
theorem hasPair_open_body :
    HasPair '{' ('{' :: name.body) ↔ name.code.toList.head? = some '{' ∨
      HasPair '{' name.code.toList ∨ HasPair '{' name.key.toList := by
  have hcut : '{' :: name.body = ['{'] ++ (name.code.toList ++ ([':'] ++ name.key.toList)) := rfl
  have hhead : (name.code.toList ++ ([':'] ++ name.key.toList)).head? = some '{' ↔
      name.code.toList.head? = some '{' := by
    cases name.code.toList <;> simp
  rw [hcut, hasPair_append_iff, hhead, hasPair_append_iff, hasPair_append_iff]
  simp only [not_hasPair_singleton, List.cons_append, List.nil_append, List.head?_cons,
    List.getLast?_singleton, Option.some.injEq, Char.reduceEq, false_or, true_and, and_false,
    or_false]
  tauto

/-- The body and the closing marker hold an earlier one only inside one of the parts, or where the
key meets the marker. -/
theorem hasPair_body_close :
    HasPair '}' (name.body ++ ['}']) ↔ name.key.toList.getLast? = some '}' ∨
      HasPair '}' name.code.toList ∨ HasPair '}' name.key.toList := by
  have hcut : name.body ++ ['}'] = name.code.toList ++ ([':'] ++ (name.key.toList ++ ['}'])) := by
    simp [body]
  rw [hcut, hasPair_append_iff, hasPair_append_iff, hasPair_append_iff]
  simp only [not_hasPair_singleton, List.cons_append, List.nil_append, List.head?_cons,
    List.getLast?_singleton, Option.some.injEq, Char.reduceEq, false_or, false_and, and_false,
    and_true, or_false]
  tauto

/-- **Representable names are those whose body is clean and read as the name.** -/
theorem representable_iff :
    name.Representable ↔ CleanBody name.body ∧ readBody name.body = .ok name := by
  rw [CleanBody, hasPair_open_body, hasPair_body_close, readBody_eq_ok_iff]
  constructor
  · rintro ⟨hcode, hkey, hcolon, hhead, hcodeOpen, hcodeClose, hkeyOpen, hkeyClose, hlast⟩
    exact ⟨⟨by tauto, by tauto⟩, rfl, hcode, hkey, hcolon⟩
  · rintro ⟨⟨hopen, hclose⟩, -, hcode, hkey, hcolon⟩
    simp only [not_or] at hopen hclose
    exact ⟨hcode, hkey, hcolon, hopen.1, hopen.2.1, hclose.2.1, hopen.2.2, hclose.2.2, hclose.1⟩

end Name

/-! ### From placeholders to names -/

section Placeholders

variable {source text : String} {p : Placeholder} {span : Span}

/-- The body of a placeholder is that of its name. -/
theorem body_eq_of_readBody {body : List Char} {name : Name} (h : readBody body = .ok name) :
    name.body = body :=
  (readBody_eq_ok_iff.mp h).1.symm

/-- A placeholder is written as its name is displayed. -/
theorem toString_name_of_mem_placeholders (h : p ∈ placeholders source) :
    toString p.name = p.raw := by
  obtain ⟨body, -, hreads, hraw⟩ := exists_body_of_mem_placeholders h
  rw [← String.toList_inj, Name.toList_toString, body_eq_of_readBody hreads, hraw,
    String.toList_ofList]

/-- A scan finds representable names only. -/
theorem representable_of_mem_placeholders (h : p ∈ placeholders source) :
    p.name.Representable := by
  obtain ⟨body, hclean, hreads, -⟩ := exists_body_of_mem_placeholders h
  rw [Name.representable_iff, body_eq_of_readBody hreads]
  exact ⟨hclean, hreads⟩

/-- Where two spans of a layout overlap, it is the same one. -/
theorem Span.eq_of_mem_layout {α : Type} {raw : α → List Char} {start : Position} {xs : List α}
    {x y : α × Span} (hx : x ∈ layout raw start xs) (hy : y ∈ layout raw start xs)
    (hxy : x.2.start.offset < y.2.stop.offset) (hyx : y.2.start.offset < x.2.stop.offset) :
    x = y := by
  by_contra hne
  let Apart (x y : α × Span) : Prop :=
    x.2.stop.offset ≤ y.2.start.offset ∨ y.2.stop.offset ≤ x.2.start.offset
  have : Std.Symm Apart := ⟨fun _ _ h => h.symm⟩
  have hpairs : (layout raw start xs).Pairwise Apart := (pairwise_layout raw start xs).imp .inl
  rcases hpairs.forall hx hy hne with h | h
  · omega
  · omega

/-- A placeholder of a text is one of its pieces. -/
theorem mem_layout_pieces_of_mem_placeholders (h : p ∈ placeholders source) :
    (.placeholder p.name p.raw.toList, p.span) ∈
      Span.layout Piece.raw .start (pieces source) := by
  obtain ⟨token, htoken, hp⟩ := List.mem_filterMap.mp h
  obtain ⟨piece, span, hmem, rfl⟩ := mem_tokens_iff.mp htoken
  cases piece with
  | literal chars => cases hp
  | placeholder name chars =>
      obtain rfl := Option.some.inj hp
      simpa using hmem

/-- **Literal text has no placeholder.** It would be a placeholder of the whole text, in a place
that the literal takes up. -/
theorem placeholders_of_mem_literals (h : .literal text span ∈ (scan source).tokens) :
    placeholders text = [] := by
  obtain ⟨piece, span', hmem, hpiece⟩ := mem_tokens_iff.mp h
  cases piece with
  | placeholder name chars => cases hpiece
  | literal chars =>
      obtain ⟨rfl, rfl⟩ := Token.literal.inj hpiece
      refine List.eq_nil_iff_forall_not_mem.mpr fun p hp => ?_
      obtain ⟨front, back, hpieces, hspan⟩ := Span.mem_layout_iff.mp hmem
      have hsource : String.ofList (front.flatMap Piece.raw) ++ String.ofList chars ++
          String.ofList (back.flatMap Piece.raw) = source := by
        rw [← String.toList_inj, ← flatMap_raw_pieces source, hpieces]
        simp [Piece.raw]
      -- a placeholder of the literal is one of the whole text, and so a piece of its own
      have hmoved := movedBy_mem_placeholders hp (String.ofList (front.flatMap Piece.raw))
        (String.ofList (back.flatMap Piece.raw))
      rw [hsource] at hmoved
      obtain ⟨before, body, after, hcut, -, -, hraw, hplace⟩ := mem_placeholders_iff_cut.mp hp
      have hsize : byteSize chars =
          byteSize before + byteSize p.raw.toList + byteSize after := by
        rw [String.toList_ofList] at hcut
        rw [hcut, hraw]
        simp only [byteSize_append, byteSize_cons, byteSize_nil]
        omega
      have hpos : 0 < byteSize p.raw.toList := by
        refine Nat.pos_of_ne_zero fun hzero => ?_
        rw [byteSize_eq_zero_iff, hraw] at hzero
        cases hzero
      have hsame := Span.eq_of_mem_layout hmem (mem_layout_pieces_of_mem_placeholders hmoved)
      simp only [hspan, Placeholder.movedBy, hplace, Span.movedBy_covering, Piece.raw, hsize,
        Span.start_covering, Span.stop_covering, Position.offset_advance, String.toList_ofList,
        byteSize_append] at hsame
      cases congrArg Prod.fst (hsame (by omega) (by omega))

end Placeholders

/-! ### From names to placeholders -/

/-- A representable name is displayed as a placeholder. -/
theorem Name.Representable.mem_placeholders {name : Name} (h : name.Representable) :
    ⟨name, toString name, .covering .start (toString name).toList⟩ ∈
      placeholders (toString name) := by
  obtain ⟨hclean, hreads⟩ := Name.representable_iff.mp h
  exact mem_placeholders_iff_cut.mpr
    ⟨[], name.body, [], name.toList_toString, hclean, hreads, name.toList_toString, rfl⟩

/-- **Display and scan are inverse, exactly on the representable names.** A placeholder that is
found is written as its name is displayed, and scanned alone it is the one placeholder of that
name and nothing else; what is found to be literal text has no placeholder when it is scanned
alone. The display of a name is scanned as the one placeholder of that name exactly if the name
is representable. -/
theorem display_and_scan_are_inverse :
    (∀ source, ∀ p ∈ placeholders source, toString p.name = p.raw ∧
      ∃ q, scan p.raw = ⟨[.placeholder q], []⟩ ∧ q.name = p.name) ∧
    (∀ source text span, .literal text span ∈ (scan source).tokens → placeholders text = []) ∧
    (∀ name : Name, (∃ p, (scan (toString name)).tokens = [.placeholder p] ∧ p.name = name) ↔
      name.Representable) := by
  refine ⟨?_, ?_, ?_⟩
  · intro source p hp
    exact ⟨toString_name_of_mem_placeholders hp, p.alone, scan_raw hp, rfl⟩
  · intro source text span hliteral
    exact placeholders_of_mem_literals hliteral
  · intro name
    constructor
    · rintro ⟨p, htokens, rfl⟩
      have hp : p ∈ placeholders (toString p.name) := by
        rw [placeholders, Scan.placeholders, htokens]
        exact List.mem_singleton.mpr rfl
      exact representable_of_mem_placeholders hp
    · intro h
      have hscan := scan_raw h.mem_placeholders
      exact ⟨_, congrArg Scan.tokens hscan, rfl⟩

/-- Braces on both sides of the colon do not form markers. -/
theorem name_with_inner_braces_is_read_back :
    ∃ p, (scan (toString (⟨"A\x7d", "\x7bk"⟩ : Name))).tokens = [.placeholder p] ∧
      p.name = ⟨"A\x7d", "\x7bk"⟩ :=
  (display_and_scan_are_inverse.2.2 _).mpr
    ⟨by decide, by decide, by decide, by decide, by decide, by decide, by decide, by decide,
      by decide⟩

end LinkExpr
