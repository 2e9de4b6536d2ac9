import LinkExpr.Scan
import Mathlib.Data.List.Basic
import Mathlib.Data.Nat.Find

/-!
# The Grammar of Texts

Which byte ranges of a text are placeholders, which are malformed, and from where on a text is
unterminated, said without a scanner. A marker is the same brace twice in a row, and where it
stands is a condition on the text alone (`PairAt`): it does not depend on what was read before.

* `Delimited cs s e`: the range from an opening marker to the first closing marker after it, with
  no further opening marker in between.
* `Unclosed cs s`: an opening marker that no closing marker follows.
* `BodyReads body r`: what the text between the markers says, decided by its first colon.
* `Reads cs s e r`: a delimited range whose body says `r`.

## Main results

* `hasPair_iff_pairAt`: the pairs inside a part of a text are the pairs of the text at the offsets
  of that part. All conditions on offsets become conditions on parts by this one lemma.
* `delimited_iff`, `unclosed_iff`: both kinds of range as a way to cut the text.
* `readBody_eq_iff`: the body of a range is read as `BodyReads` says.
-/

namespace LinkExpr

open Text

/-! ### Markers at byte offsets -/

@[simp] theorem utf8Size_openBrace : ('{').utf8Size = 1 := rfl

@[simp] theorem utf8Size_closeBrace : ('}').utf8Size = 1 := rfl

/-- A character stands twice in a row at a byte offset of a text. -/
def PairAt (c : Char) (cs : List Char) (n : ℕ) : Prop :=
  ∃ before after, cs = before ++ c :: c :: after ∧ byteSize before = n

/-- Of two ways to cut a text, the one with the smaller first part is refined by the other. -/
theorem exists_append_of_byteSize_le {a b c d : List Char} (h : a ++ b = c ++ d)
    (hle : byteSize a ≤ byteSize c) : ∃ m, c = a ++ m ∧ b = m ++ d := by
  rcases List.append_eq_append_iff.mp h with ⟨m, hc, hb⟩ | ⟨m, ha, hd⟩
  · exact ⟨m, hc, hb⟩
  · have hm : m = [] := by
      rw [ha, byteSize_append] at hle
      exact byteSize_eq_zero_iff.mp (by omega)
    subst hm
    exact ⟨[], by simp [ha], by simp [hd]⟩

/-- The pairs inside a part of a text are the pairs of the text at the offsets of that part. -/
theorem hasPair_iff_pairAt {c : Char} (hc : c.utf8Size = 1) (before part after : List Char) :
    HasPair c part ↔
      ∃ n, byteSize before ≤ n ∧ n + 2 ≤ byteSize before + byteSize part ∧
        PairAt c (before ++ part ++ after) n := by
  constructor
  · rintro ⟨x, y, rfl⟩
    refine ⟨byteSize before + byteSize x, by omega, ?_, before ++ x, y ++ after, ?_, ?_⟩
    · simp [hc]
      omega
    · simp
    · simp
  · rintro ⟨n, hlo, hhi, b, r, hcut, rfl⟩
    rw [List.append_assoc] at hcut
    obtain ⟨x, rfl, hrest⟩ := exists_append_of_byteSize_le hcut hlo
    have hcut' : part ++ after = (x ++ [c, c]) ++ r := by simpa using hrest
    have hsize : byteSize (x ++ [c, c]) ≤ byteSize part := by
      simp only [byteSize_append, byteSize_cons, byteSize_nil, hc] at hhi ⊢
      omega
    obtain ⟨y, rfl, -⟩ := exists_append_of_byteSize_le hcut'.symm hsize
    exact ⟨x, y, rfl⟩

/-- A pair ends within its text. -/
theorem PairAt.add_two_le {c : Char} {cs : List Char} {n : ℕ} (h : PairAt c cs n) :
    n + 2 ≤ byteSize cs := by
  obtain ⟨before, after, rfl, rfl⟩ := h
  have := c.utf8Size_pos
  simp only [byteSize_append, byteSize_cons]
  omega

/-! ### Delimited ranges -/

/-- A byte range from an opening marker to the first closing marker after it, with no other
opening marker that starts later and ends before the closing one. -/
structure Delimited (cs : List Char) (s e : ℕ) : Prop where
  /-- The range begins with an opening marker. -/
  opens : PairAt '{' cs s
  /-- The markers do not overlap. -/
  fits : s + 2 ≤ e - 2
  /-- The range ends with a closing marker. -/
  closes : PairAt '}' cs (e - 2)
  /-- No closing marker comes earlier. -/
  first : ∀ n, s + 2 ≤ n → n < e - 2 → ¬ PairAt '}' cs n
  /-- No other opening marker comes later. -/
  innermost : ∀ n, s < n → n + 2 ≤ e - 2 → ¬ PairAt '{' cs n

/-- A body that neither opens a further range nor is closed before its end. Half a marker of
either side counts, since it may complete one together with the body. -/
def CleanBody (body : List Char) : Prop :=
  ¬ HasPair '{' ('{' :: body) ∧ ¬ HasPair '}' (body ++ ['}'])

/-- Whether a body is clean can be seen at the offsets of the text around it. -/
theorem cleanBody_iff_pairAt (before body after : List Char) :
    CleanBody body ↔
      (∀ n, byteSize before < n → n + 2 ≤ byteSize before + 2 + byteSize body →
        ¬ PairAt '{' (before ++ '{' :: '{' :: (body ++ '}' :: '}' :: after)) n) ∧
      (∀ n, byteSize before + 2 ≤ n → n < byteSize before + 2 + byteSize body →
        ¬ PairAt '}' (before ++ '{' :: '{' :: (body ++ '}' :: '}' :: after)) n) := by
  have hopen := hasPair_iff_pairAt utf8Size_openBrace (before ++ ['{']) ('{' :: body)
    ('}' :: '}' :: after)
  have hclose := hasPair_iff_pairAt utf8Size_closeBrace (before ++ ['{', '{']) (body ++ ['}'])
    ('}' :: after)
  simp only [List.append_assoc, List.cons_append, List.nil_append, byteSize_append, byteSize_cons,
    byteSize_nil, utf8Size_openBrace, utf8Size_closeBrace] at hopen hclose
  rw [CleanBody, hopen, hclose]
  constructor
  · rintro ⟨hinner, hfirst⟩
    exact ⟨fun n hlo hhi hat => hinner ⟨n, by omega, by omega, hat⟩,
      fun n hlo hhi hat => hfirst ⟨n, by omega, by omega, hat⟩⟩
  · rintro ⟨hinner, hfirst⟩
    exact ⟨fun ⟨n, hlo, hhi, hat⟩ => hinner n (by omega) (by omega) hat,
      fun ⟨n, hlo, hhi, hat⟩ => hfirst n (by omega) (by omega) hat⟩

/-- A delimited range is a cut of the text around two markers and a clean body. -/
theorem delimited_iff {cs : List Char} {s e : ℕ} :
    Delimited cs s e ↔ ∃ before body after,
      cs = before ++ '{' :: '{' :: (body ++ '}' :: '}' :: after) ∧ CleanBody body ∧
        byteSize before = s ∧ s + 2 + byteSize body + 2 = e := by
  constructor
  · rintro ⟨⟨before, r, hopen, rfl⟩, hfits, ⟨b, after, hclose, hb⟩, hfirst, hinner⟩
    have hcut : (before ++ ['{', '{']) ++ r = b ++ '}' :: '}' :: after := by
      rw [← hclose, hopen]
      simp
    obtain ⟨body, rfl, rfl⟩ := exists_append_of_byteSize_le hcut (by simp; omega)
    have he : byteSize before + 2 + byteSize body = e - 2 := by
      simp at hb
      omega
    subst hopen
    refine ⟨before, body, after, rfl, (cleanBody_iff_pairAt before body after).mpr ⟨?_, ?_⟩, rfl,
      by omega⟩
    · intro n hlo hhi
      exact hinner n hlo (by omega)
    · intro n hlo hhi
      exact hfirst n hlo (by omega)
  · rintro ⟨before, body, after, rfl, hclean, rfl, rfl⟩
    obtain ⟨hinner, hfirst⟩ := (cleanBody_iff_pairAt before body after).mp hclean
    refine ⟨⟨before, _, rfl, rfl⟩, by omega, ?_, ?_, ?_⟩
    · refine ⟨before ++ '{' :: '{' :: body, after, by simp, ?_⟩
      simp
      omega
    · intro n hlo hhi
      exact hfirst n hlo (by omega)
    · intro n hlo hhi
      exact hinner n hlo (by omega)

/-! ### Unclosed markers -/

/-- An opening marker that no closing marker follows. -/
structure Unclosed (cs : List Char) (s : ℕ) : Prop where
  opens : PairAt '{' cs s
  never : ∀ n, s + 2 ≤ n → ¬ PairAt '}' cs n

/-- The first place from which on a text is unterminated. -/
def FirstUnclosed (cs : List Char) (s : ℕ) : Prop :=
  Unclosed cs s ∧ ∀ n < s, ¬ Unclosed cs n

/-- If some marker is unclosed, one of them is the first. -/
theorem exists_firstUnclosed {cs : List Char} (h : ∃ s, Unclosed cs s) :
    ∃ s, FirstUnclosed cs s := by
  classical
  exact ⟨Nat.find h, Nat.find_spec h, fun _ hn => Nat.find_min h hn⟩

/-- An unclosed marker is a cut of the text with no closing marker in the rest. -/
theorem unclosed_iff {cs : List Char} {s : ℕ} :
    Unclosed cs s ↔ ∃ before rest,
      cs = before ++ '{' :: '{' :: rest ∧ ¬ HasPair '}' rest ∧ byteSize before = s := by
  have hpair := fun before rest : List Char =>
    hasPair_iff_pairAt utf8Size_closeBrace (before ++ ['{', '{']) rest []
  simp only [List.append_assoc, List.cons_append, List.nil_append, List.append_nil,
    byteSize_append, byteSize_cons, byteSize_nil, utf8Size_openBrace] at hpair
  constructor
  · rintro ⟨⟨before, rest, rfl, rfl⟩, hnever⟩
    refine ⟨before, rest, rfl, ?_, rfl⟩
    rw [hpair before rest]
    rintro ⟨n, hlo, -, hat⟩
    exact hnever n (by omega) hat
  · rintro ⟨before, rest, rfl, hfree, rfl⟩
    refine ⟨⟨before, rest, rfl, rfl⟩, ?_⟩
    intro n hlo hat
    have hhi := hat.add_two_le
    simp at hhi
    exact hfree ((hpair before rest).mpr ⟨n, by omega, by omega, hat⟩)

/-! ### What a body says -/

/-- What the text between the markers says: the first colon, if there is one, ends the namespace
code and begins the key. -/
inductive BodyReads : List Char → Except Fault Name → Prop
  /-- There is no colon. -/
  | missingSeparator {body : List Char} :
      ':' ∉ body → BodyReads body (.error .missingSeparator)
  /-- The body begins with its first colon, whatever follows. -/
  | emptyNamespace (key : List Char) : BodyReads (':' :: key) (.error .emptyNamespace)
  /-- The body ends with its first colon, and the colon does not begin it. -/
  | emptyKey {code : List Char} :
      code ≠ [] → ':' ∉ code → BodyReads (code ++ [':']) (.error .emptyKey)
  /-- Text stands on both sides of the first colon. -/
  | name {code key : List Char} :
      code ≠ [] → ':' ∉ code → key ≠ [] →
        BodyReads (code ++ ':' :: key) (.ok ⟨String.ofList code, String.ofList key⟩)

/-- Reading a body finds what the body says. -/
theorem bodyReads_readBody (body : List Char) : BodyReads body (readBody body) := by
  rw [readBody]
  split
  · rename_i hsplit
    exact .missingSeparator (splitAtFirst?_eq_none_iff.mp hsplit)
  · rename_i key hsplit
    obtain ⟨rfl, -⟩ := splitAtFirst?_eq_some_iff.mp hsplit
    exact .emptyNamespace key
  · rename_i code hcode hsplit
    obtain ⟨rfl, hfree⟩ := splitAtFirst?_eq_some_iff.mp hsplit
    exact .emptyKey (fun h => hcode h) hfree
  · rename_i code key hcode hkey hsplit
    obtain ⟨rfl, hfree⟩ := splitAtFirst?_eq_some_iff.mp hsplit
    exact .name (fun h => hcode h) hfree (fun h => hkey h)

/-- A body says one thing only. -/
theorem BodyReads.readBody_eq {body : List Char} {r : Except Fault Name} (h : BodyReads body r) :
    readBody body = r := by
  cases h with
  | missingSeparator hfree =>
      rw [readBody, splitAtFirst?_eq_none_iff.mpr hfree]
  | emptyNamespace key =>
      rw [readBody, splitAtFirst?_eq_some_iff.mpr ⟨(List.nil_append _).symm, List.not_mem_nil⟩]
  | @emptyKey code hcode hfree =>
      rw [readBody, splitAtFirst?_eq_some_iff.mpr ⟨rfl, hfree⟩]
      cases code with
      | nil => exact absurd rfl hcode
      | cons c cs => rfl
  | @name code key hcode hfree hkey =>
      rw [readBody, splitAtFirst?_eq_some_iff.mpr ⟨rfl, hfree⟩]
      cases code with
      | nil => exact absurd rfl hcode
      | cons c cs =>
          cases key with
          | nil => exact absurd rfl hkey
          | cons k ks => rfl

/-- The body of a range is read as the grammar says. -/
theorem readBody_eq_iff {body : List Char} {r : Except Fault Name} :
    readBody body = r ↔ BodyReads body r :=
  ⟨fun h => h ▸ bodyReads_readBody body, BodyReads.readBody_eq⟩

/-- What the grammar makes of a byte range: the range is delimited, and the text between its
markers says so. -/
def Reads (cs : List Char) (s e : ℕ) (r : Except Fault Name) : Prop :=
  Delimited cs s e ∧ ∃ body, slice? cs (s + 2) (e - 2) = some body ∧ BodyReads body r

/-- What the grammar makes of a byte range, as a cut of the text. -/
theorem reads_iff {cs : List Char} {s e : ℕ} {r : Except Fault Name} :
    Reads cs s e r ↔ ∃ before body after,
      cs = before ++ '{' :: '{' :: (body ++ '}' :: '}' :: after) ∧ CleanBody body ∧
        readBody body = r ∧ byteSize before = s ∧ s + 2 + byteSize body + 2 = e := by
  have hslice : ∀ before body after : List Char,
      slice? (before ++ '{' :: '{' :: (body ++ '}' :: '}' :: after)) (byteSize before + 2)
        (byteSize before + 2 + byteSize body + 2 - 2) = some body := by
    intro before body after
    have h := slice?_append (before ++ ['{', '{']) body ('}' :: '}' :: after)
    have hsize : byteSize (before ++ ['{', '{']) = byteSize before + 2 := by
      rw [byteSize_append]
      rfl
    rw [hsize] at h
    simpa using h
  constructor
  · rintro ⟨hdel, body, hbody, hreads⟩
    obtain ⟨before, body', after, rfl, hclean, rfl, rfl⟩ := delimited_iff.mp hdel
    rw [hslice] at hbody
    obtain rfl := Option.some.inj hbody
    exact ⟨before, body', after, rfl, hclean, readBody_eq_iff.mpr hreads, rfl, rfl⟩
  · rintro ⟨before, body, after, rfl, hclean, rfl, rfl, rfl⟩
    exact ⟨delimited_iff.mpr ⟨before, body, after, rfl, hclean, rfl, rfl⟩, body,
      hslice before body after, readBody_eq_iff.mp rfl⟩

end LinkExpr
