import LinkExpr.Proofs.Scan.Clear
import LinkExpr.Proofs.Template.Agreement

/-!
# Substitution in Stages

A template may be substituted in stages, one namespace after the other. Every stage scans what the
stage before it has put together, so values could become part of placeholders, or end them. In a
clear text they do not, if they are not empty and have no opening brace: the output of a stage is
the text with the values of that stage in place of its placeholders, and the next one finds all
placeholders that are left.

What a stage inserts or reports for a placeholder depends on its name only. So stages come to the
same whatever their order is, and a stage that is repeated has nothing left to insert.

## Main results

* `substituteInto_of_clear`: one stage.
* `stages_of_clear`: what stages insert and report, all in terms of the first text.
* `output_stages_perm`: the order of stages does not matter for the output.
* `staged_substitution_commutes`: two stages in both orders, and one stage twice.
-/

namespace LinkExpr.Template

/-- Whether a substitution applies to the placeholders of a name. -/
def Options.covers (o : Options) (name : Name) : Bool := o.code.all (· = name.code)

theorem appliesTo_eq (o : Options) (p : Placeholder) : o.appliesTo p = o.covers p.name := by
  rw [Options.appliesTo, Options.covers]
  cases o.code <;> rfl

/-- The value that some stages insert for a name. -/
def inserted? (values : Values) (os : List Options) (name : Name) : Option (List Char) :=
  if os.any (·.covers name) then (values.get? name.key).map String.toList else none

/-- What a stage reports for a placeholder of a name. -/
def report (values : Values) (o : Options) (name : Name) : List StatusMessage :=
  if o.covers name ∧ values.get? name.key = none then
    [.of (⟨name.key, .covering .start []⟩ : MissingVariable)]
  else []

/-- What a stage reports for the placeholders of a text. -/
def reported (values : Values) (o : Options) (source : String) : List StatusMessage :=
  ((placeholders source).map Placeholder.name).flatMap (report values o)

/-- Substitutes in stages, every one in the output of the stage before. -/
def stages (values : Values) (os : List Options) (source : String)
    (status : List StatusMessage) : Substitution :=
  os.foldl (fun s o => substituteInto values o s.output s.status) ⟨source, status⟩

section Stage

variable {values : Values} {o : Options} {os os' : List Options} {source : String}
  {status : List StatusMessage} {cs : List Char} {name : Name}

/-! ### One stage -/

/-- The output of a substitution is the text with values. -/
theorem toList_output_substituteInto : (substituteInto values o source status).output.toList =
    filled (inserted? values [o]) source.toList := by
  rw [output_substituteInto, String.toList_join, List.flatMap_map]
  refine Eq.trans (List.flatMap_congr fun token _ => ?_) (flatMap_replace_tokens source)
  cases token with
  | literal text span => rfl
  | placeholder p =>
      rw [substituteToken, Token.replace, inserted?, appliesTo_eq, List.any_cons, List.any_nil,
        Bool.or_false]
      by_cases hcovers : o.covers p.name = true
      · rw [if_pos hcovers, if_pos hcovers]
        cases values.get? p.name.key <;> rfl
      · rw [if_neg hcovers, if_neg hcovers]
        rfl

/-- What is reported of a placeholder depends on its name only. -/
theorem status_substituteToken_eq (p : Placeholder) :
    (substituteToken values o (.placeholder p)).status = report values o p.name := by
  rw [substituteToken, report, appliesTo_eq]
  by_cases hcovers : o.covers p.name = true
  · rw [if_pos hcovers]
    cases hvalue : values.get? p.name.key with
    | none => rw [if_pos ⟨hcovers, rfl⟩]; rfl
    | some value => rw [if_neg (by simp)]
  · rw [if_neg hcovers, if_neg fun h => hcovers h.1]

/-- Nothing in a clear text is malformed. -/
theorem malformed_of_clear (h : Clear source) : (scan source).malformed = [] := by
  refine List.filterMap_eq_nil_iff.mpr fun x hx => ?_
  obtain ⟨front, back, hss, -⟩ := Span.mem_layout_iff.mp hx
  have hmem : x.1 ∈ segments source.toList := by
    rw [hss]
    simp
  rw [Malformed.ofSegment?, (clear_iff.mp h).fault?_eq_none hmem]
  rfl

/-- **One stage** inserts its values into a clear text and reports its names without one. -/
theorem substituteInto_of_clear (h : Clear source) :
    substituteInto values o source status =
      ⟨String.ofList (filled (inserted? values [o]) source.toList),
        status ++ reported values o source⟩ := by
  have houtput : (substituteInto values o source status).output =
      String.ofList (filled (inserted? values [o]) source.toList) := by
    rw [← toList_output_substituteInto, String.ofList_toList]
  have hstatus : (substituteInto values o source status).status =
      status ++ reported values o source := by
    rw [status_substituteInto, malformed_of_clear h, reported, List.flatMap_map]
    simp only [status_substituteToken_eq, List.map_nil, List.nil_append]
  rw [← houtput, ← hstatus]

/-! ### From stage to stage -/

/-- Stages after stages insert what all of them insert. -/
theorem inserted?_append : inserted? values (os ++ os') name =
    (inserted? values os name).or (inserted? values os' name) := by
  rw [inserted?, inserted?, inserted?, List.any_append]
  cases os.any (·.covers name) <;> cases os'.any (·.covers name) <;>
    cases values.get? name.key <;> rfl

/-- Stages that apply to the same names insert the same. -/
theorem inserted?_congr (h : ∀ name, os.any (·.covers name) = os'.any (·.covers name)) :
    inserted? values os = inserted? values os' := by
  funext name
  rw [inserted?, inserted?, h]

variable (hvalues : ∀ key value, values.get? key = some value → value ≠ "" ∧ '{' ∉ value.toList)
include hvalues

/-- What is inserted is not empty and has no opening brace. -/
theorem inserted?_spec {value : List Char} (h : inserted? values os name = some value) :
    value ≠ [] ∧ '{' ∉ value := by
  rw [inserted?] at h
  split at h
  · obtain ⟨text, htext, rfl⟩ := Option.map_eq_some_iff.mp h
    obtain ⟨hne, hbrace⟩ := hvalues name.key text htext
    refine ⟨fun hnil => hne ?_, hbrace⟩
    exact String.toList_inj.mp hnil
  · cases h

/-- Inserted values leave a clear text. -/
theorem clear_filled (h : Clear source) :
    Clear (String.ofList (filled (inserted? values os) source.toList)) := by
  rw [clear_iff, String.toList_ofList]
  exact (clear_iff.mp h).filled fun _ _ => inserted?_spec hvalues

/-- Values that are inserted after others could as well be inserted with them. -/
theorem filled_filled (h : Interleaved cs) :
    filled (inserted? values os') (filled (inserted? values os) cs) =
      filled (inserted? values (os ++ os')) cs := by
  rw [filled, h.flatMap_segments_filled (fun _ _ => inserted?_spec hvalues) fun _ _ => rfl, filled]
  refine List.flatMap_congr fun x _ => ?_
  rw [Segment.replace, Segment.replace]
  cases x.name? with
  | none => rfl
  | some name =>
      simp only [Option.bind_some, inserted?_append]
      cases inserted? values os name <;> rfl

/-- Inserted values change nothing about what is reported: what has a value is not reported. -/
theorem reported_filled (h : Clear source) :
    reported values o (String.ofList (filled (inserted? values os) source.toList)) =
      reported values o source := by
  have hsegments : ∀ text : String, reported values o text =
      (segments text.toList).flatMap fun x => x.name?.toList.flatMap (report values o) := by
    intro text
    rw [reported, map_name_placeholders, List.filterMap_eq_flatMap_toList, List.flatMap_assoc]
  rw [hsegments, hsegments, String.toList_ofList, (clear_iff.mp h).flatMap_segments_filled
    (fun _ _ => inserted?_spec hvalues) fun _ _ => rfl]
  refine List.flatMap_congr fun x _ => ?_
  cases x.name? with
  | none => simp only [Option.bind_none]
  | some name =>
      cases hvalue : inserted? values os name with
      | none => simp only [Option.bind_some, hvalue]
      | some value =>
          have hnothing : report values o name = [] := by
            refine if_neg fun h => ?_
            rw [inserted?, h.2, Option.map_none, ite_self] at hvalue
            cases hvalue
          simp only [Option.bind_some, hvalue, Option.toList_some, List.flatMap_singleton, hnothing]
          rfl

/-- **Stages** insert their values into a clear text and report what each of them would report for
the text itself. -/
theorem stages_of_clear (h : Clear source) :
    stages values os source status =
      ⟨String.ofList (filled (inserted? values os) source.toList),
        status ++ os.flatMap fun o => reported values o source⟩ := by
  -- what a stage leaves is clear again, and the rest of the stages report the same for it
  induction os generalizing source status with
  | nil =>
      have hnothing : inserted? values [] = fun _ => none := rfl
      rw [hnothing, filled_none, String.ofList_toList, List.flatMap_nil, List.append_nil]
      rfl
  | cons o os ih =>
      have hstep : stages values (o :: os) source status =
          stages values os (String.ofList (filled (inserted? values [o]) source.toList))
            (status ++ reported values o source) := by
        rw [stages, List.foldl_cons, substituteInto_of_clear h]
        rfl
      rw [hstep, ih (clear_filled hvalues h), String.toList_ofList,
        filled_filled hvalues (clear_iff.mp h), List.singleton_append, List.flatMap_cons,
        List.append_assoc]
      simp only [reported_filled hvalues h]

/-! ### The order of stages -/

/-- **The order of stages does not matter for the output.** -/
theorem output_stages_perm (h : Clear source) (hperm : os.Perm os') :
    (stages values os source status).output = (stages values os' source status).output := by
  rw [stages_of_clear hvalues h, stages_of_clear hvalues h, inserted?_congr fun _ => hperm.any_eq]

/-- The second of two stages inserts its values into what the first one leaves, and reports what it
would report for the text itself. -/
theorem second_stage (h : Clear source) (first second : Options) :
    substituteInto values second (substituteInto values first source status).output
        (substituteInto values first source status).status =
      ⟨String.ofList (filled (inserted? values [first, second]) source.toList),
        status ++ reported values first source ++ reported values second source⟩ := by
  have hstages : substituteInto values second (substituteInto values first source status).output
      (substituteInto values first source status).status =
        stages values [first, second] source status := rfl
  rw [hstages, stages_of_clear hvalues h, List.flatMap_cons, List.flatMap_singleton,
    List.append_assoc]

end Stage

/-- **Stages commute**, and a stage may be repeated. Let no literal text of a template have an
opening marker, and let the values be without opening braces and not empty. Of two stages, such as
those of two namespaces, either one may be the first: the final text is the same, and each of them
adds the same reports. A stage on its own output gives this output once more, and adds the same
reports once more. -/
theorem staged_substitution_commutes (values : Values) (source : String) (hsource : Clear source)
    (hvalues : ∀ key value, values.get? key = some value → value ≠ "" ∧ '{' ∉ value.toList) :
    (∀ first second : Options, ∃ output reports reports', ∀ status,
      (let once := substituteInto values first source status
       once.status = status ++ reports ∧
        substituteInto values second once.output once.status =
          ⟨output, once.status ++ reports'⟩) ∧
      (let once := substituteInto values second source status
       once.status = status ++ reports' ∧
        substituteInto values first once.output once.status =
          ⟨output, once.status ++ reports⟩)) ∧
    (∀ o : Options, ∃ reports, ∀ status,
      let once := substituteInto values o source status
      once.status = status ++ reports ∧
        substituteInto values o once.output once.status =
          ⟨once.output, once.status ++ reports⟩) := by
  have hone : ∀ (o : Options) (status : List StatusMessage),
      (substituteInto values o source status).status = status ++ reported values o source := by
    intro o status
    rw [substituteInto_of_clear hsource]
  constructor
  · intro first second
    have hswap : inserted? values [second, first] = inserted? values [first, second] :=
      inserted?_congr fun _ => (List.Perm.swap first second []).any_eq
    refine ⟨String.ofList (filled (inserted? values [first, second]) source.toList),
      reported values first source, reported values second source, fun status => ⟨?_, ?_⟩⟩
    · refine ⟨hone first status, ?_⟩
      rw [second_stage hvalues hsource, hone]
    · refine ⟨hone second status, ?_⟩
      rw [second_stage hvalues hsource, hone, hswap]
  · intro o
    have hrepeat : inserted? values [o, o] = inserted? values [o] :=
      inserted?_congr fun name => by rw [List.any_cons, List.any_cons, Bool.or_self_left]
    refine ⟨reported values o source, fun status => ⟨hone o status, ?_⟩⟩
    rw [second_stage hvalues hsource, hrepeat, substituteInto_of_clear hsource]

/-- A value stands between two braces that would be a marker without it. -/
theorem value_between_braces_stays_between :
    let values : Values := Table.empty.insert "i" "x"
    let source := "\x7b\x7b\x7bA:i\x7d\x7d\x7bB:i\x7d\x7d\x7b\x7bB:j\x7d\x7d"
    let a := substituteInto values ⟨some "A"⟩ source []
    let b := substituteInto values ⟨some "B"⟩ source []
    (substituteInto values ⟨some "B"⟩ a.output a.status).output =
      (substituteInto values ⟨some "A"⟩ b.output b.status).output := by
  intro values source a b
  have hvalues : ∀ key value, values.get? key = some value →
      value ≠ "" ∧ '{' ∉ value.toList := by
    intro key value hvalue
    rw [Table.get?_insert] at hvalue
    split at hvalue
    · obtain rfl := Option.some.inj hvalue
      decide
    · cases hvalue
  obtain ⟨output, reports, reports', hboth⟩ :=
    (staged_substitution_commutes values source (by decide +kernel) hvalues).1 ⟨some "A"⟩ ⟨some "B"⟩
  obtain ⟨⟨-, hab⟩, ⟨-, hba⟩⟩ := hboth []
  exact (congrArg Substitution.output hab).trans (congrArg Substitution.output hba).symm

/-- With an empty value the braces meet, and the order matters. -/
example :
    let values : Values := Table.empty.insert "i" ""
    let source := "\x7b\x7b\x7bA:i\x7d\x7d\x7bB:i\x7d\x7d"
    let a := substituteInto values ⟨some "A"⟩ source []
    let b := substituteInto values ⟨some "B"⟩ source []
    (substituteInto values ⟨some "B"⟩ a.output a.status).output = "" ∧
      (substituteInto values ⟨some "A"⟩ b.output b.status).output =
        "\x7b\x7bB:i\x7d\x7d" := by
  decide +kernel

end LinkExpr.Template
