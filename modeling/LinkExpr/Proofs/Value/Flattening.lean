import LinkExpr.Proofs.Expansion.Iteration
import LinkExpr.Value.Linked

/-!
# Validated Values Can Be Stored

A host checks what a linked value stands for, makes the value a literal of it, and assigns that
literal somewhere else. Each of these takes its own way from the value to a text. They agree: the
flattened value stands for the same text to every reader, and the check is passed only if that text
is accepted by an assignment, which then stores the flattened value.

Conversely, a check that is not passed has one of two reasons. Something of the expression is left
over, and is what the check reports, or the text is rejected, by the check and by every assignment
for the same reason.

The type must not be secret: a secret link is flattened to an empty literal, which is not what the
link stands for.

## Main results

* `effective?_toLiteral`, `toLiteral_toLiteral`: flattening is seen and done once.
* `validate_eq_checkText`: the text is checked unless something is left over.
* `validate_eq_nil_iff`, `Checked.of_effective?`: what a check says about storing the text.
* `toLiteral_toLink`: a literal without values becomes a link and itself again.
* `validated_values_can_be_stored`: the agreement of all four.
-/

namespace LinkExpr

variable {r : Reader} {v : LinkedValue} {type : ValueType} {text : String} {rejection : Rejection}

/-- Nothing is reported of an expansion exactly if nothing was left over. -/
theorem Expansion.statusMessages_eq_nil_iff {e : Expansion} :
    e.statusMessages = [] ↔ e.isFullyResolved = true := by
  rw [statusMessages, List.append_eq_nil_iff, List.map_eq_nil_iff, isFullyResolved,
    Bool.and_eq_true, List.isEmpty_iff, List.isEmpty_iff]

/-! ### Assignments -/

namespace Edit

/-- An accepted text is assigned, whatever the value was. -/
theorem attempt_assignValue_of_ok (h : type.validate text = .ok ()) (x : LinkedValue) :
    attempt x (.assignValue type text) = .ok (.literal text) := by
  rw [attempt, LinkedValue.assign, h, Except.map]

/-- A rejected text is not assigned, whatever the value was. -/
theorem attempt_assignValue_of_error (h : type.validate text = .error rejection)
    (x : LinkedValue) : attempt x (.assignValue type text) = .error rejection := by
  rw [attempt, LinkedValue.assign, h, Except.map]

/-- An edit that succeeds leaves what it was to leave. -/
theorem apply_of_ok {v v' : LinkedValue} {edit : Edit} (h : attempt v edit = .ok v') :
    apply v edit = v' := by
  rw [apply, h]

/-- An edit that is rejected leaves the value as it was. -/
theorem apply_of_error {edit : Edit} (h : attempt v edit = .error rejection) :
    apply v edit = v := by
  rw [apply, h]

end Edit

namespace Reader

/-! ### Flattening -/

/-- A value that is set stands for something. -/
theorem exists_effective? (r : Reader) (h : v ≠ .unset) : ∃ text, r.effective? v = some text := by
  cases v with
  | unset => exact absurd rfl h
  | literal value => exact ⟨value, rfl⟩
  | link expression => exact ⟨_, rfl⟩

/-- The flattened value is the literal of what the value stands for. -/
theorem toLiteral_of_effective? (hopen : type.isSecret = false) (h : r.effective? v = some text) :
    r.toLiteral v type = .literal text := by
  cases v with
  | unset => cases h
  | literal value =>
      obtain rfl := Option.some.inj h
      rfl
  | link expression =>
      rw [toLiteral, hopen, preview, h]
      rfl

/-- The flattened value stands for the same, to every reader. -/
theorem effective?_toLiteral (hopen : type.isSecret = false) (r r' : Reader) (v : LinkedValue) :
    r'.effective? (r.toLiteral v type) = r.effective? v := by
  cases h : r.effective? v with
  | none =>
      cases v with
      | unset => rfl
      | literal | link => cases h
  | some text => rw [toLiteral_of_effective? hopen h, effective?]

/-- Nothing is left to flatten in a flattened value, whatever the type is. -/
theorem toLiteral_toLiteral (r r' : Reader) (v : LinkedValue) (type : ValueType) :
    r'.toLiteral (r.toLiteral v type) type = r.toLiteral v type := by
  cases v with
  | unset | literal value => rfl
  | link expression =>
      by_cases hsecret : type.isSecret = true
      · simp only [toLiteral, if_pos hsecret]
      · simp only [toLiteral, if_neg hsecret]

/-- **A literal without values** becomes a link and the same literal again. -/
theorem toLiteral_toLink (hopen : type.isSecret = false) (h : Inert r.context.lookup text) :
    r.toLiteral ((LinkedValue.literal text).toLink type) type = .literal text := by
  refine toLiteral_of_effective? hopen ?_
  rw [LinkedValue.toLink, hopen]
  exact congrArg some (h.text_expandToDepth r.options.depth)

/-! ### Checks -/

theorem checkText_of_ok (h : type.validate text = .ok ()) : checkText type text = [] := by
  rw [checkText, h]

theorem checkText_of_error (h : type.validate text = .error rejection) :
    checkText type text = [.of rejection] := by
  rw [checkText, h]

/-- A check is silent exactly about the texts that are accepted. -/
theorem checkText_eq_nil_iff : checkText type text = [] ↔ type.validate text = .ok () := by
  cases h : type.validate text with
  | ok u => exact iff_of_true (checkText_of_ok h) rfl
  | error rejection =>
      rw [checkText_of_error h]
      exact iff_of_false (List.cons_ne_nil _ _) nofun

/-- Something is left over of what a value stands for. -/
def LeftOver (r : Reader) (v : LinkedValue) : Prop :=
  ∃ expression, v = .link expression ∧ (r.expand expression).isFullyResolved = false

/-- **What a value stands for is checked** unless something is left over of it. -/
theorem validate_eq_checkText (h : r.effective? v = some text) (hleft : ¬ r.LeftOver v) :
    r.validate v type = checkText type text := by
  cases v with
  | unset => cases h
  | literal value =>
      obtain rfl := Option.some.inj h
      rfl
  | link expression =>
      obtain rfl := Option.some.inj h
      have hresolved : (r.expand expression).isFullyResolved = true := by
        rw [← Bool.not_eq_false]
        exact fun hfalse => hleft ⟨expression, rfl, hfalse⟩
      exact if_pos hresolved

/-- What is left over of an expression is reported instead. -/
theorem validate_of_leftOver {expression : String}
    (h : (r.expand expression).isFullyResolved = false) :
    r.validate (.link expression) type = (r.expand expression).statusMessages :=
  if_neg (Bool.not_eq_true _ ▸ h)

/-- **A check is passed** exactly if nothing is left over and the text is accepted. -/
theorem validate_eq_nil_iff (h : r.effective? v = some text) :
    r.validate v type = [] ↔ ¬ r.LeftOver v ∧ type.validate text = .ok () := by
  by_cases hleft : r.LeftOver v
  · refine iff_of_false ?_ fun hboth => hboth.1 hleft
    obtain ⟨expression, rfl, hfalse⟩ := hleft
    rw [validate_of_leftOver hfalse, Expansion.statusMessages_eq_nil_iff, hfalse]
    exact Bool.false_ne_true
  · rw [validate_eq_checkText h hleft, checkText_eq_nil_iff, and_iff_right hleft]

/-- What a check of a value says about a text that is to be stored for it. -/
inductive Checked (r : Reader) (v : LinkedValue) (type : ValueType) (text : String) : Prop
  /-- The check is passed: every assignment of the text succeeds, and the literal passes every
  check. -/
  | passed : r.validate v type = [] →
      (∀ x, Edit.attempt x (.assignValue type text) = .ok (.literal text)) →
      (∀ r' : Reader, r'.validate (.literal text) type = []) → Checked r v type text
  /-- Something is left over of the expression, and reported. -/
  | leftOver (expression : String) : v = .link expression →
      (r.expand expression).isFullyResolved = false →
      r.validate v type = (r.expand expression).statusMessages → r.validate v type ≠ [] →
      Checked r v type text
  /-- The text is rejected, by the check and by every assignment. -/
  | rejected (rejection : Rejection) : r.validate v type = [.of rejection] →
      (∀ x, Edit.attempt x (.assignValue type text) = .error rejection) → Checked r v type text

/-- **Checks and assignments agree** on what a value stands for. -/
theorem Checked.of_effective? (h : r.effective? v = some text) : Checked r v type text := by
  by_cases hleft : r.LeftOver v
  · have hreported : r.validate v type ≠ [] := fun hnil =>
      ((validate_eq_nil_iff h).mp hnil).1 hleft
    obtain ⟨expression, rfl, hfalse⟩ := hleft
    exact .leftOver expression rfl hfalse (validate_of_leftOver hfalse) hreported
  · have hcheck : r.validate v type = checkText type text := validate_eq_checkText h hleft
    cases hvalid : type.validate text with
    | ok u =>
        exact .passed (hcheck.trans (checkText_of_ok hvalid))
          (Edit.attempt_assignValue_of_ok hvalid) fun _ => checkText_of_ok hvalid
    | error rejection =>
        exact .rejected rejection (hcheck.trans (checkText_of_error hvalid))
          (Edit.attempt_assignValue_of_error hvalid)

end Reader

/-- **Validated values can be stored.** Let a value that is set stand for a text to a reader, and
let its type not be secret. Flattened, it stands for that text to every reader, and is not flattened
any further. If the check of the value is passed, then assigning the text to any value succeeds and
makes it the flattened value, which passes every check. If not, then something of the expression is
left over and reported, or the text is rejected when it is assigned to any value, which stays as it
was, for the one reason that the check reports. A literal whose placeholders have no values becomes
a link and itself again. -/
theorem validated_values_can_be_stored (r : Reader) (v : LinkedValue) (type : ValueType)
    (hset : v ≠ .unset) (hopen : type.isSecret = false) :
    (∃ text, r.effective? v = some text ∧
      (∀ r' : Reader, r'.effective? (r.toLiteral v type) = some text ∧
        r'.toLiteral (r.toLiteral v type) type = r.toLiteral v type) ∧
      (r.validate v type = [] →
        (∀ x, Edit.attempt x (.assignValue type text) = .ok (r.toLiteral v type) ∧
          Edit.apply x (.assignValue type text) = r.toLiteral v type) ∧
        ∀ r' : Reader, r'.validate (r.toLiteral v type) type = []) ∧
      (r.validate v type ≠ [] →
        (∃ expression, v = .link expression ∧ (r.expand expression).isFullyResolved = false ∧
          r.validate v type = (r.expand expression).statusMessages) ∨
        ∃ rejection, r.validate v type = [.of rejection] ∧
          ∀ x, Edit.attempt x (.assignValue type text) = .error rejection ∧
            Edit.apply x (.assignValue type text) = x)) ∧
    ∀ s, Inert r.context.lookup s →
      r.toLiteral ((LinkedValue.literal s).toLink type) type = .literal s := by
  refine ⟨?_, fun s => Reader.toLiteral_toLink hopen⟩
  obtain ⟨text, htext⟩ := r.exists_effective? hset
  have hflat : r.toLiteral v type = .literal text := Reader.toLiteral_of_effective? hopen htext
  refine ⟨text, htext, fun r' => ⟨(Reader.effective?_toLiteral hopen r r' v).trans htext,
    r.toLiteral_toLiteral r' v type⟩, ?_⟩
  rw [hflat]
  rcases Reader.Checked.of_effective? htext with
    ⟨hpassed, hassign, hcheck⟩ | ⟨expression, hlink, hleft, hreport, hreported⟩ |
    ⟨rejection, hreport, hassign⟩
  · exact ⟨fun _ => ⟨fun x => ⟨hassign x, Edit.apply_of_ok (hassign x)⟩, hcheck⟩,
      fun hreported => absurd hpassed hreported⟩
  · exact ⟨fun hpassed => absurd hpassed hreported,
      fun _ => .inl ⟨expression, hlink, hleft, hreport⟩⟩
  · refine ⟨fun hpassed => ?_, fun _ => .inr ⟨rejection, hreport, fun x =>
      ⟨hassign x, Edit.apply_of_error (hassign x)⟩⟩⟩
    rw [hreport] at hpassed
    cases hpassed

/-- A port that is linked passes its check where the port is known, and is stored as a literal. -/
theorem linked_port_is_stored :
    let r : Reader := ⟨⟨.ofPlain ["P"], [(Scope.empty "scope").insert "P" "PORT" "8080"]⟩, ⟨1⟩⟩
    let v : LinkedValue := .link "\x7b\x7bP:PORT\x7d\x7d"
    r.validate v .serverPort = [] ∧
      Edit.apply .unset (.assignValue .serverPort "8080") = r.toLiteral v .serverPort ∧
      ∀ r' : Reader, r'.effective? (r.toLiteral v .serverPort) = some "8080" := by
  intro r v
  have hvalid : r.validate v .serverPort = [] := by decide +kernel
  have htext : r.effective? v = some "8080" := by decide +kernel
  obtain ⟨⟨text, heffective, hflat, hstored, -⟩, -⟩ :=
    validated_values_can_be_stored r v .serverPort (by decide) rfl
  obtain rfl : "8080" = text := Option.some.inj (htext.symm.trans heffective)
  exact ⟨hvalid, ((hstored hvalid).1 .unset).2, fun r' => (hflat r').1⟩

/-- A secret link is not flattened to what it stands for. -/
example (r : Reader) (expression : String) :
    r.toLiteral (.link expression) .password = .literal "" := rfl

end LinkExpr
