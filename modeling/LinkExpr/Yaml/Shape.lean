import LinkExpr.Yaml.Node
import LinkExpr.Document.Shape

/-!
# The shape of YAML values

Any scalar is a text, just as it is written. A plain scalar that is empty stands for an empty list,
table or record as well, and together with the words for null it stands for a text that is absent.
One of several names may also be given as a tag of its own, on a scalar without content.

Aliases are followed where a value is needed, and at most a hundred times for every mark of the
document.
-/

namespace LinkExpr.Yaml

/-- The words for null. -/
def isNullWord (text : String) : Bool := ["null", "Null", "NULL", "~"].contains text

/-- Whether a scalar has no content. -/
def Node.isBlank : Node → Bool
  | scalar text plain _ => plain && text = ""
  | _ => false

/-- Taking nodes apart, with the number of aliases that may still be followed. -/
abbrev Following := StateT Nat Option

namespace Document

/-- A node that is not an alias: the given one, or the one it stands for. -/
def follow (d : Document) : Node → Following Node
  | .reference number => do
      match ← get with
      | 0 => failure
      | left + 1 =>
          set left
          d.target? number
  | node => return node

/-- The text of a scalar. -/
def text (d : Document) (node : Node) : Following String := do
  match ← d.follow node with
  | .scalar text _ _ => return text
  | _ => failure

/-- A node that may be absent. -/
def optional (d : Document) (node : Node) : Following (Option Node) := do
  let node ← d.follow node
  match node with
  | .scalar text true none =>
      return if text = "" || isNullWord text then none else some node
  | .scalar text true (some tag) =>
      if tag = .null then
        if isNullWord text then return none else failure
      else return some node
  | _ => return some node

/-- The items of a sequence. -/
def list (d : Document) (node : Node) : Following (List Node) := do
  let node ← d.follow node
  match node with
  | .sequence items => return items
  | _ => if node.isBlank then return [] else failure

/-- The entries of a mapping, the keys of which are texts. -/
def table (d : Document) (node : Node) : Following (List (String × Node)) := do
  let node ← d.follow node
  match node with
  | .mapping entries => entries.mapM fun (key, value) => return (← d.text key, value)
  | _ => if node.isBlank then return [] else failure

/-- One of several names. -/
def choice (d : Document) (node : Node) : Following String := do
  match ← d.follow node with
  | .scalar text plain tag =>
      match tag.bind Tag.name? with
      | some name => if plain && (text = "" || isNullWord text) then return name else failure
      | none => return text
  | _ => failure

/-- The shape of the nodes of a document. -/
def shape (d : Document) : Shape Following Node where
  refuse := failure
  text := d.text
  optional := d.optional
  list := d.list
  table := d.table
  record fields node := do selectFields fields (← d.table node)
  choice := d.choice

/-- Takes the root of a document apart. -/
def read {α : Type} (d : Document) (f : Node → Following α) : Option α :=
  (f d.root).run' (100 * d.root.size)

end Document

end LinkExpr.Yaml
