import LinkExpr.Document.Stored
import LinkExpr.Json.Reader
import LinkExpr.Yaml.Shape

/-!
# Formats of documents

A document is written in YAML or JSON, and the extension of its path says which. Loading a document
fails if the format is not known, if the document cannot be read, or if it is not well formed or
has another shape than asked for, in this order.
-/

namespace LinkExpr

/-- The format of a document. -/
inductive DocumentFormat
  | yaml
  | json
deriving DecidableEq, Repr

/-- Why a document could not be loaded. -/
inductive DocumentError
  /-- The extension of the path is not that of a format. -/
  | unknownFormat (path : String)
  /-- There is no text to read. -/
  | unreadable
  /-- The text is not a document of the format, or not one of the shape asked for. -/
  | invalid (format : DocumentFormat)
deriving DecidableEq, Repr

/-- The text of an error. -/
def DocumentError.message : DocumentError → String
  | unknownFormat path => "`" ++ path ++ "` is not a `.yaml`, `.yml` or `.json` file"
  | unreadable => "unable to read document"
  | invalid .yaml => "invalid YAML document"
  | invalid .json => "invalid JSON document"

/-- The last component of a path, apart from those that stand for the place they are in. -/
def fileName? (path : String) : Option String :=
  match ((path.splitOn "/").filter fun part => part ≠ "" && part ≠ ".").getLast? with
  | some ".." | none => none
  | some name => some name

/-- The extension of a path: what follows the last point of its file name, unless nothing stands
before that point. -/
def fileExtension? (path : String) : Option String := do
  match (← fileName? path).splitOn "." with
  | [] | [_] | ["", _] => none
  | _ :: rest => rest.getLast?

/-- A way to read a value from the shape of any format. -/
abbrev ReadShape (α : Type) : Type 1 :=
  {m : Type → Type} → {ν : Type} → [Monad m] → Shape m ν → ν → m α

namespace DocumentFormat

/-- The format of an extension; case does not matter. -/
def ofExtension? (extension : String) : Option DocumentFormat :=
  match extension.toLower with
  | "yaml" | "yml" => some yaml
  | "json" => some json
  | _ => none

/-- The format that belongs to the extension of a path. -/
def ofPath (path : String) : Except DocumentError DocumentFormat :=
  match (fileExtension? path).bind ofExtension? with
  | some format => .ok format
  | none => .error (.unknownFormat path)

/-- Reads a value from a text. -/
def parse? {α : Type} (format : DocumentFormat) (read : ReadShape α) (contents : String) :
    Option α := do
  match format with
  | yaml =>
      let document ← Yaml.Document.ofText? contents
      document.read (read document.shape)
  | json => read Json.shape (← Json.parse? contents)

/-- Reads a value from a text, or says that there is none. -/
def parse {α : Type} (format : DocumentFormat) (read : ReadShape α) (contents : String) :
    Except DocumentError α :=
  match format.parse? read contents with
  | some value => .ok value
  | none => .error (.invalid format)

end DocumentFormat

/-- Loads a value from a path, where `contents?` is the text found there if there is one. -/
def load {α : Type} (read : ReadShape α) (path : String) (contents? : Option String) :
    Except DocumentError α := do
  let format ← DocumentFormat.ofPath path
  match contents? with
  | some contents => format.parse read contents
  | none => .error .unreadable

end LinkExpr
