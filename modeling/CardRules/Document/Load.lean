import CardRules.Document.Rules
import CardRules.Document.Settings
import CardRules.Document.Toml.Draft
import CardRules.Error

/-!
Loading settings, rules and catalogs from TOML texts and files.
-/

namespace CardRules.Document

/-- The text of a file, given its bytes if there is such a file. -/
def fileText (bytes : Option ByteArray) : Except Error String :=
  match bytes.bind String.fromUTF8? with
  | some text => .ok text
  | none => .error .unreadable

/-- Reads a TOML text as something of a shape. -/
def ofToml {α : Type} (read : Reading → Data → Option α) (source : String) : Except Error α :=
  match (Toml.read? source).bind (read { format := .toml }) with
  | some a => .ok a
  | none => .error .malformed

/-- The template that an entry describes. Its id may not be empty, and its category must be one; its
name is its id unless it has another. -/
def TemplateEntry.toTemplate (entry : TemplateEntry) : Except Error Template :=
  if entry.id = "" then .error (.invalidTemplate .emptyId)
  else
    match Category.ofText? entry.category with
    | none => .error (.invalidCategory entry.category)
    | some category => .ok {
        id := entry.id
        name := entry.name.getD entry.id
        description := entry.description
        category
        tags := entry.tags
        properties := entry.properties
        parts := entry.parts }

/-- The settings that a TOML text holds. -/
def loadConfig (source : String) : Except Error Config := ofToml config? source

/-- The rules that a TOML text holds. Once the whole text was read they are validated in order. -/
def loadRules (source : String) : Except Error (List Rule) := do
  let rules ← ofToml rules? source
  rules.forM Rule.validate
  return rules

/-- The catalog that a TOML text holds. -/
def loadCatalog (source : String) : Except Error Catalog := do
  let entries ← ofToml writtenTemplates? source
  return .ofList (← entries.mapM TemplateEntry.toTemplate)

end CardRules.Document
