import FieldPipeline.Request.Basic
import FieldPipeline.Yaml.Node

/-!
# Requests as YAML

A request is a mapping with a field list and perhaps a session key. Texts are taken as they are
written, whatever they look like. A null stands for no key: a plain scalar that spells one, with the
tag of nulls or without any, or one that is empty and has no tag. An empty plain scalar stands for
no fields. Entries with other names are skipped.
-/

namespace FieldPipeline.Request

open Yaml

def textOf? (root node : Node) : Option String :=
  match node.target root with
  | some (.scalar _ text _ _) => some text
  | _ => none

/-- The texts of a sequence; an empty plain scalar is the empty sequence. -/
def textsOf? (root node : Node) : Option (List String) :=
  match node.target root with
  | some (.sequence _ items) => items.mapM (textOf? root)
  | some (.scalar _ "" true _) => some []
  | _ => none

def spellsNull (text : String) : Bool :=
  text = "~" ∨ text = "null" ∨ text = "Null" ∨ text = "NULL"

/-- A key, or none for a null. What has the tag of nulls must spell one. -/
def keyOf? (root node : Node) : Option (Option String) :=
  match node.target root with
  | some (.scalar _ text true none) =>
    some (if text = "" || spellsNull text then none else some text)
  | some (.scalar _ text true (some tag)) =>
    if tag ≠ Tag.null then some (some text)
    else if spellsNull text then some none
    else none
  | some (.scalar _ text false _) => some (some text)
  | _ => none

/-- The members of a request in the entries of a mapping, neither of them twice. -/
def readEntries (root : Node) (key : Option (Option String)) (fields : Option (List String)) :
    List (Node × Node) → Option Request
  | [] => fields.map fun fields => ⟨key.join, fields⟩
  | (name, value) :: entries =>
    match textOf? root name with
    | none => none
    | some name =>
      if name = "session_key" then
        if key.isSome then none
        else
          match keyOf? root value with
          | some key => readEntries root (some key) fields entries
          | none => none
      else if name = "fields" then
        if fields.isSome then none
        else
          match textsOf? root value with
          | some fields => readEntries root key (some fields) entries
          | none => none
      else readEntries root key fields entries

def ofNode (node : Node) : Option Request :=
  match node with
  | .mapping _ entries => readEntries node none none entries
  | _ => none

def ofYamlText (text : String) : Option Request :=
  (Node.ofText text).bind ofNode

end FieldPipeline.Request
