import FieldPipeline.Json.Unwanted

/-!
# Lists of strings

The machine for an array that holds strings only.
-/

namespace FieldPipeline.Json

/-- Where the reader stands; `items` holds the strings so far, the last one first. -/
inductive TextList where
  | start
  | refused (wanted : Wanted) (u : Unwanted)
  | first
  | next (items : List String)
  | item (items : List String) (q : Quoted)
  | after (items : List String)
deriving DecidableEq

namespace TextList

def startItem (items : List String) (c : Char) : Except ReadError TextList :=
  if c = '"' then .ok (.item items .opened)
  else (Unwanted.start .text c).map (.refused .text)

def step : TextList → Char → Except ReadError (Progress TextList (List String))
  | .start, c =>
    if isBlank c then .ok (.more .start)
    else if c = '[' then .ok (.more .first)
    else (Unwanted.start .sequence c).map fun u => .more (.refused .sequence u)
  | .refused wanted u, c => (u.step wanted c).map fun u => .more (.refused wanted u)
  | .first, c =>
    if isBlank c then .ok (.more .first)
    else if c = ']' then .ok (.done [])
    else (startItem [] c).map .more
  | .next items, c =>
    if isBlank c then .ok (.more (.next items))
    else if c = ']' then .error .trailingComma
    else (startItem items c).map .more
  | .item items q, c =>
    (q.step true c).map fun
      | .more q => .more (.item items q)
      | .done s => .more (.after (s :: items))
  | .after items, c =>
    if isBlank c then .ok (.more (.after items))
    else if c = ',' then .ok (.more (.next items))
    else if c = ']' then .ok (.done items.reverse)
    else .error .expectedItemEnd

def finish : TextList → ReadError
  | .start => .endInValue
  | .refused wanted u => u.finish wanted
  | .first => .endInList
  | .next _ => .endInValue
  | .item _ _ => .endInText
  | .after _ => .endInList

end TextList

end FieldPipeline.Json
