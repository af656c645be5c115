import FieldPipeline.Json.Skip
import FieldPipeline.Json.TextList
import FieldPipeline.Request.Basic

/-!
# Requests as JSON

A request is an object with a member `fields` and perhaps a member `session_key`, or an array of the
key and the fields. The reader is a machine that takes one character at a time and stops at the
first one that cannot be right. Members with other names are skipped.
-/

namespace FieldPipeline.Request

open Json

/-- The machine for a key: a string, or null for none. -/
inductive KeyReader where
  | start
  | word (rest : List Char)
  | text (q : Quoted)
  | refused (u : Unwanted)
deriving DecidableEq

namespace KeyReader

def step : KeyReader → Char → Except ReadError (Progress KeyReader (Option String))
  | .start, c =>
    if isBlank c then .ok (.more .start)
    else if c = 'n' then .ok (.more (.word ['u', 'l', 'l']))
    else if c = '"' then .ok (.more (.text .opened))
    else (Unwanted.start .text c).map fun u => .more (.refused u)
  | .word [], _ => .error .expectedWord
  | .word [e], c => if c = e then .ok (.done none) else .error .expectedWord
  | .word (e :: rest), c => if c = e then .ok (.more (.word rest)) else .error .expectedWord
  | .text q, c =>
    (q.step true c).map fun
      | .more q => .more (.text q)
      | .done s => .done (some s)
  | .refused u, c => (u.step .text c).map fun u => .more (.refused u)

def finish : KeyReader → ReadError
  | .start | .word _ => .endInValue
  | .text _ => .endInText
  | .refused u => u.finish .text

end KeyReader

structure Members where
  sessionKey : Option (Option String) := none
  fields : Option (List String) := none
deriving DecidableEq

inductive Reader where
  | start
  | refused (u : Unwanted)
  | listOpened
  | listKey (k : KeyReader)
  | listKeyRead (key : Option String)
  | listComma (key : Option String)
  | listFields (key : Option String) (l : TextList)
  | listFieldsRead (r : Request)
  | listSurplus
  | objectOpened
  | nameStart (m : Members)
  | nameText (m : Members) (q : Quoted)
  | colon (m : Members) (name : String)
  | keyValue (m : Members) (k : KeyReader)
  | fieldsValue (m : Members) (l : TextList)
  | skipValue (m : Members) (s : Skip)
  | memberRead (m : Members)
  | complete (r : Request)
deriving DecidableEq

namespace Reader

/-- After a complete name: neither of the known names may come twice. -/
def startColon (m : Members) (name : String) : Except ReadError Reader :=
  if name = "session_key" ∧ m.sessionKey.isSome ∨ name = "fields" ∧ m.fields.isSome then
    .error (.duplicate name)
  else .ok (.colon m name)

def startMember (m : Members) (name : String) : Reader :=
  if name = "session_key" then .keyValue m .start
  else if name = "fields" then .fieldsValue m .start
  else .skipValue m .start

def close (m : Members) : Except ReadError Reader :=
  match m.fields with
  | some fields => .ok (.complete ⟨m.sessionKey.join, fields⟩)
  | none => .error (.missing "fields")

def afterMember (m : Members) (c : Char) : Except ReadError Reader :=
  if isBlank c then .ok (.memberRead m)
  else if c = ',' then .ok (.nameStart m)
  else if c = '}' then close m
  else .error .expectedMemberEnd

def stepListKey (k : KeyReader) (c : Char) : Except ReadError Reader :=
  (k.step c).map fun
    | .more k => .listKey k
    | .done key => .listKeyRead key

def stepListFields (key : Option String) (l : TextList) (c : Char) : Except ReadError Reader :=
  (l.step c).map fun
    | .more l => .listFields key l
    | .done fields => .listFieldsRead ⟨key, fields⟩

def step : Reader → Char → Except ReadError Reader
  | .start, c =>
    if isBlank c then .ok .start
    else if c = '[' then .ok .listOpened
    else if c = '{' then .ok .objectOpened
    else (Unwanted.start .request c).map .refused
  | .refused u, c => (u.step .request c).map .refused
  | .listOpened, c =>
    if isBlank c then .ok .listOpened
    else if c = ']' then .error .listTooShort
    else stepListKey .start c
  | .listKey k, c => stepListKey k c
  | .listKeyRead key, c =>
    if isBlank c then .ok (.listKeyRead key)
    else if c = ',' then .ok (.listComma key)
    else if c = ']' then .error .listTooShort
    else .error .expectedItemEnd
  | .listComma key, c =>
    if isBlank c then .ok (.listComma key)
    else if c = ']' then .error .trailingComma
    else stepListFields key .start c
  | .listFields key l, c => stepListFields key l c
  | .listFieldsRead r, c =>
    if isBlank c then .ok (.listFieldsRead r)
    else if c = ']' then .ok (.complete r)
    else if c = ',' then .ok .listSurplus
    else .error .trailingCharacters
  | .listSurplus, c =>
    if isBlank c then .ok .listSurplus
    else if c = ']' then .error .trailingComma
    else .error .trailingCharacters
  | .objectOpened, c =>
    if isBlank c then .ok .objectOpened
    else if c = '"' then .ok (.nameText {} .opened)
    else if c = '}' then close {}
    else .error .nameNotText
  | .nameStart m, c =>
    if isBlank c then .ok (.nameStart m)
    else if c = '"' then .ok (.nameText m .opened)
    else if c = '}' then .error .trailingComma
    else .error .nameNotText
  | .nameText m q, c => do
    match ← q.step true c with
    | .more q => return .nameText m q
    | .done name => startColon m name
  | .colon m name, c =>
    if isBlank c then .ok (.colon m name)
    else if c = ':' then .ok (startMember m name)
    else .error .expectedColon
  | .keyValue m k, c =>
    (k.step c).map fun
      | .more k => .keyValue m k
      | .done key => .memberRead { m with sessionKey := some key }
  | .fieldsValue m l, c =>
    (l.step c).map fun
      | .more l => .fieldsValue m l
      | .done fields => .memberRead { m with fields := some fields }
  | .skipValue m s, c => do
    match ← s.step c with
    | .more s => return .skipValue m s
    | .done => return .memberRead m
    | .before => afterMember m c
  | .memberRead m, c => afterMember m c
  | .complete r, c => if isBlank c then .ok (.complete r) else .error .trailingCharacters

def finish : Reader → Except ReadError Request
  | .start => .error .endInValue
  | .refused u => .error (u.finish .request)
  | .listOpened | .listKeyRead _ | .listFieldsRead _ => .error .endInList
  | .listKey k => .error k.finish
  | .listComma _ => .error .endInValue
  | .listFields _ l => .error l.finish
  | .listSurplus => .error .trailingCharacters
  | .objectOpened | .colon _ _ | .memberRead _ => .error .endInObject
  | .nameStart _ => .error .endInValue
  | .nameText _ _ => .error .endInText
  | .keyValue _ k => .error k.finish
  | .fieldsValue _ l => .error l.finish
  | .skipValue _ s => .error (s.finish.getD .endInObject)
  | .complete r => .ok r

end Reader

def ofJsonText (text : String) : Except ReadError Request := do
  (← text.toList.foldlM Reader.step .start).finish

end FieldPipeline.Request
