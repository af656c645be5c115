import FieldPipeline.Path.Basic
import FieldPipeline.Record

/-!
# Document values

Documents nest: a field holds any value, and a value may be a document again. Only documents have
fields; every other kind of value, lists and code with a scope included, is a leaf for look-ups.
Navigation follows a path one field at a time and stops at the first absence.

A focus says where in a document the working value lives: it is the whole document, or it lies
under one field. It can be used from two sides. `view` goes to the working value and reads
`undefined` where there is none; `locate` turns a path inside the working value into a path of the
whole document. Several foci nest, the first being the outermost.
-/

namespace FieldPipeline

/-- A value as it is stored in a document. A floating-point number is given by its bits, so that
every payload is kept, and `undefined` stands for a value that is not there. The deprecated pointer
into another collection is left out: it can be decoded but not built, and it would be one more leaf.
-/
inductive Value where
  | null
  | boolean (b : Bool)
  | text (s : String)
  | document (fields : List (String × Value))
  | list (items : List Value)
  | int32 (n : Int32)
  | int64 (n : Int64)
  | float64 (bits : UInt64)
  | undefined
  | minKey
  | maxKey
  | symbol (s : String)
  | code (source : String)
  | scopedCode (source : String) (scope : List (String × Value))
  | date (milliseconds : Int64)
  | timestamp (time increment : UInt32)
  | objectId (bytes : List UInt8)
  | decimal128 (bytes : List UInt8)
  | binary (subtype : UInt8) (bytes : List UInt8)
  | regex (pattern options : String)
deriving Inhabited

abbrev Document := Record String Value

namespace Value

def ofEntries (entries : List (String × Value)) : Value :=
  .document (Record.ofEntries entries)

/-- The field of a document; no other value has fields. -/
def field? : Value → String → Option Value
  | .document fields, name => Record.get? fields name
  | _, _ => none

def follow (v : Value) : List String → Option Value
  | [] => some v
  | name :: rest => (v.field? name).bind fun inner => inner.follow rest

def find? (v : Value) (p : FieldPath) : Option Value :=
  v.follow p.segments

@[simp] theorem field?_document (fields : Document) (name : String) :
    (Value.document fields).field? name = Record.get? fields name := rfl

@[simp] theorem field?_undefined (name : String) : undefined.field? name = none := rfl

@[simp] theorem follow_nil (v : Value) : v.follow [] = some v := rfl

@[simp] theorem follow_cons (v : Value) (name : String) (rest : List String) :
    v.follow (name :: rest) = (v.field? name).bind fun inner => inner.follow rest := rfl

/-- Following two stretches is following the second from what the first finds. -/
theorem follow_append (v : Value) (first second : List String) :
    v.follow (first ++ second) = (v.follow first).bind fun inner => inner.follow second := by
  induction first generalizing v with
  | nil => rfl
  | cons name rest ih => cases h : v.field? name <;> simp [h, ih]

end Value

/-- Where the working value lives. -/
inductive Focus where
  | whole
  | field (key : String)
deriving DecidableEq

namespace Focus

def view : Focus → Value → Value
  | .whole, v => v
  | .field key, v => (v.field? key).getD .undefined

def locate : Focus → FieldPath → FieldPath
  | .whole, p => p
  | .field key, p => p.under key

def viewAll (foci : List Focus) (v : Value) : Value :=
  foci.foldl (fun inner focus => focus.view inner) v

/-- The place of a path under several foci, the last one applied first. -/
def locateAll (foci : List Focus) (p : FieldPath) : FieldPath :=
  foci.foldr locate p

/-- The working values on the way: after the first focus, after the first two, and so on. -/
def views : List Focus → Value → List Value
  | [], _ => []
  | focus :: rest, v => focus.view v :: views rest (focus.view v)

/-- The places on the way back: under the last focus, under the last two, and so on. -/
def places (foci : List Focus) (p : FieldPath) : List FieldPath :=
  match foci with
  | [] => []
  | focus :: rest => places rest p ++ [focus.locate (locateAll rest p)]

@[simp] theorem view_whole (v : Value) : whole.view v = v := rfl

@[simp] theorem view_field (key : String) (v : Value) :
    (field key).view v = (v.field? key).getD .undefined := rfl

@[simp] theorem locate_whole (p : FieldPath) : whole.locate p = p := rfl

@[simp] theorem locate_field (key : String) (p : FieldPath) :
    (field key).locate p = p.under key := rfl

@[simp] theorem viewAll_nil (v : Value) : viewAll [] v = v := rfl

@[simp] theorem viewAll_cons (focus : Focus) (rest : List Focus) (v : Value) :
    viewAll (focus :: rest) v = viewAll rest (focus.view v) := rfl

@[simp] theorem locateAll_nil (p : FieldPath) : locateAll [] p = p := rfl

@[simp] theorem locateAll_cons (focus : Focus) (rest : List Focus) (p : FieldPath) :
    locateAll (focus :: rest) p = focus.locate (locateAll rest p) := rfl

end Focus

end FieldPipeline
