import FieldPipeline.Proofs.Json.TextList
import FieldPipeline.Request.Json

/-!
# Running the request reader

A state of the reader is taken for what it makes of every rest of a text. A state that only hosts
another machine is read off that machine.
-/

namespace FieldPipeline.Request

open Json

namespace Reader

def read : Reader → List Char → Except ReadError Request
  | r, [] => r.finish
  | r, c :: rest => do (← r.step c).read rest

theorem foldlM_step_finish (r : Reader) (cs : List Char) :
    (do (← cs.foldlM step r).finish) = r.read cs := by
  induction cs generalizing r with
  | nil => rfl
  | cons c cs ih =>
    rw [List.foldlM_cons, read]
    cases r.step c with
    | error e => rfl
    | ok r' => exact ih r'

variable {r : Reader} {c : Char}

theorem read_of_step (r' : Reader) (h : r.step c = .ok r') (rest : List Char) :
    r.read (c :: rest) = r'.read rest := by
  rw [read, h]
  rfl

theorem read_of_step_error {e : ReadError} (h : r.step c = .error e) (rest : List Char) :
    r.read (c :: rest) = .error e := by
  rw [read, h]
  rfl

theorem read_congr {r' : Reader} (h : r.step c = r'.step c) (rest : List Char) :
    r.read (c :: rest) = r'.read (c :: rest) := by
  rw [read, read, h]

inductive Waits : Reader → Prop where
  | start : Waits .start
  | listOpened : Waits .listOpened
  | listKey : Waits (.listKey .start)
  | listKeyRead (key : Option String) : Waits (.listKeyRead key)
  | listComma (key : Option String) : Waits (.listComma key)
  | listFields (key : Option String) : Waits (.listFields key .start)
  | listFieldsRead (r : Request) : Waits (.listFieldsRead r)
  | listSurplus : Waits .listSurplus
  | objectOpened : Waits .objectOpened
  | nameStart (m : Members) : Waits (.nameStart m)
  | colon (m : Members) (name : String) : Waits (.colon m name)
  | skipBefore (m : Members) {phase : SkipPhase} (hphase : phase ∈ [.value, .opened, .name, .colon])
      (brackets : List Bracket) : Waits (.skipValue m ⟨phase, brackets⟩)
  | skipAfter (m : Members) (bracket : Bracket) (outer : List Bracket) :
      Waits (.skipValue m ⟨.after, bracket :: outer⟩)
  | memberRead (m : Members) : Waits (.memberRead m)
  | complete (r : Request) : Waits (.complete r)

theorem Waits.step_blank (h : r.Waits) (hc : isBlank c = true) : r.step c = .ok r := by
  cases h with
  | listKey =>
    simp only [step, stepListKey, KeyReader.step, hc, if_true]
    rfl
  | listFields key =>
    simp only [step, stepListFields, TextList.step, hc, if_true]
    rfl
  | skipBefore m hphase brackets =>
    simp only [List.mem_cons, List.not_mem_nil, or_false] at hphase
    rcases hphase with rfl | rfl | rfl | rfl <;>
      · simp only [step, Skip.step, hc, if_true]
        rfl
  | skipAfter m bracket outer =>
    simp only [step, Skip.step, Skip.afterValue, hc, if_true]
    rfl
  | _ => simp [step, afterMember, hc]

theorem read_blanks (h : r.Waits) {blanks : List Char} (hblanks : Blanks blanks)
    (rest : List Char) : r.read (blanks ++ rest) = r.read rest := by
  induction blanks with
  | nil => rfl
  | cons c blanks ih =>
    have hc : isBlank c = true := hblanks c List.mem_cons_self
    rw [List.cons_append, read_of_step r (h.step_blank hc)]
    exact ih fun d hd => hblanks d (List.mem_cons_of_mem c hd)

/-- States that differ at delimiters only read the same text in the same way. -/
theorem read_begun_congr {r' : Reader} (h : r.Waits) (h' : r'.Waits)
    (hstep : ∀ c, isDelimiter c = false → r.step c = r'.step c) {cs : List Char}
    (hcs : Begun cs) : r.read cs = r'.read cs := by
  obtain ⟨blanks, c, rest, rfl, hblanks, hc⟩ := hcs
  rw [read_blanks h hblanks, read_blanks h' hblanks]
  exact read_congr (hstep c hc) rest

/-- The reader's step for one step of the machine inside. -/
def host {τ β : Type} (f : τ → Reader) (g : β → Except ReadError Reader) :
    Progress τ β → Except ReadError Reader
  | .more t => .ok (f t)
  | .done b => g b

/-- A machine inside the reader runs to its own end first. -/
theorem read_host {τ β : Type} (inner : τ → Char → Except ReadError (Progress τ β))
    (innerFinish : τ → ReadError) (f : τ → Reader) (g : β → Except ReadError Reader)
    (hstep : ∀ t c, (f t).step c = (inner t c).bind (host f g))
    (hfinish : ∀ t, (f t).finish = .error (innerFinish t)) (t : τ) (cs : List Char) :
    (f t).read cs =
      through inner innerFinish (fun b rest => do (← g b).read rest) t cs := by
  induction cs generalizing t with
  | nil => rw [read, through, hfinish]
  | cons c cs ih =>
    rw [read, through, hstep]
    cases inner t c with
    | error e => rfl
    | ok progress =>
      cases progress with
      | more t' => exact ih t'
      | done b => rfl

theorem read_refused (u : Unwanted) (cs : List Char) :
    (refused u).read cs = .error (u.fate .request cs) := by
  induction cs generalizing u with
  | nil => rfl
  | cons c cs ih =>
    rw [read, step, Unwanted.fate]
    cases u.step .request c with
    | error e => rfl
    | ok u' => exact ih u'

theorem read_listKey (k : KeyReader) (cs : List Char) :
    (listKey k).read cs =
      through KeyReader.step KeyReader.finish (fun key => (listKeyRead key).read) k cs := by
  refine read_host KeyReader.step KeyReader.finish listKey (fun key => .ok (listKeyRead key))
    (fun k c => ?_) (fun _ => rfl) k cs
  rw [step, stepListKey]
  cases k.step c with
  | error e => rfl
  | ok progress => cases progress <;> rfl

theorem read_listFields (key : Option String) (l : TextList) (cs : List Char) :
    (listFields key l).read cs =
      through TextList.step TextList.finish
        (fun fields => (listFieldsRead ⟨key, fields⟩).read) l cs := by
  refine read_host TextList.step TextList.finish (listFields key)
    (fun fields => .ok (listFieldsRead ⟨key, fields⟩)) (fun l c => ?_) (fun _ => rfl) l cs
  rw [step, stepListFields]
  cases l.step c with
  | error e => rfl
  | ok progress => cases progress <;> rfl

theorem read_keyValue (m : Members) (k : KeyReader) (cs : List Char) :
    (keyValue m k).read cs =
      through KeyReader.step KeyReader.finish
        (fun key => (memberRead { m with sessionKey := some key }).read) k cs := by
  refine read_host KeyReader.step KeyReader.finish (keyValue m)
    (fun key => .ok (memberRead { m with sessionKey := some key })) (fun k c => ?_)
    (fun _ => rfl) k cs
  rw [step]
  cases k.step c with
  | error e => rfl
  | ok progress => cases progress <;> rfl

theorem read_fieldsValue (m : Members) (l : TextList) (cs : List Char) :
    (fieldsValue m l).read cs =
      through TextList.step TextList.finish
        (fun fields => (memberRead { m with fields := some fields }).read) l cs := by
  refine read_host TextList.step TextList.finish (fieldsValue m)
    (fun fields => .ok (memberRead { m with fields := some fields })) (fun l c => ?_)
    (fun _ => rfl) l cs
  rw [step]
  cases l.step c with
  | error e => rfl
  | ok progress => cases progress <;> rfl

theorem read_nameText_eq (m : Members) (q : Quoted) (cs : List Char) :
    (nameText m q).read cs =
      through (Quoted.step true) (fun _ => .endInText)
        (fun name rest => do (← startColon m name).read rest) q cs := by
  refine read_host (Quoted.step true) (fun _ => .endInText) (nameText m) (startColon m)
    (fun q c => ?_) (fun _ => rfl) q cs
  rw [step]
  cases q.step true c with
  | error e => rfl
  | ok progress => cases progress <;> rfl

/-- A name is read in one piece, up to its closing quote. -/
theorem read_nameText (m : Members) (name : String) (rest : List Char) :
    (nameText m .opened).read (name.toList.flatMap escape ++ '"' :: rest) =
      (do (← startColon m name).read rest) := by
  rw [read_nameText_eq, through_quoted]

end Reader

theorem ofJsonText_eq_read (text : String) : ofJsonText text = Reader.start.read text.toList :=
  Reader.foldlM_step_finish .start text.toList

end FieldPipeline.Request
