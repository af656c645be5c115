import FieldPipeline.Json.Unwanted
import FieldPipeline.Proofs.Json.Number
import FieldPipeline.Proofs.Json.Reading

/-!
# Refusing written values

A written value that nobody wants is always refused as what it is: as a value of a wrong type, never
as bad JSON. This is where the size of integers matters, since a longer one is named as a
floating-point number or is out of range.
-/

namespace FieldPipeline.Json

def kind : Json → Found
  | .null => .null
  | .boolean b => .boolean b
  | .integer n => .integer n
  | .string s => .text s
  | .array _ => .sequence
  | .object _ => .map

namespace Unwanted

/-- The error that the rest of a text brings. -/
def fate (wanted : Wanted) : Unwanted → List Char → ReadError
  | u, [] => u.finish wanted
  | u, c :: rest =>
    match u.step wanted c with
    | .ok u => u.fate wanted rest
    | .error e => e

/-- The error of a text with an unwanted value at its front. -/
def refusal (wanted : Wanted) : List Char → ReadError
  | [] => .endInValue
  | c :: rest =>
    match start wanted c with
    | .ok u => u.fate wanted rest
    | .error e => e

variable {wanted : Wanted}

theorem fate_text (q : Quoted) (cs : List Char) :
    fate wanted (.text q) cs =
      match through (Quoted.step true) (fun _ => .endInText) (fun s _ => .ok s) q cs with
      | .ok s => .wrongType (.text s) wanted
      | .error e => e := by
  induction cs generalizing q with
  | nil => rfl
  | cons c cs ih =>
    rw [fate, through, step]
    cases hq : q.step true c with
    | error e => rfl
    | ok progress =>
      cases progress with
      | more q' => exact ih q'
      | done s => rfl

theorem fate_number_of_grows {n n' : Number} {cs : List Char} (h : n.Grows cs n')
    (rest : List Char) :
    fate wanted (.number n) (cs ++ rest) = fate wanted (.number n') rest := by
  induction h with
  | nil => rfl
  | cons hstep _ ih =>
    rw [List.cons_append, fate, step, hstep]
    exact ih

theorem fate_integral {n : Int} {digits : List Nat} (hlow : -2 ^ 63 ≤ n) (hhigh : n < 2 ^ 64)
    (hvalue : Number.ofDigits digits = n.natAbs) {rest : List Char} (hrest : Delimited rest) :
    fate wanted (.number (.integral (decide (n < 0)) digits)) rest =
      .wrongType (.integer n) wanted := by
  have herror : numberError wanted (.integral (decide (n < 0)) digits) =
      .wrongType (.integer n) wanted := by
    rw [numberError, Number.found_integral hlow hhigh hvalue]
  cases rest with
  | nil => rw [fate, finish, Number.complete_integral, if_pos rfl, herror]
  | cons c rest =>
    have hc : isDelimiter c = true := hrest c rfl
    rw [fate, step, Number.step_integral_delimiter hc, herror]

theorem start_number {c : Char} {n : Number} (h : Number.start? c = some n) :
    start wanted c = .ok (.number n) := by
  have hn : c ≠ 'n' := Number.ne_of_start? h rfl
  have ht : c ≠ 't' := Number.ne_of_start? h rfl
  have hf : c ≠ 'f' := Number.ne_of_start? h rfl
  have hquote : c ≠ '"' := Number.ne_of_start? h rfl
  have hbracket : c ≠ '[' := Number.ne_of_start? h rfl
  have hbrace : c ≠ '{' := Number.ne_of_start? h rfl
  simp [start, hn, ht, hf, hquote, hbracket, hbrace, h]

/-- A written value is refused by its kind. -/
theorem refusal_bare {v : Json} {cs : List Char} (hv : Bare v cs) (hsized : v.Sized)
    {rest : List Char} (hrest : Delimited rest) :
    refusal wanted (cs ++ rest) = .wrongType v.kind wanted := by
  cases hv with
  | null => rfl
  | yes => rfl
  | no => rfl
  | integer n =>
    cases hsized with
    | integer hlow hhigh =>
      obtain ⟨c, cs, first, digits, htext, hfirst, hgrows, hvalue⟩ := Number.grows_integerText n
      rw [htext, List.cons_append, refusal, start_number hfirst]
      exact (fate_number_of_grows hgrows rest).trans (fate_integral hlow hhigh hvalue hrest)
  | string s =>
    rw [quoted_append, refusal]
    change fate wanted (.text .opened) _ = _
    rw [fate_text, through_quoted]
    rfl
  | emptyArray _ => rfl
  | array _ => rfl
  | emptyObject _ => rfl
  | object _ => rfl

end Unwanted

section Through

variable {σ α ρ : Type} {step : σ → Char → Except ReadError (Progress σ α)}
  {finish : σ → ReadError} {next : α → List Char → Except ReadError ρ} {wanted : Wanted}

/-- A machine that is in an unwanted value never comes out of it. -/
theorem through_refused (f : Unwanted → σ)
    (hstep : ∀ u c, step (f u) c = (u.step wanted c).map fun u => .more (f u))
    (hfinish : ∀ u, finish (f u) = u.finish wanted) (u : Unwanted) (cs : List Char) :
    through step finish next (f u) cs = .error (u.fate wanted cs) := by
  induction cs generalizing u with
  | nil => rw [through, hfinish, Unwanted.fate]
  | cons c cs ih =>
    rw [through, hstep, Unwanted.fate]
    cases hu : u.step wanted c with
    | error e => rfl
    | ok u' => exact ih u'

/-- A machine that takes the first character of a written value for an unwanted one refuses the
value by its kind. -/
theorem through_unwanted (f : Unwanted → σ)
    (hstep : ∀ u c, step (f u) c = (u.step wanted c).map fun u => .more (f u))
    (hfinish : ∀ u, finish (f u) = u.finish wanted) {s : σ} {c : Char}
    (hstart : step s c = (Unwanted.start wanted c).map fun u => .more (f u)) {v : Json}
    {tail : List Char} (hv : Bare v (c :: tail)) (hsized : v.Sized) {rest : List Char}
    (hrest : Delimited rest) :
    through step finish next s (c :: tail ++ rest) = .error (.wrongType v.kind wanted) := by
  rw [← Unwanted.refusal_bare hv hsized hrest, List.cons_append, Unwanted.refusal, through, hstart]
  cases Unwanted.start wanted c with
  | error e => rfl
  | ok u => exact through_refused f hstep hfinish u (tail ++ rest)

end Through

end FieldPipeline.Json
