import FieldPipeline.Proofs.Yaml.Line
import FieldPipeline.Yaml.Token

/-!
# Tokens of one line in flow brackets

Inside flow brackets no key is required, so no token is refused for a key that has not come. What
reading a piece of the line does to a scan depends only on how deep it is inside brackets and on
whether a key may begin. Pieces are read one after the other, whatever follows them.
-/

namespace FieldPipeline.Yaml

open Text

def KeyStart.lives (p : Placed) (k : KeyStart) : Bool :=
  p.line ≤ k.place.line ∧ p.offset ≤ k.place.offset + 1024

def Optional (key : Option KeyStart) : Prop :=
  ∀ k ∈ key, k.required = false

theorem optional_none : Optional none := by
  intro k h
  cases h

theorem Optional.filter {key : Option KeyStart} (h : Optional key) (test : KeyStart → Bool) :
    Optional (key.filter test) := by
  intro k hk
  exact h k (Option.filter_eq_some_iff.1 hk).1

theorem expireKey_of_optional {key : Option KeyStart} (h : Optional key) (p : Placed) :
    Scanner.expireKey p key = some (key.filter (·.lives p)) := by
  cases key with
  | none => rfl
  | some k =>
    have hk : k.required = false := h k rfl
    have hover : k.place.line < p.line ∨ k.place.offset + 1024 < p.offset ↔ ¬ k.lives p := by
      simp only [KeyStart.lives, decide_eq_true_eq]
      omega
    cases hlives : k.lives p <;> simp [Scanner.expireKey, Option.filter_some, hover, hlives, hk]

theorem mapM_expireKey {keys : List (Option KeyStart)} (h : ∀ key ∈ keys, Optional key)
    (p : Placed) :
    keys.mapM (Scanner.expireKey p) = some (keys.map (Option.filter (·.lives p))) := by
  induction keys with
  | nil => rfl
  | cons key keys ih =>
    obtain ⟨hkey, hkeys⟩ := List.forall_mem_cons.1 h
    rw [List.mapM_cons, expireKey_of_optional hkey, ih hkeys]
    rfl

def Opens (c : Char) : Prop :=
  Ascii c ∧ c ≠ ' ' ∧ c ≠ '#'

instance (c : Char) : Decidable (Opens c) :=
  inferInstanceAs (Decidable (_ ∧ _))

theorem skipGap_of_opens {c : Char} (h : Opens c) (inFlow keyAllowed : Bool) (cs : List Char)
    (column : Nat) :
    skipGap inFlow keyAllowed false (onLine (c :: cs) column) =
      (keyAllowed, onLine (c :: cs) column) := by
  obtain ⟨hascii, hspace, hcomment⟩ := h
  have htab := hascii.ne (d := '\t') (by decide)
  have hmark := hascii.ne (d := '\ufeff') (by decide)
  rw [onLine_cons hascii, skipGap]
  simp [isBreak_of_ascii hascii, isEnd_of_ascii hascii, hspace, hcomment, htab, hmark]

namespace Scanner

/-- A scan before the rest of a line: how far inside brackets, whether a key may begin, and the
tokens so far. -/
structure Before (s : Scanner) (cs : List Char) (column depth : Nat) (keyAllowed : Bool)
    (tokens : List Token) : Prop where
  rest : s.rest = onLine cs column
  columns : s.columns = []
  keyStart : Optional s.keyStart
  outer : ∀ key ∈ s.outer, Optional key
  depth : s.outer.length = depth
  keyAllowed : s.keyAllowed = keyAllowed
  tokens : s.tokens = tokens

/-- The scan that forgets the keys that are over before a place. -/
def expire (s : Scanner) (p : Placed) : Scanner :=
  { s with
    keyStart := s.keyStart.filter (·.lives p)
    outer := s.outer.map (Option.filter (·.lives p)) }

variable {s s' t : Scanner} {cs : List Char} {column depth : Nat} {keyAllowed : Bool}
  {before : List Token}

theorem Before.expire (h : s.Before cs column depth keyAllowed before) (p : Placed) :
    (s.expire p).Before cs column depth keyAllowed before where
  rest := h.rest
  columns := h.columns
  keyStart := h.keyStart.filter _
  outer := by
    intro key hkey
    obtain ⟨key, hmem, rfl⟩ := List.mem_map.1 hkey
    exact (h.outer key hmem).filter _
  depth := by
    rw [Scanner.expire, List.length_map, h.depth]
  keyAllowed := h.keyAllowed
  tokens := h.tokens

theorem Before.rest_eq_cons {c : Char} (h : s.Before (c :: cs) column depth keyAllowed before)
    (hc : Ascii c) : s.rest = ⟨c, column, 0, column⟩ :: onLine cs (column + 1) := by
  rw [h.rest, onLine_cons hc]

theorem Before.dropKey (h : s.Before cs column depth keyAllowed before) :
    s.dropKey = some { s with keyStart := none } := by
  rw [Scanner.dropKey]
  split
  · have hrequired := h.keyStart _ ‹_›
    cases hrequired
  · rfl

theorem closeBlocks_of_columns (h : s.columns = []) (column : Option Nat) :
    s.closeBlocks column = s := by
  rw [closeBlocks, h]
  cases s
  cases h
  simp

theorem Before.approach {p : Placed} {ps : List Placed}
    (h : s.Before cs column depth keyAllowed before) (hcs : onLine cs column = p :: ps)
    (hskip : skipGap s.inFlow s.keyAllowed false (onLine cs column) =
      (s.keyAllowed, onLine cs column)) :
    s.approach = some (s.expire p) := by
  have hrest := h.rest
  rw [Scanner.approach, hrest, hskip, hcs]
  simp only [expireKey_of_optional h.keyStart, mapM_expireKey h.outer, Option.bind_eq_bind,
    Option.bind_some, Option.pure_def]
  rw [closeBlocks_of_columns]
  · rw [Scanner.expire, ← hcs, ← hrest]
  · exact h.columns

theorem run_succ {p : Placed} (happroach : s.approach = some (s.expire p))
    (hend : isEnd (headChar s.rest) = false) (htake : (s.expire p).take = some s') (fuel : Nat) :
    run (fuel + 1) s = run fuel s' := by
  have hrest : isEnd (headChar (s.expire p).rest) = false := hend
  rw [run, happroach]
  simp [hrest, htake]

/-- Some steps lead from one scan to another, at most this many. -/
def Reaches (s : Scanner) (n : Nat) (s' : Scanner) : Prop :=
  ∃ k ≤ n, ∀ fuel, run (fuel + k) s = run fuel s'

theorem Reaches.trans {n m : Nat} (h : s.Reaches n t) (h' : t.Reaches m s') :
    s.Reaches (n + m) s' := by
  obtain ⟨k, hk, hrun⟩ := h
  obtain ⟨k', hk', hrun'⟩ := h'
  refine ⟨k + k', by omega, fun fuel => ?_⟩
  have hsum : fuel + (k + k') = fuel + k' + k := by omega
  rw [hsum, hrun, hrun']

theorem Reaches.mono {n m : Nat} (h : s.Reaches n s') (hle : n ≤ m) : s.Reaches m s' := by
  obtain ⟨k, hk, hrun⟩ := h
  exact ⟨k, by omega, hrun⟩

/-- Taking the token at the next character is one step. -/
theorem Before.reaches {c : Char} (h : s.Before (c :: cs) column depth keyAllowed before)
    (hc : Opens c) (htake : (s.expire ⟨c, column, 0, column⟩).take = some s') : s.Reaches 1 s' := by
  have hcs := onLine_cons hc.1 cs column
  have happroach := h.approach hcs (skipGap_of_opens hc _ _ _ _)
  have hend : isEnd (headChar s.rest) = false := by
    rw [h.rest_eq_cons hc.1]
    exact isEnd_of_ascii hc.1
  exact ⟨1, Nat.le_refl 1, run_succ happroach hend htake⟩

/-- Only the depth tells whether a flow collection is open. -/
theorem Before.inFlow_of_outer (h : s.Before cs column (depth + 1) keyAllowed before)
    (ht : t.outer = s.outer) : t.inFlow = true := by
  have hdepth := h.depth
  rw [inFlow, ht]
  cases houter : s.outer with
  | nil => simp [houter] at hdepth
  | cons key keys => rfl

def noted (s : Scanner) (p : Placed) : Option KeyStart :=
  if s.keyAllowed then some ⟨false, s.tokens.length, p⟩ else s.keyStart

theorem Before.optional_noted (h : s.Before cs column depth keyAllowed before) (p : Placed) :
    Optional (s.noted p) := by
  rw [noted]
  split
  · intro k hk
    cases hk
    rfl
  · exact h.keyStart

/-- Without a block collection no column is the one where only a key can begin. -/
theorem Before.noteKey (h : s.Before cs column depth keyAllowed before) (p : Placed) :
    s.noteKey p = some { s with keyStart := s.noted p } := by
  have hdrop := h.dropKey
  have hcolumns := h.columns
  obtain ⟨rest, columns, keyStart, outer, allowed, tokens⟩ := s
  cases hcolumns
  cases allowed with
  | false => rfl
  | true => simp [Scanner.noteKey, hdrop, noted, margin]

/-- Text in quotes is taken with the note that it may be a key. -/
theorem Before.take_quoted {text : String}
    (h : s.Before ('"' :: (text.toList ++ '"' :: cs)) column depth keyAllowed before)
    (htext : Unescaped text) :
    ∃ t, s.take = some t ∧
      t.Before cs (column + (text.toList.length + 2)) depth false (.scalar text false :: before) ∧
      t.keyStart = s.noted ⟨'"', column, 0, column⟩ := by
  have hrest := h.rest_eq_cons (by decide)
  refine ⟨{ s with
      rest := onLine cs (column + (text.toList.length + 2))
      keyStart := s.noted ⟨'"', column, 0, column⟩
      keyAllowed := false
      tokens := .scalar text false :: before }, ?_, ?_, rfl⟩
  · rw [take, hrest]
    simp [startsMark_of_ne, takeText, scanDouble_unescaped htext, h.noteKey, emit, h.tokens]
  · exact { h with
      rest := rfl, keyStart := h.optional_noted _, keyAllowed := rfl, tokens := rfl }

theorem openBlock_of_inFlow (h : s.inFlow = true) (column : Nat) (token : Token) :
    s.openBlock column token = s := by
  simp [openBlock, h]

/-- The colon behind a possible key puts the token of the key where the key began. -/
theorem Before.take_colon {token : Token} {place : Placed}
    (h : s.Before (':' :: cs) column (depth + 1) keyAllowed (token :: before))
    (hkey : s.keyStart = some ⟨false, before.length, place⟩) :
    ∃ t, s.take = some t ∧
      t.Before cs (column + 1) (depth + 1) false (.value :: token :: .key :: before) := by
  have hrest := h.rest_eq_cons (by decide)
  refine ⟨{ s with
      rest := onLine cs (column + 1), keyStart := none, keyAllowed := false
      tokens := .value :: token :: .key :: before }, ?_, ?_⟩
  · rw [take, hrest]
    simp [startsMark_of_ne, h.inFlow_of_outer, takeValue, hkey, h.tokens, openBlock_of_inFlow, emit]
  · exact { h with rest := rfl, keyStart := optional_none, keyAllowed := rfl, tokens := rfl }

/-- A plain `null` ends before the comma. -/
theorem scanPlain_null (margin column : Nat) (cs : List Char) :
    scanPlain true margin [] .none (onLine ('n' :: 'u' :: 'l' :: 'l' :: ',' :: cs) column) =
      some ("null", false, onLine (',' :: cs) (column + 4)) := by
  repeat rw [onLine_cons (by decide)]
  simp [scanPlain, isBlank, isBreak, isEnd, atDocumentMark, startsMark_of_ne, isFlowChar,
    Gap.chars, Gap.isBroken]

theorem Before.take_null
    (h : s.Before ('n' :: 'u' :: 'l' :: 'l' :: ',' :: cs) column (depth + 1) keyAllowed before) :
    ∃ t, s.take = some t ∧
      t.Before (',' :: cs) (column + 4) (depth + 1) false (.scalar "null" true :: before) := by
  have hplain : ∀ margin, scanPlain true margin [] .none s.rest =
      some ("null", false, onLine (',' :: cs) (column + 4)) := by
    intro margin
    rw [h.rest, scanPlain_null]
  have hstarts : ∀ next, startsPlain true 'n' next = true := fun _ => rfl
  have htake : s.take = s.takePlain ⟨'n', column, 0, column⟩ := by
    rw [take, h.rest_eq_cons (by decide)]
    simp [startsMark_of_ne, h.inFlow_of_outer, hstarts]
  refine ⟨{ s with
      rest := onLine (',' :: cs) (column + 4)
      keyStart := s.noted ⟨'n', column, 0, column⟩
      keyAllowed := false
      tokens := .scalar "null" true :: before }, ?_, ?_⟩
  · rw [htake, takePlain, h.noteKey]
    simp [h.inFlow_of_outer, hplain, emit, h.tokens]
  · exact { h with
      rest := rfl, keyStart := h.optional_noted _, keyAllowed := rfl, tokens := rfl }

/-- A key that began on this line, not more than 1024 bytes before, is still one. -/
theorem expire_keyStart {k : KeyStart} (hkey : s.keyStart = some k) {p : Placed}
    (hline : p.line ≤ k.place.line) (hoffset : p.offset ≤ k.place.offset + 1024) :
    (s.expire p).keyStart = some k := by
  simp [expire, hkey, KeyStart.lives, hline, hoffset]

end Scanner

/-- Reading a piece of a line, whatever follows it: the tokens that it adds, and the depth inside
brackets and whether a key may begin, before it and behind it. -/
structure Scans (piece : List Char) (tokens : List Token) (depth : Nat) (keyAllowed : Bool)
    (depth' : Nat) (keyAllowed' : Bool) : Prop where
  ascii : ∀ c ∈ piece, Ascii c
  exists_reaches : ∀ {s : Scanner} {cs : List Char} {column : Nat} {before : List Token},
    s.Before (piece ++ cs) column depth keyAllowed before →
      ∃ s', s.Reaches piece.length s' ∧
        s'.Before cs (column + piece.length) depth' keyAllowed' (tokens.reverse ++ before)

namespace Scans

variable {piece piece' : List Char} {tokens tokens' : List Token} {depth depth' depth'' : Nat}
  {keyAllowed keyAllowed' keyAllowed'' : Bool}

theorem nil (depth : Nat) (keyAllowed : Bool) :
    Scans [] [] depth keyAllowed depth keyAllowed where
  ascii := List.forall_mem_nil _
  exists_reaches := fun {s} _ _ _ h => ⟨s, ⟨0, Nat.le_refl 0, fun _ => rfl⟩, h⟩

theorem append (h : Scans piece tokens depth keyAllowed depth' keyAllowed')
    (h' : Scans piece' tokens' depth' keyAllowed' depth'' keyAllowed'') :
    Scans (piece ++ piece') (tokens ++ tokens') depth keyAllowed depth'' keyAllowed'' where
  ascii := List.forall_mem_append.2 ⟨h.ascii, h'.ascii⟩
  exists_reaches := by
    intro s cs column before hs
    rw [List.append_assoc] at hs
    obtain ⟨t, hreaches, ht⟩ := h.exists_reaches hs
    obtain ⟨s', hreaches', hs'⟩ := h'.exists_reaches ht
    rw [List.length_append, List.reverse_append, List.append_assoc, ← Nat.add_assoc]
    exact ⟨s', hreaches.trans hreaches', hs'⟩

/-- A token of one character. -/
theorem char {c : Char} {token : Token} (hc : Opens c)
    (htake : ∀ {s : Scanner} {cs : List Char} {column : Nat} {before : List Token},
      s.Before (c :: cs) column depth keyAllowed before →
        ∃ s', s.take = some s' ∧
          s'.Before cs (column + 1) depth' keyAllowed' (token :: before)) :
    Scans [c] [token] depth keyAllowed depth' keyAllowed' where
  ascii := List.forall_mem_singleton.2 hc.1
  exists_reaches := by
    intro s cs column before hs
    obtain ⟨s', hs', hbefore⟩ := htake (hs.expire ⟨c, column, 0, column⟩)
    exact ⟨s', hs.reaches hc hs', hbefore⟩

theorem comma (depth : Nat) (keyAllowed : Bool) :
    Scans [','] [.comma] depth keyAllowed depth true := by
  refine char (by decide) fun {s cs column before} hs => ?_
  have hrest := hs.rest_eq_cons (by decide)
  refine ⟨{ s with
      rest := onLine cs (column + 1), keyStart := none, keyAllowed := true
      tokens := .comma :: before }, ?_, ?_⟩
  · rw [Scanner.take, hrest]
    simp [startsMark_of_ne, Scanner.takeComma, hs.dropKey, Scanner.emit, hs.tokens]
  · exact { hs with rest := rfl, keyStart := optional_none, keyAllowed := rfl, tokens := rfl }

/-- The bracket before a flow collection. A key may begin with the whole collection. -/
theorem openBracket {c : Char} {token : Token}
    (h : c = '[' ∧ token = .flowSequence ∨ c = '{' ∧ token = .flowMapping) (depth : Nat)
    (keyAllowed : Bool) : Scans [c] [token] depth keyAllowed (depth + 1) true := by
  have hc : Opens c := by rcases h with ⟨rfl, -⟩ | ⟨rfl, -⟩ <;> decide
  refine char hc fun {s cs column before} hs => ?_
  have hrest := hs.rest_eq_cons hc.1
  refine ⟨{ s with
      rest := onLine cs (column + 1), keyStart := none, keyAllowed := true
      outer := s.noted ⟨c, column, 0, column⟩ :: s.outer, tokens := token :: before }, ?_, ?_⟩
  · rw [Scanner.take, hrest]
    rcases h with ⟨rfl, rfl⟩ | ⟨rfl, rfl⟩ <;>
      simp [startsMark_of_ne, Scanner.openFlow, hs.noteKey, Scanner.emit, hs.tokens]
  · exact { hs with
      rest := rfl, keyStart := optional_none, keyAllowed := rfl, tokens := rfl
      outer := List.forall_mem_cons.2 ⟨hs.optional_noted _, hs.outer⟩
      depth := by rw [List.length_cons, hs.depth] }

/-- The bracket behind a flow collection. -/
theorem closeBracket {c : Char} {token : Token}
    (h : c = ']' ∧ token = .flowSequenceEnd ∨ c = '}' ∧ token = .flowMappingEnd) (depth : Nat)
    (keyAllowed : Bool) : Scans [c] [token] (depth + 1) keyAllowed depth false := by
  have hc : Opens c := by rcases h with ⟨rfl, -⟩ | ⟨rfl, -⟩ <;> decide
  refine char hc fun {s cs column before} hs => ?_
  have hrest := hs.rest_eq_cons hc.1
  obtain ⟨key, keys, houter⟩ := List.exists_cons_of_length_eq_add_one hs.depth
  have hkeys := hs.outer
  have hdepth := hs.depth
  rw [houter] at hkeys hdepth
  refine ⟨{ s with
      rest := onLine cs (column + 1), keyStart := key, keyAllowed := false, outer := keys
      tokens := token :: before }, ?_, ?_⟩
  · rw [Scanner.take, hrest]
    rcases h with ⟨rfl, rfl⟩ | ⟨rfl, rfl⟩ <;>
      simp [startsMark_of_ne, Scanner.closeFlow, hs.dropKey, houter, Scanner.emit, hs.tokens]
  · exact { hs with
      rest := rfl, keyStart := hkeys key List.mem_cons_self, keyAllowed := rfl, tokens := rfl
      outer := fun key hkey => hkeys key (List.mem_cons_of_mem _ hkey)
      depth := Nat.succ.inj hdepth }

theorem ascii_quoted {text : String} (h : Unescaped text) :
    ∀ c ∈ '"' :: (text.toList ++ ['"']), Ascii c := by
  have hquote : Ascii '"' := by decide
  have htext : ∀ c ∈ text.toList, Ascii c := fun c hc => (h c hc).1
  simp only [List.forall_mem_cons, List.forall_mem_append]
  exact ⟨hquote, htext, hquote, List.forall_mem_nil _⟩

/-- Text in quotes. -/
theorem quoted {text : String} (h : Unescaped text) (depth : Nat) (keyAllowed : Bool) :
    Scans ('"' :: (text.toList ++ ['"'])) [.scalar text false] depth keyAllowed depth false where
  ascii := ascii_quoted h
  exists_reaches := by
    intro s cs column before hs
    have hcs : '"' :: (text.toList ++ ['"']) ++ cs = '"' :: (text.toList ++ '"' :: cs) := by simp
    have hlength : ('"' :: (text.toList ++ ['"'])).length = text.toList.length + 2 := by simp
    rw [hcs] at hs
    rw [hlength]
    obtain ⟨t, htake, ht, -⟩ := (hs.expire ⟨'"', column, 0, column⟩).take_quoted h
    exact ⟨t, (hs.reaches (by decide) htake).mono (by omega), ht⟩

/-- Text in quotes as the key of an entry. It must not be too long for a key. -/
theorem name {text : String} (h : Unescaped text) (hshort : text.toList.length + 2 ≤ 1024)
    (depth : Nat) :
    Scans ('"' :: (text.toList ++ ['"', ':'])) [.key, .scalar text false, .value] (depth + 1) true
      (depth + 1) false where
  ascii := by
    have hcolon : ∀ c ∈ [':'], Ascii c := List.forall_mem_singleton.2 (by decide)
    have happend := List.forall_mem_append.2 ⟨ascii_quoted h, hcolon⟩
    simpa using happend
  exists_reaches := by
    intro s cs column before hs
    have hcs : '"' :: (text.toList ++ ['"', ':']) ++ cs =
        '"' :: (text.toList ++ '"' :: ':' :: cs) := by simp
    have hlength : ('"' :: (text.toList ++ ['"', ':'])).length = text.toList.length + 2 + 1 := by
      simp
    rw [hcs] at hs
    rw [hlength]
    have hquote := hs.expire ⟨'"', column, 0, column⟩
    obtain ⟨t, htake, ht, hkey⟩ := hquote.take_quoted h
    have hnoted : t.keyStart = some ⟨false, before.length, ⟨'"', column, 0, column⟩⟩ := by
      rw [hkey, Scanner.noted, hquote.keyAllowed, hquote.tokens]
      rfl
    have hcolumn : column + (text.toList.length + 2) ≤ column + 1024 := by omega
    obtain ⟨s', htake', hs'⟩ := (ht.expire ⟨':', _, 0, _⟩).take_colon
      (Scanner.expire_keyStart hnoted (Nat.le_refl 0) hcolumn)
    refine ⟨s', ?_, hs'⟩
    exact ((hs.reaches (by decide) htake).trans (ht.reaches (by decide) htake')).mono (by omega)

/-- A plain `null` and the comma where it ends. -/
theorem null (depth : Nat) (keyAllowed : Bool) :
    Scans ['n', 'u', 'l', 'l', ','] [.scalar "null" true, .comma] (depth + 1) keyAllowed (depth + 1)
      true where
  ascii := by simp [Ascii]
  exists_reaches := by
    intro s cs column before hs
    obtain ⟨t, htake, ht⟩ := (hs.expire ⟨'n', column, 0, column⟩).take_null
    obtain ⟨s', hreaches, hs'⟩ := (comma (depth + 1) false).exists_reaches ht
    exact ⟨s', ((hs.reaches (by decide) htake).trans hreaches).mono (by simp), hs'⟩

end Scans

namespace Scanner

/-- At the end of the line the tokens are complete. -/
theorem Before.run_end {s : Scanner} {column depth : Nat} {keyAllowed : Bool} {tokens : List Token}
    (h : s.Before [] column depth keyAllowed tokens) (fuel : Nat) :
    run (fuel + 1) s = some tokens.reverse := by
  have hskip : skipGap s.inFlow s.keyAllowed false (onLine [] column) =
      (s.keyAllowed, onLine [] column) := by
    simp [skipGap, isBreak, isEnd]
  have hexpire := h.expire ⟨'\x00', column, 0, column⟩
  have hend : isEnd (headChar (s.expire ⟨'\x00', column, 0, column⟩).rest) = true := by
    rw [hexpire.rest]
    rfl
  rw [run, h.approach (onLine_nil column) hskip]
  simp [hend, closeBlocks_of_columns hexpire.columns, hexpire.dropKey, hexpire.tokens]

end Scanner

/-- A line that is read to its end is cut into its tokens. -/
theorem tokens_of_scans {text : List Char} {ts : List Token} {depth : Nat} {keyAllowed : Bool}
    (h : Scans text ts 0 true depth keyAllowed) : tokens text = some ts := by
  have hallowed : text.all isAllowed = true := by
    rw [List.all_eq_true]
    exact fun c hc => isAllowed_of_ascii (h.ascii c hc)
  have hstart : Scanner.Before { rest := onLine text 0 } (text ++ []) 0 0 true [] :=
    { rest := by rw [List.append_nil], columns := rfl, keyStart := optional_none
      outer := List.forall_mem_nil _, depth := rfl, keyAllowed := rfl, tokens := rfl }
  obtain ⟨s, ⟨k, hk, hrun⟩, hs⟩ := h.exists_reaches hstart
  have hfuel : text.length + 1 = text.length - k + 1 + k := by omega
  rw [tokens, if_pos hallowed]
  calc Scanner.run (text.length + 1) { rest := onLine text 0 }
      = Scanner.run (text.length - k + 1) s := by rw [hfuel, hrun]
    _ = some ts := by rw [hs.run_end, List.append_nil, List.reverse_reverse]

end FieldPipeline.Yaml
