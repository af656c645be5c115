import FieldPipeline.Proofs.Narrowing

/-!
# Two pipelines at once

The stages of two pipelines may be mixed in any order that keeps the order of each. As long as
their keys and temporary names are apart, and neither begins in a field that the other one writes,
both find what they would find alone. A pipeline may copy a document that the other one has already
written to, so what is kept on the way is not the working value but what the rest of the route leads
to.
-/

namespace FieldPipeline

/-- The third list holds the elements of the first two, each in its order. -/
inductive Interleaved {α : Type} : List α → List α → List α → Prop where
  | nil : Interleaved [] [] []
  | left {x : α} {xs ys zs : List α} : Interleaved xs ys zs → Interleaved (x :: xs) ys (x :: zs)
  | right {y : α} {xs ys zs : List α} : Interleaved xs ys zs → Interleaved xs (y :: ys) (y :: zs)

namespace Pipeline

open FieldPath

def ownNames (key : String) : List String :=
  [key, temporaryKey key]

/-- A document on its way through the stages of a key that are still to come. The end of the route
is `wanted` all the way, and the names in `foreign` may change at any time. -/
inductive Underway (key : String) (foreign : List String) (wanted : Option Value) :
    List Stage → Document → Prop where
  | unopened {field : FieldPath} {fields : List FieldPath} {d : Document}
      (hdots : ∀ f ∈ field :: fields, f.Dotless) (hhead : field.head ∉ foreign)
      (hwanted : (Value.document d).follow (route (field :: fields)) = wanted) :
      Underway key foreign wanted
        (openingStage .plain key :: (field :: fields).flatMap (narrowingStages .plain key)) d
  | held {fields : List FieldPath} {d : Document} {v : Value}
      (hdots : ∀ f ∈ fields, f.Dotless) (hv : Record.get? d key = some v)
      (hwanted : v.follow (route fields) = wanted) :
      Underway key foreign wanted (fields.flatMap (narrowingStages .plain key)) d
  | found {field : FieldPath} {fields : List FieldPath} {d : Document} {v w : Value}
      (hdots : ∀ f ∈ fields, f.Dotless) (hv : Record.get? d key = some v)
      (hw : v.follow field.segments = some w) (hwanted : w.follow (route fields) = wanted) :
      Underway key foreign wanted
        (.assign [(temporaryKey key, .path (field.under key))] ::
          .assign [(key, .field (temporaryKey key))] ::
            fields.flatMap (narrowingStages .plain key)) d
  | copied {fields : List FieldPath} {d : Document} {w : Value}
      (hdots : ∀ f ∈ fields, f.Dotless) (hw : Record.get? d (temporaryKey key) = some w)
      (hwanted : w.follow (route fields) = wanted) :
      Underway key foreign wanted
        (.assign [(key, .field (temporaryKey key))] ::
          fields.flatMap (narrowingStages .plain key)) d

/-- What one stage of the key makes of a document on its way: either the route leads nowhere and the
document is dropped, or it stays on its way, changed under the key's own names only. -/
inductive Advanced (key : String) (foreign : List String) (wanted : Option Value)
    (rest : List Stage) (d : Document) : Option Document → Prop where
  | dropped (hwanted : wanted = none) : Advanced key foreign wanted rest d none
  | kept {d' : Document} (hd : Underway key foreign wanted rest d')
      (hown : Record.without (ownNames key) d' = Record.without (ownNames key) d) :
      Advanced key foreign wanted rest d (some d')

variable {key : String} {foreign : List String} {wanted : Option Value}

/-- The next stage of the key takes a document one step further. -/
theorem Underway.advance (hkey : Dots.Dotless key) {stages : List Stage} {d : Document}
    (h : Underway key foreign wanted stages d) {stage : Stage} {rest : List Stage}
    (hstages : stages = stage :: rest) :
    Advanced key foreign wanted rest d (stage.apply d) := by
  cases h with
  | @unopened field fields d hdots hhead hwanted =>
    obtain ⟨rfl, rfl⟩ := List.cons.inj hstages
    rw [apply_openingStage]
    exact .kept (.held hdots (Record.get?_put_self _ _ _) hwanted)
      (Record.without_put (by simp [ownNames]) _ _)
  | @held fields d v hdots hv hwanted =>
    cases fields with
    | nil => simp at hstages
    | cons field fields =>
      obtain ⟨rfl, rfl⟩ := List.cons.inj hstages
      have hfield : field.Dotless := hdots field List.mem_cons_self
      have hrest : ∀ f ∈ fields, f.Dotless := fun f hf => hdots f (List.mem_cons_of_mem field hf)
      have hfind : (Value.document d).find? (field.under key) = v.follow field.segments := by
        simp [Value.find?, hv]
      have hpresent : (Stage.present (field.under key).dotted).apply d =
          if (v.follow field.segments).isSome then some d else none := by
        rw [Stage.apply_present_dotted (hfield.under hkey), hfind]
      rw [route_cons, Value.follow_append] at hwanted
      change Advanced key foreign wanted _ d ((Stage.present (field.under key).dotted).apply d)
      rw [hpresent]
      cases hw : v.follow field.segments with
      | none =>
        rw [hw] at hwanted
        exact .dropped hwanted.symm
      | some w =>
        rw [hw, Option.bind_some] at hwanted
        exact .kept (.found hrest hv hw hwanted) rfl
  | @found field fields d v w hdots hv hw hwanted =>
    obtain ⟨rfl, rfl⟩ := List.cons.inj hstages
    have hfind : (Value.document d).find? (field.under key) = some w := by
      simp [Value.find?, hv, hw]
    rw [Stage.apply_assign_singleton, Operand.eval, hfind, Stage.setField]
    exact .kept (.copied hdots (Record.get?_put_self _ _ _) hwanted)
      (Record.without_put (by simp [ownNames]) _ _)
  | @copied fields d w hdots hw hwanted =>
    obtain ⟨rfl, rfl⟩ := List.cons.inj hstages
    rw [Stage.apply_assign_singleton, Operand.eval, hw, Stage.setField]
    exact .kept (.held hdots (Record.get?_put_self _ _ _) hwanted)
      (Record.without_put (by simp [ownNames]) _ _)

/-- Changes under foreign names do not get in the way. -/
theorem Underway.of_without_eq {stages : List Stage} {d d' : Document}
    (h : Underway key foreign wanted stages d) (hkey : key ∉ foreign)
    (htemporary : temporaryKey key ∉ foreign)
    (heq : Record.without foreign d' = Record.without foreign d) :
    Underway key foreign wanted stages d' := by
  have hget {name : String} (hname : name ∉ foreign) : Record.get? d' name = Record.get? d name :=
    Record.get?_eq_of_without_eq heq hname
  cases h with
  | @unopened field fields d hdots hhead hwanted =>
    refine .unopened hdots hhead ?_
    rw [← hwanted]
    simp [route_cons, segments, hget hhead]
  | held hdots hv hwanted => exact .held hdots ((hget hkey).trans hv) hwanted
  | found hdots hv hw hwanted => exact .found hdots ((hget hkey).trans hv) hw hwanted
  | copied hdots hw hwanted => exact .copied hdots ((hget htemporary).trans hw) hwanted

/-- At the end of its way a document holds the end of the route under the key. -/
theorem Underway.arrived {d : Document} (h : Underway key foreign wanted [] d) :
    ∃ v, wanted = some v ∧ Record.get? d key = some v := by
  generalize hstages : ([] : List Stage) = stages at h
  cases h with
  | unopened => cases hstages
  | @held fields d v hdots hv hwanted =>
    cases fields with
    | nil => exact ⟨v, hwanted.symm, hv⟩
    | cons field fields => cases hstages
  | found => cases hstages
  | copied => cases hstages

inductive Joined (a b : String) (wantedA wantedB : Option Value) (d : Document) :
    Option Document → Prop where
  | dropped (hwanted : wantedA = none ∨ wantedB = none) : Joined a b wantedA wantedB d none
  | answered {v w : Value} {answer : Document} (hv : wantedA = some v) (hw : wantedB = some w)
      (ha : Record.get? answer a = some v) (hb : Record.get? answer b = some w)
      (hothers : Record.without (ownNames a ++ ownNames b) answer =
        Record.without (ownNames a ++ ownNames b) d) :
      Joined a b wantedA wantedB d (some answer)

variable {a b : String} {wantedA wantedB : Option Value}

theorem Joined.of_without_eq {d d' : Document} {outcome : Option Document}
    (h : Joined a b wantedA wantedB d' outcome)
    (heq : Record.without (ownNames a ++ ownNames b) d' =
      Record.without (ownNames a ++ ownNames b) d) : Joined a b wantedA wantedB d outcome := by
  cases h with
  | dropped hwanted => exact .dropped hwanted
  | answered hv hw ha hb hothers => exact .answered hv hw ha hb (hothers.trans heq)

/-- A stage of one pipeline leaves the rest to the stages after it. -/
theorem Advanced.joined {rest zs : List Stage} {d : Document} {outcome : Option Document}
    (h : Advanced key foreign wanted rest d outcome)
    (hnames : ownNames key ⊆ ownNames a ++ ownNames b)
    (hwanted : wanted = none → wantedA = none ∨ wantedB = none)
    (hnext : ∀ d', Underway key foreign wanted rest d' →
      Record.without (ownNames key) d' = Record.without (ownNames key) d →
        Joined a b wantedA wantedB d' (Stage.applyAll zs d')) :
    Joined a b wantedA wantedB d (outcome.bind (Stage.applyAll zs)) := by
  cases h with
  | dropped hnone => exact .dropped (hwanted hnone)
  | kept hd hown =>
    exact (hnext _ hd hown).of_without_eq (Record.without_eq_of_subset hnames hown)

/-- A document on its way through both pipelines stays so with every stage of either, or is dropped
with good reason, and so it arrives at the end of both routes. -/
theorem joined_of_interleaved {xs ys zs : List Stage} (h : Interleaved xs ys zs)
    (ha : Dots.Dotless a) (hb : Dots.Dotless b)
    (hapart : (ownNames a ++ ownNames b).Nodup) {d : Document}
    (hda : Underway a (ownNames b) wantedA xs d) (hdb : Underway b (ownNames a) wantedB ys d) :
    Joined a b wantedA wantedB d (Stage.applyAll zs d) := by
  have hdisjoint : ∀ x ∈ ownNames a, ∀ y ∈ ownNames b, x ≠ y := (List.nodup_append.1 hapart).2.2
  have hin (key : String) : key ∈ ownNames key ∧ temporaryKey key ∈ ownNames key := by
    simp [ownNames]
  have hnotB {name : String} (hname : name ∈ ownNames a) : name ∉ ownNames b :=
    fun hname' => hdisjoint name hname name hname' rfl
  have hnotA {name : String} (hname : name ∈ ownNames b) : name ∉ ownNames a :=
    fun hname' => hdisjoint name hname' name hname rfl
  induction h generalizing d with
  | nil =>
    obtain ⟨v, hv, hgetA⟩ := hda.arrived
    obtain ⟨w, hw, hgetB⟩ := hdb.arrived
    exact .answered hv hw hgetA hgetB rfl
  | left hrest ih =>
    rw [Stage.applyAll_cons]
    refine (hda.advance ha rfl).joined (List.subset_append_left _ _) Or.inl ?_
    intro d' hda' hown
    exact ih hda' (hdb.of_without_eq (hnotA (hin b).1) (hnotA (hin b).2) hown)
  | right hrest ih =>
    rw [Stage.applyAll_cons]
    refine (hdb.advance hb rfl).joined (List.subset_append_right _ _) Or.inr ?_
    intro d' hdb' hown
    exact ih (hda.of_without_eq (hnotB (hin a).1) (hnotB (hin a).2) hown) hdb'

/-- Two mixed pipelines answer exactly the documents in which both routes lead somewhere, in their
order. Each answer has the end of the one route under the one key and of the other under the other,
and all but the four written fields are as they were. -/
theorem run_interleaved_answers (ha : Dots.Dotless a) (hb : Dots.Dotless b)
    {f g : FieldPath} {fs gs : List FieldPath} (hf : ∀ field ∈ f :: fs, field.Dotless)
    (hg : ∀ field ∈ g :: gs, field.Dotless)
    (hapart : [a, temporaryKey a, b, temporaryKey b].Nodup)
    (hfb : f.head ∉ [b, temporaryKey b]) (hga : g.head ∉ [a, temporaryKey a])
    {stages : List Stage}
    (h : Interleaved (ofFields .plain a (f :: fs)).stages (ofFields .plain b (g :: gs)).stages
      stages) (documents : List Document) :
    List.Forall₂
      (fun d answer =>
        Record.get? answer a = (Value.document d).follow (route (f :: fs)) ∧
        Record.get? answer b = (Value.document d).follow (route (g :: gs)) ∧
        Record.without [a, temporaryKey a, b, temporaryKey b] answer =
          Record.without [a, temporaryKey a, b, temporaryKey b] d)
      (documents.filter fun d =>
        ((Value.document d).follow (route (f :: fs))).isSome &&
          ((Value.document d).follow (route (g :: gs))).isSome)
      (Stage.run stages documents) := by
  have hjoined (d : Document) : Joined a b ((Value.document d).follow (route (f :: fs)))
      ((Value.document d).follow (route (g :: gs))) d (Stage.applyAll stages d) := by
    rw [ofFields_stages, ofFields_stages] at h
    exact joined_of_interleaved h ha hb hapart (.unopened hf hfb rfl) (.unopened hg hga rfl)
  refine Stage.forall₂_run ?_ ?_ documents
  · intro d hd
    obtain ⟨hv, hw⟩ := Bool.and_eq_true_iff.1 hd
    have hd' := hjoined d
    cases happly : Stage.applyAll stages d with
    | none =>
      rw [happly] at hd'
      cases hd' with
      | dropped hwanted =>
        rcases hwanted with hnone | hnone
        · rw [hnone] at hv
          cases hv
        · rw [hnone] at hw
          cases hw
    | some answer =>
      rw [happly] at hd'
      cases hd' with
      | answered hv hw hgetA hgetB hothers =>
        exact ⟨answer, rfl, hgetA.trans hv.symm, hgetB.trans hw.symm, hothers⟩
  · intro d hd
    have hd' := hjoined d
    cases happly : Stage.applyAll stages d with
    | none => rfl
    | some answer =>
      rw [happly] at hd'
      cases hd' with
      | answered hv hw hgetA hgetB hothers =>
        simp only [hv, hw, Option.isSome_some, Bool.and_self, reduceCtorEq] at hd

/-- The second pipeline begins while the first one is under way, so it copies a document that
already has the first key. -/
theorem run_interleaved_answers_of_written_root :
    [("k0" : String), temporaryKey "k0", "k1", temporaryKey "k1"].Nodup ∧
      (FieldPath.single "a").head ∉ ["k1", temporaryKey "k1"] ∧
      (FieldPath.single "b").head ∉ ["k0", temporaryKey "k0"] ∧
      Interleaved (ofFields .plain "k0" [FieldPath.single "a"]).stages
        (ofFields .plain "k1" [FieldPath.single "b"]).stages
        (openingStage .plain "k0" :: openingStage .plain "k1" ::
          (narrowingStages .plain "k1" (FieldPath.single "b") ++
            narrowingStages .plain "k0" (FieldPath.single "a"))) ∧
      List.Forall₂
        (fun d answer =>
          Record.get? answer "k0" = (Value.document d).follow (route [FieldPath.single "a"]) ∧
          Record.get? answer "k1" = (Value.document d).follow (route [FieldPath.single "b"]) ∧
          Record.without ["k0", temporaryKey "k0", "k1", temporaryKey "k1"] answer =
            Record.without ["k0", temporaryKey "k0", "k1", temporaryKey "k1"] d)
        [[("b", .text "y"), ("k1", .null), ("a", .text "x")]]
        (Stage.run
          (openingStage .plain "k0" :: openingStage .plain "k1" ::
            (narrowingStages .plain "k1" (FieldPath.single "b") ++
              narrowingStages .plain "k0" (FieldPath.single "a")))
          [[("a", .text "x")], [("b", .text "y"), ("k1", .null), ("a", .text "x")]]) := by
  have hapart : [("k0" : String), temporaryKey "k0", "k1", temporaryKey "k1"].Nodup := by decide
  have hfb : (FieldPath.single "a").head ∉ ["k1", temporaryKey "k1"] := by decide
  have hga : (FieldPath.single "b").head ∉ ["k0", temporaryKey "k0"] := by decide
  have hmixed : Interleaved (ofFields .plain "k0" [FieldPath.single "a"]).stages
      (ofFields .plain "k1" [FieldPath.single "b"]).stages
      (openingStage .plain "k0" :: openingStage .plain "k1" ::
        (narrowingStages .plain "k1" (FieldPath.single "b") ++
          narrowingStages .plain "k0" (FieldPath.single "a"))) :=
    .left (.right (.right (.right (.right (.left (.left (.left .nil)))))))
  exact ⟨hapart, hfb, hga, hmixed, run_interleaved_answers (by decide) (by decide) (by decide)
    (by decide) hapart hfb hga hmixed
    [[("a", .text "x")], [("b", .text "y"), ("k1", .null), ("a", .text "x")]]⟩

end Pipeline

end FieldPipeline
