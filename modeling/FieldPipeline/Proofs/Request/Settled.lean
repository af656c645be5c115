import FieldPipeline.Proofs.Narrowing
import FieldPipeline.Proofs.Reservation
import FieldPipeline.Request.Basic

/-!
# How requests are settled

Fields are read in order, so a request that has a bad field fails with the first one. A number is
taken only when a pipeline is certain and no key was given. Requests one after another therefore
get consecutive numbers, whatever comes between those that get one.
-/

namespace FieldPipeline.Request

open FieldPath

theorem readField_eq_ok_iff {text : String} {field : FieldPath} :
    readField text = .ok field ↔ ofText text = .ok field := by
  rw [readField]
  cases ofText text <;> simp

theorem readField_eq_error {text : String} {fault : Fault} (h : ofText text = .error fault) :
    readField text = .error (.badField text fault) := by
  rw [readField, h]

theorem mapM_readField_cons {text : String} {field : FieldPath} (h : ofText text = .ok field)
    (texts : List String) :
    (text :: texts).mapM readField = (texts.mapM readField).map (field :: ·) := by
  rw [List.mapM_cons, readField_eq_ok_iff.2 h]
  cases texts.mapM readField <;> rfl

theorem mapM_readField_of_ofText {texts : List String}
    (h : ∀ text ∈ texts, ∃ field, ofText text = .ok field) :
    ∃ fields, List.Forall₂ (fun text field => ofText text = .ok field) texts fields ∧
      texts.mapM readField = .ok fields := by
  induction texts with
  | nil => exact ⟨[], .nil, rfl⟩
  | cons text texts ih =>
    obtain ⟨⟨field, hfield⟩, hrest⟩ := List.forall_mem_cons.1 h
    obtain ⟨fields, hfields, hread⟩ := ih hrest
    refine ⟨field :: fields, .cons hfield hfields, ?_⟩
    rw [mapM_readField_cons hfield, hread]
    rfl

theorem mapM_readField_of_error {texts : List String} {text : String} {fault : Fault}
    (hmem : text ∈ texts) (h : ofText text = .error fault) :
    ∃ before first after firstFault, texts = before ++ first :: after ∧
      (∀ earlier ∈ before, ∃ field, ofText earlier = .ok field) ∧
      ofText first = .error firstFault ∧
      texts.mapM readField = .error (.badField first firstFault) := by
  induction texts with
  | nil => cases hmem
  | cons head texts ih =>
    cases hhead : ofText head with
    | error headFault =>
      refine ⟨[], head, texts, headFault, rfl, List.forall_mem_nil _, hhead, ?_⟩
      rw [List.mapM_cons, readField_eq_error hhead]
      rfl
    | ok field =>
      have hne : text ≠ head := by
        rintro rfl
        rw [hhead] at h
        cases h
      obtain ⟨before, first, after, firstFault, rfl, hbefore, hfirst, hread⟩ :=
        ih (List.mem_of_ne_of_mem hne hmem)
      refine ⟨head :: before, first, after, firstFault, rfl,
        List.forall_mem_cons.2 ⟨⟨field, hhead⟩, hbefore⟩, hfirst, ?_⟩
      rw [mapM_readField_cons hhead, hread]
      rfl

theorem mapM_readField_cases (texts : List String) :
    (∃ fields, List.Forall₂ (fun text field => ofText text = .ok field) texts fields ∧
      texts.mapM readField = .ok fields) ∨
      ∃ text fault, texts.mapM readField = .error (.badField text fault) := by
  by_cases hread : ∀ text ∈ texts, ∃ field, ofText text = .ok field
  · exact .inl (mapM_readField_of_ofText hread)
  · push Not at hread
    obtain ⟨text, hmem, hbad⟩ := hread
    cases htext : ofText text with
    | ok field => exact absurd htext (hbad field)
    | error fault =>
      obtain ⟨-, first, -, firstFault, -, -, -, herror⟩ := mapM_readField_of_error hmem htext
      exact .inr ⟨first, firstFault, herror⟩

theorem paths_of_nil {r : Request} (h : r.fields = []) : r.paths = .error .noFieldGiven := by
  rw [paths, h]
  rfl

theorem paths_of_ne_nil {r : Request} (h : r.fields ≠ []) :
    r.paths = r.fields.mapM readField := by
  rw [paths, if_neg (by simpa using h)]

def key (r : Request) (supply : KeySupply) : String :=
  r.sessionKey.getD ("__quarry_" ++ toString supply.next.toNat)

theorem key_reservation (r : Request) (supply : KeySupply) :
    (r.reservation supply).1.key = r.key supply := by
  obtain ⟨sessionKey, fields⟩ := r
  cases sessionKey <;> rfl

theorem toPipeline_of_paths_ok {r : Request} {fields : List FieldPath} (h : r.paths = .ok fields)
    (supply : KeySupply) :
    r.toPipeline supply =
      (.ok (Pipeline.ofFields .plain (r.key supply) fields), (r.reservation supply).2) := by
  rw [toPipeline, h, ← key_reservation]

theorem toPipeline_of_paths_error {r : Request} {failure : Failure} (h : r.paths = .error failure)
    (supply : KeySupply) : r.toPipeline supply = (.error failure, supply) := by
  rw [toPipeline, h]

/-- An accepted request has fields, all of them can be read, and it compiles to the pipeline of
their paths. -/
theorem ofFields_of_toPipeline {r : Request} {supply : KeySupply} {p : Pipeline Stage}
    (h : (r.toPipeline supply).1 = .ok p) :
    ∃ fields, r.fields ≠ [] ∧
      List.Forall₂ (fun text field => ofText text = .ok field) r.fields fields ∧
      p = Pipeline.ofFields .plain (r.reservation supply).1.key fields := by
  have hne : r.fields ≠ [] := by
    intro hnil
    rw [toPipeline_of_paths_error (paths_of_nil hnil)] at h
    cases h
  have hpaths := paths_of_ne_nil hne
  obtain ⟨fields, hfields, hread⟩ | ⟨text, fault, herror⟩ := mapM_readField_cases r.fields
  · rw [toPipeline_of_paths_ok (hpaths.trans hread), ← key_reservation] at h
    exact ⟨fields, hne, hfields, (Except.ok.inj h).symm⟩
  · rw [toPipeline_of_paths_error (hpaths.trans herror)] at h
    cases h

theorem toPipeline_eq_noFieldGiven_iff (r : Request) (supply : KeySupply) :
    (r.toPipeline supply).1 = .error .noFieldGiven ↔ r.fields = [] := by
  constructor
  · intro h
    by_contra hne
    have hpaths := paths_of_ne_nil hne
    obtain ⟨fields, -, hread⟩ | ⟨text, fault, herror⟩ := mapM_readField_cases r.fields
    · rw [toPipeline_of_paths_ok (hpaths.trans hread)] at h
      cases h
    · rw [toPipeline_of_paths_error (hpaths.trans herror)] at h
      cases h
  · intro hnil
    rw [toPipeline_of_paths_error (paths_of_nil hnil)]

/-- The focus of a pipeline that needed a number. -/
def granted? (r : Request) : Except Failure (Pipeline Stage) → Option Focus
  | .ok p => if r.sessionKey.isNone then some p.focus else none
  | .error _ => none

theorem granted?_eq_none_iff {r : Request} {result : Except Failure (Pipeline Stage)} :
    r.granted? result = none ↔ ¬((∃ p, result = .ok p) ∧ r.sessionKey = none) := by
  cases result <;> simp [granted?]

/-- A request leaves the supply alone, or it gets a key with the next number. -/
theorem granted?_toPipeline (r : Request) (supply : KeySupply) :
    r.granted? (r.toPipeline supply).1 = none ∧ (r.toPipeline supply).2 = supply ∨
      r.granted? (r.toPipeline supply).1 =
          some (.field ("__quarry_" ++ toString supply.next.toNat)) ∧
        (r.toPipeline supply).2 = ⟨supply.next + 1⟩ := by
  cases hpaths : r.paths with
  | error failure =>
    rw [toPipeline_of_paths_error hpaths]
    exact .inl ⟨rfl, rfl⟩
  | ok fields =>
    rw [toPipeline_of_paths_ok hpaths]
    cases hkey : r.sessionKey with
    | some key => exact .inl ⟨by simp [granted?, hkey], by rw [reservation, hkey]⟩
    | none =>
      refine .inr ⟨?_, by rw [reservation, hkey]; rfl⟩
      simp [granted?, hkey, key, Pipeline.ofFields_focus]

/-- The results of requests one after another, each beside its request, and the supply at the
end. -/
def settle (supply : KeySupply) :
    List Request → List (Request × Except Failure (Pipeline Stage)) × KeySupply
  | [] => ([], supply)
  | r :: requests =>
    let (result, supply) := r.toPipeline supply
    let (results, supply) := settle supply requests
    ((r, result) :: results, supply)

def granted (supply : KeySupply) (requests : List Request) : List Focus :=
  (settle supply requests).1.filterMap fun entry => entry.1.granted? entry.2

theorem settle_cons (supply : KeySupply) (r : Request) (requests : List Request) :
    (settle supply (r :: requests)).2 = (settle (r.toPipeline supply).2 requests).2 ∧
      granted supply (r :: requests) =
        (r.granted? (r.toPipeline supply).1).toList ++
          granted (r.toPipeline supply).2 requests := by
  refine ⟨rfl, ?_⟩
  cases hgranted : r.granted? (r.toPipeline supply).1 with
  | none => exact List.filterMap_cons_none hgranted
  | some focus => exact List.filterMap_cons_some hgranted

theorem granted_eq (supply : KeySupply) (requests : List Request) :
    granted supply requests =
        (List.range (granted supply requests).length).map (fun i =>
          .field ("__quarry_" ++ toString (supply.next + .ofNat i).toNat)) ∧
      (settle supply requests).2.next =
        supply.next + .ofNat (granted supply requests).length := by
  induction requests generalizing supply with
  | nil => exact ⟨rfl, (Reservation.add_ofNat_zero _).symm⟩
  | cons r requests ih =>
    obtain ⟨hend, hgranted⟩ := settle_cons supply r requests
    obtain ⟨hnone, hsupply⟩ | ⟨hsome, hsupply⟩ := granted?_toPipeline r supply
    · rw [hgranted, hend, hnone, hsupply]
      exact ih supply
    · obtain ⟨hkeys, hnext⟩ := ih ⟨supply.next + 1⟩
      rw [hgranted, hend, hsome, hsupply, Option.toList_some, List.singleton_append,
        List.length_cons, hnext, Reservation.add_ofNat_succ, List.range_succ_eq_map, List.map_cons,
        List.map_map]
      refine ⟨congrArg₂ List.cons ?_ (hkeys.trans (List.map_congr_left fun i _ => ?_)), rfl⟩
      · rw [Reservation.add_ofNat_zero]
      · rw [Function.comp_apply, Reservation.add_ofNat_succ]

/-- A request without fields says so. One with a bad field names the first and says what is wrong
with it. Any other becomes the pipeline of its fields, on its own key or on the next standard one.
The supply moves on by one number if there is a pipeline and no key was given, and stays where it is
otherwise. So the keys that a run of requests gets are consecutive. -/
theorem toPipeline_settles :
    (∀ (r : Request) (supply : KeySupply),
      ((r.toPipeline supply).1 = .error .noFieldGiven ↔ r.fields = []) ∧
      (∀ text ∈ r.fields, ∀ fault, ofText text = .error fault →
        ∃ before first after firstFault, r.fields = before ++ first :: after ∧
          (∀ earlier ∈ before, ∃ field, ofText earlier = .ok field) ∧
          ofText first = .error firstFault ∧
          (r.toPipeline supply).1 = .error (.badField first firstFault)) ∧
      (r.fields ≠ [] → (∀ text ∈ r.fields, ∃ field, ofText text = .ok field) →
        ∃ fields, List.Forall₂ (fun text field => ofText text = .ok field) r.fields fields ∧
          (r.toPipeline supply).1 =
            .ok ⟨openingStage .plain (r.key supply) ::
              fields.flatMap (narrowingStages .plain (r.key supply)), .field (r.key supply)⟩) ∧
      ((∃ p, (r.toPipeline supply).1 = .ok p) ∧ r.sessionKey = none →
        (r.toPipeline supply).2.next = supply.next + 1) ∧
      (¬((∃ p, (r.toPipeline supply).1 = .ok p) ∧ r.sessionKey = none) →
        (r.toPipeline supply).2 = supply)) ∧
      ∀ (supply : KeySupply) (requests : List Request),
        granted supply requests =
            (List.range (granted supply requests).length).map (fun i =>
              .field ("__quarry_" ++ toString (supply.next + .ofNat i).toNat)) ∧
          (settle supply requests).2.next =
            supply.next + .ofNat (granted supply requests).length := by
  refine ⟨fun r supply => ⟨toPipeline_eq_noFieldGiven_iff r supply, ?_, ?_, ?_, ?_⟩, granted_eq⟩
  · intro text hmem fault hfault
    obtain ⟨before, first, after, firstFault, htexts, hbefore, hfirst, herror⟩ :=
      mapM_readField_of_error hmem hfault
    have hpaths := (paths_of_ne_nil (List.ne_nil_of_mem hmem)).trans herror
    exact ⟨before, first, after, firstFault, htexts, hbefore, hfirst,
      congrArg Prod.fst (toPipeline_of_paths_error hpaths supply)⟩
  · intro hne hread
    obtain ⟨fields, hfields, hread⟩ := mapM_readField_of_ofText hread
    refine ⟨fields, hfields, ?_⟩
    rw [toPipeline_of_paths_ok ((paths_of_ne_nil hne).trans hread), Pipeline.ofFields_eq]
  · intro htaken
    obtain ⟨hnone, -⟩ | ⟨-, hsupply⟩ := granted?_toPipeline r supply
    · exact absurd htaken (granted?_eq_none_iff.1 hnone)
    · rw [hsupply]
  · intro hkept
    obtain ⟨-, hsupply⟩ | ⟨hsome, -⟩ := granted?_toPipeline r supply
    · exact hsupply
    · rw [granted?_eq_none_iff.2 hkept] at hsome
      cases hsome

/-- A failing request, one with its own key and an empty one among requests that get keys. -/
theorem toPipeline_settles_interrupted :
    ofText "b..c" = .error (.emptyAt "b..c" 1) ∧
      (∃ before first after fault, ["a", "b..c", ""] = before ++ first :: after ∧
        (∀ earlier ∈ before, ∃ field, ofText earlier = .ok field) ∧ ofText first = .error fault ∧
        (toPipeline ⟨none, ["a", "b..c", ""]⟩ ⟨42⟩).1 = .error (.badField first fault)) ∧
      (∃ p, (toPipeline ⟨none, ["a.b"]⟩ ⟨41⟩).1 = .ok p ∧ p.focus = .field "__quarry_41") ∧
      (toPipeline ⟨none, ["a.b"]⟩ ⟨41⟩).2.next = 42 ∧
      (toPipeline ⟨some "k", ["x"]⟩ ⟨42⟩).2 = ⟨42⟩ ∧
      granted ⟨41⟩ [⟨none, ["a.b"]⟩, ⟨none, ["a", "b..c", ""]⟩, ⟨some "k", ["x"]⟩, ⟨none, []⟩,
        ⟨none, ["y"]⟩] = [.field "__quarry_41", .field "__quarry_42"] := by
  have hfault : ofText "b..c" = .error (.emptyAt "b..c" 1) := by decide
  have hread : ∀ text ∈ ["a.b"], ∃ field, ofText text = .ok field :=
    List.forall_mem_singleton.2 ⟨⟨"a", ["b"]⟩, by decide⟩
  have hgranted : (granted ⟨41⟩ [⟨none, ["a.b"]⟩, ⟨none, ["a", "b..c", ""]⟩, ⟨some "k", ["x"]⟩,
      ⟨none, []⟩, ⟨none, ["y"]⟩]).length = 2 := by decide
  obtain ⟨-, -, hfields, htaken, -⟩ := toPipeline_settles.1 ⟨none, ["a.b"]⟩ ⟨41⟩
  obtain ⟨fields, -, hp⟩ := hfields (by decide) hread
  obtain ⟨-, hbad, -, -, -⟩ := toPipeline_settles.1 ⟨none, ["a", "b..c", ""]⟩ ⟨42⟩
  obtain ⟨-, -, -, -, hkept⟩ := toPipeline_settles.1 ⟨some "k", ["x"]⟩ ⟨42⟩
  refine ⟨hfault, hbad "b..c" (by decide) _ hfault, ⟨_, hp, rfl⟩, htaken ⟨⟨_, hp⟩, rfl⟩,
    hkept (by simp), ?_⟩
  rw [(toPipeline_settles.2 _ _).1, hgranted]
  decide

end FieldPipeline.Request
