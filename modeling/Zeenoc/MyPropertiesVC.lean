import Zeenoc.ModifiedProperty
import Zeenoc.Tables
import Zeenoc.Turns

/-! `MyPropertiesVC`, whose rows come from the array of another screen's listener, and the details
that a selected row opens. -/

namespace Zeenoc.MyPropertiesVC
open Firestore Interleaving TableView ShownRows

structure PropertyDetailsVC where
  address : String
  id : String
  rent : String
  deadline : String
  room : String
  bath : String
  squareFeet : String
  tenant : String

/-- The rows of this screen have no swipes. -/
abbrev Screen := Table Empty LandlordVC.Lists Property

abbrev Input := TableView.Input Batch Empty

/-- The listener is `LandlordVC`'s, and its completion reloads that screen's table only. -/
def table : Source Batch LandlordVC.Lists Property where
  call b s := (LandlordVC.firebaseCall b.changes s).map fun (s', _) => (s', false)
  rows s := s.properties
  reloadsOnAppear := true

def details (p : Property) : PropertyDetailsVC where
  address := p.address
  id := p.id
  rent := p.rent
  deadline := p.deadline
  room := p.room
  bath := p.bath
  squareFeet := p.squareFoot
  tenant := p.tenantName

def didSelectRowAt (t : Screen) (row : ℕ) : Option PropertyDetailsVC :=
  (table.read t row).map details

def ids (l : List Property) : List String := l.map Property.id

open LandlordVC in
theorem process_ids {c : DocumentChange} {s s' : Lists} {more : Bool}
    (h : process c s = some (s', more)) :
    ids s'.properties = match c.type with
      | .added => ids s.properties ++ [c.documentID.val]
      | .modified => ids s.properties
      | .removed => (ids s.properties).erase c.documentID.val := by
  obtain ⟨type, id, d⟩ := c
  cases type with
  | added =>
    obtain ⟨s₁, hs₁, heq⟩ := Option.map_eq_some_iff.mp h
    obtain ⟨rfl, -⟩ := Prod.mk.inj heq
    obtain ⟨p, hp, hs₁⟩ := Option.bind_eq_some_iff.mp hs₁
    obtain rfl := Option.some.inj hs₁
    show ids (s.properties ++ [p]) = ids s.properties ++ [id.val]
    unfold ids
    rw [List.map_append, List.map_singleton, Property.ofDocument_id hp]
  | modified =>
    obtain ⟨s₁, hs₁, heq⟩ := Option.map_eq_some_iff.mp h
    obtain ⟨rfl, -⟩ := Prod.mk.inj heq
    obtain ⟨tenantName, -, hs₁⟩ := Option.bind_eq_some_iff.mp hs₁
    obtain ⟨tenantID, -, hs₁⟩ := Option.bind_eq_some_iff.mp hs₁
    obtain ⟨first, -, hs₁⟩ := Option.bind_eq_some_iff.mp hs₁
    split_ifs at hs₁
    · obtain rfl := Option.some.inj hs₁
      rfl
    · obtain rfl := Option.some.inj hs₁
      exact map_setTenant ..
    · obtain rfl := Option.some.inj hs₁
      exact map_setTenant ..
  | removed =>
    have herase : ids (s.properties.eraseP fun p => p.id = id.val) =
        (ids s.properties).erase id.val := KeyedList.map_eraseP id.val
    by_cases htenant : ∃ p ∈ s.tenantProperties, p.id = id.val
    · have hrun : some ((⟨s.properties.eraseP fun p => p.id = id.val,
          s.tenantProperties.eraseP fun p => p.id = id.val⟩ : Lists), false) =
          some (s', more) := (if_pos htenant).symm.trans h
      obtain ⟨rfl, -⟩ := Prod.mk.inj (Option.some.inj hrun)
      exact herase
    · have hrun : some ({ s with properties := s.properties.eraseP fun p => p.id = id.val }, true) =
          some (s', more) := (if_neg htenant).symm.trans h
      obtain ⟨rfl, -⟩ := Prod.mk.inj (Option.some.inj hrun)
      exact herase

/-- The array has ids of documents, each once, and the rows whose ids are still in it come first
and in order. -/
structure Good (shown l : List String) : Prop where
  nodup : l.Nodup
  inStep : InStep (· ∉ l) shown l
  documents : ∀ k ∈ l, ∃ a : DocumentId, a.val = k

theorem good_nil : Good [] [] :=
  ⟨List.nodup_nil, inStep_self fun _ hk => absurd hk List.not_mem_nil,
    fun _ hk => absurd hk List.not_mem_nil⟩

theorem Good.call {changes : List DocumentChange} {shown : List String} {s s' : LandlordVC.Lists}
    {ended : Bool} (h : LandlordVC.firebaseCall changes s = some (s', ended))
    (hnew : (NotificationsVC.addedIds changes).Nodup)
    (hids : ∀ k ∈ NotificationsVC.addedIds changes, k ∉ ids s.properties ++ shown)
    (hs : Good shown (ids s.properties)) : Good shown (ids s'.properties) := by
  -- over the changes: what one of them does to the ids, then the rest from there
  induction changes generalizing s with
  | nil =>
    obtain ⟨rfl, -⟩ := Prod.mk.inj (Option.some.inj h)
    exact hs
  | cons c cs ih =>
    rw [LandlordVC.firebaseCall_cons] at h
    obtain ⟨⟨s₁, more⟩, hc, h⟩ := Option.bind_eq_some_iff.mp h
    have hids₁ := process_ids hc
    have hone : Good shown (ids s₁.properties) ∧
        (NotificationsVC.addedIds cs).Nodup ∧
        ∀ k ∈ NotificationsVC.addedIds cs, k ∉ ids s₁.properties ++ shown := by
      rw [hids₁]
      obtain ⟨type, id, d⟩ := c
      cases type with
      | added =>
        replace hnew : (id.val :: NotificationsVC.addedIds cs).Nodup := hnew
        replace hids : ∀ k ∈ id.val :: NotificationsVC.addedIds cs,
            k ∉ ids s.properties ++ shown := hids
        obtain ⟨hidnew, hrest⟩ := List.nodup_cons.mp hnew
        have hid := hids id.val List.mem_cons_self
        rw [List.mem_append, not_or] at hid
        refine ⟨⟨?_, hs.inStep.append_new hid.2, fun k hk => ?_⟩, hrest, fun k hk hmem => ?_⟩
        · refine List.Nodup.append hs.nodup (List.nodup_singleton _) ?_
          simpa using hid.1
        · rcases List.mem_append.mp hk with hk | hk
          · exact hs.documents k hk
          · exact ⟨id, (List.mem_singleton.mp hk).symm⟩
        · have hold := hids k (List.mem_cons_of_mem _ hk)
          rw [List.append_assoc, List.mem_append, List.mem_append, List.mem_singleton] at hmem
          rcases hmem with hmem | rfl | hmem
          · exact hold (List.mem_append_left _ hmem)
          · exact hidnew hk
          · exact hold (List.mem_append_right _ hmem)
      | modified => exact ⟨hs, hnew, hids⟩
      | removed =>
        refine ⟨⟨hs.nodup.erase _, ?_, fun k hk => hs.documents k (List.mem_of_mem_erase hk)⟩, hnew,
          fun k hk hmem => hids k hk ?_⟩
        · show InStep (· ∉ (ids s.properties).erase id.val) shown ((ids s.properties).erase id.val)
          rw [hs.nodup.erase_eq_filter]
          exact hs.inStep.filter_listed _
        · rcases List.mem_append.mp hmem with hmem | hmem
          · exact List.mem_append_left _ (List.mem_of_mem_erase hmem)
          · exact List.mem_append_right _ hmem
    cases more with
    | true => exact ih h hone.2.1 hone.2.2 hone.1
    | false =>
      obtain ⟨rfl, -⟩ := Prod.mk.inj (Option.some.inj h)
      exact hone.1

/-- The properties of a batch that are added are neither listed nor shown. -/
def AddsNew (t : Screen) : Input → Prop
  | .deliver b => (NotificationsVC.addedIds b.changes).Nodup ∧
      ∀ k ∈ NotificationsVC.addedIds b.changes, k ∉ ids t.content.properties ++ ids t.shown
  | _ => True

def Tracks (t : Screen) : Prop := Good (ids t.shown) (ids t.content.properties)

theorem Tracks.step {t t' : Screen} {i : Input} (h : Tracks t) (hc : AddsNew t i)
    (hs : table.Step t i t') : Tracks t' := by
  have hself : Good (ids t.content.properties) (ids t.content.properties) :=
    ⟨h.nodup, inStep_self fun _ hk => not_not_intro hk, h.documents⟩
  cases Source.step_does hs with
  | deliver hcall =>
    obtain ⟨⟨s, ended⟩, hrun, heq⟩ := Option.map_eq_some_iff.mp hcall
    obtain ⟨rfl, -⟩ := Prod.mk.inj heq
    exact h.call hrun hc.1 hc.2
  | completion => exact h
  | reload => exact hself
  | appear => exact hself
  | cell => exact h
  | @swipe e => exact e.elim
  | cancel => exact h
  | @tap e => exact e.elim

/-- A selected row opens the property that it shows, and deleting there hits that property's
document only. -/
def HitsShown (t : Screen) (row : ℕ) (p : Property) : Prop :=
  ∃ vc, didSelectRowAt t row = some vc ∧ vc.id = p.id ∧
    ∀ (user : DocumentId) (e : Device) (newIds : ℕ → DocumentId) (σ : Store),
      Prog.turn e newIds (deleteTapped user vc.id) σ =
        (Function.update σ ["users", user.val, "properties", p.id] none, .pure ())

/-- Where deliveries add new ids, the selection of a row hits the property shown exactly when no
property shown at or above it has left the array. -/
theorem selection_hits_shown_iff {t : Screen}
    (h : Runs.Reaches table.Step AddsNew (unloaded ⟨[], []⟩) t) {row : ℕ} {p : Property}
    (hp : t.shown[row]? = some p) :
    HitsShown t row p ↔
      ∀ j ≤ row, ∀ q, t.shown[j]? = some q → ∃ q' ∈ t.content.properties, q'.id = q.id := by
  have hinit : Tracks (unloaded ⟨[], []⟩) := good_nil
  have hgood : Tracks t := Runs.Reaches.invariant hinit (fun _ _ _ ht hc hs => ht.step hc hs) h
  have hlt : row < t.shown.length := (List.getElem?_eq_some_iff.mp hp).1
  have hshown : ∀ {j : ℕ} {q : Property}, t.shown[j]? = some q → (ids t.shown)[j]? = some q.id := by
    intro j q hq
    unfold ids
    rw [List.getElem?_map, hq, Option.map_some]
  have hselect : didSelectRowAt t row = t.content.properties[row]?.map details :=
    congrArg (Option.map details) (if_pos hlt)
  constructor
  · rintro ⟨vc, hd, hid, -⟩ j hj q hq
    rw [hselect] at hd
    obtain ⟨p', hp', rfl⟩ := Option.map_eq_some_iff.mp hd
    have hget : (ids t.content.properties)[row]? = some p.id := by
      unfold ids
      rw [List.getElem?_map, hp', Option.map_some]
      exact congrArg some hid
    -- the array has the shown id at that row, so no row above it has left
    have hmem := hgood.inStep.mem_of_getElem? hgood.nodup (hshown hp) hget hj (hshown hq)
    exact List.mem_map.mp hmem
  · intro hall
    have hids : ∀ j ≤ row, ∀ k, (ids t.shown)[j]? = some k → ¬ k ∉ ids t.content.properties := by
      intro j hj k hk
      unfold ids at hk
      rw [List.getElem?_map] at hk
      obtain ⟨q, hq, rfl⟩ := Option.map_eq_some_iff.mp hk
      exact not_not_intro (List.mem_map.mpr (hall j hj q hq))
    have hget := hgood.inStep.getElem? hids (hshown hp)
    have hget' := hget
    unfold ids at hget'
    rw [List.getElem?_map] at hget'
    obtain ⟨p', hp', hpid⟩ := Option.map_eq_some_iff.mp hget'
    obtain ⟨a, ha⟩ := hgood.documents p.id (List.mem_of_getElem? hget)
    refine ⟨_, by rw [hselect, hp']; rfl, hpid, fun user e newIds σ => ?_⟩
    have hdoc : document ["users", user.val, "properties"] p'.id =
        some ["users", user.val, "properties", p.id] := by
      rw [hpid, ← ha]
      exact document_id (by simp) a
    show Prog.turn e newIds (deleteTapped user p'.id) σ = _
    rw [turn_deleteTapped, hdoc]

section Instances

def bothAdded : Batch :=
  ⟨[], [(LandlordVC.firstProperty, LandlordVC.vacant), (property, LandlordVC.vacant)], []⟩

def entry (id : String) : Property :=
  ⟨id, "N/A", "N/A", "A", "03/15/2021", "$900", "2 bds", "1 ba", "700 sqft"⟩

def bothShown : Screen :=
  ⟨⟨[entry "P", entry "Q"], []⟩, [entry "P", entry "Q"], [], none⟩

theorem reaches_bothShown (C : Screen → Input → Prop)
    (hadd : C (unloaded ⟨[], []⟩) (.deliver bothAdded)) (happear : ∀ t, C t .appear) :
    Runs.Reaches table.Step C (unloaded ⟨[], []⟩) bothShown :=
  .step (e := .appear) (.step (e := .deliver bothAdded) .start hadd rfl) (happear _) rfl

/-- The first property is deleted from elsewhere while the screen stays up: its row opens the second
one, which `deleteTapped` then deletes, and the second row traps. -/
theorem selection_of_other_property :
    ∃ t, Runs.Reaches table.Step (fun _ _ => True) (unloaded ⟨[], []⟩) t ∧
      t.shown = [entry "P", entry "Q"] ∧ ¬ HitsShown t 0 (entry "P") ∧
      (∃ vc, didSelectRowAt t 0 = some vc ∧ vc.id = "Q" ∧
        ∀ e newIds σ, Prog.turn e newIds (deleteTapped landlord vc.id) σ =
          (Function.update σ ["users", "L", "properties", "Q"] none, .pure ())) ∧
      didSelectRowAt t 1 = none := by
  have hshown := reaches_bothShown (fun _ _ => True) trivial fun _ => trivial
  have hdropped : table.Step bothShown
      (.deliver (dropRow (LandlordVC.firstProperty, LandlordVC.vacant)))
      ⟨⟨[entry "Q"], []⟩, [entry "P", entry "Q"], [], none⟩ := rfl
  have hdoc : document ["users", landlord.val, "properties"] "Q" =
      some ["users", "L", "properties", "Q"] := by decide
  refine ⟨_, hshown.step trivial hdropped, rfl, ?_, ⟨_, rfl, rfl, fun e newIds σ => ?_⟩, rfl⟩
  · rintro ⟨vc, hd, hid, -⟩
    obtain rfl := Option.some.inj hd
    exact absurd hid (by decide)
  · show Prog.turn e newIds (deleteTapped landlord "Q") σ = _
    rw [turn_deleteTapped, hdoc]

theorem selection_of_first_property : HitsShown bothShown 0 (entry "P") := by
  have hnew : AddsNew (unloaded ⟨[], []⟩) (.deliver bothAdded) :=
    ⟨by decide, fun _ _ hmem => absurd hmem List.not_mem_nil⟩
  refine (selection_hits_shown_iff (reaches_bothShown AddsNew hnew fun _ => trivial) rfl).mpr ?_
  intro j hj q hq
  obtain rfl : j = 0 := Nat.le_zero.mp hj
  obtain rfl := Option.some.inj hq
  exact ⟨entry "P", List.mem_cons_self, rfl⟩

end Instances
end Zeenoc.MyPropertiesVC
