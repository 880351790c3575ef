import Zeenoc.Library.Segments
import Zeenoc.SendRequest
import Zeenoc.SoundDocuments

/-! What becomes of the text in the property field: the strings that `document` accepts, and how an
operation that starts from one of them ends. -/

namespace Zeenoc.ConnectPropertyVC
open Firestore Interleaving Prog

structure DocumentPath (s : String) : Prop where
  ne_empty : s ≠ ""
  noDouble : ¬ ['/', '/'] <:+: s.toList
  even : (s.toList.count '/' + Segments.ends '/' s.toList) % 2 = 0

instance (s : String) : Decidable (DocumentPath s) :=
  decidable_of_iff (s ≠ "" ∧ ¬ ['/', '/'] <:+: s.toList ∧
    (s.toList.count '/' + Segments.ends '/' s.toList) % 2 = 0)
    ⟨fun h => ⟨h.1, h.2.1, h.2.2⟩, fun h => ⟨h.1, h.2, h.3⟩⟩

theorem fromString_segments {s : String} (h : ¬ ['/', '/'] <:+: s.toList) :
    fromString s = some ((Segments.segments '/' s.toList).map String.ofList) := by
  unfold fromString
  rw [if_neg h]
  rfl

theorem document_isSome_iff {c : ResourcePath} (hc : c.length % 2 = 1) (s : String) :
    (document c s).isSome ↔ DocumentPath s := by
  by_cases hinfix : ['/', '/'] <:+: s.toList
  · have hnone : document c s = none := by
      rw [document, fromString, if_pos hinfix]
      rfl
    rw [hnone]
    exact ⟨fun h => absurd h (by simp), fun h => absurd hinfix h.noDouble⟩
  have hdocument : (document c s).isSome ↔ (Segments.segments '/' s.toList).length % 2 = 1 := by
    rw [document, fromString_segments hinfix, Option.bind_some]
    split_ifs with hlen <;> rw [List.length_append, List.length_map] at hlen
    · simp only [Option.isSome_some, true_iff]
      omega
    · simp only [Option.isSome_none, Bool.false_eq_true, false_iff]
      omega
  by_cases hempty : s = ""
  · subst hempty
    rw [hdocument]
    exact ⟨fun h => absurd h (by decide), fun h => absurd rfl h.ne_empty⟩
  · have hne : s.toList ≠ [] := by simpa using hempty
    rw [hdocument, Segments.odd_segments_iff hne hinfix]
    exact ⟨fun h => ⟨hempty, hinfix, h⟩, fun h => h.even⟩

example : DocumentPath "a/b/c" := by decide
example : ¬ DocumentPath "Q/x" := by decide

theorem DocumentPath.of_document {c p : ResourcePath} {s : String} (hc : c.length % 2 = 1)
    (h : document c s = some p) : DocumentPath s := by
  apply (document_isSome_iff hc s).mp
  rw [h]
  rfl

theorem DocumentPath.exists_document {c : ResourcePath} {s : String} (h : DocumentPath s)
    (hc : c.length % 2 = 1) : ∃ p, document c s = some p :=
  Option.isSome_iff_exists.mp ((document_isSome_iff hc s).mpr h)

theorem DocumentPath.of_id (u : DocumentId) : DocumentPath u.val :=
  .of_document (c := ["users"]) rfl (document_id rfl u)

section Outcome

abbrev Outcome := List (ResourcePath × Option Fields) × Option (Option String)

variable (T : DocumentId) (text : String)

/-- One request document is added, under some landlord, and the waiting message shown. -/
def Sent (σ : Store) (o : Outcome) : Prop :=
  ∃ L ref a address name, document ["users"] L = some ref ∧
    o.1 = [(ref ++ ["requests", a], some (requestData T text address name))] ∧
    σ (ref ++ ["requests", a]) = none ∧ o.2 = some (some waitingMessage)

def NotFound (o : Outcome) : Prop := o.1 = [] ∧ o.2 = some (some notFoundMessage)

/-- Exactly one of the two; `σ` is the store before the request. -/
def Handled (σ : Store) (o : Outcome) : Prop :=
  (Sent T text σ o ∨ NotFound o) ∧ ¬ (Sent T text σ o ∧ NotFound o)

/-- What a request needs of the listing. -/
structure Addressed (d : Fields) : Prop where
  landlord : ∃ L, d.getString "landlord" = some L ∧ DocumentPath L
  address : ∃ s, d.getString "address" = some s

structure FullName (d : Fields) : Prop where
  firstName : ∃ s, d.getString "firstName" = some s
  lastName : ∃ s, d.getString "lastName" = some s

variable {T text} {σ : Store}

theorem Sent.not_notFound {o : Outcome} (h : Sent T text σ o) : ¬ NotFound o := by
  obtain ⟨L, ref, a, address, name, -, hwrites, -⟩ := h
  intro hnot
  rw [hnot.1] at hwrites
  cases hwrites

theorem Sent.handled {o : Outcome} (h : Sent T text σ o) : Handled T text σ o :=
  ⟨.inl h, fun hboth => h.not_notFound hboth.2⟩

theorem NotFound.handled {o : Outcome} (h : NotFound o) : Handled T text σ o :=
  ⟨.inr h, fun hboth => hboth.1.not_notFound h⟩

theorem Handled.shows {o : Outcome} (h : Handled T text σ o) :
    ∃ message, o.2 = some (some message) := by
  rcases h.1 with ⟨L, ref, a, address, name, -, -, -, hmessage⟩ | hnot
  · exact ⟨_, hmessage⟩
  · exact ⟨_, hnot.2⟩

theorem not_handled_of_trap {o : Outcome} (ho : o.2 = none) : ¬ Handled T text σ o := by
  intro h
  obtain ⟨message, hmessage⟩ := h.shows
  rw [ho] at hmessage
  cases hmessage

variable {ids : ℕ → DocumentId} {replies : ℕ → Reply ResourcePath Fields}

theorem handled_sendRequest_iff (hf : FreshId σ (ids 0)) (name : String)
    (r : Option (Option Fields)) :
    Handled T text σ (perform (Sending.device T text) ids replies (sendRequest T name r) σ) ↔
      ∀ d, r = some (some d) → Addressed d := by
  rcases r with _ | _ | d
  · have hnot : NotFound (perform (Sending.device T text) ids replies
        (sendRequest T name none) σ) := ⟨rfl, rfl⟩
    exact ⟨fun _ d hd => (by cases hd), fun _ => hnot.handled⟩
  · have hnot : NotFound (perform (Sending.device T text) ids replies
        (sendRequest T name (some none)) σ) := ⟨rfl, rfl⟩
    exact ⟨fun _ d hd => (by cases hd), fun _ => hnot.handled⟩
  constructor
  · intro h d' hd'
    obtain rfl := Option.some.inj (Option.some.inj hd')
    by_contra hincomplete
    refine not_handled_of_trap ?_ h
    cases hL : d.getString "landlord" with
    | none => simp [sendRequest, hL, perform]
    | some L =>
      cases haddr : d.getString "address" with
      | none => simp [sendRequest, hL, haddr, perform]
      | some address =>
        cases href : document ["users"] L with
        | none => simp [sendRequest, hL, haddr, href, perform]
        | some ref =>
          exact (hincomplete ⟨⟨L, hL, .of_document rfl href⟩, address, haddr⟩).elim
  · intro h
    obtain ⟨⟨L, hL, hpath⟩, address, haddr⟩ := h d rfl
    obtain ⟨ref, href⟩ := hpath.exists_document (c := ["users"]) rfl
    have hout : perform (Sending.device T text) ids replies
        (sendRequest T name (some (some d))) σ =
        ([(ref ++ ["requests", (ids 0).val], some (requestData T text address name))],
          some (some waitingMessage)) := by
      simp [sendRequest, hL, haddr, href, perform, Sending.device]
    have hsent : Sent T text σ (perform (Sending.device T text) ids replies
        (sendRequest T name (some (some d))) σ) := by
      rw [hout]
      exact ⟨L, ref, (ids 0).val, address, name, href, rfl, hf _ (by simp), rfl⟩
    exact hsent.handled

theorem handled_lookUpProperty_iff (hf : FreshId (replies 0).store (ids 0)) (d : Fields)
    (σ : Store) :
    Handled T text (replies 0).store (perform (Sending.device T text) ids replies
        (lookUpProperty T (some (some d))) σ) ↔
      FullName d ∧ DocumentPath text ∧ ∀ ref d', document ["properties"] text = some ref →
        answer (replies 0).ok (replies 0).seen ref = some (some d') → Addressed d' := by
  cases hfirst : d.getString "firstName" with
  | none =>
    refine iff_of_false (not_handled_of_trap (by simp [lookUpProperty, hfirst, perform])) ?_
    rintro ⟨⟨⟨s, hs⟩, -⟩, -⟩
    rw [hfirst] at hs
    cases hs
  | some firstName =>
    cases hlast : d.getString "lastName" with
    | none =>
      refine iff_of_false (not_handled_of_trap (by
        simp [lookUpProperty, hfirst, hlast, perform])) ?_
      rintro ⟨⟨-, ⟨s, hs⟩⟩, -⟩
      rw [hlast] at hs
      cases hs
    | some lastName =>
      cases href : document ["properties"] text with
      | none =>
        refine iff_of_false (not_handled_of_trap (by
          simp [lookUpProperty, hfirst, hlast, href, perform, Sending.device])) ?_
        rintro ⟨-, hpath, -⟩
        obtain ⟨ref, href'⟩ := hpath.exists_document (c := ["properties"]) rfl
        rw [href] at href'
        cases href'
      | some ref =>
        have hpath : DocumentPath text := .of_document rfl href
        have hperform : perform (Sending.device T text) ids replies
            (lookUpProperty T (some (some d))) σ =
            perform (Sending.device T text) ids (fun i => replies (i + 1))
              (sendRequest T (firstName ++ " " ++ lastName)
                (answer (replies 0).ok (replies 0).seen ref)) (replies 0).store := by
          simp [lookUpProperty, hfirst, hlast, href, perform, Sending.device]
        rw [hperform, handled_sendRequest_iff hf]
        constructor
        · refine fun h => ⟨⟨⟨_, hfirst⟩, _, hlast⟩, hpath, fun ref' d' href' => ?_⟩
          obtain rfl := Option.some.inj href'
          exact h d'
        · exact fun h d' => h.2.2 ref d' rfl

/-- The property is found only as a listing that a request can be made from. -/
def ListingAddressed (text : String) (reply : Reply ResourcePath Fields) : Prop :=
  ∀ ref d, document ["properties"] text = some ref → reply.ok = true → reply.seen ref = some d →
    Addressed d

theorem answer_eq_some_iff {reply : Reply ResourcePath Fields} {k : ResourcePath} {d : Fields} :
    answer reply.ok reply.seen k = some (some d) ↔ reply.ok = true ∧ reply.seen k = some d := by
  cases hok : reply.ok <;> simp [answer]

/-- Every text that denotes a document is handled and no other is, if the documents that the reads
find have the fields that the callbacks cast. -/
theorem handled_iff {d : Fields} (hd : (replies 0).seen ["users", T.val] = some d)
    (hf : FreshId (replies 1).store (ids 0)) :
    Handled T text (replies 1).store
        (perform (Sending.device T text) ids replies (sendRequestTapped T) σ) ↔
      (replies 0).ok = true ∧ FullName d ∧ DocumentPath text ∧
        ListingAddressed text (replies 1) := by
  have hperform : perform (Sending.device T text) ids replies (sendRequestTapped T) σ =
      perform (Sending.device T text) ids (fun i => replies (i + 1))
        (lookUpProperty T (answer (replies 0).ok (replies 0).seen ["users", T.val]))
        (replies 0).store := rfl
  rw [hperform]
  cases hok : (replies 0).ok with
  | false =>
    refine iff_of_false (fun h => ?_) fun h => by simp at h
    obtain ⟨message, hmessage⟩ := h.shows
    simp [answer, lookUpProperty, perform] at hmessage
  | true =>
    have hanswer : answer true (replies 0).seen ["users", T.val] = some (some d) := by
      rw [answer, if_pos rfl, hd]
    rw [hanswer]
    have hlooked : Handled T text (replies 1).store (perform (Sending.device T text) ids
        (fun i => replies (i + 1)) (lookUpProperty T (some (some d))) (replies 0).store) ↔
        FullName d ∧ DocumentPath text ∧ ∀ ref d', document ["properties"] text = some ref →
          answer (replies 1).ok (replies 1).seen ref = some (some d') → Addressed d' :=
      handled_lookUpProperty_iff hf d _
    rw [hlooked]
    simp only [answer_eq_some_iff, ListingAddressed, true_and, and_imp]

theorem trapped {d : Fields} (hok : (replies 0).ok = true)
    (hd : (replies 0).seen ["users", T.val] = some d) (hname : FullName d)
    (h : ¬ DocumentPath text) :
    perform (Sending.device T text) ids replies (sendRequestTapped T) σ = ([], none) := by
  obtain ⟨⟨firstName, hfirst⟩, lastName, hlast⟩ := hname
  have hanswer : answer (replies 0).ok (replies 0).seen ["users", T.val] = some (some d) :=
    answer_eq_some_iff.mpr ⟨hok, hd⟩
  have hnone : document ["properties"] text = none := by
    cases hdocument : document ["properties"] text with
    | none => rfl
    | some ref => exact (h (.of_document rfl hdocument)).elim
  show perform _ _ _ (lookUpProperty T (answer (replies 0).ok (replies 0).seen
    ["users", T.val])) _ = _
  rw [hanswer]
  simp [lookUpProperty, hfirst, hlast, hnone, perform, Sending.device]

end Outcome

theorem listings_addressed {C : World → World.Event → Prop} {w : World}
    (h : World.Reaches C w) : ∀ σ ∈ w.store :: w.past, ∀ p d, σ ("properties" :: p) = some d →
      Addressed d := by
  have haddress : ∀ σ ∈ w.store :: w.past, ∀ p d, σ ("properties" :: p) = some d →
      ∃ s, d.getString "address" = some s := by
    refine World.Reaches.store_invariant (I := fun σ => ∀ p d, σ ("properties" :: p) = some d →
      ∃ s, d.getString "address" = some s) (fun _ d hd => (Option.some_ne_none d hd.symm).elim) ?_ h
    intro v ev σ' _ _ hi he p d hd
    rcases he.at_listing p with hsame | ⟨L, a, form, -, rfl, rfl⟩
    · exact hi p d (hsame ▸ hd)
    · obtain rfl := Option.some.inj ((registered_listing ..).symm.trans hd)
      exact ⟨form.address, by simp [PropertyForm.data]⟩
  intro σ hσ p d hd
  obtain ⟨L, hL⟩ := (h.sound.history σ hσ).1.typed.listing p d hd
  exact ⟨⟨L.val, hL, .of_id L⟩, haddress σ hσ p d hd⟩

/-- In the stores that the app makes, the text and the connection decide. -/
theorem condition_of_reaches {C : World → World.Event → Prop} {w : World} (h : World.Reaches C w)
    {T : DocumentId} {text : String} {replies : ℕ → Reply ResourcePath Fields} {d : Fields}
    (h₀ : (replies 0).seen ∈ w.store :: w.past) (h₁ : (replies 1).seen ∈ w.store :: w.past)
    (hd : (replies 0).seen ["users", T.val] = some d) :
    ((replies 0).ok = true ∧ FullName d ∧ DocumentPath text ∧ ListingAddressed text (replies 1)) ↔
      (replies 0).ok = true ∧ DocumentPath text := by
  have hname : FullName d := by
    have huser := (h.sound.history _ h₀).1.users T.val d hd
    exact ⟨huser.firstName, huser.lastName⟩
  have hlisting : ListingAddressed text (replies 1) := by
    intro ref d' href _ hd'
    obtain ⟨sub, rfl⟩ := document_listing href
    exact listings_addressed h _ h₁ sub d' hd'
  tauto

section Instances

def undisturbed (σ : Store) : Reply ResourcePath Fields := ⟨true, σ, σ⟩

theorem typed_id_handled :
    Handled tenant "/Q/" Sending.listed (perform (Sending.device tenant "/Q/") (fun _ => newId)
      (fun _ => undisturbed Sending.listed) (sendRequestTapped tenant) Sending.listed) := by
  refine (handled_iff (d := Sending.userFields) rfl Sending.freshId_listed).mpr
    ⟨rfl, ⟨⟨"F", rfl⟩, "N", rfl⟩, by decide, ?_⟩
  intro ref d href _ hd
  obtain rfl : ["properties", "Q"] = ref := Option.some.inj (href ▸ by decide)
  obtain rfl : Sending.propertyQ = d := Option.some.inj hd
  exact ⟨⟨"L", rfl, by decide⟩, "A", rfl⟩

theorem empty_text_traps :
    perform (Sending.device tenant "") (fun _ => newId) (fun _ => undisturbed Sending.listed)
        (sendRequestTapped tenant) Sending.listed = ([], none) ∧
      ¬ Handled tenant "" Sending.listed (perform (Sending.device tenant "") (fun _ => newId)
        (fun _ => undisturbed Sending.listed) (sendRequestTapped tenant) Sending.listed) := by
  have htrap : perform (Sending.device tenant "") (fun _ => newId)
      (fun _ => undisturbed Sending.listed) (sendRequestTapped tenant) Sending.listed =
        ([], none) :=
    trapped (d := Sending.userFields) rfl rfl ⟨⟨"F", rfl⟩, "N", rfl⟩ (by decide)
  refine ⟨htrap, not_handled_of_trap ?_⟩
  rw [htrap]

end Instances
end Zeenoc.ConnectPropertyVC
