import Zeenoc.Turns

/-! Acceptance of a request: which of its four effects the store ends with. -/

namespace Zeenoc
open Firestore Interleaving Prog

section Paths

theorem payments_ne_requests (p : ResourcePath) (a x y z : String) :
    p ++ ["payments", a] ≠ [x, y, "requests", z] := by
  intro h
  have hrev := congrArg List.reverse h
  simp at hrev

theorem append_two_ne_self (p : ResourcePath) (x y : String) : p ++ [x, y] ≠ p := by
  intro h
  have hlen := congrArg List.length h
  simp at hlen

theorem payments_inj {p : ResourcePath} {a b : DocumentId}
    (h : p ++ ["payments", b.val] = p ++ ["payments", a.val]) : b = a := by
  rw [DocumentId.ext_iff_val]
  simpa using h

theorem property_ne_request {L id P : String} {pP : ResourcePath}
    (h : document ["users", L, "properties"] P = some pP) : pP ≠ ["users", L, "requests", id] := by
  obtain ⟨q, rest, rfl⟩ := document_ne_nil (by simp) h
  simp

end Paths

section Specification

/-- The four effects of accepting `r`, at the documents its strings denote. -/
structure Effects (σ σ' : Store) (L : DocumentId) (r : Request) (pT pP : ResourcePath)
    (before : Fields) (deadline rent : String) (a : DocumentId) : Prop where
  tenantPath : document ["users"] r.tenantID = some pT
  propertyPath : document ["users", L.val, "properties"] r.propertyID = some pP
  requestGone : σ' ["users", L.val, "requests", r.id] = none
  paired : ∃ d, σ' pT = some d ∧ d.getString "paired" = some "true" ∧
    d.getString "properyID" = some r.propertyID
  existed : σ pP = some before
  named : ∃ d, σ' pP = some d ∧ d.getString "tenantName" = some r.tenantName ∧
    d.getString "tenantID" = some r.tenantID
  hasDeadline : before.getString "deadline" = some deadline
  hasRent : before.getString "rent" = some rent
  newPayment : σ (pT ++ ["payments", a.val]) = none ∧
    σ' (pT ++ ["payments", a.val]) =
      some (paymentData L r.tenantID r.propertyID deadline rent)
  onlyPayment : ∀ b : DocumentId, σ (pT ++ ["payments", b.val]) = none →
    σ' (pT ++ ["payments", b.val]) ≠ none → b = a

def AllOrNothing (σ σ' : Store) (L : DocumentId) (r : Request) : Prop :=
  (∃ pT pP before deadline rent a, Effects σ σ' L r pT pP before deadline rent a) ∨ σ' = σ

/-- `r` is the entry made of a document that is still under the landlord's requests. -/
def Pending (σ : Store) (L : DocumentId) (r : Request) : Prop :=
  ∃ id d, σ ["users", L.val, "requests", id.val] = some d ∧ Request.ofDocument id d = some r

/-- The landlord's copy of the property is there, with the strings a payment copies. -/
def PropertyReady (σ : Store) (L : DocumentId) (r : Request) : Prop :=
  ∃ pT pP before deadline rent,
    document ["users"] r.tenantID = some pT ∧ pT ≠ ["users", L.val, "requests", r.id] ∧
    document ["users", L.val, "properties"] r.propertyID = some pP ∧ σ pP = some before ∧
    before.getString "deadline" = some deadline ∧ before.getString "rent" = some rent

end Specification

variable (e : Device) (ok : Bool) (a : DocumentId) {σ : Store} {L : DocumentId} {r : Request}

/-- The store that the accept sequence leaves when nothing else is going on. -/
def acceptAlone (σ : Store) (L : DocumentId) (r : Request) : Store :=
  (exec e ok (fun _ => a) (accept L r) σ).1

theorem removed_apply (σ : Store) (pR p : ResourcePath) :
    removed σ pR p = if p = pR then none else σ p := by
  unfold removed
  rw [Function.update_apply]

theorem paired_of_ne (σ : Store) {pT p : ResourcePath} (P : String) (h : p ≠ pT) :
    paired σ pT P p = σ p := Function.update_of_ne h _ _

theorem named_of_ne (σ : Store) {pP p : ResourcePath} (N T : String) (h : p ≠ pP) :
    named σ pP N T p = σ p := Function.update_of_ne h _ _

theorem paired_self (σ : Store) (pT : ResourcePath) (P : String) :
    paired σ pT P pT = some
      ((strings [("paired", "true"), ("properyID", P)]).merge (σ pT)) :=
  Function.update_self ..

theorem named_self (σ : Store) (pP : ResourcePath) (N T : String) :
    named σ pP N T pP = some
      ((strings [("tenantName", N), ("tenantID", T)]).merge (σ pP)) :=
  Function.update_self ..

theorem accepted_getString {pR pP : ResourcePath} (pT : ResourcePath) {before : Fields}
    (hb : σ pP = some before) (hR : pP ≠ pR) (field : String)
    (hf : field ∉ ["paired", "properyID", "tenantName", "tenantID"]) :
    ∃ d, accepted σ r pR pT pP pP = some d ∧ d.getString field = before.getString field := by
  simp only [List.mem_cons, List.not_mem_nil, or_false, not_or] at hf
  obtain ⟨h1, h2, h3, h4⟩ := hf
  have hrem : removed σ pR pP = some before := by rw [removed_apply, if_neg hR, hb]
  have hpair : ∃ d, paired (removed σ pR) pT r.propertyID pP = some d ∧
      d.getString field = before.getString field := by
    by_cases hT : pP = pT
    · subst hT
      refine ⟨_, paired_self .., ?_⟩
      rw [hrem]
      exact merge_of_none (by simp [h1, h2]) before
    · exact ⟨before, by rw [paired_of_ne _ _ hT, hrem], rfl⟩
  obtain ⟨d, hd, hdf⟩ := hpair
  refine ⟨_, named_self .., ?_⟩
  rw [hd, merge_of_none (by simp [h3, h4]), hdf]

theorem accepted_paired (σ : Store) (r : Request) (pR pT pP : ResourcePath) :
    ∃ d, accepted σ r pR pT pP pT = some d ∧ d.getString "paired" = some "true" ∧
      d.getString "properyID" = some r.propertyID := by
  have hpair : ∃ d, paired (removed σ pR) pT r.propertyID pT = some d ∧
      d.getString "paired" = some "true" ∧ d.getString "properyID" = some r.propertyID :=
    ⟨_, paired_self .., merge_of_some (by simp) _, merge_of_some (by simp) _⟩
  unfold accepted
  by_cases hTP : pT = pP
  · -- the merge of the tenant's name leaves the pairing alone
    obtain ⟨d, hd, h1, h2⟩ := hpair
    rw [← hTP, named_self, hd]
    refine ⟨_, rfl, ?_, ?_⟩
    · rw [merge_of_none (by simp), h1]
    · rw [merge_of_none (by simp), h2]
  · rw [named_of_ne _ _ _ hTP]
    exact hpair

theorem accepted_payments (σ : Store) (r : Request) (L : DocumentId) {pT pP : ResourcePath}
    {b : String} (hP : pT ++ ["payments", b] ≠ pP) :
    accepted σ r ["users", L.val, "requests", r.id] pT pP (pT ++ ["payments", b]) =
      σ (pT ++ ["payments", b]) := by
  unfold accepted
  rw [named_of_ne _ _ _ hP, paired_of_ne _ _ (append_two_ne_self _ _ _), removed_apply,
    if_neg (payments_ne_requests _ _ _ _ _)]

theorem exec_addPayment_frame (ids : ℕ → DocumentId) (σ : Store) (L : DocumentId)
    (T P : String) (doc : Option (Option Fields)) {p : ResourcePath}
    (hp : ∀ pT, document ["users"] T = some pT → p ≠ pT ++ ["payments", (ids 0).val]) :
    (exec e ok ids (addPayment L T P doc) σ).1 p = σ p := by
  rcases doc with _ | _ | d
  · rfl
  · rfl
  · cases hd : d.getString "deadline" with
    | none => simp [addPayment, exec, hd]
    | some deadline =>
      cases hr : d.getString "rent" with
      | none => simp [addPayment, exec, hd, hr]
      | some rent =>
        cases hT : document ["users"] T with
        | none => simp [addPayment, exec, hd, hr, hT]
        | some pT => simp [addPayment, exec, hd, hr, hT, Function.update_of_ne (hp pT hT)]

theorem acceptAlone_request {pR : ResourcePath}
    (hR : document ["users", L.val, "requests"] r.id = some pR)
    (hq : pR = ["users", L.val, "requests", r.id]) (d : Fields)
    (hd : acceptAlone e ok a σ L r pR = some d) : d.getString "tenantID" = none := by
  have hrem : removed σ pR pR = none := by simp [removed_apply]
  have hpair : ∀ pT d, paired (removed σ pR) pT r.propertyID pR = some d →
      d.getString "tenantID" = none := by
    intro pT d hd
    by_cases hT : pR = pT
    · -- the tenant string denotes the request itself, which the merge makes anew
      subst hT
      rw [paired_self, hrem, merge_absent] at hd
      simp [← Option.some.inj hd]
    · rw [paired_of_ne _ _ hT, hrem] at hd
      cases hd
  unfold acceptAlone at hd
  rw [exec_turn, turn_accept, hR] at hd
  cases hT : document ["users"] r.tenantID with
  | none => rw [hT] at hd; exact absurd hd (by simp [hrem])
  | some pT =>
    cases hP : document ["users", L.val, "properties"] r.propertyID with
    | none => rw [hT, hP] at hd; exact hpair pT d hd
    | some pP =>
      rw [hT, hP] at hd
      have hne : pR ≠ pP := hq ▸ (property_ne_request hP).symm
      have hframe := exec_addPayment_frame e ok (fun _ => a) (accepted σ r pR pT pP) L
        r.tenantID r.propertyID (answer ok (accepted σ r pR pT pP) pP) (p := pR)
        (fun pT' _ => hq ▸ (payments_ne_requests pT' a.val _ _ _).symm)
      have hacc : accepted σ r pR pT pP pR = some d := hframe.symm.trans hd
      unfold accepted at hacc
      rw [named_of_ne _ _ _ hne] at hacc
      exact hpair pT d hacc

theorem acceptAlone_eq {pR pT pP : ResourcePath}
    (hR : document ["users", L.val, "requests"] r.id = some pR)
    (hT : document ["users"] r.tenantID = some pT)
    (hP : document ["users", L.val, "properties"] r.propertyID = some pP) :
    acceptAlone e ok a σ L r =
      (exec e ok (fun _ => a) (addPayment L r.tenantID r.propertyID
        (answer ok (accepted σ r pR pT pP) pP)) (accepted σ r pR pT pP)).1 := by
  unfold acceptAlone
  rw [exec_turn, turn_accept, hR, hT, hP]

theorem acceptAlone_failed {pR pT pP : ResourcePath}
    (hR : document ["users", L.val, "requests"] r.id = some pR)
    (hT : document ["users"] r.tenantID = some pT)
    (hP : document ["users", L.val, "properties"] r.propertyID = some pP) :
    acceptAlone e false a σ L r = accepted σ r pR pT pP := by
  rw [acceptAlone_eq e false a hR hT hP]
  rfl

theorem acceptAlone_paid {pR pT pP : ResourcePath} {d : Fields} {deadline rent : String}
    (hR : document ["users", L.val, "requests"] r.id = some pR)
    (hT : document ["users"] r.tenantID = some pT)
    (hP : document ["users", L.val, "properties"] r.propertyID = some pP)
    (hd : accepted σ r pR pT pP pP = some d) (hdl : d.getString "deadline" = some deadline)
    (hrent : d.getString "rent" = some rent) :
    acceptAlone e true a σ L r =
      Function.update (accepted σ r pR pT pP) (pT ++ ["payments", a.val])
        (some (paymentData L r.tenantID r.propertyID deadline rent)) := by
  rw [acceptAlone_eq e true a hR hT hP]
  simp [answer, hd, addPayment, hdl, hrent, hT, exec]

section AllOrNothing
variable {pT pP : ResourcePath} {before : Fields} {deadline rent : String}

theorem effects_of_ready (ha : FreshId σ a)
    (hR : document ["users", L.val, "requests"] r.id = some ["users", L.val, "requests", r.id])
    (hT : document ["users"] r.tenantID = some pT)
    (hTR : pT ≠ ["users", L.val, "requests", r.id])
    (hP : document ["users", L.val, "properties"] r.propertyID = some pP)
    (hb : σ pP = some before) (hdl : before.getString "deadline" = some deadline)
    (hrent : before.getString "rent" = some rent) :
    Effects σ (acceptAlone e true a σ L r) L r pT pP before deadline rent a := by
  set pR := ["users", L.val, "requests", r.id] with hpR
  have hPR : pP ≠ pR := property_ne_request hP
  obtain ⟨d, hd, hdf⟩ := accepted_getString (r := r) pT hb hPR "deadline" (by decide)
  obtain ⟨d', hd', hdf'⟩ := accepted_getString (r := r) pT hb hPR "rent" (by decide)
  obtain rfl : d = d' := Option.some.inj (hd.symm.trans hd')
  have hpay := acceptAlone_paid e a hR hT hP hd (hdf.trans hdl) (hdf'.trans hrent)
  have hnew : σ (pT ++ ["payments", a.val]) = none := ha _ (by simp)
  have hPa : pP ≠ pT ++ ["payments", a.val] := by
    intro h
    rw [h, hnew] at hb
    cases hb
  have hTa : pT ≠ pT ++ ["payments", a.val] := (append_two_ne_self _ _ _).symm
  have hRa : pR ≠ pT ++ ["payments", a.val] := (payments_ne_requests _ _ _ _ _).symm
  rw [hpay]
  refine ⟨hT, hP, ?_, ?_, hb, ?_, hdl, hrent, ⟨hnew, Function.update_self ..⟩, ?_⟩
  · rw [Function.update_of_ne hRa, accepted, named_of_ne _ _ _ hPR.symm,
      paired_of_ne _ _ hTR.symm, removed_apply, if_pos rfl]
  · rw [Function.update_of_ne hTa]
    exact accepted_paired σ r pR pT pP
  · rw [Function.update_of_ne hPa]
    exact ⟨_, named_self .., merge_of_some (by simp) _, merge_of_some (by simp) _⟩
  · intro b hb₀ hb₁
    by_contra hba
    have hba' : pT ++ ["payments", b.val] ≠ pT ++ ["payments", a.val] :=
      fun h => hba (payments_inj h)
    have hbP : pT ++ ["payments", b.val] ≠ pP := by
      intro h
      rw [h, hb] at hb₀
      cases hb₀
    rw [Function.update_of_ne hba', accepted_payments σ r L hbP] at hb₁
    exact hb₁ hb₀

theorem ready_of_effects
    (hR : document ["users", L.val, "requests"] r.id = some ["users", L.val, "requests", r.id])
    {b : DocumentId}
    (h : Effects σ (acceptAlone e ok a σ L r) L r pT pP before deadline rent b) :
    PropertyReady σ L r ∧ ok = true := by
  obtain ⟨hT, hP, hgone, -, hb, -, hdl, hrent, ⟨hnew, hpay⟩, -⟩ := h
  set pR := ["users", L.val, "requests", r.id] with hpR
  have hPR : pP ≠ pR := property_ne_request hP
  have hPb : pT ++ ["payments", b.val] ≠ pP := by
    intro h
    rw [h, hb] at hnew
    cases hnew
  cases ok with
  | false =>
    -- without an answer nothing is written under the payments
    rw [acceptAlone_failed e a hR hT hP, accepted_payments σ r L hPb, hnew] at hpay
    cases hpay
  | true =>
    refine ⟨⟨pT, pP, before, deadline, rent, hT, ?_, hP, hb, hdl, hrent⟩, rfl⟩
    intro hTR
    -- the merge would have made the request document anew
    have hframe := exec_addPayment_frame e true (fun _ => a) (accepted σ r pR pT pP) L
      r.tenantID r.propertyID (answer true (accepted σ r pR pT pP) pP) (p := pR)
      (fun pT' _ => (payments_ne_requests pT' a.val _ _ _).symm)
    rw [acceptAlone_eq e true a hR hT hP, hframe, accepted, named_of_ne _ _ _ hPR.symm, hTR,
      paired_self] at hgone
    cases hgone

end AllOrNothing

/-- Acceptance is all-or-nothing exactly when the landlord's copy of the property exists with
its two strings and the payment's read succeeds; it never leaves the store as it was. -/
theorem accept_allOrNothing_iff (hr : Pending σ L r) (ha : FreshId σ a) :
    AllOrNothing σ (acceptAlone e ok a σ L r) L r ↔ PropertyReady σ L r ∧ ok = true := by
  obtain ⟨id, d, hd, hrd⟩ := hr
  obtain ⟨hid, htenant, -⟩ := Request.ofDocument_fields hrd
  have hR : document ["users", L.val, "requests"] r.id =
      some ["users", L.val, "requests", r.id] := by
    rw [hid]
    exact document_id (by simp) id
  constructor
  · rintro (⟨pT, pP, before, deadline, rent, b, h⟩ | h)
    · exact ready_of_effects e ok a hR h
    · have hsame : acceptAlone e ok a σ L r ["users", L.val, "requests", r.id] = some d := by
        rw [h, hid, hd]
      rw [acceptAlone_request e ok a hR rfl d hsame] at htenant
      cases htenant
  · rintro ⟨⟨pT, pP, before, deadline, rent, hT, hTR, hP, hb, hdl, hrent⟩, rfl⟩
    exact .inl ⟨pT, pP, before, deadline, rent, a,
      effects_of_ready e a ha hR hT hTR hP hb hdl hrent⟩

section Instances

def anyDevice : Device := ⟨none, "", "tenants"⟩

def deletedProperty : Store := Function.update (fun _ => none) ["users", "L", "requests", "R"]
  (some (strings [("tenantID", "T"), ("propertyID", "Q"), ("address", "A"), ("tenantName", "N")]))

def pendingRequest : Request := ⟨"R", "N", "A", "T", "Q"⟩

/-- The read finds the document that `addNameToProperty` has just made, and the cast fails. -/
theorem accept_deleted_property :
    Pending deletedProperty landlord pendingRequest ∧ FreshId deletedProperty newId ∧
      (exec anyDevice true (fun _ => newId) (accept landlord pendingRequest) deletedProperty).2 =
        none ∧
      ¬ AllOrNothing deletedProperty
        (acceptAlone anyDevice true newId deletedProperty landlord pendingRequest)
        landlord pendingRequest := by
  have hpending : Pending deletedProperty landlord pendingRequest :=
    ⟨request, _, rfl, by decide⟩
  refine ⟨hpending, (freshId_empty newId).update (by decide) _, by decide, ?_⟩
  rintro (⟨pT, pP, before, deadline, rent, b, h⟩ | h)
  · have hP : pP = ["users", "L", "properties", "Q"] :=
      Option.some.inj (h.propertyPath.symm.trans (by decide))
    have hex := h.existed
    rw [hP] at hex
    cases hex
  · have hgone := congrFun h ["users", "L", "requests", "R"]
    cases hgone

def listedProperty : Store := Function.update deletedProperty ["users", "L", "properties", "Q"]
  (some (strings [("address", "A"), ("deadline", "15"), ("rent", "900"), ("room", "2"),
    ("bath", "1"), ("squareFoot", "700")]))

theorem accept_listed_property :
    AllOrNothing listedProperty
      (acceptAlone anyDevice true newId listedProperty landlord pendingRequest)
      landlord pendingRequest :=
  (accept_allOrNothing_iff anyDevice true newId ⟨request, _, rfl, by decide⟩
    (((freshId_empty newId).update (by decide) _).update (by decide) _)).mpr
    ⟨⟨["users", "T"], ["users", "L", "properties", "Q"], _, "15", "900", by decide, by decide,
      by decide, rfl, by decide, by decide⟩, rfl⟩

end Instances

end Zeenoc
