import Zeenoc.Library.Footprint
import Zeenoc.Effects
import Zeenoc.Settlements

/-! Two acceptances at once: which documents each of them reads and writes. -/

namespace Zeenoc
open Firestore Interleaving Prog

/-- `r` is the entry made of a document that the store holds, which names its tenant by an id. -/
def Sent (σ : Store) (L : DocumentId) (r : Request) : Prop :=
  ∃ (id T : DocumentId) (d : Fields), σ ["users", L.val, "requests", id.val] = some d ∧
    Request.ofDocument id d = some r ∧ r.tenantID = T.val

/-- Whatever the users do, the store holds no other request documents. -/
theorem request_documents {C : World → World.Event → Prop} {w : World} (h : World.Reaches C w) :
    ∀ σ ∈ w.store :: w.past, ∀ (L id : DocumentId) d,
      σ ["users", L.val, "requests", id.val] = some d →
      ∃ (T : DocumentId) (P address name : String), d = requestData T P address name := by
  refine World.Reaches.store_invariant (fun L id d hd => ?_) ?_ h
  · exact (Option.some_ne_none d hd.symm).elim
  · intro w ev σ' _ _ hi he L id d hd
    rcases he.request_or hd with hd | hnew
    · exact hi L id d hd
    · exact hnew.2

theorem sent_of_document {C : World → World.Event → Prop} {w : World} (h : World.Reaches C w)
    {L id : DocumentId} {d : Fields} {r : Request}
    (hd : w.store ["users", L.val, "requests", id.val] = some d)
    (hr : Request.ofDocument id d = some r) : Sent w.store L r := by
  obtain ⟨T, P, address, name, rfl⟩ := request_documents h _ List.mem_cons_self L id d hd
  obtain ⟨-, hT, -⟩ := Request.ofDocument_fields hr
  exact ⟨id, T, _, hd, hr, Option.some.inj (hT.symm.trans (by simp [requestData]))⟩

theorem Sent.fields {σ : Store} {L : DocumentId} {r : Request} (h : Sent σ L r) :
    ∃ (id T : DocumentId) (d : Fields), σ ["users", L.val, "requests", id.val] = some d ∧
      r.id = id.val ∧ r.tenantID = T.val ∧ d.getString "tenantID" = some T.val := by
  obtain ⟨id, T, d, hd, hr, hT⟩ := h
  obtain ⟨hid, htenant, -⟩ := Request.ofDocument_fields hr
  exact ⟨id, T, d, hd, hid, hT, hT ▸ htenant⟩

def acceptance (e : Device) (ok : Bool) (ids : ℕ → DocumentId) (L : DocumentId) (r : Request) :
    Party ResourcePath Fields Device DocumentId Unit := ⟨e, ok, ids, accept L r⟩

/-- The request, the tenant, the landlord's property, and the new payment of the tenant. -/
def Footprint (L id T a : DocumentId) (propertyID : String) (k : ResourcePath) : Prop :=
  k = ["users", L.val, "requests", id.val] ∨ k = ["users", T.val] ∨
    document ["users", L.val, "properties"] propertyID = some k ∨
    k = ["users", T.val, "payments", a.val]

section Accept
variable {e : Device} {ok : Bool} {ids : ℕ → DocumentId} {L id T : DocumentId} {r : Request}
  {k : ResourcePath}

theorem touches_addPayment (hT : r.tenantID = T.val) {doc : Option (Option Fields)}
    (h : Prog.Touches e ids (addPayment L r.tenantID r.propertyID doc) k) :
    k = ["users", T.val, "payments", (ids 0).val] := by
  have hdoc : document ["users"] r.tenantID = some ["users", T.val] := user_path hT
  rcases doc with _ | _ | d
  · exact h.elim
  · exact h.elim
  · cases hdl : d.getString "deadline" with
    | none => simp [addPayment, hdl, Prog.Touches] at h
    | some deadline =>
      cases hrent : d.getString "rent" with
      | none => simp [addPayment, hdl, hrent, Prog.Touches] at h
      | some rent => simpa [addPayment, hdl, hrent, hdoc, Prog.Touches] using h

theorem touches_acceptance (hid : r.id = id.val) (hT : r.tenantID = T.val)
    (h : (acceptance e ok ids L r).Touches k) : Footprint L id T (ids 0) r.propertyID k := by
  have hR : document ["users", L.val, "requests"] r.id =
      some ["users", L.val, "requests", id.val] := by
    rw [hid]
    exact document_id (by simp) id
  have hTp : document ["users"] r.tenantID = some ["users", T.val] := user_path hT
  replace h : Prog.Touches e ids (accept L r) k := h
  cases hP : document ["users", L.val, "properties"] r.propertyID with
  | none =>
    simp only [accept, removeRequest, makePairedTrue, addNameToProperty, hR, hTp, hP, force_some,
      force_none, bind_pure_con, bind_trap, delete_bind, mergeData_bind, Prog.Touches,
      or_false] at h
    rcases h with h | h
    · exact .inl h
    · exact .inr (.inl h)
  | some p =>
    simp only [accept, removeRequest, makePairedTrue, addNameToProperty, addPaymentToTenant, hR,
      hTp, hP, force_some, bind_pure_con, delete_bind, mergeData_bind, getDocument_bind,
      Prog.Touches] at h
    rcases h with h | h | rfl | rfl | ⟨doc, h⟩
    · exact .inl h
    · exact .inr (.inl h)
    · exact .inr (.inr (.inl hP))
    · exact .inr (.inr (.inl hP))
    · exact .inr (.inr (.inr (touches_addPayment hT h)))

end Accept

section Disjoint
variable {L₁ id₁ T₁ a₁ L₂ id₂ T₂ a₂ : DocumentId} {P₁ P₂ : String} {k : ResourcePath}

theorem property_ne {L : DocumentId} {P : String}
    (h : document ["users", L.val, "properties"] P = some k) :
    (∀ x y, k ≠ ["users", x, "requests", y]) ∧ (∀ x, k ≠ ["users", x]) ∧
      ∀ x y, k ≠ ["users", x, "payments", y] := by
  obtain ⟨q, rest, rfl⟩ := document_ne_nil (by simp) h
  simp

theorem Footprint.disjoint
    (hR : ["users", L₁.val, "requests", id₁.val] ≠ ["users", L₂.val, "requests", id₂.val])
    (hT : T₁.val ≠ T₂.val)
    (hP : ∀ p, document ["users", L₁.val, "properties"] P₁ = some p →
      document ["users", L₂.val, "properties"] P₂ ≠ some p)
    (h₁ : Footprint L₁ id₁ T₁ a₁ P₁ k) : ¬ Footprint L₂ id₂ T₂ a₂ P₂ k := by
  intro h₂
  rcases h₁ with rfl | rfl | h₁ | rfl
  · rcases h₂ with h₂ | h₂ | h₂ | h₂
    · exact hR h₂
    · simp at h₂
    · exact (property_ne h₂).1 _ _ rfl
    · simp at h₂
  · rcases h₂ with h₂ | h₂ | h₂ | h₂
    · simp at h₂
    · exact hT (by simpa using h₂)
    · exact (property_ne h₂).2.1 _ rfl
    · simp at h₂
  · rcases h₂ with h₂ | h₂ | h₂ | h₂
    · exact (property_ne h₁).1 _ _ h₂
    · exact (property_ne h₁).2.1 _ h₂
    · exact hP k h₁ h₂
    · exact (property_ne h₁).2.2 _ _ h₂
  · rcases h₂ with h₂ | h₂ | h₂ | h₂
    · simp at h₂
    · simp at h₂
    · exact (property_ne h₂).2.2 _ _ rfl
    · rw [List.cons.injEq, List.cons.injEq] at h₂
      exact hT h₂.2.1

end Disjoint

/-- Two acceptances of requests with different tenants and different properties end, however their
operations interleave, as the one after the other does in either order, and no operation of one
changes a document of the other. -/
theorem acceptances_independent {σ : Store} {e₁ e₂ : Device} {ok₁ ok₂ : Bool}
    {ids₁ ids₂ : ℕ → DocumentId} {L₁ L₂ : DocumentId} {r₁ r₂ : Request} (h₁ : Sent σ L₁ r₁)
    (h₂ : Sent σ L₂ r₂) (hT : r₁.tenantID ≠ r₂.tenantID)
    (hP : ∀ p, document ["users", L₁.val, "properties"] r₁.propertyID = some p →
      document ["users", L₂.val, "properties"] r₂.propertyID ≠ some p)
    {c : Pair ResourcePath Fields Device DocumentId Unit}
    (h : Pair.Reaches (acceptance e₁ ok₁ ids₁ L₁ r₁) (acceptance e₂ ok₂ ids₂ L₂ r₂) σ c) :
    (c.Ended →
      c.store = (acceptance e₂ ok₂ ids₂ L₂ r₂).exec ((acceptance e₁ ok₁ ids₁ L₁ r₁).exec σ) ∧
      c.store = (acceptance e₁ ok₁ ids₁ L₁ r₁).exec ((acceptance e₂ ok₂ ids₂ L₂ r₂).exec σ)) ∧
    (∀ c', Pair.Step c .left c' → ∀ k, (acceptance e₂ ok₂ ids₂ L₂ r₂).Touches k →
      c'.store k = c.store k) ∧
    ∀ c', Pair.Step c .right c' → ∀ k, (acceptance e₁ ok₁ ids₁ L₁ r₁).Touches k →
      c'.store k = c.store k := by
  obtain ⟨id₁, T₁, d₁, hd₁, hid₁, hT₁, htenant₁⟩ := h₁.fields
  obtain ⟨id₂, T₂, d₂, hd₂, hid₂, hT₂, htenant₂⟩ := h₂.fields
  rw [hT₁, hT₂] at hT
  -- one request document cannot name both tenants
  have hR : ["users", L₁.val, "requests", id₁.val] ≠ ["users", L₂.val, "requests", id₂.val] := by
    intro he
    rw [he, hd₂] at hd₁
    obtain rfl := Option.some.inj hd₁
    exact hT (Option.some.inj (htenant₁.symm.trans htenant₂))
  have hd : ∀ k, (acceptance e₁ ok₁ ids₁ L₁ r₁).Touches k →
      ¬ (acceptance e₂ ok₂ ids₂ L₂ r₂).Touches k := by
    intro k hk₁ hk₂
    exact (touches_acceptance hid₁ hT₁ hk₁).disjoint hR hT hP (touches_acceptance hid₂ hT₂ hk₂)
  exact ⟨h.end_eq hd, fun _ hs => (h.frame hd).1 hs, fun _ hs => (h.frame hd).2 hs⟩

section Instances

def secondRequest : Request := ⟨"O", "M", "A", "S", "N"⟩

def twoProperties : Store := Function.update listedProperty ["users", "L", "properties", "N"]
  (some (strings [("deadline", "20"), ("rent", "800")]))

def twoSent : Store := Function.update (Function.update twoProperties
    ["users", "L", "requests", "R"] (some (requestData tenant "Q" "A" "N")))
    ["users", "L", "requests", "O"] (some (requestData NotificationsVC.secondId "N" "A" "M"))

def firstAcceptance : Party ResourcePath Fields Device DocumentId Unit :=
  acceptance anyDevice true (fun _ => newId) landlord pendingRequest

def secondAcceptance : Party ResourcePath Fields Device DocumentId Unit :=
  acceptance anyDevice true (fun _ => newId) landlord secondRequest

theorem two_acceptances_end :
    ∃ c, Pair.Reaches firstAcceptance secondAcceptance twoSent c ∧ c.Ended ∧
      c.store = secondAcceptance.exec (firstAcceptance.exec twoSent) ∧
      c.store = firstAcceptance.exec (secondAcceptance.exec twoSent) := by
  have h₁ : Sent twoSent landlord pendingRequest :=
    ⟨request, tenant, _, rfl, by decide, rfl⟩
  have h₂ : Sent twoSent landlord secondRequest :=
    ⟨NotificationsVC.otherId, NotificationsVC.secondId, _, rfl, by decide, rfl⟩
  have hP : ∀ p, document ["users", landlord.val, "properties"] pendingRequest.propertyID = some p →
      document ["users", landlord.val, "properties"] secondRequest.propertyID ≠ some p := by
    intro p hp hp'
    exact absurd (hp.trans hp'.symm) (by decide)
  -- both requests go first, and the second acceptance reads before the first one does
  have hdeleted : Pair.Reaches firstAcceptance secondAcceptance twoSent _ :=
    (Runs.Reaches.start.step trivial (.left rfl)).step trivial (.right rfl)
  have hmerged : Pair.Reaches firstAcceptance secondAcceptance twoSent _ :=
    (((hdeleted.step trivial (.left rfl)).step trivial (.right rfl)).step trivial
      (.right rfl)).step trivial (.left rfl)
  have hpaid : Pair.Reaches firstAcceptance secondAcceptance twoSent _ :=
    (((hmerged.step trivial (.right rfl)).step trivial (.left rfl)).step trivial
      (.right rfl)).step trivial (.left rfl)
  refine ⟨_, hpaid, ⟨rfl, rfl⟩, ?_⟩
  exact (acceptances_independent h₁ h₂ (by decide) hP hpaid).1 ⟨rfl, rfl⟩

end Instances
end Zeenoc
