import Zeenoc.WholeOperations

/-! The landlords' property documents: complete as long as no acceptance meets an absent one, and in
step with the public listings as long as none is deleted either. -/

namespace Zeenoc
open Firestore Interleaving Prog

def tenantFields (r : Request) : Fields :=
  strings [("tenantName", r.tenantName), ("tenantID", r.tenantID)]

theorem tenantFields_other (r : Request) {field : String} (h : field ∈ propertyFields) :
    tenantFields r field = none := by
  have hname : field ≠ "tenantName" ∧ field ≠ "tenantID" := by
    constructor <;> rintro rfl <;> simp [propertyFields] at h
  simp [tenantFields, hname.1, hname.2]

section Complete

theorem complete_registered (form : PropertyForm) : Complete (strings form.data) := by
  intro field h
  simp only [propertyFields, List.mem_cons, List.not_mem_nil, or_false] at h
  rcases h with rfl | rfl | rfl | rfl | rfl | rfl <;> simp [PropertyForm.data]

theorem Complete.named {d : Fields} (h : Complete d) (r : Request) :
    Complete ((tenantFields r).merge (some d)) := by
  intro field hf
  rw [merge_of_none (tenantFields_other r hf)]
  exact h field hf

theorem not_complete_named (r : Request) : ¬ Complete ((tenantFields r).merge none) := by
  intro h
  obtain ⟨s, hs⟩ := h "address" (by simp [propertyFields])
  rw [merge_absent] at hs
  simp [tenantFields] at hs

theorem Complete.addPayment {d : Fields} (h : Complete d) (e : Device) (ids : ℕ → DocumentId)
    (σ : Store) (L T : DocumentId) (P : String) :
    (turn e ids (addPayment L T.val P (some (some d))) σ).2 = .pure () := by
  obtain ⟨deadline, hdl⟩ := h "deadline" (by simp [propertyFields])
  obtain ⟨rent, hrent⟩ := h "rent" (by simp [propertyFields])
  have hT : document ["users"] T.val = some ["users", T.val] := user_path rfl
  simp [Zeenoc.addPayment, hdl, hrent, hT, turn]

def CompleteDocuments (σ : Store) : Prop :=
  ∀ p d, (∃ L q rest, p = "users" :: L :: "properties" :: q :: rest) → σ p = some d → Complete d

def AcceptsExisting (w : World) : World.Event → Prop
  | .tap (.accept L r) => ∀ p, document ["users", L.val, "properties"] r.propertyID = some p →
      w.store p ≠ none
  | _ => True

theorem acceptsExisting_quiet (w : World) (ev : World.Event) (h : ev.Quiet) :
    AcceptsExisting w ev := by
  unfold AcceptsExisting
  split
  · exact h.elim
  · trivial

theorem CompleteDocuments.effect {w : World} {ev : World.Event} {σ' : Store}
    (hc : AcceptsExisting w ev) (h : CompleteDocuments w.store) (he : Effect ev w.store σ') :
    CompleteDocuments σ' := by
  intro p d hp hd
  rcases he.at_property hp with hsame | ⟨L, a, form, -, rfl, rfl⟩ |
    ⟨L, T, r, rfl, -, hP, hacc⟩ | ⟨L, id, -, -, hdel⟩
  · exact h p d hp (hsame ▸ hd)
  · obtain rfl := Option.some.inj ((registered_own ..).symm.trans hd)
    exact complete_registered form
  · obtain ⟨before, hbefore⟩ := Option.ne_none_iff_exists'.mp (hc p hP)
    rw [hbefore] at hacc
    obtain rfl := Option.some.inj (hacc.symm.trans hd)
    exact (h p before hp hbefore).named r
  · rw [hdel] at hd
    cases hd

/-- The other way round, an acceptance that meets no document makes one without the six strings. -/
theorem accepted_partial {σ : Store} {L T id : DocumentId} {r : Request} {pP : ResourcePath}
    (hP : document ["users", L.val, "properties"] r.propertyID = some pP) (hσ : σ pP = none) :
    ∃ d, accepted σ r ["users", L.val, "requests", id.val] ["users", T.val] pP pP = some d ∧
      ¬ Complete d := by
  obtain ⟨q, rest, rfl⟩ := property_path hP
  refine ⟨_, named_self .., ?_⟩
  rw [paired_of_ne _ _ (by simp), removed_apply, if_neg (by simp), hσ]
  exact not_complete_named r

/-- Where acceptances find their property documents, every property document there has ever been is
complete, and no cast of a snapshot or of a payment's read fails on one. -/
theorem propertyDocuments_complete {w : World} (h : World.Reaches AcceptsExisting w) :
    ∀ σ ∈ w.store :: w.past,
      (∀ L q d, σ ["users", L, "properties", q] = some d → Complete d) ∧
      (∀ L (id : DocumentId) d, σ.collection ["users", L, "properties"] id = some d →
        ∃ p, Property.ofDocument id d = some p) ∧
      (∀ (L T : DocumentId) P p d, document ["users", L.val, "properties"] P = some p →
        σ p = some d → ∀ e ids τ,
          (turn e ids (addPayment L T.val P (some (some d))) τ).2 = .pure ()) := by
  have hinv : ∀ σ ∈ w.store :: w.past, CompleteDocuments σ := by
    refine World.Reaches.store_invariant (I := CompleteDocuments)
      (fun p d _ hd => (Option.some_ne_none d hd.symm).elim) ?_ h
    intro v ev σ' hc _ hi he
    exact hi.effect hc he
  intro σ hσ
  have hcomplete := hinv σ hσ
  refine ⟨fun L q d hd => ?_, fun L id d hd => ?_, fun L T P p d hp hd e ids τ => ?_⟩
  · exact hcomplete _ d ⟨L, q, [], rfl⟩ hd
  · exact (hcomplete _ d ⟨L, id.val, [], rfl⟩ hd).ofDocument id
  · exact (hcomplete p d (by
      obtain ⟨q, rest, rfl⟩ := property_path hp
      exact ⟨L.val, q, rest, rfl⟩) hd).addPayment e ids τ L T P

theorem accepted_own (σ : Store) :
    accepted σ tenantRequest ["users", "L", "requests", "R"] ["users", "T"]
      ["users", "L", "properties", "Q"] ["users", "L", "properties", "Q"] =
      some ((tenantFields tenantRequest).merge (σ ["users", "L", "properties", "Q"])) := by
  rw [accepted, named_self, paired_of_ne _ _ (by decide), removed_apply, if_neg (by decide)]
  rfl

/-- A property is requested and deleted, and the request accepted: the next snapshot and the
payment's read trap. -/
theorem partial_document :
    ∃ w, World.Reaches (fun _ _ => True) w ∧ ∃ d,
      w.store ["users", "L", "properties", "Q"] = some d ∧ ¬ Complete d ∧
      Property.ofDocument property d = none ∧
      ∀ e ids τ, (turn e ids (addPayment landlord "T" "Q" (some (some d))) τ).2 = .trap := by
  obtain ⟨w₁, h₁, hs₁, hmem⟩ := World.Reaches.tenant_request (C := fun _ _ => True)
    fun _ _ _ => trivial
  obtain ⟨w₂, h₂, hs₂, hq₂⟩ := h₁.after_delete landlord "Q"
    (p := ["users", "L", "properties", "Q"]) (by decide) trivial
  rw [← hq₂] at hmem
  obtain ⟨w₃, h₃, hs₃⟩ := h₂.tenant_accepted hmem trivial
  have hgone : w₂.store ["users", "L", "properties", "Q"] = none := by
    rw [hs₂]
    exact Function.update_self ..
  have hmerged : w₃.store ["users", "L", "properties", "Q"] =
      some ((tenantFields tenantRequest).merge none) := by
    rw [hs₃, accepted_own, hgone]
  refine ⟨w₃, h₃, _, hmerged, not_complete_named _, ?_, fun e ids τ => ?_⟩
  · rw [merge_absent]
    simp [Property.ofDocument, tenantFields]
  · rw [merge_absent]
    simp [addPayment, tenantFields, turn]

theorem reaches_accepted :
    ∃ w, World.Reaches AcceptsExisting w ∧ w.store ["users", "L", "properties", "Q"] =
      some ((tenantFields tenantRequest).merge (some (strings listing.data))) := by
  obtain ⟨w₁, h₁, hs₁, hmem⟩ := World.Reaches.tenant_request acceptsExisting_quiet
  have hown : w₁.store ["users", "L", "properties", "Q"] = some (strings listing.data) := by
    rw [hs₁]
    exact requestedStore_own landlord tenant property request listing
  have hc : AcceptsExisting w₁ (.tap (.accept landlord tenantRequest)) := by
    intro p hp
    obtain rfl : ["users", "L", "properties", "Q"] = p := Option.some.inj (hp ▸ by decide)
    simp [hown]
  obtain ⟨w₂, h₂, hs₂⟩ := h₁.tenant_accepted hmem hc
  refine ⟨w₂, h₂, ?_⟩
  rw [hs₂, accepted_own, hown]

theorem accepted_document_complete :
    ∃ w, World.Reaches AcceptsExisting w ∧ ∃ d,
      w.store ["users", "L", "properties", "Q"] = some d ∧
      d.getString "tenantID" = some "T" ∧ Complete d := by
  obtain ⟨w, h, hnamed⟩ := reaches_accepted
  exact ⟨w, h, _, hnamed, merge_of_some (by decide) _,
    (propertyDocuments_complete h _ List.mem_cons_self).1 _ _ _ hnamed⟩

end Complete

section Copies

/-- The listing and the landlord's own document of each property exist together and agree. -/
structure CopiesAgree (σ : Store) : Prop where
  both : ∀ L P, (∃ d, σ ["properties", P] = some d ∧ d.getString "landlord" = some L) ↔
    ∃ d, σ ["users", L, "properties", P] = some d
  agree : ∀ L P d d', σ ["properties", P] = some d → d.getString "landlord" = some L →
    σ ["users", L, "properties", P] = some d' →
    ∀ field ∈ propertyFields, d.getString field = d'.getString field

def KeepsDocuments (w : World) : World.Event → Prop
  | .tap (.accept L r) => ∀ P, document ["users", L.val, "properties"] r.propertyID =
      some ["users", L.val, "properties", P] → w.store ["users", L.val, "properties", P] ≠ none
  | .tap (.deleteTapped L id) => ∀ P, document ["users", L.val, "properties"] id =
      some ["users", L.val, "properties", P] → w.store ["users", L.val, "properties", P] = none
  | _ => True

theorem keepsDocuments_quiet (w : World) (ev : World.Event) (h : ev.Quiet) :
    KeepsDocuments w ev := by
  unfold KeepsDocuments
  split
  · exact h.elim
  · exact h.elim
  · trivial

theorem copiesAgree_empty : CopiesAgree fun _ => none :=
  ⟨fun _ _ => ⟨fun ⟨d, hd, _⟩ => (Option.some_ne_none d hd.symm).elim,
    fun ⟨d, hd⟩ => (Option.some_ne_none d hd.symm).elim⟩,
    fun _ _ d _ hd => (Option.some_ne_none d hd.symm).elim⟩

theorem CopiesAgree.congr {σ σ' : Store} (h : CopiesAgree σ)
    (hl : ∀ P, σ' ["properties", P] = σ ["properties", P])
    (hp : ∀ L P, σ' ["users", L, "properties", P] = σ ["users", L, "properties", P] ∨
      ∃ r d, σ ["users", L, "properties", P] = some d ∧
        σ' ["users", L, "properties", P] = some ((tenantFields r).merge (some d))) :
    CopiesAgree σ' := by
  refine ⟨fun L P => ?_, fun L P d d' hd hL hd' field hf => ?_⟩
  · rw [hl, h.both L P]
    rcases hp L P with hsame | ⟨r, d, hold, hnew⟩
    · rw [hsame]
    · rw [hold, hnew]
      exact ⟨fun _ => ⟨_, rfl⟩, fun _ => ⟨_, rfl⟩⟩
  · rw [hl] at hd
    rcases hp L P with hsame | ⟨r, b, hold, hnew⟩
    · exact h.agree L P d d' hd hL (hsame ▸ hd') field hf
    · obtain rfl := Option.some.inj (hnew.symm.trans hd')
      rw [merge_of_none (tenantFields_other r hf)]
      exact h.agree L P d b hd hL hold field hf

theorem CopiesAgree.register {σ : Store} (h : CopiesAgree σ) (L a : DocumentId)
    (form : PropertyForm) (ha : FreshId σ a) : CopiesAgree (registered σ L a form) := by
  have hlanded : (strings (form.data ++ [("landlord", L.val)])).getString "landlord" =
      some L.val := by simp [PropertyForm.data]
  have hother : ∀ L', L' ≠ L.val →
      registered σ L a form ["users", L', "properties", a.val] = none := by
    intro L' hne
    rw [registered_of_ne (by simp) (by simpa using hne)]
    exact ha _ (by simp)
  have hrest : ∀ P, P ≠ a.val →
      registered σ L a form ["properties", P] = σ ["properties", P] ∧
      ∀ L', registered σ L a form ["users", L', "properties", P] =
        σ ["users", L', "properties", P] := by
    intro P hne
    exact ⟨registered_of_ne (by simpa using hne) (by simp),
      fun L' => registered_of_ne (by simp) (by simp [hne])⟩
  refine ⟨fun L' P => ?_, fun L' P d d' hd hL hd' field hf => ?_⟩
  · by_cases hP : P = a.val
    · subst hP
      constructor
      · rintro ⟨d, hd, hL⟩
        obtain rfl := Option.some.inj ((registered_listing ..).symm.trans hd)
        obtain rfl := Option.some.inj (hlanded.symm.trans hL)
        exact ⟨_, registered_own ..⟩
      · rintro ⟨d, hd⟩
        by_cases hL : L' = L.val
        · subst hL
          exact ⟨_, registered_listing .., hlanded⟩
        · rw [hother L' hL] at hd
          cases hd
    · rw [(hrest P hP).1, (hrest P hP).2]
      exact h.both L' P
  · by_cases hP : P = a.val
    · subst hP
      obtain rfl := Option.some.inj ((registered_listing ..).symm.trans hd)
      obtain rfl := Option.some.inj (hlanded.symm.trans hL)
      obtain rfl := Option.some.inj ((registered_own ..).symm.trans hd')
      simp only [propertyFields, List.mem_cons, List.not_mem_nil, or_false] at hf
      rcases hf with rfl | rfl | rfl | rfl | rfl | rfl <;> simp [PropertyForm.data]
    · rw [(hrest P hP).1] at hd
      rw [(hrest P hP).2] at hd'
      exact h.agree L' P d d' hd hL hd' field hf

theorem CopiesAgree.effect {w : World} {ev : World.Event} {σ' : Store} (hc : KeepsDocuments w ev)
    (h : CopiesAgree w.store) (he : Effect ev w.store σ') : CopiesAgree σ' := by
  by_cases hreg : ∃ L a form, FreshId w.store a ∧ σ' = registered w.store L a form
  · obtain ⟨L, a, form, ha, rfl⟩ := hreg
    exact h.register L a form ha
  · -- the listings stay, and a landlord's document stays or is merged into
    refine h.congr (fun P => ?_) (fun L P => ?_)
    · rcases he.at_listing [P] with hsame | ⟨L, a, form, ha, -, hσ'⟩
      · exact hsame
      · exact (hreg ⟨L, a, form, ha, hσ'⟩).elim
    · rcases he.at_property ⟨L, P, [], rfl⟩ with hsame | ⟨L', a, form, ha, -, hσ'⟩ |
        ⟨L', T, r, rfl, -, hP, hacc⟩ | ⟨L', id, rfl, hp, hdel⟩
      · exact .inl hsame
      · exact (hreg ⟨L', a, form, ha, hσ'⟩).elim
      · obtain ⟨q, rest, hq⟩ := property_path hP
        obtain rfl : L = L'.val := by simpa using (List.cons.inj (List.cons.inj hq).2).1
        obtain ⟨d, hd⟩ := Option.ne_none_iff_exists'.mp (hc P hP)
        rw [hd] at hacc
        exact .inr ⟨r, d, hd, hacc⟩
      · obtain ⟨q, rest, hq⟩ := property_path hp
        obtain rfl : L = L'.val := by simpa using (List.cons.inj (List.cons.inj hq).2).1
        exact .inl (hdel.trans (hc P hp).symm)

theorem copies_agree {w : World} (h : World.Reaches KeepsDocuments w) :
    ∀ σ ∈ w.store :: w.past, CopiesAgree σ :=
  World.Reaches.store_invariant copiesAgree_empty (fun _ _ _ hc _ hi he => hi.effect hc he) h

theorem listing_outlives_property :
    ∃ w, World.Reaches (fun _ _ => True) w ∧ ¬ CopiesAgree w.store ∧
      w.store ["users", "L", "properties", "Q"] = none ∧
      w.store ["users", "L", "requests", "N"] = some (requestData tenant "Q" "A" "F N") := by
  obtain ⟨w₁, h₁, hs₁, -⟩ := World.Reaches.tenant_request (C := fun _ _ => True)
    fun _ _ _ => trivial
  obtain ⟨w₂, h₂, hs₂, -⟩ := h₁.after_delete landlord "Q"
    (p := ["users", "L", "properties", "Q"]) (by decide) trivial
  rw [hs₁] at hs₂
  have hfresh : FreshId w₂.store newId := by
    rw [hs₂]
    exact (((((freshId_empty newId).update (by decide) _).update (by decide) _).update
      (by decide) _).update (by decide) _).update (by decide) _
  -- the tenant asks a second time, after the deletion
  obtain ⟨w₃, h₃, hs₃, -⟩ := h₂.after_request tenant landlord newId "Q"
    (p := ["properties", "Q"]) (fun _ => ⟨trivial, trivial, trivial⟩) (by rw [hs₂]; rfl)
    (by decide : _ = some "F") (by decide : _ = some "N") (by decide) (by rw [hs₂]; rfl)
    (by decide) (by decide : _ = some "A") hfresh
  have hgone : w₃.store ["users", "L", "properties", "Q"] = none := by
    rw [hs₃, hs₂]
    rfl
  have hlisted : w₃.store ["properties", "Q"] =
      some (strings (listing.data ++ [("landlord", "L")])) := by
    rw [hs₃, hs₂]
    rfl
  refine ⟨w₃, h₃, fun hagree => ?_, hgone, by rw [hs₃]; exact Function.update_self ..⟩
  obtain ⟨d, hd⟩ := (hagree.both "L" "Q").mp ⟨_, hlisted, by decide⟩
  rw [hgone] at hd
  cases hd

theorem requested_copies_agree :
    ∃ w, World.Reaches KeepsDocuments w ∧ w.store = requestedStore landlord tenant property
      request listing ∧ CopiesAgree w.store := by
  obtain ⟨w, h, hs, -⟩ := World.Reaches.tenant_request keepsDocuments_quiet
  exact ⟨w, h, hs, copies_agree h _ List.mem_cons_self⟩

end Copies
end Zeenoc
