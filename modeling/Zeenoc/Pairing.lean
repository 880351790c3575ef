import Zeenoc.PropertyDocuments

/-! The pairing of tenants with properties, which the tenant's user document and the landlord's
property document record separately. -/

namespace Zeenoc
open Firestore Interleaving Prog

def Paired (σ : Store) (T P : String) : Prop :=
  ∃ d, σ ["users", T] = some d ∧ d.getString "paired" = some "true" ∧
    d.getString "properyID" = some P

def TenantOf (σ : Store) (L Q T : String) : Prop :=
  ∃ d, σ ["users", L, "properties", Q] = some d ∧ d.getString "tenantID" = some T

/-- Each paired tenant has one property document, under the id that it is paired with, and shares
that id with no other paired tenant. -/
def OneToOne (σ : Store) : Prop :=
  ∀ T P, Paired σ T P →
    (∃ L, TenantOf σ L P T ∧ ∀ L' Q, TenantOf σ L' Q T → L' = L ∧ Q = P) ∧
    ∀ T', Paired σ T' P → T' = T

section Effects
variable {σ : Store} {L T id : DocumentId} {r : Request}

theorem paired_userData {u : DocumentId} {type firstName lastName email : String} :
    (userData u type firstName lastName email).getString "paired" = some "false" := by
  simp [userData]

theorem Paired.effect {ev : World.Event} {σ' : Store} (he : Effect ev σ σ') {T P : String}
    (h : Paired σ' T P) :
    Paired σ T P ∨ ∃ L r, ev = .tap (.accept L r) ∧ r.tenantID = T ∧ r.propertyID = P := by
  obtain ⟨d, hd, hpaired, hP⟩ := h
  rcases he.at_user T with hsame | ⟨u, type, firstName, lastName, email, -, -, hnew⟩ |
    ⟨L, r, hev, hT, hnew⟩
  · exact .inl ⟨d, hsame ▸ hd, hpaired, hP⟩
  · obtain rfl := Option.some.inj (hnew.symm.trans hd)
    rw [paired_userData] at hpaired
    simp at hpaired
  · obtain rfl := Option.some.inj (hnew.symm.trans hd)
    rw [merge_of_some (by simp : _ = some r.propertyID)] at hP
    exact .inr ⟨L, r, hev, hT, Option.some.inj hP⟩

theorem TenantOf.effect {ev : World.Event} {σ' : Store} (he : Effect ev σ σ') {L Q T : String}
    (h : TenantOf σ' L Q T) : TenantOf σ L Q T ∨ ∃ L' r, ev = .tap (.accept L' r) := by
  obtain ⟨d, hd, hT⟩ := h
  rcases he.at_property ⟨L, Q, [], rfl⟩ with hsame | ⟨L', a, form, -, hp, rfl⟩ |
    ⟨L', T', r, hev, -⟩ | ⟨L', id, -, -, hdel⟩
  · exact .inl ⟨d, hsame ▸ hd, hT⟩
  · rw [hp, registered_own] at hd
    obtain rfl := Option.some.inj hd
    simp [PropertyForm.data] at hT
  · exact .inr ⟨L', r, hev⟩
  · rw [hdel] at hd
    cases hd

theorem TenantOf.kept {ev : World.Event} {σ' : Store} (he : Effect ev σ σ') {L Q T : String}
    (h : TenantOf σ L Q T) :
    TenantOf σ' L Q T ∨ (∃ L' r, ev = .tap (.accept L' r)) ∨
      ∃ L' id, ev = .tap (.deleteTapped L' id) ∧ L = L'.val ∧
        document ["users", L'.val, "properties"] id = some ["users", L, "properties", Q] := by
  obtain ⟨d, hd, hT⟩ := h
  rcases he.at_property ⟨L, Q, [], rfl⟩ with hsame | ⟨L', a, form, ha, hp, -⟩ |
    ⟨L', T', r, hev, -⟩ | ⟨L', id, hev, hp, -⟩
  · exact .inl ⟨d, hsame.trans hd, hT⟩
  · rw [hp, ha _ (by simp)] at hd
    cases hd
  · exact .inr (.inl ⟨L', r, hev⟩)
  · obtain ⟨q, rest, hq⟩ := property_path hp
    have hL : L = L'.val := (List.cons.inj (List.cons.inj hq).2).1
    exact .inr (.inr ⟨L', id, hev, hL, hp⟩)

end Effects

section Acceptance
variable (σ : Store) (r : Request) (L T id : DocumentId)

theorem paired_accepted (hT : r.tenantID = T.val) (P : String) (T' : String) :
    Paired (accepted σ r ["users", L.val, "requests", id.val] ["users", T.val]
      ["users", L.val, "properties", r.propertyID]) T' P ↔
      if T' = r.tenantID then P = r.propertyID else Paired σ T' P := by
  rw [hT]
  by_cases hT' : T' = T.val
  · subst hT'
    rw [if_pos rfl]
    have huser : accepted σ r ["users", L.val, "requests", id.val] ["users", T.val]
        ["users", L.val, "properties", r.propertyID] ["users", T.val] =
        some ((strings [("paired", "true"), ("properyID", r.propertyID)]).merge
          (σ ["users", T.val])) := by
      unfold accepted
      rw [named_of_ne _ _ _ (by simp), paired_self, removed_apply, if_neg (by simp)]
    constructor
    · rintro ⟨d, hd, -, hP⟩
      obtain rfl := Option.some.inj (huser.symm.trans hd)
      rw [merge_of_some (by simp : _ = some r.propertyID)] at hP
      exact (Option.some.inj hP).symm
    · rintro rfl
      exact ⟨_, huser, merge_of_some (by simp) _, merge_of_some (by simp) _⟩
  · rw [if_neg hT', Paired, Paired, accepted_of_ne (by simp) (by simpa using hT') (by simp)]

theorem tenantOf_accepted (L' Q T' : String) :
    TenantOf (accepted σ r ["users", L.val, "requests", id.val] ["users", T.val]
      ["users", L.val, "properties", r.propertyID]) L' Q T' ↔
      if L' = L.val ∧ Q = r.propertyID then T' = r.tenantID else TenantOf σ L' Q T' := by
  by_cases hp : L' = L.val ∧ Q = r.propertyID
  · obtain ⟨rfl, rfl⟩ := hp
    rw [if_pos ⟨rfl, rfl⟩]
    have hown := named_self (paired (removed σ ["users", L.val, "requests", id.val])
      ["users", T.val] r.propertyID) ["users", L.val, "properties", r.propertyID] r.tenantName
      r.tenantID
    constructor
    · rintro ⟨d, hd, hT⟩
      obtain rfl := Option.some.inj (hown.symm.trans hd)
      rw [merge_of_some (by simp : _ = some r.tenantID)] at hT
      exact (Option.some.inj hT).symm
    · rintro rfl
      exact ⟨_, hown, merge_of_some (by simp) _⟩
  · have hne : ["users", L', "properties", Q] ≠ ["users", L.val, "properties", r.propertyID] := by
      simpa using hp
    rw [if_neg hp, TenantOf, TenantOf, accepted_of_ne (by simp) (by simp) hne]

theorem OneToOne.accept (hT : r.tenantID = T.val) (h : OneToOne σ)
    (hfree : ∀ L' Q, TenantOf σ L' Q r.tenantID → L' = L.val ∧ Q = r.propertyID)
    (hother : ∀ T', Paired σ T' r.propertyID → T' = r.tenantID) :
    OneToOne (accepted σ r ["users", L.val, "requests", id.val] ["users", T.val]
      ["users", L.val, "properties", r.propertyID]) := by
  intro T₀ P₀ hpaired
  rw [paired_accepted σ r L T id hT] at hpaired
  by_cases hT₀ : T₀ = r.tenantID
  · rw [if_pos hT₀] at hpaired
    subst hT₀ hpaired
    refine ⟨⟨L.val, ?_, fun L' Q hten => ?_⟩, fun T' hT' => ?_⟩
    · rw [tenantOf_accepted, if_pos ⟨rfl, rfl⟩]
    · rw [tenantOf_accepted] at hten
      split_ifs at hten with hp
      · exact hp
      · exact hfree L' Q hten
    · rw [paired_accepted σ r L T id hT] at hT'
      split_ifs at hT' with h'
      · exact h'
      · exact hother T' hT'
  · rw [if_neg hT₀] at hpaired
    -- the accepted property is not the one of another paired tenant
    have hne : P₀ ≠ r.propertyID := by
      rintro rfl
      exact hT₀ (hother T₀ hpaired)
    obtain ⟨⟨L₀, hL₀, huniq⟩, honly⟩ := h T₀ P₀ hpaired
    refine ⟨⟨L₀, ?_, fun L' Q hten => ?_⟩, fun T' hT' => ?_⟩
    · rw [tenantOf_accepted, if_neg fun hp => hne hp.2]
      exact hL₀
    · rw [tenantOf_accepted] at hten
      split_ifs at hten with hp
      · exact absurd hten hT₀
      · exact huniq L' Q hten
    · rw [paired_accepted σ r L T id hT] at hT'
      split_ifs at hT' with h'
      · exact absurd hT' hne
      · exact honly T' hT'

end Acceptance

/-- An acceptance names a document of the landlord by its very id, its tenant is not on another
property, and no other tenant is paired with that id; a deletion hits nobody's property. -/
def KeepsPairing (w : World) : World.Event → Prop
  | .tap (.accept L r) =>
    document ["users", L.val, "properties"] r.propertyID =
      some ["users", L.val, "properties", r.propertyID] ∧
    (∀ L' Q, TenantOf w.store L' Q r.tenantID → L' = L.val ∧ Q = r.propertyID) ∧
    ∀ T', Paired w.store T' r.propertyID → T' = r.tenantID
  | .tap (.deleteTapped L id) => ∀ Q T P, document ["users", L.val, "properties"] id =
      some ["users", L.val, "properties", Q] → TenantOf w.store L.val Q T → ¬ Paired w.store T P
  | _ => True

theorem keepsPairing_quiet (w : World) (ev : World.Event) (h : ev.Quiet) :
    KeepsPairing w ev := by
  unfold KeepsPairing
  split
  · exact h.elim
  · exact h.elim
  · trivial

theorem OneToOne.of_kept {σ σ' : Store} (h : OneToOne σ)
    (hpaired : ∀ T P, Paired σ' T P → Paired σ T P)
    (hten : ∀ T P, Paired σ T P → ∀ L Q, TenantOf σ' L Q T ↔ TenantOf σ L Q T) :
    OneToOne σ' := by
  intro T P hT
  have hT := hpaired T P hT
  obtain ⟨⟨L, hL, huniq⟩, honly⟩ := h T P hT
  refine ⟨⟨L, (hten T P hT L P).mpr hL, fun L' Q h' => ?_⟩, fun T' h' => ?_⟩
  · exact huniq L' Q ((hten T P hT L' Q).mp h')
  · exact honly T' (hpaired T' P h')

theorem OneToOne.effect {w : World} {ev : World.Event} {σ' : Store} (hc : KeepsPairing w ev)
    (h : OneToOne w.store) (he : Effect ev w.store σ') : OneToOne σ' := by
  by_cases hacc : ∃ L r, ev = .tap (.accept L r)
  · obtain ⟨L, r, rfl⟩ := hacc
    obtain ⟨hP, hfree, hother⟩ := hc
    cases he with
    | same => exact h
    | accept L id T r pP hid hT hP' =>
      obtain rfl := Option.some.inj (hP'.symm.trans hP)
      exact h.accept w.store r L T id hT hfree hother
    | acceptTrapped L id T r hid hT hP' =>
      rw [hP'] at hP
      cases hP
  · -- no acceptance: only a deletion could take the property of a paired tenant
    refine h.of_kept (fun T P hT => ?_) (fun T P hT L Q => ⟨fun h' => ?_, fun h' => ?_⟩)
    · rcases hT.effect he with hT | ⟨L, r, hev, -⟩
      · exact hT
      · exact (hacc ⟨L, r, hev⟩).elim
    · rcases h'.effect he with h' | hev
      · exact h'
      · exact (hacc hev).elim
    · rcases h'.kept he with h' | hev | ⟨L', id, rfl, rfl, hp⟩
      · exact h'
      · exact (hacc hev).elim
      · exact (hc Q T P hp h' hT).elim

theorem pairing_oneToOne {w : World} (h : World.Reaches KeepsPairing w) :
    ∀ σ ∈ w.store :: w.past, OneToOne σ := by
  refine World.Reaches.store_invariant (fun T P hT => ?_)
    (fun _ _ _ hc _ hi he => hi.effect hc he) h
  obtain ⟨d, hd, -⟩ := hT
  cases hd

theorem nobody_paired {w : World} (h : World.Reaches (fun _ ev => ev.Quiet) w) :
    (∀ T P, ¬ Paired w.store T P) ∧ ∀ L Q T, ¬ TenantOf w.store L Q T := by
  refine World.Reaches.store_invariant (C := fun _ ev => ev.Quiet)
    (I := fun σ => (∀ T P, ¬ Paired σ T P) ∧ ∀ L Q T, ¬ TenantOf σ L Q T)
    ⟨fun T P => ?_, fun L Q T => ?_⟩
    (fun v ev σ' hev _ hi he => ⟨fun T P hT => ?_, fun L Q T hT => ?_⟩)
    h _ List.mem_cons_self
  · rintro ⟨d, hd, -⟩
    cases hd
  · rintro ⟨d, hd, -⟩
    cases hd
  · rcases hT.effect he with hT | ⟨L, r, rfl, -⟩
    · exact hi.1 T P hT
    · exact hev
  · rcases hT.effect he with hT | ⟨L', r, rfl⟩
    · exact hi.2 L Q T hT
    · exact hev

/-- The landlord accepts a request and then deletes the property: the tenant stays paired. -/
theorem paired_without_property :
    ∃ w, World.Reaches (fun _ _ => True) w ∧ Paired w.store "T" "Q" ∧
      (∀ L, ¬ TenantOf w.store L "Q" "T") ∧ ¬ OneToOne w.store := by
  obtain ⟨w₁, h₁, hs₁, hmem⟩ := World.Reaches.tenant_request (C := fun _ ev => ev.Quiet)
    fun _ _ h => h
  have hany : World.Reaches (fun _ _ => True) w₁ := h₁.mono fun _ _ _ => trivial
  obtain ⟨w₂, h₂, hs₂⟩ := hany.tenant_accepted hmem trivial
  obtain ⟨w₃, h₃, hs₃, -⟩ := h₂.after_delete landlord "Q"
    (p := ["users", "L", "properties", "Q"]) (by decide) trivial
  have hpaired : Paired w₃.store "T" "Q" := by
    rw [hs₃, hs₂, hs₁]
    exact ⟨_, rfl, by decide, by decide⟩
  have hnone : ∀ L, ¬ TenantOf w₃.store L "Q" "T" := by
    rintro L ⟨d, hd, hT⟩
    rw [hs₃] at hd
    by_cases hL : L = "L"
    · rw [hL, Function.update_self] at hd
      cases hd
    · rw [Function.update_of_ne (by simpa using hL), hs₂] at hd
      have hten := (tenantOf_accepted w₁.store tenantRequest landlord tenant request L "Q" "T").mp
        ⟨d, hd, hT⟩
      rw [if_neg (fun h => hL h.1)] at hten
      exact (nobody_paired h₁).2 L "Q" "T" hten
  refine ⟨w₃, h₃, hpaired, hnone, fun h => ?_⟩
  obtain ⟨⟨L, hL, -⟩, -⟩ := h "T" "Q" hpaired
  exact hnone L hL

theorem accepted_oneToOne :
    ∃ w, World.Reaches KeepsPairing w ∧ Paired w.store "T" "Q" ∧ OneToOne w.store := by
  obtain ⟨w₁, h₁, hs₁, hmem⟩ := World.Reaches.tenant_request (C := fun _ ev => ev.Quiet)
    fun _ _ h => h
  have hc : KeepsPairing w₁ (.tap (.accept landlord tenantRequest)) :=
    ⟨by decide, fun L Q hten => ((nobody_paired h₁).2 L Q _ hten).elim,
      fun T hT => ((nobody_paired h₁).1 T _ hT).elim⟩
  have hkeeps : World.Reaches KeepsPairing w₁ := h₁.mono keepsPairing_quiet
  obtain ⟨w₂, h₂, hs₂⟩ := hkeeps.tenant_accepted hmem hc
  refine ⟨w₂, h₂, ?_, pairing_oneToOne h₂ _ List.mem_cons_self⟩
  rw [hs₂, hs₁]
  exact ⟨_, rfl, by decide, by decide⟩

end Zeenoc
