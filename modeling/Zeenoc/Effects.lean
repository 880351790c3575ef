import Zeenoc.Acceptance
import Zeenoc.World

/-! What any step of the world can do to the store. Every invariant of the store is proved from
`effect_of_step` by cases, without looking at the programs again. -/

namespace Zeenoc
open Firestore Interleaving

/-- The changes of the store, by the event that makes them; each event may also leave it alone. -/
inductive Effect : World.Event → Store → Store → Prop
  | same {σ : Store} (ev : World.Event) : Effect ev σ σ
  | signUp {σ : Store} (u : DocumentId) (type firstName lastName email : String) :
      Effect (.tap (.signUpCompleted firstName lastName email)) σ
        (Function.update σ ["users", u.val] (some (userData u type firstName lastName email)))
  | register {σ : Store} (L a : DocumentId) (form : PropertyForm) (ha : FreshId σ a) :
      Effect (.tap (.registerTapped L form)) σ (registered σ L a form)
  | accept {σ : Store} (L id T : DocumentId) (r : Request) (pP : ResourcePath) (hid : r.id = id.val)
      (hT : r.tenantID = T.val)
      (hP : document ["users", L.val, "properties"] r.propertyID = some pP) :
      Effect (.tap (.accept L r)) σ
        (accepted σ r ["users", L.val, "requests", id.val] ["users", T.val] pP)
  -- the property string denotes nothing: the action traps after two of its writes
  | acceptTrapped {σ : Store} (L id T : DocumentId) (r : Request) (hid : r.id = id.val)
      (hT : r.tenantID = T.val)
      (hP : document ["users", L.val, "properties"] r.propertyID = none) :
      Effect (.tap (.accept L r)) σ
        (paired (removed σ ["users", L.val, "requests", id.val]) ["users", T.val] r.propertyID)
  | decline {σ : Store} (L id : DocumentId) (r : Request) :
      Effect (.tap (.decline L r)) σ (removed σ ["users", L.val, "requests", id.val])
  | delete {σ : Store} (L : DocumentId) (id : String) (p : ResourcePath)
      (hp : document ["users", L.val, "properties"] id = some p) :
      Effect (.tap (.deleteTapped L id)) σ (Function.update σ p none)
  | request {σ : Store} (L T a : DocumentId) (P address name : String) (ha : FreshId σ a) :
      Effect .callback σ (Function.update σ ["users", L.val, "requests", a.val]
        (some (requestData T P address name)))
  | payment {σ : Store} (L T a : DocumentId) (P deadline rent : String) (ha : FreshId σ a) :
      Effect .callback σ (Function.update σ ["users", T.val, "payments", a.val]
        (some (paymentData L T.val P deadline rent)))

/-- What the later reads of the app count on: requests name a tenant, listings a landlord. -/
structure Typed (σ : Store) : Prop where
  request : ∀ L R d, σ ["users", L, "requests", R] = some d →
    ∃ T : DocumentId, d.getString "tenantID" = some T.val
  listing : ∀ p d, σ ("properties" :: p) = some d →
    ∃ L : DocumentId, d.getString "landlord" = some L.val

theorem typed_empty : Typed (fun _ => none) :=
  ⟨fun _ _ _ h => (Option.some_ne_none _ h.symm).elim,
    fun _ _ h => (Option.some_ne_none _ h.symm).elim⟩

theorem property_path {L s : String} {p : ResourcePath}
    (h : document ["users", L, "properties"] s = some p) :
    ∃ q rest, p = "users" :: L :: "properties" :: q :: rest := by
  obtain ⟨q, rest, rfl⟩ := document_ne_nil (by simp) h
  exact ⟨q, rest, rfl⟩

theorem request_path (L : DocumentId) {s : String} {id : DocumentId} (h : s = id.val) :
    document ["users", L.val, "requests"] s = some ["users", L.val, "requests", id.val] := by
  rw [h]
  exact document_id (by simp) id

theorem user_path {s : String} {u : DocumentId} (h : s = u.val) :
    document ["users"] s = some ["users", u.val] := by
  rw [h]
  exact document_id (by simp) u

theorem registered_of_ne {σ : Store} {L a : DocumentId} {form : PropertyForm} {p : ResourcePath}
    (hl : p ≠ ["properties", a.val]) (hp : p ≠ ["users", L.val, "properties", a.val]) :
    registered σ L a form p = σ p := by
  unfold registered
  rw [Function.update_of_ne hl, Function.update_of_ne hp]

theorem registered_listing (σ : Store) (L a : DocumentId) (form : PropertyForm) :
    registered σ L a form ["properties", a.val] =
      some (strings (form.data ++ [("landlord", L.val)])) := Function.update_self ..

theorem registered_own (σ : Store) (L a : DocumentId) (form : PropertyForm) :
    registered σ L a form ["users", L.val, "properties", a.val] = some (strings form.data) := by
  unfold registered
  rw [Function.update_of_ne (by simp), Function.update_self]

theorem accepted_of_ne {σ : Store} {r : Request} {pR pT pP p : ResourcePath} (hR : p ≠ pR)
    (hT : p ≠ pT) (hP : p ≠ pP) : accepted σ r pR pT pP p = σ p := by
  unfold accepted
  rw [named_of_ne _ _ _ hP, paired_of_ne _ _ hT, removed_apply, if_neg hR]

theorem Effect.request_or {ev : World.Event} {σ σ' : Store} (h : Effect ev σ σ') {L R : String}
    {d : Fields} (hd : σ' ["users", L, "requests", R] = some d) :
    σ ["users", L, "requests", R] = some d ∨ (ev = .callback ∧
      ∃ (T : DocumentId) (P address name : String), d = requestData T P address name) := by
  cases h with
  | same => exact .inl hd
  | signUp => exact .inl (by simpa [Function.update_apply] using hd)
  | register => exact .inl (by rwa [registered_of_ne (by simp) (by simp)] at hd)
  | accept L' id T r pP hid hT hP =>
    obtain ⟨q, rest, rfl⟩ := property_path hP
    unfold accepted at hd
    rw [named_of_ne _ _ _ (by simp), paired_of_ne _ _ (by simp), removed_apply] at hd
    split_ifs at hd
    exact .inl hd
  | acceptTrapped L' id T r hid hT hP =>
    rw [paired_of_ne _ _ (by simp), removed_apply] at hd
    split_ifs at hd
    exact .inl hd
  | decline L' id r =>
    rw [removed_apply] at hd
    split_ifs at hd
    exact .inl hd
  | delete L' id p hp =>
    obtain ⟨q, rest, rfl⟩ := property_path hp
    exact .inl (by simpa [Function.update_apply] using hd)
  | request L' T a P address name ha =>
    rw [Function.update_apply] at hd
    split_ifs at hd
    · exact .inr ⟨rfl, T, P, address, name, (Option.some.inj hd).symm⟩
    · exact .inl hd
  | payment => exact .inl (by simpa [Function.update_apply] using hd)

theorem Effect.at_payment {a : Action} {σ σ' : Store} (h : Effect (.tap a) σ σ') (T P : String) :
    σ' ["users", T, "payments", P] = σ ["users", T, "payments", P] := by
  cases h with
  | same => rfl
  | signUp => simp
  | register => exact registered_of_ne (by simp) (by simp)
  | accept L id T' r pP hid hT hP =>
    obtain ⟨q, rest, rfl⟩ := property_path hP
    exact accepted_of_ne (by simp) (by simp) (by simp)
  | acceptTrapped => simp [paired_of_ne, removed_apply]
  | decline => simp [removed_apply]
  | delete L id p hp =>
    obtain ⟨q, rest, rfl⟩ := property_path hp
    simp

theorem Effect.at_listing {ev : World.Event} {σ σ' : Store} (h : Effect ev σ σ')
    (p : ResourcePath) : σ' ("properties" :: p) = σ ("properties" :: p) ∨
      ∃ (L a : DocumentId) (form : PropertyForm), FreshId σ a ∧ p = [a.val] ∧
        σ' = registered σ L a form := by
  cases h with
  | same => exact .inl rfl
  | signUp => exact .inl (by simp)
  | register L a form ha =>
    by_cases hp : p = [a.val]
    · exact .inr ⟨L, a, form, ha, hp, rfl⟩
    · exact .inl (registered_of_ne (by simpa using hp) (by simp))
  | accept L' id T r pP hid hT hP =>
    obtain ⟨q, rest, rfl⟩ := property_path hP
    exact .inl (accepted_of_ne (by simp) (by simp) (by simp))
  | acceptTrapped => exact .inl (by simp [paired_of_ne, removed_apply])
  | decline => exact .inl (by simp [removed_apply])
  | delete L' id p' hp =>
    obtain ⟨q, rest, rfl⟩ := property_path hp
    exact .inl (by simp)
  | request => exact .inl (by simp)
  | payment => exact .inl (by simp)

theorem Effect.at_property {ev : World.Event} {σ σ' : Store} (h : Effect ev σ σ')
    {p : ResourcePath} (hp : ∃ L q rest, p = "users" :: L :: "properties" :: q :: rest) :
    σ' p = σ p ∨
    (∃ (L a : DocumentId) (form : PropertyForm), FreshId σ a ∧
      p = ["users", L.val, "properties", a.val] ∧ σ' = registered σ L a form) ∨
    (∃ (L T : DocumentId) (r : Request), ev = .tap (.accept L r) ∧ r.tenantID = T.val ∧
      document ["users", L.val, "properties"] r.propertyID = some p ∧
      σ' p = some ((strings [("tenantName", r.tenantName), ("tenantID", r.tenantID)]).merge
        (σ p))) ∨
    (∃ (L : DocumentId) (id : String), ev = .tap (.deleteTapped L id) ∧
      document ["users", L.val, "properties"] id = some p ∧ σ' p = none) := by
  obtain ⟨L₀, q₀, rest₀, rfl⟩ := hp
  cases h with
  | same => exact .inl rfl
  | signUp => exact .inl (by simp)
  | register L a form ha =>
    by_cases hp : "users" :: L₀ :: "properties" :: q₀ :: rest₀ =
        ["users", L.val, "properties", a.val]
    · exact .inr (.inl ⟨L, a, form, ha, hp, rfl⟩)
    · exact .inl (registered_of_ne (by simp) hp)
  | accept L id T r pP hid hT hP =>
    unfold accepted
    by_cases hp : "users" :: L₀ :: "properties" :: q₀ :: rest₀ = pP
    · subst hp
      have hbefore : paired (removed σ ["users", L.val, "requests", id.val]) ["users", T.val]
          r.propertyID ("users" :: L₀ :: "properties" :: q₀ :: rest₀) =
          σ ("users" :: L₀ :: "properties" :: q₀ :: rest₀) := by
        rw [paired_of_ne _ _ (by simp), removed_apply, if_neg (by simp)]
      refine .inr (.inr (.inl ⟨L, T, r, rfl, hT, hP, ?_⟩))
      rw [named_self, hbefore]
    · rw [named_of_ne _ _ _ hp, paired_of_ne _ _ (by simp), removed_apply, if_neg (by simp)]
      exact .inl rfl
  | acceptTrapped => exact .inl (by simp [paired_of_ne, removed_apply])
  | decline => exact .inl (by simp [removed_apply])
  | delete L id p hp =>
    by_cases hpp : "users" :: L₀ :: "properties" :: q₀ :: rest₀ = p
    · subst hpp
      exact .inr (.inr (.inr ⟨L, id, rfl, hp, Function.update_self ..⟩))
    · exact .inl (Function.update_of_ne hpp _ _)
  | request => exact .inl (by simp)
  | payment => exact .inl (by simp)

theorem Effect.at_user {ev : World.Event} {σ σ' : Store} (h : Effect ev σ σ') (u : String) :
    σ' ["users", u] = σ ["users", u] ∨
    (∃ (v : DocumentId) (type firstName lastName email : String), u = v.val ∧
      ev = .tap (.signUpCompleted firstName lastName email) ∧
      σ' ["users", u] = some (userData v type firstName lastName email)) ∨
    (∃ (L : DocumentId) (r : Request), ev = .tap (.accept L r) ∧ r.tenantID = u ∧
      σ' ["users", u] = some ((strings [("paired", "true"), ("properyID", r.propertyID)]).merge
        (σ ["users", u]))) := by
  cases h with
  | same => exact .inl rfl
  | signUp v type firstName lastName email =>
    by_cases hu : u = v.val
    · subst hu
      exact .inr (.inl ⟨v, type, firstName, lastName, email, rfl, rfl, Function.update_self ..⟩)
    · exact .inl (by simp [hu])
  | register => exact .inl (registered_of_ne (by simp) (by simp))
  | accept L id T r pP hid hT hP =>
    obtain ⟨q, rest, rfl⟩ := property_path hP
    unfold accepted
    rw [named_of_ne _ _ _ (by simp)]
    by_cases hu : u = T.val
    · subst hu
      refine .inr (.inr ⟨L, r, rfl, hT, ?_⟩)
      rw [paired_self, removed_apply, if_neg (by simp)]
    · exact .inl (by simp [paired_of_ne, removed_apply, hu])
  | acceptTrapped L id T r hid hT hP =>
    by_cases hu : u = T.val
    · subst hu
      refine .inr (.inr ⟨L, r, rfl, hT, ?_⟩)
      rw [paired_self, removed_apply, if_neg (by simp)]
    · exact .inl (by simp [paired_of_ne, removed_apply, hu])
  | decline => exact .inl (by simp [removed_apply])
  | delete L id p hp =>
    obtain ⟨q, rest, rfl⟩ := property_path hp
    exact .inl (by simp)
  | request => exact .inl (by simp)
  | payment => exact .inl (by simp)

theorem Typed.effect {ev : World.Event} {σ σ' : Store} (h : Typed σ) (he : Effect ev σ σ') :
    Typed σ' := by
  refine ⟨fun L R d hd => ?_, fun p d hd => ?_⟩
  · rcases he.request_or hd with hd | ⟨-, T, P, address, name, rfl⟩
    · exact h.request L R d hd
    · exact ⟨T, by simp [requestData]⟩
  · rcases he.at_listing p with hp | ⟨L, a, form, -, rfl, rfl⟩
    · exact h.listing p d (hp ▸ hd)
    · obtain rfl := Option.some.inj ((registered_listing σ L a form).symm.trans hd)
      exact ⟨L, by simp [PropertyForm.data]⟩

theorem document_listing {P : String} {p : ResourcePath} (h : document ["properties"] P = some p) :
    ∃ sub, p = "properties" :: sub := by
  obtain ⟨sub, -, rfl, -⟩ := document_eq_append h
  exact ⟨sub, rfl⟩

section Callbacks
variable {Q : Protocol ResourcePath Fields DocumentId} {σ : Store} {doc : Option (Option Fields)}

theorem safe_addPayment {L T : DocumentId} {P : String} (hσ : Q.Inv σ)
    (hpay : ∀ d deadline rent, doc = some (some d) → d.getString "deadline" = some deadline →
      d.getString "rent" = some rent → ∀ a, Q.Fresh σ a →
      Q.Inv (Function.update σ ["users", T.val, "payments", a.val]
        (some (paymentData L T.val P deadline rent))) ∧
      Q.Guar σ (Function.update σ ["users", T.val, "payments", a.val]
        (some (paymentData L T.val P deadline rent)))) :
    Q.Safe (addPayment L T.val P doc) σ σ := by
  rcases doc with _ | _ | d
  · exact ⟨hσ, Q.guar_refl σ⟩
  · exact ⟨hσ, Q.guar_refl σ⟩
  rw [addPayment, user_path rfl]
  cases hdl : d.getString "deadline" with
  | none => exact ⟨hσ, Q.guar_refl σ⟩
  | some deadline =>
    cases hrent : d.getString "rent" with
    | none => exact ⟨hσ, Q.guar_refl σ⟩
    | some rent => exact hpay d deadline rent rfl hdl hrent

/-- A listing must name its landlord by an id, so that the path of the request is known. -/
theorem safe_sendRequest {T : DocumentId} {name : String} (hσ : Q.Inv σ)
    (hL : ∀ d, doc = some (some d) → ∃ L : DocumentId, d.getString "landlord" = some L.val)
    (hreq : ∀ (L : DocumentId) P address a, Q.Fresh σ a →
      Q.Inv (Function.update σ ["users", L.val, "requests", a.val]
        (some (requestData T P address name))) ∧
      Q.Guar σ (Function.update σ ["users", L.val, "requests", a.val]
        (some (requestData T P address name)))) :
    Q.Safe (sendRequest T name doc) σ σ := by
  rcases doc with _ | _ | d
  · exact ⟨hσ, Q.guar_refl σ⟩
  · exact ⟨hσ, Q.guar_refl σ⟩
  obtain ⟨L, hL⟩ := hL d rfl
  have hdoc : document ["users"] L.val = some ["users", L.val] := user_path rfl
  rw [sendRequest, hL]
  cases d.getString "address" with
  | none => exact ⟨hσ, Q.guar_refl σ⟩
  | some address =>
    simp only [Prog.force_some, Prog.bind_pure_con, hdoc]
    exact fun e a ha => hreq L e.properyIDText address a ha

theorem safe_lookUpProperty {T : DocumentId} (hσ : Q.Inv σ)
    (hread : ∀ d name p, doc = some (some d) →
      Q.Safe (.read ("properties" :: p) (sendRequest T name)) σ σ) :
    Q.Safe (lookUpProperty T doc) σ σ := by
  rcases doc with _ | _ | d
  · exact ⟨hσ, Q.guar_refl σ⟩
  · exact ⟨hσ, Q.guar_refl σ⟩
  rw [lookUpProperty]
  cases d.getString "firstName" with
  | none => exact ⟨hσ, Q.guar_refl σ⟩
  | some firstName =>
    cases d.getString "lastName" with
    | none => exact ⟨hσ, Q.guar_refl σ⟩
    | some lastName =>
      simp only [Prog.force_some, Prog.bind_pure_con, Prog.look_bind]
      intro e
      show Q.Safe (Prog.force (document ["properties"] e.properyIDText) >>= _) σ σ
      cases hp : document ["properties"] e.properyIDText with
      | none => exact ⟨hσ, Q.guar_refl σ⟩
      | some p =>
        obtain ⟨sub, rfl⟩ := document_listing hp
        exact hread d _ sub rfl

end Callbacks

section Steps

/-- The protocol of the callbacks: they count on typed documents and only add documents. -/
def callbacks : Protocol ResourcePath Fields DocumentId where
  Fresh := FreshId
  Inv := Typed
  Rely _ _ := True
  Guar := Effect .callback
  rely_refl _ := trivial
  rely_trans _ _ := trivial
  guar_refl _ := .same _

theorem callbacks_of_effect {σ σ' : Store} (h : Typed σ) (he : Effect .callback σ σ') :
    callbacks.Inv σ' ∧ callbacks.Guar σ σ' := ⟨h.effect he, he⟩

theorem callbacks_sendRequestTapped {σ : Store} {T : DocumentId} (h : Typed σ) :
    callbacks.Safe (sendRequestTapped T) σ σ := by
  refine ⟨h, .same _, fun σ₁ _ _ ok σ₂ _ h₂ => safe_lookUpProperty h₂ fun d name p _ => ?_⟩
  refine ⟨h₂, .same _, fun σ₃ _ h₃ ok σ₄ _ h₄ => safe_sendRequest h₄ (fun d hd => ?_) ?_⟩
  · exact h₃.listing p d (Prog.answer_eq_some hd)
  · exact fun L P address a ha => callbacks_of_effect h₄ (.request L T a P address name ha)

theorem ready_addPayment {σ : Store} (L T : DocumentId) (P : String) (pP : ResourcePath) :
    callbacks.Ready (.read pP (addPayment L T.val P)) σ := by
  refine fun _ _ h => ⟨h, .same _, fun _ _ _ _ _ _ h₂ => safe_addPayment h₂ ?_⟩
  exact fun d deadline rent _ _ _ a ha =>
    callbacks_of_effect h₂ (.payment L T a P deadline rent ha)

/-- The callbacks keep to their protocol, and what the landlords may accept came from documents. -/
structure World.Good (w : World) : Prop where
  threads : Threads.Good callbacks w.threads
  past : ∀ σ ∈ w.past, Typed σ
  requests : ∀ L, ∀ r ∈ w.requests L,
    (∃ id : DocumentId, r.id = id.val) ∧ ∃ T : DocumentId, r.tenantID = T.val

theorem World.good_initial : World.initial.Good :=
  ⟨⟨typed_empty, fun _ h => absurd h (List.not_mem_nil)⟩, fun _ h => absurd h (List.not_mem_nil),
    fun _ _ h => absurd h (List.not_mem_nil)⟩

theorem ready_of_tap {Q : Protocol ResourcePath Fields DocumentId} {w : World} (hw : w.Good)
    (e : Device) (ids : ℕ → DocumentId) (a : Action) (ho : w.Offers a)
    (hf : Prog.FreshFor Q.Fresh e ids a.program w.store)
    (hsend : ∀ T, Q.Safe (sendRequestTapped T) w.store w.store)
    (hpay : ∀ (L T : DocumentId) P pP σ, document ["users", L.val, "properties"] P = some pP →
      Q.Ready (.read pP (addPayment L T.val P)) σ) :
    Q.Ready (Prog.turn e ids a.program w.store).2 (Prog.turn e ids a.program w.store).1 := by
  cases a with
  | signUpCompleted firstName lastName email =>
    unfold Action.program
    rw [turn_signUpCompleted]
    cases e.currentUser with
    | none => exact Protocol.ready_trap _
    | some u => exact Protocol.ready_pure _ _
  | registerTapped L form =>
    unfold Action.program
    rw [turn_registerTapped]
    exact Protocol.ready_pure _ _
  | sendRequestTapped T =>
    have hs : Q.Safe (Action.sendRequestTapped T).program w.store w.store := (hsend T).map _
    exact (hs.turn hf).2.2
  | accept L r =>
    obtain ⟨L', hr⟩ := ho
    obtain ⟨⟨id, hid⟩, T, hT⟩ := hw.requests L' r hr
    unfold Action.program
    rw [turn_accept, request_path L hid, user_path hT]
    cases hP : document ["users", L.val, "properties"] r.propertyID with
    | none => exact Protocol.ready_trap _
    | some pP =>
      rw [hT]
      exact hpay L T r.propertyID pP _ hP
  | decline L r =>
    obtain ⟨L', hr⟩ := ho
    obtain ⟨⟨id, hid⟩, -⟩ := hw.requests L' r hr
    unfold Action.program
    rw [turn_decline, request_path L hid]
    exact Protocol.ready_pure _ _
  | deleteTapped L id =>
    unfold Action.program
    rw [turn_deleteTapped]
    cases document ["users", L.val, "properties"] id with
    | none => exact Protocol.ready_trap _
    | some p => exact Protocol.ready_pure _ _

theorem effect_of_tap {w : World} (hw : w.Good) (e : Device) (ids : ℕ → DocumentId) (a : Action)
    (ho : w.Offers a) (hf : Prog.FreshFor FreshId e ids a.program w.store) :
    Effect (.tap a) w.store (Prog.turn e ids a.program w.store).1 := by
  cases a with
  | signUpCompleted firstName lastName email =>
    unfold Action.program
    rw [turn_signUpCompleted]
    cases e.currentUser with
    | none => exact .same _
    | some u => exact .signUp u _ _ _ _
  | registerTapped L form =>
    unfold Action.program
    rw [turn_registerTapped]
    exact .register L (ids 0) form hf.1
  | sendRequestTapped T => exact .same _
  | accept L r =>
    obtain ⟨L', hr⟩ := ho
    obtain ⟨⟨id, hid⟩, T, hT⟩ := hw.requests L' r hr
    unfold Action.program
    rw [turn_accept, request_path L hid, user_path hT]
    cases hP : document ["users", L.val, "properties"] r.propertyID with
    | none => exact .acceptTrapped L id T r hid hT hP
    | some pP => exact .accept L id T r pP hid hT hP
  | decline L r =>
    obtain ⟨L', hr⟩ := ho
    obtain ⟨⟨id, hid⟩, -⟩ := hw.requests L' r hr
    unfold Action.program
    rw [turn_decline, request_path L hid]
    exact .decline L id r
  | deleteTapped L id =>
    unfold Action.program
    rw [turn_deleteTapped]
    cases hp : document ["users", L.val, "properties"] id with
    | none => exact .same _
    | some p => exact .delete L id p hp

theorem World.Good.past_store {w : World} (hw : w.Good) : ∀ σ ∈ w.store :: w.past, Typed σ := by
  intro σ hσ
  rcases List.mem_cons.mp hσ with rfl | hσ
  · exact hw.threads.1
  · exact hw.past σ hσ

theorem effect_of_step {w w' : World} {ev : World.Event} (hw : w.Good) (hs : World.Step w ev w') :
    Effect ev w.store w'.store ∧ w'.Good := by
  cases hs with
  | tap e ids a ho hf =>
    have heff := effect_of_tap hw e ids a ho hf
    have hready := ready_of_tap (Q := callbacks) hw e ids a ho hf
      (fun _ => callbacks_sendRequestTapped hw.threads.1) fun L T P pP _ _ =>
        ready_addPayment L T P pP
    exact ⟨heff, hw.threads.spawn trivial (hw.threads.1.effect heff) hready, hw.past_store,
      hw.requests⟩
  | callback h =>
    obtain ⟨hgood, heff⟩ := hw.threads.step (fun _ => trivial) h
    exact ⟨heff, hgood, hw.past_store, hw.requests⟩
  | snapshot L changes hadd h =>
    refine ⟨.same _, hw.threads, hw.past, fun L' r hr => ?_⟩
    replace hr : r ∈ Function.update w.requests L _ L' := hr
    rw [Function.update_apply] at hr
    split_ifs at hr with hL
    · rcases mem_listen _ _ h hr with hr | ⟨c, hc, hty, hof⟩
      · exact hw.requests L r hr
      · obtain ⟨hid, htenant, -⟩ := Request.ofDocument_fields hof
        obtain ⟨σ, hσ, hdoc⟩ := hadd c hc hty
        obtain ⟨T, hT⟩ := (hw.past_store σ hσ).request _ _ _ hdoc
        exact ⟨⟨c.documentID, hid⟩, T, Option.some.inj (htenant.symm.trans hT)⟩
    · exact hw.requests L' r hr

/-- What the effects of steps that meet `C` preserve holds of every state the store has had. -/
theorem World.Reaches.store_invariant {C : World → World.Event → Prop} {I : Store → Prop}
    (h0 : I fun _ => none)
    (hstep : ∀ w ev σ', C w ev → Typed w.store → I w.store → Effect ev w.store σ' → I σ')
    {w : World} (h : World.Reaches C w) : ∀ σ ∈ w.store :: w.past, I σ := by
  have hgood : w.Good ∧ ∀ σ ∈ w.store :: w.past, I σ := by
    refine Runs.Reaches.invariant (I := fun w => w.Good ∧ ∀ σ ∈ w.store :: w.past, I σ)
      ⟨World.good_initial, fun σ hσ => ?_⟩ ?_ h
    · obtain rfl := List.mem_singleton.mp hσ
      exact h0
    · rintro w ev w' ⟨hw, hi⟩ hc hs
      obtain ⟨heff, hw'⟩ := effect_of_step hw hs
      refine ⟨hw', fun σ hσ => ?_⟩
      rcases List.mem_cons.mp hσ with rfl | hσ
      · exact hstep w ev _ hc hw.threads.1 (hi _ List.mem_cons_self) heff
      · exact hi σ (hs.past σ hσ)
  exact hgood.2

end Steps
end Zeenoc
