import Zeenoc.WholeOperations

/-! What the documents say about one another: user documents are complete, requests name a user,
and a landlord's property and the payments made from it have their public listing behind them. -/

namespace Zeenoc
open Firestore Interleaving

/-- `types` are the account types that the sign-up screens may send. -/
structure UserComplete (types : String → Prop) (d : Fields) : Prop where
  firstName : ∃ s, d.getString "firstName" = some s
  lastName : ∃ s, d.getString "lastName" = some s
  email : ∃ s, d.getString "email" = some s
  uid : ∃ s, d.getString "uid" = some s
  accountType : ∃ s, d.getString "accountType" = some s ∧ types s
  paired : d.getString "paired" = some "true" ∨ d.getString "paired" = some "false"

theorem userComplete_userData {types : String → Prop} {type : String} (h : types type)
    (u : DocumentId) (firstName lastName email : String) :
    UserComplete types (userData u type firstName lastName email) :=
  ⟨⟨firstName, by simp [userData]⟩, ⟨lastName, by simp [userData]⟩, ⟨email, by simp [userData]⟩,
    ⟨u.val, by simp [userData]⟩, ⟨type, by simp [userData], h⟩, .inr (by simp [userData])⟩

theorem UserComplete.paired_true {types : String → Prop} {d : Fields} (h : UserComplete types d)
    (P : String) :
    UserComplete types ((strings [("paired", "true"), ("properyID", P)]).merge (some d)) := by
  refine ⟨?_, ?_, ?_, ?_, ?_, .inl (merge_of_some (by simp) _)⟩
  · rw [merge_of_none (by simp)]
    exact h.firstName
  · rw [merge_of_none (by simp)]
    exact h.lastName
  · rw [merge_of_none (by simp)]
    exact h.email
  · rw [merge_of_none (by simp)]
    exact h.uid
  · rw [merge_of_none (by simp)]
    exact h.accountType

def ListedAs (σ : Store) (p : ResourcePath) (L rent deadline : String) : Prop :=
  ∃ l, σ p = some l ∧ l.getString "landlord" = some L ∧ l.getString "rent" = some rent ∧
    l.getString "deadline" = some deadline

/-- A payment of the tenant `T` repeats the terms of a listing of its landlord. -/
def PaymentSound (σ : Store) (T : String) (d : Fields) : Prop :=
  d.getString "tenantID" = some T ∧ d.getString "status" = some "Pending" ∧
    ∃ L P rent deadline p, d.getString "landlordID" = some L ∧ d.getString "propertyID" = some P ∧
      d.getString "rent" = some rent ∧ d.getString "deadline" = some deadline ∧
      document ["properties"] P = some p ∧ ListedAs σ p L rent deadline

structure Sound (types : String → Prop) (σ : Store) : Prop where
  typed : Typed σ
  users : ∀ u d, σ ["users", u] = some d → UserComplete types d
  known : ∀ L R d T, σ ["users", L, "requests", R] = some d → d.getString "tenantID" = some T →
    σ ["users", T] ≠ none
  -- acceptances leave documents behind that were never registered, but these have no terms
  backed : ∀ L q rest d rent deadline, σ ("users" :: L :: "properties" :: q :: rest) = some d →
    d.getString "rent" = some rent → d.getString "deadline" = some deadline →
    ListedAs σ ("properties" :: q :: rest) L rent deadline
  payments : ∀ T a d, σ ["users", T, "payments", a] = some d → PaymentSound σ T d

/-- No one takes away a listing or a user. -/
structure Persists (σ σ' : Store) : Prop where
  listing : ∀ p d, σ ("properties" :: p) = some d → σ' ("properties" :: p) = some d
  user : ∀ u, σ ["users", u] ≠ none → σ' ["users", u] ≠ none

theorem Persists.refl (σ : Store) : Persists σ σ := ⟨fun _ _ h => h, fun _ h => h⟩

theorem Persists.trans {σ₁ σ₂ σ₃ : Store} (h : Persists σ₁ σ₂) (h' : Persists σ₂ σ₃) :
    Persists σ₁ σ₃ :=
  ⟨fun p d hd => h'.listing p d (h.listing p d hd), fun u hu => h'.user u (h.user u hu)⟩

theorem Persists.listedAs {σ σ' : Store} (h : Persists σ σ') {p : ResourcePath}
    {L rent deadline : String} (hl : ListedAs σ ("properties" :: p) L rent deadline) :
    ListedAs σ' ("properties" :: p) L rent deadline := by
  obtain ⟨l, hl, hterms⟩ := hl
  exact ⟨l, h.listing p l hl, hterms⟩

theorem Persists.paymentSound {σ σ' : Store} (h : Persists σ σ') {T : String} {d : Fields}
    (hd : PaymentSound σ T d) : PaymentSound σ' T d := by
  obtain ⟨htenant, hstatus, L, P, rent, deadline, p, hL, hP, hrent, hdl, hp, hlisted⟩ := hd
  obtain ⟨sub, rfl⟩ := document_listing hp
  exact ⟨htenant, hstatus, L, P, rent, deadline, _, hL, hP, hrent, hdl, hp, h.listedAs hlisted⟩

theorem Effect.persists {ev : World.Event} {σ σ' : Store} (h : Effect ev σ σ') :
    Persists σ σ' := by
  refine ⟨fun p d hd => ?_, fun u hu => ?_⟩
  · rcases h.at_listing p with hp | ⟨L, a, form, ha, rfl, rfl⟩
    · exact hp ▸ hd
    · rw [ha _ (by simp)] at hd
      cases hd
  · rcases h.at_user u with hsame | ⟨v, type, firstName, lastName, email, -, -, hnew⟩ |
      ⟨L, r, -, -, hnew⟩
    · rwa [hsame]
    · simp [hnew]
    · simp [hnew]

variable {types : String → Prop}

theorem sound_empty : Sound types fun _ => none :=
  ⟨typed_empty, fun _ d hd => (Option.some_ne_none d hd.symm).elim,
    fun _ _ d _ hd => (Option.some_ne_none d hd.symm).elim,
    fun _ _ _ d _ _ hd => (Option.some_ne_none d hd.symm).elim,
    fun _ _ d hd => (Option.some_ne_none d hd.symm).elim⟩

theorem Sound.backed_effect {ev : World.Event} {σ σ' : Store} (h : Sound types σ)
    (he : Effect ev σ σ') {L q : String} {rest : ResourcePath} {d : Fields}
    {rent deadline : String} (hd : σ' ("users" :: L :: "properties" :: q :: rest) = some d)
    (hrent : d.getString "rent" = some rent) (hdl : d.getString "deadline" = some deadline) :
    ListedAs σ' ("properties" :: q :: rest) L rent deadline := by
  rcases he.at_property ⟨L, q, rest, rfl⟩ with hsame | ⟨L', a, form, -, hp, rfl⟩ |
    ⟨L', T, r, -, -, -, hmerged⟩ | ⟨L', id, -, -, hdel⟩
  · exact he.persists.listedAs (h.backed L q rest d rent deadline (hsame ▸ hd) hrent hdl)
  · rw [hp, registered_own] at hd
    obtain rfl := Option.some.inj hd
    obtain ⟨rfl, rfl, rfl⟩ : L = L'.val ∧ q = a.val ∧ rest = [] := by simpa using hp
    refine ⟨_, registered_listing .., by simp [PropertyForm.data], ?_, ?_⟩
    · rw [← hrent]
      simp [PropertyForm.data]
    · rw [← hdl]
      simp [PropertyForm.data]
  · -- the merge of an acceptance brings no terms of its own
    obtain rfl := Option.some.inj (hmerged.symm.trans hd)
    cases hold : σ ("users" :: L :: "properties" :: q :: rest) with
    | none =>
      rw [hold, merge_absent] at hrent
      simp at hrent
    | some d =>
      rw [hold, merge_of_none (by simp)] at hrent hdl
      exact he.persists.listedAs (h.backed L q rest d rent deadline hold hrent hdl)
  · rw [hdel] at hd
    cases hd

theorem Sound.tap {a : Action} {σ σ' : Store} (h : Sound types σ) (he : Effect (.tap a) σ σ')
    (husers : ∀ u d, σ' ["users", u] = some d → UserComplete types d) : Sound types σ' where
  typed := h.typed.effect he
  users := husers
  known L R d T hd hT := by
    rcases he.request_or hd with hd | ⟨hev, -⟩
    · exact he.persists.user T (h.known L R d T hd hT)
    · cases hev
  backed _ _ _ _ _ _ hd hrent hdl := h.backed_effect he hd hrent hdl
  payments T p d hd := by
    rw [he.at_payment] at hd
    exact he.persists.paymentSound (h.payments T p d hd)

theorem Sound.users_tap {a : Action} {σ σ' : Store} (h : Sound types σ)
    (he : Effect (.tap a) σ σ') (hsign : ∀ firstName lastName email,
      a ≠ .signUpCompleted firstName lastName email)
    (hacc : ∀ L r, a = .accept L r → σ ["users", r.tenantID] ≠ none) :
    ∀ u d, σ' ["users", u] = some d → UserComplete types d := by
  intro u d hd
  rcases he.at_user u with hsame | ⟨v, type, firstName, lastName, email, -, hev, -⟩ |
    ⟨L, r, hev, rfl, hmerged⟩
  · exact h.users u d (hsame ▸ hd)
  · exact (hsign firstName lastName email (World.Event.tap.inj hev)).elim
  · obtain ⟨before, hbefore⟩ := Option.ne_none_iff_exists'.mp (hacc L r (World.Event.tap.inj hev))
    obtain rfl := Option.some.inj (hmerged.symm.trans hd)
    rw [hbefore]
    exact (h.users _ before hbefore).paired_true r.propertyID

theorem Sound.signUp {σ : Store} (h : Sound types σ) (u : DocumentId) {type : String}
    (ht : types type) (firstName lastName email : String) :
    Sound types (Function.update σ ["users", u.val]
      (some (userData u type firstName lastName email))) := by
  refine h.tap (.signUp u type firstName lastName email) fun v d hd => ?_
  rw [Function.update_apply] at hd
  split_ifs at hd
  · obtain rfl := Option.some.inj hd
    exact userComplete_userData ht u firstName lastName email
  · exact h.users v d hd

theorem Sound.request {σ : Store} (h : Sound types σ) (L T a : DocumentId)
    (P address name : String) (ha : FreshId σ a) (hT : σ ["users", T.val] ≠ none) :
    Sound types (Function.update σ ["users", L.val, "requests", a.val]
      (some (requestData T P address name))) := by
  have he := Effect.request L T a P address name ha
  refine ⟨h.typed.effect he, fun u d hd => ?_, fun L' R d T' hd hT' => ?_,
    fun _ _ _ _ _ _ hd hrent hdl => h.backed_effect he hd hrent hdl, fun T' p d hd => ?_⟩
  · rw [Function.update_of_ne (by simp)] at hd
    exact h.users u d hd
  · rw [Function.update_apply] at hd
    apply he.persists.user
    split_ifs at hd
    · obtain rfl := Option.some.inj hd
      obtain rfl : T.val = T' := by simpa [requestData] using hT'
      exact hT
    · exact h.known L' R d T' hd hT'
  · rw [Function.update_of_ne (by simp)] at hd
    exact he.persists.paymentSound (h.payments T' p d hd)

theorem Sound.payment {σ : Store} (h : Sound types σ) (L T a : DocumentId) {P : String}
    {rent deadline : String} (ha : FreshId σ a) {p : ResourcePath}
    (hp : document ["properties"] P = some p) (hlisted : ListedAs σ p L.val rent deadline) :
    Sound types (Function.update σ ["users", T.val, "payments", a.val]
      (some (paymentData L T.val P deadline rent))) := by
  have he := Effect.payment L T a P deadline rent ha
  refine ⟨h.typed.effect he, fun u d hd => ?_, fun L' R d T' hd hT' => ?_,
    fun _ _ _ _ _ _ hd hrent hdl => h.backed_effect he hd hrent hdl, fun T' b d hd => ?_⟩
  · rw [Function.update_of_ne (by simp)] at hd
    exact h.users u d hd
  · rw [Function.update_of_ne (by simp)] at hd
    exact he.persists.user T' (h.known L' R d T' hd hT')
  · apply he.persists.paymentSound
    rw [Function.update_apply] at hd
    split_ifs at hd with hpath
    · obtain rfl := Option.some.inj hd
      obtain ⟨rfl, rfl⟩ : T' = T.val ∧ b = a.val := by simpa using hpath
      exact ⟨by simp [paymentData], by simp [paymentData], L.val, P, rent, deadline, p,
        by simp [paymentData], by simp [paymentData], by simp [paymentData],
        by simp [paymentData], hp, hlisted⟩
    · exact h.payments T' b d hd

section Callbacks

/-- The callbacks keep the documents sound; what an earlier read has found is still there. -/
def documents (types : String → Prop) : Protocol ResourcePath Fields DocumentId where
  Fresh := FreshId
  Inv := Sound types
  Rely := Persists
  Guar := Persists
  rely_refl := Persists.refl
  rely_trans := Persists.trans
  guar_refl := Persists.refl

theorem document_own {L P : String} {p : ResourcePath}
    (h : document ["users", L, "properties"] P = some p) :
    ∃ q rest, p = "users" :: L :: "properties" :: q :: rest ∧
      document ["properties"] P = some ("properties" :: q :: rest) := by
  obtain ⟨q, rest, rfl⟩ := property_path h
  obtain ⟨sub, hsub, hp, hlen⟩ := document_eq_append h
  obtain rfl : q :: rest = sub := by simpa using hp
  refine ⟨q, rest, rfl, ?_⟩
  have heven : (["properties"] ++ q :: rest).length % 2 = 0 := by
    simp only [List.length_append, List.length_cons] at hlen ⊢
    omega
  unfold document
  rw [hsub, Option.bind_some, if_pos heven]
  rfl

/-- The terms that a payment copies had their listing behind them where they were read. -/
theorem ready_payment {L T : DocumentId} {P : String} {p : ResourcePath}
    (hp : document ["users", L.val, "properties"] P = some p) (σ₀ : Store) :
    (documents types).Ready (.read p (addPayment L T.val P)) σ₀ := by
  obtain ⟨q, rest, rfl, hlisting⟩ := document_own hp
  refine fun σ' _ h' => ⟨h', .refl σ', fun σ₁ _ h₁ ok σ hrely h =>
    safe_addPayment h fun d deadline rent hd hdl hrent a ha => ?_⟩
  have hlisted := h₁.backed _ _ _ d rent deadline (Prog.answer_eq_some hd) hrent hdl
  exact ⟨h.payment L T a ha hlisting (hrely.listedAs hlisted),
    (Effect.payment L T a P deadline rent ha).persists⟩

/-- The tenant's own document is read first, so the request names a user. -/
theorem documents_sendRequestTapped {σ : Store} {T : DocumentId} (h : Sound types σ) :
    (documents types).Safe (sendRequestTapped T) σ σ := by
  refine ⟨h, .refl σ, fun σ₁ _ _ ok σ₂ hrely₂ h₂ => safe_lookUpProperty h₂ fun d name p hd => ?_⟩
  have hT : σ₂ ["users", T.val] ≠ none := by
    apply hrely₂.user
    rw [Prog.answer_eq_some hd]
    exact Option.some_ne_none d
  refine ⟨h₂, .refl σ₂, fun σ₃ hrely₃ h₃ ok σ₄ hrely₄ h₄ =>
    safe_sendRequest h₄ (fun d hd => ?_) fun L P address a ha => ?_⟩
  · exact h₃.typed.listing p d (Prog.answer_eq_some hd)
  · exact ⟨h₄.request L T a P address name ha (hrely₄.user _ (hrely₃.user _ hT)),
      (Effect.request L T a P address name ha).persists⟩

end Callbacks

section Worlds

/-- Sound documents now and before, callbacks that keep them so, and listed requests of users. -/
structure World.Sound (types : String → Prop) (w : World) : Prop where
  good : w.Good
  threads : Threads.Good (documents types) w.threads
  past : ∀ σ ∈ w.past, Zeenoc.Sound types σ ∧ Persists σ w.store
  requests : ∀ L, ∀ r ∈ w.requests L, w.store ["users", r.tenantID] ≠ none

theorem World.sound_initial : World.initial.Sound types :=
  ⟨World.good_initial, ⟨sound_empty, fun _ h => absurd h List.not_mem_nil⟩,
    fun _ h => absurd h List.not_mem_nil, fun _ _ h => absurd h List.not_mem_nil⟩

theorem World.Sound.history {w : World} (hw : w.Sound types) :
    ∀ σ ∈ w.store :: w.past, Zeenoc.Sound types σ ∧ Persists σ w.store := by
  intro σ hσ
  rcases List.mem_cons.mp hσ with rfl | hσ
  · exact ⟨hw.threads.1, .refl _⟩
  · exact hw.past σ hσ

theorem World.Sound.moved {w w' : World} (hw : w.Sound types) (hgood : w'.Good)
    (hthreads : Threads.Good (documents types) w'.threads) (hp : Persists w.store w'.store)
    (hpast : w'.past = w.store :: w.past) (hreq : w'.requests = w.requests) :
    w'.Sound types where
  good := hgood
  threads := hthreads
  past σ hσ := by
    obtain ⟨hs, hpersists⟩ := hw.history σ (hpast ▸ hσ)
    exact ⟨hs, hpersists.trans hp⟩
  requests L r hr := hp.user _ (hw.requests L r (hreq ▸ hr))

theorem World.Sound.tap {w : World} (hw : w.Sound types) (e : Device) (ids : ℕ → DocumentId)
    (a : Action) (ho : w.Offers a) (hf : Prog.FreshFor FreshId e ids a.program w.store)
    (ht : ∀ firstName lastName email, a = .signUpCompleted firstName lastName email →
      types e.accountType) : (w.tap e ids a).Sound types := by
  have heff := effect_of_tap hw.good e ids a ho hf
  have hready := ready_of_tap (Q := documents types) hw.good e ids a ho hf
    (fun _ => documents_sendRequestTapped hw.threads.1) fun _ _ _ _ σ hP => ready_payment hP σ
  have hgood : (w.tap e ids a).Good := (effect_of_step hw.good (.tap e ids a ho hf)).2
  have hsound : Zeenoc.Sound types (Prog.turn e ids a.program w.store).1 := by
    by_cases hsign : ∃ firstName lastName email, a = .signUpCompleted firstName lastName email
    · obtain ⟨firstName, lastName, email, rfl⟩ := hsign
      unfold Action.program
      rw [turn_signUpCompleted]
      cases e.currentUser with
      | none => exact hw.threads.1
      | some u => exact hw.threads.1.signUp u (ht _ _ _ rfl) firstName lastName email
    · apply hw.threads.1.tap heff
      apply hw.threads.1.users_tap heff
      · exact fun firstName lastName email ha => hsign ⟨firstName, lastName, email, ha⟩
      · rintro L r rfl
        obtain ⟨L', hr⟩ := ho
        exact hw.requests L' r hr
  exact hw.moved hgood (hw.threads.spawn heff.persists hsound hready) heff.persists rfl rfl

theorem World.Sound.callback {w w' : World} (hw : w.Sound types)
    (hs : World.Step w .callback w') : w'.Sound types := by
  have hgood := (effect_of_step hw.good hs).2
  cases hs with
  | callback h =>
    obtain ⟨hthreads, hguar⟩ := hw.threads.step (fun hg => hg) h
    exact hw.moved hgood hthreads hguar rfl rfl

/-- A request that arrives late was sent while its tenant was a user, and users stay. -/
theorem World.Sound.snapshot {w w' : World} (hw : w.Sound types) {L : DocumentId}
    (hs : World.Step w (.snapshot L) w') : w'.Sound types := by
  have hgood := (effect_of_step hw.good hs).2
  cases hs with
  | snapshot L changes hadd h =>
    refine ⟨hgood, hw.threads, hw.past, fun L' r hr => ?_⟩
    replace hr : r ∈ Function.update w.requests L _ L' := hr
    rw [Function.update_apply] at hr
    split_ifs at hr
    · rcases mem_listen _ _ h hr with hr | ⟨c, hc, hty, hof⟩
      · exact hw.requests L r hr
      · obtain ⟨-, htenant, -⟩ := Request.ofDocument_fields hof
        obtain ⟨σ, hσ, hdoc⟩ := hadd c hc hty
        obtain ⟨hsound, hpersists⟩ := hw.history σ hσ
        exact hpersists.user _ (hsound.known _ _ _ _ hdoc htenant)
    · exact hw.requests L' r hr

theorem World.Sound.step {w w' : World} {ev : World.Event} (hw : w.Sound types)
    (ht : ∀ firstName lastName email, ev = .tap (.signUpCompleted firstName lastName email) →
      ∀ type, types type) (hs : World.Step w ev w') : w'.Sound types := by
  cases ev with
  | tap a =>
    cases hs with
    | tap e ids a ho hf =>
      exact hw.tap e ids a ho hf fun _ _ _ ha => ht _ _ _ (congrArg _ ha) e.accountType
  | callback => exact hw.callback hs
  | snapshot L => exact hw.snapshot hs

theorem World.Reaches.sound {C : World → World.Event → Prop} {w : World}
    (h : World.Reaches C w) : w.Sound fun _ => True :=
  h.invariant (I := World.Sound fun _ => True) World.sound_initial
    fun _ _ _ hw _ hs => hw.step (fun _ _ _ _ _ => trivial) hs

theorem payments_sound {w : World} (h : World.Reaches (fun _ _ => True) w) :
    ∀ σ ∈ w.store :: w.past, ∀ T a d, σ ["users", T, "payments", a] = some d →
      d.getString "tenantID" = some T ∧ d.getString "status" = some "Pending" ∧
      ∃ L P rent deadline p l, d.getString "landlordID" = some L ∧
        d.getString "propertyID" = some P ∧ d.getString "rent" = some rent ∧
        d.getString "deadline" = some deadline ∧ document ["properties"] P = some p ∧
        σ p = some l ∧ l.getString "landlord" = some L ∧ l.getString "rent" = some rent ∧
        l.getString "deadline" = some deadline := by
  intro σ hσ T a d hd
  obtain ⟨htenant, hstatus, L, P, rent, deadline, p, hL, hP, hrent, hdl, hp, l, hl, hterms⟩ :=
    (h.sound.history σ hσ).1.payments T a d hd
  exact ⟨htenant, hstatus, L, P, rent, deadline, p, l, hL, hP, hrent, hdl, hp, hl, hterms⟩

section Instances

def acceptedStore : Store :=
  accepted (requestedStore landlord tenant property request listing) tenantRequest
    ["users", "L", "requests", "R"] ["users", "T"] ["users", "L", "properties", "Q"]

theorem freshId_acceptedStore : FreshId acceptedStore newId := by
  have hregistered : FreshId (registered (signedUpStore tenant) landlord property listing) newId :=
    (((freshId_empty newId).update (by decide) _).update (by decide) _).update (by decide) _
  exact freshId_accepted (hregistered.update (by decide) _) tenantRequest (by decide) (by decide)
    (by decide)

theorem first_payment_sound : ∃ w, World.Reaches (fun _ _ => True) w ∧
    w.store ["users", "T", "payments", "N"] = some (paymentData landlord "T" "Q" "15" "900") ∧
    ∃ p l, document ["properties"] "Q" = some p ∧ w.store p = some l ∧
      l.getString "landlord" = some "L" := by
  obtain ⟨w₁, h₁, hs₁, hmem⟩ := World.Reaches.tenant_request (C := fun _ _ => True)
    fun _ _ _ => trivial
  obtain ⟨w₂, h₂, hs₂, hp₂, -⟩ := h₁.tapped ⟨none, "", ""⟩ (fun _ => newId)
    (.accept landlord tenantRequest) trivial ⟨landlord, hmem⟩
    (freshFor_accept _ _ _ landlord tenantRequest)
  have hturn : Prog.turn ⟨none, "", ""⟩ (fun _ => newId)
      (Action.accept landlord tenantRequest).program w₁.store =
      (accepted w₁.store tenantRequest ["users", "L", "requests", "R"] ["users", "T"]
        ["users", "L", "properties", "Q"],
        .read ["users", "L", "properties", "Q"] (addPayment landlord "T" "Q")) := by
    unfold Action.program
    rw [turn_accept]
    rfl
  rw [hturn] at hs₂ hp₂
  replace hs₂ : w₂.store = acceptedStore := by
    rw [hs₂, hs₁]
    rfl
  have hfresh : Prog.FreshFor FreshId ⟨none, "", ""⟩ (fun _ => newId)
      (addPayment landlord "T" "Q" (Prog.answer true acceptedStore
        ["users", "L", "properties", "Q"])) acceptedStore := ⟨freshId_acceptedStore, trivial⟩
  obtain ⟨w₃, h₃, hs₃, -⟩ := h₂.called hp₂ (fun _ => trivial) ⟨none, "", ""⟩ (fun _ => newId) true
    (hs₂ ▸ hfresh)
  have hpaid : w₃.store ["users", "T", "payments", "N"] =
      some (paymentData landlord "T" "Q" "15" "900") := by
    rw [hs₃, hs₂]
    rfl
  obtain ⟨-, -, L, P, rent, deadline, p, l, hL, hP, -, -, hp, hl, hlandlord, -⟩ :=
    payments_sound h₃ _ List.mem_cons_self "T" "N" _ hpaid
  obtain rfl : L = "L" := Option.some.inj (hL.symm.trans (by decide))
  obtain rfl : P = "Q" := Option.some.inj (hP.symm.trans (by decide))
  exact ⟨w₃, h₃, hpaid, p, l, hp, hl, hlandlord⟩

end Instances

end Worlds

end Zeenoc
