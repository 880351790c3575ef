import Zeenoc.Effects

/-! Operations carried through to their end: each leads from any reachable world to another one,
whose store and arrays are given. -/

namespace Zeenoc
open Firestore Interleaving Prog

theorem freshFor_registerTapped (e : Device) (ids : ℕ → DocumentId) (σ : Store) (L : DocumentId)
    (form : PropertyForm) (ha : FreshId σ (ids 0)) :
    FreshFor FreshId e ids (registerTapped L form) σ := by
  have hdoc : document ["properties"] (ids 0).val = some ["properties", (ids 0).val] :=
    document_id (by simp) _
  simp [registerTapped, FreshFor, hdoc, setData, ha]

namespace World.Reaches
variable {C : World → World.Event → Prop} {w : World}

theorem tapped (h : Reaches C w) (e : Device) (ids : ℕ → DocumentId) (a : Action)
    (hc : C w (.tap a)) (ho : w.Offers a) (hf : FreshFor FreshId e ids a.program w.store) :
    ∃ w', Reaches C w' ∧ w'.store = (turn e ids a.program w.store).1 ∧
      w'.threads.pending = (turn e ids a.program w.store).2 :: w.threads.pending ∧
      w'.requests = w.requests :=
  ⟨_, h.step hc (.tap e ids a ho hf), rfl, rfl, rfl⟩

theorem called (h : Reaches C w) {k : ResourcePath} {n : Option (Option Fields) → Op Unit}
    {rest : List (Op Unit)} (hp : w.threads.pending = .read k n :: rest) (hc : ∀ v, C v .callback)
    (e : Device) (ids : ℕ → DocumentId) (ok : Bool)
    (hf : FreshFor FreshId e ids (n (answer ok w.store k)) w.store) :
    ∃ w', Reaches C w' ∧ w'.store = (turn e ids (n (answer ok w.store k)) w.store).1 ∧
      w'.threads.pending = (turn e ids (n (answer ok w.store k)) w.store).2 :: rest ∧
      w'.requests = w.requests := by
  have hread : w.threads.pending[0]? = some (.read k n) := by simp [hp]
  have hans : Step w .callback _ := .callback (.answer ok hread)
  have hnext : (w.threads.pending.set 0 (n (answer ok w.store k)))[0]? =
      some (n (answer ok w.store k)) := by simp [hp]
  refine ⟨_, (h.step (hc _) hans).step (hc _) (.callback (.resume e ids hnext hf)), rfl, ?_, rfl⟩
  show (w.threads.pending.set 0 _).set 0 _ = _
  simp [hp, World.store]

theorem after_signUp (h : Reaches C w) (u : DocumentId) (type firstName lastName email : String)
    (hc : C w (.tap (.signUpCompleted firstName lastName email))) :
    ∃ w', Reaches C w' ∧ w'.store = Function.update w.store ["users", u.val]
      (some (userData u type firstName lastName email)) ∧ w'.requests = w.requests := by
  obtain ⟨w', hr, hs, -, hq⟩ := h.tapped ⟨some u, "", type⟩ (fun _ => u)
    (.signUpCompleted firstName lastName email) hc trivial trivial
  refine ⟨w', hr, ?_, hq⟩
  rw [hs, Action.program, turn_signUpCompleted]

theorem after_register (h : Reaches C w) (L a : DocumentId) (form : PropertyForm)
    (hc : C w (.tap (.registerTapped L form))) (ha : FreshId w.store a) :
    ∃ w', Reaches C w' ∧ w'.store = registered w.store L a form ∧
      w'.requests = w.requests := by
  have hf := freshFor_registerTapped ⟨none, "", ""⟩ (fun _ => a) w.store L form ha
  obtain ⟨w', hr, hs, -, hq⟩ := h.tapped ⟨none, "", ""⟩ (fun _ => a) (.registerTapped L form) hc
    trivial hf
  refine ⟨w', hr, ?_, hq⟩
  rw [hs, Action.program, turn_registerTapped]

theorem after_delete (h : Reaches C w) (L : DocumentId) (id : String) {p : ResourcePath}
    (hp : document ["users", L.val, "properties"] id = some p)
    (hc : C w (.tap (.deleteTapped L id))) :
    ∃ w', Reaches C w' ∧ w'.store = Function.update w.store p none ∧
      w'.requests = w.requests := by
  have hf : FreshFor FreshId ⟨none, "", ""⟩ (fun _ => L) (deleteTapped L id) w.store := by
    simp [deleteTapped, FreshFor, hp, delete]
  obtain ⟨w', hr, hs, -, hq⟩ := h.tapped ⟨none, "", ""⟩ (fun _ => L) (.deleteTapped L id) hc
    trivial hf
  refine ⟨w', hr, ?_, hq⟩
  rw [hs, Action.program, turn_deleteTapped, hp]

theorem after_accept (h : Reaches C w) (L : DocumentId) (r : Request) {L' : DocumentId}
    (hr : r ∈ w.requests L')
    (pR pT pP : ResourcePath) (hR : document ["users", L.val, "requests"] r.id = some pR)
    (hT : document ["users"] r.tenantID = some pT)
    (hP : document ["users", L.val, "properties"] r.propertyID = some pP)
    (hc : C w (.tap (.accept L r))) :
    ∃ w', Reaches C w' ∧ w'.store = accepted w.store r pR pT pP ∧ w'.requests = w.requests := by
  obtain ⟨w', hw, hs, -, hq⟩ := h.tapped ⟨none, "", ""⟩ (fun _ => L) (.accept L r) hc ⟨L', hr⟩
    (freshFor_accept _ _ _ L r)
  refine ⟨w', hw, ?_, hq⟩
  rw [hs, Action.program, turn_accept, hR, hT, hP]

theorem after_added (h : Reaches C w) (L a : DocumentId) {d : Fields} {r : Request}
    (hc : C w (.snapshot L)) (hd : w.store ["users", L.val, "requests", a.val] = some d)
    (hof : Request.ofDocument a d = some r) :
    ∃ w', Reaches C w' ∧ w'.store = w.store ∧
      w'.requests = Function.update w.requests L (w.requests L ++ [r]) := by
  have hcall : NotificationsVC.firebaseCall [⟨.added, a, d⟩] (w.requests L) =
      some (w.requests L ++ [r], true) := by
    simp [NotificationsVC.firebaseCall, listen, hof]
  have hadd : ∀ c ∈ [(⟨.added, a, d⟩ : DocumentChange)], c.type = .added →
      ∃ σ ∈ w.store :: w.past,
        σ ["users", L.val, "requests", c.documentID.val] = some c.document := by
    intro c hmem _
    obtain rfl := List.mem_singleton.mp hmem
    exact ⟨w.store, List.mem_cons_self, hd⟩
  exact ⟨_, h.step hc (.snapshot L _ hadd hcall), rfl, rfl⟩

theorem after_request (h : Reaches C w) (T L a : DocumentId) (text : String) {p : ResourcePath}
    {user property : Fields} {firstName lastName address : String}
    (hc : ∀ v, C v (.tap (.sendRequestTapped T)) ∧ C v .callback ∧ C v (.snapshot L))
    (hu : w.store ["users", T.val] = some user)
    (hfirst : user.getString "firstName" = some firstName)
    (hlast : user.getString "lastName" = some lastName)
    (hp : document ["properties"] text = some p) (hprop : w.store p = some property)
    (hL : property.getString "landlord" = some L.val)
    (haddr : property.getString "address" = some address) (ha : FreshId w.store a) :
    ∃ w', Reaches C w' ∧
      w'.store = Function.update w.store ["users", L.val, "requests", a.val]
        (some (requestData T text address (firstName ++ " " ++ lastName))) ∧
      w'.requests = Function.update w.requests L (w.requests L ++
        [⟨a.val, firstName ++ " " ++ lastName, address, T.val, text⟩]) := by
  have hdoc : document ["users"] L.val = some ["users", L.val] := user_path rfl
  obtain ⟨w₁, h₁, hs₁, hp₁, hq₁⟩ := h.tapped ⟨none, text, ""⟩ (fun _ => a) (.sendRequestTapped T)
    (hc w).1 trivial trivial
  replace hs₁ : w₁.store = w.store := hs₁
  replace hp₁ : w₁.threads.pending =
      .read ["users", T.val] (fun doc => lookUpProperty T doc >>= fun _ => .pure ()) ::
        w.threads.pending := hp₁
  have hans₁ : answer true w₁.store ["users", T.val] = some (some user) := by simp [answer, hs₁, hu]
  obtain ⟨w₂, h₂, hs₂, hp₂, hq₂⟩ := h₁.called hp₁ (fun v => (hc v).2.1) ⟨none, text, ""⟩
    (fun _ => a) true ((freshFor_map _ _ _ _).mpr (freshFor_lookUpProperty _ _ _ T _))
  have hturn₂ := turn_map (e := ⟨none, text, ""⟩) (fun _ => ()) (fun _ => a)
    (lookUpProperty T (some (some user))) w₁.store
  rw [turn_lookUpProperty ⟨none, text, ""⟩ _ _ T hfirst hlast hp] at hturn₂
  rw [hans₁, hturn₂] at hs₂ hp₂
  replace hs₂ : w₂.store = w.store := hs₂.trans hs₁
  replace hp₂ : w₂.threads.pending =
      .read p (fun doc => sendRequest T (firstName ++ " " ++ lastName) doc >>= fun _ => .pure ()) ::
        w.threads.pending := hp₂
  have hans₂ : answer true w₂.store p = some (some property) := by simp [answer, hs₂, hprop]
  have hfresh : FreshId w₂.store a := hs₂ ▸ ha
  obtain ⟨w₃, h₃, hs₃, -, hq₃⟩ := h₂.called hp₂ (fun v => (hc v).2.1) ⟨none, text, ""⟩
    (fun _ => a) true ((freshFor_map _ _ _ _).mpr (freshFor_sendRequest _ _ _ T _ _ hfresh))
  have hturn₃ : turn ⟨none, text, ""⟩ (fun _ => a)
      (sendRequest T (firstName ++ " " ++ lastName) (some (some property)) >>=
        fun _ => .pure ()) w₂.store =
      (Function.update w₂.store ["users", L.val, "requests", a.val]
        (some (requestData T text address (firstName ++ " " ++ lastName))), .pure ()) := by
    rw [turn_map, turn_sendRequest _ _ _ T _ hL haddr hdoc]
    rfl
  replace hs₃ : w₃.store = Function.update w.store ["users", L.val, "requests", a.val]
      (some (requestData T text address (firstName ++ " " ++ lastName))) := by
    rw [hs₃, hans₂, hturn₃, hs₂]
  have hreq : w₃.requests = w.requests := hq₃.trans (hq₂.trans hq₁)
  have hof : Request.ofDocument a (requestData T text address (firstName ++ " " ++ lastName)) =
      some ⟨a.val, firstName ++ " " ++ lastName, address, T.val, text⟩ := by
    simp [Request.ofDocument, requestData]
  have hadded : w₃.store ["users", L.val, "requests", a.val] =
      some (requestData T text address (firstName ++ " " ++ lastName)) := by
    rw [hs₃]
    exact Function.update_self ..
  obtain ⟨w₄, h₄, hs₄, hq₄⟩ := h₃.after_added L a (hc _).2.2 hadded hof
  refine ⟨w₄, h₄, hs₄.trans hs₃, ?_⟩
  rw [hq₄, hreq]

end World.Reaches

section FirstRequest
variable (L T Q R : DocumentId) (form : PropertyForm)

def signedUpStore : Store :=
  Function.update (fun _ => none) ["users", T.val] (some (userData T "tenants" "F" "N" "M"))

def firstRequest : Request := ⟨R.val, "F N", form.address, T.val, Q.val⟩

def requestedStore : Store :=
  Function.update (registered (signedUpStore T) L Q form) ["users", L.val, "requests", R.val]
    (some (requestData T Q.val form.address "F N"))

def World.Event.Quiet : World.Event → Prop
  | .tap (.accept _ _) => False
  | .tap (.deleteTapped _ _) => False
  | _ => True

/-- A tenant signs up, a landlord registers a property, and the tenant's request for it arrives. -/
theorem World.Reaches.first_request {C : World → World.Event → Prop}
    (hC : ∀ v ev, ev.Quiet → C v ev) (hQ : Q.val ∉ ["users", T.val])
    (hR : R.val ∉ ["users", T.val, "properties", L.val, Q.val]) :
    ∃ w, World.Reaches C w ∧ w.store = requestedStore L T Q R form ∧
      w.requests L = [firstRequest T Q R form] := by
  obtain ⟨w₁, h₁, hs₁, hq₁⟩ := World.Reaches.after_signUp .start T "tenants" "F" "N" "M"
    (hC _ _ trivial)
  replace hs₁ : w₁.store = signedUpStore T := hs₁
  have hfreshQ : FreshId w₁.store Q := hs₁ ▸ (freshId_empty Q).update hQ _
  obtain ⟨w₂, h₂, hs₂, hq₂⟩ := h₁.after_register L Q form (hC _ _ trivial) hfreshQ
  rw [hs₁] at hs₂
  have hfreshR : FreshId w₂.store R := by
    simp only [List.mem_cons, List.not_mem_nil, or_false, not_or] at hR
    rw [hs₂, registered]
    exact (((freshId_empty R).update (by simp [hR]) _).update (by simp [hR]) _).update
      (by simp [hR]) _
  have hu : w₂.store ["users", T.val] = some (userData T "tenants" "F" "N" "M") := by
    rw [hs₂, registered_of_ne (by simp) (by simp), signedUpStore, Function.update_self]
  have hprop : w₂.store ["properties", Q.val] =
      some (strings (form.data ++ [("landlord", L.val)])) := by
    rw [hs₂]
    exact registered_listing ..
  obtain ⟨w₃, h₃, hs₃, hq₃⟩ := h₂.after_request T L R Q.val
    (fun _ => ⟨hC _ _ trivial, hC _ _ trivial, hC _ _ trivial⟩) hu
    (by simp [userData] : _ = some "F") (by simp [userData] : _ = some "N")
    (document_id (by simp) Q) hprop (by simp [PropertyForm.data])
    (by simp [PropertyForm.data] : _ = some form.address) hfreshR
  refine ⟨w₃, h₃, ?_, ?_⟩
  · rw [hs₃, hs₂]
    rfl
  · rw [hq₃, Function.update_self, hq₂, hq₁]
    rfl

theorem requestedStore_own :
    requestedStore L T Q R form ["users", L.val, "properties", Q.val] =
      some (strings form.data) := by
  unfold requestedStore
  rw [Function.update_of_ne (by simp), registered_own]

end FirstRequest

section Instances

def listing : PropertyForm := ⟨"A", "15", "900", "2", "1", "700"⟩

def tenantRequest : Request := firstRequest tenant property request listing

theorem World.Reaches.tenant_request {C : World → World.Event → Prop}
    (hC : ∀ v ev, ev.Quiet → C v ev) :
    ∃ w, World.Reaches C w ∧ w.store = requestedStore landlord tenant property request listing ∧
      tenantRequest ∈ w.requests landlord := by
  obtain ⟨w, h, hs, hq⟩ := World.Reaches.first_request landlord tenant property request listing hC
    (by decide) (by decide)
  refine ⟨w, h, hs, ?_⟩
  rw [hq]
  exact List.mem_singleton_self _

theorem World.Reaches.tenant_accepted {C : World → World.Event → Prop} {w : World}
    (h : World.Reaches C w) (hmem : tenantRequest ∈ w.requests landlord)
    (hc : C w (.tap (.accept landlord tenantRequest))) :
    ∃ w', World.Reaches C w' ∧ w'.store = accepted w.store tenantRequest
      ["users", "L", "requests", "R"] ["users", "T"] ["users", "L", "properties", "Q"] := by
  obtain ⟨w', h', hs', -⟩ := h.after_accept landlord tenantRequest hmem
    ["users", "L", "requests", "R"] ["users", "T"] ["users", "L", "properties", "Q"] (by decide)
    (by decide) (by decide) hc
  exact ⟨w', h', hs'⟩

end Instances
end Zeenoc
