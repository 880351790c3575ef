import Zeenoc.LoginAttempts
import Zeenoc.SignUpVC
import Zeenoc.SoundDocuments

/-! The world together with the sign-up screens: every user document that has ever been there leads
a login to one screen. -/

namespace Zeenoc
open Firestore Interleaving

namespace SignUpVC

structure Visit where
  form : Form
  accountType : String
  inFlight : List Attempt
  callbacks : List Attempt
  currentUser : Option DocumentId

def Visit.loaded : Visit := ⟨⟨"", "", "", ""⟩, "tenants", [], [], none⟩

end SignUpVC

structure System (ι : Type) where
  world : World
  visits : ι → SignUpVC.Visit

namespace System
open SignUpVC
variable {ι : Type} [DecidableEq ι]

inductive Event (ι : Type) where
  | edit (i : ι) (form : Form)
  | accountChanged (i : ι) (selectedSegmentIndex : ℤ)
  | signUpTapped (i : ι)
  | created (i : ι) (j : ℕ) (uid : DocumentId)
  | failed (i : ι) (j : ℕ)
  | signedIn (i : ι) (user : Option DocumentId)
  | callback (i : ι) (j : ℕ)
  | world (ev : World.Event)

def initial : System ι := ⟨World.initial, fun _ => Visit.loaded⟩

def visit (s : System ι) (i : ι) (v : Visit) : System ι :=
  { s with visits := Function.update s.visits i v }

theorem visit_self (s : System ι) (i : ι) (v : Visit) : (s.visit i v).visits i = v :=
  Function.update_self ..

def signUp (a : Attempt) : Action :=
  .signUpCompleted (trimmed a.form.firstName) (trimmed a.form.lastName) (trimmed a.form.email)

def IsSignUp : World.Event → Prop
  | .tap (.signUpCompleted _ _ _) => True
  | _ => False

/-- The success branch of a sign-up is the callback of its screen; all else is as in the world. -/
inductive Step : System ι → Event ι → System ι → Prop
  | edit {s : System ι} (i : ι) (form : Form) :
      Step s (.edit i form) (s.visit i { s.visits i with form := form })
  | accountChanged {s : System ι} (i : ι) (n : ℤ) : Step s (.accountChanged i n)
      (s.visit i { s.visits i with
        accountType := SignUpVC.accountChanged n (s.visits i).accountType })
  | refused {s : System ι} {i : ι} (h : validateFields (s.visits i).form ≠ none) :
      Step s (.signUpTapped i) s
  | signUpTapped {s : System ι} {i : ι} (h : validateFields (s.visits i).form = none) :
      Step s (.signUpTapped i) (s.visit i { s.visits i with
        inFlight := (s.visits i).inFlight ++ [⟨(s.visits i).form, (s.visits i).accountType⟩] })
  | created {s : System ι} {i : ι} {j : ℕ} {a : Attempt} (u : DocumentId)
      (ha : (s.visits i).inFlight[j]? = some a) :
      Step s (.created i j u) (s.visit i { s.visits i with
        inFlight := (s.visits i).inFlight.eraseIdx j
        callbacks := (s.visits i).callbacks ++ [a]
        currentUser := some u })
  | failed {s : System ι} {i : ι} {j : ℕ} (hj : j < (s.visits i).inFlight.length) :
      Step s (.failed i j) (s.visit i { s.visits i with
        inFlight := (s.visits i).inFlight.eraseIdx j })
  | signedIn {s : System ι} (i : ι) (user : Option DocumentId) :
      Step s (.signedIn i user) (s.visit i { s.visits i with currentUser := user })
  | callback {s : System ι} {i : ι} {j : ℕ} {a : Attempt} (e : Device) (ids : ℕ → DocumentId)
      (ha : (s.visits i).callbacks[j]? = some a)
      (huser : e.currentUser = (s.visits i).currentUser)
      (htype : e.accountType = (s.visits i).accountType) :
      Step s (.callback i j) { s.visit i { s.visits i with
        callbacks := (s.visits i).callbacks.eraseIdx j } with
          world := s.world.tap e ids (signUp a) }
  | world {s : System ι} {ev : World.Event} {w : World} (hev : ¬ IsSignUp ev)
      (hs : World.Step s.world ev w) : Step s (.world ev) { s with world := w }

theorem freshFor_signUp (e : Device) (ids : ℕ → DocumentId) (a : Attempt) (σ : Store) :
    Prog.FreshFor FreshId e ids (signUp a).program σ := by
  show Prog.FreshFor FreshId e ids (Prog.force e.currentUser >>= _) σ
  cases e.currentUser <;> trivial

theorem reaches_world {s : System ι}
    (h : Runs.Reaches Step (fun _ _ => True) (initial : System ι) s) :
    World.Reaches (fun _ _ => True) s.world := by
  apply h.invariant (I := fun s => World.Reaches (fun _ _ => True) s.world) .start
  intro s e s' hr _ hs
  cases hs with
  | edit => exact hr
  | accountChanged => exact hr
  | refused => exact hr
  | signUpTapped => exact hr
  | created => exact hr
  | failed => exact hr
  | signedIn => exact hr
  | callback e ids ha =>
    exact hr.step trivial (.tap e ids _ trivial (freshFor_signUp e ids _ s.world.store))
  | world hev hs => exact hr.step trivial hs

def AccountType (type : String) : Prop := type = "tenants" ∨ type = "landlords"

theorem accountType_changed {type : String} (h : AccountType type) (n : ℤ) :
    AccountType (SignUpVC.accountChanged n type) := by
  unfold SignUpVC.accountChanged
  split
  · exact .inl rfl
  · exact .inr rfl
  · exact h

structure Sound (s : System ι) : Prop where
  world : s.world.Sound AccountType
  visits : ∀ i, AccountType (s.visits i).accountType

theorem Sound.visit {s : System ι} (h : s.Sound) (i : ι) {v : Visit}
    (hv : AccountType v.accountType) : (s.visit i v).Sound := by
  refine ⟨h.world, fun i' => ?_⟩
  show AccountType (Function.update s.visits i v i').accountType
  rw [Function.update_apply]
  split_ifs
  · exact hv
  · exact h.visits i'

theorem Sound.moved {s : System ι} (h : s.Sound) {w : World} (hw : w.Sound AccountType) (i : ι)
    {v : Visit} (hv : AccountType v.accountType) : Sound { s.visit i v with world := w } :=
  ⟨hw, (h.visit i hv).visits⟩

theorem Sound.step {s s' : System ι} {e : Event ι} (h : s.Sound) (hs : Step s e s') :
    s'.Sound := by
  cases hs with
  | edit i => exact h.visit i (h.visits i)
  | accountChanged i n => exact h.visit i (accountType_changed (h.visits i) n)
  | refused => exact h
  | signUpTapped => exact h.visit _ (h.visits _)
  | created => exact h.visit _ (h.visits _)
  | failed => exact h.visit _ (h.visits _)
  | signedIn i => exact h.visit i (h.visits i)
  | @callback i j a e ids ha huser htype =>
    have htypes : AccountType e.accountType := htype ▸ h.visits i
    exact h.moved (h.world.tap e ids (signUp a) trivial (freshFor_signUp e ids a _)
      fun _ _ _ _ => htypes) i (h.visits i)
  | world hev hs =>
    refine ⟨h.world.step (fun _ _ _ ha => ?_) hs, h.visits⟩
    subst ha
    exact (hev trivial).elim

theorem opens_one {d : Fields} (h : UserComplete AccountType d) :
    ∃! segue, LoginVC.route (some d) = some (some segue) := by
  have hopens : ∃ segue, LoginVC.Opens d segue := by
    obtain ⟨type, htype, rfl | rfl⟩ := h.accountType
    · rcases h.paired with hpaired | hpaired
      · exact ⟨.tenantTabBarController, htype, hpaired⟩
      · exact ⟨.connectPropertyVC, htype, hpaired⟩
    · exact ⟨.landlordTabBarController, htype⟩
  obtain ⟨segue, hsegue⟩ := hopens
  have hroute := LoginVC.route_eq_some_iff.mpr hsegue
  exact ⟨segue, hroute, fun other hother => by simpa [hroute] using hother.symm⟩

theorem user_documents_route {s : System ι}
    (h : Runs.Reaches Step (fun _ _ => True) (initial : System ι) s) :
    ∀ σ ∈ s.world.store :: s.world.past, ∀ u d, σ ["users", u] = some d →
      UserComplete AccountType d ∧
      (∃! segue, LoginVC.route (some d) = some (some segue)) ∧
      ∃ firstName lastName, d.getString "firstName" = some firstName ∧
        d.getString "lastName" = some lastName ∧
        ∀ T, lookUpProperty T (some (some d)) = .ask fun device =>
          Prog.force (document ["properties"] device.properyIDText) >>= fun p =>
            .read p (sendRequest T (firstName ++ " " ++ lastName)) := by
  have hsound : s.Sound :=
    h.invariant (I := Sound) ⟨World.sound_initial, fun _ => .inl rfl⟩
      fun _ _ _ hi _ hs => hi.step hs
  intro σ hσ u d hd
  have hcomplete := (hsound.world.history σ hσ).1.users u d hd
  obtain ⟨firstName, hfirst⟩ := hcomplete.firstName
  obtain ⟨lastName, hlast⟩ := hcomplete.lastName
  refine ⟨hcomplete, opens_one hcomplete, firstName, lastName, hfirst, hlast, fun T => ?_⟩
  simp only [lookUpProperty, hfirst, hlast, Prog.force_some, Prog.bind_pure_con, Prog.look_bind,
    getDocument_bind]

section Instances

def firstUser : Fields := userData tenant "tenants" (trimmed "F") (trimmed "N") (trimmed "M")

theorem run_of_signUp : ∃ s : System Unit, Runs.Reaches Step (fun _ _ => True) initial s ∧
    s.world.store ["users", "T"] = some firstUser := by
  have hform : validateFields (formOf "M") = none := formOf_valid.1
  have hedited : Runs.Reaches Step (fun _ _ => True) (initial : System Unit)
      (initial.visit () { Visit.loaded with form := formOf "M" }) :=
    Runs.Reaches.start.step trivial (.edit () (formOf "M"))
  have htapped := hedited.step trivial (.signUpTapped (i := ()) (by
    rw [visit_self]
    exact hform))
  have hcreated := htapped.step trivial (.created (i := ()) (j := 0) (a := ⟨formOf "M", "tenants"⟩)
    tenant (by rw [visit_self, visit_self]; rfl))
  refine ⟨_, hcreated.step trivial (.callback (i := ()) (j := 0) (a := ⟨formOf "M", "tenants"⟩)
    ⟨some tenant, "", "tenants"⟩ (fun _ => newId) ?_ ?_ ?_), ?_⟩
  · rw [visit_self, visit_self, visit_self]
    rfl
  · rw [visit_self]
  · rw [visit_self, visit_self, visit_self]
    rfl
  · show (Prog.turn ⟨some tenant, "", "tenants"⟩ (fun _ => newId)
      (signUp ⟨formOf "M", "tenants"⟩).program fun _ => none).1 ["users", "T"] = some firstUser
    rw [signUp, Action.program, turn_signUpCompleted]
    rfl

theorem signed_up_user_routes : ∃ s : System Unit,
    Runs.Reaches Step (fun _ _ => True) initial s ∧ s.world.store ["users", "T"] = some firstUser ∧
      ∃! segue, LoginVC.route (some firstUser) = some (some segue) := by
  obtain ⟨s, hreach, hstore⟩ := run_of_signUp
  exact ⟨s, hreach, hstore,
    (user_documents_route hreach _ List.mem_cons_self "T" firstUser hstore).2.1⟩

end Instances
end System
end Zeenoc
