import Zeenoc.Library.Runs
import Zeenoc.Operations

/-! Where a login leads, and the copy of the user document that decides it. -/

namespace Zeenoc
open Firestore

namespace LoginVC

inductive Segue where
  | landlordTabBarController
  | connectPropertyVC
  | tenantTabBarController
  deriving DecidableEq

/-- The callback of the cache read in `loginTapped`: `none` is a failed cast, `some none` a login
that opens no screen. -/
def route : Option Fields → Option (Option Segue)
  | none => some none
  | some document => do
    let type ← document.getString "accountType"
    if type = "landlords" then some (some .landlordTabBarController)
    else if type = "tenants" then do
      let paired ← document.getString "paired"
      if paired = "false" then some (some .connectPropertyVC)
      else if paired = "true" then some (some .tenantTabBarController)
      else some none
    else some none

def Opens (f : Fields) : Segue → Prop
  | .landlordTabBarController => f.getString "accountType" = some "landlords"
  | .connectPropertyVC =>
    f.getString "accountType" = some "tenants" ∧ f.getString "paired" = some "false"
  | .tenantTabBarController =>
    f.getString "accountType" = some "tenants" ∧ f.getString "paired" = some "true"

theorem route_eq_some_iff {f : Fields} {segue : Segue} :
    route (some f) = some (some segue) ↔ Opens f segue := by
  unfold route
  cases htype : f.getString "accountType" with
  | none => cases segue <;> simp [Opens, htype]
  | some type =>
    by_cases hlandlords : type = "landlords"
    · subst type
      cases segue <;> simp [Opens, htype]
    · by_cases htenants : type = "tenants"
      · subst type
        cases hpaired : f.getString "paired" with
        | none => cases segue <;> simp [Opens, htype, hpaired]
        | some paired =>
          by_cases hfalse : paired = "false"
          · subst paired
            cases segue <;> simp [Opens, htype, hpaired]
          · by_cases htrue : paired = "true" <;>
              cases segue <;> simp [Opens, htype, hpaired, hfalse, htrue]
      · cases segue <;> simp [Opens, htype, hlandlords, htenants]

end LoginVC

/-- The document of one tenant on the server and in the cache of the tenant's device, and the logins
whose cache read is still to come; `true` marks those that began with the tenant paired. -/
structure TenantDevice where
  server : Option Fields
  cache : Option Fields
  logins : List Bool

namespace TenantDevice
open LoginVC

inductive Event where
  | sendRequest (ok : Bool)
  | accept (propertyID : String)
  | logOut
  | loginTapped
  | cacheRead (i : ℕ)

def PairedOnServer (s : TenantDevice) : Prop :=
  ∃ d, s.server = some d ∧ d.getString "paired" = some "true"

def signedUp (T : DocumentId) (firstName lastName email : String) : TenantDevice :=
  ⟨some (userData T "tenants" firstName lastName email),
    some (userData T "tenants" firstName lastName email), []⟩

/-- Only the first read of `sendRequestTapped` brings the server's copy into the cache; an
acceptance is another device's write. -/
inductive Step : TenantDevice → Event → TenantDevice → Prop
  | sendRequest {s : TenantDevice} (ok : Bool) :
      Step s (.sendRequest ok) { s with cache := if ok then s.server else s.cache }
  | accept {s : TenantDevice} (P : String) :
      Step s (.accept P) { s with
        server := some ((strings [("paired", "true"), ("properyID", P)]).merge s.server) }
  | logOut {s : TenantDevice} : Step s .logOut s
  | loginPaired {s : TenantDevice} (h : s.PairedOnServer) :
      Step s .loginTapped { s with logins := s.logins ++ [true] }
  | loginUnpaired {s : TenantDevice} (h : ¬ s.PairedOnServer) :
      Step s .loginTapped { s with logins := s.logins ++ [false] }
  | cacheRead {s : TenantDevice} {i : ℕ} (h : i < s.logins.length) :
      Step s (.cacheRead i) { s with logins := s.logins.eraseIdx i }

def Refreshed (es : List Event) : Prop :=
  ∃ before after, es = before ++ .sendRequest true :: after ∧ ∃ P, .accept P ∈ before

theorem refreshed_append (es : List Event) (e : Event) :
    Refreshed (es ++ [e]) ↔
      Refreshed es ∨ (e = .sendRequest true ∧ ∃ P, Event.accept P ∈ es) := by
  constructor
  · rintro ⟨before, after, hsplit, hacc⟩
    rcases List.eq_nil_or_concat after with rfl | ⟨after, last, rfl⟩
    · obtain ⟨rfl, hlast⟩ := List.append_inj' hsplit rfl
      exact .inr ⟨(List.cons.inj hlast).1, hacc⟩
    · have hsplit' : es ++ [e] = (before ++ .sendRequest true :: after) ++ [last] := by
        simpa using hsplit
      exact .inl ⟨before, after, (List.append_inj' hsplit' rfl).1, hacc⟩
  · rintro (⟨before, after, rfl, hacc⟩ | ⟨rfl, hacc⟩)
    · exact ⟨before, after ++ [e], by simp, hacc⟩
    · exact ⟨es, [], rfl, hacc⟩

theorem Refreshed.accepted {es : List Event} (h : Refreshed es) : ∃ P, Event.accept P ∈ es := by
  obtain ⟨before, after, rfl, P, hP⟩ := h
  exact ⟨P, List.mem_append_left _ hP⟩

def Copy (d : Option Fields) (paired : Prop) : Prop :=
  ∃ f, d = some f ∧ f.getString "accountType" = some "tenants" ∧
    ((paired ∧ f.getString "paired" = some "true") ∨
      (¬ paired ∧ f.getString "paired" = some "false"))

theorem Copy.congr {d : Option Fields} {p q : Prop} (h : Copy d p) (hpq : p ↔ q) : Copy d q := by
  rwa [propext hpq] at h

structure Kept (es : List Event) (s : TenantDevice) : Prop where
  server : Copy s.server (∃ P, Event.accept P ∈ es)
  cache : Copy s.cache (Refreshed es)

theorem Kept.step {es : List Event} {s s' : TenantDevice} {e : Event} (h : Kept es s)
    (hs : Step s e s') : Kept (es ++ [e]) s' := by
  have hserver : ∀ e : Event, (∀ P, e ≠ .accept P) →
      ((∃ P, Event.accept P ∈ es) ↔ ∃ P, Event.accept P ∈ es ++ [e]) := by
    intro e he
    simp only [List.mem_append, List.mem_singleton]
    exact ⟨fun ⟨P, hP⟩ => ⟨P, .inl hP⟩, fun ⟨P, hP⟩ => ⟨P, hP.resolve_right (he P ·.symm)⟩⟩
  have hcache : ∀ e : Event, e ≠ .sendRequest true → (Refreshed es ↔ Refreshed (es ++ [e])) := by
    intro e he
    rw [refreshed_append]
    exact ⟨.inl, fun h => h.resolve_right fun h' => he h'.1⟩
  cases hs with
  | sendRequest ok =>
    refine ⟨h.server.congr (hserver _ (by simp)), ?_⟩
    cases ok with
    | false => exact h.cache.congr (hcache _ (by simp))
    | true =>
      refine h.server.congr ?_
      rw [refreshed_append]
      exact ⟨fun hacc => .inr ⟨rfl, hacc⟩, fun hor => hor.elim Refreshed.accepted And.right⟩
  | accept P =>
    refine ⟨?_, h.cache.congr (hcache _ (by simp))⟩
    -- the merge leaves the account type as it was
    obtain ⟨f, hf, htype, -⟩ := h.server
    refine ⟨_, rfl, ?_, .inl ⟨⟨P, by simp⟩, merge_of_some (by simp) _⟩⟩
    rw [hf, merge_of_none (by simp), htype]
  | logOut => exact ⟨h.server.congr (hserver _ (by simp)), h.cache.congr (hcache _ (by simp))⟩
  | loginPaired => exact ⟨h.server.congr (hserver _ (by simp)), h.cache.congr (hcache _ (by simp))⟩
  | loginUnpaired =>
    exact ⟨h.server.congr (hserver _ (by simp)), h.cache.congr (hcache _ (by simp))⟩
  | cacheRead => exact ⟨h.server.congr (hserver _ (by simp)), h.cache.congr (hcache _ (by simp))⟩

variable (T : DocumentId) (firstName lastName email : String)

theorem kept_signedUp : Kept [] (signedUp T firstName lastName email) := by
  have hcopy : ∀ paired : Prop, ¬ paired →
      Copy (some (userData T "tenants" firstName lastName email)) paired := by
    intro paired hno
    exact ⟨_, rfl, by simp [userData], .inr ⟨hno, by simp [userData]⟩⟩
  have hrefreshed : ¬ Refreshed [] := by
    rintro ⟨before, after, hsplit, -⟩
    simp at hsplit
  exact ⟨hcopy _ (by simp), hcopy _ hrefreshed⟩

theorem route_of_run {es : List Event} {s : TenantDevice}
    (h : Runs.Run Step (signedUp T firstName lastName email) es s) :
    route s.cache = some (some .tenantTabBarController) ∧ Refreshed es ∨
      route s.cache = some (some .connectPropertyVC) ∧ ¬ Refreshed es := by
  have hkept : Kept es s := Runs.Run.invariant (kept_signedUp T firstName lastName email)
    (fun _ _ _ _ hk hs => hk.step hs) h
  obtain ⟨f, hf, htype, ⟨hr, hpaired⟩ | ⟨hr, hpaired⟩⟩ := hkept.cache
  · exact .inl ⟨by simp [hf, route, htype, hpaired], hr⟩
  · exact .inr ⟨by simp [hf, route, htype, hpaired], hr⟩

def RoutesRight (es : List Event) : Prop :=
  ∀ before i after, es = before ++ .cacheRead i :: after → ∀ s,
    Runs.Run Step (signedUp T firstName lastName email) before s → s.logins[i]? = some true →
      route s.cache = some (some .tenantTabBarController)

/-- Such a login reads the cache after the tenant's device has read the server's copy, and that
after an acceptance. -/
def ReadInTime (es : List Event) : Prop :=
  ∀ before i after, es = before ++ .cacheRead i :: after → ∀ s,
    Runs.Run Step (signedUp T firstName lastName email) before s → s.logins[i]? = some true →
      Refreshed before

theorem login_routes_iff (es : List Event) :
    RoutesRight T firstName lastName email es ↔ ReadInTime T firstName lastName email es := by
  have hread : ∀ before s, Runs.Run Step (signedUp T firstName lastName email) before s →
      (route s.cache = some (some .tenantTabBarController) ↔ Refreshed before) := by
    intro before s hrun
    rcases route_of_run T firstName lastName email hrun with ⟨hroute, hr⟩ | ⟨hroute, hr⟩
    · exact iff_of_true hroute hr
    · exact iff_of_false (by simp [hroute]) hr
  constructor
  · intro h before i after hsplit s hrun hlogin
    exact (hread before s hrun).mp (h before i after hsplit s hrun hlogin)
  · intro h before i after hsplit s hrun hlogin
    exact (hread before s hrun).mpr (h before i after hsplit s hrun hlogin)

section Instances

/-- The tenant logs out and in again after the approval, and is sent back to ask for a property. -/
theorem approved_login_connects :
    ¬ RoutesRight tenant "F" "N" "M" [.sendRequest true, .accept "Q", .logOut, .loginTapped,
      .cacheRead 0] ∧
    ∃ s, Runs.Run Step (signedUp tenant "F" "N" "M") [.sendRequest true, .accept "Q", .logOut,
      .loginTapped] s ∧ s.logins = [true] ∧ route s.cache = some (some .connectPropertyVC) := by
  have hpaired : PairedOnServer ⟨some ((strings [("paired", "true"), ("properyID", "Q")]).merge
      (some (userData tenant "tenants" "F" "N" "M"))),
      some (userData tenant "tenants" "F" "N" "M"), []⟩ := ⟨_, rfl, by decide⟩
  have hrun : Runs.Run Step (signedUp tenant "F" "N" "M") [.sendRequest true, .accept "Q",
      .logOut, .loginTapped] _ :=
    (((Runs.Run.start.step (.sendRequest true)).step (.accept "Q")).step .logOut).step
      (.loginPaired hpaired)
  refine ⟨fun hright => ?_, _, hrun, rfl, by decide⟩
  have hroute := hright _ 0 [] rfl _ hrun rfl
  exact absurd hroute (by decide)

end Instances

end TenantDevice
end Zeenoc
