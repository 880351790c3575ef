import Zeenoc.Login
import Zeenoc.Utilities

/-! Logins that overlap: the user signed in when a screen opens need not be the one whose document
was read. -/

namespace Zeenoc.LoginVC
open Firestore

structure Credentials where
  email : String
  password : String

/-- A read of the cache that is still to come, with the users who have signed in since a callback
asked for it. -/
structure Read where
  asked : DocumentId
  since : List DocumentId

def Read.signedIn (r : Read) (u : DocumentId) : Read := { r with since := r.since ++ [u] }

/-- `callbacks` counts the sign-ins that have succeeded and whose callback is to run. -/
structure Screen where
  form : Credentials
  currentUser : Option DocumentId
  cache : DocumentId → Option Fields
  inFlight : List Credentials
  callbacks : ℕ
  reads : List Read

def loaded (cache : DocumentId → Option Fields) : Screen := ⟨⟨"", ""⟩, none, cache, [], 0, []⟩

inductive Event where
  | edit (form : Credentials)
  | loginTapped
  | completed (i : ℕ) (uid : DocumentId)
  | failed (i : ℕ)
  | callback
  | cached (uid : DocumentId) (d : Option Fields)
  | cacheRead (k : ℕ)

def Credentials.trimmed (c : Credentials) : Credentials :=
  ⟨Zeenoc.trimmed c.email, Zeenoc.trimmed c.password⟩

/-- A cast that fails ends the app, and with it the run. -/
inductive Step : Screen → Event → Screen → Prop
  | edit {s : Screen} (form : Credentials) : Step s (.edit form) { s with form := form }
  | loginTapped {s : Screen} :
      Step s .loginTapped { s with inFlight := s.inFlight ++ [s.form.trimmed] }
  | completed {s : Screen} {i : ℕ} (u : DocumentId) (hi : i < s.inFlight.length) :
      Step s (.completed i u) { s with
        inFlight := s.inFlight.eraseIdx i
        currentUser := some u
        callbacks := s.callbacks + 1
        reads := s.reads.map (·.signedIn u) }
  | failed {s : Screen} {i : ℕ} (hi : i < s.inFlight.length) :
      Step s (.failed i) { s with inFlight := s.inFlight.eraseIdx i }
  | callback {s : Screen} {n : ℕ} {u : DocumentId} (hn : s.callbacks = n + 1)
      (hu : s.currentUser = some u) :
      Step s .callback { s with callbacks := n, reads := s.reads ++ [⟨u, []⟩] }
  | cached {s : Screen} (u : DocumentId) (d : Option Fields) :
      Step s (.cached u d) { s with cache := Function.update s.cache u d }
  | cacheRead {s : Screen} {k : ℕ} {r : Read} {opened : Option Segue}
      (hk : s.reads[k]? = some r) (hroute : route (s.cache r.asked) = some opened) :
      Step s (.cacheRead k) { s with reads := s.reads.eraseIdx k }

def SameKind (d d' : Option Fields) : Prop :=
  ∃ f f', d = some f ∧ d' = some f' ∧ f.getString "accountType" = f'.getString "accountType" ∧
    (f.getString "accountType" = some "tenants" → f.getString "paired" = f'.getString "paired")

theorem SameKind.opens {f f' : Fields} (h : SameKind (some f) (some f')) {segue : Segue}
    (hf : Opens f segue) : Opens f' segue := by
  obtain ⟨_, _, hd, hd', htype, hpaired⟩ := h
  obtain rfl := Option.some.inj hd
  obtain rfl := Option.some.inj hd'
  cases segue with
  | landlordTabBarController => exact htype.symm.trans hf
  | connectPropertyVC => exact ⟨htype.symm.trans hf.1, (hpaired hf.1).symm.trans hf.2⟩
  | tenantTabBarController => exact ⟨htype.symm.trans hf.1, (hpaired hf.1).symm.trans hf.2⟩

theorem sameKind_of_opens {f f' : Fields} {segue : Segue} (hf : Opens f segue)
    (hf' : Opens f' segue) : SameKind (some f) (some f') := by
  refine ⟨f, f', rfl, rfl, ?_, fun htenants => ?_⟩
  · cases segue with
    | landlordTabBarController => exact hf.trans hf'.symm
    | connectPropertyVC => exact hf.1.trans hf'.1.symm
    | tenantTabBarController => exact hf.1.trans hf'.1.symm
  · cases segue with
    | landlordTabBarController => exact absurd (htenants.symm.trans hf) (by decide)
    | connectPropertyVC => exact hf.2.trans hf'.2.symm
    | tenantTabBarController => exact hf.2.trans hf'.2.symm

theorem sameKind_iff {d d' : Option Fields} {segue : Segue} (hd : route d = some (some segue)) :
    SameKind d d' ↔ route d' = some (some segue) := by
  cases d with
  | none => simp [route] at hd
  | some f =>
    have hf := route_eq_some_iff.mp hd
    cases d' with
    | none => exact iff_of_false (by rintro ⟨_, _, _, h, _⟩; cases h) (by simp [route])
    | some f' =>
      rw [route_eq_some_iff]
      exact ⟨fun h => h.opens hf, sameKind_of_opens hf⟩

/-- A read asks for the document of the user who was signed in then, and the user now signed in is
the last of those since. -/
def Kept (s : Screen) : Prop :=
  ∀ r ∈ s.reads, s.currentUser = some (r.since.getLast?.getD r.asked)

theorem Kept.step {s s' : Screen} {e : Event} (h : Kept s) (hs : Step s e s') : Kept s' := by
  cases hs with
  | edit => exact h
  | loginTapped => exact h
  | completed u =>
    intro r hr
    obtain ⟨r, -, rfl⟩ := List.mem_map.mp hr
    simp [Read.signedIn]
  | failed => exact h
  | callback hn hu =>
    intro r hr
    rcases List.mem_append.mp hr with hr | hr
    · exact h r hr
    · rw [List.mem_singleton.mp hr]
      exact hu
  | cached => exact h
  | cacheRead => exact fun r hr => h r (List.mem_of_mem_eraseIdx hr)

theorem kept_of_run {cache : DocumentId → Option Fields} {es : List Event} {s : Screen}
    (h : Runs.Run Step (loaded cache) es s) : Kept s :=
  h.invariant (I := fun _ s => Kept s) (fun _ hr => absurd hr List.not_mem_nil)
    fun _ _ _ _ hk hs => hk.step hs

variable (cache : DocumentId → Option Fields) (es : List Event)

/-- Each screen that opens is the one of the user then signed in. -/
def ScreensBelong : Prop :=
  ∀ before k after, es = before ++ .cacheRead k :: after → ∀ s,
    Runs.Run Step (loaded cache) before s → ∀ r segue, s.reads[k]? = some r →
      route (s.cache r.asked) = some (some segue) →
        ∃ u, s.currentUser = some u ∧ route (s.cache u) = some (some segue)

/-- Where a screen opens, the last user to have signed in since the callback asked for the document
has one of the same kind. -/
def NotOvertaken : Prop :=
  ∀ before k after, es = before ++ .cacheRead k :: after → ∀ s,
    Runs.Run Step (loaded cache) before s → ∀ r segue, s.reads[k]? = some r →
      route (s.cache r.asked) = some (some segue) →
        ∀ u, r.since.getLast? = some u → SameKind (s.cache r.asked) (s.cache u)

theorem screens_belong_iff : ScreensBelong cache es ↔ NotOvertaken cache es := by
  constructor
  · intro h before k after hsplit s hrun r segue hk hroute u hlast
    obtain ⟨v, hv, hown⟩ := h before k after hsplit s hrun r segue hk hroute
    have hcurrent := kept_of_run hrun r (List.mem_of_getElem? hk)
    rw [hlast, Option.getD_some] at hcurrent
    obtain rfl := Option.some.inj (hv.symm.trans hcurrent)
    exact (sameKind_iff hroute).mpr hown
  · intro h before k after hsplit s hrun r segue hk hroute
    have hcurrent := kept_of_run hrun r (List.mem_of_getElem? hk)
    refine ⟨_, hcurrent, ?_⟩
    cases hlast : r.since.getLast? with
    | none => exact hroute
    | some u =>
      have hkind := h before k after hsplit s hrun r segue hk hroute u hlast
      exact (sameKind_iff hroute).mp hkind

section Alone

/-- The button does nothing while a login is going on. -/
def Alone (s : Screen) (e : Event) : Prop :=
  e = .loginTapped → s.inFlight = [] ∧ s.callbacks = 0 ∧ s.reads = []

structure AtMostOne (s : Screen) : Prop where
  count : s.inFlight.length + s.callbacks + s.reads.length ≤ 1
  since : ∀ r ∈ s.reads, r.since = []

theorem AtMostOne.step {s s' : Screen} {e : Event} (h : AtMostOne s) (hc : Alone s e)
    (hs : Step s e s') : AtMostOne s' := by
  have hcount := h.count
  cases hs with
  | edit => exact ⟨hcount, h.since⟩
  | loginTapped =>
    obtain ⟨hinFlight, hcallbacks, hreads⟩ := hc rfl
    refine ⟨by simp [hinFlight, hcallbacks, hreads], h.since⟩
  | completed u hi =>
    -- the one login is this one, and it has not come to its read
    have hreads : s.reads = [] := List.length_eq_zero_iff.mp (by omega)
    refine ⟨?_, by simp [hreads]⟩
    simp only [List.length_eraseIdx, hi, if_true, hreads, List.map_nil, List.length_nil]
    omega
  | failed hi =>
    refine ⟨?_, h.since⟩
    simp only [List.length_eraseIdx, hi, if_true]
    omega
  | callback hn hu =>
    refine ⟨?_, fun r hr => ?_⟩
    · simp only [List.length_append, List.length_singleton]
      omega
    · rcases List.mem_append.mp hr with hr | hr
      · exact h.since r hr
      · rw [List.mem_singleton.mp hr]
  | cached => exact ⟨hcount, h.since⟩
  | cacheRead hk =>
    exact ⟨(Nat.add_le_add_left (List.length_eraseIdx_le ..) _).trans hcount,
      fun r hr => h.since r (List.mem_of_mem_eraseIdx hr)⟩

theorem asked_of_alone {s : Screen} (h : Runs.Reaches Step Alone (loaded cache) s) :
    ∀ r ∈ s.reads, s.currentUser = some r.asked := by
  have hinv : Kept s ∧ AtMostOne s := by
    apply h.invariant (I := fun s => Kept s ∧ AtMostOne s)
    · exact ⟨fun _ hr => absurd hr List.not_mem_nil, by simp [loaded],
        fun _ hr => absurd hr List.not_mem_nil⟩
    · exact fun _ _ _ hi hc hs => ⟨hi.1.step hs, hi.2.step hc hs⟩
  intro r hr
  have hcurrent := hinv.1 r hr
  rwa [hinv.2.since r hr] at hcurrent

end Alone

section Instances

def twoUsers (u : DocumentId) : Option Fields :=
  if u = landlord then some (userData landlord "landlords" "F" "N" "M")
  else if u = tenant then some (userData tenant "tenants" "F" "N" "O")
  else none

def overtakingLogin : List Event := [.edit ⟨"O", "tenant12"⟩, .loginTapped,
  .edit ⟨"M", "landlord"⟩, .loginTapped, .completed 0 tenant, .callback, .completed 0 landlord]

/-- The tenant's document is asked for, the landlord signs in, and the screen that opens for the
landlord is the tenant's. -/
theorem landlord_at_connect :
    (∃ s, Runs.Run Step (loaded twoUsers) (overtakingLogin ++ [.cacheRead 0]) s) ∧
      ¬ ScreensBelong twoUsers (overtakingLogin ++ [.cacheRead 0]) := by
  have hfirst : Runs.Run Step (loaded twoUsers) [.edit ⟨"O", "tenant12"⟩, .loginTapped] _ :=
    (Runs.Run.start.step (.edit ⟨"O", "tenant12"⟩)).step .loginTapped
  have htapped := (hfirst.step (.edit ⟨"M", "landlord"⟩)).step .loginTapped
  have hasked := (htapped.step (.completed (i := 0) tenant (by decide))).step (.callback rfl rfl)
  have hrun : Runs.Run Step (loaded twoUsers) overtakingLogin _ :=
    hasked.step (.completed landlord (by decide))
  have hroute : route (twoUsers tenant) = some (some .connectPropertyVC) := by decide
  refine ⟨⟨_, hrun.step (.cacheRead rfl hroute)⟩, fun h => ?_⟩
  obtain ⟨u, hu, hown⟩ := h overtakingLogin 0 [] rfl _ hrun _ .connectPropertyVC rfl hroute
  obtain rfl := Option.some.inj hu
  exact absurd hown (by decide)

end Instances

end Zeenoc.LoginVC
