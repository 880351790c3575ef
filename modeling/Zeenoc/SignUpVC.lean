import Mathlib.Data.List.Nodup
import Mathlib.Data.List.Perm.Basic
import Zeenoc.Library.Runs
import Zeenoc.Turns
import Zeenoc.Utilities

/-! The sign-up screen: taps, edits, the accounts that `createUser` makes, and its callbacks. -/

namespace Zeenoc.SignUpVC
open Firestore Interleaving

structure Form where
  firstName : String
  lastName : String
  email : String
  password : String

/-- The text of the error that keeps the form from being sent. -/
def validateFields (form : Form) : Option String :=
  if Utilities.isPasswordValid (trimmed form.password) = false then
    some "Password must contain: 8 characters, a number, special character"
  else if trimmed form.firstName = "" ∨ trimmed form.lastName = "" ∨ trimmed form.email = "" ∨
      trimmed form.password = "" then
    some "Please fill in all fields"
  else none

def accountChanged (selectedSegmentIndex : ℤ) (accountType : String) : String :=
  match selectedSegmentIndex with
  | 0 => "tenants"
  | 1 => "landlords"
  | _ => accountType

structure Attempt where
  form : Form
  accountType : String

structure Account where
  uid : DocumentId
  attempt : Attempt

/-- A callback that has run, with what it found: the current user and the account type. -/
structure Ran where
  account : Account
  currentUser : DocumentId
  accountType : String

structure Screen where
  form : Form
  accountType : String
  inFlight : List Attempt
  callbacks : List Account
  currentUser : Option DocumentId
  store : Store
  accounts : List Account
  ran : List Ran

def loaded (σ : Store) : Screen := ⟨⟨"", "", "", ""⟩, "tenants", [], [], none, σ, [], []⟩

inductive Event where
  | edit (form : Form)
  | accountChanged (selectedSegmentIndex : ℤ)
  | signUpTapped
  | created (i : ℕ) (uid : DocumentId)
  | failed (i : ℕ)
  | callback (j : ℕ)

def completed (a : Attempt) : Op Unit :=
  signUpCompleted (trimmed a.form.firstName) (trimmed a.form.lastName) (trimmed a.form.email)

/-- A new account has a new id and an email that no other account has; it is the current user before
its callback runs. -/
inductive Step : Screen → Event → Screen → Prop
  | edit {s : Screen} (form : Form) : Step s (.edit form) { s with form := form }
  | accountChanged {s : Screen} (n : ℤ) : Step s (.accountChanged n)
      { s with accountType := accountChanged n s.accountType }
  | refused {s : Screen} (h : validateFields s.form ≠ none) : Step s .signUpTapped s
  | signUpTapped {s : Screen} (h : validateFields s.form = none) : Step s .signUpTapped
      { s with inFlight := s.inFlight ++ [⟨s.form, s.accountType⟩] }
  | created {s : Screen} {i : ℕ} {a : Attempt} (u : DocumentId) (ha : s.inFlight[i]? = some a)
      (hu : FreshId s.store u) (huid : ∀ x ∈ s.accounts, x.uid ≠ u)
      (hemail : ∀ x ∈ s.accounts, trimmed x.attempt.form.email ≠ trimmed a.form.email) :
      Step s (.created i u) { s with
        inFlight := s.inFlight.eraseIdx i
        callbacks := s.callbacks ++ [⟨u, a⟩]
        currentUser := some u
        accounts := s.accounts ++ [⟨u, a⟩] }
  | failed {s : Screen} {i : ℕ} (hi : i < s.inFlight.length) :
      Step s (.failed i) { s with inFlight := s.inFlight.eraseIdx i }
  | callback {s : Screen} {j : ℕ} {x : Account} {v : DocumentId}
      (hx : s.callbacks[j]? = some x) (hv : s.currentUser = some v) (ids : ℕ → DocumentId) :
      Step s (.callback j) { s with
        callbacks := s.callbacks.eraseIdx j
        store := (Prog.turn ⟨some v, "", s.accountType⟩ ids (completed x.attempt) s.store).1
        ran := s.ran ++ [⟨x, v, s.accountType⟩] }

def Ran.data (e : Ran) : Fields :=
  userData e.currentUser e.accountType (trimmed e.account.attempt.form.firstName)
    (trimmed e.account.attempt.form.lastName) (trimmed e.account.attempt.form.email)

def lastFor (u : DocumentId) (ran : List Ran) : Option Ran :=
  ran.reverse.find? fun e => e.currentUser = u

theorem lastFor_append (u : DocumentId) (ran : List Ran) (e : Ran) :
    lastFor u (ran ++ [e]) = if e.currentUser = u then some e else lastFor u ran := by
  unfold lastFor
  rw [List.reverse_append, List.reverse_singleton, List.singleton_append, List.find?_cons]
  by_cases h : e.currentUser = u <;> simp [h]

theorem lastFor_eq_some {u : DocumentId} {ran : List Ran} {e : Ran} (h : lastFor u ran = some e) :
    e ∈ ran ∧ e.currentUser = u := by
  unfold lastFor at h
  exact ⟨List.mem_reverse.mp (List.mem_of_find?_eq_some h), by simpa using List.find?_some h⟩

theorem lastFor_isSome {ran : List Ran} {e : Ran} (h : e ∈ ran) :
    ∃ e', lastFor e.currentUser ran = some e' := by
  unfold lastFor
  apply Option.ne_none_iff_exists'.mp
  intro hnone
  have hno := List.find?_eq_none.mp hnone e (List.mem_reverse.mpr h)
  simp at hno

/-- Each account's callback waits or has run, and the document of an account is what the last
callback that found it as the current user has written. -/
structure Kept (s : Screen) : Prop where
  uids : (s.accounts.map Account.uid).Nodup
  emails : ∀ x ∈ s.accounts, ∀ y ∈ s.accounts,
    trimmed x.attempt.form.email = trimmed y.attempt.form.email → x = y
  perm : (s.ran.map Ran.account ++ s.callbacks).Perm s.accounts
  users : ∀ e ∈ s.ran, ∃ x ∈ s.accounts, x.uid = e.currentUser
  current : ∀ v, s.currentUser = some v → ∃ x ∈ s.accounts, x.uid = v
  documents : ∀ x ∈ s.accounts,
    s.store ["users", x.uid.val] = (lastFor x.uid s.ran).map Ran.data

theorem kept_loaded (σ : Store) : Kept (loaded σ) :=
  ⟨List.nodup_nil, fun _ hx => absurd hx List.not_mem_nil, .refl _,
    fun _ he => absurd he List.not_mem_nil, fun _ hv => (Option.some_ne_none _ hv.symm).elim,
    fun _ hx => absurd hx List.not_mem_nil⟩

theorem Kept.created {s : Screen} (h : Kept s) {a : Attempt} (u : DocumentId)
    (hu : FreshId s.store u) (huid : ∀ x ∈ s.accounts, x.uid ≠ u)
    (hemail : ∀ x ∈ s.accounts, trimmed x.attempt.form.email ≠ trimmed a.form.email)
    (inFlight : List Attempt) :
    Kept { s with
      inFlight := inFlight
      callbacks := s.callbacks ++ [⟨u, a⟩]
      currentUser := some u
      accounts := s.accounts ++ [⟨u, a⟩] } := by
  have hold : ∀ x ∈ s.accounts, x ∈ s.accounts ++ [⟨u, a⟩] := fun x hx => List.mem_append_left _ hx
  refine ⟨?_, fun x hx y hy he => ?_, ?_, fun e he => ?_, fun v hv => ?_, fun x hx => ?_⟩
  · rw [List.map_append, List.map_singleton]
    apply h.uids.append (List.nodup_singleton _)
    simpa using huid
  · rcases List.mem_append.mp hx with hx | hx <;> rcases List.mem_append.mp hy with hy | hy
    · exact h.emails x hx y hy he
    · obtain rfl := List.mem_singleton.mp hy
      exact (hemail x hx he).elim
    · obtain rfl := List.mem_singleton.mp hx
      exact (hemail y hy he.symm).elim
    · rw [List.mem_singleton.mp hx, List.mem_singleton.mp hy]
  · rw [← List.append_assoc]
    exact h.perm.append_right _
  · obtain ⟨x, hx, hxe⟩ := h.users e he
    exact ⟨x, hold x hx, hxe⟩
  · exact ⟨⟨u, a⟩, List.mem_append_right _ (List.mem_singleton_self _), Option.some.inj hv⟩
  · rcases List.mem_append.mp hx with hx | hx
    · exact h.documents x hx
    · obtain rfl := List.mem_singleton.mp hx
      -- no callback can have found an account that was not there
      have hnone : lastFor u s.ran = none := by
        by_contra hsome
        obtain ⟨e, he⟩ := Option.ne_none_iff_exists'.mp hsome
        obtain ⟨hmem, heu⟩ := lastFor_eq_some he
        obtain ⟨y, hy, hye⟩ := h.users e hmem
        exact huid y hy (hye.trans heu)
      show s.store ["users", u.val] = (lastFor u s.ran).map Ran.data
      rw [hnone, hu _ (by simp)]
      rfl

theorem Kept.callback {s : Screen} (h : Kept s) {j : ℕ} {x : Account} {v : DocumentId}
    (hx : s.callbacks[j]? = some x) (hv : s.currentUser = some v) (ids : ℕ → DocumentId) :
    Kept { s with
      callbacks := s.callbacks.eraseIdx j
      store := (Prog.turn ⟨some v, "", s.accountType⟩ ids (completed x.attempt) s.store).1
      ran := s.ran ++ [⟨x, v, s.accountType⟩] } := by
  have hturn : (Prog.turn ⟨some v, "", s.accountType⟩ ids (completed x.attempt) s.store).1 =
      Function.update s.store ["users", v.val] (some (Ran.data ⟨x, v, s.accountType⟩)) := by
    unfold completed
    rw [turn_signUpCompleted]
    rfl
  rw [hturn]
  refine ⟨h.uids, h.emails, ?_, fun e he => ?_, h.current, fun y hy => ?_⟩
  · obtain ⟨hlt, rfl⟩ := List.getElem?_eq_some_iff.mp hx
    rw [List.map_append, List.map_singleton, List.append_assoc]
    exact ((List.getElem_cons_eraseIdx_perm hlt).append_left _).trans h.perm
  · rcases List.mem_append.mp he with he | he
    · exact h.users e he
    · obtain rfl := List.mem_singleton.mp he
      exact h.current v hv
  · show Function.update s.store ["users", v.val] _ ["users", y.uid.val] = _
    rw [lastFor_append]
    by_cases hyv : v = y.uid
    · rw [if_pos hyv, hyv, Function.update_self]
      rfl
    · have hne : ["users", y.uid.val] ≠ ["users", v.val] := by
        intro he
        exact hyv (DocumentId.ext_iff_val.mpr (by simpa using he.symm))
      rw [if_neg hyv, Function.update_of_ne hne]
      exact h.documents y hy

theorem Kept.step {s s' : Screen} {ev : Event} (h : Kept s) (hs : Step s ev s') : Kept s' := by
  cases hs with
  | edit => exact ⟨h.uids, h.emails, h.perm, h.users, h.current, h.documents⟩
  | accountChanged => exact ⟨h.uids, h.emails, h.perm, h.users, h.current, h.documents⟩
  | refused => exact h
  | signUpTapped => exact ⟨h.uids, h.emails, h.perm, h.users, h.current, h.documents⟩
  | created u ha hu huid hemail => exact h.created u hu huid hemail _
  | failed => exact ⟨h.uids, h.emails, h.perm, h.users, h.current, h.documents⟩
  | callback hx hv ids => exact h.callback hx hv ids

theorem kept_of_run {σ : Store} {es : List Event} {s : Screen}
    (h : Runs.Run Step (loaded σ) es s) : Kept s :=
  h.invariant (I := fun _ s => Kept s) (kept_loaded σ) fun _ _ _ _ hk hs => hk.step hs

theorem Kept.mem_accounts {s : Screen} (h : Kept s) {e : Ran} (he : e ∈ s.ran) :
    e.account ∈ s.accounts :=
  h.perm.mem_iff.mp (List.mem_append_left _ (List.mem_map_of_mem he))

theorem Kept.ran_inj {s : Screen} (h : Kept s) {e e' : Ran} (he : e ∈ s.ran) (he' : e' ∈ s.ran)
    (haccount : e.account = e'.account) : e = e' := by
  have hall : (s.ran.map Ran.account ++ s.callbacks).Nodup :=
    h.perm.nodup_iff.mpr (h.uids.of_map _)
  exact List.inj_on_of_nodup_map (List.Nodup.of_append_left hall) he he' haccount

theorem Kept.account_inj {s : Screen} (h : Kept s) {x y : Account} (hx : x ∈ s.accounts)
    (hy : y ∈ s.accounts) (huid : x.uid = y.uid) : x = y :=
  List.inj_on_of_nodup_map h.uids hx hy huid

def Holds (σ : Store) (x : Account) : Prop :=
  ∃ d, σ ["users", x.uid.val] = some d ∧
    d.getString "firstName" = some (trimmed x.attempt.form.firstName) ∧
    d.getString "lastName" = some (trimmed x.attempt.form.lastName) ∧
    d.getString "email" = some (trimmed x.attempt.form.email) ∧
    d.getString "accountType" = some x.attempt.accountType ∧
    d.getString "paired" = some "false"

/-- The callback found its own account signed in, and the account type that its tap had shown. -/
def Ran.Own (e : Ran) : Prop :=
  e.currentUser = e.account.uid ∧ e.accountType = e.account.attempt.accountType

theorem Kept.holds_iff {s : Screen} (h : Kept s) {x : Account} (hx : x ∈ s.accounts) :
    Holds s.store x ↔ ∃ e, lastFor x.uid s.ran = some e ∧ e.account = x ∧
      e.accountType = x.attempt.accountType := by
  unfold Holds
  rw [h.documents x hx]
  constructor
  · rintro ⟨d, hd, -, -, hemail, htype, -⟩
    obtain ⟨e, he, rfl⟩ := Option.map_eq_some_iff.mp hd
    have hfrom : e.account = x := by
      apply h.emails _ (h.mem_accounts (lastFor_eq_some he).1) _ hx
      simpa [Ran.data, userData] using hemail
    exact ⟨e, he, hfrom, by simpa [Ran.data, userData] using htype⟩
  · rintro ⟨e, he, rfl, htype⟩
    refine ⟨e.data, by rw [he]; rfl, ?_⟩
    simp [Ran.data, userData, htype]

theorem accounts_hold_iff {σ : Store} {es : List Event} {s : Screen}
    (h : Runs.Run Step (loaded σ) es s) (hdone : s.callbacks = []) :
    (∀ x ∈ s.accounts, Holds s.store x) ↔ ∀ e ∈ s.ran, e.Own := by
  have hkept := kept_of_run h
  constructor
  · intro hall e he
    obtain ⟨e', he', haccount, htype⟩ := (hkept.holds_iff (hkept.mem_accounts he)).mp
      (hall _ (hkept.mem_accounts he))
    obtain ⟨hmem, huser⟩ := lastFor_eq_some he'
    obtain rfl := hkept.ran_inj hmem he haccount
    exact ⟨huser, htype⟩
  · intro hown x hx
    have hran : x ∈ s.ran.map Ran.account := by
      have hmem := hkept.perm.mem_iff.mpr hx
      rwa [hdone, List.append_nil] at hmem
    obtain ⟨e, he, rfl⟩ := List.mem_map.mp hran
    obtain ⟨e', he'⟩ := lastFor_isSome he
    rw [(hown e he).1] at he'
    -- the last one that found this account signed in is its own
    obtain ⟨hmem, huser⟩ := lastFor_eq_some he'
    have haccount : e'.account = e.account :=
      hkept.account_inj (hkept.mem_accounts hmem) hx ((hown e' hmem).1.symm.trans huser)
    exact (hkept.holds_iff hx).mpr ⟨e', he', haccount, haccount ▸ (hown e' hmem).2⟩

section Instances

def formOf (email : String) : Form := ⟨"F", "N", email, "abcdef1@"⟩

theorem formOf_valid : validateFields (formOf "M") = none ∧ validateFields (formOf "O") = none := by
  decide

theorem run_of_one_tap : ∃ s, Runs.Run Step (loaded fun _ => none)
    [.edit (formOf "M"), .signUpTapped, .created 0 tenant, .callback 0] s ∧ s.callbacks = [] ∧
      s.accounts = [⟨tenant, formOf "M", "tenants"⟩] ∧
      s.ran = [⟨⟨tenant, formOf "M", "tenants"⟩, tenant, "tenants"⟩] := by
  have hedited : Runs.Run Step (loaded fun _ => none) [.edit (formOf "M")] _ :=
    Runs.Run.start.step (.edit (formOf "M"))
  have htapped := hedited.step (.signUpTapped formOf_valid.1)
  have hcreated := htapped.step (.created (i := 0) tenant rfl (fun _ _ => rfl)
    (fun _ hx => absurd hx List.not_mem_nil) fun _ hx => absurd hx List.not_mem_nil)
  exact ⟨_, hcreated.step (.callback (j := 0) rfl rfl fun _ => newId), rfl, rfl, rfl⟩

theorem one_account_holds : ∃ s, Runs.Run Step (loaded fun _ => none)
    [.edit (formOf "M"), .signUpTapped, .created 0 tenant, .callback 0] s ∧
      s.accounts = [⟨tenant, formOf "M", "tenants"⟩] ∧ ∀ x ∈ s.accounts, Holds s.store x := by
  obtain ⟨s, hrun, hdone, haccounts, hran⟩ := run_of_one_tap
  refine ⟨s, hrun, haccounts, (accounts_hold_iff hrun hdone).mpr ?_⟩
  rw [hran]
  intro e he
  rw [List.mem_singleton.mp he]
  exact ⟨rfl, rfl⟩

/-- The control is moved while the account is made: its tenant is a landlord for good. -/
theorem run_of_moved_control : ∃ s, Runs.Run Step (loaded fun _ => none)
    [.edit (formOf "M"), .signUpTapped, .accountChanged 1, .created 0 tenant, .callback 0] s ∧
      s.callbacks = [] ∧ s.accounts = [⟨tenant, formOf "M", "tenants"⟩] ∧
      (s.store ["users", "T"]).bind (Fields.getString · "accountType") = some "landlords" := by
  have hedited : Runs.Run Step (loaded fun _ => none) [.edit (formOf "M")] _ :=
    Runs.Run.start.step (.edit (formOf "M"))
  have htapped := hedited.step (.signUpTapped formOf_valid.1)
  have hmoved := htapped.step (.accountChanged 1)
  have hcreated := hmoved.step (.created (i := 0) tenant rfl (fun _ _ => rfl)
    (fun _ hx => absurd hx List.not_mem_nil) fun _ hx => absurd hx List.not_mem_nil)
  exact ⟨_, hcreated.step (.callback (j := 0) rfl rfl fun _ => newId), rfl, rfl, by decide⟩

/-- A second account is made before the callback of the first, which then has no document. -/
theorem run_of_two_taps : ∃ s, Runs.Run Step (loaded fun _ => none)
    [.edit (formOf "M"), .signUpTapped, .edit (formOf "O"), .signUpTapped, .created 0 tenant,
      .created 0 landlord, .callback 0, .callback 0] s ∧ s.callbacks = [] ∧
      ⟨tenant, formOf "M", "tenants"⟩ ∈ s.accounts ∧ s.store ["users", "T"] = none := by
  have hother : ∀ x ∈ [Account.mk tenant ⟨formOf "M", "tenants"⟩], x.uid ≠ landlord ∧
      trimmed x.attempt.form.email ≠ trimmed (formOf "O").email := by
    intro x hx
    rw [List.mem_singleton.mp hx]
    decide
  have hedited : Runs.Run Step (loaded fun _ => none) [.edit (formOf "M")] _ :=
    Runs.Run.start.step (.edit (formOf "M"))
  have htapped := hedited.step (.signUpTapped formOf_valid.1)
  have htwo := (htapped.step (.edit (formOf "O"))).step (.signUpTapped formOf_valid.2)
  have hfirst := htwo.step (.created (i := 0) tenant rfl (fun _ _ => rfl)
    (fun _ hx => absurd hx List.not_mem_nil) fun _ hx => absurd hx List.not_mem_nil)
  have hsecond := hfirst.step (.created (i := 0) landlord rfl (fun _ _ => rfl)
    (fun x hx => (hother x hx).1) fun x hx => (hother x hx).2)
  -- both callbacks find the second account signed in
  have hcalled := hsecond.step (.callback (j := 0) rfl rfl fun _ => newId)
  exact ⟨_, hcalled.step (.callback (j := 0) rfl rfl fun _ => newId), rfl, List.mem_cons_self,
    by decide⟩

theorem account_type_not_of_tap :
    (∃ es s, Runs.Run Step (loaded fun _ => none) es s ∧ s.callbacks = [] ∧
      ∃ x ∈ s.accounts, ¬ Holds s.store x) ∧
    ∃ es s, Runs.Run Step (loaded fun _ => none) es s ∧ s.callbacks = [] ∧
      ∃ x ∈ s.accounts, s.store ["users", x.uid.val] = none := by
  obtain ⟨s, hrun, hdone, haccounts, htype⟩ := run_of_moved_control
  obtain ⟨s₂, hrun₂, hdone₂, hmem, hnone⟩ := run_of_two_taps
  refine ⟨⟨_, s, hrun, hdone, ⟨tenant, formOf "M", "tenants"⟩, by simp [haccounts], ?_⟩,
    _, s₂, hrun₂, hdone₂, _, hmem, hnone⟩
  rintro ⟨d, hd, -, -, -, hdtype, -⟩
  have hd' : s.store ["users", "T"] = some d := hd
  rw [hd'] at htype
  exact absurd (hdtype.symm.trans htype) (by decide)

end Instances

end Zeenoc.SignUpVC
