import Zeenoc.Library.Runs
import Zeenoc.ListedIds

/-! The process of the app over several sessions: its arrays are global, and the listeners that the
screens register are never removed. -/

namespace Zeenoc
open Firestore

inductive Kind where
  | landlord
  | notifications
  | tenant
  deriving DecidableEq

structure Arrays where
  lists : LandlordVC.Lists
  requests : List Request
  payments : List Payment

namespace Arrays

def clear (a : Arrays) : Kind → Arrays
  | .landlord => { a with lists := ⟨[], []⟩ }
  | .notifications => { a with requests := [] }
  | .tenant => { a with payments := [] }

/-- The callback of the screen's listener; the completion block it queues assigns the arrays to
themselves. -/
def receive (changes : List DocumentChange) (a : Arrays) : Kind → Option Arrays
  | .landlord => (LandlordVC.firebaseCall changes a.lists).map fun r => { a with lists := r.1 }
  | .notifications =>
    (NotificationsVC.firebaseCall changes a.requests).map fun r => { a with requests := r.1 }
  | .tenant => (TenantVC.firebaseCall changes a.payments).map fun r => { a with payments := r.1 }

def ids (a : Arrays) : Kind → List (List String)
  | .landlord =>
    [a.lists.properties.map Property.id, a.lists.tenantProperties.map Property.id]
  | .notifications => [a.requests.map Request.id]
  | .tenant => [a.payments.map Payment.id]

def listed (a : Arrays) : Kind → List String
  | .landlord => a.lists.properties.map Property.id
  | .notifications => a.requests.map Request.id
  | .tenant => a.payments.map Payment.id

def ends (a : Arrays) : Kind → List String
  | .landlord => a.lists.tenantProperties.map Property.id
  | .notifications => a.requests.map Request.id
  | .tenant => a.payments.map Payment.id

def Exempt : Kind → Fields → Prop
  | .landlord, d => d.getString "tenantName" = some "N/A"
  | _, _ => True

def Safe {old new : Collection} (a : Arrays) (D : Difference old new) (k : Kind) : Prop :=
  LeavesNone D (a.listed k) (a.ends k) (Exempt k)

structure OnlyRemoves {old new : Collection} (D : Difference old new) (k : Kind) : Prop where
  added : D.added = []
  modified : ∀ x ∈ D.modified, Exempt k x.2

def Single (a : Arrays) (k : Kind) (K : Set String) : Prop :=
  Zeenoc.Single (a.listed k) (a.ends k) K

variable {a a' : Arrays} {old new : Collection} {D : Difference old new} {k k' : Kind}
  {K : Set String} {l : List String}

theorem single_clear (a : Arrays) (k : Kind) (K : Set String) : (a.clear k).Single k K := by
  cases k <;> exact single_nil K

def SameOn (a a' : Arrays) : Kind → Prop
  | .landlord => a'.lists = a.lists
  | .notifications => a'.requests = a.requests
  | .tenant => a'.payments = a.payments

theorem sameOn_clear (a : Arrays) (hk : k' ≠ k) : SameOn a (a.clear k) k' := by
  cases k' <;> cases k <;> first | rfl | exact (hk rfl).elim

theorem sameOn_receive {changes : List DocumentChange} (hk : k' ≠ k)
    (hr : a.receive changes k = some a') : SameOn a a' k' := by
  cases k with
  | landlord =>
    obtain ⟨r, -, rfl⟩ := Option.map_eq_some_iff.mp hr
    cases k' <;> first | rfl | exact (hk rfl).elim
  | notifications =>
    obtain ⟨r, -, rfl⟩ := Option.map_eq_some_iff.mp hr
    cases k' <;> first | rfl | exact (hk rfl).elim
  | tenant =>
    obtain ⟨r, -, rfl⟩ := Option.map_eq_some_iff.mp hr
    cases k' <;> first | rfl | exact (hk rfl).elim

theorem SameOn.ids (h : SameOn a a' k) : a'.ids k = a.ids k := by
  cases k <;> unfold Arrays.ids <;> rw [h]

theorem SameOn.single (h : SameOn a a' k) (hs : a.Single k K) : a'.Single k K := by
  cases k <;> unfold Arrays.Single listed ends <;> rw [h] <;> exact hs

theorem Single.receive (h : a.Single k (old.ids fun _ => True)) (hD : a.Safe D k)
    (hr : a.receive D.changes k = some a') : a'.Single k (new.ids fun _ => True) := by
  cases k with
  | landlord =>
    obtain ⟨⟨s, b⟩, hrun, rfl⟩ := Option.map_eq_some_iff.mp hr
    exact LandlordVC.firebaseCall_idLoop.single h hD hrun
  | notifications =>
    obtain ⟨⟨l, b⟩, hrun, rfl⟩ := Option.map_eq_some_iff.mp hr
    exact NotificationsVC.firebaseCall_idLoop.single h hD hrun
  | tenant =>
    obtain ⟨⟨l, b⟩, hrun, rfl⟩ := Option.map_eq_some_iff.mp hr
    exact TenantVC.firebaseCall_idLoop.single h hD hrun

theorem Single.shrinks (h : a.Single k K) (hD : OnlyRemoves D k)
    (hr : a.receive D.changes k = some a') : a'.Single k K := by
  cases k with
  | landlord =>
    obtain ⟨⟨s, b⟩, hrun, rfl⟩ := Option.map_eq_some_iff.mp hr
    exact LandlordVC.firebaseCall_idLoop.shrinks h hD.added hD.modified hrun
  | notifications =>
    obtain ⟨⟨l, b⟩, hrun, rfl⟩ := Option.map_eq_some_iff.mp hr
    exact NotificationsVC.firebaseCall_idLoop.shrinks h hD.added hD.modified hrun
  | tenant =>
    obtain ⟨⟨l, b⟩, hrun, rfl⟩ := Option.map_eq_some_iff.mp hr
    exact TenantVC.firebaseCall_idLoop.shrinks h hD.added hD.modified hrun

theorem listed_of_added (hR : D.removed = []) (hM : D.modified = [])
    (hr : a.receive D.changes k = some a') : a'.listed k = a.listed k ++ idsOf D.added := by
  cases k with
  | landlord =>
    obtain ⟨⟨s, b⟩, hrun, rfl⟩ := Option.map_eq_some_iff.mp hr
    exact LandlordVC.firebaseCall_idLoop.listed_of_added hR hM hrun
  | notifications =>
    obtain ⟨⟨l, b⟩, hrun, rfl⟩ := Option.map_eq_some_iff.mp hr
    exact NotificationsVC.firebaseCall_idLoop.listed_of_added hR hM hrun
  | tenant =>
    obtain ⟨⟨l, b⟩, hrun, rfl⟩ := Option.map_eq_some_iff.mp hr
    exact TenantVC.firebaseCall_idLoop.listed_of_added hR hM hrun

theorem listed_mem_ids (a : Arrays) (k : Kind) : a.listed k ∈ a.ids k := by
  cases k <;> exact List.mem_cons_self

theorem mem_ids (hl : l ∈ a.ids k) : l = a.listed k ∨ l = a.ends k := by
  cases k with
  | landlord => simpa [ids, listed, ends] using hl
  | notifications => exact .inl (List.mem_singleton.mp hl)
  | tenant => exact .inl (List.mem_singleton.mp hl)

theorem Single.ids (h : a.Single k K) (hl : l ∈ a.ids k) : l.Nodup ∧ ∀ s ∈ l, s ∈ K := by
  rcases mem_ids hl with rfl | rfl
  · exact ⟨h.nodup, h.own⟩
  · exact ⟨h.ends_nodup, fun s hs => h.own s (h.ends_listed s hs)⟩

theorem Single.listed_ne_nil (h : a.Single k K) (hl : l ∈ a.ids k) (hnil : l ≠ []) :
    a.listed k ≠ [] := by
  obtain ⟨s, hs⟩ := List.exists_mem_of_ne_nil l hnil
  rcases mem_ids hl with rfl | rfl
  · exact hnil
  · exact List.ne_nil_of_mem (h.ends_listed s hs)

end Arrays

/-- A registered listener, with the last state of its collection that it was shown. -/
structure Listener where
  kind : Kind
  user : DocumentId
  seen : Collection

structure Process where
  signedIn : Option DocumentId
  loaded : Bool
  arrays : Arrays
  listeners : List Listener

namespace Process

def launched : Process := ⟨none, false, ⟨⟨[], []⟩, [], []⟩, []⟩

inductive Event where
  | logIn (u : DocumentId)
  | logOut
  | viewDidLoad (k : Kind)
  | deliver (i : ℕ) {old new : Collection} (D : Difference old new)

/-- `loaded` tells whether the current session has loaded one of the three screens. -/
inductive Step : Process → Event → Process → Prop
  | logIn {s : Process} (u : DocumentId) :
      Step s (.logIn u) { s with signedIn := some u, loaded := false }
  | logOut {s : Process} : Step s .logOut { s with signedIn := none, loaded := false }
  | viewDidLoad {s : Process} {u} (k : Kind) (hu : s.signedIn = some u) :
      Step s (.viewDidLoad k)
        { s with
          loaded := true
          arrays := s.arrays.clear k
          listeners := s.listeners ++ [⟨k, u, fun _ => none⟩] }
  | deliver {s : Process} {i k u old new a} (D : Difference old new)
      (hl : s.listeners[i]? = some ⟨k, u, old⟩) (ha : s.arrays.receive D.changes k = some a) :
      Step s (.deliver i D)
        { s with arrays := a, listeners := s.listeners.set i ⟨k, u, new⟩ }

section Latest
variable {ls : List Listener} {i j : ℕ} {l m : Listener}

/-- The listener that the screen registered when it was last loaded. -/
def Latest (ls : List Listener) (i : ℕ) (l : Listener) : Prop :=
  ls[i]? = some l ∧ ∀ j m, i < j → ls[j]? = some m → m.kind ≠ l.kind

theorem Latest.kind_ne (hi : Latest ls i l) (hj : Latest ls j m) (hij : i ≠ j) :
    m.kind ≠ l.kind := by
  rcases Nat.lt_or_gt_of_ne hij with hlt | hlt
  · exact hi.2 j m hlt hj.1
  · exact (hj.2 i l hlt hi.1).symm

theorem latest_append_iff (n : Listener) : Latest (ls ++ [n]) j m ↔
    (j = ls.length ∧ m = n) ∨ (Latest ls j m ∧ m.kind ≠ n.kind) := by
  constructor
  · rintro ⟨hj, hlater⟩
    rcases Nat.lt_or_ge j ls.length with hlt | hge
    · rw [List.getElem?_append_left hlt] at hj
      refine .inr ⟨⟨hj, fun j' m' hjj hm' => ?_⟩, ?_⟩
      · refine hlater j' m' hjj ?_
        rwa [List.getElem?_append_left (List.getElem?_eq_some_iff.mp hm').1]
      · exact (hlater ls.length n hlt (by simp)).symm
    · have hlen := (List.getElem?_eq_some_iff.mp hj).1
      rw [List.length_append, List.length_singleton] at hlen
      obtain rfl : j = ls.length := by omega
      simp at hj
      exact .inl ⟨rfl, hj.symm⟩
  · rintro (⟨rfl, rfl⟩ | ⟨⟨hj, hlater⟩, hne⟩)
    · refine ⟨by simp, fun j' m' hjj hm' => ?_⟩
      have hlen := (List.getElem?_eq_some_iff.mp hm').1
      rw [List.length_append, List.length_singleton] at hlen
      omega
    · have hlt := (List.getElem?_eq_some_iff.mp hj).1
      refine ⟨by rw [List.getElem?_append_left hlt, hj], fun j' m' hjj hm' => ?_⟩
      rcases Nat.lt_or_ge j' ls.length with hlt' | hge'
      · rw [List.getElem?_append_left hlt'] at hm'
        exact hlater j' m' hjj hm'
      · have hlen := (List.getElem?_eq_some_iff.mp hm').1
        rw [List.length_append, List.length_singleton] at hlen
        obtain rfl : j' = ls.length := by omega
        simp at hm'
        exact hm' ▸ hne.symm

theorem exists_latest (hi : ls[i]? = some l) : ∃ j m, Latest ls j m ∧ m.kind = l.kind := by
  induction ls using List.reverseRecOn with
  | nil => simp at hi
  | append_singleton ls n ih =>
    by_cases hn : n.kind = l.kind
    · exact ⟨ls.length, n, (latest_append_iff n).mpr (.inl ⟨rfl, rfl⟩), hn⟩
    · have hlt : i < ls.length := by
        by_contra hge
        have hlast : n = l := by
          have hlen := (List.getElem?_eq_some_iff.mp hi).1
          rw [List.length_append, List.length_singleton] at hlen
          obtain rfl : i = ls.length := by omega
          simpa using hi
        exact hn (congrArg Listener.kind hlast)
      rw [List.getElem?_append_left hlt] at hi
      obtain ⟨j, m, hm, hmk⟩ := ih hi
      exact ⟨j, m, (latest_append_iff n).mpr (.inr ⟨hm, fun he => hn (he.symm.trans hmk)⟩), hmk⟩

theorem latest_set_iff (l' : Listener) (hi : ls[i]? = some l) (hk : l'.kind = l.kind) :
    Latest (ls.set i l') j m ↔
      (j = i ∧ m = l' ∧ Latest ls i l) ∨ (j ≠ i ∧ Latest ls j m) := by
  have hlt := (List.getElem?_eq_some_iff.mp hi).1
  have hself : (ls.set i l')[i]? = some l' := by simp [hlt]
  have hother : ∀ j, j ≠ i → (ls.set i l')[j]? = ls[j]? := fun j hj =>
    List.getElem?_set_ne hj.symm
  -- later entries have the same kinds before and after
  have hlater : ∀ (j : ℕ) (k : Kind),
      (∀ j' (m' : Listener), j < j' → (ls.set i l')[j']? = some m' → m'.kind ≠ k) ↔
        ∀ j' (m' : Listener), j < j' → ls[j']? = some m' → m'.kind ≠ k := by
    intro j k
    constructor
    · intro h j' m' hjj hm'
      by_cases he : j' = i
      · subst he
        obtain rfl := Option.some.inj (hi.symm.trans hm')
        exact hk ▸ h j' l' hjj hself
      · exact h j' m' hjj (by rw [hother j' he, hm'])
    · intro h j' m' hjj hm'
      by_cases he : j' = i
      · subst he
        obtain rfl := Option.some.inj (hself.symm.trans hm')
        exact hk ▸ h j' l hjj hi
      · exact h j' m' hjj (by rw [← hother j' he, hm'])
  unfold Latest
  rw [hlater]
  by_cases he : j = i
  · subst he
    rw [hself]
    constructor
    · rintro ⟨hm, h⟩
      obtain rfl := Option.some.inj hm
      exact .inl ⟨rfl, rfl, hi, hk ▸ h⟩
    · rintro (⟨-, rfl, -, h⟩ | ⟨hne, -⟩)
      · exact ⟨rfl, hk ▸ h⟩
      · exact (hne rfl).elim
  · rw [hother j he]
    constructor
    · exact fun h => .inr ⟨he, h⟩
    · rintro (⟨he', -⟩ | ⟨-, h⟩)
      · exact (he he').elim
      · exact h

end Latest

section Invariant
variable {s s' : Process} {u : DocumentId}

/-- The arrays list documents of the user's collections, as the screens' listeners last saw them,
each once. -/
def Own (u : DocumentId) (s : Process) : Prop :=
  ∀ k, ∀ ids ∈ s.arrays.ids k, ids.Nodup ∧ ∀ id ∈ ids, ∃ i l, Latest s.listeners i l ∧
    l.kind = k ∧ l.user = u ∧ id ∈ l.seen.ids fun _ => True

def OwnedBy (u : DocumentId) (s : Process) : Prop :=
  ∀ k, ∀ ids ∈ s.arrays.ids k, ids ≠ [] → ∃ i l, Latest s.listeners i l ∧ l.kind = k ∧ l.user = u

/-- What a screen's last listener is sent leaves no removed document listed, the earlier ones are
sent nothing to add or to change; once a screen of the session is loaded, nothing comes from another
user or is left over. -/
def Careful (s : Process) : Event → Prop
  | .deliver i D => ∀ l, s.listeners[i]? = some l →
      (Latest s.listeners i l → s.arrays.Safe D l.kind) ∧
      (¬ Latest s.listeners i l → Arrays.OnlyRemoves D l.kind) ∧
      ∀ u, s.signedIn = some u → s.loaded →
        OwnedBy u s ∧ (Latest s.listeners i l → l.user = u)
  | _ => True

def Tracks (s : Process) : Prop :=
  ∀ i l, Latest s.listeners i l → s.arrays.Single l.kind (l.seen.ids fun _ => True)

theorem tracks_launched : Tracks launched := by
  rintro i l ⟨hi, -⟩
  simp [launched] at hi

theorem Tracks.step {ev : Event} (h : Tracks s) (hc : Careful s ev) (hs : Step s ev s') :
    Tracks s' := by
  cases hs with
  | logIn => exact h
  | logOut => exact h
  | @viewDidLoad u k hu =>
    intro i l hl
    rcases (latest_append_iff _).mp hl with ⟨-, rfl⟩ | ⟨hl, hk⟩
    · exact s.arrays.single_clear k _
    · exact (Arrays.sameOn_clear _ hk).single (h i l hl)
  | @deliver i k u old new a D hi ha =>
    obtain ⟨hsafe, hremoves, -⟩ := hc _ hi
    intro j m hm
    rcases (latest_set_iff ⟨k, u, new⟩ hi rfl).mp hm with ⟨-, rfl, hlatest⟩ | ⟨hji, hbefore⟩
    · exact (h i _ hlatest).receive (hsafe hlatest) ha
    · by_cases hk : m.kind = k
      · -- the last listener of the screen is another one, so this one can but take entries out
        subst hk
        have hnot : ¬ Latest s.listeners i ⟨m.kind, u, old⟩ := fun hlatest =>
          hlatest.kind_ne hbefore hji.symm rfl
        exact (h j m hbefore).shrinks (hremoves hnot) ha
      · exact (Arrays.sameOn_receive hk ha).single (h j m hbefore)

theorem Tracks.own (h : Tracks s) (ho : OwnedBy u s) : Own u s := by
  intro k ids hids
  by_cases hnil : ids = []
  · subst hnil
    exact ⟨List.nodup_nil, fun id hid => absurd hid List.not_mem_nil⟩
  · obtain ⟨i, l, hl, rfl, hu⟩ := ho k ids hids hnil
    obtain ⟨hnodup, hseen⟩ := (h i l hl).ids hids
    exact ⟨hnodup, fun id hid => ⟨i, l, hl, rfl, hu, hseen id hid⟩⟩

theorem OwnedBy.deliver {i : ℕ} {old new : Collection} {D : Difference old new} (h : Tracks s)
    (hc : Careful s (.deliver i D)) (hu : s.signedIn = some u) (hload : s.loaded)
    (hs : Step s (.deliver i D) s') : OwnedBy u s' := by
  cases hs with
  | @deliver _ k w _ _ a _ hi ha =>
    obtain ⟨-, hremoves, hown⟩ := hc _ hi
    obtain ⟨howned, huser⟩ := hown u hu hload
    have hlater : ∀ {j m}, Latest s.listeners j m → j ≠ i →
        Latest (s.listeners.set i ⟨k, w, new⟩) j m := fun hm hji =>
      (latest_set_iff ⟨k, w, new⟩ hi rfl).mpr (.inr ⟨hji, hm⟩)
    intro k' ids hids hnil
    by_cases hk : k' = k
    · subst hk
      by_cases hlatest : Latest s.listeners i ⟨k', w, old⟩
      · exact ⟨i, ⟨k', w, new⟩, (latest_set_iff ⟨k', w, new⟩ hi rfl).mpr
          (.inl ⟨rfl, rfl, hlatest⟩), rfl, huser hlatest⟩
      · -- what is listed now was listed before, by the user's own last listener
        obtain ⟨j, m, hm, hmk⟩ := exists_latest hi
        have hsingle := h j m hm
        rw [hmk] at hsingle
        have hlisted : s.arrays.Single k' {id | id ∈ s.arrays.listed k'} :=
          Zeenoc.Single.mono hsingle fun _ hid _ => hid
        have hafter := hlisted.shrinks (hremoves hlatest) ha
        have hbefore : s.arrays.listed k' ≠ [] := by
          obtain ⟨id, hid⟩ := List.exists_mem_of_ne_nil _ (hafter.listed_ne_nil hids hnil)
          exact List.ne_nil_of_mem (hafter.own id hid)
        obtain ⟨j', m', hm', hmk', hmu⟩ := howned k' _ (s.arrays.listed_mem_ids k') hbefore
        refine ⟨j', m', hlater hm' ?_, hmk', hmu⟩
        rintro rfl
        exact hlatest (Option.some.inj (hm'.1.symm.trans hi) ▸ hm')
    · rw [(Arrays.sameOn_receive hk ha).ids] at hids
      obtain ⟨j, m, hm, rfl, hmu⟩ := howned k' ids hids hnil
      refine ⟨j, m, hlater hm ?_, rfl, hmu⟩
      rintro rfl
      exact hk (congrArg Listener.kind (Option.some.inj (hm.1.symm.trans hi)))

/-- In a run of careful steps, the arrays hold after each delivery of a loaded session only what is
the signed-in user's own, each document once. -/
theorem arrays_own {i : ℕ} {old new : Collection} {D : Difference old new}
    (h : Runs.Reaches Step Careful launched s) (hc : Careful s (.deliver i D))
    (hs : Step s (.deliver i D) s') (hu : s.signedIn = some u) (hload : s.loaded) : Own u s' := by
  have htracks : Tracks s := Runs.Reaches.invariant tracks_launched
    (fun _ _ _ hs hc hstep => hs.step hc hstep) h
  have howned := OwnedBy.deliver htracks hc hu hload hs
  exact (htracks.step hc hs).own howned

theorem latest_of_own {i : ℕ} {old new : Collection} {D : Difference old new} {l : Listener}
    (hi : s.listeners[i]? = some l) (hs : Step s (.deliver i D) s') (hR : D.removed = [])
    (hM : D.modified = []) (hown : Own u s') :
    ∀ x ∈ D.added, (Latest s.listeners i l ∧ l.user = u) ∨
      x.1.val ∉ s.arrays.listed l.kind ∧ ∃ j m, Latest s.listeners j m ∧ m.kind = l.kind ∧
        m.user = u ∧ x.1.val ∈ m.seen.ids fun _ => True := by
  intro x hx
  cases hs with
  | @deliver _ k w _ _ a _ hi' ha =>
    obtain rfl := Option.some.inj (hi'.symm.trans hi)
    have hxA : x.1.val ∈ idsOf D.added := List.mem_map.mpr ⟨x, hx, rfl⟩
    obtain ⟨hnodup, hids⟩ := hown k _ (a.listed_mem_ids k)
    rw [Arrays.listed_of_added hR hM ha] at hnodup hids
    obtain ⟨j, m, hm, hmk, hmu, hseen⟩ := hids _ (List.mem_append_right _ hxA)
    rcases (latest_set_iff ⟨k, w, new⟩ hi' rfl).mp hm with ⟨-, rfl, hlatest⟩ | ⟨-, hbefore⟩
    · exact .inl ⟨hlatest, hmu⟩
    · exact .inr ⟨fun hold => (List.nodup_append.mp hnodup).2.2 _ hold _ hxA rfl,
        j, m, hbefore, hmk, hmu, hseen⟩

end Invariant

section Instances
open LandlordVC

def secondLandlord : DocumentId := ⟨"M", by decide, by decide⟩

def vacated : List (DocumentId × Fields) := [(firstProperty, vacant)]

theorem vacated_nodup : (vacated.map Prod.fst).Nodup := by decide

def firstBatch : Difference (fun _ => none) (Collection.ofList vacated) :=
  Difference.fill vacated vacated_nodup

def OnlyAdditions (_ : Process) : Event → Prop
  | .deliver _ D => D.removed = [] ∧ D.modified = []
  | _ => True

def loadedFor (u : DocumentId) (a : Arrays) (ls : List Listener) : Process := ⟨some u, true, a, ls⟩

def noEntries : Arrays := ⟨⟨[], []⟩, [], []⟩

def unseen (u : DocumentId) : Listener := ⟨.landlord, u, fun _ => none⟩

def firstSession : Process := loadedFor landlord noEntries [unseen landlord]

def secondSession : Process :=
  loadedFor secondLandlord noEntries [unseen landlord, unseen secondLandlord]

theorem reaches_firstSession {C : Process → Event → Prop} (hC : ∀ s u, C s (.logIn u))
    (hload : ∀ s k, C s (.viewDidLoad k)) : Runs.Reaches Step C launched firstSession :=
  (Runs.Reaches.start.step (hC _ landlord) (.logIn _)).step (hload _ .landlord)
    (.viewDidLoad (u := landlord) .landlord rfl)

/-- The first landlord's listener adds a property in the second landlord's session. -/
theorem property_of_other_session :
    ∃ s s', Runs.Reaches Step OnlyAdditions launched s ∧ s.signedIn = some secondLandlord ∧
      s.loaded ∧ OnlyAdditions s (.deliver 0 firstBatch) ∧ Step s (.deliver 0 firstBatch) s' ∧
      s'.arrays.lists.properties.map Property.id = ["P"] ∧ ¬ Own secondLandlord s' := by
  have hfirst := reaches_firstSession (C := OnlyAdditions) (fun _ _ => trivial) fun _ _ => trivial
  have hout := hfirst.step (e := Event.logOut) trivial .logOut
  have hin := hout.step (e := Event.logIn secondLandlord) trivial (.logIn secondLandlord)
  have hsecond : Runs.Reaches Step OnlyAdditions launched secondSession :=
    hin.step (e := Event.viewDidLoad .landlord) trivial (.viewDidLoad (u := secondLandlord) _ rfl)
  have hstep := Step.deliver (s := secondSession) (i := 0) (k := .landlord) firstBatch rfl rfl
  refine ⟨_, _, hsecond, rfl, rfl, ⟨rfl, rfl⟩, hstep, rfl, fun hown => ?_⟩
  obtain ⟨-, hids⟩ := hown .landlord ["P"] List.mem_cons_self
  obtain ⟨i, l, ⟨hi, -⟩, -, hu, hseen⟩ := hids "P" List.mem_cons_self
  rcases i with _ | _ | i
  · obtain rfl := Option.some.inj hi
    exact absurd hu (by decide)
  · obtain rfl := Option.some.inj hi
    simp [unseen, Collection.ids] at hseen
  · simp [secondSession, loadedFor] at hi

theorem safe_of_one {old new : Collection} {D : Difference old new} (hR : D.removed.length ≤ 1)
    (hM : D.modified = []) (a : Arrays) (k : Kind) : a.Safe D k := by
  refine ⟨fun pre x post hsplit _ y hy => ?_, fun _ y hy => ?_⟩
  · have hpost := List.length_pos_of_mem hy
    rw [hsplit, List.length_append, List.length_cons] at hR
    omega
  · rw [hM] at hy
    exact absurd hy List.not_mem_nil

theorem ownedBy_noEntries (u v : DocumentId) (ls : List Listener) :
    OwnedBy u (loadedFor v noEntries ls) := by
  intro k ids hids hnil
  rcases Arrays.mem_ids hids with rfl | rfl <;> cases k <;> exact (hnil rfl).elim

theorem careful_of_latest {s : Process} {i : ℕ} {l : Listener} {old new : Collection}
    {D : Difference old new} (hl : Latest s.listeners i l) (hsafe : s.arrays.Safe D l.kind)
    (hu : s.signedIn = some l.user) (hown : OwnedBy l.user s) : Careful s (.deliver i D) := by
  intro m hm
  obtain rfl := Option.some.inj (hl.1.symm.trans hm)
  refine ⟨fun _ => hsafe, fun hnot => (hnot hl).elim, fun u hu' _ => ?_⟩
  obtain rfl := Option.some.inj (hu.symm.trans hu')
  exact ⟨hown, fun _ => rfl⟩

def secondListener (c : Collection) : Listener := ⟨.landlord, secondLandlord, c⟩

theorem latest_second (l : Listener) (c : Collection) :
    Latest ([l] ++ [secondListener c]) 1 (secondListener c) :=
  (latest_append_iff _).mpr (.inl ⟨rfl, rfl⟩)

def secondProperty : DocumentId := ⟨"U", by decide, by decide⟩

def ownListed : List (DocumentId × Fields) := [(property, rented), (newId, vacant)]

theorem ownListed_nodup : (ownListed.map Prod.fst).Nodup := by decide

def ownSwap : Difference (Collection.ofList ownListed)
    (Collection.ofList [(secondProperty, vacant), (newId, vacant)]) :=
  Difference.swap (by decide : property ≠ secondProperty) (by decide) (by decide)

def entry (id : String) : Property :=
  ⟨id, "N/A", "N/A", "A", "03/15/2021", "$900", "2 bds", "1 ba", "700 sqft"⟩

def ownArrays : Arrays :=
  ⟨⟨[{ entry "Q" with tenantName := "N" }, entry "N"], [{ entry "Q" with tenantName := "N" }]⟩,
    [], []⟩

theorem ownedBy_second (l : Listener) (c : Collection) :
    OwnedBy secondLandlord (loadedFor secondLandlord ownArrays [l, secondListener c]) := by
  intro k ids hids hnil
  cases k with
  | landlord => exact ⟨1, secondListener c, latest_second l c, rfl, rfl⟩
  | notifications => exact (hnil (List.mem_singleton.mp hids)).elim
  | tenant => exact (hnil (List.mem_singleton.mp hids)).elim

theorem second_session_own :
    ∃ s', s'.signedIn = some secondLandlord ∧
      s'.arrays.ids .landlord = [["N"], []] ∧ Own secondLandlord s' := by
  have h₁ := reaches_firstSession (C := Careful) (fun _ _ => trivial) fun _ _ => trivial
  have hfirst : Latest ([] ++ [unseen landlord]) 0 (unseen landlord) :=
    (latest_append_iff _).mpr (.inl ⟨rfl, rfl⟩)
  have h₂ : Runs.Reaches Step Careful launched (loadedFor landlord
      ⟨⟨[entry "P"], []⟩, [], []⟩ [⟨.landlord, landlord, Collection.ofList vacated⟩]) :=
    h₁.step (careful_of_latest hfirst (safe_of_one (D := firstBatch) (Nat.zero_le 1) rfl _ _) rfl
      (ownedBy_noEntries _ _ _)) (.deliver (i := 0) (k := .landlord) firstBatch rfl rfl)
  have h₃ : Runs.Reaches Step Careful launched (loadedFor secondLandlord noEntries
      [⟨.landlord, landlord, Collection.ofList vacated⟩, secondListener fun _ => none]) :=
    ((h₂.step (e := Event.logOut) trivial .logOut).step (e := Event.logIn secondLandlord) trivial
      (.logIn _)).step (e := Event.viewDidLoad .landlord) trivial
        (.viewDidLoad (u := secondLandlord) .landlord rfl)
  have hremoved : Careful (loadedFor secondLandlord noEntries
      [⟨.landlord, landlord, Collection.ofList vacated⟩, secondListener fun _ => none])
      (.deliver 0 (Difference.clear vacated vacated_nodup)) := by
    intro l hl
    obtain rfl := Option.some.inj hl
    have hnot : ¬ Latest [⟨.landlord, landlord, Collection.ofList vacated⟩,
        secondListener fun _ => none] 0 ⟨.landlord, landlord, Collection.ofList vacated⟩ :=
      fun h => h.2 1 _ Nat.zero_lt_one rfl rfl
    exact ⟨fun h => (hnot h).elim, fun _ => ⟨rfl, fun _ hx => absurd hx List.not_mem_nil⟩,
      fun u _ _ => ⟨ownedBy_noEntries _ _ _, fun h => (hnot h).elim⟩⟩
  have h₄ : Runs.Reaches Step Careful launched secondSession :=
    h₃.step hremoved (.deliver (i := 0) (k := .landlord) _ rfl rfl)
  have h₅ : Runs.Reaches Step Careful launched (loadedFor secondLandlord ownArrays
      [unseen landlord, secondListener (Collection.ofList ownListed)]) :=
    h₄.step (careful_of_latest (latest_second _ _)
      (safe_of_one (D := Difference.fill ownListed ownListed_nodup) (Nat.zero_le 1) rfl _ _) rfl
      (ownedBy_noEntries _ _ _)) (.deliver (i := 1) (k := .landlord) _ rfl rfl)
  have hcareful : Careful (loadedFor secondLandlord ownArrays
      [unseen landlord, secondListener (Collection.ofList ownListed)]) (.deliver 1 ownSwap) :=
    careful_of_latest (latest_second _ _) (safe_of_one le_rfl rfl _ _) rfl (ownedBy_second _ _)
  exact ⟨_, rfl, rfl, arrays_own h₅ hcareful
    (.deliver (i := 1) (k := .landlord) ownSwap rfl rfl) rfl rfl⟩

end Instances

end Process
end Zeenoc
