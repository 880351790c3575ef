import Zeenoc.Firestore.EventManager

/-! Every run of the client: what a listener was told adds up to what its view shows. -/

namespace Firestore
variable {V : Type} [DecidableEq V] {q : Query V}

def heardBy (es : List (RaisedEvents q)) (id : ListenerId) : List (ViewSnapshot q) :=
  es.flatMap fun events => events.to id

theorem ClientStep.sound {c c' : QueryClient q} {events : RaisedEvents q}
    {heard : ListenerId → List (ViewSnapshot q)} (h : ClientStep c events c') (hs : c.Sound heard) :
    c'.Sound fun id => heard id ++ events.to id := by
  have hsame : (fun id => heard id ++ RaisedEvents.to ([] : RaisedEvents q) id) = heard := by
    funext id
    exact List.append_nil _
  cases h with
  | @add _ options results remoteKeys mirror _ hresults h =>
    obtain ⟨c'', events', h', -, hsound⟩ := hs.added options hresults remoteKeys mirror
    obtain ⟨rfl, rfl⟩ := Prod.mk.inj (Option.some.inj (h.symm.trans h'))
    exact hsound
  | @remove _ id h =>
    obtain ⟨c'', h', -, hsound⟩ := hs.removed id
    obtain rfl := Option.some.inj (h.symm.trans h')
    rw [hsame]
    exact hsound
  | @changed _ m results target _ hm hresults h =>
    cases hv : c.view with
    | none =>
      rw [QueryClient.emitNewSnapshots_of_idle hv] at h
      obtain ⟨rfl, rfl⟩ := Prod.mk.inj (Option.some.inj h)
      rw [hsame]
      exact hs
    | some v =>
      obtain ⟨v', out, hemit⟩ :=
        QueryClient.exists_of_emitNewSnapshots hv (Option.isSome_of_eq_some h)
      obtain ⟨c'', events', h', -, hsound⟩ := hs.changed hm hresults hv hemit
      obtain ⟨rfl, rfl⟩ := Prod.mk.inj (Option.some.inj (h.symm.trans h'))
      exact hsound
  | @online _ onlineState _ h =>
    obtain ⟨c'', events', h', -, hsound⟩ := hs.online onlineState
    obtain ⟨rfl, rfl⟩ := Prod.mk.inj (Option.some.inj (h.symm.trans h'))
    exact hsound
  | rejected =>
    rw [hsame]
    exact hs.rejected

section Runs
variable {es : List (RaisedEvents q)} {c : QueryClient q}

theorem client_sound (hrun : Runs.Run ClientStep QueryClient.new es c) : c.Sound (heardBy es) := by
  refine hrun.invariant (I := fun es c => c.Sound (heardBy es)) QueryClient.sound_new
    fun es c events c' hs hstep => ?_
  have happend : heardBy (es ++ [events]) = fun id => heardBy es id ++ events.to id := by
    funext id
    simp [heardBy]
  rw [happend]
  exact hstep.sound hs

/-- Whatever listeners come and go, and whatever the local store and the connection do: a listener
that applies the changes of the events it got to a list, one by one at their indexes, has the
documents that the view of its query shows, in order. A listener that got none waits for the
backend. -/
theorem listeners_follow (hrun : Runs.Run ClientStep QueryClient.new es c) {v : View q}
    {info : QueryListenersInfo q} (hv : c.view = some v) (hinfo : c.info = some info)
    {id : ListenerId} {l : QueryListener q} (hl : (id, l) ∈ info.listeners) :
    (l.raisedInitialEvent → ∀ includeMetadataChanges : Bool,
      (includeMetadataChanges → l.options.includeDocumentMetadataChanges) →
        (heardBy es id).foldlM (ViewSnapshot.update Document.data includeMetadataChanges) [] =
          some (contents v.documentSet)) ∧
      (l.raisedInitialEvent = false → heardBy es id = [] ∧ v.syncState = .fromCache ∧
        c.onlineState ≠ .offline ∧
        (v.documentSet.size = 0 ∨ l.options.waitForSyncWhenOnline)) := by
  have hs := client_sound hrun
  obtain ⟨info', hinfo', hfollow, old, snapshot, hlast, -⟩ := hs.listens v hv
  obtain rfl : info = info' := Option.some.inj (hinfo.symm.trans hinfo')
  have hattached := hfollow.attached (id, l) hl
  rw [hlast] at hattached
  exact ⟨hattached.follows.told, hattached.waits⟩

end Runs

section Listing

def listenedClient : QueryClient propertiesQuery × RaisedEvents propertiesQuery :=
  (QueryClient.new.addQueryListener .defaultOptions ∅ ∅ none).get (by decide +kernel)

def listingClient : QueryClient propertiesQuery × RaisedEvents propertiesQuery :=
  (listenedClient.1.emitNewSnapshots listedProperties listedProperties none).get
    (by decide +kernel)

theorem listing_client_run : Runs.Run ClientStep QueryClient.new
    [listenedClient.2, listingClient.2] listingClient.1 := by
  have hadd : QueryClient.new.addQueryListener .defaultOptions ∅ ∅ none =
      some (listenedClient.1, listenedClient.2) := (Option.some_get _).symm
  have hemit : listenedClient.1.emitNewSnapshots listedProperties listedProperties none =
      some (listingClient.1, listingClient.2) := (Option.some_get _).symm
  exact .step (.step .start (.add keyed_empty hadd))
    (.changed keyed_listedProperties keyed_listedProperties hemit)

theorem listing_heard :
    (heardBy [listenedClient.2, listingClient.2] 0).foldlM
      (ViewSnapshot.update Document.data false) [] = some [(listedProperty.key, 0)] := by
  have hview : listingClient.1.view.map (fun v => contents v.documentSet) =
      some [(listedProperty.key, 0)] := by decide +kernel
  have hlisteners : listingClient.1.info.map (fun info =>
      info.listeners.map fun x => (x.1, x.2.raisedInitialEvent)) = some [(0, true)] := by
    decide +kernel
  obtain ⟨v, hv, hcontents⟩ := Option.map_eq_some_iff.mp hview
  obtain ⟨info, hinfo, hids⟩ := Option.map_eq_some_iff.mp hlisteners
  obtain ⟨⟨id, l⟩, hl, he⟩ := List.mem_map.mp (hids ▸ List.mem_singleton_self (0, true))
  obtain ⟨rfl, hraised⟩ := Prod.mk.inj he
  rw [← hcontents]
  exact (listeners_follow listing_client_run hv hinfo hl).1 hraised false (by simp)

end Listing
end Firestore
