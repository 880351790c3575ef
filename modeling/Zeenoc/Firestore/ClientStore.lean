import Zeenoc.Firestore.ListenerRuns
import Zeenoc.Firestore.LocalRuns
import Zeenoc.Firestore.ShownResults

/-! The listeners of a query over the local store: every change of the store reaches the view with
what the store says of it, and the results of the query are what the store finds
(`sync_engine.cc`). -/

namespace Firestore
variable {V User : Type}

/-- `DocumentMap::underlying_map` -/
def underlyingMap (documents : DocumentMap V) : MaybeDocumentMap V :=
  documents.map fun _ doc => .document doc

/-- What a query finds, in its order. -/
def sortedResults (c : DocumentComparator V) (results : DocumentMap V) : DocumentSet c :=
  results.toList.foldl (fun documents kv => documents.insert kv.2) .empty

theorem getDocument_sortedResults (c : DocumentComparator V) {results : DocumentMap V}
    (h : ∀ (k : DocumentKey) d, results[k]? = some d → d.key = k) (k : DocumentKey) :
    (sortedResults c results).getDocument k = results[k]? := by
  have hkeys : (results.toList.filter fun kv => kv.2.key = k) =
      results.toList.filter fun kv => kv.1 = k := by
    apply List.filter_congr
    intro kv hkv
    rw [h kv.1 kv.2 (Std.ExtTreeMap.mem_toList_iff_getElem?_eq_some.mp hkv)]
  have hlook := Loops.look_foldl
    (fun (documents : DocumentSet c) (kv : DocumentKey × Document V) => documents.insert kv.2)
    DocumentSet.getDocument (fun kv => kv.2.key) (fun kv _ => some kv.2)
    (fun documents kv k => by simp [DocumentSet.getDocument_insert, eq_comm])
    results.toList .empty k
  unfold sortedResults
  rw [hlook, Loops.foldl_filter_key, hkeys, Loops.filter_key_toList]
  cases results[k]? with
  | none => exact Std.ExtTreeMap.getElem?_empty
  | some d => rfl

variable [ObjectValue V]

structure ClientStore (V User : Type) [ObjectValue V] (q : Query V) where
  store : LocalStore V User
  client : QueryClient q

namespace LocalStore
variable {q : Query V} {s s' : LocalStore V User} {changes : MaybeDocumentMap V}

def selected (q : Query V) (s : LocalStore V User) : Selected V := fun k =>
  q.select (s.readDocument k).join

theorem Sound.selected_eq (h : s.Sound) : s.selected q = fun k => q.select (s.localView k) := by
  funext k
  unfold selected readDocument
  rw [h.documents.getDocument_eq]
  rfl

theorem Sound.selects (h : s.Sound) (q : Query V) : Selects q (s.selected q) := by
  intro k d hd
  rw [h.selected_eq] at hd
  obtain ⟨hview, hmatches⟩ := q.select_eq_some.mp hd
  exact ⟨s.hasKey_localView k _ hview, hmatches⟩

theorem Brings.keyed (h : s.Brings s' changes) : Keyed changes := fun k _ hd =>
  hasKey_some.mp (h.changed k _ hd).1

theorem Brings.patch (h : s.Brings s' changes) (hs : s.Sound) (hs' : s'.Sound) :
    (s.selected q).patch q changes = s'.selected q := by
  rw [hs.selected_eq, hs'.selected_eq]
  funext k
  unfold Selected.patch
  cases hk : changes[k]? with
  | none => exact congrArg (Option.filter q.matchesDocument) (h.kept k hk).symm
  | some x => exact congrArg (Option.filter q.matchesDocument) (h.changed k x hk).2

theorem Sound.executed (h : s.Sound) (hplain : ∀ b ∈ s.mutationQueue.queue, b.plain)
    (hgroup : q.collectionGroup = none)
    (hpath : q.path.length % 2 = 1 ∨ q = Query.collection q.path) :
    ∃ results, s.executeQuery q = some results ∧
      Executed (underlyingMap results) (s.selected q) := by
  obtain ⟨results, hresults, hget⟩ := h.executeQuery_eq hplain hgroup hpath
  refine ⟨results, hresults, fun k => ⟨results[k]?, Std.ExtTreeMap.getElem?_map, ?_⟩⟩
  rw [h.selected_eq]
  exact hget k

end LocalStore

variable [DecidableEq User] [DecidableEq V] {q : Query V}

/-- The store changes and the view with it, listeners come and go, the connection changes and the
backend rejects the query. No fields are transformed, written batches settle and queries scan. -/
inductive SyncStep : ClientStore V User q → RaisedEvents q → ClientStore V User q → Prop
  | stored {s s' : LocalStore V User} {c c' : QueryClient q} {changes : MaybeDocumentMap V}
      {results : DocumentMap V} {target : Option TargetChange} {events : RaisedEvents q}
      (h : SettledStep s changes s') (hplain : ∀ b ∈ s'.mutationQueue.queue, b.plain)
      (hresults : s'.executeQuery q = some results)
      (hemit : c.emitNewSnapshots changes (underlyingMap results) target = some (c', events)) :
      SyncStep ⟨s, c⟩ events ⟨s', c'⟩
  | add {s : LocalStore V User} {c c' : QueryClient q} {options : ListenOptions}
      {results : DocumentMap V} {remoteKeys : DocumentKeySet} {mirror : Option SyncState}
      {events : RaisedEvents q} (hresults : s.executeQuery q = some results)
      (hadd : c.addQueryListener options (underlyingMap results) remoteKeys mirror =
        some (c', events)) : SyncStep ⟨s, c⟩ events ⟨s, c'⟩
  | remove {s : LocalStore V User} {c c' : QueryClient q} {id : ListenerId}
      (h : c.removeQueryListener id = some c') : SyncStep ⟨s, c⟩ [] ⟨s, c'⟩
  | online {s : LocalStore V User} {c c' : QueryClient q} {onlineState : OnlineState}
      {events : RaisedEvents q} (h : c.handleOnlineStateChange onlineState = some (c', events)) :
      SyncStep ⟨s, c⟩ events ⟨s, c'⟩
  | rejected {s : LocalStore V User} {c : QueryClient q} :
      SyncStep ⟨s, c⟩ [] ⟨s, c.handleRejectedListen⟩

namespace ClientStore
variable (x : ClientStore V User q)

def new (user : User) : ClientStore V User q := ⟨.new user, .new⟩

def Showed (d : Document V) : Prop := ∃ v, x.client.view = some v ∧ v.Showed d

def showedBefore (_ : RaisedEvents q) (_ : ClientStore V User q) (past : Document V → Prop)
    (d : Document V) : Prop :=
  ∃ v, x.client.view = some v ∧ (past d ∨ v.Showed d)

structure Sound (past : Document V → Prop) (heard : ListenerId → List (ViewSnapshot q)) : Prop where
  store : x.store.Sound
  client : x.client.Sound heard
  plain : ∀ b ∈ x.store.mutationQueue.queue, b.plain
  shows : ∀ v, x.client.view = some v → Shows q v.documentSet (x.store.selected q) past

/-- What the view shows after a step from `x`; what waits, it showed in `x`. -/
structure Continues (past : Document V → Prop) (v' : View q) (sel : Selected V) : Prop where
  shows : Shows q v'.documentSet sel fun d => ∃ v, x.client.view = some v ∧ (past d ∨ v.Showed d)
  waits : ∀ d ∈ v'.documentSet.sortedSet, Lags x.Showed (sel d.key) (some d)

variable {x} {x' : ClientStore V User q} {past : Document V → Prop}
  {heard : ListenerId → List (ViewSnapshot q)} {v v' : View q} {events : RaisedEvents q}

omit [DecidableEq User] [DecidableEq V] in
theorem Sound.kept (hx : x.Sound past heard) (hv : x.client.view = some v)
    (hdocs : v'.documentSet = v.documentSet) : x.Continues past v' (x.store.selected q) := by
  have hshows := hx.shows v hv
  rw [← hdocs] at hshows
  refine ⟨hshows.imp fun d hd => ⟨v, hv, .inl hd⟩, fun d hd => ?_⟩
  have hget := (v'.documentSet.mem_iff d).mp hd
  refine (hshows.lags hget).imp fun o ho _ => ⟨v, hv, ?_⟩
  obtain rfl := Option.some.inj ho
  rw [View.Showed, ← hdocs]
  exact hget

omit [DecidableEq User] [DecidableEq V] in
theorem sound_new [DecidableEq User] (user : User) :
    (new user : ClientStore V User q).Sound (fun _ => False) fun _ => [] where
  store := LocalStore.sound_new user
  client := QueryClient.sound_new
  plain b hb := by
    have hempty : (LocalStore.new user : LocalStore V User).mutationQueue.queue = [] := by
      rw [LocalStore.new, LocalStore.startMutationQueue, LocalStore.mutationQueue_withQueue,
        MemoryMutationQueue.start_queue]
      rfl
    change b ∈ (LocalStore.new user : LocalStore V User).mutationQueue.queue at hb
    rw [hempty] at hb
    cases hb
  shows v hv := by cases hv

end ClientStore

section Steps
variable {x x' : ClientStore V User q} {past : Document V → Prop}
  {heard : ListenerId → List (ViewSnapshot q)} {events : RaisedEvents q}

theorem SyncStep.continues (h : SyncStep x events x') (hx : x.Sound past heard)
    (hgroup : q.collectionGroup = none)
    (hpath : q.path.length % 2 = 1 ∨ q = Query.collection q.path) :
    x'.store.Sound ∧ (x'.client.Sound fun id => heard id ++ events.to id) ∧
      (∀ b ∈ x'.store.mutationQueue.queue, b.plain) ∧
      ∀ v', x'.client.view = some v' → x.Continues past v' (x'.store.selected q) := by
  obtain ⟨hs, hc, hplain, hshows⟩ := hx
  have hnothing : (fun id => heard id ++ RaisedEvents.to ([] : RaisedEvents q) id) = heard := by
    funext id
    exact List.append_nil _
  cases h with
  | @stored s s' c c' changes results target _ h hplain' hresults hemit =>
    -- the new store selects what the view is told: the changes over the old selection
    obtain ⟨hs', hbrings⟩ := h.brings hs
    obtain ⟨results', hresults', hexecuted⟩ := hs'.executed hplain' hgroup hpath
    obtain rfl := Option.some.inj (hresults.symm.trans hresults')
    have hsel := hs.selects q
    have hpatch : (s.selected q).patch q changes = s'.selected q := hbrings.patch hs hs'
    rw [← hpatch] at hexecuted
    obtain ⟨_, _, _, _, hkeyed⟩ := hexecuted.found (hsel.patch hbrings.keyed)
    refine ⟨hs', (ClientStep.changed hbrings.keyed hkeyed hemit).sound hc, hplain',
      fun v' hv' => ?_⟩
    cases hv : c.view with
    | none =>
      rw [QueryClient.emitNewSnapshots_of_idle hv] at hemit
      rw [← (Prod.mk.inj (Option.some.inj hemit)).1] at hv'
      exact absurd (hv.symm.trans hv') (by simp)
    | some v =>
      obtain ⟨v₁, out, hview⟩ :=
        QueryClient.exists_of_emitNewSnapshots hv (Option.isSome_of_eq_some hemit)
      obtain ⟨c₁, events₁, hemit₁, hv₁, -⟩ := hc.changed hbrings.keyed hkeyed hv hview
      obtain ⟨rfl, rfl⟩ := Prod.mk.inj (Option.some.inj (hemit.symm.trans hemit₁))
      obtain rfl := Option.some.inj (hv'.symm.trans hv₁)
      obtain ⟨hshows', hlags⟩ := shows_of_emitNewSnapshot (hc.view v hv).marked (hshows v hv) hsel
        hbrings.keyed hexecuted hview
      rw [hpatch] at hshows' hlags
      refine ⟨hshows'.imp fun d hd => ⟨v, hv, hd⟩, fun d hd => ?_⟩
      exact (hlags d.key d ((v'.documentSet.mem_iff d).mp hd)).imp fun _ _ ho => ⟨v, hv, ho⟩
  | @add s c c' options results remoteKeys mirror _ hresults hadd =>
    obtain ⟨results', hresults', hexecuted⟩ := hs.executed hplain hgroup hpath
    obtain rfl := Option.some.inj (hresults.symm.trans hresults')
    obtain ⟨_, _, _, _, hkeyed⟩ := hexecuted.found (hs.selects q)
    obtain ⟨c₁, events₁, hadd₁, hview, hsound⟩ := hc.added options hkeyed remoteKeys mirror
    obtain ⟨rfl, rfl⟩ := Prod.mk.inj (Option.some.inj (hadd.symm.trans hadd₁))
    refine ⟨hs, hsound, hplain, fun v' hv' => ?_⟩
    -- a further listener leaves the view as it is; the first one initializes it
    rcases hview v' hv' with hv | ⟨-, out, hinit⟩
    · exact ClientStore.Sound.kept ⟨hs, hc, hplain, hshows⟩ hv rfl
    · have hshows' := shows_of_initializeView (hs.selects q) hexecuted hinit
      refine ⟨hshows'.imp fun _ hd => hd.elim, fun d hd => ?_⟩
      exact (hshows'.lags ((v'.documentSet.mem_iff d).mp hd)).imp fun _ _ hd => hd.elim
  | @remove s c c' id h =>
    obtain ⟨c₁, hremove, hview, hsound⟩ := hc.removed id
    obtain rfl := Option.some.inj (h.symm.trans hremove)
    rw [hnothing]
    refine ⟨hs, hsound, hplain, fun v' hv' => ?_⟩
    rcases hview with hv | hv
    · exact ClientStore.Sound.kept ⟨hs, hc, hplain, hshows⟩ (hv.symm.trans hv') rfl
    · exact absurd (hv.symm.trans hv') (by simp)
  | @online s c c' onlineState _ h =>
    obtain ⟨c₁, events₁, honline, hview, hsound⟩ := hc.online onlineState
    obtain ⟨rfl, rfl⟩ := Prod.mk.inj (Option.some.inj (h.symm.trans honline))
    refine ⟨hs, hsound, hplain, fun v' hv' => ?_⟩
    obtain ⟨v, out, hv, happly⟩ := hview v' hv'
    exact ClientStore.Sound.kept ⟨hs, hc, hplain, hshows⟩ hv
      (documentSet_of_applyOnlineStateChange happly)
  | rejected =>
    rw [hnothing]
    exact ⟨hs, hc.rejected, hplain, fun v' hv' => by cases hv'⟩

end Steps

section Runs
variable {user : User} {x x' : ClientStore V User q} {past past' : Document V → Prop}
  {events : RaisedEvents q} {es : List (RaisedEvents q)}

theorem sync_run_sound
    (hrun : Runs.Run (Runs.Recorded SyncStep ClientStore.showedBefore)
      (ClientStore.new user, fun _ => False) es (x, past))
    (hgroup : q.collectionGroup = none)
    (hpath : q.path.length % 2 = 1 ∨ q = Query.collection q.path) : x.Sound past (heardBy es) := by
  refine hrun.invariant (I := fun es w => w.1.Sound w.2 (heardBy es)) (ClientStore.sound_new user)
    fun es w events w' hw hstep => ?_
  obtain ⟨hstep, hpast⟩ := hstep
  have happend : heardBy (es ++ [events]) = fun id => heardBy es id ++ events.to id := by
    funext id
    simp [heardBy]
  obtain ⟨hs', hc', hplain', hcontinues⟩ := hstep.continues hw hgroup hpath
  rw [happend]
  refine ⟨hs', hc', hplain', fun v' hv' => ?_⟩
  rw [hpast]
  exact (hcontinues v' hv').shows

theorem exists_sync_run_sound (hrun : Runs.Run SyncStep (ClientStore.new user) es x)
    (hgroup : q.collectionGroup = none)
    (hpath : q.path.length % 2 = 1 ∨ q = Query.collection q.path) :
    ∃ past, x.Sound past (heardBy es) := by
  obtain ⟨past, hrecorded⟩ := hrun.recorded ClientStore.showedBefore fun _ => False
  exact ⟨past, sync_run_sound hrecorded hgroup hpath⟩

omit [DecidableEq User] [DecidableEq V] in
theorem ClientStore.Sound.contents_eq {heard : ListenerId → List (ViewSnapshot q)}
    (hx : x.Sound past heard) (hgroup : q.collectionGroup = none)
    (hpath : q.path.length % 2 = 1 ∨ q = Query.collection q.path) {v : View q}
    (hv : x.client.view = some v)
    (hsynced : ∀ k d, x.store.selected q k = some d → d.hasCommittedMutations = false) :
    ∃ results, x.store.executeQuery q = some results ∧ contents v.documentSet =
      (q.limited (sortedResults q.comparator results).sortedSet).map Document.content := by
  obtain ⟨results, hresults, hget⟩ := hx.store.executeQuery_eq hx.plain hgroup hpath
  have hcontent : ∀ k : DocumentKey, (results[k]?).map Document.content =
      (x.store.selected q k).map Document.content := by
    intro k
    have hk := congrArg
      (Option.map fun u : DocumentKey × V × DocumentState => (u.1, u.2.1)) (hget k)
    rw [Option.map_map, Option.map_map] at hk
    rw [hx.store.selected_eq]
    exact hk
  have hkey : ∀ (k : DocumentKey) d, results[k]? = some d → d.key = k := by
    intro k d hd
    have hk := hcontent k
    rw [hd, Option.map_some, eq_comm, Option.map_eq_some_iff] at hk
    obtain ⟨d', hd', he⟩ := hk
    exact (congrArg Prod.fst he).symm.trans (hx.store.selects q k d' hd').1
  refine ⟨results, hresults, (hx.shows v hv).content_eq hsynced fun k => ?_⟩
  rw [getDocument_sortedResults _ hkey]
  exact hcontent k

/-- After every step of a run the view shows the documents that its query selects of those known,
ordered and limited. A document may wait for its synced version, while its mutations are committed:
then the view shows it as it did before the step, or did not show it then and keeps its place from
when it last did. -/
theorem view_shows_query
    (hrun : Runs.Run (Runs.Recorded SyncStep ClientStore.showedBefore)
      (ClientStore.new user, fun _ => False) es (x, past))
    (hgroup : q.collectionGroup = none)
    (hpath : q.path.length % 2 = 1 ∨ q = Query.collection q.path)
    (hstep : Runs.Recorded SyncStep ClientStore.showedBefore (x, past) events (x', past'))
    {v' : View q} (hv' : x'.client.view = some v') :
    Shows q v'.documentSet (x'.store.selected q) past' ∧
      (∀ d ∈ v'.documentSet.sortedSet, Lags x.Showed (x'.store.selected q d.key) (some d)) ∧
      ((∀ k d, x'.store.selected q k = some d → d.hasCommittedMutations = false) →
        ∃ results, x'.store.executeQuery q = some results ∧ contents v'.documentSet =
          (q.limited (sortedResults q.comparator results).sortedSet).map Document.content) := by
  have hx := sync_run_sound hrun hgroup hpath
  obtain ⟨-, -, -, hcontinues⟩ := SyncStep.continues hstep.1 hx hgroup hpath
  have hx' := sync_run_sound (hrun.step hstep) hgroup hpath
  exact ⟨hx'.shows v' hv', (hcontinues v' hv').waits, hx'.contents_eq hgroup hpath hv'⟩

/-- Whatever is stored next, bringing the view up to date, with a refill where its limit asks for
one, fails on no more than a target change that modifies documents which are not the target's. -/
theorem emitNewSnapshot_isSome_iff (hrun : Runs.Run SyncStep (ClientStore.new user) es x)
    (hgroup : q.collectionGroup = none)
    (hpath : q.path.length % 2 = 1 ∨ q = Query.collection q.path) {v : View q}
    (hv : x.client.view = some v) {changes : MaybeDocumentMap V} {s' : LocalStore V User}
    (hstep : SettledStep x.store changes s') (hplain : ∀ b ∈ s'.mutationQueue.queue, b.plain)
    (target : Option TargetChange) :
    ∃ results, s'.executeQuery q = some results ∧
      ((v.emitNewSnapshot changes (underlyingMap results) target).isSome ↔ v.Admits target) := by
  obtain ⟨past, hx⟩ := exists_sync_run_sound hrun hgroup hpath
  obtain ⟨hs', hbrings⟩ := hstep.brings hx.store
  obtain ⟨results, hresults, hexecuted⟩ := hs'.executed hplain hgroup hpath
  rw [← hbrings.patch hx.store hs'] at hexecuted
  exact ⟨results, hresults, emitNewSnapshot_admits (hx.client.view v hv).marked (hx.shows v hv)
    (hx.store.selects q) hbrings.keyed hexecuted⟩

/-- In a run no assertion about listeners, views and snapshots fails; a change of the store is
refused only for a target change that modifies documents which are not the target's. -/
theorem client_never_fails (hrun : Runs.Run SyncStep (ClientStore.new user) es x)
    (hgroup : q.collectionGroup = none)
    (hpath : q.path.length % 2 = 1 ∨ q = Query.collection q.path) :
    (∀ options remoteKeys mirror, ∃ results, x.store.executeQuery q = some results ∧
        (x.client.addQueryListener options (underlyingMap results) remoteKeys mirror).isSome) ∧
      (∀ id, (x.client.removeQueryListener id).isSome) ∧
      (∀ onlineState, (x.client.handleOnlineStateChange onlineState).isSome) ∧
      ∀ changes s', SettledStep x.store changes s' → (∀ b ∈ s'.mutationQueue.queue, b.plain) →
        ∀ target, ∃ results, s'.executeQuery q = some results ∧
          ((x.client.emitNewSnapshots changes (underlyingMap results) target).isSome ↔
            ∀ v, x.client.view = some v → v.Admits target) := by
  obtain ⟨past, hx⟩ := exists_sync_run_sound hrun hgroup hpath
  refine ⟨fun options remoteKeys mirror => ?_, fun id => ?_, fun onlineState => ?_,
    fun changes s' hstep hplain target => ?_⟩
  · obtain ⟨results, hresults, hexecuted⟩ := hx.store.executed hx.plain hgroup hpath
    obtain ⟨_, _, _, _, hkeyed⟩ := hexecuted.found (hx.store.selects q)
    obtain ⟨c', events, hadd, -⟩ := hx.client.added options hkeyed remoteKeys mirror
    exact ⟨results, hresults, Option.isSome_of_eq_some hadd⟩
  · obtain ⟨c', hremove, -⟩ := hx.client.removed id
    exact Option.isSome_of_eq_some hremove
  · obtain ⟨c', events, honline, -⟩ := hx.client.online onlineState
    exact Option.isSome_of_eq_some honline
  · obtain ⟨hs', hbrings⟩ := hstep.brings hx.store
    obtain ⟨results, hresults, hexecuted⟩ := hs'.executed hplain hgroup hpath
    rw [← hbrings.patch hx.store hs'] at hexecuted
    have hsel := hx.store.selects q
    obtain ⟨_, _, _, _, hkeyed⟩ := hexecuted.found (hsel.patch hbrings.keyed)
    refine ⟨results, hresults, ?_⟩
    cases hv : x.client.view with
    | none =>
      rw [QueryClient.emitNewSnapshots_of_idle hv]
      exact ⟨fun _ _ h => (Option.some_ne_none _ h.symm).elim, fun _ => rfl⟩
    | some v =>
      have hadmits : (v.emitNewSnapshot changes (underlyingMap results) target).isSome ↔
          v.Admits target :=
        emitNewSnapshot_admits (hx.client.view v hv).marked (hx.shows v hv) hsel hbrings.keyed
          hexecuted
      constructor
      · intro hemits v₁ hv₁
        obtain rfl := Option.some.inj hv₁
        obtain ⟨v', out, hemit⟩ := QueryClient.exists_of_emitNewSnapshots hv hemits
        exact hadmits.mp (Option.isSome_of_eq_some hemit)
      · intro hall
        obtain ⟨⟨v', out⟩, hemit⟩ := Option.isSome_iff_exists.mp (hadmits.mpr (hall v rfl))
        obtain ⟨c', events, hemits, -⟩ := hx.client.changed hbrings.keyed hkeyed hv hemit
        exact Option.isSome_of_eq_some hemits

/-- Whatever is written, acknowledged, rejected and received, and whatever listeners come and go:
what a listener was told adds up to what its query would find now, in order, if no found document
waits for its synced version. -/
theorem listeners_hear_query (hrun : Runs.Run SyncStep (ClientStore.new user) es x)
    (hgroup : q.collectionGroup = none)
    (hpath : q.path.length % 2 = 1 ∨ q = Query.collection q.path)
    {info : QueryListenersInfo q} (hinfo : x.client.info = some info) {id : ListenerId}
    {l : QueryListener q} (hl : (id, l) ∈ info.listeners) (hraised : l.raisedInitialEvent)
    (hsynced : ∀ k d, x.store.selected q k = some d → d.hasCommittedMutations = false)
    (includeMetadataChanges : Bool)
    (hinclude : includeMetadataChanges → l.options.includeDocumentMetadataChanges) :
    ∃ results, x.store.executeQuery q = some results ∧
      (heardBy es id).foldlM (ViewSnapshot.update Document.data includeMetadataChanges) [] =
        some ((q.limited (sortedResults q.comparator results).sortedSet).map Document.content) := by
  obtain ⟨past, hx⟩ := exists_sync_run_sound hrun hgroup hpath
  obtain ⟨v, hv⟩ : ∃ v, x.client.view = some v := by
    rw [← Option.ne_none_iff_exists', ne_eq, ← hx.client.idle_iff, hinfo]
    exact Option.some_ne_none info
  obtain ⟨info', hinfo', hfollow, -⟩ := hx.client.listens v hv
  obtain rfl : info = info' := Option.some.inj (hinfo.symm.trans hinfo')
  have htold := (hfollow.attached (id, l) hl).follows.told hraised includeMetadataChanges hinclude
  obtain ⟨results, hresults, hcontents⟩ := hx.contents_eq hgroup hpath hv hsynced
  exact ⟨results, hresults, htold.trans (congrArg some hcontents)⟩

end Runs

section Renting

abbrev rentQuery : Query (Entries FieldValue) := Query.collection ["properties"]

def rentListened : QueryClient rentQuery × RaisedEvents rentQuery :=
  (QueryClient.new.addQueryListener .defaultOptions (underlyingMap ∅) ∅ none).get
    (by decide +kernel)

def rentFound : DocumentMap (Entries FieldValue) :=
  (rentedStore.1.executeQuery rentQuery).get (by decide +kernel)

def rentHeard : QueryClient rentQuery × RaisedEvents rentQuery :=
  (rentListened.1.emitNewSnapshots rentedStore.2.changes (underlyingMap rentFound) none).get
    (by decide +kernel)

theorem rent_run : Runs.Run SyncStep (ClientStore.new "L" : ClientStore _ String rentQuery)
    [rentListened.2, rentHeard.2] ⟨rentedStore.1, rentHeard.1⟩ := by
  have hempty : (LocalStore.new "L").executeQuery rentQuery = some ∅ := by decide +kernel
  have hadd : QueryClient.new.addQueryListener .defaultOptions (underlyingMap ∅) ∅ none =
      some (rentListened.1, rentListened.2) := (Option.some_get _).symm
  have hfound : rentedStore.1.executeQuery rentQuery = some rentFound := (Option.some_get _).symm
  have hemit : rentListened.1.emitNewSnapshots rentedStore.2.changes (underlyingMap rentFound)
      none =
      some (rentHeard.1, rentHeard.2) := (Option.some_get _).symm
  exact .step (.step .start (.add hempty hadd)) (.stored rented_step rented_plain hfound hemit)

def committedRent : MutationBatchResult (Entries FieldValue) where
  batch := rentedStore.1.mutationQueue.queue.head?.get (by decide +kernel)
  commitVersion := 5
  mutationResults := [⟨5, none⟩]
  length_eq := by decide +kernel

def committedStore :
    LocalStore (Entries FieldValue) String × MaybeDocumentMap (Entries FieldValue) :=
  (rentedStore.1.acknowledgeBatch committedRent).get (by decide +kernel)

def raisedStore : LocalStore (Entries FieldValue) String × LocalWriteResult (Entries FieldValue) :=
  (committedStore.1.writeLocally 1 [raiseRent]).get (by decide +kernel)

def refusedStore : LocalStore (Entries FieldValue) String × MaybeDocumentMap (Entries FieldValue) :=
  (raisedStore.1.rejectBatch raisedStore.2.batchId).get (by decide +kernel)

theorem committed_step : SettledStep rentedStore.1 committedStore.2 committedStore.1 := by
  have hhead : rentedStore.1.mutationQueue.queue.head? = some committedRent.batch :=
    (Option.some_get (by decide +kernel)).symm
  have hfits : committedRent.Fits := by
    obtain ⟨batch, hqueue, hmutations⟩ := rented_queue
    have hbatch : committedRent.batch = batch := by
      rw [hqueue] at hhead
      exact (Option.some.inj hhead).symm
    intro x hx
    rw [hbatch, hmutations] at hx
    obtain rfl : x = (setRent, ⟨5, none⟩) := by simpa [committedRent] using hx
    rfl
  have hack : rentedStore.1.acknowledgeBatch committedRent = some committedStore :=
    (Option.some_get _).symm
  exact ⟨.acknowledged hhead hfits (Nat.succ_pos 4) hack,
    LocalStore.settles_of_nodup (by decide +kernel)⟩

theorem raised_step : SettledStep committedStore.1 raisedStore.2.changes raisedStore.1 := by
  have hwrite : committedStore.1.writeLocally 1 [raiseRent] = some raisedStore :=
    (Option.some_get _).symm
  exact ⟨.wrote hwrite, LocalStore.settles_of_nodup (by decide +kernel)⟩

theorem refused_step : SettledStep raisedStore.1 refusedStore.2 refusedStore.1 := by
  have hreject : raisedStore.1.rejectBatch raisedStore.2.batchId = some refusedStore :=
    (Option.some_get _).symm
  exact ⟨.rejected hreject, LocalStore.settles_of_nodup (by decide +kernel)⟩

def rentStored (s : LocalStore (Entries FieldValue) String) (c : QueryClient rentQuery)
    (changes : MaybeDocumentMap (Entries FieldValue)) :
    Option (QueryClient rentQuery × RaisedEvents rentQuery) :=
  (s.executeQuery rentQuery).bind fun results =>
    c.emitNewSnapshots changes (underlyingMap results) none

theorem sync_rentStored {s s' : LocalStore (Entries FieldValue) String} {c : QueryClient rentQuery}
    {changes : MaybeDocumentMap (Entries FieldValue)}
    {c' : QueryClient rentQuery × RaisedEvents rentQuery} (h : SettledStep s changes s')
    (hplain : ∀ b ∈ s'.mutationQueue.queue, b.plain) (hc : rentStored s' c changes = some c') :
    SyncStep ⟨s, c⟩ c'.2 ⟨s', c'.1⟩ := by
  obtain ⟨results, hresults, hemit⟩ := Option.bind_eq_some_iff.mp hc
  exact .stored h hplain hresults hemit

def committedHeard : QueryClient rentQuery × RaisedEvents rentQuery :=
  (rentStored committedStore.1 rentHeard.1 committedStore.2).get (by decide +kernel)

def raisedHeard : QueryClient rentQuery × RaisedEvents rentQuery :=
  (rentStored raisedStore.1 committedHeard.1 raisedStore.2.changes).get (by decide +kernel)

def refusedHeard : QueryClient rentQuery × RaisedEvents rentQuery :=
  (rentStored refusedStore.1 raisedHeard.1 refusedStore.2).get (by decide +kernel)

theorem raised_run : Runs.Run SyncStep (ClientStore.new "L" : ClientStore _ String rentQuery)
    [rentListened.2, rentHeard.2, committedHeard.2, raisedHeard.2]
    ⟨raisedStore.1, raisedHeard.1⟩ := by
  have hcommitted : rentStored committedStore.1 rentHeard.1 committedStore.2 =
      some committedHeard :=
    (Option.some_get _).symm
  have hraised : rentStored raisedStore.1 committedHeard.1 raisedStore.2.changes =
      some raisedHeard := (Option.some_get _).symm
  exact .step (.step rent_run (sync_rentStored committed_step (by decide +kernel) hcommitted))
    (sync_rentStored raised_step (by decide +kernel) hraised)

/-- The raised rent stays in sight until the backend has sent the committed one. -/
theorem refused_rent_shown : ∃ (v v' : View rentQuery) (d : Document (Entries FieldValue)),
    raisedHeard.1.view = some v ∧ refusedHeard.1.view = some v' ∧
      d ∈ v'.documentSet.sortedSet ∧ v.Showed d ∧
      (refusedStore.1.selected rentQuery d.key).map Document.data ≠ some d.data := by
  obtain ⟨past, hrun⟩ := raised_run.recorded ClientStore.showedBefore fun _ => False
  have hrefused : rentStored refusedStore.1 raisedHeard.1 refusedStore.2 = some refusedHeard :=
    (Option.some_get _).symm
  have hstep := sync_rentStored refused_step (by decide +kernel) hrefused
  have hview : refusedHeard.1.view.map (fun v => v.documentSet.sortedSet.map fun d =>
      decide ((refusedStore.1.selected rentQuery d.key).map Document.data = some d.data)) =
        some [false] := by
    decide +kernel
  obtain ⟨v', hv', hdocs⟩ := Option.map_eq_some_iff.mp hview
  obtain ⟨d, hd, hdata⟩ := List.mem_map.mp (hdocs ▸ List.mem_singleton_self false)
  have hlags := (view_shows_query hrun rfl (.inl rfl) ⟨hstep, rfl⟩ hv').2.1 d hd
  have hne := of_decide_eq_false hdata
  change Lags _ (refusedStore.1.selected rentQuery d.key) (some d) at hlags
  cases hstored : refusedStore.1.selected rentQuery d.key with
  | none =>
    rw [hstored] at hlags
    cases hlags
  | some stored =>
    rw [hstored] at hlags hne
    cases hlags with
    | present _ _ _ hwaits _ =>
      obtain hsame | ⟨-, -, v, hv, hshowed⟩ := hwaits
      · exact absurd (congrArg some hsame.symm) hne
      · exact ⟨v, v', d, hv, hv', hd, hshowed, hstored ▸ hne⟩

theorem rent_listed : ∃ v results, rentHeard.1.view = some v ∧
    committedStore.1.executeQuery rentQuery = some results ∧
      (v.emitNewSnapshot committedStore.2 (underlyingMap results)
        (some ⟨true, {rentKey}, ∅, ∅⟩)).isSome := by
  have hview : rentHeard.1.view.isSome := by decide +kernel
  obtain ⟨v, hv⟩ := Option.isSome_iff_exists.mp hview
  obtain ⟨results, hresults, hadmits⟩ := emitNewSnapshot_isSome_iff rent_run rfl (.inl rfl) hv
    committed_step (by decide +kernel) (some ⟨true, {rentKey}, ∅, ∅⟩)
  refine ⟨v, results, hv, hresults, hadmits.mpr fun t ht k hk => ?_⟩
  rw [← Option.some.inj ht] at hk
  simp at hk

theorem rent_goes_offline : (rentHeard.1.handleOnlineStateChange .offline).isSome :=
  (client_never_fails rent_run rfl (.inl rfl)).2.2.1 .offline

theorem rent_heard : ∃ results, rentedStore.1.executeQuery rentQuery = some results ∧
    (heardBy [rentListened.2, rentHeard.2] 0).foldlM (ViewSnapshot.update Document.data false) [] =
      some ((rentQuery.limited (sortedResults rentQuery.comparator results).sortedSet).map
        Document.content) := by
  have hlisteners : rentHeard.1.info.map (fun info =>
      info.listeners.map fun x => (x.1, x.2.raisedInitialEvent)) = some [(0, true)] := by
    decide +kernel
  obtain ⟨info, hinfo, hids⟩ := Option.map_eq_some_iff.mp hlisteners
  obtain ⟨⟨id, l⟩, hl, he⟩ := List.mem_map.mp (hids ▸ List.mem_singleton_self (0, true))
  obtain ⟨rfl, hraised⟩ := Prod.mk.inj he
  have hlocal : ∀ kv ∈ rentedStore.2.changes.toList,
      (found (some kv.2)).all fun d => !d.hasCommittedMutations := by decide +kernel
  refine listeners_hear_query rent_run rfl (.inl rfl) hinfo hl hraised (fun k d hd => ?_) false
    (by simp)
  obtain ⟨hs, hknown⟩ := local_run_known rented_settled_run
  have hk := congrFun hknown k
  rw [List.foldl_cons, List.foldl_nil, afterChanges] at hk
  change rentedStore.1.selected rentQuery k = some d at hd
  rw [hs.selected_eq] at hd
  obtain ⟨hview, -⟩ := rentQuery.select_eq_some.mp hd
  rw [hview] at hk
  cases hchange : rentedStore.2.changes[k]? with
  | none =>
    rw [hchange] at hk
    cases hk
  | some x =>
    have hx : found (some x) = some d := by
      rw [hchange] at hk
      exact hk
    have hd' := hlocal (k, x) (Std.ExtTreeMap.mem_toList_iff_getElem?_eq_some.mpr hchange)
    rw [hx] at hd'
    simpa using hd'

end Renting
end Firestore
