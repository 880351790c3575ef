import Zeenoc.Firestore.QueryListener

/-! One query in the client: its view (`sync_engine.cc`) and its listeners (`event_manager.cc`), as
they come and go while the local store and the connection change. A failed `HARD_ASSERT` is
`none`. -/

namespace Firestore
variable {V : Type} {q : Query V}

/-- Listeners are told apart by their address; each one is new. -/
abbrev ListenerId := ℕ

abbrev RaisedEvents (q : Query V) := List (ListenerId × ViewSnapshot q)

structure QueryListenersInfo (q : Query V) where
  listeners : List (ListenerId × QueryListener q)
  viewSnapshot : Option (ViewSnapshot q)

def notify (f : QueryListener q → Option (QueryListener q × Option (ViewSnapshot q))) :
    List (ListenerId × QueryListener q) →
      Option (List (ListenerId × QueryListener q) × RaisedEvents q)
  | [] => some ([], [])
  | (id, listener) :: rest =>
    (f listener).bind fun (listener, event) =>
    (notify f rest).map fun (rest, events) =>
      ((id, listener) :: rest, event.toList.map (id, ·) ++ events)

/-- The entries of `queries_` and `query_views_by_query_` for a query. -/
structure QueryClient (q : Query V) where
  onlineState : OnlineState
  info : Option (QueryListenersInfo q)
  view : Option (View q)
  nextId : ListenerId

namespace QueryClient
variable (c : QueryClient q)

def new : QueryClient q := ⟨.unknown, none, none, 0⟩

def onViewSnapshots (snapshot : Option (ViewSnapshot q)) :
    Option (QueryClient q × RaisedEvents q) :=
  match snapshot, c.info with
  | some snapshot, some info =>
    (notify (QueryListener.onViewSnapshot · snapshot) info.listeners).map fun (listeners, events) =>
      ({ c with info := some ⟨listeners, some snapshot⟩ }, events)
  | _, _ => some (c, [])

/-- `EventManager::HandleOnlineStateChange` -/
def onlineStateChanged (onlineState : OnlineState) : Option (QueryClient q × RaisedEvents q) :=
  let c := { c with onlineState := onlineState }
  match c.info with
  | none => some (c, [])
  | some info =>
    (notify (QueryListener.onOnlineStateChanged · onlineState) info.listeners).map
      fun (listeners, events) =>
        ({ c with info := some { info with listeners := listeners } }, events)

def handleOnlineStateChange (onlineState : OnlineState) :
    Option (QueryClient q × RaisedEvents q) :=
  (match c.view with
    | none => some (c, [])
    | some view =>
      (view.applyOnlineStateChange onlineState).bind fun (view, viewChange) =>
      if viewChange.limboChanges ≠ [] then none
      else onViewSnapshots { c with view := some view } viewChange.snapshot).bind fun (c, events) =>
  (c.onlineStateChanged onlineState).map fun (c, more) => (c, events ++ more)

def removeQueryListener (id : ListenerId) : Option (QueryClient q) :=
  match c.info with
  | none => some c
  | some info =>
    let listeners := info.listeners.eraseP fun x => x.1 = id
    if listeners.isEmpty then
      if c.view.isNone then none else some { c with info := none, view := none }
    else some { c with info := some { info with listeners := listeners } }

/-- `HandleRejectedListen`: the view goes, and `OnError` removes the listeners. -/
def handleRejectedListen : QueryClient q := { c with info := none, view := none }

variable [DecidableEq V]

def listen (results : MaybeDocumentMap V) (remoteKeys : DocumentKeySet)
    (mirror : Option SyncState) : Option (QueryClient q × RaisedEvents q) :=
  if c.view.isSome then none
  else
    (initializeView q results remoteKeys mirror).bind fun (view, viewChange) =>
    if viewChange.snapshot.isNone then none
    else onViewSnapshots { c with view := some view } viewChange.snapshot

def addQueryListener (options : ListenOptions) (results : MaybeDocumentMap V)
    (remoteKeys : DocumentKeySet) (mirror : Option SyncState) :
    Option (QueryClient q × RaisedEvents q) :=
  let firstListen := c.info.isNone
  let info := c.info.getD ⟨[], none⟩
  ((QueryListener.create options).onOnlineStateChanged c.onlineState).bind fun (listener, event) =>
  if event.isSome then none
  else
    (match info.viewSnapshot with
      | none => some (listener, none)
      | some snapshot => listener.onViewSnapshot snapshot).bind fun (listener, event) =>
    let added := { c with
      info := some { info with listeners := info.listeners ++ [(c.nextId, listener)] }
      nextId := c.nextId + 1 }
    let events := event.toList.map (c.nextId, ·)
    if firstListen then
      (added.listen results remoteKeys mirror).map fun (added, more) => (added, events ++ more)
    else some (added, events)

/-- `EmitNewSnapshotsAndNotifyLocalStore` -/
def emitNewSnapshots (changes results : MaybeDocumentMap V) (target : Option TargetChange) :
    Option (QueryClient q × RaisedEvents q) :=
  match c.view with
  | none => some (c, [])
  | some view =>
    (view.emitNewSnapshot changes results target).bind fun (view, viewChange) =>
    onViewSnapshots { c with view := some view } viewChange.snapshot

end QueryClient

/-- Listeners come and go, the local store changes, the connection does, and the backend rejects the
query. -/
inductive ClientStep [DecidableEq V] : QueryClient q → RaisedEvents q → QueryClient q → Prop
  | add {c c' : QueryClient q} {options : ListenOptions} {results : MaybeDocumentMap V}
      {remoteKeys : DocumentKeySet} {mirror : Option SyncState} {events : RaisedEvents q}
      (hresults : Keyed results)
      (h : c.addQueryListener options results remoteKeys mirror = some (c', events)) :
      ClientStep c events c'
  | remove {c c' : QueryClient q} {id : ListenerId} (h : c.removeQueryListener id = some c') :
      ClientStep c [] c'
  | changed {c c' : QueryClient q} {m results : MaybeDocumentMap V} {target : Option TargetChange}
      {events : RaisedEvents q} (hm : Keyed m) (hresults : Keyed results)
      (h : c.emitNewSnapshots m results target = some (c', events)) : ClientStep c events c'
  | online {c c' : QueryClient q} {onlineState : OnlineState} {events : RaisedEvents q}
      (h : c.handleOnlineStateChange onlineState = some (c', events)) : ClientStep c events c'
  | rejected {c : QueryClient q} : ClientStep c [] c.handleRejectedListen

def RaisedEvents.to (events : RaisedEvents q) (id : ListenerId) : List (ViewSnapshot q) :=
  events.filterMap fun e => if e.1 = id then some e.2 else none

section Notify
variable {f : QueryListener q → Option (QueryListener q × Option (ViewSnapshot q))}
  {listeners : List (ListenerId × QueryListener q)} {heard : ListenerId → List (ViewSnapshot q)}

theorem RaisedEvents.to_append (events more : RaisedEvents q) (id : ListenerId) :
    RaisedEvents.to (events ++ more) id = events.to id ++ more.to id :=
  List.filterMap_append

theorem RaisedEvents.to_own (event : Option (ViewSnapshot q)) (id : ListenerId) :
    RaisedEvents.to (event.toList.map (id, ·)) id = event.toList := by
  cases event <;> simp [RaisedEvents.to]

theorem RaisedEvents.to_other (event : Option (ViewSnapshot q)) {id id' : ListenerId}
    (h : id ≠ id') : RaisedEvents.to (event.toList.map (id, ·)) id' = [] := by
  cases event <;> simp [RaisedEvents.to, h]

theorem notify_spec (R R' : QueryListener q → List (ViewSnapshot q) → Prop)
    (hf : ∀ l heard, R l heard → ∃ l' event, f l = some (l', event) ∧ R' l' (heard ++ event.toList))
    (hnodup : (listeners.map Prod.fst).Nodup) (hR : ∀ x ∈ listeners, R x.2 (heard x.1)) :
    ∃ listeners' events, notify f listeners = some (listeners', events) ∧
      listeners'.map Prod.fst = listeners.map Prod.fst ∧
      (∀ x ∈ listeners', R' x.2 (heard x.1 ++ events.to x.1)) ∧
      ∀ id, id ∉ listeners.map Prod.fst → events.to id = [] := by
  induction listeners with
  | nil => exact ⟨[], [], rfl, rfl, by simp, fun _ _ => rfl⟩
  | cons x listeners ih =>
    obtain ⟨id, l⟩ := x
    rw [List.map_cons, List.nodup_cons] at hnodup
    obtain ⟨l', event, hl, hl'⟩ := hf l (heard id) (hR _ List.mem_cons_self)
    obtain ⟨listeners', events, hrest, hkeys, hfollow, hother⟩ :=
      ih hnodup.2 fun x hx => hR x (List.mem_cons_of_mem _ hx)
    refine ⟨(id, l') :: listeners', event.toList.map (id, ·) ++ events, ?_, ?_, ?_, ?_⟩
    · simp [notify, hl, hrest]
    · rw [List.map_cons, List.map_cons, hkeys]
    · intro x hx
      rw [RaisedEvents.to_append]
      rcases List.mem_cons.mp hx with rfl | hx
      · rw [RaisedEvents.to_own, hother _ hnodup.1, List.append_nil]
        exact hl'
      · have hne : id ≠ x.1 := by
          intro he
          apply hnodup.1
          rw [← hkeys]
          exact List.mem_map.mpr ⟨x, hx, he.symm⟩
        rw [RaisedEvents.to_other _ hne, List.nil_append]
        exact hfollow x hx
    · intro id' hid
      rw [List.map_cons, List.mem_cons, not_or] at hid
      rw [RaisedEvents.to_append, RaisedEvents.to_other _ (Ne.symm hid.1), hother _ hid.2,
        List.append_nil]

end Notify

structure QueryListenersInfo.Follow (info : QueryListenersInfo q) (c : QueryClient q)
    (shown : Shown q) (heard : ListenerId → List (ViewSnapshot q)) : Prop where
  nodup : (info.listeners.map Prod.fst).Nodup
  issued : ∀ x ∈ info.listeners, x.1 < c.nextId
  attached : ∀ x ∈ info.listeners,
    x.2.Attached c.onlineState info.viewSnapshot.isSome shown (heard x.1)

/-- The listener that is added next has heard `event` only, the others nothing new. -/
theorem QueryListenersInfo.Follow.added {info : QueryListenersInfo q} {c : QueryClient q}
    {shown : Shown q} {heard : ListenerId → List (ViewSnapshot q)}
    (hfollow : info.Follow c shown heard) (hfresh : heard c.nextId = [])
    {l : QueryListener q} {event : Option (ViewSnapshot q)}
    (hl : l.Attached c.onlineState info.viewSnapshot.isSome shown event.toList) :
    QueryListenersInfo.Follow { info with listeners := info.listeners ++ [(c.nextId, l)] }
      { c with nextId := c.nextId + 1 } shown
      fun id => heard id ++ RaisedEvents.to (event.toList.map (c.nextId, ·)) id where
  nodup := by
    rw [List.map_append, List.nodup_append]
    refine ⟨hfollow.nodup, List.nodup_singleton _, fun id hid id' hid' => ?_⟩
    obtain ⟨x, hx, rfl⟩ := List.mem_map.mp hid
    obtain rfl := List.mem_singleton.mp hid'
    exact (hfollow.issued x hx).ne
  issued x hx := by
    rcases List.mem_append.mp hx with hx | hx
    · exact Nat.lt_succ_of_lt (hfollow.issued x hx)
    · obtain rfl := List.mem_singleton.mp hx
      exact Nat.lt_succ_self _
  attached x hx := by
    rcases List.mem_append.mp hx with hx | hx
    · rw [RaisedEvents.to_other _ (hfollow.issued x hx).ne', List.append_nil]
      exact hfollow.attached x hx
    · obtain rfl := List.mem_singleton.mp hx
      rw [hfresh, RaisedEvents.to_own]
      exact hl

namespace QueryClient
variable {c : QueryClient q} {info : QueryListenersInfo q} {shown shown' : Shown q}
  {heard : ListenerId → List (ViewSnapshot q)}

theorem onViewSnapshots_follow (hinfo : c.info = some info) (h : info.Follow c shown heard)
    (snapshot : Option (ViewSnapshot q)) (hs : match snapshot with
      | none => shown' = shown
      | some snapshot => Reported shown snapshot shown') :
    ∃ info' events, c.onViewSnapshots snapshot = some ({ c with info := some info' }, events) ∧
      info'.Follow c shown' (fun id => heard id ++ events.to id) ∧
      info'.viewSnapshot = snapshot.or info.viewSnapshot ∧
      ∀ id, c.nextId ≤ id → events.to id = [] := by
  cases snapshot with
  | none =>
    refine ⟨info, [], ?_, ⟨h.nodup, h.issued, fun x hx => ?_⟩, by simp, fun _ _ => rfl⟩
    · simp only [onViewSnapshots, ← hinfo]
    · change x.2.Attached _ _ shown' (heard x.1 ++ [])
      rw [hs, List.append_nil]
      exact h.attached x hx
  | some snapshot =>
    obtain ⟨listeners', events, hnotify, hkeys, hfollow, hother⟩ := notify_spec
      (f := fun l => l.onViewSnapshot snapshot)
      (fun l heard => l.Attached c.onlineState info.viewSnapshot.isSome shown heard)
      (fun l heard => l.Attached c.onlineState true shown' heard)
      (fun l heard hl => hl.onViewSnapshot hs) h.nodup h.attached
    have hissued : ∀ id ∈ info.listeners.map Prod.fst, id < c.nextId := by
      intro id hid
      obtain ⟨x, hx, rfl⟩ := List.mem_map.mp hid
      exact h.issued x hx
    refine ⟨⟨listeners', some snapshot⟩, events, ?_, ⟨?_, fun x hx => ?_, hfollow⟩, rfl, ?_⟩
    · simp [onViewSnapshots, hinfo, hnotify]
    · rw [hkeys]
      exact h.nodup
    · exact hissued x.1 (hkeys ▸ List.mem_map_of_mem hx)
    · exact fun id hid => hother id fun hmem => absurd (hissued id hmem) (not_lt.mpr hid)

theorem onlineStateChanged_follow (hinfo : c.info = some info) (h : info.Follow c shown heard)
    (onlineState : OnlineState) :
    ∃ info' events, c.onlineStateChanged onlineState =
        some ({ c with onlineState := onlineState, info := some info' }, events) ∧
      info'.Follow { c with onlineState := onlineState } shown
        (fun id => heard id ++ events.to id) ∧
      info'.viewSnapshot = info.viewSnapshot ∧ ∀ id, c.nextId ≤ id → events.to id = [] := by
  obtain ⟨listeners', events, hnotify, hkeys, hfollow, hother⟩ := notify_spec
    (f := fun l => l.onOnlineStateChanged onlineState)
    (fun l heard => l.Attached c.onlineState info.viewSnapshot.isSome shown heard)
    (fun l heard => l.Attached onlineState info.viewSnapshot.isSome shown heard)
    (fun l heard hl => hl.onOnlineStateChanged onlineState) h.nodup h.attached
  have hissued : ∀ id ∈ info.listeners.map Prod.fst, id < c.nextId := by
    intro id hid
    obtain ⟨x, hx, rfl⟩ := List.mem_map.mp hid
    exact h.issued x hx
  refine ⟨⟨listeners', info.viewSnapshot⟩, events, ?_, ⟨?_, fun x hx => ?_, hfollow⟩, rfl, ?_⟩
  · simp [onlineStateChanged, hinfo, hnotify]
  · rw [hkeys]
    exact h.nodup
  · exact hissued x.1 (hkeys ▸ List.mem_map_of_mem hx)
  · exact fun id hid => hother id fun hmem => absurd (hissued id hmem) (not_lt.mpr hid)

structure Sound (c : QueryClient q) (heard : ListenerId → List (ViewSnapshot q)) : Prop where
  idle : c.view = none → c.info = none
  fresh : ∀ id, c.nextId ≤ id → heard id = []
  view : ∀ v, c.view = some v → v.Sound
  listens : ∀ v, c.view = some v → ∃ info, c.info = some info ∧ info.Follow c v.shown heard ∧
    ∃ old snapshot, info.viewSnapshot = some snapshot ∧ Reported old snapshot v.shown

theorem sound_new : (new : QueryClient q).Sound fun _ => [] where
  idle _ := rfl
  fresh _ _ := rfl
  view _ hv := by cases hv
  listens _ hv := by cases hv

theorem Sound.idle_iff (h : c.Sound heard) : c.info = none ↔ c.view = none := by
  refine ⟨fun hinfo => ?_, h.idle⟩
  cases hv : c.view with
  | none => rfl
  | some v =>
    obtain ⟨info, hsome, -⟩ := h.listens v hv
    rw [hinfo] at hsome
    cases hsome

theorem Sound.emitted (h : c.Sound heard) {v v' : View q} {out : ViewChange q}
    (hv : c.view = some v) (hv' : v'.Sound) (hout : match out.snapshot with
      | none => v'.shown = v.shown
      | some snapshot => Reported v.shown snapshot v'.shown) :
    ∃ c' events, onViewSnapshots { c with view := some v' } out.snapshot = some (c', events) ∧
      c'.view = some v' ∧ c'.Sound fun id => heard id ++ events.to id := by
  obtain ⟨info, hinfo, hfollow, old, last, hlast, hreported⟩ := h.listens v hv
  obtain ⟨info', events, hevents, hfollow', hlast', hother⟩ :=
    onViewSnapshots_follow (c := { c with view := some v' }) hinfo
      ⟨hfollow.nodup, hfollow.issued, hfollow.attached⟩ out.snapshot hout
  refine ⟨_, events, hevents, rfl, fun hnone => ?_, fun id hid => ?_, ?_, ?_⟩
  · cases hnone
  · rw [h.fresh id hid, hother id hid]
    rfl
  · intro v₁ hv₁
    obtain rfl := Option.some.inj hv₁
    exact hv'
  · intro v₁ hv₁
    obtain rfl := Option.some.inj hv₁
    refine ⟨info', rfl, ⟨hfollow'.nodup, hfollow'.issued, hfollow'.attached⟩, ?_⟩
    rw [hlast']
    cases hsnapshot : out.snapshot with
    | none =>
      rw [hsnapshot] at hout
      rw [Option.none_or]
      exact ⟨old, last, hlast, hout ▸ hreported⟩
    | some snapshot =>
      rw [hsnapshot] at hout
      exact ⟨v.shown, snapshot, Option.some_or, hout⟩

theorem Sound.removed (h : c.Sound heard) (id : ListenerId) :
    ∃ c', c.removeQueryListener id = some c' ∧ (c'.view = c.view ∨ c'.view = none) ∧
      c'.Sound heard := by
  unfold removeQueryListener
  cases hinfo : c.info with
  | none => exact ⟨c, rfl, .inl rfl, h⟩
  | some info =>
    obtain ⟨v, hv⟩ : ∃ v, c.view = some v := by
      rw [← Option.ne_none_iff_exists', ne_eq, ← h.idle_iff, hinfo]
      simp
    obtain ⟨info', hinfo', hfollow, hlast⟩ := h.listens v hv
    obtain rfl : info = info' := Option.some.inj (hinfo.symm.trans hinfo')
    have hsub : (info.listeners.eraseP fun x => x.1 = id).Sublist info.listeners :=
      List.eraseP_sublist
    simp only
    split_ifs with hempty hnone
    · rw [hv] at hnone
      cases hnone
    · refine ⟨_, rfl, .inr rfl, fun _ => rfl, h.fresh, fun _ hv => ?_, fun _ hv => ?_⟩
      · cases hv
      · cases hv
    · refine ⟨_, rfl, .inl rfl, fun hnone => ?_, h.fresh, h.view, fun v' hv' => ?_⟩
      · rw [hv] at hnone
        cases hnone
      · obtain rfl := Option.some.inj (hv.symm.trans hv')
        exact ⟨_, rfl, ⟨hfollow.nodup.sublist (hsub.map Prod.fst),
          fun x hx => hfollow.issued x (hsub.subset hx),
          fun x hx => hfollow.attached x (hsub.subset hx)⟩, hlast⟩

theorem Sound.rejected (h : c.Sound heard) : c.handleRejectedListen.Sound heard where
  idle _ := rfl
  fresh := h.fresh
  view _ hv := by cases hv
  listens _ hv := by cases hv

theorem Sound.connected (h : c.Sound heard) (onlineState : OnlineState) :
    ∃ c' events, c.onlineStateChanged onlineState = some (c', events) ∧ c'.view = c.view ∧
      c'.Sound fun id => heard id ++ events.to id := by
  cases hinfo : c.info with
  | none =>
    have hv := h.idle_iff.mp hinfo
    refine ⟨{ c with onlineState := onlineState }, [], ?_, rfl, fun _ => hinfo,
      fun id hid => ?_, fun v hv' => ?_, fun v hv' => ?_⟩
    · simp [onlineStateChanged, hinfo]
    · rw [h.fresh id hid]
      rfl
    · exact absurd (hv.symm.trans hv') (by simp)
    · exact absurd (hv.symm.trans hv') (by simp)
  | some info =>
    have hfollow : ∀ v, c.view = some v → info.Follow c v.shown heard ∧
        ∃ old snapshot, info.viewSnapshot = some snapshot ∧ Reported old snapshot v.shown := by
      intro v hv
      obtain ⟨info', hinfo', hfollow⟩ := h.listens v hv
      obtain rfl : info = info' := Option.some.inj (hinfo.symm.trans hinfo')
      exact hfollow
    obtain ⟨v, hv⟩ : ∃ v, c.view = some v := by
      rw [← Option.ne_none_iff_exists', ne_eq, ← h.idle_iff, hinfo]
      simp
    obtain ⟨info', events, hevents, hfollow', hlast, hother⟩ :=
      onlineStateChanged_follow hinfo (hfollow v hv).1 onlineState
    refine ⟨_, events, hevents, rfl, fun hnone => ?_, fun id hid => ?_, h.view,
      fun v' hv' => ?_⟩
    · exact absurd (hv.symm.trans hnone) (by simp)
    · rw [h.fresh id hid, hother id hid]
      rfl
    · obtain rfl := Option.some.inj (hv.symm.trans hv')
      refine ⟨info', rfl, ⟨hfollow'.nodup, hfollow'.issued, hfollow'.attached⟩, ?_⟩
      rw [hlast]
      exact (hfollow v hv).2

section Changes
variable [DecidableEq V]

theorem Sound.changed (h : c.Sound heard) {m results : MaybeDocumentMap V} (hm : Keyed m)
    (hresults : Keyed results) {target : Option TargetChange} {v v' : View q} {out : ViewChange q}
    (hv : c.view = some v) (hemit : v.emitNewSnapshot m results target = some (v', out)) :
    ∃ c' events, c.emitNewSnapshots m results target = some (c', events) ∧ c'.view = some v' ∧
      c'.Sound fun id => heard id ++ events.to id := by
  obtain ⟨hs', hreported⟩ := (ViewStep.changed hm hresults hemit).reported (h.view v hv)
  obtain ⟨c', events, hevents, hview, hsound⟩ := h.emitted hv hs' hreported
  refine ⟨c', events, ?_, hview, hsound⟩
  unfold emitNewSnapshots
  simp only [hv, hemit, Option.bind_some]
  exact hevents

theorem emitNewSnapshots_of_idle (hv : c.view = none) (m results : MaybeDocumentMap V)
    (target : Option TargetChange) : c.emitNewSnapshots m results target = some (c, []) := by
  unfold emitNewSnapshots
  simp only [hv]

theorem exists_of_emitNewSnapshots {m results : MaybeDocumentMap V} {target : Option TargetChange}
    {v : View q} (hv : c.view = some v) (h : (c.emitNewSnapshots m results target).isSome) :
    ∃ v' out, v.emitNewSnapshot m results target = some (v', out) := by
  unfold emitNewSnapshots at h
  simp only [hv] at h
  obtain ⟨⟨v', out⟩, hemit⟩ := Option.isSome_iff_exists.mp (Option.isSome_of_isSome_bind h)
  exact ⟨v', out, hemit⟩

/-- The first listener, and with it the view. -/
theorem Sound.added_first (h : c.Sound heard) (hinfo : c.info = none) (options : ListenOptions)
    {results : MaybeDocumentMap V} (hresults : Keyed results) (remoteKeys : DocumentKeySet)
    (mirror : Option SyncState) :
    ∃ c' events v out, c.addQueryListener options results remoteKeys mirror = some (c', events) ∧
      c'.view = some v ∧ initializeView q results remoteKeys mirror = some (v, out) ∧
      c'.Sound fun id => heard id ++ events.to id := by
  obtain ⟨v, out, hview, hstarted⟩ := exists_started (q := q) hresults remoteKeys mirror
  obtain ⟨hs, snapshot, hsnapshot, hreported⟩ := hstarted.reported
  let listener : QueryListener q :=
    { QueryListener.create options with onlineState := c.onlineState }
  let added : QueryClient q := { c with
    view := some v
    info := some ⟨[(c.nextId, listener)], none⟩
    nextId := c.nextId + 1 }
  have hfollow : QueryListenersInfo.Follow ⟨[(c.nextId, listener)], none⟩ added Shown.nothing
      heard := by
    refine ⟨List.nodup_singleton _, fun x hx => ?_, fun x hx => ?_⟩
    · obtain rfl := List.mem_singleton.mp hx
      exact Nat.lt_succ_self _
    · obtain rfl := List.mem_singleton.mp hx
      rw [h.fresh c.nextId le_rfl]
      exact QueryListener.attached_create options c.onlineState Shown.nothing
  obtain ⟨info', events, hevents, hfollow', hlast, hother⟩ :=
    onViewSnapshots_follow (c := added) rfl hfollow (some snapshot) hreported
  have hcreate : (QueryListener.create options : QueryListener q).onOnlineStateChanged
      c.onlineState = some (listener, none) := rfl
  refine ⟨{ added with info := some info' }, events, v, out, ?_, rfl, hview,
    fun hnone => ?_, fun id hid => ?_, fun v' hv' => ?_, fun v' hv' => ?_⟩
  · unfold addQueryListener
    rw [hcreate]
    simp [hinfo, listen, h.idle_iff.mp hinfo, hview, hsnapshot, hevents, added]
  · cases hnone
  · rw [h.fresh id (Nat.le_of_succ_le hid), hother id hid]
    rfl
  · obtain rfl := Option.some.inj hv'
    exact hs
  · obtain rfl := Option.some.inj hv'
    exact ⟨info', rfl, ⟨hfollow'.nodup, hfollow'.issued, hfollow'.attached⟩, Shown.nothing,
      snapshot, hlast, hreported⟩

/-- A further listener is handed the snapshot that the others got last. -/
theorem Sound.added_next (h : c.Sound heard) (hinfo : c.info = some info)
    (options : ListenOptions) (results : MaybeDocumentMap V) (remoteKeys : DocumentKeySet)
    (mirror : Option SyncState) :
    ∃ c' events, c.addQueryListener options results remoteKeys mirror = some (c', events) ∧
      c'.view = c.view ∧ c'.Sound fun id => heard id ++ events.to id := by
  obtain ⟨v, hv⟩ : ∃ v, c.view = some v := by
    rw [← Option.ne_none_iff_exists', ne_eq, ← h.idle_iff, hinfo]
    simp
  obtain ⟨info', hinfo', hfollow, old, snapshot, hlast, hreported⟩ := h.listens v hv
  obtain rfl : info = info' := Option.some.inj (hinfo.symm.trans hinfo')
  obtain ⟨l, event, hl, hl'⟩ :=
    (QueryListener.attached_create options c.onlineState old).onViewSnapshot hreported
  have hattached : l.Attached c.onlineState info.viewSnapshot.isSome v.shown event.toList := by
    rw [hlast]
    exact hl'
  have hfollow' := hfollow.added (h.fresh c.nextId le_rfl) hattached
  have hcreate : (QueryListener.create options : QueryListener q).onOnlineStateChanged
      c.onlineState = some ({ QueryListener.create options with onlineState := c.onlineState },
        none) := rfl
  refine ⟨{ c with
      info := some { info with listeners := info.listeners ++ [(c.nextId, l)] }
      nextId := c.nextId + 1 }, event.toList.map (c.nextId, ·), ?_, rfl,
    fun hnone => ?_, fun id hid => ?_, h.view, fun v' hv' => ⟨_, rfl, ?_, old, snapshot, hlast, ?_⟩⟩
  · unfold addQueryListener
    rw [hcreate]
    simp [hinfo, hlast, hl]
  · exact absurd (hv.symm.trans hnone) (by simp)
  · have hid' : c.nextId + 1 ≤ id := hid
    rw [RaisedEvents.to_other _ (Nat.ne_of_lt hid'), List.append_nil,
      h.fresh id (Nat.le_of_succ_le hid')]
  · obtain rfl := Option.some.inj (hv.symm.trans hv')
    exact ⟨hfollow'.nodup, hfollow'.issued, hfollow'.attached⟩
  · obtain rfl := Option.some.inj (hv.symm.trans hv')
    exact hreported

theorem Sound.added (h : c.Sound heard) (options : ListenOptions) {results : MaybeDocumentMap V}
    (hresults : Keyed results) (remoteKeys : DocumentKeySet) (mirror : Option SyncState) :
    ∃ c' events, c.addQueryListener options results remoteKeys mirror = some (c', events) ∧
      (∀ v, c'.view = some v → c.view = some v ∨ c.view = none ∧
        ∃ out, initializeView q results remoteKeys mirror = some (v, out)) ∧
      c'.Sound fun id => heard id ++ events.to id := by
  cases hinfo : c.info with
  | none =>
    obtain ⟨c', events, v, out, hadd, hv, hview, hsound⟩ :=
      h.added_first hinfo options hresults remoteKeys mirror
    refine ⟨c', events, hadd, fun v' hv' => .inr ⟨h.idle_iff.mp hinfo, out, ?_⟩, hsound⟩
    rwa [← Option.some.inj (hv.symm.trans hv')]
  | some info =>
    obtain ⟨c', events, hadd, hview, hsound⟩ :=
      h.added_next hinfo options results remoteKeys mirror
    exact ⟨c', events, hadd, fun v' hv' => .inl (hview.symm.trans hv'), hsound⟩

theorem Sound.online (h : c.Sound heard) (onlineState : OnlineState) :
    ∃ c' events, c.handleOnlineStateChange onlineState = some (c', events) ∧
      (∀ v', c'.view = some v' → ∃ v out, c.view = some v ∧
        v.applyOnlineStateChange onlineState = some (v', out)) ∧
      c'.Sound fun id => heard id ++ events.to id := by
  have hview : ∃ (c' : QueryClient q) (events : RaisedEvents q), (match c.view with
      | none => some (c, [])
      | some view => (view.applyOnlineStateChange onlineState).bind fun (view, viewChange) =>
        if viewChange.limboChanges ≠ [] then none
        else onViewSnapshots { c with view := some view } viewChange.snapshot) = some (c', events) ∧
      (∀ v', c'.view = some v' → ∃ v out, c.view = some v ∧
        v.applyOnlineStateChange onlineState = some (v', out)) ∧
      c'.Sound fun id => heard id ++ events.to id := by
    cases hv : c.view with
    | none =>
      refine ⟨c, [], rfl, fun v' hv' => absurd (hv.symm.trans hv') (by simp), ?_⟩
      have hsame : (fun id => heard id ++ RaisedEvents.to ([] : RaisedEvents q) id) = heard := by
        funext id
        exact List.append_nil _
      rw [hsame]
      exact h
    | some v =>
      obtain ⟨v', snapshot, happly⟩ := exists_applyOnlineStateChange v onlineState
      obtain ⟨hs', hreported⟩ := (ViewStep.online happly).reported (h.view v hv)
      obtain ⟨c', events, hevents, hview', hsound⟩ := h.emitted hv hs' hreported
      refine ⟨c', events, ?_, fun v₁ hv₁ => ?_, hsound⟩
      · simp only [happly, Option.bind_some]
        exact hevents
      · obtain rfl := Option.some.inj (hview'.symm.trans hv₁)
        exact ⟨v, _, rfl, happly⟩
  obtain ⟨c₁, events, hfirst, hviewed, h₁⟩ := hview
  obtain ⟨c', more, hsecond, hsame, h'⟩ := h₁.connected onlineState
  refine ⟨c', events ++ more, ?_, fun v' hv' => hviewed v' (hsame ▸ hv'), ?_⟩
  · unfold handleOnlineStateChange
    rw [hfirst, Option.bind_some]
    simp only [hsecond, Option.map_some]
  · have hboth : (fun id => heard id ++ RaisedEvents.to (events ++ more) id) =
        fun id => heard id ++ events.to id ++ more.to id := by
      funext id
      rw [RaisedEvents.to_append, List.append_assoc]
    rw [hboth]
    exact h'

end Changes
end QueryClient
end Firestore
