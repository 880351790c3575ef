import Zeenoc.Firestore.QuerySnapshot

/-! A listener to a query (`query_listener.cc`): when it raises the snapshots of the view as events.
A failed `HARD_ASSERT` is `none`. -/

namespace Firestore
variable {V : Type} {q : Query V}

structure ListenOptions where
  includeQueryMetadataChanges : Bool
  includeDocumentMetadataChanges : Bool
  waitForSyncWhenOnline : Bool

def ListenOptions.defaultOptions : ListenOptions := ⟨false, false, false⟩

structure QueryListener (q : Query V) where
  options : ListenOptions
  raisedInitialEvent : Bool
  onlineState : OnlineState
  snapshot : Option (ViewSnapshot q)

namespace QueryListener

def create (options : ListenOptions) : QueryListener q := ⟨options, false, .unknown, none⟩

variable (l : QueryListener q)

def shouldRaiseInitialEvent (snapshot : ViewSnapshot q) (onlineState : OnlineState) : Option Bool :=
  if l.raisedInitialEvent then none
  else if !snapshot.fromCache then some true
  else
    let maybeOnline : Bool := onlineState ≠ .offline
    if l.options.waitForSyncWhenOnline && maybeOnline then
      if snapshot.fromCache then some false else none
    else some (snapshot.documents.size ≠ 0 || onlineState = .offline)

def shouldRaiseEvent (snapshot : ViewSnapshot q) : Bool :=
  if !snapshot.documentChanges.isEmpty then true
  else
    let hasPendingWritesChanged :=
      l.snapshot.any fun last => last.hasPendingWrites != snapshot.hasPendingWrites
    if snapshot.syncStateChanged || hasPendingWritesChanged then
      l.options.includeQueryMetadataChanges
    else false

def raiseInitialEvent (snapshot : ViewSnapshot q) : Option (QueryListener q × ViewSnapshot q) :=
  if l.raisedInitialEvent then none
  else some ({ l with raisedInitialEvent := true },
    .fromInitialDocuments snapshot.documents snapshot.mutatedKeys snapshot.fromCache
      snapshot.excludesMetadataChanges)

def tryInitialEvent (snapshot : ViewSnapshot q) (onlineState : OnlineState) :
    Option (QueryListener q × Option (ViewSnapshot q)) :=
  (l.shouldRaiseInitialEvent snapshot onlineState).bind fun raise =>
  if raise then (l.raiseInitialEvent snapshot).map fun (l, event) => (l, some event)
  else some (l, none)

def onViewSnapshot (snapshot : ViewSnapshot q) :
    Option (QueryListener q × Option (ViewSnapshot q)) :=
  if snapshot.documentChanges.isEmpty && !snapshot.syncStateChanged then none
  else
    let snapshot := if !l.options.includeDocumentMetadataChanges then
      snapshot.withoutMetadataChanges
      else snapshot
    (if !l.raisedInitialEvent then l.tryInitialEvent snapshot l.onlineState
      else if l.shouldRaiseEvent snapshot then some (l, some snapshot)
      else some (l, none)).map fun (l, event) => ({ l with snapshot := some snapshot }, event)

def onOnlineStateChanged (onlineState : OnlineState) :
    Option (QueryListener q × Option (ViewSnapshot q)) :=
  let l := { l with onlineState := onlineState }
  match l.snapshot with
  | none => some (l, none)
  | some snapshot =>
    if !l.raisedInitialEvent then l.tryInitialEvent snapshot onlineState else some (l, none)

end QueryListener

namespace QueryListener

/-- What a listener has raised so far, for what the view shows: nothing at first, while an initial
event should not be raised; then events that lead to the documents. -/
structure Follows (l : QueryListener q) (shown : Shown q)
    (heard : List (ViewSnapshot q)) : Prop where
  snapshot : ∀ s, l.snapshot = some s →
    s.documents = shown.documents ∧ s.fromCache = decide (shown.syncState = .fromCache) ∧
      s.excludesMetadataChanges = !l.options.includeDocumentMetadataChanges
  waits : l.raisedInitialEvent = false → heard = [] ∧
    ∀ s, l.snapshot = some s → l.shouldRaiseInitialEvent s l.onlineState = some false
  told : l.raisedInitialEvent → ∀ includeMetadataChanges : Bool,
    (includeMetadataChanges → l.options.includeDocumentMetadataChanges) →
      heard.foldlM (ViewSnapshot.update Document.data includeMetadataChanges) [] =
        some (contents shown.documents)

variable {l : QueryListener q} {shown shown' : Shown q} {heard : List (ViewSnapshot q)}
  {snapshot : ViewSnapshot q}

theorem follows_create (options : ListenOptions) (onlineState : OnlineState) (shown : Shown q) :
    Follows { create options with onlineState := onlineState } shown [] where
  snapshot _ h := by cases h
  waits _ := ⟨rfl, fun _ h => by cases h⟩
  told h := by cases h

theorem shouldRaiseInitialEvent_isSome (h : l.raisedInitialEvent = false)
    (snapshot : ViewSnapshot q) (onlineState : OnlineState) :
    ∃ raise, l.shouldRaiseInitialEvent snapshot onlineState = some raise := by
  unfold shouldRaiseInitialEvent
  rw [if_neg (by simp [h])]
  cases hcache : snapshot.fromCache with
  | false => exact ⟨true, rfl⟩
  | true =>
    simp only [Bool.not_true, Bool.false_eq_true, if_false, if_true]
    split_ifs
    · exact ⟨false, rfl⟩
    · exact ⟨_, rfl⟩

theorem tryInitialEvent_follows (h : l.raisedInitialEvent = false)
    (hdocs : snapshot.documents = shown.documents)
    (hcache : snapshot.fromCache = decide (shown.syncState = .fromCache))
    (hexcludes : snapshot.excludesMetadataChanges = !l.options.includeDocumentMetadataChanges) :
    ∃ l' event, l.tryInitialEvent snapshot l.onlineState = some (l', event) ∧
      l'.onlineState = l.onlineState ∧ l'.snapshot = l.snapshot ∧
      Follows { l' with snapshot := some snapshot } shown event.toList := by
  obtain ⟨raise, hraise⟩ := shouldRaiseInitialEvent_isSome h snapshot l.onlineState
  unfold tryInitialEvent
  rw [hraise, Option.bind_some]
  cases raise with
  | false =>
    refine ⟨l, none, rfl, rfl, rfl, ?_, ?_, ?_⟩
    · intro s hs
      obtain rfl := Option.some.inj hs
      exact ⟨hdocs, hcache, hexcludes⟩
    · intro _
      refine ⟨rfl, fun s hs => ?_⟩
      obtain rfl := Option.some.inj hs
      exact hraise
    · intro hraised
      rw [h] at hraised
      cases hraised
  | true =>
    rw [if_pos rfl, raiseInitialEvent, if_neg (by simp [h])]
    refine ⟨_, _, rfl, rfl, rfl, ?_, ?_, ?_⟩
    · intro s hs
      obtain rfl := Option.some.inj hs
      exact ⟨hdocs, hcache, hexcludes⟩
    · intro hraised
      cases hraised
    · intro _ includeMetadataChanges hinclude
      have htells := tells_fromInitialDocuments snapshot.documents snapshot.mutatedKeys
        snapshot.fromCache snapshot.excludesMetadataChanges
      have hasked : includeMetadataChanges → snapshot.excludesMetadataChanges = false := by
        intro hi
        rw [hexcludes, hinclude hi]
        rfl
      rw [Option.toList_some, List.foldlM_cons, ← hdocs]
      exact Option.bind_eq_some_iff.mpr ⟨_, htells.update hasked, rfl⟩

theorem onViewSnapshot_follows (h : l.Follows shown heard) (hs : Reported shown snapshot shown') :
    ∃ l' event, l.onViewSnapshot snapshot = some (l', event) ∧ l'.onlineState = l.onlineState ∧
      l'.snapshot.isSome ∧ l'.Follows shown' (heard ++ event.toList) := by
  obtain ⟨htells, htells'⟩ := hs.tells_snapshot
  have hsome : ¬(snapshot.documentChanges.isEmpty && !snapshot.syncStateChanged) := by
    rw [hs.syncStateChanged]
    rcases hs.tells with hne | hne
    · simp [hne]
    · simp [hne]
  unfold onViewSnapshot
  rw [if_neg hsome]
  -- the snapshot as the listener takes it
  obtain ⟨s, hsnapshot, htold, hold, hdocs, hcache, hexcludes⟩ : ∃ s : ViewSnapshot q,
      (if !l.options.includeDocumentMetadataChanges then snapshot.withoutMetadataChanges
        else snapshot) = s ∧ s.Tells ∧ s.oldDocuments = shown.documents ∧
      s.documents = shown'.documents ∧ s.fromCache = decide (shown'.syncState = .fromCache) ∧
      s.excludesMetadataChanges = !l.options.includeDocumentMetadataChanges := by
    cases hi : l.options.includeDocumentMetadataChanges with
    | true =>
      exact ⟨snapshot, rfl, htells, hs.oldDocuments, hs.documents, hs.fromCache, hs.excludes⟩
    | false =>
      exact ⟨snapshot.withoutMetadataChanges, rfl, htells', hs.oldDocuments, hs.documents,
        hs.fromCache, rfl⟩
  simp only [hsnapshot]
  cases hraised : l.raisedInitialEvent with
  | false =>
    obtain ⟨l', event, htry, honline, -, hfollows⟩ :=
      tryInitialEvent_follows hraised hdocs hcache hexcludes
    refine ⟨{ l' with snapshot := some s }, event, by simp [htry], honline, rfl, ?_⟩
    rw [(h.waits hraised).1]
    exact hfollows
  | true =>
    have hupdate : ∀ includeMetadataChanges : Bool,
        (includeMetadataChanges → l.options.includeDocumentMetadataChanges) →
          s.update Document.data includeMetadataChanges (contents shown.documents) =
            some (contents shown'.documents) := by
      intro includeMetadataChanges hinclude
      rw [← hold, ← hdocs]
      apply htold.update
      intro hi
      rw [hexcludes, hinclude hi]
      rfl
    have hlast : ∀ s', some s = some s' → s'.documents = shown'.documents ∧
        s'.fromCache = decide (shown'.syncState = .fromCache) ∧
        s'.excludesMetadataChanges = !l.options.includeDocumentMetadataChanges := by
      intro s' hs'
      obtain rfl := Option.some.inj hs'
      exact ⟨hdocs, hcache, hexcludes⟩
    cases hraise : l.shouldRaiseEvent s with
    | true =>
      refine ⟨{ l with snapshot := some s }, some s, by simp, rfl, rfl, hlast, ?_, ?_⟩
      · intro hfalse
        simp [hraised] at hfalse
      · intro _ includeMetadataChanges hinclude
        rw [Option.toList_some, List.foldlM_append, h.told hraised _ hinclude,
          Option.bind_eq_bind, Option.bind_some, List.foldlM_cons, hupdate _ hinclude]
        rfl
    | false =>
      refine ⟨{ l with snapshot := some s }, none, by simp, rfl, rfl, hlast, ?_, ?_⟩
      · intro hfalse
        simp [hraised] at hfalse
      · intro _ includeMetadataChanges hinclude
        rw [Option.toList_none, List.append_nil, h.told hraised _ hinclude]
        -- nothing to tell of the documents
        have hnil : s.documentChanges = [] := by
          unfold shouldRaiseEvent at hraise
          split_ifs at hraise with hempty
          simpa using hempty
        rw [← hold, ← hdocs, htold.contents_eq hnil]

theorem onOnlineStateChanged_follows (h : l.Follows shown heard) (onlineState : OnlineState) :
    ∃ l' event, l.onOnlineStateChanged onlineState = some (l', event) ∧
      l'.onlineState = onlineState ∧ l'.snapshot = l.snapshot ∧
      l'.Follows shown (heard ++ event.toList) := by
  have hsame : ∀ {l' : QueryListener q}, l'.options = l.options →
      l'.raisedInitialEvent = l.raisedInitialEvent → l'.snapshot = l.snapshot →
      (l.raisedInitialEvent = false → l.snapshot = none) → l'.Follows shown heard := by
    intro l' hoptions hraised hsnapshot hnone
    refine ⟨?_, fun hfalse => ?_, ?_⟩
    · rw [hoptions, hsnapshot]
      exact h.snapshot
    · rw [hraised] at hfalse
      rw [hsnapshot, hnone hfalse]
      exact ⟨(h.waits hfalse).1, fun s hs => by cases hs⟩
    · rw [hoptions, hraised]
      exact h.told
  unfold onOnlineStateChanged
  cases hsnapshot : l.snapshot with
  | none =>
    refine ⟨{ l with onlineState := onlineState }, none, by simp [hsnapshot], rfl, hsnapshot, ?_⟩
    rw [Option.toList_none, List.append_nil]
    exact hsame rfl rfl rfl fun _ => hsnapshot
  | some s =>
    cases hraised : l.raisedInitialEvent with
    | true =>
      refine ⟨{ l with onlineState := onlineState }, none, by simp [hsnapshot, hraised], rfl,
        hsnapshot, ?_⟩
      rw [Option.toList_none, List.append_nil]
      exact hsame rfl rfl rfl fun hfalse => by simp [hraised] at hfalse
    | false =>
      obtain ⟨hdocs, hcache, hexcludes⟩ := h.snapshot s hsnapshot
      obtain ⟨l', event, htry, honline, hlast, hfollows⟩ := tryInitialEvent_follows
        (l := { l with onlineState := onlineState }) hraised hdocs hcache hexcludes
      have hl' : { l' with snapshot := some s } = l' := by
        rw [← hsnapshot, ← hlast]
      rw [hl'] at hfollows
      refine ⟨l', event, ?_, honline, hlast.trans hsnapshot, ?_⟩
      · simpa [hsnapshot, hraised] using htry
      · rw [(h.waits hraised).1]
        exact hfollows

/-- A listener in its place: it knows the state of the connection, and has a snapshot once there is
one to have. -/
structure Attached (l : QueryListener q) (onlineState : OnlineState) (received : Bool)
    (shown : Shown q) (heard : List (ViewSnapshot q)) : Prop where
  follows : l.Follows shown heard
  online : l.onlineState = onlineState
  received : received → l.snapshot.isSome

variable {onlineState : OnlineState} {received : Bool}

theorem attached_create (options : ListenOptions) (onlineState : OnlineState) (shown : Shown q) :
    Attached { create options with onlineState := onlineState } onlineState false shown [] where
  follows := follows_create options onlineState shown
  online := rfl
  received h := by cases h

theorem Attached.onViewSnapshot (h : l.Attached onlineState received shown heard)
    (hs : Reported shown snapshot shown') :
    ∃ l' event, l.onViewSnapshot snapshot = some (l', event) ∧
      l'.Attached onlineState true shown' (heard ++ event.toList) := by
  obtain ⟨l', event, hevent, honline, hsome, hfollows⟩ := onViewSnapshot_follows h.follows hs
  exact ⟨l', event, hevent, hfollows, honline.trans h.online, fun _ => hsome⟩

theorem Attached.onOnlineStateChanged (h : l.Attached onlineState received shown heard)
    (onlineState' : OnlineState) :
    ∃ l' event, l.onOnlineStateChanged onlineState' = some (l', event) ∧
      l'.Attached onlineState' received shown (heard ++ event.toList) := by
  obtain ⟨l', event, hevent, honline, hsnapshot, hfollows⟩ :=
    onOnlineStateChanged_follows h.follows onlineState'
  refine ⟨l', event, hevent, hfollows, honline, ?_⟩
  rw [hsnapshot]
  exact h.received

/-- A listener that has raised nothing waits for the backend. -/
theorem Attached.waits (h : l.Attached onlineState true shown heard)
    (hraised : l.raisedInitialEvent = false) : heard = [] ∧ shown.syncState = .fromCache ∧
      onlineState ≠ .offline ∧ (shown.documents.size = 0 ∨ l.options.waitForSyncWhenOnline) := by
  obtain ⟨hheard, hwaits⟩ := h.follows.waits hraised
  obtain ⟨s, hs⟩ := Option.isSome_iff_exists.mp (h.received rfl)
  obtain ⟨hdocs, hcache, -⟩ := h.follows.snapshot s hs
  have hwait := hwaits s hs
  rw [h.online] at hwait
  unfold shouldRaiseInitialEvent at hwait
  rw [if_neg (by simp [hraised])] at hwait
  cases hfrom : s.fromCache with
  | false => simp [hfrom] at hwait
  | true =>
    rw [hfrom, eq_comm, decide_eq_true_iff] at hcache
    refine ⟨hheard, hcache, ?_, ?_⟩
    · rintro rfl
      simp [hfrom] at hwait
    · rw [← hdocs]
      by_contra hnot
      rw [not_or] at hnot
      simp [hfrom, hnot.1, hnot.2] at hwait

end QueryListener
end Firestore
