import Zeenoc.Firestore.Acknowledgements

/-! Every run of a local store: what its operations return adds up to what reading a document finds,
and their assertions hold. -/

namespace Firestore
variable {V User : Type} [ObjectValue V] [DecidableEq User]

/-- Writes, the answers of the backend and changes of the user, with the changed documents. -/
inductive LocalStep : LocalStore V User → MaybeDocumentMap V → LocalStore V User → Prop
  | wrote {s s' : LocalStore V User} {localWriteTime : Timestamp} {mutations : List (Mutation V)}
      {result : LocalWriteResult V}
      (h : s.writeLocally localWriteTime mutations = some (s', result)) :
      LocalStep s result.changes s'
  | acknowledged {s s' : LocalStore V User} {r : MutationBatchResult V}
      {changes : MaybeDocumentMap V} (hhead : s.mutationQueue.queue.head? = some r.batch)
      (hfits : r.Fits) (hcommit : 0 < r.commitVersion)
      (h : s.acknowledgeBatch r = some (s', changes)) : LocalStep s changes s'
  | rejected {s s' : LocalStore V User} {batchId : ℤ} {changes : MaybeDocumentMap V}
      (h : s.rejectBatch batchId = some (s', changes)) : LocalStep s changes s'
  | received {s s' : LocalStore V User} {event : RemoteEvent V} {changes : MaybeDocumentMap V}
      (hevent : event.Versioned) (h : s.applyRemoteEvent event = some (s', changes)) :
      LocalStep s changes s'
  | changedUser {s s' : LocalStore V User} {user : User} {changes : MaybeDocumentMap V}
      (h : s.handleUserChange user = some (s', changes)) : LocalStep s changes s'

/-- A batch that is written from one state to the other changes nothing when all of it is written
twice; a batch that writes to no document twice is one. -/
def LocalStore.Settles (s s' : LocalStore V User) : Prop :=
  ∀ localWriteTime mutations result,
    s.writeLocally localWriteTime mutations = some (s', result) →
      ∀ b, s'.mutationQueue.queue.getLast? = some b → ∀ k, b.Settles k (s.localView k)

def SettledStep (s : LocalStore V User) (changes : MaybeDocumentMap V) (s' : LocalStore V User) :
    Prop :=
  LocalStep s changes s' ∧ s.Settles s'

namespace LocalStore
variable {s s' : LocalStore V User}

theorem settles_of_nodup
    (h : ∀ b ∈ s'.mutationQueue.queue, (b.mutations.map Mutation.key).Nodup) : s.Settles s' :=
  fun _ _ _ _ b hb _ => MutationBatch.settles_of_nodup (h b (List.mem_of_getLast? hb))

theorem Sound.head_of_rejectBatch (h : s.Sound) {batchId : ℤ}
    (hreject : (s.rejectBatch batchId).isSome) :
    ∃ head rest, s.mutationQueue.queue = head :: rest ∧ head.batchId = batchId := by
  have hwf : s.mutationQueue.WellFormed := h.documents.queue
  unfold rejectBatch at hreject
  rw [hwf.lookup_eq, Option.join_some] at hreject
  obtain ⟨toReject, hfind⟩ := Option.isSome_iff_exists.mp (Option.isSome_of_isSome_bind hreject)
  rw [hfind, Option.bind_some] at hreject
  obtain ⟨queue, hremove⟩ := Option.isSome_iff_exists.mp (Option.isSome_of_isSome_bind hreject)
  have hmem := List.mem_of_find?_eq_some hfind
  have hid : toReject.batchId = batchId := by simpa using List.find?_some hfind
  exact ⟨toReject, queue.queue, hwf.queue_of_removed hmem hremove, hid⟩

omit [DecidableEq User] in
theorem last_of_applyRemoteEvent {event : RemoteEvent V}
    (h : (s.applyRemoteEvent event).isSome) :
    event.snapshotVersion = .none ∨ s.lastRemoteSnapshotVersion ≤ event.snapshotVersion := by
  obtain ⟨result, h⟩ := Option.isSome_iff_exists.mp h
  obtain ⟨x, -, h⟩ := Option.bind_eq_some_iff.mp h
  obtain ⟨s', h, -⟩ := Option.bind_eq_some_iff.mp h
  by_cases hnone : event.snapshotVersion = .none
  · exact .inl hnone
  · rw [if_pos hnone] at h
    by_cases hlast : s.lastRemoteSnapshotVersion ≤ event.snapshotVersion
    · exact .inr hlast
    · rw [if_neg hlast] at h
      cases h

end LocalStore

section Queries
variable {s : LocalStore V User} {query : Query V}

omit [DecidableEq User] in
theorem LocalStore.Sound.executeQuery_collection (h : s.Sound)
    (hplain : ∀ b ∈ s.mutationQueue.queue, b.plain) (hgroup : query.collectionGroup = none)
    (hpath : query.path.length % 2 = 1) :
    ∃ results, s.executeQuery query = some results ∧ ∀ k : DocumentKey,
      results[k]?.map Document.unversioned =
        (query.select (s.localView k)).map Document.unversioned := by
  obtain ⟨results, hresults, hget⟩ := h.documents.collectionQuery_eq hplain hgroup hpath .none
  have hnot : ¬query.isDocumentQuery := by
    simp [Query.isDocumentQuery, hpath]
  unfold LocalStore.executeQuery LocalDocumentsView.getDocumentsMatchingQuery
  rw [if_neg hnot]
  refine ⟨results, hresults, fun k => ?_⟩
  by_cases hrecent : s.localDocuments.Recent .none k
  · exact (hget k).1 hrecent
  · -- nothing is known of the document
    obtain ⟨hqueue, hcache⟩ := not_or.mp hrecent
    have hnone : s.remoteDocumentCache.docs[k]? = none := by
      cases hk : s.remoteDocumentCache.docs[k]? with
      | none => rfl
      | some x => exact absurd ⟨x, hk, h.read k x hk⟩ hcache
    have hview : s.localView k = none := by
      unfold LocalStore.localView
      rw [h.documents.localView_of_not_affected hqueue]
      exact Option.map_eq_none_iff.mpr hnone
    rw [(hget k).2 hrecent, hview]
    rfl

omit [DecidableEq User] in
theorem LocalStore.Sound.executeQuery_document (h : s.Sound) {path : ResourcePath}
    (hpath : path.length % 2 = 0) :
    ∃ results, s.executeQuery (Query.collection path) = some results ∧ ∀ k : DocumentKey,
      results[k]? = (Query.collection path).select (s.localView k) := by
  have hdocument : (Query.collection path : Query V).isDocumentQuery := by
    simp [Query.isDocumentQuery, Query.collection, hpath]
  unfold LocalStore.executeQuery LocalDocumentsView.getDocumentsMatchingQuery
  rw [if_pos hdocument, LocalDocumentsView.getDocumentsMatchingDocumentQuery]
  simp only [Query.collection, dif_pos hpath, h.documents.getDocument_eq, Option.map_some]
  refine ⟨_, rfl, fun k => ?_⟩
  have hselect : (Query.collection path).select (s.localView k) =
      if k = ⟨path, hpath⟩ then found (s.localView k) else none := by
    change (found (s.localView k)).filter _ = _
    cases hd : found (s.localView k) with
    | none => simp
    | some d =>
      rw [← (s.hasKey_localView k).found hd]
      by_cases hk : d.key = ⟨path, hpath⟩
      · rw [if_pos hk, Option.filter_some_pos ((matches_document hpath d).mpr hk)]
      · rw [if_neg hk, Option.filter_some_neg
          (Bool.eq_false_iff.mpr fun hm => hk ((matches_document hpath d).mp hm))]
  refine Eq.trans ?_ hselect.symm
  have hview : s.localView ⟨path, hpath⟩ = s.localDocuments.localView ⟨path, hpath⟩ := rfl
  cases hd : found (s.localDocuments.localView ⟨path, hpath⟩) with
  | none =>
    simp only [Std.ExtTreeMap.getElem?_empty]
    by_cases hk : k = ⟨path, hpath⟩
    · rw [if_pos hk, hk, hview, hd]
    · rw [if_neg hk]
  | some d =>
    have hkey := (s.hasKey_localView _).found (hview ▸ hd)
    simp only [Std.ExtTreeMap.getElem?_insert, Std.ExtTreeMap.getElem?_empty, hkey,
      Std.LawfulEqCmp.compare_eq_iff_eq]
    by_cases hk : k = ⟨path, hpath⟩
    · rw [if_pos hk.symm, if_pos hk, hk, hview, hd]
    · rw [if_neg (Ne.symm hk), if_neg hk]

omit [DecidableEq User] in
theorem LocalStore.Sound.executeQuery_eq (h : s.Sound)
    (hplain : ∀ b ∈ s.mutationQueue.queue, b.plain) (hgroup : query.collectionGroup = none)
    (hpath : query.path.length % 2 = 1 ∨ query = Query.collection query.path) :
    ∃ results, s.executeQuery query = some results ∧ ∀ k : DocumentKey,
      results[k]?.map Document.unversioned =
        (query.select (s.localView k)).map Document.unversioned := by
  by_cases hodd : query.path.length % 2 = 1
  · exact h.executeQuery_collection hplain hgroup hodd
  · rw [hpath.resolve_left hodd]
    have heven : query.path.length % 2 = 0 := by omega
    obtain ⟨results, hresults, hget⟩ := h.executeQuery_document heven
    exact ⟨results, hresults, fun k => by rw [hget]⟩

end Queries

section Steps
variable {s s' : LocalStore V User} {changes : MaybeDocumentMap V}

theorem LocalStep.brings (h : LocalStep s changes s') (hs : s.Sound) :
    s'.Sound ∧ (s.Settles s' → s.Brings s' changes) := by
  cases h with
  | @wrote _ localWriteTime mutations result h =>
    obtain ⟨s'', batch, changes, hwrite, hs', -, -, hqueue, -, -, hbrings⟩ :=
      hs.writeLocally_eq localWriteTime (LocalStore.ne_nil_of_writeLocally h)
    obtain ⟨rfl, rfl⟩ := Prod.mk.inj (Option.some.inj (h.symm.trans hwrite))
    exact ⟨hs', fun hsettles =>
      hbrings (hsettles _ _ _ h batch (by rw [hqueue, List.getLast?_concat]))⟩
  | @acknowledged _ r _ hhead hfits hcommit h =>
    obtain ⟨rest, hqueue⟩ := List.head?_eq_some_iff.mp hhead
    obtain ⟨s'', changes', hack, hs', hbrings, -⟩ := hs.acknowledgeBatch_eq hqueue hfits hcommit
    obtain ⟨rfl, rfl⟩ := Prod.mk.inj (Option.some.inj (h.symm.trans hack))
    exact ⟨hs', fun _ => hbrings⟩
  | @rejected _ batchId _ h =>
    obtain ⟨head, rest, hqueue, rfl⟩ := hs.head_of_rejectBatch (Option.isSome_of_eq_some h)
    obtain ⟨s'', changes', hreject, hs', hbrings, -⟩ := hs.rejectBatch_eq hqueue
    obtain ⟨rfl, rfl⟩ := Prod.mk.inj (Option.some.inj (h.symm.trans hreject))
    exact ⟨hs', fun _ => hbrings⟩
  | @received _ event _ hevent h =>
    obtain ⟨s'', changes', hreceive, hs', hbrings, -⟩ := hs.applyRemoteEvent_eq hevent
      (LocalStore.last_of_applyRemoteEvent (Option.isSome_of_eq_some h))
    obtain ⟨rfl, rfl⟩ := Prod.mk.inj (Option.some.inj (h.symm.trans hreceive))
    exact ⟨hs', fun _ => hbrings⟩
  | @changedUser _ user _ h =>
    obtain ⟨s'', changes', hchange, hs', hbrings, -⟩ := hs.handleUserChange_eq user
    obtain ⟨rfl, rfl⟩ := Prod.mk.inj (Option.some.inj (h.symm.trans hchange))
    exact ⟨hs', fun _ => hbrings⟩

theorem SettledStep.brings (h : SettledStep s changes s') (hs : s.Sound) :
    s'.Sound ∧ s.Brings s' changes := by
  obtain ⟨hstep, hsettles⟩ := h
  obtain ⟨hs', hbrings⟩ := hstep.brings hs
  exact ⟨hs', hbrings hsettles⟩

end Steps

def afterChanges (known : DocumentKey → Option (Document V)) (changes : MaybeDocumentMap V)
    (key : DocumentKey) : Option (Document V) :=
  match changes[key]? with
  | some doc => found (some doc)
  | none => known key

omit [DecidableEq User] in
theorem LocalStore.Brings.afterChanges_eq {s s' : LocalStore V User}
    {changes : MaybeDocumentMap V} (h : s.Brings s' changes) :
    afterChanges (fun key => found (s.localView key)) changes =
      fun key => found (s'.localView key) := by
  funext key
  unfold afterChanges
  cases hk : changes[key]? with
  | none => exact (h.kept key hk).symm
  | some doc => exact (h.changed key doc hk).2

section Runs
variable {user : User} {es : List (MaybeDocumentMap V)} {s : LocalStore V User}

theorem local_run_sound (hrun : Runs.Run LocalStep (.new user) es s) : s.Sound := by
  refine hrun.invariant (I := fun _ s => s.Sound) (LocalStore.sound_new user)
    fun _ s changes s' hs hstep => ?_
  obtain ⟨hs', -⟩ := hstep.brings hs
  exact hs'

theorem localView_new (user : User) (key : DocumentKey) :
    (LocalStore.new user : LocalStore V User).localView key = none := by
  simp [LocalStore.new, LocalStore.startMutationQueue, LocalStore.localView,
    LocalDocumentsView.localView, MemoryMutationQueue.start_queue, MemoryMutationQueue.new,
    LocalStore.mutationQueue, pendingView, MemoryRemoteDocumentCache.get,
    MemoryRemoteDocumentCache.empty]

theorem local_run_known (hrun : Runs.Run SettledStep (.new user) es s) :
    s.Sound ∧ es.foldl afterChanges (fun _ => none) = fun key => found (s.localView key) := by
  refine hrun.invariant (I := fun es s => s.Sound ∧
    es.foldl afterChanges (fun _ => none) = fun key => found (s.localView key))
    ⟨LocalStore.sound_new user, ?_⟩ fun es s changes s' ⟨hs, hknown⟩ hstep => ?_
  · funext key
    rw [localView_new]
    rfl
  · obtain ⟨hs', hbrings⟩ := hstep.brings hs
    exact ⟨hs', by rw [List.foldl_concat, hknown, hbrings.afterChanges_eq]⟩

/-- No assertion of the store fails: a batch is to have mutations, only the first batch is to be
rejected or acknowledged, and snapshots are not to go back. -/
theorem local_store_never_fails (hrun : Runs.Run LocalStep (.new user) es s) :
    (∀ key, (s.readDocument key).isSome) ∧
      (∀ user', (s.handleUserChange user').isSome) ∧
      (∀ localWriteTime mutations,
        (s.writeLocally localWriteTime mutations).isSome ↔ mutations ≠ []) ∧
      (∀ r : MutationBatchResult V, s.mutationQueue.queue.head? = some r.batch → r.Fits →
        0 < r.commitVersion → (s.acknowledgeBatch r).isSome) ∧
      (∀ batchId, (s.rejectBatch batchId).isSome ↔
        s.mutationQueue.queue.head?.map MutationBatch.batchId = some batchId) ∧
      ∀ event : RemoteEvent V, event.Versioned → ((s.applyRemoteEvent event).isSome ↔
        event.snapshotVersion = .none ∨ s.lastRemoteSnapshotVersion ≤ event.snapshotVersion) := by
  have hs := local_run_sound hrun
  refine ⟨fun key => ?_, fun user' => ?_, fun localWriteTime mutations => ⟨fun hwrite => ?_,
    fun hne => ?_⟩, fun r hhead hfits hcommit => ?_, fun batchId => ⟨fun hreject => ?_,
    fun hhead => ?_⟩, fun event hevent => ⟨LocalStore.last_of_applyRemoteEvent, fun hlast => ?_⟩⟩
  · unfold LocalStore.readDocument
    rw [hs.documents.getDocument_eq]
    rfl
  · obtain ⟨s', changes, h, -⟩ := hs.handleUserChange_eq user'
    exact Option.isSome_of_eq_some h
  · obtain ⟨⟨s', result⟩, h⟩ := Option.isSome_iff_exists.mp hwrite
    exact LocalStore.ne_nil_of_writeLocally h
  · obtain ⟨s', batch, changes, h, -⟩ := hs.writeLocally_eq localWriteTime hne
    exact Option.isSome_of_eq_some h
  · obtain ⟨rest, hqueue⟩ := List.head?_eq_some_iff.mp hhead
    obtain ⟨s', changes, h, -⟩ := hs.acknowledgeBatch_eq hqueue hfits hcommit
    exact Option.isSome_of_eq_some h
  · obtain ⟨head, rest, hqueue, rfl⟩ := hs.head_of_rejectBatch hreject
    rw [hqueue]
    rfl
  · obtain ⟨head, hfirst, rfl⟩ := Option.map_eq_some_iff.mp hhead
    obtain ⟨rest, hqueue⟩ := List.head?_eq_some_iff.mp hfirst
    obtain ⟨s', changes, h, -⟩ := hs.rejectBatch_eq hqueue
    exact Option.isSome_of_eq_some h
  · obtain ⟨s', changes, h, -⟩ := hs.applyRemoteEvent_eq hevent hlast
    exact Option.isSome_of_eq_some h

/-- With no fields to transform, a query finds the documents that it selects of those that reading
each of them would find; only their versions may differ. -/
theorem query_finds_known_documents (hrun : Runs.Run LocalStep (.new user) es s)
    (hplain : ∀ b ∈ s.mutationQueue.queue, b.plain) {query : Query V}
    (hgroup : query.collectionGroup = none)
    (hpath : query.path.length % 2 = 1 ∨ query = Query.collection query.path) :
    ∃ results, s.executeQuery query = some results ∧
      ∀ (k : DocumentKey) doc, s.readDocument k = some doc →
        results[k]?.map Document.unversioned = (query.select doc).map Document.unversioned := by
  have hs := local_run_sound hrun
  obtain ⟨results, hresults, hget⟩ := hs.executeQuery_eq hplain hgroup hpath
  refine ⟨results, hresults, fun k doc hdoc => ?_⟩
  unfold LocalStore.readDocument at hdoc
  rw [hs.documents.getDocument_eq] at hdoc
  rw [← Option.some.inj hdoc]
  exact hget k

/-- With no fields to transform, acknowledging a batch changes no data that is known, unless the
backend has sent something newer of a document before. -/
theorem acknowledged_data_kept (hrun : Runs.Run LocalStep (.new user) es s)
    (hplain : ∀ b ∈ s.mutationQueue.queue, b.plain) {r : MutationBatchResult V}
    (hhead : s.mutationQueue.queue.head? = some r.batch) (hfits : r.Fits)
    (hcommit : 0 < r.commitVersion)
    (hahead : ∀ k, r.batch.affects k → r.Ahead s.remoteDocumentCache k) :
    ∃ s' changes, s.acknowledgeBatch r = some (s', changes) ∧
      s'.mutationQueue.queue = s.mutationQueue.queue.tail ∧
      ∀ k, (s'.readDocument k).map dataOf = (s.readDocument k).map dataOf := by
  have hs := local_run_sound hrun
  obtain ⟨rest, hqueue⟩ := List.head?_eq_some_iff.mp hhead
  obtain ⟨s', changes, hack, hs', -, -, hrest, hcached⟩ :=
    hs.acknowledgeBatch_eq hqueue hfits hcommit
  refine ⟨s', changes, hack, by rw [hrest, hqueue, List.tail_cons], fun k => ?_⟩
  unfold LocalStore.readDocument
  rw [hs.documents.getDocument_eq, hs'.documents.getDocument_eq, Option.map_some, Option.map_some]
  exact congrArg some (hs.data_acknowledged hqueue hrest hfits hplain hcached (hahead k))

end Runs

section Renting

def rentedStore : LocalStore (Entries FieldValue) String × LocalWriteResult (Entries FieldValue) :=
  ((LocalStore.new "L").writeLocally 0 [setRent]).get (by decide +kernel)

theorem rented_queue : ∃ batch, rentedStore.1.mutationQueue.queue = [batch] ∧
    batch.mutations = [setRent] := by
  have hwrite : (LocalStore.new "L").writeLocally 0 [setRent] = some rentedStore :=
    (Option.some_get _).symm
  obtain ⟨s', batch, changes, hwrite', -, -, hmutations, hqueue, -⟩ :=
    (LocalStore.sound_new "L").writeLocally_eq 0 (List.cons_ne_nil setRent [])
  have hsame : rentedStore.1 = s' :=
    congrArg Prod.fst (Option.some.inj (hwrite.symm.trans hwrite'))
  exact ⟨batch, by rw [hsame, hqueue]; rfl, hmutations⟩

theorem rented_step : SettledStep (.new "L") rentedStore.2.changes rentedStore.1 := by
  have hwrite : (LocalStore.new "L").writeLocally 0 [setRent] = some rentedStore :=
    (Option.some_get _).symm
  exact ⟨.wrote hwrite, LocalStore.settles_of_nodup (by decide +kernel)⟩

theorem rented_settled_run :
    Runs.Run SettledStep (.new "L") [rentedStore.2.changes] rentedStore.1 :=
  .step .start rented_step

theorem rented_run : Runs.Run LocalStep (.new "L") [rentedStore.2.changes] rentedStore.1 :=
  .step .start rented_step.1

theorem rented_plain : ∀ b ∈ rentedStore.1.mutationQueue.queue, b.plain := by decide +kernel

theorem rented_writable : (rentedStore.1.writeLocally 0 [raiseRent]).isSome :=
  ((local_store_never_fails rented_run).2.2.1 0 [raiseRent]).mpr (List.cons_ne_nil _ _)

theorem rented_query_found : ∃ results,
    rentedStore.1.executeQuery (Query.collection ["properties"]) = some results ∧
      ∀ doc, rentedStore.1.readDocument rentKey = some doc →
        results[rentKey]?.map Document.unversioned =
          ((Query.collection ["properties"]).select doc).map Document.unversioned := by
  have hgroup : (Query.collection ["properties"] : Query (Entries FieldValue)).collectionGroup =
      none := rfl
  obtain ⟨results, hresults, hget⟩ :=
    query_finds_known_documents rented_run rented_plain hgroup (.inl rfl)
  exact ⟨results, hresults, hget rentKey⟩

theorem rented_acknowledged : ∃ r s' changes, rentedStore.1.acknowledgeBatch r =
    some (s', changes) ∧
    (s'.readDocument rentKey).map dataOf = (rentedStore.1.readDocument rentKey).map dataOf := by
  obtain ⟨batch, hqueue, hmutations⟩ := rented_queue
  let r : MutationBatchResult (Entries FieldValue) :=
    ⟨batch, 5, [⟨5, none⟩], by rw [hmutations]; rfl⟩
  have hfits : r.Fits := by
    intro x hx
    change x ∈ batch.mutations.zip [⟨5, none⟩] at hx
    rw [hmutations] at hx
    obtain rfl : x = (setRent, ⟨5, none⟩) := by simpa using hx
    rfl
  have hahead : ∀ k, r.batch.affects k → r.Ahead rentedStore.1.remoteDocumentCache k := by
    intro k _
    rfl
  obtain ⟨s', changes, hack, -, hdata⟩ := acknowledged_data_kept rented_run rented_plain
    (r := r) (by rw [hqueue]; rfl) hfits (Nat.succ_pos 4) hahead
  exact ⟨r, s', changes, hack, hdata rentKey⟩

end Renting
end Firestore
