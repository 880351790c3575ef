import Zeenoc.Firestore.LocalQueries
import Zeenoc.Firestore.ViewRuns

/-! The store of a client (`local_store.cc`): documents of the backend, and a mutation queue for
each user. What an operation returns is what it changes. A failed `HARD_ASSERT` is `none`. -/

namespace Firestore
variable {V User : Type} [ObjectValue V]

/-- The document updates of a `RemoteEvent`; its target changes are for the views. -/
structure RemoteEvent (V : Type) where
  snapshotVersion : SnapshotVersion
  documentUpdates : MaybeDocumentMap V
  key_eq : ∀ {k : DocumentKey} {d : MaybeDocument V}, documentUpdates[k]? = some d → d.key = k

/-- What the backend sends has a version; a fabricated event only says that documents do not
exist. -/
def RemoteEvent.Versioned (event : RemoteEvent V) : Prop :=
  event.snapshotVersion ≠ .none ∨ ∀ (k : DocumentKey) d, event.documentUpdates[k]? = some d →
    ∃ hasCommittedMutations, d = .noDocument k .none hasCommittedMutations

structure LocalStore (V User : Type) [ObjectValue V] where
  remoteDocumentCache : MemoryRemoteDocumentCache V
  mutationQueues : User → MemoryMutationQueue V
  user : User
  lastRemoteSnapshotVersion : SnapshotVersion

structure LocalWriteResult (V : Type) where
  batchId : ℤ
  changes : MaybeDocumentMap V

/-- Whether a document was made up, for one that the client lost access to. -/
def MaybeDocument.isFabricated : MaybeDocument V → Bool
  | noDocument _ version _ => version = .none
  | _ => false

def applyDocumentUpdate (snapshotVersion : SnapshotVersion)
    (existingDocs : OptionalMaybeDocumentMap V)
    (acc : MemoryRemoteDocumentCache V × OptionalMaybeDocumentMap V)
    (kv : DocumentKey × MaybeDocument V) :
    Option (MemoryRemoteDocumentCache V × OptionalMaybeDocumentMap V) :=
  let existingDoc := existingDocs[kv.1]?.join
  if kv.2.isFabricated then
    some (acc.1.remove kv.1, acc.2.insert kv.1 (some kv.2))
  else if existingDoc.all fun existing => existing.version < kv.2.version ∨
      kv.2.version = existing.version ∧ existing.hasPendingWrites then
    if snapshotVersion ≠ .none then
      some (acc.1.add kv.2 snapshotVersion, acc.2.insert kv.1 (some kv.2))
    else none
  else some acc

def applyResult (r : MutationBatchResult V) (cache : MemoryRemoteDocumentCache V)
    (docKey : DocumentKey) : Option (MemoryRemoteDocumentCache V) :=
  let remoteDoc := cache.get docKey
  r.docVersions[docKey]?.bind fun ackVersion =>
  if remoteDoc.all fun doc => doc.version < ackVersion then
    (r.batch.applyToRemoteDocument remoteDoc docKey r).bind fun
      | some doc => some (cache.add doc r.commitVersion)
      | none => if remoteDoc.isNone then some cache else none
  else some cache

namespace LocalStore
variable (s : LocalStore V User)

def mutationQueue : MemoryMutationQueue V := s.mutationQueues s.user

def localDocuments : LocalDocumentsView V := ⟨s.remoteDocumentCache, s.mutationQueue⟩

def readDocument (key : DocumentKey) : Option (Option (MaybeDocument V)) :=
  s.localDocuments.getDocument key

def getNextMutationBatch (batchId : ℤ) : Option (MutationBatch V) :=
  s.mutationQueue.nextMutationBatchAfterBatchId batchId

def getHighestUnacknowledgedBatchId : ℤ := s.mutationQueue.getHighestUnacknowledgedBatchId

/-- A query that matches all documents of a collection, or the refill of one with a limit: a full
scan. -/
def executeQuery (query : Query V) : Option (DocumentMap V) :=
  s.localDocuments.getDocumentsMatchingQuery query .none

def baseMutations (existingDocuments : MaybeDocumentMap V) (mutations : List (Mutation V)) :
    List (Mutation V) :=
  mutations.filterMap fun m => (m.extractBaseValue existingDocuments[m.key]?).map fun baseValue =>
    .patch m.key baseValue (ObjectValue.toFieldMask baseValue) (.docExists true)

def applyBatchResult [DecidableEq User] (r : MutationBatchResult V) : Option (LocalStore V User) :=
  (r.batch.keys.toList.foldlM (applyResult r) s.remoteDocumentCache).bind fun cache =>
  (s.mutationQueue.removeMutationBatch r.batch).map fun queue => { s with
    remoteDocumentCache := cache
    mutationQueues := Function.update s.mutationQueues s.user queue }

variable [DecidableEq User]

def withQueue (queue : MemoryMutationQueue V) : LocalStore V User :=
  { s with mutationQueues := Function.update s.mutationQueues s.user queue }

def startMutationQueue : LocalStore V User := s.withQueue s.mutationQueue.start

def new (user : User) : LocalStore V User :=
  startMutationQueue ⟨.empty, fun _ => .new, user, .none⟩

def handleUserChange (user : User) : Option (LocalStore V User × MaybeDocumentMap V) :=
  let oldBatches := s.mutationQueue.queue
  let s' := startMutationQueue { s with user := user }
  let changedKeys : DocumentKeySet := (oldBatches ++ s'.mutationQueue.queue).foldl
    (fun changedKeys batch => batch.mutations.foldl (fun changedKeys m => changedKeys.insert m.key)
      changedKeys) ∅
  (s'.localDocuments.getDocuments changedKeys).map fun changes => (s', changes)

def writeLocally (localWriteTime : Timestamp) (mutations : List (Mutation V)) :
    Option (LocalStore V User × LocalWriteResult V) :=
  let keys : DocumentKeySet := mutations.foldl (fun keys m => keys.insert m.key) ∅
  (s.localDocuments.getDocuments keys).bind fun existingDocuments =>
  (s.mutationQueue.addMutationBatch localWriteTime (baseMutations existingDocuments mutations)
    mutations).bind fun x =>
  (x.1.applyToLocalDocumentSet existingDocuments).map fun changedDocuments =>
  (s.withQueue x.2, ⟨x.1.batchId, changedDocuments⟩)

def acknowledgeBatch (r : MutationBatchResult V) :
    Option (LocalStore V User × MaybeDocumentMap V) :=
  (s.mutationQueue.acknowledgeBatch r.batch).bind fun queue =>
  ((s.withQueue queue).applyBatchResult r).bind fun s' =>
  if s'.mutationQueue.performConsistencyCheck then
    (s'.localDocuments.getDocuments r.batch.keys).map fun changes => (s', changes)
  else none

def rejectBatch (batchId : ℤ) : Option (LocalStore V User × MaybeDocumentMap V) :=
  (s.mutationQueue.lookupMutationBatch batchId).join.bind fun toReject =>
  (s.mutationQueue.removeMutationBatch toReject).bind fun queue =>
  if queue.performConsistencyCheck then
    ((s.withQueue queue).localDocuments.getDocuments toReject.keys).map fun changes =>
      (s.withQueue queue, changes)
  else none

def applyRemoteEvent (event : RemoteEvent V) : Option (LocalStore V User × MaybeDocumentMap V) :=
  let updatedKeys : DocumentKeySet :=
    event.documentUpdates.toList.foldl (fun keys kv => keys.insert kv.1) ∅
  let existingDocs := s.remoteDocumentCache.getAll updatedKeys
  (event.documentUpdates.toList.foldlM (applyDocumentUpdate event.snapshotVersion existingDocs)
    (s.remoteDocumentCache, ∅)).bind fun x =>
  (if event.snapshotVersion ≠ .none then
    if s.lastRemoteSnapshotVersion ≤ event.snapshotVersion then
      some { s with
        remoteDocumentCache := x.1
        lastRemoteSnapshotVersion := event.snapshotVersion }
    else none
  else some { s with remoteDocumentCache := x.1 }).bind fun s' =>
  (s'.localDocuments.getLocalViewOfDocuments x.2).map fun changes => (s', changes)

end LocalStore

omit [ObjectValue V] in
theorem hasKey_getD {maybeDoc : Option (MaybeDocument V)} {k : DocumentKey}
    (h : HasKey maybeDoc k) :
    HasKey (some (maybeDoc.getD (.noDocument k .none false))) k ∧
      found (some (maybeDoc.getD (.noDocument k .none false))) = found maybeDoc := by
  cases maybeDoc with
  | none => exact ⟨hasKey_some.mpr rfl, rfl⟩
  | some d => exact ⟨h, rfl⟩

namespace LocalStore
variable {s s' : LocalStore V User}

def localView (s : LocalStore V User) (key : DocumentKey) : Option (MaybeDocument V) :=
  s.localDocuments.localView key

theorem hasKey_localView (s : LocalStore V User) (key : DocumentKey) :
    HasKey (s.localView key) key := LocalDocumentsView.hasKey_localView s.localDocuments key

structure Sound (s : LocalStore V User) : Prop where
  queues : ∀ user,
    (LocalDocumentsView.mk s.remoteDocumentCache (s.mutationQueues user)).Sound
  read : ∀ (k : DocumentKey) (x : MaybeDocument V × SnapshotVersion),
    s.remoteDocumentCache.docs[k]? = some x → 0 < x.2

theorem Sound.documents (h : s.Sound) : s.localDocuments.Sound := h.queues s.user

/-- Some changed documents are all that changed between two stores, and as they are known now. -/
structure Brings (s s' : LocalStore V User) (changes : MaybeDocumentMap V) : Prop where
  changed : ∀ k x, changes[k]? = some x →
    HasKey (some x) k ∧ found (some x) = found (s'.localView k)
  kept : ∀ k, changes[k]? = none → found (s'.localView k) = found (s.localView k)

theorem Sound.brings (h : s'.Sound) (s : LocalStore V User) (keys : DocumentKeySet)
    (hkept : ∀ k, k ∉ keys → found (s'.localView k) = found (s.localView k)) :
    ∃ changes, s'.localDocuments.getDocuments keys = some changes ∧ s.Brings s' changes := by
  obtain ⟨changes, hchanges, hget⟩ := h.documents.getDocuments_eq keys
  refine ⟨changes, hchanges, fun k x hx => ?_, fun k hk => hkept k fun hmem => ?_⟩
  · rw [hget] at hx
    split_ifs at hx
    rw [← Option.some.inj hx]
    exact hasKey_getD (s'.hasKey_localView k)
  · rw [hget, if_pos hmem] at hk
    cases hk

section Queues
variable [DecidableEq User]

@[simp]
theorem mutationQueue_withQueue (s : LocalStore V User) (queue : MemoryMutationQueue V) :
    (s.withQueue queue).mutationQueue = queue := by
  simp [withQueue, mutationQueue]

@[simp]
theorem localDocuments_withQueue (s : LocalStore V User) (queue : MemoryMutationQueue V) :
    (s.withQueue queue).localDocuments = ⟨s.remoteDocumentCache, queue⟩ := by
  unfold localDocuments
  rw [mutationQueue_withQueue]
  rfl

theorem Sound.replaced (h : s.Sound) {cache : MemoryRemoteDocumentCache V}
    {queue : MemoryMutationQueue V} (hqueue : queue.WellFormed)
    (hbased : ∀ b ∈ queue.queue, b.BaseAffected)
    (hread : ∀ (k : DocumentKey) x, cache.docs[k]? = some x → 0 < x.2) :
    Sound { s with
      remoteDocumentCache := cache
      mutationQueues := Function.update s.mutationQueues s.user queue } where
  queues user := by
    change LocalDocumentsView.Sound ⟨_, Function.update s.mutationQueues s.user queue user⟩
    rw [Function.update_apply]
    split_ifs
    · exact ⟨hqueue, hbased⟩
    · exact ⟨(h.queues user).queue, (h.queues user).based⟩
  read := hread

theorem Sound.withQueue (h : s.Sound) {queue : MemoryMutationQueue V} (hqueue : queue.WellFormed)
    (hbased : ∀ b ∈ queue.queue, b.BaseAffected) : (s.withQueue queue).Sound :=
  h.replaced hqueue hbased h.read

theorem Sound.startMutationQueue (h : s.Sound) : s.startMutationQueue.Sound :=
  h.withQueue h.documents.queue.started fun b hb =>
    h.documents.based b (s.mutationQueue.start_queue ▸ hb)

theorem sound_new (user : User) : (new user : LocalStore V User).Sound := by
  have hempty : Sound (⟨.empty, fun _ => .new, user, .none⟩ : LocalStore V User) := by
    refine ⟨fun _ => ⟨MemoryMutationQueue.wellFormed_new, fun b hb => ?_⟩, fun k x hx => ?_⟩
    · simp [MemoryMutationQueue.new] at hb
    · simp [MemoryRemoteDocumentCache.empty] at hx
  exact hempty.startMutationQueue

theorem Sound.handleUserChange_eq (h : s.Sound) (user : User) :
    ∃ s' changes, s.handleUserChange user = some (s', changes) ∧ s'.Sound ∧
      s.Brings s' changes ∧ s'.user = user ∧
      s'.mutationQueue.queue = (s.mutationQueues user).queue := by
  have hqueue : Sound { s with user := user } := ⟨h.queues, h.read⟩
  have hs' := hqueue.startMutationQueue
  set s' := LocalStore.startMutationQueue { s with user := user } with hdef
  have hsame : s'.mutationQueue.queue = (s.mutationQueues user).queue := by
    rw [hdef, LocalStore.startMutationQueue, mutationQueue_withQueue]
    exact MemoryMutationQueue.start_queue _
  have hmem : ∀ (batches : List (MutationBatch V)) (keys : DocumentKeySet) k,
      k ∈ batches.foldl (fun (changedKeys : DocumentKeySet) batch =>
        batch.mutations.foldl (fun changedKeys m => changedKeys.insert m.key) changedKeys) keys ↔
          k ∈ keys ∨ ∃ b ∈ batches, b.affects k := by
    intro batches
    induction batches with
    | nil => simp
    | cons b batches ih =>
      intro keys k
      rw [List.foldl_cons, ih, Loops.mem_foldl_insert, List.exists_mem_cons_iff,
        MutationBatch.affects_iff, or_assoc]
  -- a document that neither queue writes to reads as before
  obtain ⟨changes, hchanges, hbrings⟩ := hs'.brings s
    ((s.mutationQueue.queue ++ s'.mutationQueue.queue).foldl
      (fun (changedKeys : DocumentKeySet) batch => batch.mutations.foldl
        (fun changedKeys m => changedKeys.insert m.key) changedKeys) ∅) fun k hk => by
    rw [hmem, not_or] at hk
    have hold : ¬∃ b ∈ s.mutationQueue.queue, b.affects k := by
      rintro ⟨b, hb, haffects⟩
      exact hk.2 ⟨b, List.mem_append_left _ hb, haffects⟩
    have hnew : ¬∃ b ∈ s'.mutationQueue.queue, b.affects k := by
      rintro ⟨b, hb, haffects⟩
      exact hk.2 ⟨b, List.mem_append_right _ hb, haffects⟩
    unfold localView
    rw [h.documents.localView_of_not_affected hold, hs'.documents.localView_of_not_affected hnew]
    rfl
  refine ⟨s', changes, ?_, hs', hbrings, rfl, hsame⟩
  unfold handleUserChange
  rw [← hdef]
  dsimp only
  rw [hchanges, Option.map_some]

theorem pendingView_cons_of_not_affects {b : MutationBatch V} {batches : List (MutationBatch V)}
    {k : DocumentKey} {doc : Option (MaybeDocument V)} (hb : b.BaseAffected) (hk : ¬b.affects k)
    (hdoc : HasKey doc k) : pendingView (b :: batches) k doc = pendingView batches k doc := by
  unfold pendingView
  rw [List.foldl_cons, MutationBatch.localView_of_not_affects hb hk hdoc]

theorem Sound.rejectBatch_eq (h : s.Sound) {head : MutationBatch V}
    {rest : List (MutationBatch V)} (hqueue : s.mutationQueue.queue = head :: rest) :
    ∃ s' changes, s.rejectBatch head.batchId = some (s', changes) ∧ s'.Sound ∧
      s.Brings s' changes ∧ s'.user = s.user ∧ s'.mutationQueue.queue = rest ∧
      s'.remoteDocumentCache = s.remoteDocumentCache := by
  have hwf : s.mutationQueue.WellFormed := h.documents.queue
  have hhead : head ∈ s.mutationQueue.queue := hqueue ▸ List.mem_cons_self
  obtain ⟨queue, hremove, hrest, hwf'⟩ := hwf.removed hqueue
  have hs' : (s.withQueue queue).Sound := h.withQueue hwf' fun b hb =>
    h.documents.based b (hqueue ▸ List.mem_cons_of_mem _ (hrest ▸ hb))
  obtain ⟨changes, hchanges, hbrings⟩ := hs'.brings s head.keys fun k hk => by
    have hk : ¬head.affects k := fun haffects => hk (head.mem_keys.mpr haffects)
    unfold localView
    rw [localDocuments_withQueue, LocalDocumentsView.localView, LocalDocumentsView.localView, hrest]
    change _ = found (pendingView s.mutationQueue.queue k _)
    rw [hqueue, pendingView_cons_of_not_affects (h.documents.based _ hhead) hk
      (LocalDocumentsView.hasKey_get _ k)]
    rfl
  refine ⟨_, changes, ?_, hs', hbrings, rfl, by rw [mutationQueue_withQueue, hrest], rfl⟩
  unfold rejectBatch
  rw [hwf.lookup_eq, hwf.find_of_mem hhead, Option.join_some, Option.bind_some, hremove,
    Option.bind_some, if_pos hwf'.consistent, hchanges, Option.map_some]

section Write
variable {existing : MaybeDocumentMap V} {mutations : List (Mutation V)}

theorem baseMutations_key {m : Mutation V} (hm : m ∈ baseMutations existing mutations) :
    ∃ m' ∈ mutations, m'.key = m.key := by
  obtain ⟨m', hm', hbase⟩ := List.mem_filterMap.mp hm
  obtain ⟨baseValue, -, rfl⟩ := Option.map_eq_some_iff.mp hbase
  exact ⟨m', hm', rfl⟩

theorem ne_nil_of_writeLocally {localWriteTime : Timestamp} {s' : LocalStore V User}
    {result : LocalWriteResult V} (h : s.writeLocally localWriteTime mutations =
      some (s', result)) :
    mutations ≠ [] := by
  rintro rfl
  unfold writeLocally MemoryMutationQueue.addMutationBatch at h
  obtain ⟨existing, -, h⟩ := Option.bind_eq_some_iff.mp h
  simp at h

/-- A batch that settles is applied once for each mutation of a document; once would do. -/
theorem found_of_settles {b : MutationBatch V} {k : DocumentKey}
    {doc known : Option (MaybeDocument V)} (hsettles : b.Settles k known) (haffects : b.affects k)
    (hknown : HasKey known k) (hdoc : HasKey doc k) (hsome : doc.isSome)
    (hsame : found doc = found known) {applied : Option (MaybeDocument V)}
    (happlied : applied = (b.mutations.filter fun m => m.key = k).foldl
      (fun doc _ => b.localView k doc) doc) :
    applied.isSome ∧ HasKey applied k ∧ found applied = found (b.localView k known) := by
  obtain ⟨m, hm, hmkey⟩ := MutationBatch.affects_iff.mp haffects
  have hmfilter : m ∈ b.mutations.filter fun m => m.key = k :=
    List.mem_filter.mpr ⟨hm, by simpa using hmkey⟩
  obtain ⟨first, rest, hlist⟩ := List.exists_cons_of_ne_nil (List.ne_nil_of_mem hmfilter)
  have hfirst : (b.localView k doc).isSome ∧ HasKey (b.localView k doc) k ∧
      found (b.localView k doc) = found (b.localView k known) :=
    ⟨MutationBatch.isSome_localView hdoc hsome, MutationBatch.hasKey_localView hdoc b,
      MutationBatch.found_localView_congr hdoc hknown hsame⟩
  rw [happlied, hlist, List.foldl_cons]
  rcases hsettles with hone | htwice
  · rw [hlist, List.length_cons] at hone
    rw [List.length_eq_zero_iff.mp (by omega : rest.length = 0)]
    exact hfirst
  · refine List.foldlRecOn (motive := fun doc => Option.isSome doc ∧ HasKey doc k ∧
      found doc = found (b.localView k known)) rest _ hfirst fun doc hd _ _ => ?_
    obtain ⟨hd, hkey, hfound⟩ := hd
    exact ⟨MutationBatch.isSome_localView hkey hd, MutationBatch.hasKey_localView hkey b,
      (MutationBatch.found_localView_congr hkey (MutationBatch.hasKey_localView hknown b)
        hfound).trans htwice⟩

theorem Sound.writeLocally_eq (h : s.Sound) (localWriteTime : Timestamp) (hne : mutations ≠ []) :
    ∃ s' batch changes, s.writeLocally localWriteTime mutations =
        some (s', ⟨batch.batchId, changes⟩) ∧ s'.Sound ∧
      batch.localWriteTime = localWriteTime ∧ batch.mutations = mutations ∧
      s'.mutationQueue.queue = s.mutationQueue.queue ++ [batch] ∧
      s'.remoteDocumentCache = s.remoteDocumentCache ∧ s'.user = s.user ∧
      ((∀ k, batch.Settles k (s.localView k)) → s.Brings s' changes) := by
  have hwf : s.mutationQueue.WellFormed := h.documents.queue
  set keys : DocumentKeySet := mutations.foldl (fun keys m => keys.insert m.key) ∅ with hkeys
  have hmem : ∀ k, k ∈ keys ↔ ∃ m ∈ mutations, m.key = k := by
    intro k
    rw [hkeys, Loops.mem_foldl_insert]
    simp
  obtain ⟨existing, hexisting, hget⟩ := h.documents.getDocuments_eq keys
  let batch : MutationBatch V := ⟨s.mutationQueue.nextBatchId, localWriteTime,
    baseMutations existing mutations, mutations, hne⟩
  have hbased : batch.BaseAffected := by
    intro m hm
    obtain ⟨m', hm', hkey⟩ := baseMutations_key hm
    exact MutationBatch.affects_iff.mpr ⟨m', hm', hkey⟩
  have hadd : s.mutationQueue.addMutationBatch localWriteTime (baseMutations existing mutations)
      mutations = some (batch, s.mutationQueue.pushBack batch) :=
    hwf.addMutationBatch_eq localWriteTime _ hne
  have hs' : (s.withQueue (s.mutationQueue.pushBack batch)).Sound := by
    refine h.withQueue (hwf.pushBack rfl) fun b hb => ?_
    rcases List.mem_append.mp hb with hb | hb
    · exact h.documents.based b hb
    · exact List.mem_singleton.mp hb ▸ hbased
  have hview : ∀ k, (s.withQueue (s.mutationQueue.pushBack batch)).localView k =
      batch.localView k (s.localView k) := by
    intro k
    unfold localView
    rw [localDocuments_withQueue]
    unfold LocalDocumentsView.localView pendingView
    exact List.foldl_concat _ _ _ _
  have hexists : ∀ k, k ∈ keys → existing[k]? =
      some ((s.localView k).getD (.noDocument k .none false)) := fun k hk => by
    rw [hget, if_pos hk]
    rfl
  obtain ⟨changes, happly, hchanges⟩ := MutationBatch.applyToLocalDocumentSet_eq (b := batch)
    existing (fun k => by
      by_cases hk : k ∈ keys
      · rw [hexists k hk]
        exact (hasKey_getD (s.hasKey_localView k)).1
      · rw [hget, if_neg hk]
        exact hasKey_none k) fun k hk => by
      rw [hexists k ((hmem k).mpr (MutationBatch.affects_iff.mp hk))]
      rfl
  refine ⟨_, batch, changes, ?_, hs', rfl, rfl, by rw [mutationQueue_withQueue]; rfl, rfl, rfl,
    fun hsettles => ?_⟩
  · unfold writeLocally
    rw [← hkeys]
    dsimp only
    rw [hexisting, Option.bind_some, hadd, Option.bind_some, happly, Option.map_some]
  · -- the changed documents are those that the batch writes
    have hnone : ∀ k, k ∉ keys → changes[k]? = none := by
      intro k hk
      have hfilter : (batch.mutations.filter fun m => m.key = k) = [] := by
        rw [List.filter_eq_nil_iff]
        intro m hm
        simpa using fun he => hk ((hmem k).mpr ⟨m, hm, he⟩)
      rw [hchanges, hfilter, List.foldl_nil, hget, if_neg hk]
    have hsome : ∀ k, k ∈ keys → changes[k]?.isSome ∧ HasKey changes[k]? k ∧
        found changes[k]? = found (batch.localView k (s.localView k)) := by
      intro k hk
      have hdoc := s.hasKey_localView k
      obtain ⟨hkey, hfound⟩ := hasKey_getD hdoc
      refine found_of_settles (hsettles k) (MutationBatch.affects_iff.mpr ((hmem k).mp hk)) hdoc
        hkey rfl hfound ?_
      rw [hchanges, hexists k hk]
    refine ⟨fun k x hx => ?_, fun k hk => ?_⟩
    · have hk : k ∈ keys := by
        by_contra hk
        rw [hnone k hk] at hx
        cases hx
      rw [← hx, hview]
      exact (hsome k hk).2
    · have hk : k ∉ keys := by
        intro hmemk
        have hchanged := (hsome k hmemk).1
        rw [hk] at hchanged
        cases hchanged
      have hnot : ¬batch.affects k := fun haffects =>
        hk ((hmem k).mpr (MutationBatch.affects_iff.mp haffects))
      rw [hview, MutationBatch.localView_of_not_affects hbased hnot
        (s.hasKey_localView k)]

end Write

section Remote
variable {event : RemoteEvent V}

def updatedEntry (snapshotVersion : SnapshotVersion) (existingDoc : Option (MaybeDocument V))
    (doc : MaybeDocument V) (entry : Option (MaybeDocument V × SnapshotVersion) ×
      Option (Option (MaybeDocument V))) :
    Option (MaybeDocument V × SnapshotVersion) × Option (Option (MaybeDocument V)) :=
  if doc.isFabricated then (none, some (some doc))
  else if existingDoc.all fun existing => existing.version < doc.version ∨
      doc.version = existing.version ∧ existing.hasPendingWrites then
    (some (doc, snapshotVersion), some (some doc))
  else entry

omit [ObjectValue V] in
theorem applyDocumentUpdate_eq {snapshotVersion : SnapshotVersion}
    (existingDocs : OptionalMaybeDocumentMap V)
    (acc : MemoryRemoteDocumentCache V × OptionalMaybeDocumentMap V)
    {kv : DocumentKey × MaybeDocument V} (hkey : kv.2.key = kv.1)
    (hversion : snapshotVersion ≠ .none ∨
      ∃ hasCommittedMutations, kv.2 = .noDocument kv.1 .none hasCommittedMutations) :
    ∃ acc', applyDocumentUpdate snapshotVersion existingDocs acc kv = some acc' ∧
      ∀ k : DocumentKey, (acc'.1.docs[k]?, acc'.2[k]?) = if kv.1 = k then
        updatedEntry snapshotVersion existingDocs[kv.1]?.join kv.2 (acc.1.docs[k]?, acc.2[k]?)
        else (acc.1.docs[k]?, acc.2[k]?) := by
  unfold applyDocumentUpdate updatedEntry
  dsimp only
  by_cases hfabricated : kv.2.isFabricated
  · simp only [if_pos hfabricated]
    refine ⟨_, rfl, fun k => ?_⟩
    simp only [MemoryRemoteDocumentCache.remove, Std.ExtTreeMap.getElem?_erase,
      Std.ExtTreeMap.getElem?_insert, Std.LawfulEqCmp.compare_eq_iff_eq]
    split_ifs <;> rfl
  · have hsnapshot : snapshotVersion ≠ .none := by
      rcases hversion with h | ⟨b, hb⟩
      · exact h
      · rw [hb] at hfabricated
        exact absurd rfl hfabricated
    simp only [if_neg hfabricated, if_pos hsnapshot]
    split_ifs with hnewer
    · refine ⟨_, rfl, fun k => ?_⟩
      simp only [MemoryRemoteDocumentCache.add, hkey, Std.ExtTreeMap.getElem?_insert,
        Std.LawfulEqCmp.compare_eq_iff_eq]
      split_ifs <;> rfl
    · exact ⟨acc, rfl, fun k => (ite_self _).symm⟩

omit [ObjectValue V] in
theorem applyDocumentUpdates_eq (c : MemoryRemoteDocumentCache V) (hevent : event.Versioned) :
    ∃ cache changed, event.documentUpdates.toList.foldlM
        (applyDocumentUpdate event.snapshotVersion (c.getAll
          (event.documentUpdates.toList.foldl (fun keys kv => keys.insert kv.1) ∅)))
        (c, ∅) = some (cache, changed) ∧
      ∀ k : DocumentKey, (cache.docs[k]?, changed[k]?) =
        event.documentUpdates[k]?.elim (c.docs[k]?, none) fun doc =>
          updatedEntry event.snapshotVersion (c.get k) doc (c.docs[k]?, none) := by
  have hmem : ∀ kv ∈ event.documentUpdates.toList, event.documentUpdates[kv.1]? = some kv.2 :=
    fun kv hkv => Std.ExtTreeMap.mem_toList_iff_getElem?_eq_some.mp hkv
  obtain ⟨⟨cache, changed⟩, hloop, -, hlook⟩ := Loops.foldlM_places
    (fun (acc : MemoryRemoteDocumentCache V × OptionalMaybeDocumentMap V) k =>
      (acc.1.docs[k]?, acc.2[k]?)) Prod.fst
    (fun kv entry => updatedEntry event.snapshotVersion
      (c.getAll (event.documentUpdates.toList.foldl
      (fun keys kv => keys.insert kv.1) ∅))[kv.1]?.join kv.2 entry) (fun _ => True)
    (l := event.documentUpdates.toList) (s := (c, ∅)) trivial fun acc kv hkv _ => by
      obtain ⟨acc', hacc, hlook⟩ := applyDocumentUpdate_eq (c.getAll
        (event.documentUpdates.toList.foldl (fun keys kv => keys.insert kv.1) ∅)) acc
        (event.key_eq (hmem kv hkv)) (hevent.imp_right fun h => h kv.1 kv.2 (hmem kv hkv))
      exact ⟨acc', hacc, trivial, hlook⟩
  refine ⟨cache, changed, hloop, fun k => (hlook k).trans ?_⟩
  rw [Loops.filter_key_toList, Std.ExtTreeMap.getElem?_empty]
  cases hk : event.documentUpdates[k]? with
  | none => rfl
  | some doc =>
    have hupdated : k ∈ event.documentUpdates.toList.foldl
        (fun (keys : DocumentKeySet) kv => keys.insert kv.1) ∅ := by
      rw [Loops.mem_foldl_insert]
      exact .inr ⟨(k, doc), Std.ExtTreeMap.mem_toList_iff_getElem?_eq_some.mpr hk, rfl⟩
    change updatedEntry _ (c.getAll _)[k]?.join _ _ = _
    rw [LocalDocumentsView.getAll_eq, if_pos hupdated]
    rfl

omit [ObjectValue V] in
theorem cached_of_updates {c cache : MemoryRemoteDocumentCache V}
    {changed : OptionalMaybeDocumentMap V} (hevent : event.Versioned)
    (hlook : ∀ k : DocumentKey, (cache.docs[k]?, changed[k]?) =
      event.documentUpdates[k]?.elim (c.docs[k]?, none) fun doc =>
        updatedEntry event.snapshotVersion (c.get k) doc (c.docs[k]?, none)) (k : DocumentKey) :
    (changed[k]? = none → cache.docs[k]? = c.docs[k]?) ∧
      (∀ doc, changed[k]? = some doc → HasKey doc k ∧ found doc = found (cache.get k)) ∧
      ∀ x, cache.docs[k]? = some x → c.docs[k]? = some x ∨ 0 < x.2 := by
  have hk := hlook k
  cases hdoc : event.documentUpdates[k]? with
  | none =>
    rw [hdoc] at hk
    obtain ⟨hcache, hchanged⟩ := Prod.mk.inj hk
    rw [hcache, hchanged]
    exact ⟨fun _ => rfl, fun _ h => (Option.some_ne_none _ h.symm).elim, fun x hx => .inl hx⟩
  | some doc =>
    rw [hdoc] at hk
    have hkey : HasKey (some doc) k := hasKey_some.mpr (event.key_eq hdoc)
    simp only [Option.elim_some, updatedEntry] at hk
    by_cases hfabricated : doc.isFabricated
    · -- a fabricated document leaves the cache
      rw [if_pos hfabricated] at hk
      obtain ⟨hcache, hchanged⟩ := Prod.mk.inj hk
      have hnone : found (some doc) = none := by
        cases doc with
        | document d => cases hfabricated
        | noDocument key version b => rfl
        | unknownDocument key version => rfl
      rw [MemoryRemoteDocumentCache.get, hcache, hchanged]
      refine ⟨fun h => (Option.some_ne_none _ h).elim, fun doc' hdoc' => ?_,
        fun _ h => (Option.some_ne_none _ h.symm).elim⟩
      rw [← Option.some.inj hdoc']
      exact ⟨hkey, hnone⟩
    · rw [if_neg hfabricated] at hk
      split_ifs at hk
      · obtain ⟨hcache, hchanged⟩ := Prod.mk.inj hk
        rw [MemoryRemoteDocumentCache.get, hcache, hchanged]
        refine ⟨fun h => (Option.some_ne_none _ h).elim, fun doc' hdoc' => ?_, fun x hx => .inr ?_⟩
        · rw [← Option.some.inj hdoc']
          exact ⟨hkey, rfl⟩
        · rw [← Option.some.inj hx]
          rcases hevent with hversion | hall
          · exact Nat.pos_of_ne_zero hversion
          · obtain ⟨b, rfl⟩ := hall k doc hdoc
            exact absurd rfl hfabricated
      · obtain ⟨hcache, hchanged⟩ := Prod.mk.inj hk
        rw [hcache, hchanged]
        exact ⟨fun _ => rfl, fun _ h => (Option.some_ne_none _ h.symm).elim, fun x hx => .inl hx⟩

omit [DecidableEq User] in
theorem Sound.applyRemoteEvent_eq (h : s.Sound) (hevent : event.Versioned)
    (hlast : event.snapshotVersion = .none ∨ s.lastRemoteSnapshotVersion ≤ event.snapshotVersion) :
    ∃ s' changes, s.applyRemoteEvent event = some (s', changes) ∧ s'.Sound ∧
      s.Brings s' changes ∧ s'.user = s.user ∧ s'.mutationQueues = s.mutationQueues := by
  obtain ⟨cache, changed, hloop, hlook⟩ := applyDocumentUpdates_eq s.remoteDocumentCache hevent
  have hcached := cached_of_updates hevent hlook
  -- the snapshot version moves on, or the event is fabricated and has none
  have hversion : ∃ version, (if event.snapshotVersion ≠ .none then
      if s.lastRemoteSnapshotVersion ≤ event.snapshotVersion then
        some { s with
          remoteDocumentCache := cache
          lastRemoteSnapshotVersion := event.snapshotVersion }
      else none
      else some { s with remoteDocumentCache := cache }) =
        some { s with remoteDocumentCache := cache, lastRemoteSnapshotVersion := version } := by
    by_cases hnone : event.snapshotVersion = .none
    · exact ⟨_, if_neg (not_not.mpr hnone)⟩
    · exact ⟨_, by rw [if_pos hnone, if_pos (hlast.resolve_left hnone)]⟩
  obtain ⟨version, hs⟩ := hversion
  set s' : LocalStore V User :=
    { s with remoteDocumentCache := cache, lastRemoteSnapshotVersion := version } with hdef
  have hs' : s'.Sound := by
    refine ⟨fun user => ⟨(h.queues user).queue, (h.queues user).based⟩, fun k x hx => ?_⟩
    rcases (hcached k).2.2 x hx with hold | hnew
    · exact h.read k x hold
    · exact hnew
  have hdocs : LocalDocumentsView.KeyedDocs changed := fun k doc hdoc =>
    ((hcached k).2.1 doc hdoc).1
  obtain ⟨changes, hchanges, hget⟩ := hs'.documents.getLocalViewOfDocuments_eq hdocs
  refine ⟨s', changes, ?_, hs', ⟨fun k x hx => ?_, fun k hk => ?_⟩, rfl, rfl⟩
  · unfold applyRemoteEvent
    dsimp only
    rw [hloop, Option.bind_some, hs, Option.bind_some, hchanges, Option.map_some]
  · rw [hget, Option.map_eq_some_iff] at hx
    obtain ⟨doc, hdoc, rfl⟩ := hx
    obtain ⟨hkey, hfound⟩ := (hcached k).2.1 doc hdoc
    obtain ⟨hkey', hfound'⟩ := hasKey_getD (hasKey_pendingView hkey s'.mutationQueue.queue)
    exact ⟨hkey', hfound'.trans
      (found_pendingView_congr hkey (LocalDocumentsView.hasKey_get cache k) hfound)⟩
  · rw [hget, Option.map_eq_none_iff] at hk
    have hsame : cache.get k = s.remoteDocumentCache.get k := by
      rw [MemoryRemoteDocumentCache.get, (hcached k).1 hk]
      rfl
    change found (pendingView s.mutationQueue.queue k (cache.get k)) = _
    rw [hsame]
    rfl

end Remote

end Queues
end LocalStore
end Firestore
