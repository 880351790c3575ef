import Zeenoc.Firestore.MutationQueue

/-! What the client knows of documents: the ones that the backend sent
(`memory_remote_document_cache.cc`), with the mutations that it has yet to acknowledge
(`local_documents_view.cc`). A failed `HARD_ASSERT` is `none`. -/

namespace Firestore

abbrev OptionalMaybeDocumentMap (V : Type) :=
  Std.ExtTreeMap DocumentKey (Option (MaybeDocument V))

structure MemoryRemoteDocumentCache (V : Type) where
  docs : Std.ExtTreeMap DocumentKey (MaybeDocument V × SnapshotVersion)
  key_eq : ∀ {k : DocumentKey} {x : MaybeDocument V × SnapshotVersion},
    docs[k]? = some x → x.1.key = k

namespace MemoryRemoteDocumentCache
variable {V : Type} (c : MemoryRemoteDocumentCache V)

def empty : MemoryRemoteDocumentCache V := ⟨∅, fun h => by simp at h⟩

def add (document : MaybeDocument V) (readTime : SnapshotVersion) :
    MemoryRemoteDocumentCache V where
  docs := c.docs.insert document.key (document, readTime)
  key_eq {k x} h := by
    rw [Std.ExtTreeMap.getElem?_insert] at h
    split_ifs at h with hk
    · rw [← Option.some.inj h]
      exact Std.LawfulEqCmp.eq_of_compare hk
    · exact c.key_eq h

def remove (key : DocumentKey) : MemoryRemoteDocumentCache V where
  docs := c.docs.erase key
  key_eq {k x} h := by
    rw [Std.ExtTreeMap.getElem?_erase] at h
    split_ifs at h
    exact c.key_eq h

def get (key : DocumentKey) : Option (MaybeDocument V) := c.docs[key]?.map Prod.fst

def getAll (keys : DocumentKeySet) : OptionalMaybeDocumentMap V :=
  keys.toList.foldl (fun results key => results.insert key (c.get key)) ∅

def addMatching (query : Query V) (sinceReadTime : SnapshotVersion) (results : DocumentMap V)
    (e : DocumentKey × MaybeDocument V × SnapshotVersion) : DocumentMap V :=
  match e.2.1.document? with
  | none => results
  | some doc =>
    if e.2.2 ≤ sinceReadTime then results
    else if query.matchesDocument doc then results.insert e.1 doc
    else results

/-- The prefix of the scan is a document key only for the path of a collection. -/
def getMatching (query : Query V) (sinceReadTime : SnapshotVersion) : Option (DocumentMap V) :=
  if query.isCollectionGroupQuery ∨ query.path.length % 2 = 0 then none
  else
    let entries := SortedList.scan (fun e => compare e.1 (startKey query.path) = .lt)
      (fun e => query.path.isPrefixOf e.1.path) c.docs.toList
    some (entries.foldl (addMatching query sinceReadTime) ∅)

end MemoryRemoteDocumentCache

variable {V : Type} [ObjectValue V]

structure LocalDocumentsView (V : Type) [ObjectValue V] where
  remoteDocumentCache : MemoryRemoteDocumentCache V
  mutationQueue : MemoryMutationQueue V

namespace LocalDocumentsView
variable (v : LocalDocumentsView V)

def getDocument (key : DocumentKey) : Option (Option (MaybeDocument V)) :=
  (v.mutationQueue.allMutationBatchesAffectingDocumentKey key).bind fun batches =>
  batches.foldlM (fun document batch => batch.applyToLocalDocument document key)
    (v.remoteDocumentCache.get key)

def applyLocalMutationsToDocuments (docs : OptionalMaybeDocumentMap V)
    (batches : List (MutationBatch V)) : Option (OptionalMaybeDocumentMap V) :=
  docs.toList.foldlM (fun results kv =>
    (batches.foldlM (fun localView (batch : MutationBatch V) =>
      batch.applyToLocalDocument localView kv.1) kv.2).map fun localView =>
         results.insert kv.1 localView) ∅

def allKeys (baseDocs : OptionalMaybeDocumentMap V) : DocumentKeySet :=
  baseDocs.toList.foldl (fun keys kv => keys.insert kv.1) ∅

def getLocalViewOfDocuments (baseDocs : OptionalMaybeDocumentMap V) :
    Option (MaybeDocumentMap V) :=
  (v.mutationQueue.allMutationBatchesAffectingDocumentKeys (allKeys baseDocs)).bind fun batches =>
  (applyLocalMutationsToDocuments baseDocs batches).map fun docs =>
  docs.toList.foldl (fun results kv =>
    results.insert kv.1 (kv.2.getD (.noDocument kv.1 .none false))) ∅

def getDocuments (keys : DocumentKeySet) : Option (MaybeDocumentMap V) :=
  v.getLocalViewOfDocuments (v.remoteDocumentCache.getAll keys)

def getDocumentsMatchingDocumentQuery (docPath : ResourcePath) : Option (DocumentMap V) :=
  if h : docPath.length % 2 = 0 then
    (v.getDocument ⟨docPath, h⟩).map fun doc =>
      match found doc with
      | some doc => (∅ : DocumentMap V).insert doc.key doc
      | none => ∅
  else none

def missingDocKeys (matchingBatches : List (MutationBatch V)) (existingDocs : DocumentMap V) :
    DocumentKeySet :=
  matchingBatches.foldl (fun keys batch =>
    batch.mutations.foldl (fun keys m =>
      if m.isPatch ∧ m.key ∉ existingDocs then keys.insert m.key else keys) keys) ∅

def addDocument (docs : DocumentMap V) (kv : DocumentKey × Option (MaybeDocument V)) :
    DocumentMap V :=
  match found kv.2 with
  | some doc => docs.insert kv.1 doc
  | none => docs

def addMissingBaseDocuments (matchingBatches : List (MutationBatch V))
    (existingDocs : DocumentMap V) : DocumentMap V :=
  (v.remoteDocumentCache.getAll (missingDocKeys matchingBatches existingDocs)).toList.foldl
    addDocument existingDocs

def applyMutation (query : Query V) (localWriteTime : Timestamp) (results : DocumentMap V)
    (m : Mutation V) : Option (DocumentMap V) :=
  if isImmediateParentOf query.path m.key.path then
    let baseDoc := results[m.key]?.map MaybeDocument.document
    (m.applyToLocalView baseDoc baseDoc localWriteTime).map fun mutatedDoc =>
      match found mutatedDoc with
      | some doc => results.insert m.key doc
      | none => results.erase m.key
  else some results

def getDocumentsMatchingCollectionQuery (query : Query V) (sinceReadTime : SnapshotVersion) :
    Option (DocumentMap V) :=
  (v.remoteDocumentCache.getMatching query sinceReadTime).bind fun results =>
  (v.mutationQueue.allMutationBatchesAffectingQuery query).bind fun matchingBatches =>
  (matchingBatches.foldlM (fun results (batch : MutationBatch V) =>
    batch.mutations.foldlM (applyMutation query batch.localWriteTime) results)
    (v.addMissingBaseDocuments matchingBatches results)).map fun unfiltered =>
  unfiltered.toList.foldl (fun results kv =>
    if query.matchesDocument kv.2 then results else results.erase kv.1) unfiltered

/-- Collection groups are left out. -/
def getDocumentsMatchingQuery (query : Query V) (sinceReadTime : SnapshotVersion) :
    Option (DocumentMap V) :=
  if query.isDocumentQuery then v.getDocumentsMatchingDocumentQuery query.path
  else v.getDocumentsMatchingCollectionQuery query sinceReadTime

end LocalDocumentsView

def pendingView (batches : List (MutationBatch V)) (key : DocumentKey)
    (doc : Option (MaybeDocument V)) : Option (MaybeDocument V) :=
  batches.foldl (fun doc (batch : MutationBatch V) => batch.localView key doc) doc

section PendingView
variable {batches : List (MutationBatch V)} {key : DocumentKey}
  {doc doc' : Option (MaybeDocument V)}

theorem foldlM_applyToLocalDocument (h : HasKey doc key) :
    batches.foldlM (fun doc batch => batch.applyToLocalDocument doc key) doc =
        some (pendingView batches key doc) ∧ HasKey (pendingView batches key doc) key :=
  Loops.foldlM_total (fun doc (batch : MutationBatch V) => batch.localView key doc) (HasKey · key) h
    fun _ _ _ hdoc => ⟨(MutationBatch.applyToLocalDocument_eq hdoc).1,
      MutationBatch.hasKey_localView hdoc _⟩

theorem hasKey_pendingView (h : HasKey doc key) (batches : List (MutationBatch V)) :
    HasKey (pendingView batches key doc) key := (foldlM_applyToLocalDocument h).2

theorem pendingView_filter (hbase : ∀ b ∈ batches, b.BaseAffected) (h : HasKey doc key)
    {p : MutationBatch V → Bool} (hp : ∀ b ∈ batches, b.affects key → p b) :
    pendingView (batches.filter p) key doc = pendingView batches key doc := by
  unfold pendingView
  induction batches generalizing doc with
  | nil => rfl
  | cons b batches ih =>
    have ih := fun {doc} (h : HasKey doc key) =>
      ih (fun b hb => hbase b (List.mem_cons_of_mem _ hb))
      h fun b hb => hp b (List.mem_cons_of_mem _ hb)
    by_cases hpb : p b
    · rw [List.filter_cons_of_pos hpb, List.foldl_cons, List.foldl_cons]
      exact ih (MutationBatch.hasKey_localView h b)
    · have hnot : ¬b.affects key := fun haffects => hpb (hp b List.mem_cons_self haffects)
      rw [List.filter_cons_of_neg hpb, List.foldl_cons,
        MutationBatch.localView_of_not_affects (hbase b List.mem_cons_self) hnot h]
      exact ih h

theorem found_pendingView_congr (h : HasKey doc key) (h' : HasKey doc' key)
    (hdoc : found doc = found doc') :
    found (pendingView batches key doc) = found (pendingView batches key doc') :=
  (List.foldl_rel (r := fun x x' => HasKey x key ∧ HasKey x' key ∧ found x = found x')
    ⟨h, h', hdoc⟩ fun b _ _ _ hx => ⟨MutationBatch.hasKey_localView hx.1 b,
      MutationBatch.hasKey_localView hx.2.1 b,
      MutationBatch.found_localView_congr hx.1 hx.2.1 hx.2.2⟩).2.2

end PendingView

namespace LocalDocumentsView
variable {v : LocalDocumentsView V} {key : DocumentKey}

structure Sound (v : LocalDocumentsView V) : Prop where
  queue : v.mutationQueue.WellFormed
  based : ∀ b ∈ v.mutationQueue.queue, b.BaseAffected

/-- What the client knows of a document: what the backend sent, with all pending batches. -/
def localView (v : LocalDocumentsView V) (key : DocumentKey) : Option (MaybeDocument V) :=
  pendingView v.mutationQueue.queue key (v.remoteDocumentCache.get key)

omit [ObjectValue V] in
theorem hasKey_get (c : MemoryRemoteDocumentCache V) (key : DocumentKey) :
    HasKey (c.get key) key := by
  intro d hd
  obtain ⟨x, hx, rfl⟩ := Option.map_eq_some_iff.mp hd
  exact c.key_eq hx

theorem hasKey_localView (v : LocalDocumentsView V) (key : DocumentKey) :
    HasKey (v.localView key) key := hasKey_pendingView (hasKey_get _ key) _

theorem Sound.getDocument_eq (h : v.Sound) (key : DocumentKey) :
    v.getDocument key = some (v.localView key) := by
  unfold getDocument
  rw [h.queue.affectingDocumentKey_eq, Option.bind_some,
    (foldlM_applyToLocalDocument (hasKey_get _ key)).1,
    pendingView_filter h.based (hasKey_get _ key) fun _ _ haffects => haffects]
  rfl

omit [ObjectValue V] in
theorem getAll_eq (c : MemoryRemoteDocumentCache V) (keys : DocumentKeySet) (key : DocumentKey) :
    (c.getAll keys)[key]? = if key ∈ keys then some (c.get key) else none := by
  unfold MemoryRemoteDocumentCache.getAll
  rw [Loops.getElem?_fill, Std.ExtTreeMap.getElem?_empty]
  simp only [Std.ExtTreeSet.mem_toList]

def KeyedDocs (docs : OptionalMaybeDocumentMap V) : Prop :=
  ∀ k doc, docs[k]? = some doc → HasKey doc k

theorem applyLocalMutationsToDocuments_eq {docs : OptionalMaybeDocumentMap V} (h : KeyedDocs docs)
    (batches : List (MutationBatch V)) :
    ∃ results, applyLocalMutationsToDocuments docs batches = some results ∧
      ∀ k, results[k]? = docs[k]?.map (pendingView batches k) := by
  have hkeyed : ∀ e ∈ docs.toList, HasKey e.2 e.1 := fun e he =>
    h e.1 e.2 (Std.ExtTreeMap.mem_toList_iff_getElem?_eq_some.mp he)
  obtain ⟨hloop, -⟩ := Loops.foldlM_total (l := docs.toList)
    (f := fun (results : OptionalMaybeDocumentMap V) kv =>
      (batches.foldlM (fun localView (batch : MutationBatch V) =>
        batch.applyToLocalDocument localView kv.1) kv.2).map fun localView =>
          results.insert kv.1 localView)
    (fun results kv => results.insert kv.1 (pendingView batches kv.1 kv.2)) (fun _ => True)
    (b := ∅) trivial fun results kv hkv _ => by
      rw [(foldlM_applyToLocalDocument (hkeyed kv hkv)).1]
      exact ⟨rfl, trivial⟩
  refine ⟨_, hloop, fun k => ?_⟩
  have hcollect := Loops.getElem?_collect (fun k doc => some (pendingView batches k doc)) docs k
  refine hcollect.trans ?_
  cases docs[k]? <;> rfl

omit [ObjectValue V] in
theorem mem_allKeys {baseDocs : OptionalMaybeDocumentMap V} {k : DocumentKey} :
    k ∈ allKeys baseDocs ↔ (baseDocs[k]?).isSome := by
  unfold allKeys
  rw [Loops.mem_foldl_insert, Option.isSome_iff_exists]
  constructor
  · rintro (hk | ⟨e, he, rfl⟩)
    · simp at hk
    · exact ⟨e.2, Std.ExtTreeMap.mem_toList_iff_getElem?_eq_some.mp he⟩
  · rintro ⟨doc, hdoc⟩
    exact .inr ⟨(k, doc), Std.ExtTreeMap.mem_toList_iff_getElem?_eq_some.mpr hdoc, rfl⟩

theorem Sound.getLocalViewOfDocuments_eq (h : v.Sound) {baseDocs : OptionalMaybeDocumentMap V}
    (hdocs : KeyedDocs baseDocs) :
    ∃ m, v.getLocalViewOfDocuments baseDocs = some m ∧ ∀ k, m[k]? = baseDocs[k]?.map fun doc =>
      (pendingView v.mutationQueue.queue k doc).getD (.noDocument k .none false) := by
  obtain ⟨docs, happly, hresults⟩ := applyLocalMutationsToDocuments_eq hdocs
    (v.mutationQueue.queue.filter fun batch =>
      batch.mutations.any fun m => (allKeys baseDocs).contains m.key)
  unfold getLocalViewOfDocuments
  rw [h.queue.affectingDocumentKeys_eq, Option.bind_some, happly]
  refine ⟨_, rfl, fun k => ?_⟩
  have hcollect := Loops.getElem?_collect
    (fun k (doc : Option (MaybeDocument V)) => some (doc.getD (.noDocument k .none false))) docs k
  refine hcollect.trans ?_
  rw [hresults]
  cases hk : baseDocs[k]? with
  | none => rfl
  | some doc =>
    have hsame := pendingView_filter h.based (hdocs k doc hk) (p := fun batch =>
      batch.mutations.any fun m => (allKeys baseDocs).contains m.key) fun b _ haffects => by
      obtain ⟨m, hm, hmkey⟩ := MutationBatch.affects_iff.mp haffects
      refine List.any_eq_true.mpr ⟨m, hm, ?_⟩
      rw [← Std.ExtTreeSet.mem_iff_contains, hmkey, mem_allKeys, hk]
      rfl
    simp [hsame]

theorem Sound.getDocuments_eq (h : v.Sound) (keys : DocumentKeySet) :
    ∃ m, v.getDocuments keys = some m ∧ ∀ k, m[k]? =
      if k ∈ keys then some ((v.localView k).getD (.noDocument k .none false)) else none := by
  have hdocs : KeyedDocs (v.remoteDocumentCache.getAll keys) := by
    intro k doc hk
    rw [getAll_eq] at hk
    split_ifs at hk
    exact Option.some.inj hk ▸ hasKey_get _ k
  obtain ⟨m, hm, hresults⟩ := h.getLocalViewOfDocuments_eq hdocs
  refine ⟨m, hm, fun k => ?_⟩
  rw [hresults, getAll_eq]
  split_ifs <;> rfl

end LocalDocumentsView
end Firestore
