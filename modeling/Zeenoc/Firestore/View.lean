import Zeenoc.Firestore.ViewSnapshot

/-! The view of a query (`view.cc`): it works out what a set of changed documents does to the
documents that it shows. A failed `HARD_ASSERT` is `none`. -/

namespace Firestore
variable {V : Type}

/-- `SyncState`; `fromCache` is its `Local`. -/
inductive SyncState where
  | none
  | fromCache
  | synced
  deriving DecidableEq

structure ViewDocumentChanges (q : Query V) where
  documentSet : DocumentSet q.comparator
  changeSet : DocumentViewChangeSet V
  mutatedKeys : DocumentKeySet
  needsRefill : Bool

structure View (q : Query V) where
  documentSet : DocumentSet q.comparator
  syncedDocuments : DocumentKeySet
  limboDocuments : DocumentKeySet
  mutatedKeys : DocumentKeySet
  syncState : SyncState
  current : Bool

variable {q : Query V}

def View.new (remoteDocuments : DocumentKeySet) : View q where
  documentSet := .empty
  syncedDocuments := remoteDocuments
  limboDocuments := ∅
  mutatedKeys := ∅
  syncState := .none
  current := false

/-- What `ComputeDocumentChanges` compares each changed document with. -/
structure Pass (q : Query V) where
  oldDocumentSet : DocumentSet q.comparator
  oldMutatedKeys : DocumentKeySet
  lastDocInLimit : Option (Document V)
  firstDocInLimit : Option (Document V)

def shouldWaitForSyncedDocument (newDoc oldDoc : Document V) : Bool :=
  oldDoc.hasLocalMutations && newDoc.hasCommittedMutations && !newDoc.hasLocalMutations

def newDocument (q : Query V) (key : DocumentKey) (maybeNewDoc : MaybeDocument V) :
    Option (Option (Document V)) :=
  match maybeNewDoc.document? with
  | none => some none
  | some newDoc =>
    if newDoc.key = key then some (if q.matchesDocument newDoc then some newDoc else none)
    else none

namespace Pass
variable (p : Pass q)

def outsideLimit (newDoc : Document V) : Bool :=
  (p.lastDocInLimit.any fun last => q.comparator.compare newDoc last = .gt) ||
    p.firstDocInLimit.any fun first => q.comparator.compare newDoc first = .lt

def calculateChange [DecidableEq V] (key : DocumentKey) :
    Option (Document V) → Option (Document V) → Option (DocumentViewChange V) × Bool
  | some oldDoc, some newDoc =>
    if oldDoc.data ≠ newDoc.data then
      if shouldWaitForSyncedDocument newDoc oldDoc then (none, false)
      else (some ⟨newDoc, .modified⟩, p.outsideLimit newDoc)
    else
      let oldDocHadPendingMutations := p.oldMutatedKeys.contains key
      let newDocHasPendingMutations := newDoc.hasLocalMutations ||
        (p.oldMutatedKeys.contains key && newDoc.hasCommittedMutations)
      if oldDocHadPendingMutations ≠ newDocHasPendingMutations then
        (some ⟨newDoc, .metadata⟩, false)
      else (none, false)
  | none, some newDoc => (some ⟨newDoc, .added⟩, false)
  | some oldDoc, none =>
    (some ⟨oldDoc, .removed⟩, p.lastDocInLimit.isSome || p.firstDocInLimit.isSome)
  | none, none => (none, false)

def apply (acc : ViewDocumentChanges q) (changeSet : DocumentViewChangeSet V) (key : DocumentKey)
    (newDoc : Option (Document V)) (refill : Bool) : ViewDocumentChanges q :=
  match newDoc with
  | some newDoc => {
      documentSet := acc.documentSet.insert newDoc
      changeSet := changeSet
      mutatedKeys := if newDoc.hasLocalMutations then acc.mutatedKeys.insert key
        else acc.mutatedKeys.erase key
      needsRefill := acc.needsRefill || refill }
  | none => {
      documentSet := acc.documentSet.erase key
      changeSet := changeSet
      mutatedKeys := acc.mutatedKeys.erase key
      needsRefill := acc.needsRefill || refill }

def step [DecidableEq V] (acc : ViewDocumentChanges q) (entry : DocumentKey × MaybeDocument V) :
    Option (ViewDocumentChanges q) :=
  (newDocument q entry.1 entry.2).bind fun newDoc =>
    match p.calculateChange entry.1 (p.oldDocumentSet.getDocument entry.1) newDoc with
    | (none, _) => some acc
    | (some change, refill) => (acc.changeSet.addChange change).map fun changeSet =>
        apply acc changeSet entry.1 newDoc refill

end Pass

namespace ViewDocumentChanges

def drop : ℕ → ViewDocumentChanges q → Option (ViewDocumentChanges q)
  | 0, acc => some acc
  | i + 1, acc =>
    (if q.limitType = .first then acc.documentSet.getLastDocument
      else acc.documentSet.getFirstDocument).bind fun oldDoc =>
    (acc.changeSet.addChange ⟨oldDoc, .removed⟩).bind fun changeSet =>
    drop i {
      documentSet := acc.documentSet.erase oldDoc.key
      changeSet := changeSet
      mutatedKeys := acc.mutatedKeys.erase oldDoc.key
      needsRefill := acc.needsRefill }

def applyLimit (acc : ViewDocumentChanges q) : Option (ViewDocumentChanges q) :=
  if q.limitType ≠ .none ∧ q.limit < acc.documentSet.size then
    drop (acc.documentSet.size - q.limit) acc
  else some acc

end ViewDocumentChanges

namespace View
variable (v : View q)

def start (previousChanges : Option (ViewDocumentChanges q)) : ViewDocumentChanges q :=
  match previousChanges with
  | none => ⟨v.documentSet, ∅, v.mutatedKeys, false⟩
  | some previous => ⟨previous.documentSet, previous.changeSet, previous.mutatedKeys, false⟩

def pass (previousChanges : Option (ViewDocumentChanges q)) : Pass q where
  oldDocumentSet := (v.start previousChanges).documentSet
  oldMutatedKeys := v.mutatedKeys
  lastDocInLimit :=
    if q.limitType = .first ∧ (v.start previousChanges).documentSet.size = q.limit then
      (v.start previousChanges).documentSet.getLastDocument
    else none
  firstDocInLimit :=
    if q.limitType = .last ∧ (v.start previousChanges).documentSet.size = q.limit then
      (v.start previousChanges).documentSet.getFirstDocument
    else none

def computeDocumentChanges [DecidableEq V] (docChanges : MaybeDocumentMap V)
    (previousChanges : Option (ViewDocumentChanges q)) : Option (ViewDocumentChanges q) :=
  (docChanges.toList.foldlM (v.pass previousChanges).step (v.start previousChanges)).bind
    fun acc => acc.applyLimit.bind fun acc =>
      if acc.needsRefill ∧ previousChanges.isSome then none else some acc

end View

/-- The part of a `TargetChange` that a view reads. -/
structure TargetChange where
  current : Bool
  addedDocuments : DocumentKeySet
  modifiedDocuments : DocumentKeySet
  removedDocuments : DocumentKeySet

inductive OnlineState where
  | unknown
  | online
  | offline
  deriving DecidableEq

inductive LimboDocumentChange where
  | added (key : DocumentKey)
  | removed (key : DocumentKey)
  deriving DecidableEq

structure ViewSnapshot (q : Query V) where
  documents : DocumentSet q.comparator
  oldDocuments : DocumentSet q.comparator
  documentChanges : List (DocumentViewChange V)
  mutatedKeys : DocumentKeySet
  fromCache : Bool
  syncStateChanged : Bool
  excludesMetadataChanges : Bool

def ViewSnapshot.hasPendingWrites (s : ViewSnapshot q) : Bool := !s.mutatedKeys.isEmpty

structure ViewChange (q : Query V) where
  snapshot : Option (ViewSnapshot q)
  limboChanges : List LimboDocumentChange

/-- `GetDocumentViewChangeTypePosition` -/
def ViewChangeType.position : ViewChangeType → ℕ
  | .removed => 0
  | .added => 1
  | .modified => 2
  | .metadata => 2

def changeOrder (c : DocumentComparator V) : DocumentViewChange V → DocumentViewChange V →
    Ordering :=
  compareLex (compareOn fun change => change.type.position)
    fun lhs rhs => c.compare lhs.document rhs.document

def sortChanges (c : DocumentComparator V) (changes : List (DocumentViewChange V)) :
    List (DocumentViewChange V) :=
  changes.mergeSort fun lhs rhs => (changeOrder c lhs rhs).isLE

namespace View
variable (v : View q)

def shouldBeInLimbo (key : DocumentKey) : Bool :=
  !v.syncedDocuments.contains key &&
    (v.documentSet.getDocument key).any fun d => !d.hasLocalMutations

def applyTargetChange : Option TargetChange → Option (View q)
  | none => some v
  | some change =>
    let syncedDocuments := v.syncedDocuments ∪ change.addedDocuments
    if change.modifiedDocuments.toList.all syncedDocuments.contains then
      some { v with
        syncedDocuments := syncedDocuments \ change.removedDocuments
        current := change.current }
    else none

def updateLimboDocuments : View q × List LimboDocumentChange :=
  if v.current then
    let oldLimboDocuments := v.limboDocuments
    let limboDocuments := v.documentSet.sortedSet.foldl (fun limbo d =>
      if v.shouldBeInLimbo d.key then limbo.insert d.key else limbo) ∅
    ({ v with limboDocuments := limboDocuments },
      (oldLimboDocuments.toList.filter fun key => !limboDocuments.contains key).map .removed ++
        (limboDocuments.toList.filter fun key => !oldLimboDocuments.contains key).map .added)
  else (v, [])

def newSyncState : SyncState :=
  if v.limboDocuments.isEmpty && v.current then .synced else .fromCache

def newSnapshot (docChanges : ViewDocumentChanges q) (newSyncState : SyncState) :
    Option (ViewSnapshot q) :=
  let changes := sortChanges q.comparator docChanges.changeSet.getChanges
  let syncStateChanged : Bool := newSyncState ≠ v.syncState
  if changes.isEmpty && !syncStateChanged then none
  else some {
    documents := docChanges.documentSet
    oldDocuments := v.documentSet
    documentChanges := changes
    mutatedKeys := docChanges.mutatedKeys
    fromCache := newSyncState = .fromCache
    syncStateChanged := syncStateChanged
    excludesMetadataChanges := false }

def applyChanges (docChanges : ViewDocumentChanges q) (targetChange : Option TargetChange) :
    Option (View q × ViewChange q) :=
  if docChanges.needsRefill then none else
  (applyTargetChange { v with
    documentSet := docChanges.documentSet
    mutatedKeys := docChanges.mutatedKeys } targetChange).map fun updated =>
    let limbo := updated.updateLimboDocuments
    let newSyncState := limbo.1.newSyncState
    ({ limbo.1 with syncState := newSyncState },
      { snapshot := v.newSnapshot docChanges newSyncState, limboChanges := limbo.2 })

def applyOnlineStateChange (onlineState : OnlineState) : Option (View q × ViewChange q) :=
  if v.current && onlineState = .offline then
    applyChanges { v with current := false } ⟨v.documentSet, ∅, v.mutatedKeys, false⟩ none
  else some (v, ⟨none, []⟩)

/-- One view in `SyncEngine::EmitNewSnapshotsAndNotifyLocalStore`; `results` is what
`ExecuteQuery` finds in the local store. -/
def emitNewSnapshot [DecidableEq V] (changes results : MaybeDocumentMap V)
    (targetChange : Option TargetChange) : Option (View q × ViewChange q) :=
  (v.computeDocumentChanges changes none).bind fun viewDocChanges =>
  (if viewDocChanges.needsRefill then v.computeDocumentChanges results (some viewDocChanges)
    else some viewDocChanges).bind fun viewDocChanges =>
  v.applyChanges viewDocChanges targetChange

end View

/-- `SyncEngine::InitializeViewAndComputeSnapshot`; the sync state is that of a view which listens
to the same target, if there is one. -/
def initializeView [DecidableEq V] (q : Query V) (results : MaybeDocumentMap V)
    (remoteKeys : DocumentKeySet) (mirror : Option SyncState) : Option (View q × ViewChange q) :=
  ((View.new remoteKeys : View q).computeDocumentChanges results none).bind fun viewDocChanges =>
  (View.new remoteKeys).applyChanges viewDocChanges
    (mirror.map fun syncState => ⟨syncState = .synced, ∅, ∅, ∅⟩)

end Firestore
