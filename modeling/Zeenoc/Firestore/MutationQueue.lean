import Zeenoc.Firestore.Mutation
import Zeenoc.Firestore.Query
import Zeenoc.Library.KeyedList
import Zeenoc.Library.Runs

/-! The batches that the backend has yet to acknowledge, and their index by document key:
`memory_mutation_queue.cc`, `document_key_reference.cc`. A failed `HARD_ASSERT` is `none`. -/

namespace Firestore

structure DocumentKeyReference where
  key : DocumentKey
  refId : ℤ
  deriving DecidableEq

namespace DocumentKeyReference

/-- `ByKey::Compare` -/
instance : Ord DocumentKeyReference := ⟨compareLex (compareOn key) (compareOn refId)⟩

instance : Std.TransOrd DocumentKeyReference :=
  inferInstanceAs (Std.TransCmp (compareLex (compareOn key) (compareOn refId)))

instance : Std.LawfulEqOrd DocumentKeyReference where
  eq_of_compare {a b} h := by
    obtain ⟨hkey, hid⟩ := Ordering.then_eq_eq.mp h
    have hkey : a.key = b.key := Std.LawfulEqCmp.eq_of_compare hkey
    have hid : a.refId = b.refId := Std.LawfulEqCmp.eq_of_compare hid
    cases a; cases b; simp_all

end DocumentKeyReference

section Scans
variable {path : ResourcePath} {a b : DocumentKey}

/-- Where a scan for documents below a path begins: the empty segment comes before all others. -/
def startKey (path : ResourcePath) : DocumentKey :=
  if h : path.length % 2 = 0 then ⟨path, h⟩ else ⟨path ++ [""], by simp; omega⟩

theorem compare_empty_segment (s : String) : compare s "" ≠ .lt := by
  change compareOfLessAndEq s "" ≠ .lt
  have hlt : ¬s < "" := by
    intro h
    change s.toList < [] at h
    exact List.not_lt_nil _ h
  unfold compareOfLessAndEq
  rw [if_neg hlt]
  split_ifs <;> simp

theorem exists_startKey (path : ResourcePath) : ∃ rest, (startKey path).path = path ++ rest := by
  unfold startKey
  split_ifs
  · exact ⟨[], (List.append_nil _).symm⟩
  · exact ⟨[""], rfl⟩

theorem not_lt_startKey (h : path.isPrefixOf a.path) : compare a (startKey path) ≠ .lt := by
  obtain ⟨rest, hrest⟩ := List.isPrefixOf_iff_prefix.mp h
  change compare a.path (startKey path).path ≠ .lt
  rw [← hrest]
  unfold startKey
  split_ifs with heven
  · have hsame := SortedList.compare_append path rest []
    rw [List.append_nil] at hsame
    rw [hsame]
    cases rest <;> simp [List.compare_cons_nil]
  · rw [SortedList.compare_append]
    cases rest with
    | nil =>
      have := a.isDocumentKey
      rw [← hrest, List.append_nil] at this
      exact absurd this heven
    | cons s rest =>
      rw [List.compare_cons_cons]
      cases hs : compare s "" with
      | lt => exact absurd hs (compare_empty_segment s)
      | eq => cases rest <;> simp [List.compare_cons_nil]
      | gt => simp

theorem isPrefixOf_of_le (ha : compare a (startKey path) ≠ .lt) (hab : compare a b ≠ .gt)
    (h : path.isPrefixOf b.path) : path.isPrefixOf a.path := by
  obtain ⟨rest, hrest⟩ := List.isPrefixOf_iff_prefix.mp h
  obtain ⟨start, hstart⟩ := exists_startKey path
  change compare a.path (startKey path).path ≠ .lt at ha
  change compare a.path b.path ≠ .gt at hab
  rw [hstart] at ha
  rw [← hrest] at hab
  exact List.isPrefixOf_iff_prefix.mpr (SortedList.isPrefix_of_between ha hab)

end Scans

abbrev DocumentKeyReferences := Std.ExtTreeSet DocumentKeyReference

variable {V : Type} [ObjectValue V]

structure MemoryMutationQueue (V : Type) [ObjectValue V] where
  queue : List (MutationBatch V)
  nextBatchId : ℤ
  batchesByDocumentKey : DocumentKeyReferences

namespace MemoryMutationQueue
variable (q : MemoryMutationQueue V)

def new : MemoryMutationQueue V := ⟨[], 1, ∅⟩

def start : MemoryMutationQueue V := if q.queue.isEmpty then { q with nextBatchId := 1 } else q

def pushBack (batch : MutationBatch V) : MemoryMutationQueue V where
  queue := q.queue ++ [batch]
  nextBatchId := q.nextBatchId + 1
  batchesByDocumentKey := batch.mutations.foldl (fun references m =>
    references.insert ⟨m.key, batch.batchId⟩) q.batchesByDocumentKey

def addMutationBatch (localWriteTime : Timestamp) (baseMutations mutations : List (Mutation V)) :
    Option (MutationBatch V × MemoryMutationQueue V) :=
  if h : mutations ≠ [] then
    if q.queue.getLast?.all fun prior => prior.batchId < q.nextBatchId then
      let batch := ⟨q.nextBatchId, localWriteTime, baseMutations, mutations, h⟩
      some (batch, q.pushBack batch)
    else none
  else none

/-- It only checks that the batch is the first one. -/
def acknowledgeBatch (batch : MutationBatch V) : Option (MemoryMutationQueue V) :=
  if q.queue.head?.any fun check => batch.batchId = check.batchId then some q else none

/-- The reference delegate is one that does not collect at once: told of each key, it only notes the
sequence number. -/
def removeMutationBatch (batch : MutationBatch V) : Option (MemoryMutationQueue V) :=
  match q.queue with
  | [] => none
  | head :: rest =>
    if head.batchId = batch.batchId then
      some {
        queue := rest
        nextBatchId := q.nextBatchId
        batchesByDocumentKey := batch.mutations.foldl (fun references m =>
          references.erase ⟨m.key, batch.batchId⟩) q.batchesByDocumentKey }
    else none

def indexOfBatchId (batchId : ℤ) : ℤ :=
  match q.queue with
  | [] => 0
  | firstBatch :: _ => batchId - firstBatch.batchId

def lookupMutationBatch (batchId : ℤ) : Option (Option (MutationBatch V)) :=
  if q.indexOfBatchId batchId < 0 then some none
  else match q.queue[(q.indexOfBatchId batchId).toNat]? with
    | none => some none
    | some batch => if batch.batchId = batchId then some (some batch) else none

def allMutationBatchesWithIds (batchIds : Std.ExtTreeSet ℤ) :
    Option (List (MutationBatch V)) :=
  (batchIds.toList.mapM q.lookupMutationBatch).map fun batches => batches.filterMap id

def referencesTo (key : DocumentKey) : List DocumentKeyReference :=
  SortedList.scan (fun reference => compare reference ⟨key, 0⟩ = .lt)
    (fun reference => key = reference.key) q.batchesByDocumentKey.toList

def allMutationBatchesAffectingDocumentKey (key : DocumentKey) : Option (List (MutationBatch V)) :=
  (q.referencesTo key).mapM fun reference => (q.lookupMutationBatch reference.refId).bind id

def allMutationBatchesAffectingDocumentKeys (documentKeys : DocumentKeySet) :
    Option (List (MutationBatch V)) :=
  q.allMutationBatchesWithIds (documentKeys.toList.foldl (fun batchIds key =>
    (q.referencesTo key).foldl (fun batchIds reference => batchIds.insert reference.refId)
      batchIds) ∅)

def allMutationBatchesAffectingQuery (query : Query V) : Option (List (MutationBatch V)) :=
  if query.isCollectionGroupQuery then none
  else
    let references := SortedList.scan
      (fun reference => compare reference ⟨startKey query.path, 0⟩ = .lt)
      (fun reference => query.path.isPrefixOf reference.key.path)
      q.batchesByDocumentKey.toList
    q.allMutationBatchesWithIds (references.foldl (fun batchIds reference =>
      if reference.key.path.length ≠ query.path.length + 1 then batchIds
      else batchIds.insert reference.refId) ∅)

def nextMutationBatchAfterBatchId (batchId : ℤ) : Option (MutationBatch V) :=
  q.queue[(q.indexOfBatchId (batchId + 1)).toNat]?

def batchIdUnknown : ℤ := -1

def getHighestUnacknowledgedBatchId : ℤ :=
  if q.queue.isEmpty then batchIdUnknown else q.nextBatchId - 1

def performConsistencyCheck : Bool := !q.queue.isEmpty || q.batchesByDocumentKey.isEmpty

end MemoryMutationQueue

def isImmediateParentOf (path potentialChild : ResourcePath) : Bool :=
  path.length + 1 = potentialChild.length && path.isPrefixOf potentialChild

/-- The batches of a queue are numbered one after the other, and its index has just the documents
that they write to. -/
structure MemoryMutationQueue.WellFormed (q : MemoryMutationQueue V) : Prop where
  consecutive : ∀ (i : ℕ) (batch : MutationBatch V), q.queue[i]? = some batch →
    batch.batchId = q.nextBatchId - q.queue.length + i
  positive : q.queue.length < q.nextBatchId
  indexed : ∀ reference, reference ∈ q.batchesByDocumentKey ↔
    ∃ batch ∈ q.queue, batch.batchId = reference.refId ∧ batch.affects reference.key

namespace MemoryMutationQueue
variable {q : MemoryMutationQueue V}

def find (q : MemoryMutationQueue V) (batchId : ℤ) : Option (MutationBatch V) :=
  q.queue.find? fun batch => batch.batchId = batchId

namespace WellFormed

theorem sorted (h : q.WellFormed) :
    SortedList.Sorted compare (q.queue.map MutationBatch.batchId) := by
  unfold SortedList.Sorted
  rw [List.pairwise_map, List.pairwise_iff_getElem]
  intro i j hi hj hij
  rw [h.consecutive i _ (List.getElem?_eq_getElem hi), h.consecutive j _
    (List.getElem?_eq_getElem hj),
    compare_lt_iff_lt]
  omega

theorem find_of_mem (h : q.WellFormed) {batch : MutationBatch V} (hb : batch ∈ q.queue) :
    q.find batch.batchId = some batch :=
  KeyedList.find?_eq_some_of_nodup h.sorted.nodup hb

theorem mem_bounds (h : q.WellFormed) {batch : MutationBatch V} (hb : batch ∈ q.queue) :
    q.nextBatchId - q.queue.length ≤ batch.batchId ∧ batch.batchId < q.nextBatchId := by
  obtain ⟨i, hi⟩ := List.mem_iff_getElem?.mp hb
  obtain ⟨hlt, -⟩ := List.getElem?_eq_some_iff.mp hi
  rw [h.consecutive i batch hi]
  omega

theorem positive_id (h : q.WellFormed) {batch : MutationBatch V} (hb : batch ∈ q.queue) :
    0 < batch.batchId := by
  have := h.mem_bounds hb
  have := h.positive
  omega

theorem indexOfBatchId_eq (h : q.WellFormed) (hne : q.queue ≠ []) (batchId : ℤ) :
    q.indexOfBatchId batchId = batchId - (q.nextBatchId - q.queue.length) := by
  obtain ⟨first, rest, hq⟩ := List.exists_cons_of_ne_nil hne
  have hfirst := h.consecutive 0 first (by rw [hq]; rfl)
  unfold indexOfBatchId
  simp only [hq] at hfirst ⊢
  rw [hfirst]
  simp

theorem lookup_eq (h : q.WellFormed) (batchId : ℤ) :
    q.lookupMutationBatch batchId = some (q.find batchId) := by
  by_cases hne : q.queue = []
  · simp [lookupMutationBatch, indexOfBatchId, find, hne]
  · have hindex := h.indexOfBatchId_eq hne batchId
    unfold lookupMutationBatch
    split_ifs with hneg
    · have hnone : q.find batchId = none := by
        apply List.find?_eq_none.mpr
        intro batch hb
        have := h.mem_bounds hb
        simp only [decide_eq_true_eq]
        omega
      rw [hnone]
    · cases hget : q.queue[(q.indexOfBatchId batchId).toNat]? with
      | none =>
        have hlen := List.getElem?_eq_none_iff.mp hget
        have hnone : q.find batchId = none := by
          apply List.find?_eq_none.mpr
          intro batch hb
          have := h.mem_bounds hb
          simp only [decide_eq_true_eq]
          omega
        rw [hnone]
      | some batch =>
        have hid : batch.batchId = batchId := by
          rw [h.consecutive _ batch hget]
          omega
        have hfind := h.find_of_mem (List.mem_of_getElem? hget)
        rw [hid] at hfind
        simp only [hid, hfind, if_true]

theorem filterMap_find (h : q.WellFormed) {p : MutationBatch V → Bool} (ids : List ℤ)
    (hids : SortedList.Sorted compare ids)
    (hmem : ∀ id, id ∈ ids ↔ ∃ batch ∈ q.queue, batch.batchId = id ∧ p batch) :
    ids.map q.find = (q.queue.filter p).map some := by
  have hsame : ids = (q.queue.filter p).map MutationBatch.batchId := by
    apply hids.eq_of_mem_iff (h.sorted.sublist (List.filter_sublist.map _))
    intro id
    rw [hmem, List.mem_map]
    constructor
    · rintro ⟨batch, hb, rfl, hp⟩
      exact ⟨batch, List.mem_filter.mpr ⟨hb, hp⟩, rfl⟩
    · rintro ⟨batch, hb, rfl⟩
      obtain ⟨hb, hp⟩ := List.mem_filter.mp hb
      exact ⟨batch, hb, rfl, hp⟩
  rw [hsame, List.map_map]
  exact List.map_congr_left fun batch hb => h.find_of_mem (List.mem_of_mem_filter hb)

theorem withIds_eq (h : q.WellFormed) {p : MutationBatch V → Bool} {ids : Std.ExtTreeSet ℤ}
    (hmem : ∀ id, id ∈ ids ↔ ∃ batch ∈ q.queue, batch.batchId = id ∧ p batch) :
    q.allMutationBatchesWithIds ids = some (q.queue.filter p) := by
  have hlookup : q.lookupMutationBatch = fun id => some (q.find id) := funext h.lookup_eq
  have hfind := h.filterMap_find ids.toList Std.ExtTreeSet.ordered_toList
    fun id => Std.ExtTreeSet.mem_toList.trans (hmem id)
  unfold allMutationBatchesWithIds
  have hall : ids.toList.mapM (fun id => some (q.find id)) = some (ids.toList.map q.find) :=
    List.mapM_pure
  rw [hlookup, hall, hfind]
  simp

theorem mem_referencesTo (h : q.WellFormed) (key : DocumentKey) :
    q.referencesTo key = q.batchesByDocumentKey.toList.filter fun r => key = r.key := by
  apply SortedList.Sorted.scan_from_eq_filter Std.ExtTreeSet.ordered_toList
  · intro r hr hkey
    obtain ⟨batch, hb, hid, -⟩ := (h.indexed r).mp (Std.ExtTreeSet.mem_toList.mp hr)
    have hpos := h.positive_id hb
    have hkey : key = r.key := by simpa using hkey
    change (compare r.key key).then (compare r.refId 0) ≠ .lt
    rw [hkey, Std.ReflOrd.compare_self, Ordering.eq_then, ne_eq, compare_lt_iff_lt]
    omega
  · intro a ha b hb hstart hab hkey
    have hkey : key = b.key := by simpa using hkey
    change (compare a.key key).then (compare a.refId 0) ≠ .lt at hstart
    change (compare a.key b.key).then (compare a.refId b.refId) = .lt at hab
    rw [← hkey] at hab
    cases hcmp : compare a.key key with
    | lt => simp [hcmp] at hstart
    | gt => simp [hcmp] at hab
    | eq => simpa using (Std.LawfulEqCmp.eq_of_compare hcmp).symm

theorem affectingDocumentKey_eq (h : q.WellFormed) (key : DocumentKey) :
    q.allMutationBatchesAffectingDocumentKey key =
      some (q.queue.filter fun batch => batch.affects key) := by
  have hrefs := h.mem_referencesTo key
  have hsorted : SortedList.Sorted compare
      ((q.referencesTo key).map DocumentKeyReference.refId) := by
    rw [hrefs]
    refine List.pairwise_map.mpr (List.Pairwise.imp_of_mem ?_
      (Std.ExtTreeSet.ordered_toList.sublist List.filter_sublist))
    intro a b ha hb hab
    have ha : key = a.key := by simpa using List.of_mem_filter ha
    have hb : key = b.key := by simpa using List.of_mem_filter hb
    change (compare a.key b.key).then (compare a.refId b.refId) = .lt at hab
    rwa [← ha, ← hb, Std.ReflOrd.compare_self, Ordering.eq_then] at hab
  have hmem : ∀ id, id ∈ (q.referencesTo key).map DocumentKeyReference.refId ↔
      ∃ batch ∈ q.queue, batch.batchId = id ∧ batch.affects key := by
    intro id
    rw [hrefs, List.mem_map]
    constructor
    · rintro ⟨r, hr, rfl⟩
      obtain ⟨hmem, hkey⟩ := List.mem_filter.mp hr
      obtain rfl : key = r.key := by simpa using hkey
      exact (h.indexed r).mp (Std.ExtTreeSet.mem_toList.mp hmem)
    · intro hbatch
      exact ⟨⟨key, id⟩, List.mem_filter.mpr
        ⟨Std.ExtTreeSet.mem_toList.mpr ((h.indexed ⟨key, id⟩).mpr hbatch), by simp⟩, rfl⟩
  have hfind := h.filterMap_find _ hsorted hmem
  rw [List.map_map] at hfind
  have hlookup : (fun r : DocumentKeyReference => (q.lookupMutationBatch r.refId).bind id) =
      q.find ∘ DocumentKeyReference.refId := by
    funext r
    rw [h.lookup_eq]
    rfl
  unfold allMutationBatchesAffectingDocumentKey
  rw [hlookup]
  exact Loops.mapM_of_map_eq hfind

theorem affectingDocumentKeys_eq (h : q.WellFormed) (keys : DocumentKeySet) :
    q.allMutationBatchesAffectingDocumentKeys keys =
      some (q.queue.filter fun batch => batch.mutations.any fun m => keys.contains m.key) := by
  apply h.withIds_eq
  have hfold : ∀ (l : List DocumentKey) (ids : Std.ExtTreeSet ℤ) (id : ℤ),
      id ∈ l.foldl (fun ids key => (q.referencesTo key).foldl (fun ids r => ids.insert r.refId) ids)
        ids ↔ id ∈ ids ∨ ∃ key ∈ l, ∃ r ∈ q.referencesTo key, r.refId = id := by
    intro l
    induction l with
    | nil => simp
    | cons key l ih =>
      intro ids id
      rw [List.foldl_cons, ih, Loops.mem_foldl_insert, List.exists_mem_cons_iff, or_assoc]
  intro id
  rw [hfold]
  constructor
  · rintro (hid | ⟨key, hkey, r, hr, rfl⟩)
    · simp at hid
    · rw [h.mem_referencesTo] at hr
      obtain ⟨hmem, hrkey⟩ := List.mem_filter.mp hr
      obtain rfl : key = r.key := by simpa using hrkey
      obtain ⟨batch, hb, hid, haffects⟩ := (h.indexed r).mp (Std.ExtTreeSet.mem_toList.mp hmem)
      obtain ⟨m, hm, hmkey⟩ := MutationBatch.affects_iff.mp haffects
      refine ⟨batch, hb, hid, List.any_eq_true.mpr ⟨m, hm, ?_⟩⟩
      rw [hmkey, ← Std.ExtTreeSet.mem_iff_contains]
      exact Std.ExtTreeSet.mem_toList.mp hkey
  · rintro ⟨batch, hb, rfl, hany⟩
    obtain ⟨m, hm, hkey⟩ := List.any_eq_true.mp hany
    refine .inr ⟨m.key, Std.ExtTreeSet.mem_toList.mpr (Std.ExtTreeSet.mem_iff_contains.mpr hkey),
      ⟨m.key, batch.batchId⟩, ?_, rfl⟩
    rw [h.mem_referencesTo]
    refine List.mem_filter.mpr ⟨Std.ExtTreeSet.mem_toList.mpr ((h.indexed _).mpr
      ⟨batch, hb, rfl, MutationBatch.affects_iff.mpr ⟨m, hm, rfl⟩⟩), by simp⟩

theorem affectingQuery_eq (h : q.WellFormed) {query : Query V}
    (hgroup : query.collectionGroup = none) :
    q.allMutationBatchesAffectingQuery query = some (q.queue.filter fun batch =>
      batch.mutations.any fun m => isImmediateParentOf query.path m.key.path) := by
  have hscan : SortedList.scan
      (fun reference : DocumentKeyReference => compare reference ⟨startKey query.path, 0⟩ = .lt)
      (fun reference => query.path.isPrefixOf reference.key.path) q.batchesByDocumentKey.toList =
      q.batchesByDocumentKey.toList.filter fun r => query.path.isPrefixOf r.key.path := by
    apply SortedList.Sorted.scan_from_eq_filter Std.ExtTreeSet.ordered_toList
    · intro r hr hprefix
      obtain ⟨batch, hb, hid, -⟩ := (h.indexed r).mp (Std.ExtTreeSet.mem_toList.mp hr)
      have hpos := h.positive_id hb
      change (compare r.key (startKey query.path)).then (compare r.refId 0) ≠ .lt
      cases hcmp : compare r.key (startKey query.path) with
      | lt => exact absurd hcmp (not_lt_startKey hprefix)
      | gt => simp
      | eq =>
        rw [Ordering.eq_then, ne_eq, compare_lt_iff_lt]
        omega
    · intro a ha b hb hstart hab hprefix
      change (compare a.key (startKey query.path)).then (compare a.refId 0) ≠ .lt at hstart
      change (compare a.key b.key).then (compare a.refId b.refId) = .lt at hab
      refine isPrefixOf_of_le (b := b.key) (fun hlt => ?_) (fun hgt => ?_) hprefix
      · simp [hlt] at hstart
      · simp [hgt] at hab
  unfold allMutationBatchesAffectingQuery
  rw [Query.isCollectionGroupQuery, hgroup, Option.isSome_none, if_neg (by simp), hscan]
  apply h.withIds_eq
  intro id
  -- documents of deeper collections are skipped
  have hskip : ∀ (l : List DocumentKeyReference) (ids : Std.ExtTreeSet ℤ),
      l.foldl (fun ids r =>
        if r.key.path.length ≠ query.path.length + 1 then ids else ids.insert r.refId) ids =
      (l.filter fun r => r.key.path.length = query.path.length + 1).foldl (fun ids r =>
        ids.insert r.refId) ids := by
    intro l
    induction l with
    | nil => intro ids; rfl
    | cons r l ih =>
      intro ids
      by_cases hlen : r.key.path.length = query.path.length + 1
      · rw [List.foldl_cons, if_neg (not_not.mpr hlen),
          List.filter_cons_of_pos (by simpa using hlen), List.foldl_cons, ih]
      · rw [List.foldl_cons, if_pos hlen, List.filter_cons_of_neg (by simpa using hlen), ih]
  rw [hskip, Loops.mem_foldl_insert]
  constructor
  · rintro (hid | ⟨r, hr, rfl⟩)
    · simp at hid
    · obtain ⟨hr, hlen⟩ := List.mem_filter.mp hr
      obtain ⟨hr, hprefix⟩ := List.mem_filter.mp hr
      obtain ⟨batch, hb, hid, haffects⟩ := (h.indexed r).mp (Std.ExtTreeSet.mem_toList.mp hr)
      obtain ⟨m, hm, hmkey⟩ := MutationBatch.affects_iff.mp haffects
      have hlen : r.key.path.length = query.path.length + 1 := by simpa using hlen
      refine ⟨batch, hb, hid, List.any_eq_true.mpr ⟨m, hm, ?_⟩⟩
      simp [isImmediateParentOf, hmkey, hprefix, hlen]
  · rintro ⟨batch, hb, rfl, hany⟩
    obtain ⟨m, hm, hparent⟩ := List.any_eq_true.mp hany
    obtain ⟨hlen, hprefix⟩ := Bool.and_eq_true_iff.mp hparent
    have hlen : query.path.length + 1 = m.key.path.length := by simpa using hlen
    refine .inr ⟨⟨m.key, batch.batchId⟩, List.mem_filter.mpr ⟨List.mem_filter.mpr
      ⟨Std.ExtTreeSet.mem_toList.mpr ((h.indexed _).mpr
        ⟨batch, hb, rfl, MutationBatch.affects_iff.mpr ⟨m, hm, rfl⟩⟩), hprefix⟩, ?_⟩, rfl⟩
    simpa using hlen.symm

theorem nextMutationBatch_eq (h : q.WellFormed) (batchId : ℤ) :
    q.nextMutationBatchAfterBatchId batchId = q.queue.find? fun b => batchId < b.batchId := by
  by_cases hne : q.queue = []
  · simp [nextMutationBatchAfterBatchId, hne]
  · have hindex := h.indexOfBatchId_eq hne (batchId + 1)
    unfold nextMutationBatchAfterBatchId
    cases hget : q.queue[(q.indexOfBatchId (batchId + 1)).toNat]? with
    | none =>
      have hlen := List.getElem?_eq_none_iff.mp hget
      have hnonempty := List.length_pos_iff.mpr hne
      rw [eq_comm, List.find?_eq_none]
      intro b hb
      have := h.mem_bounds hb
      simp only [decide_eq_true_eq]
      omega
    | some b =>
      obtain ⟨hlt, hb⟩ := List.getElem?_eq_some_iff.mp hget
      have hid := h.consecutive _ b hget
      rw [eq_comm, List.find?_eq_some_iff_getElem]
      refine ⟨by simp only [decide_eq_true_eq]; omega, _, hlt, hb, fun j hj => ?_⟩
      have hjid := h.consecutive j _ (List.getElem?_eq_getElem (by omega))
      simp only [Bool.not_eq_true', decide_eq_false_iff_not]
      omega

end WellFormed

theorem wellFormed_new : (new : MemoryMutationQueue V).WellFormed where
  consecutive i batch h := by simp [new] at h
  positive := by simp [new]
  indexed reference := by simp [new]

theorem WellFormed.started (h : q.WellFormed) : q.start.WellFormed := by
  unfold start
  split_ifs with hempty
  · have hnil := List.isEmpty_iff.mp hempty
    exact ⟨fun i batch hi => by simp [hnil] at hi, by simp [hnil], h.indexed⟩
  · exact h

theorem start_queue (q : MemoryMutationQueue V) : q.start.queue = q.queue := by
  unfold start
  split_ifs <;> rfl

theorem WellFormed.pushBack (h : q.WellFormed) {batch : MutationBatch V}
    (hid : batch.batchId = q.nextBatchId) : (q.pushBack batch).WellFormed where
  consecutive i b hi := by
    have hlen : ((q.pushBack batch).queue.length : ℤ) = q.queue.length + 1 := by
      simp [MemoryMutationQueue.pushBack]
    have hnext : (q.pushBack batch).nextBatchId = q.nextBatchId + 1 := rfl
    rw [hlen, hnext]
    change (q.queue ++ [batch])[i]? = some b at hi
    rcases Nat.lt_trichotomy i q.queue.length with hlt | heq | hgt
    · rw [List.getElem?_append_left hlt] at hi
      have := h.consecutive i b hi
      omega
    · rw [heq, List.getElem?_concat_length] at hi
      rw [← Option.some.inj hi]
      omega
    · rw [List.getElem?_eq_none (by rw [List.length_append, List.length_singleton]; omega)] at hi
      cases hi
  positive := by simpa [MemoryMutationQueue.pushBack] using h.positive
  indexed reference := by
    have hold : (q.pushBack batch).queue = q.queue ++ [batch] := rfl
    unfold MemoryMutationQueue.pushBack at hold ⊢
    rw [Loops.mem_foldl_insert, h.indexed, hold]
    simp only [List.mem_append, List.mem_singleton]
    constructor
    · rintro (⟨b, hb, hid⟩ | ⟨m, hm, rfl⟩)
      · exact ⟨b, .inl hb, hid⟩
      · exact ⟨batch, .inr rfl, rfl, MutationBatch.affects_iff.mpr ⟨m, hm, rfl⟩⟩
    · rintro ⟨b, hb | rfl, hid, haffects⟩
      · exact .inl ⟨b, hb, hid, haffects⟩
      · obtain ⟨m, hm, hkey⟩ := MutationBatch.affects_iff.mp haffects
        refine .inr ⟨m, hm, ?_⟩
        rw [hkey, hid]

theorem WellFormed.consistent (h : q.WellFormed) : q.performConsistencyCheck := by
  unfold performConsistencyCheck
  cases hq : q.queue with
  | cons batch rest => simp
  | nil =>
    have hempty : q.batchesByDocumentKey.isEmpty := by
      rw [Std.ExtTreeSet.isEmpty_iff, Std.ExtTreeSet.eq_empty_iff_forall_not_mem]
      intro reference hmem
      obtain ⟨batch, hb, -⟩ := (h.indexed reference).mp hmem
      simp [hq] at hb
    simp [hempty]

theorem WellFormed.addMutationBatch_eq (h : q.WellFormed) (localWriteTime : Timestamp)
    (baseMutations : List (Mutation V)) {mutations : List (Mutation V)} (hne : mutations ≠ []) :
    let batch := ⟨q.nextBatchId, localWriteTime, baseMutations, mutations, hne⟩
    q.addMutationBatch localWriteTime baseMutations mutations =
      some (batch, q.pushBack batch) := by
  have hprior : (q.queue.getLast?.all fun prior => prior.batchId < q.nextBatchId) = true := by
    cases hlast : q.queue.getLast? with
    | none => rfl
    | some prior => simpa using (h.mem_bounds (List.mem_of_getLast? hlast)).2
  unfold addMutationBatch
  rw [dif_pos hne, if_pos hprior]

theorem WellFormed.removed (h : q.WellFormed) {head : MutationBatch V}
    {rest : List (MutationBatch V)} (hq : q.queue = head :: rest) :
    ∃ q', q.removeMutationBatch head = some q' ∧ q'.queue = rest ∧ q'.WellFormed := by
  refine ⟨_, by rw [removeMutationBatch, hq]; exact if_pos rfl, rfl, ?_⟩
  have hlen : q.queue.length = rest.length + 1 := by rw [hq, List.length_cons]
  refine ⟨fun i batch hi => ?_, ?_, fun reference => ?_⟩
  · have hi' : q.queue[i + 1]? = some batch := by rw [hq]; exact hi
    have hid := h.consecutive (i + 1) batch hi'
    dsimp only
    omega
  · have := h.positive
    dsimp only
    omega
  · have hhead : head ∈ q.queue := by rw [hq]; exact List.mem_cons_self
    rw [Loops.mem_foldl_erase, h.indexed, hq]
    constructor
    · rintro ⟨⟨batch, hb, hid, haffects⟩, hnot⟩
      rcases List.mem_cons.mp hb with rfl | hb
      · obtain ⟨m, hm, hkey⟩ := MutationBatch.affects_iff.mp haffects
        refine absurd ?_ (hnot m hm)
        cases reference
        simp_all
      · exact ⟨batch, hb, hid, haffects⟩
    · rintro ⟨batch, hb, hid, haffects⟩
      refine ⟨⟨batch, List.mem_cons_of_mem _ hb, hid, haffects⟩, fun m hm he => ?_⟩
      have hsorted := h.sorted
      rw [hq, List.map_cons] at hsorted
      have hlt := hsorted.head_lt (List.mem_map_of_mem hb)
      have hsame : head.batchId = batch.batchId :=
        (congrArg DocumentKeyReference.refId he).trans hid.symm
      rw [hsame, Std.ReflOrd.compare_self] at hlt
      cases hlt

theorem WellFormed.queue_of_removed (h : q.WellFormed) {batch : MutationBatch V}
    (hb : batch ∈ q.queue) {q' : MemoryMutationQueue V}
    (hremove : q.removeMutationBatch batch = some q') : q.queue = batch :: q'.queue := by
  unfold removeMutationBatch at hremove
  cases hq : q.queue with
  | nil => simp [hq] at hb
  | cons head rest =>
    simp only [hq] at hremove
    split_ifs at hremove with hid
    have hhead : head ∈ q.queue := by rw [hq]; exact List.mem_cons_self
    have hsame := h.find_of_mem hhead
    rw [hid, h.find_of_mem hb] at hsame
    rw [← Option.some.inj hremove, Option.some.inj hsame]

end MemoryMutationQueue

inductive QueueEvent (V : Type) [ObjectValue V] where
  | started
  | added (batch : MutationBatch V)
  | removed (batch : MutationBatch V)

def QueueEvent.added? : QueueEvent V → Option (MutationBatch V)
  | added batch => some batch
  | _ => none

def QueueEvent.removed? : QueueEvent V → Option (MutationBatch V)
  | removed batch => some batch
  | _ => none

inductive QueueStep : MemoryMutationQueue V → QueueEvent V → MemoryMutationQueue V → Prop
  | start {q : MemoryMutationQueue V} : QueueStep q .started q.start
  | add {q q' : MemoryMutationQueue V} {localWriteTime : Timestamp}
      {baseMutations mutations : List (Mutation V)} {batch : MutationBatch V}
      (h : q.addMutationBatch localWriteTime baseMutations mutations = some (batch, q')) :
      QueueStep q (.added batch) q'
  | remove {q q' : MemoryMutationQueue V} {batch : MutationBatch V} (hb : batch ∈ q.queue)
      (h : q.removeMutationBatch batch = some q') : QueueStep q (.removed batch) q'

section Runs
variable {q : MemoryMutationQueue V} {es : List (QueueEvent V)}

theorem queue_run_invariant (hrun : Runs.Run QueueStep .new es q) :
    q.WellFormed ∧
      es.filterMap QueueEvent.added? = es.filterMap QueueEvent.removed? ++ q.queue := by
  refine hrun.invariant (I := fun es q => q.WellFormed ∧
    es.filterMap QueueEvent.added? = es.filterMap QueueEvent.removed? ++ q.queue)
    ⟨MemoryMutationQueue.wellFormed_new, rfl⟩ fun es q e q' h hstep => ?_
  obtain ⟨hwf, horder⟩ := h
  rw [List.filterMap_append, List.filterMap_append, horder]
  cases hstep with
  | start =>
    refine ⟨hwf.started, ?_⟩
    rw [MemoryMutationQueue.start_queue]
    exact (List.append_nil _).trans (congrArg (· ++ q.queue) (List.append_nil _).symm)
  | @add _ localWriteTime baseMutations mutations batch h =>
    have hne : mutations ≠ [] := by
      intro hnil
      simp [MemoryMutationQueue.addMutationBatch, hnil] at h
    rw [hwf.addMutationBatch_eq localWriteTime baseMutations hne] at h
    obtain ⟨rfl, rfl⟩ := Prod.mk.inj (Option.some.inj h)
    refine ⟨hwf.pushBack rfl, ?_⟩
    simp [QueueEvent.added?, QueueEvent.removed?, MemoryMutationQueue.pushBack]
  | @remove _ batch hb h =>
    have hq := hwf.queue_of_removed hb h
    obtain ⟨q'', h', -, hwf'⟩ := hwf.removed hq
    obtain rfl := Option.some.inj (h.symm.trans h')
    refine ⟨hwf', ?_⟩
    rw [hq]
    simp [QueueEvent.added?, QueueEvent.removed?]

theorem isSome_removeMutationBatch (q : MemoryMutationQueue V) (batch : MutationBatch V) :
    (q.removeMutationBatch batch).isSome ↔
      q.queue.head?.map MutationBatch.batchId = some batch.batchId := by
  unfold MemoryMutationQueue.removeMutationBatch
  cases hq : q.queue with
  | nil => simp
  | cons head rest =>
    simp only [List.head?_cons, Option.map_some, Option.some.injEq]
    split_ifs with h <;> simp [h]

theorem isSome_acknowledgeBatch (q : MemoryMutationQueue V) (batch : MutationBatch V) :
    (q.acknowledgeBatch batch).isSome ↔
      q.queue.head?.map MutationBatch.batchId = some batch.batchId := by
  unfold MemoryMutationQueue.acknowledgeBatch
  cases hq : q.queue with
  | nil => simp
  | cons head rest =>
    simp only [List.head?_cons, Option.any_some, decide_eq_true_eq, Option.map_some,
      Option.some.injEq]
    split_ifs with h <;> simp [h, eq_comm]

/-- Batches leave the queue in the order in which they came. The index finds just the batches of the
queue that write to a document, to one of some documents or to a document of a collection, each once
and in order. The queue refuses no more than an empty batch, and to acknowledge or remove another
batch than the first. -/
theorem mutation_queue_lookups (hrun : Runs.Run QueueStep .new es q) :
    es.filterMap QueueEvent.added? = es.filterMap QueueEvent.removed? ++ q.queue ∧
      (∀ key, q.allMutationBatchesAffectingDocumentKey key =
        some (q.queue.filter fun batch => batch.affects key)) ∧
      (∀ keys : DocumentKeySet, q.allMutationBatchesAffectingDocumentKeys keys =
        some (q.queue.filter fun batch => batch.mutations.any fun m => keys.contains m.key)) ∧
      (∀ query : Query V, query.collectionGroup = none → q.allMutationBatchesAffectingQuery query =
        some (q.queue.filter fun batch =>
          batch.mutations.any fun m => isImmediateParentOf query.path m.key.path)) ∧
      (∀ batchId, q.lookupMutationBatch batchId = some (q.find batchId) ∧
        q.nextMutationBatchAfterBatchId batchId = q.queue.find? fun b => batchId < b.batchId) ∧
      q.performConsistencyCheck ∧
      (∀ localWriteTime baseMutations mutations,
        (q.addMutationBatch localWriteTime baseMutations mutations).isSome ↔ mutations ≠ []) ∧
      ∀ batch, ((q.removeMutationBatch batch).isSome ↔
          q.queue.head?.map MutationBatch.batchId = some batch.batchId) ∧
        ((q.acknowledgeBatch batch).isSome ↔
          q.queue.head?.map MutationBatch.batchId = some batch.batchId) := by
  obtain ⟨hwf, horder⟩ := queue_run_invariant hrun
  refine ⟨horder, hwf.affectingDocumentKey_eq, hwf.affectingDocumentKeys_eq,
    fun query hgroup => hwf.affectingQuery_eq hgroup,
    fun batchId => ⟨hwf.lookup_eq batchId, hwf.nextMutationBatch_eq batchId⟩, hwf.consistent,
    fun localWriteTime baseMutations mutations => ⟨?_, fun hne => ?_⟩,
    fun batch => ⟨isSome_removeMutationBatch q batch, isSome_acknowledgeBatch q batch⟩⟩
  · rintro hadd rfl
    simp [MemoryMutationQueue.addMutationBatch] at hadd
  · exact Option.isSome_of_eq_some (hwf.addMutationBatch_eq localWriteTime baseMutations hne)

end Runs

section Renting

def rentKey : DocumentKey := ⟨["properties", "rented"], rfl⟩

def setRent : Mutation (Entries FieldValue) := .set rentKey [("rent", .leaf (.integer 900))] .none

def raiseRent : Mutation (Entries FieldValue) :=
  .patch rentKey [("rent", .leaf (.integer 950))] {["rent"]} (.docExists true)

def rentBatch : MutationBatch (Entries FieldValue) := ⟨1, 0, [], [setRent], by simp⟩

def raiseBatch : MutationBatch (Entries FieldValue) := ⟨2, 0, [], [raiseRent], by simp⟩

theorem rent_queue_run : Runs.Run QueueStep (.new : MemoryMutationQueue (Entries FieldValue))
    [.added rentBatch, .added raiseBatch, .removed rentBatch]
    ⟨[raiseBatch], 3, (((∅ : DocumentKeyReferences).insert ⟨rentKey, 1⟩).insert
      ⟨rentKey, 2⟩).erase ⟨rentKey, 1⟩⟩ := by
  have hfirst : (MemoryMutationQueue.new).addMutationBatch 0 [] [setRent] =
      some (rentBatch, MemoryMutationQueue.pushBack .new rentBatch) := rfl
  have hsecond : (MemoryMutationQueue.pushBack .new rentBatch).addMutationBatch 0 [] [raiseRent] =
      some (raiseBatch, (MemoryMutationQueue.pushBack .new rentBatch).pushBack raiseBatch) := rfl
  refine .step (.step (.step .start (.add hfirst)) (.add hsecond)) (.remove ?_ ?_)
  · exact List.mem_cons_self
  · rfl

theorem rent_queue_found : (⟨[raiseBatch], 3, (((∅ : DocumentKeyReferences).insert
    ⟨rentKey, 1⟩).insert ⟨rentKey, 2⟩).erase ⟨rentKey, 1⟩⟩ :
      MemoryMutationQueue (Entries FieldValue)).allMutationBatchesAffectingDocumentKey rentKey =
    some [raiseBatch] :=
  (mutation_queue_lookups rent_queue_run).2.1 rentKey

end Renting
end Firestore
