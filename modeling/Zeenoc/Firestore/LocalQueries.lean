import Zeenoc.Firestore.LocalDocumentsView

/-! Running a query on the local store finds the documents that the query selects from what the
client knows. -/

namespace Firestore
variable {V : Type}

theorem matches_immediateParent {query : Query V} (hgroup : query.collectionGroup = none)
    (hpath : query.path.length % 2 = 1) {d : Document V} (h : query.matchesDocument d) :
    isImmediateParentOf query.path d.key.path := by
  have hodd : query.path.length % 2 ≠ 0 := by omega
  simp only [Query.matchesDocument, Query.matchesPathAndCollectionGroup, hgroup, hodd,
    Bool.and_eq_true, if_false] at h
  simpa [isImmediateParentOf] using h.1.1.1

def matchedEntry (query : Query V) (sinceReadTime : SnapshotVersion)
    (x : MaybeDocument V × SnapshotVersion) : Option (Document V) :=
  x.1.document?.filter fun d => sinceReadTime < x.2 && query.matchesDocument d

theorem getElem?_addMatching (query : Query V) (sinceReadTime : SnapshotVersion)
    (results : DocumentMap V) (e : DocumentKey × MaybeDocument V × SnapshotVersion)
    (k : DocumentKey) :
    (MemoryRemoteDocumentCache.addMatching query sinceReadTime results e)[k]? =
      if e.1 = k then (matchedEntry query sinceReadTime e.2).or results[k]? else results[k]? := by
  unfold MemoryRemoteDocumentCache.addMatching matchedEntry
  cases e.2.1.document? with
  | none => simp
  | some d =>
    dsimp only
    by_cases hread : e.2.2 ≤ sinceReadTime
    · rw [if_pos hread, Option.filter_some_neg (by simp [Nat.not_lt.mpr hread]), Option.none_or,
        ite_self]
    · rw [if_neg hread]
      by_cases hmatches : query.matchesDocument d
      · rw [if_pos hmatches, Std.ExtTreeMap.getElem?_insert,
          Option.filter_some_pos (by simp [hmatches, Nat.lt_of_not_le hread])]
        simp only [Std.LawfulEqCmp.compare_eq_iff_eq, Option.some_or]
      · rw [if_neg hmatches, Option.filter_some_neg (by simp [hmatches]), Option.none_or, ite_self]

theorem MemoryRemoteDocumentCache.document?_key (c : MemoryRemoteDocumentCache V)
    {k : DocumentKey} {x : MaybeDocument V × SnapshotVersion} (hk : c.docs[k]? = some x)
    {d : Document V} (hd : x.1.document? = some d) : d.key = k := by
  have hkey : HasKey (some x.1) k := hasKey_some.mpr (c.key_eq hk)
  exact hkey.found hd

theorem getMatching_eq (c : MemoryRemoteDocumentCache V) {query : Query V}
    (hgroup : query.collectionGroup = none) (hpath : query.path.length % 2 = 1)
    (sinceReadTime : SnapshotVersion) :
    ∃ results, c.getMatching query sinceReadTime = some results ∧
      ∀ k : DocumentKey, results[k]? = c.docs[k]?.bind (matchedEntry query sinceReadTime) := by
  have hsorted : SortedList.Sorted (fun a b => compare a.1 b.1) c.docs.toList :=
    Std.ExtTreeMap.ordered_keys_toList
  have hscan : SortedList.scan (fun e => compare e.1 (startKey query.path) = .lt)
      (fun e => query.path.isPrefixOf e.1.path) c.docs.toList =
      c.docs.toList.filter fun e => query.path.isPrefixOf e.1.path := by
    refine hsorted.scan_eq_filter (fun a _ b _ hab hlt => ?_) (fun a _ hprefix hlt => ?_)
      fun a _ b _ hge hab hprefix => ?_
    · exact decide_eq_true (Std.TransCmp.lt_trans hab (of_decide_eq_true hlt))
    · exact not_lt_startKey hprefix (of_decide_eq_true hlt)
    · refine isPrefixOf_of_le (by simpa using hge) ?_ hprefix
      rw [hab]
      decide
  have hodd : ¬query.path.length % 2 = 0 := by omega
  unfold MemoryRemoteDocumentCache.getMatching
  rw [if_neg (by simp [Query.isCollectionGroupQuery, hgroup, hodd])]
  refine ⟨_, rfl, fun k => ?_⟩
  rw [hscan, List.foldl_filter]
  have hloop := Loops.look_foldl_toList
    (fun results e => if query.path.isPrefixOf e.1.path then
      MemoryRemoteDocumentCache.addMatching query sinceReadTime results e else results)
    (fun (r : DocumentMap V) k => r[k]?)
    (fun e y => if query.path.isPrefixOf e.1.path then
      (matchedEntry query sinceReadTime e.2).or y else y)
    (fun results e k => ?_) c.docs ∅ k
  · refine hloop.trans ?_
    rw [Std.ExtTreeMap.getElem?_empty]
    cases hk : c.docs[k]? with
    | none => rfl
    | some x =>
      dsimp only [Option.bind_some]
      split_ifs with hprefix
      · exact Option.or_none
      · -- a document that matches is in the collection
        rw [eq_comm]
        unfold matchedEntry
        rw [Option.filter_eq_none_iff]
        intro d hd
        have hnot : ¬query.matchesDocument d := by
          intro hmatches
          have hparent := matches_immediateParent hgroup hpath hmatches
          rw [c.document?_key hk hd] at hparent
          exact hprefix (Bool.and_eq_true_iff.mp hparent).2
        simp [hnot]
  · split_ifs with hprefix hk
    · rw [getElem?_addMatching, if_pos hk]
    · rw [getElem?_addMatching, if_neg hk]
    · rfl
    · rfl

variable [ObjectValue V]

def patches (batches : List (MutationBatch V)) (key : DocumentKey) : Prop :=
  ∃ b ∈ batches, ∃ m ∈ b.mutations, m.isPatch ∧ m.key = key

theorem mem_missingDocKeys {batches : List (MutationBatch V)} {docs : DocumentMap V}
    {k : DocumentKey} :
    k ∈ LocalDocumentsView.missingDocKeys batches docs ↔ patches batches k ∧ k ∉ docs := by
  have hinner : ∀ (ms : List (Mutation V)) (keys : DocumentKeySet),
      k ∈ ms.foldl (fun (keys : DocumentKeySet) m =>
          if m.isPatch ∧ m.key ∉ docs then keys.insert m.key else keys) keys ↔
        k ∈ keys ∨ (∃ m ∈ ms, m.isPatch ∧ m.key = k) ∧ k ∉ docs := by
    intro ms
    induction ms with
    | nil => simp
    | cons m ms ih =>
      intro keys
      rw [List.foldl_cons, ih, List.exists_mem_cons_iff]
      split_ifs with hm
      · rw [Std.ExtTreeSet.mem_insert, Std.LawfulEqCmp.compare_eq_iff_eq]
        constructor
        · rintro ((rfl | hk) | ⟨hex, hk⟩)
          · exact .inr ⟨.inl ⟨hm.1, rfl⟩, hm.2⟩
          · exact .inl hk
          · exact .inr ⟨.inr hex, hk⟩
        · rintro (hk | ⟨⟨-, rfl⟩ | hex, hk⟩)
          · exact .inl (.inr hk)
          · exact .inl (.inl rfl)
          · exact .inr ⟨hex, hk⟩
      · constructor
        · rintro (hk | ⟨hex, hk⟩)
          · exact .inl hk
          · exact .inr ⟨.inr hex, hk⟩
        · rintro (hk | ⟨⟨hpatch, rfl⟩ | hex, hk⟩)
          · exact .inl hk
          · exact absurd ⟨hpatch, hk⟩ hm
          · exact .inr ⟨hex, hk⟩
  have houter : ∀ (bs : List (MutationBatch V)) (keys : DocumentKeySet),
      k ∈ bs.foldl (fun (keys : DocumentKeySet) batch =>
          batch.mutations.foldl (fun keys m =>
            if m.isPatch ∧ m.key ∉ docs then keys.insert m.key else keys) keys) keys ↔
        k ∈ keys ∨ patches bs k ∧ k ∉ docs := by
    intro bs
    induction bs with
    | nil => simp [patches]
    | cons b bs ih =>
      intro keys
      rw [List.foldl_cons, ih, hinner]
      unfold patches
      rw [List.exists_mem_cons_iff, or_assoc, ← or_and_right]
  unfold LocalDocumentsView.missingDocKeys
  rw [houter]
  simp

/-- Patches start from the cached documents, whether or not the query matches those. -/
theorem addMissingBaseDocuments_eq (v : LocalDocumentsView V) (batches : List (MutationBatch V))
    (docs : DocumentMap V) (k : DocumentKey) :
    (patches batches k → (v.addMissingBaseDocuments batches docs)[k]? =
        docs[k]?.or (found (v.remoteDocumentCache.get k))) ∧
      (¬patches batches k → (v.addMissingBaseDocuments batches docs)[k]? = docs[k]?) := by
  have hadd : ∀ (docs : DocumentMap V) (kv : DocumentKey × Option (MaybeDocument V)) k,
      (LocalDocumentsView.addDocument docs kv)[k]? =
        if kv.1 = k then (found kv.2).or docs[k]? else docs[k]? := by
    intro docs kv k
    unfold LocalDocumentsView.addDocument
    cases found kv.2 with
    | none => simp
    | some d => simp only [Std.ExtTreeMap.getElem?_insert, Std.LawfulEqCmp.compare_eq_iff_eq,
        Option.some_or]
  have hloop := Loops.look_foldl_toList LocalDocumentsView.addDocument
    (fun (r : DocumentMap V) k => r[k]?) (fun kv y => (found kv.2).or y) hadd
    (v.remoteDocumentCache.getAll (LocalDocumentsView.missingDocKeys batches docs)) docs k
  unfold LocalDocumentsView.addMissingBaseDocuments
  rw [hloop, LocalDocumentsView.getAll_eq]
  by_cases hmem : k ∈ LocalDocumentsView.missingDocKeys batches docs
  · obtain ⟨hpatch, hk⟩ := mem_missingDocKeys.mp hmem
    have hnone : docs[k]? = none := Std.ExtTreeMap.getElem?_eq_none hk
    rw [if_pos hmem, hnone, Option.none_or]
    exact ⟨fun _ => Option.or_none, fun hnot => absurd hpatch hnot⟩
  · rw [if_neg hmem]
    refine ⟨fun hpatch => ?_, fun _ => rfl⟩
    have hk : k ∈ docs := by
      by_contra hk
      exact hmem (mem_missingDocKeys.mpr ⟨hpatch, hk⟩)
    obtain ⟨d, hd⟩ := Option.isSome_iff_exists.mp (Std.ExtTreeMap.mem_iff_isSome_getElem?.mp hk)
    rw [hd, Option.some_or]

def timedMutations (batches : List (MutationBatch V)) : List (Timestamp × Mutation V) :=
  batches.flatMap fun b => b.mutations.map fun m => (b.localWriteTime, m)

/-- A document after a mutation, when no other document is known to start from. -/
def mutated (doc : Option (Document V)) (tm : Timestamp × Mutation V) : Option (Document V) :=
  found (tm.2.localView (doc.map .document) (doc.map .document) tm.1)

omit [ObjectValue V] in
@[simp]
theorem found_map_document (doc : Option (Document V)) : found (doc.map .document) = doc := by
  cases doc <;> rfl

omit [ObjectValue V] in
theorem hasKey_map_document {doc : Option (Document V)} {k : DocumentKey} :
    HasKey (doc.map .document) k ↔ ∀ d, doc = some d → d.key = k := by
  constructor
  · rintro h d rfl
    exact h _ rfl
  · intro h m hm
    obtain ⟨d, hd, rfl⟩ := Option.map_eq_some_iff.mp hm
    exact h d hd

section Overlay
variable {k : DocumentKey} {maybeDoc : Option (MaybeDocument V)} {doc : Option (Document V)}

theorem mutated_key {tm : Timestamp × Mutation V} (hkey : tm.2.key = k)
    (h : HasKey (doc.map .document) k) : HasKey ((mutated doc tm).map .document) k := by
  subst hkey
  exact hasKey_map_document.mpr fun d hd => (Mutation.applyToLocalView_eq h).2.found hd

theorem pendingView_plain {batches : List (MutationBatch V)} (hplain : ∀ b ∈ batches, b.plain)
    (h : HasKey maybeDoc k) : pendingView batches k maybeDoc =
      ((timedMutations batches).filter fun tm => tm.2.key = k).foldl
        (fun doc tm => tm.2.localView doc doc tm.1) maybeDoc := by
  rw [← Loops.foldl_filter_key]
  unfold pendingView timedMutations
  rw [List.foldl_flatMap]
  refine (List.foldl_rel (r := fun x x' => x = x' ∧ HasKey x k) ⟨rfl, h⟩ ?_).1
  rintro b hb x _ ⟨rfl, hx⟩
  refine ⟨?_, MutationBatch.hasKey_localView hx b⟩
  obtain ⟨hnobase, hms⟩ := Bool.and_eq_true_iff.mp (hplain b hb)
  obtain ⟨-, -, -, hview⟩ := MutationBatch.applyToLocalDocument_eq (b := b) hx
  rw [hview, MutationBatch.baseView, List.isEmpty_iff.mp hnobase, List.foldl_nil, List.foldl_map]
  refine List.foldl_rel rfl fun m hm y y' hy => ?_
  subst hy
  split_ifs
  · exact Mutation.plain_base (List.all_eq_true.mp hms m hm)
  · rfl

theorem seen_mutated {tms : List (Timestamp × Mutation V)}
    (hkeys : ∀ tm ∈ tms, tm.2.plain ∧ tm.2.key = k) (h : HasKey maybeDoc k)
    (h' : HasKey (doc.map .document) k) (hseen : seen maybeDoc = doc.map Document.unversioned) :
    seen (tms.foldl (fun doc tm => tm.2.localView doc doc tm.1) maybeDoc) =
      (tms.foldl mutated doc).map Document.unversioned := by
  refine (List.foldl_rel (r := fun x (y : Option (Document V)) => HasKey x k ∧
    HasKey (y.map .document) k ∧ seen x = y.map Document.unversioned) ⟨h, h', hseen⟩ ?_).2.2
  intro tm htm x y ⟨hx, hy, hxy⟩
  obtain ⟨hplain, rfl⟩ := hkeys tm htm
  have hseen' : seen x = seen (y.map .document) := by
    rw [hxy, seen, found_map_document]
  exact ⟨(Mutation.applyToLocalView_eq hx).2, mutated_key rfl hy,
    Mutation.seen_localView_congr hplain hx hy hseen'⟩

theorem seen_mutated_overwrite {tm : Timestamp × Mutation V} {tms : List (Timestamp × Mutation V)}
    (hkeys : ∀ o ∈ tm :: tms, o.2.plain ∧ o.2.key = k) (hpatch : ¬tm.2.isPatch)
    (h : HasKey maybeDoc k) (h' : HasKey (doc.map .document) k) :
    seen ((tm :: tms).foldl (fun doc tm => tm.2.localView doc doc tm.1) maybeDoc) =
      ((tm :: tms).foldl mutated doc).map Document.unversioned := by
  obtain ⟨⟨hplain, rfl⟩, hrest⟩ := List.forall_mem_cons.mp hkeys
  rw [List.foldl_cons, List.foldl_cons]
  exact seen_mutated hrest (Mutation.applyToLocalView_eq h).2 (mutated_key rfl h')
    (Mutation.seen_localView_overwrite hplain hpatch h h')

def pendingMutations (batches : List (MutationBatch V)) (key : DocumentKey) :
    List (Timestamp × Mutation V) := (timedMutations batches).filter fun tm => tm.2.key = key

theorem exists_mem_pendingMutations {batches : List (MutationBatch V)} {p : Mutation V → Prop} :
    (∃ tm ∈ pendingMutations batches k, p tm.2) ↔
      ∃ b ∈ batches, ∃ m ∈ b.mutations, p m ∧ m.key = k := by
  unfold pendingMutations timedMutations
  constructor
  · rintro ⟨tm, htm, hp⟩
    obtain ⟨hmem, hkey⟩ := List.mem_filter.mp htm
    obtain ⟨b, hb, htimed⟩ := List.mem_flatMap.mp hmem
    obtain ⟨m, hm, rfl⟩ := List.mem_map.mp htimed
    exact ⟨b, hb, m, hm, hp, by simpa using hkey⟩
  · rintro ⟨b, hb, m, hm, hp, hkey⟩
    exact ⟨(b.localWriteTime, m), List.mem_filter.mpr ⟨List.mem_flatMap.mpr ⟨b, hb,
      List.mem_map_of_mem hm⟩, by simpa using hkey⟩, hp⟩

theorem pendingMutations_plain {batches : List (MutationBatch V)}
    (hplain : ∀ b ∈ batches, b.plain) :
    ∀ tm ∈ pendingMutations batches k, tm.2.plain ∧ tm.2.key = k := by
  intro tm htm
  obtain ⟨b, hb, m, hm, he, hkey⟩ :=
    (exists_mem_pendingMutations (p := fun m => m = tm.2)).mp ⟨tm, htm, rfl⟩
  subst he
  exact ⟨List.all_eq_true.mp (Bool.and_eq_true_iff.mp (hplain b hb)).2 _ hm, hkey⟩

/-- Pending mutations show a document as it is known when they start from it, or when the first
one overwrites it. -/
theorem seen_pendingMutations {batches : List (MutationBatch V)} (hplain : ∀ b ∈ batches, b.plain)
    (h : HasKey maybeDoc k) (h' : HasKey (doc.map .document) k)
    (hbase : doc = found maybeDoc ∨
      ¬patches batches k ∧ ∃ b ∈ batches, b.affects k) :
    seen (pendingView batches k maybeDoc) =
      ((pendingMutations batches k).foldl mutated doc).map Document.unversioned := by
  rw [pendingView_plain hplain h]
  have hkeys := pendingMutations_plain (k := k) hplain
  rcases hbase with rfl | ⟨hpatch, b, hb, haffects⟩
  · exact seen_mutated hkeys h h' rfl
  · obtain ⟨m, hm, hkey⟩ := MutationBatch.affects_iff.mp haffects
    obtain ⟨tm, htm, -⟩ := (exists_mem_pendingMutations (p := fun _ => True)).mpr
      ⟨b, hb, m, hm, trivial, hkey⟩
    have hnopatch : ∀ tm ∈ pendingMutations batches k, ¬tm.2.isPatch := fun tm htm hp =>
      hpatch (exists_mem_pendingMutations.mp ⟨tm, htm, hp⟩)
    change seen ((pendingMutations batches k).foldl _ maybeDoc) = _
    obtain ⟨first, rest, hlist⟩ := List.exists_cons_of_ne_nil (List.ne_nil_of_mem htm)
    rw [hlist] at hkeys hnopatch ⊢
    exact seen_mutated_overwrite hkeys (hnopatch first List.mem_cons_self) h h'

end Overlay

namespace LocalDocumentsView

def mutatedResults (query : Query V) (results : DocumentMap V) (tm : Timestamp × Mutation V) :
    DocumentMap V :=
  if isImmediateParentOf query.path tm.2.key.path then
    match mutated results[tm.2.key]? tm with
    | some doc => results.insert tm.2.key doc
    | none => results.erase tm.2.key
  else results

theorem getElem?_mutatedResults (query : Query V) (results : DocumentMap V)
    (tm : Timestamp × Mutation V) (k : DocumentKey) :
    (mutatedResults query results tm)[k]? = if tm.2.key = k then
      if isImmediateParentOf query.path k.path then mutated results[k]? tm else results[k]?
      else results[k]? := by
  unfold mutatedResults
  by_cases hk : tm.2.key = k
  · subst hk
    rw [if_pos rfl]
    split_ifs
    · cases mutated results[tm.2.key]? tm <;> simp
    · rfl
  · rw [if_neg hk]
    split_ifs
    · cases mutated results[tm.2.key]? tm with
      | none => simp [Std.ExtTreeMap.getElem?_erase, hk]
      | some doc => simp [Std.ExtTreeMap.getElem?_insert, hk]
    · rfl

def KeyedResults (results : DocumentMap V) : Prop :=
  ∀ k : DocumentKey, HasKey (results[k]?.map .document) k

theorem applyMutation_eq {query : Query V} {results : DocumentMap V} (h : KeyedResults results)
    (tm : Timestamp × Mutation V) :
    applyMutation query tm.1 results tm.2 = some (mutatedResults query results tm) ∧
      KeyedResults (mutatedResults query results tm) := by
  constructor
  · unfold applyMutation mutatedResults
    split_ifs
    · dsimp only
      rw [(Mutation.applyToLocalView_eq (h tm.2.key)).1]
      rfl
    · rfl
  · intro k
    rw [getElem?_mutatedResults]
    split_ifs with hk
    · exact mutated_key hk (h k)
    · exact h k
    · exact h k

theorem applyMutations_eq {query : Query V} {batches : List (MutationBatch V)}
    {results : DocumentMap V} (h : KeyedResults results) :
    batches.foldlM (fun results (batch : MutationBatch V) =>
        batch.mutations.foldlM (applyMutation query batch.localWriteTime) results) results =
      some ((timedMutations batches).foldl (mutatedResults query) results) := by
  obtain ⟨hloop, -⟩ := Loops.foldlM_total (l := batches)
    (f := fun results (batch : MutationBatch V) =>
      batch.mutations.foldlM (applyMutation query batch.localWriteTime) results)
    (fun results batch => batch.mutations.foldl (fun results m =>
      mutatedResults query results (batch.localWriteTime, m)) results) KeyedResults h
    fun results batch _ hresults => Loops.foldlM_total (fun results m =>
      mutatedResults query results (batch.localWriteTime, m)) KeyedResults hresults
      fun results m _ hresults => applyMutation_eq hresults (batch.localWriteTime, m)
  unfold timedMutations
  rw [hloop, List.foldl_flatMap]
  simp only [List.foldl_map]

omit [ObjectValue V] in
theorem getElem?_filtered (query : Query V) (unfiltered : DocumentMap V) (k : DocumentKey) :
    (unfiltered.toList.foldl (fun (results : DocumentMap V) kv =>
      if query.matchesDocument kv.2 then results else results.erase kv.1) unfiltered)[k]? =
      unfiltered[k]?.filter query.matchesDocument := by
  have hloop := Loops.look_foldl_toList (fun (results : DocumentMap V) kv =>
      if query.matchesDocument kv.2 then results else results.erase kv.1)
    (fun r k => r[k]?) (fun kv y => if query.matchesDocument kv.2 then y else none)
    (fun results kv k => ?_) unfiltered unfiltered k
  · refine hloop.trans ?_
    cases hk : unfiltered[k]? with
    | none => rfl
    | some d =>
      dsimp only
      split_ifs with hmatches
      · rw [Option.filter_some_pos hmatches]
      · rw [Option.filter_some_neg (by simpa using hmatches)]
  · by_cases hmatches : query.matchesDocument kv.2
    · rw [if_pos hmatches, if_pos hmatches, ite_self]
    · rw [if_neg hmatches, if_neg hmatches, Std.ExtTreeMap.getElem?_erase]
      simp only [Std.LawfulEqCmp.compare_eq_iff_eq]

variable {v : LocalDocumentsView V}

def Recent (v : LocalDocumentsView V) (sinceReadTime : SnapshotVersion)
    (key : DocumentKey) : Prop :=
  (∃ b ∈ v.mutationQueue.queue, b.affects key) ∨
    ∃ x, v.remoteDocumentCache.docs[key]? = some x ∧ sinceReadTime < x.2

theorem Sound.localView_of_not_affected (h : v.Sound) {k : DocumentKey}
    (hk : ¬∃ b ∈ v.mutationQueue.queue, b.affects k) :
    v.localView k = v.remoteDocumentCache.get k := by
  have hfilter := pendingView_filter h.based (hasKey_get v.remoteDocumentCache k)
    (p := fun _ => false) fun b hb haffects => absurd ⟨b, hb, haffects⟩ hk
  rw [List.filter_false] at hfilter
  exact hfilter.symm

omit [ObjectValue V] in
theorem matches_unversioned {query : Query V} {doc doc' : Option (Document V)}
    (h : doc.map Document.unversioned = doc'.map Document.unversioned) :
    (doc.filter query.matchesDocument).map Document.unversioned =
      (doc'.filter query.matchesDocument).map Document.unversioned := by
  cases doc with
  | none =>
    rw [Option.map_none, eq_comm, Option.map_eq_none_iff] at h
    rw [h]
  | some d =>
    rw [Option.map_some, eq_comm, Option.map_eq_some_iff] at h
    obtain ⟨d', rfl, he⟩ := h
    have hkey : d'.key = d.key := congrArg Prod.fst he
    have hdata : d'.data = d.data := congrArg (fun x => x.2.1) he
    have hmatches := query.matchesDocument_congr hkey hdata
    cases hd : query.matchesDocument d with
    | false => rw [Option.filter_some_neg hd, Option.filter_some_neg (hmatches.trans hd)]
    | true =>
      rw [Option.filter_some_pos hd, Option.filter_some_pos (hmatches.trans hd), Option.map_some,
        Option.map_some, he]

def collectionBatches (v : LocalDocumentsView V) (query : Query V) : List (MutationBatch V) :=
  v.mutationQueue.queue.filter fun batch =>
    batch.mutations.any fun m => isImmediateParentOf query.path m.key.path

/-- What the loop over the pending mutations starts from: the cached documents that match, and those
that patches need. -/
structure LoopBase (v : LocalDocumentsView V) (query : Query V) (sinceReadTime : SnapshotVersion)
    (base : DocumentMap V) : Prop where
  keyed : KeyedResults base
  patched : ∀ k : DocumentKey, patches (v.collectionBatches query) k →
    base[k]? = (v.remoteDocumentCache.docs[k]?.bind (matchedEntry query sinceReadTime)).or
      (found (v.remoteDocumentCache.get k))
  others : ∀ k : DocumentKey, ¬patches (v.collectionBatches query) k →
    base[k]? = v.remoteDocumentCache.docs[k]?.bind (matchedEntry query sinceReadTime)

variable {query : Query V} {sinceReadTime : SnapshotVersion} {base : DocumentMap V}
  {k : DocumentKey}

theorem loopBase_addMissing (v : LocalDocumentsView V) {docs : DocumentMap V}
    (hdocs : ∀ k : DocumentKey, docs[k]? =
      v.remoteDocumentCache.docs[k]?.bind (matchedEntry query sinceReadTime)) :
    LoopBase v query sinceReadTime
      (v.addMissingBaseDocuments (v.collectionBatches query) docs) := by
  have hentry : ∀ (k : DocumentKey) (d : Document V), docs[k]? = some d → d.key = k := by
    intro k d hd
    rw [hdocs] at hd
    obtain ⟨x, hx, hmatched⟩ := Option.bind_eq_some_iff.mp hd
    exact v.remoteDocumentCache.document?_key hx (Option.filter_eq_some_iff.mp hmatched).1
  have hbase := addMissingBaseDocuments_eq v (v.collectionBatches query) docs
  refine ⟨fun k => hasKey_map_document.mpr fun d hd => ?_, fun k hpatch => ?_, fun k hpatch => ?_⟩
  · by_cases hpatch : patches (v.collectionBatches query) k
    · rw [(hbase k).1 hpatch, Option.or_eq_some_iff] at hd
      rcases hd with hd | ⟨-, hd⟩
      · exact hentry k d hd
      · exact (hasKey_get v.remoteDocumentCache k).found hd
    · exact hentry k d ((hbase k).2 hpatch ▸ hd)
  · rw [(hbase k).1 hpatch, hdocs]
  · rw [(hbase k).2 hpatch, hdocs]

theorem getElem?_foldl_mutatedResults (batches : List (MutationBatch V)) (base : DocumentMap V)
    (k : DocumentKey) : ((timedMutations batches).foldl (mutatedResults query) base)[k]? =
      if isImmediateParentOf query.path k.path then
        (pendingMutations batches k).foldl mutated base[k]?
      else base[k]? := by
  have hstep : ∀ (results : DocumentMap V) (tm : Timestamp × Mutation V) (k : DocumentKey),
      (mutatedResults query results tm)[k]? = if tm.2.key = k then
        if isImmediateParentOf query.path tm.2.key.path then mutated results[k]? tm else results[k]?
        else results[k]? := by
    intro results tm k
    rw [getElem?_mutatedResults]
    split_ifs with hk <;> simp_all
  have hloop := Loops.look_foldl (mutatedResults query) (fun r k => r[k]?) (fun tm => tm.2.key)
    (fun tm y => if isImmediateParentOf query.path tm.2.key.path then mutated y tm else y) hstep
      (timedMutations batches) base k
  rw [hloop, Loops.foldl_filter_key]
  by_cases hparent : isImmediateParentOf query.path k.path
  · rw [if_pos hparent]
    refine List.foldl_rel rfl fun tm htm y y' hy => ?_
    obtain rfl : tm.2.key = k := by simpa using (List.mem_filter.mp htm).2
    rw [if_pos hparent, hy]
  · rw [if_neg hparent]
    refine (List.foldl_rel (r := fun y (y' : Option (Document V)) => y = y') rfl
      fun tm htm y y' hy => ?_).trans (List.foldl_fixed _)
    obtain rfl : tm.2.key = k := by simpa using (List.mem_filter.mp htm).2
    rw [if_neg hparent, hy]

theorem Sound.collectionQuery_loop (h : v.Sound) (hgroup : query.collectionGroup = none)
    (hpath : query.path.length % 2 = 1) (sinceReadTime : SnapshotVersion) :
    ∃ results base, v.getDocumentsMatchingCollectionQuery query sinceReadTime = some results ∧
      LoopBase v query sinceReadTime base ∧
      ∀ k : DocumentKey, results[k]? = (if isImmediateParentOf query.path k.path then
        (pendingMutations (v.collectionBatches query) k).foldl mutated base[k]?
        else base[k]?).filter query.matchesDocument := by
  obtain ⟨docs, hmatching, hdocs⟩ :=
    getMatching_eq v.remoteDocumentCache hgroup hpath sinceReadTime
  have hbase := loopBase_addMissing v hdocs
  unfold getDocumentsMatchingCollectionQuery
  rw [hmatching, Option.bind_some, h.queue.affectingQuery_eq hgroup, Option.bind_some,
    ← collectionBatches, applyMutations_eq hbase.keyed, Option.map_some]
  refine ⟨_, _, rfl, hbase, fun k => ?_⟩
  rw [getElem?_filtered, getElem?_foldl_mutatedResults]

section Parent
variable (hparent : isImmediateParentOf query.path k.path)
include hparent

theorem mem_collectionBatches {b : MutationBatch V} (hb : b ∈ v.mutationQueue.queue)
    (haffects : b.affects k) : b ∈ v.collectionBatches query := by
  obtain ⟨m, hm, rfl⟩ := MutationBatch.affects_iff.mp haffects
  exact List.mem_filter.mpr ⟨hb, List.any_eq_true.mpr ⟨m, hm, hparent⟩⟩

theorem Sound.localView_eq_pendingView (h : v.Sound) : v.localView k =
    pendingView (v.collectionBatches query) k (v.remoteDocumentCache.get k) :=
  (pendingView_filter h.based (hasKey_get _ k) fun _ hb haffects =>
    (List.mem_filter.mp (mem_collectionBatches hparent hb haffects)).2).symm

/-- The pending mutations lead to the local view when they start from the cached document, and when
they overwrite it. -/
theorem LoopBase.shown (hbase : LoopBase v query sinceReadTime base) (h : v.Sound)
    (hplain : ∀ b ∈ v.mutationQueue.queue, b.plain)
    (hstart : base[k]? = found (v.remoteDocumentCache.get k) ∨
      ¬patches (v.collectionBatches query) k ∧ ∃ b ∈ v.collectionBatches query, b.affects k) :
    (((pendingMutations (v.collectionBatches query) k).foldl mutated base[k]?).filter
        query.matchesDocument).map Document.unversioned =
      (query.select (v.localView k)).map Document.unversioned := by
  have hplain' : ∀ b ∈ v.collectionBatches query, b.plain := fun b hb =>
    hplain b (List.mem_filter.mp hb).1
  refine matches_unversioned ?_
  rw [← seen_pendingMutations hplain' (hasKey_get _ k) (hbase.keyed k) hstart,
    h.localView_eq_pendingView hparent]
  rfl

theorem LoopBase.matched (hbase : LoopBase v query sinceReadTime base) (h : v.Sound)
    (hplain : ∀ b ∈ v.mutationQueue.queue, b.plain) {d : Document V}
    (hentry : v.remoteDocumentCache.docs[k]?.bind (matchedEntry query sinceReadTime) = some d) :
    v.Recent sinceReadTime k ∧ (((pendingMutations (v.collectionBatches query) k).foldl mutated
        base[k]?).filter query.matchesDocument).map Document.unversioned =
      (query.select (v.localView k)).map Document.unversioned := by
  obtain ⟨x, hx, hmatched⟩ := Option.bind_eq_some_iff.mp hentry
  obtain ⟨hd, hfresh⟩ := Option.filter_eq_some_iff.mp hmatched
  have hfound : found (v.remoteDocumentCache.get k) = some d := by
    rw [found, MemoryRemoteDocumentCache.get, hx, Option.map_some, Option.bind_some, hd]
  have hread := (Bool.and_eq_true_iff.mp hfresh).1
  refine ⟨.inr ⟨x, hx, of_decide_eq_true hread⟩, hbase.shown hparent h hplain (.inl ?_)⟩
  by_cases hpatch : patches (v.collectionBatches query) k
  · rw [hbase.patched k hpatch, hentry, hfound, Option.some_or]
  · rw [hbase.others k hpatch, hentry, hfound]

theorem LoopBase.affected (hbase : LoopBase v query sinceReadTime base) (h : v.Sound)
    (hplain : ∀ b ∈ v.mutationQueue.queue, b.plain)
    (hentry : v.remoteDocumentCache.docs[k]?.bind (matchedEntry query sinceReadTime) = none)
    (haffected : ∃ b ∈ v.mutationQueue.queue, b.affects k) :
    (((pendingMutations (v.collectionBatches query) k).foldl mutated base[k]?).filter
        query.matchesDocument).map Document.unversioned =
      (query.select (v.localView k)).map Document.unversioned := by
  apply hbase.shown hparent h hplain
  by_cases hpatch : patches (v.collectionBatches query) k
  · exact .inl (by rw [hbase.patched k hpatch, hentry, Option.none_or])
  · obtain ⟨b, hb, haffects⟩ := haffected
    exact .inr ⟨hpatch, b, mem_collectionBatches hparent hb haffects, haffects⟩

omit hparent in
theorem LoopBase.unaffected (hbase : LoopBase v query sinceReadTime base)
    (hentry : v.remoteDocumentCache.docs[k]?.bind (matchedEntry query sinceReadTime) = none)
    (hqueue : ¬∃ b ∈ v.mutationQueue.queue, b.affects k) :
    (pendingMutations (v.collectionBatches query) k).foldl mutated base[k]? = none := by
  have hpatch : ¬patches (v.collectionBatches query) k := by
    rintro ⟨b, hb, m, hm, -, hkey⟩
    exact hqueue ⟨b, (List.mem_filter.mp hb).1, MutationBatch.affects_iff.mpr ⟨m, hm, hkey⟩⟩
  have hpending : pendingMutations (v.collectionBatches query) k = [] := by
    rw [List.eq_nil_iff_forall_not_mem]
    intro tm htm
    obtain ⟨b, hb, m, hm, -, hkey⟩ :=
      (exists_mem_pendingMutations (p := fun _ => True)).mp ⟨tm, htm, trivial⟩
    exact hqueue ⟨b, (List.mem_filter.mp hb).1, MutationBatch.affects_iff.mpr ⟨m, hm, hkey⟩⟩
  rw [hpending, List.foldl_nil, hbase.others k hpatch, hentry]

omit hparent in
/-- A recent cached document that was not matched is not selected. -/
theorem Sound.select_eq_none (h : v.Sound) (hrecent : v.Recent sinceReadTime k)
    (hentry : v.remoteDocumentCache.docs[k]?.bind (matchedEntry query sinceReadTime) = none)
    (hqueue : ¬∃ b ∈ v.mutationQueue.queue, b.affects k) :
    query.select (v.localView k) = none := by
  obtain ⟨x, hx, hfresh⟩ := hrecent.resolve_left hqueue
  rw [h.localView_of_not_affected hqueue, Query.select, MemoryRemoteDocumentCache.get, hx,
    Option.map_some, Option.bind_some]
  rw [hx, Option.bind_some, matchedEntry, Option.filter_eq_none_iff] at hentry
  rw [Option.filter_eq_none_iff]
  exact fun d hd hmatches => hentry d hd (by simp [hfresh, hmatches])

end Parent

/-- A query finds what it selects of the local view, except for documents without pending mutations
that were read before. -/
theorem Sound.collectionQuery_eq (h : v.Sound) (hplain : ∀ b ∈ v.mutationQueue.queue, b.plain)
    {query : Query V} (hgroup : query.collectionGroup = none) (hpath : query.path.length % 2 = 1)
    (sinceReadTime : SnapshotVersion) :
    ∃ results, v.getDocumentsMatchingCollectionQuery query sinceReadTime = some results ∧
      ∀ k : DocumentKey,
        (v.Recent sinceReadTime k → results[k]?.map Document.unversioned =
          (query.select (v.localView k)).map Document.unversioned) ∧
        (¬v.Recent sinceReadTime k → results[k]? = none) := by
  obtain ⟨results, base, hresults, hbase, hget⟩ :=
    h.collectionQuery_loop hgroup hpath sinceReadTime
  refine ⟨results, hresults, fun k => ?_⟩
  rw [hget k]
  by_cases hparent : isImmediateParentOf query.path k.path
  · rw [if_pos hparent]
    cases hentry : v.remoteDocumentCache.docs[k]?.bind (matchedEntry query sinceReadTime) with
    | some d =>
      obtain ⟨hrecent, hshown⟩ := hbase.matched hparent h hplain hentry
      exact ⟨fun _ => hshown, fun hnot => absurd hrecent hnot⟩
    | none =>
      by_cases haffected : ∃ b ∈ v.mutationQueue.queue, b.affects k
      · exact ⟨fun _ => hbase.affected hparent h hplain hentry haffected,
          fun hnot => absurd (.inl haffected) hnot⟩
      · rw [hbase.unaffected hentry haffected]
        refine ⟨fun hrecent => ?_, fun _ => rfl⟩
        rw [h.select_eq_none hrecent hentry haffected]
        rfl
  · -- a document that matches is in the collection
    have hnone : ∀ doc : Option (Document V), (∀ d, doc = some d → d.key = k) →
        doc.filter query.matchesDocument = none := by
      intro doc hdoc
      rw [Option.filter_eq_none_iff]
      intro d hd hmatches
      exact hparent (hdoc d hd ▸ matches_immediateParent hgroup hpath hmatches)
    have hselect : query.select (v.localView k) = none :=
      hnone _ fun d hd => (hasKey_localView v k).found hd
    rw [if_neg hparent, hnone _ (hasKey_map_document.mp (hbase.keyed k)), hselect]
    exact ⟨fun _ => rfl, fun _ => rfl⟩

end LocalDocumentsView
end Firestore
