import Zeenoc.Firestore.LocalStore

/-! What an acknowledged batch does to the local store: the documents that it wrote to are cached as
the backend has them, unless newer ones were cached before. -/

namespace Firestore
variable {V User : Type} [ObjectValue V]

def Mutation.transformCount : Mutation V → Option ℕ
  | transform _ fieldTransforms => some fieldTransforms.length
  | _ => none

/-- A result has values just for a transform, one for each field. -/
def MutationResult.Fits (result : MutationResult V) (m : Mutation V) : Prop :=
  result.transformResults.map List.length = m.transformCount

def MutationBatchResult.Fits (r : MutationBatchResult V) : Prop :=
  ∀ x ∈ r.batch.mutations.zip r.mutationResults, x.2.Fits x.1

theorem Mutation.applyToRemoteDocument_eq {m : Mutation V} {result : MutationResult V}
    {maybeDoc : Option (MaybeDocument V)} (h : HasKey maybeDoc m.key) (hfits : result.Fits m) :
    ∃ d, m.applyToRemoteDocument maybeDoc result = some d ∧ d.key = m.key := by
  have hcheck : m.verifyKeyMatches maybeDoc ∧
      result.transformResults.isSome = m.isTransform := by
    refine ⟨h.all_eq, ?_⟩
    rw [← Option.isSome_map (f := List.length), hfits]
    cases m <;> rfl
  unfold applyToRemoteDocument
  rw [if_pos hcheck]
  cases m with
  | set key value p => exact ⟨_, rfl, rfl⟩
  | delete key p => exact ⟨_, rfl, rfl⟩
  | patch key value mask p =>
    dsimp only
    split_ifs
    · exact ⟨_, rfl, rfl⟩
    · exact ⟨_, rfl, rfl⟩
  | transform key ts =>
    obtain ⟨results, hresults, hlen⟩ := Option.map_eq_some_iff.mp hfits
    dsimp only
    cases found maybeDoc with
    | none => exact ⟨_, rfl, rfl⟩
    | some d =>
      rw [hresults, Option.getD_some, serverTransformResults, if_pos hlen.symm]
      exact ⟨_, rfl, rfl⟩

namespace MutationBatchResult
variable {r : MutationBatchResult V} {key : DocumentKey} {maybeDoc : Option (MaybeDocument V)}

theorem applyToRemoteDocument_eq (hfits : r.Fits) (h : HasKey maybeDoc key) :
    ∃ doc, r.batch.applyToRemoteDocument maybeDoc key r = some doc ∧ HasKey doc key ∧
      (r.batch.affects key → doc.isSome) := by
  have hloop : ∀ (l : List (Mutation V × MutationResult V)) (doc : Option (MaybeDocument V)),
      (∀ x ∈ l, x.2.Fits x.1) → HasKey doc key →
      ∃ doc', l.foldlM (fun maybeDoc x =>
          if x.1.key = key then (x.1.applyToRemoteDocument maybeDoc x.2).map some
          else some maybeDoc) doc = some doc' ∧ HasKey doc' key ∧
        ((∃ x ∈ l, x.1.key = key) ∨ doc.isSome → doc'.isSome) := by
    intro l
    induction l with
    | nil => exact fun doc _ hdoc => ⟨doc, rfl, hdoc, by simp⟩
    | cons x l ih =>
      intro doc hl hdoc
      obtain ⟨hx, hl⟩ := List.forall_mem_cons.mp hl
      rw [List.foldlM_cons]
      by_cases hkey : x.1.key = key
      · subst hkey
        obtain ⟨d, hd, hdkey⟩ := Mutation.applyToRemoteDocument_eq hdoc hx
        obtain ⟨doc', hrest, hdoc', hsome⟩ := ih (some d) hl (hasKey_some.mpr hdkey)
        rw [if_pos rfl, hd]
        exact ⟨doc', hrest, hdoc', fun _ => hsome (.inr rfl)⟩
      · obtain ⟨doc', hrest, hdoc', hsome⟩ := ih doc hl hdoc
        rw [if_neg hkey]
        refine ⟨doc', hrest, hdoc', fun h => hsome ?_⟩
        rw [List.exists_mem_cons_iff] at h
        rcases h with (habsurd | hex) | hdocSome
        · exact absurd habsurd hkey
        · exact .inl hex
        · exact .inr hdocSome
  obtain ⟨doc, hdoc, hkey, hsome⟩ := hloop _ maybeDoc hfits h
  unfold MutationBatch.applyToRemoteDocument
  rw [if_pos ⟨h.all_eq, r.length_eq.symm⟩]
  refine ⟨doc, hdoc, hkey, fun haffects => hsome (.inl ?_)⟩
  obtain ⟨m, hm, hmkey⟩ := MutationBatch.affects_iff.mp haffects
  rw [← List.map_fst_zip r.length_eq.le] at hm
  obtain ⟨x, hx, rfl⟩ := List.mem_map.mp hm
  exact ⟨x, hx, hmkey⟩

theorem isSome_docVersions (h : r.batch.affects key) : (r.docVersions[key]?).isSome := by
  obtain ⟨m, hm, hmkey⟩ := MutationBatch.affects_iff.mp h
  rw [← List.map_fst_zip r.length_eq.le] at hm
  obtain ⟨x, hx, rfl⟩ := List.mem_map.mp hm
  have hlook := Loops.look_foldl (fun (versions : Std.ExtTreeMap DocumentKey SnapshotVersion)
      (x : Mutation V × MutationResult V) => versions.insert x.1.key x.2.version)
    (fun versions k => versions[k]?) (fun x => x.1.key) (fun x _ => some x.2.version)
    (fun versions x k => by
      rw [Std.ExtTreeMap.getElem?_insert]
      simp only [Std.LawfulEqCmp.compare_eq_iff_eq])
    (r.batch.mutations.zip r.mutationResults) ∅ key
  unfold docVersions
  rw [hlook, Loops.foldl_filter_key]
  have hmem : x ∈ (r.batch.mutations.zip r.mutationResults).filter fun x => x.1.key = key :=
    List.mem_filter.mpr ⟨hx, by simpa using hmkey⟩
  obtain ⟨rest, last, hlist⟩ :=
    (List.eq_nil_or_concat' _).resolve_left (List.ne_nil_of_mem hmem)
  rw [hlist, List.foldl_concat]
  rfl

def ackedEntry (r : MutationBatchResult V) (key : DocumentKey)
    (entry : Option (MaybeDocument V × SnapshotVersion)) :
    Option (MaybeDocument V × SnapshotVersion) :=
  if (entry.map Prod.fst).all fun doc => doc.version < (r.docVersions[key]?).getD 0 then
    (r.batch.applyToRemoteDocument (entry.map Prod.fst) key r).join.map fun doc =>
      (doc, r.commitVersion)
  else entry

end MutationBatchResult

theorem applyResult_eq {r : MutationBatchResult V} (hfits : r.Fits)
    (cache : MemoryRemoteDocumentCache V) {docKey : DocumentKey} (h : r.batch.affects docKey) :
    ∃ cache', applyResult r cache docKey = some cache' ∧ ∀ k : DocumentKey, cache'.docs[k]? =
      if docKey = k then r.ackedEntry docKey cache.docs[k]? else cache.docs[k]? := by
  obtain ⟨version, hversion⟩ :=
    Option.isSome_iff_exists.mp (MutationBatchResult.isSome_docVersions h)
  obtain ⟨doc, hdoc, hkey, hsome⟩ := MutationBatchResult.applyToRemoteDocument_eq hfits
    (LocalDocumentsView.hasKey_get cache docKey)
  obtain ⟨d, rfl⟩ := Option.isSome_iff_exists.mp (hsome h)
  have hdkey : d.key = docKey := hasKey_some.mp hkey
  have hentry : r.ackedEntry docKey cache.docs[docKey]? =
      if (cache.get docKey).all fun doc => doc.version < version then some (d, r.commitVersion)
      else cache.docs[docKey]? := by
    unfold MutationBatchResult.ackedEntry
    rw [hversion, Option.getD_some]
    change (if (cache.get docKey).all _ then (r.batch.applyToRemoteDocument (cache.get docKey) _ _
      ).join.map _ else _) = _
    rw [hdoc]
    rfl
  unfold applyResult
  rw [hversion, Option.bind_some]
  by_cases holder : (cache.get docKey).all fun doc => doc.version < version
  · rw [if_pos holder, hdoc, Option.bind_some]
    refine ⟨cache.add d r.commitVersion, rfl, fun k => ?_⟩
    simp only [MemoryRemoteDocumentCache.add, hdkey, Std.ExtTreeMap.getElem?_insert,
      Std.LawfulEqCmp.compare_eq_iff_eq]
    by_cases hk : docKey = k
    · rw [if_pos hk, if_pos hk, ← hk, hentry, if_pos holder]
    · rw [if_neg hk, if_neg hk]
  · rw [if_neg holder]
    refine ⟨cache, rfl, fun k => ?_⟩
    by_cases hk : docKey = k
    · rw [if_pos hk, ← hk, hentry, if_neg holder]
    · rw [if_neg hk]

namespace LocalStore
variable [DecidableEq User] {s s' : LocalStore V User}

theorem Sound.acknowledgeBatch_eq (h : s.Sound) {r : MutationBatchResult V}
    {rest : List (MutationBatch V)} (hqueue : s.mutationQueue.queue = r.batch :: rest)
    (hfits : r.Fits) (hcommit : 0 < r.commitVersion) :
    ∃ s' changes, s.acknowledgeBatch r = some (s', changes) ∧ s'.Sound ∧ s.Brings s' changes ∧
      s'.user = s.user ∧ s'.mutationQueue.queue = rest ∧
      ∀ k : DocumentKey, s'.remoteDocumentCache.docs[k]? =
        if r.batch.affects k then r.ackedEntry k s.remoteDocumentCache.docs[k]?
        else s.remoteDocumentCache.docs[k]? := by
  have hwf : s.mutationQueue.WellFormed := h.documents.queue
  have hhead : r.batch ∈ s.mutationQueue.queue := hqueue ▸ List.mem_cons_self
  obtain ⟨queue, hremove, hrest, hwf'⟩ := hwf.removed hqueue
  obtain ⟨cache, hloop, -, hlook⟩ := Loops.foldlM_places
    (fun (cache : MemoryRemoteDocumentCache V) k => cache.docs[k]?) id
    (fun docKey entry => r.ackedEntry docKey entry) (f := applyResult r) (fun _ => True)
    (l := r.batch.keys.toList) (s := s.remoteDocumentCache) trivial fun cache docKey hmem _ => by
      have haffects := r.batch.mem_keys.mp (Std.ExtTreeSet.mem_toList.mp hmem)
      obtain ⟨cache', hcache, hlook⟩ := applyResult_eq hfits cache haffects
      exact ⟨cache', hcache, trivial, hlook⟩
  -- each document of the batch is written once, and no other is
  have hcached : ∀ k : DocumentKey, cache.docs[k]? =
      if r.batch.affects k then r.ackedEntry k s.remoteDocumentCache.docs[k]?
      else s.remoteDocumentCache.docs[k]? := by
    intro k
    refine (hlook k).trans ?_
    simp only [id_eq]
    rw [Loops.filter_eq_toList]
    by_cases hk : r.batch.affects k
    · rw [if_pos (r.batch.mem_keys.mpr hk), if_pos hk]
      rfl
    · rw [if_neg fun hmem => hk (r.batch.mem_keys.mp hmem), if_neg hk]
      rfl
  have hread : ∀ (k : DocumentKey) x, cache.docs[k]? = some x → 0 < x.2 := by
    intro k x hx
    rw [hcached] at hx
    split_ifs at hx with haffects
    · unfold MutationBatchResult.ackedEntry at hx
      split_ifs at hx
      · obtain ⟨d, -, rfl⟩ := Option.map_eq_some_iff.mp hx
        exact hcommit
      · exact h.read k x hx
    · exact h.read k x hx
  have hs' := h.replaced hwf' (fun b hb =>
    h.documents.based b (hqueue ▸ List.mem_cons_of_mem _ (hrest ▸ hb))) hread
  set s' : LocalStore V User := { s with
    remoteDocumentCache := cache
    mutationQueues := Function.update s.mutationQueues s.user queue } with hdef
  have hqueue' : s'.mutationQueue = queue := by simp [hdef, mutationQueue]
  obtain ⟨changes, hchanges, hbrings⟩ := hs'.brings s r.batch.keys fun k hk => by
    have hk : ¬r.batch.affects k := fun haffects => hk (r.batch.mem_keys.mpr haffects)
    change found (pendingView s'.mutationQueue.queue k (cache.get k)) =
      found (pendingView s.mutationQueue.queue k (s.remoteDocumentCache.get k))
    rw [hqueue', hrest, hqueue, pendingView_cons_of_not_affects (h.documents.based _ hhead) hk
      (LocalDocumentsView.hasKey_get _ k)]
    unfold MemoryRemoteDocumentCache.get
    rw [hcached, if_neg hk]
  refine ⟨s', changes, ?_, hs', hbrings, rfl, by rw [hqueue', hrest], hcached⟩
  have hsame : s.withQueue s.mutationQueue = s := by
    unfold LocalStore.withQueue mutationQueue
    rw [Function.update_eq_self]
  have hack : s.mutationQueue.acknowledgeBatch r.batch = some s.mutationQueue := by
    simp [MemoryMutationQueue.acknowledgeBatch, hqueue]
  have hconsistent : s'.mutationQueue.performConsistencyCheck := hqueue' ▸ hwf'.consistent
  unfold acknowledgeBatch
  rw [hack, Option.bind_some, hsame, applyBatchResult, hloop, Option.bind_some, hremove,
    Option.map_some, Option.bind_some, if_pos hconsistent, hchanges, Option.map_some]

end LocalStore

def dataOf (maybeDoc : Option (MaybeDocument V)) : Option V := (found maybeDoc).map Document.data

section Contents
variable {key : DocumentKey} {doc doc' base base' : Option (MaybeDocument V)}

omit [ObjectValue V] in
theorem isSome_dataOf (maybeDoc : Option (MaybeDocument V)) :
    (dataOf maybeDoc).isSome = (found maybeDoc).isSome := Option.isSome_map

theorem patchDocument_data (h : dataOf doc = dataOf doc') {value : V} {mask : FieldMask} :
    patchDocument value mask doc = patchDocument value mask doc' := by
  unfold dataOf at h
  unfold patchDocument
  cases hd : found doc with
  | none =>
    rw [hd, Option.map_none, eq_comm, Option.map_eq_none_iff] at h
    rw [h]
  | some d =>
    rw [hd, Option.map_some, eq_comm, Option.map_eq_some_iff] at h
    obtain ⟨d', hd', hdata⟩ := h
    simp only [hd', hdata]

namespace Mutation
variable {m : Mutation V} {localWriteTime : Timestamp}

theorem plain_valid_congr (hm : m.plain) (h : dataOf doc = dataOf doc') :
    m.precondition.isValidFor doc = m.precondition.isValidFor doc' := by
  rw [plain_valid hm, plain_valid hm, ← isSome_dataOf, ← isSome_dataOf, h]

theorem data_localView_congr (hm : m.plain) (h : HasKey doc m.key) (h' : HasKey doc' m.key)
    (hdata : dataOf doc = dataOf doc') :
    dataOf (m.localView doc base localWriteTime) =
      dataOf (m.localView doc' base' localWriteTime) := by
  unfold localView applyToLocalView verifyKeyMatches
  rw [if_pos h.all_eq, if_pos h'.all_eq, plain_valid_congr hm hdata]
  by_cases hp : m.precondition.isValidFor doc'
  · rw [if_pos hp, if_pos hp]
    cases m with
    | set key value p => rfl
    | patch key value mask p =>
      simp only [Option.getD_some, dataOf, found, Option.bind_some, MaybeDocument.document?,
        Option.map_some, patchDocument_data hdata]
    | delete key p => rfl
    | transform key ts => simp [plain] at hm
  · rw [if_neg hp, if_neg hp]
    exact hdata

theorem data_applyToRemoteDocument (hm : m.plain) (h : HasKey doc m.key) (h' : HasKey doc' m.key)
    (hdata : dataOf doc = dataOf doc') {result : MutationResult V} {d : MaybeDocument V}
    (hd : m.applyToRemoteDocument doc' result = some d) :
    dataOf (some d) = dataOf (m.localView doc base localWriteTime) := by
  unfold applyToRemoteDocument at hd
  split_ifs at hd with hcheck
  unfold localView applyToLocalView verifyKeyMatches
  rw [if_pos h.all_eq]
  cases m with
  | set key value p =>
    obtain rfl : p = .none := by simpa [plain] using hm
    obtain rfl := Option.some.inj hd
    rfl
  | delete key p =>
    obtain rfl : p = .none := by simpa [plain] using hm
    obtain rfl := Option.some.inj hd
    rfl
  | transform key ts => simp [plain] at hm
  | patch key value mask p =>
    have hvalid := plain_valid_congr hm hdata
    dsimp only at hd
    split_ifs at hd with hp
    · obtain rfl := Option.some.inj hd
      rw [if_pos (hvalid.trans hp)]
      simp only [Option.getD_some, dataOf, found, Option.bind_some, MaybeDocument.document?,
        Option.map_some, patchDocument_data hdata]
    · obtain rfl := Option.some.inj hd
      rw [if_neg (hvalid ▸ hp), Option.getD_some]
      -- only a patch of an existing document can fail, and only where there is none
      have hnone : (found doc).isSome = false := by
        have hfails : (patch key value mask p).precondition.isValidFor doc =
            (((patch key value mask p).precondition = .none) || (found doc).isSome) :=
              plain_valid hm
        have hinvalid := hvalid.trans (Bool.eq_false_iff.mpr hp)
        rw [hinvalid, eq_comm, Bool.or_eq_false_iff] at hfails
        exact hfails.2
      rw [← isSome_dataOf, Option.isSome_eq_false_iff, Option.isNone_iff_eq_none] at hnone
      rw [hnone]
      rfl

end Mutation

theorem MutationBatch.data_localView_congr {b : MutationBatch V} (hb : b.plain)
    (h : HasKey doc key) (h' : HasKey doc' key) (hdata : dataOf doc = dataOf doc') :
    dataOf (b.localView key doc) = dataOf (b.localView key doc') := by
  have hb := Bool.and_eq_true_iff.mp hb
  refine localView_rel (R := fun x x' => dataOf x = dataOf x') h h' hdata ?_
  intro m hm hkey x x' base base' hx hx' hR hbase
  rw [List.isEmpty_iff.mp hb.1, List.nil_append] at hm
  subst hkey
  exact Mutation.data_localView_congr (List.all_eq_true.mp hb.2 m hm) hx hx' hR

theorem data_pendingView_congr {batches : List (MutationBatch V)} (hplain : ∀ b ∈ batches, b.plain)
    (h : HasKey doc key) (h' : HasKey doc' key) (hdata : dataOf doc = dataOf doc') :
    dataOf (pendingView batches key doc) = dataOf (pendingView batches key doc') :=
  (List.foldl_rel (r := fun x x' => HasKey x key ∧ HasKey x' key ∧ dataOf x = dataOf x')
    ⟨h, h', hdata⟩ fun b hb _ _ hx => ⟨MutationBatch.hasKey_localView hx.1 b,
      MutationBatch.hasKey_localView hx.2.1 b,
      MutationBatch.data_localView_congr (hplain b hb) hx.1 hx.2.1 hx.2.2⟩).2.2

theorem MutationBatchResult.data_applyToRemoteDocument {r : MutationBatchResult V}
    (hplain : r.batch.plain) (hfits : r.Fits) (h : HasKey doc key)
    {doc' : Option (MaybeDocument V)} (hdoc' : r.batch.applyToRemoteDocument doc key r =
      some doc') :
    dataOf doc' = dataOf (r.batch.localView key doc) := by
  have hb := Bool.and_eq_true_iff.mp hplain
  obtain ⟨-, -, -, hview⟩ := MutationBatch.applyToLocalDocument_eq (b := r.batch) h
  rw [hview, MutationBatch.baseView, List.isEmpty_iff.mp hb.1, List.foldl_nil]
  unfold MutationBatch.applyToRemoteDocument at hdoc'
  rw [if_pos ⟨h.all_eq, r.length_eq.symm⟩] at hdoc'
  have hloop : ∀ (l : List (Mutation V × MutationResult V)) (x y z : Option (MaybeDocument V)),
      (∀ e ∈ l, e.1.plain ∧ e.2.Fits e.1) → HasKey x key → HasKey y key → dataOf x = dataOf y →
      l.foldlM (fun maybeDoc e =>
        if e.1.key = key then (e.1.applyToRemoteDocument maybeDoc e.2).map some
        else some maybeDoc) y = some z →
      dataOf z = dataOf ((l.map Prod.fst).foldl (fun maybeDoc m =>
        if m.key = key then m.localView maybeDoc doc r.batch.localWriteTime else maybeDoc) x) := by
    intro l
    induction l with
    | nil =>
      intro x y z _ _ _ hdata hz
      rw [← Option.some.inj hz]
      exact hdata.symm
    | cons e l ih =>
      intro x y z hl hx hy hdata hz
      obtain ⟨he, hl⟩ := List.forall_mem_cons.mp hl
      rw [List.foldlM_cons] at hz
      rw [List.map_cons, List.foldl_cons]
      by_cases hkey : e.1.key = key
      · subst hkey
        rw [if_pos rfl] at hz
        obtain ⟨d, hd, hdkey⟩ := Mutation.applyToRemoteDocument_eq hy he.2
        rw [hd] at hz
        rw [if_pos rfl]
        exact ih _ _ _ hl (Mutation.applyToLocalView_eq hx).2 (hasKey_some.mpr hdkey)
          (Mutation.data_applyToRemoteDocument he.1 hx hy hdata hd).symm hz
      · rw [if_neg hkey] at hz
        rw [if_neg hkey]
        exact ih _ _ _ hl hx hy hdata hz
  have hall : ∀ e ∈ r.batch.mutations.zip r.mutationResults, e.1.plain ∧ e.2.Fits e.1 :=
    fun e he => ⟨List.all_eq_true.mp hb.2 e.1 (List.of_mem_zip he).1, hfits e he⟩
  rw [hloop _ _ _ _ hall h h rfl hdoc', List.map_fst_zip r.length_eq.le]

end Contents

def MutationBatchResult.Ahead (r : MutationBatchResult V) (c : MemoryRemoteDocumentCache V)
    (key : DocumentKey) : Prop :=
  (c.get key).all fun doc => doc.version < (r.docVersions[key]?).getD 0

namespace LocalStore
variable {s s' : LocalStore V User}

/-- An acknowledged batch changes no data that is known: the document in the cache is now what the
batch made of it. -/
theorem Sound.data_acknowledged (h : s.Sound) {r : MutationBatchResult V}
    {rest : List (MutationBatch V)} (hqueue : s.mutationQueue.queue = r.batch :: rest)
    (hrest : s'.mutationQueue.queue = rest) (hfits : r.Fits)
    (hplain : ∀ b ∈ s.mutationQueue.queue, b.plain)
    (hcached : ∀ k : DocumentKey, s'.remoteDocumentCache.docs[k]? =
      if r.batch.affects k then r.ackedEntry k s.remoteDocumentCache.docs[k]?
      else s.remoteDocumentCache.docs[k]?) {k : DocumentKey}
    (hahead : r.batch.affects k → r.Ahead s.remoteDocumentCache k) :
    dataOf (s'.localView k) = dataOf (s.localView k) := by
  have hhead : r.batch ∈ s.mutationQueue.queue := hqueue ▸ List.mem_cons_self
  have hdoc := LocalDocumentsView.hasKey_get s.remoteDocumentCache k
  change dataOf (pendingView s'.mutationQueue.queue k (s'.remoteDocumentCache.get k)) =
    dataOf (pendingView s.mutationQueue.queue k (s.remoteDocumentCache.get k))
  rw [hrest, hqueue]
  -- the batch does to the cached document what it did to the view
  have hdata : dataOf (s'.remoteDocumentCache.get k) =
      dataOf (r.batch.localView k (s.remoteDocumentCache.get k)) := by
    unfold MemoryRemoteDocumentCache.get at *
    rw [hcached]
    by_cases haffects : r.batch.affects k
    · obtain ⟨doc, hremote, -, -⟩ := MutationBatchResult.applyToRemoteDocument_eq hfits hdoc
      have hsame := MutationBatchResult.data_applyToRemoteDocument
        (hplain _ hhead) hfits hdoc hremote
      have holder := hahead haffects
      unfold MutationBatchResult.Ahead MemoryRemoteDocumentCache.get at holder
      rw [if_pos haffects, MutationBatchResult.ackedEntry, if_pos holder, hremote, Option.join_some,
        Option.map_map, ← hsame]
      cases doc <;> rfl
    · rw [if_neg haffects,
        MutationBatch.localView_of_not_affects (h.documents.based _ hhead) haffects hdoc]
  exact data_pendingView_congr (fun b hb => hplain b (hqueue ▸ List.mem_cons_of_mem _ hb))
    (LocalDocumentsView.hasKey_get _ k) (MutationBatch.hasKey_localView hdoc _) hdata

end LocalStore
end Firestore
